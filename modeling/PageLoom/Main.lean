import PageLoom.Command.Run
import PageLoom.Disk.Changes

/-!
The program on a real disk: what the command line is about is read, the command line is
carried out, and what has changed is written back.
-/

namespace PageLoom

/-- Read an entry of the real disk.  Unless `deep`, folders are read as empty. -/
partial def readEntry (deep : Bool) (entry : IO.FS.DirEntry) : IO Entry := do
  if ← entry.path.isDir then
    if !deep then return .folder []
    let inside ← (← entry.path.readDir).toList.mapM fun e => return (e.fileName, ← readEntry true e)
    return .folder (inside.foldl (fun entries e => insertName e.1 e.2 entries) [])
  return .file (← IO.FS.readBinFile entry.path)

/-- Read what is at a path, if there is anything. -/
def readPath (deep : Bool) (d : Disk) (p : Path) : IO Disk := do
  if p.text.isEmpty then return d
  let entry : IO.FS.DirEntry := { root := ← IO.currentDir, fileName := p.text }
  if ← entry.path.pathExists then return d.mount p (← readEntry deep entry)
  return d

/-- Read what an invocation is about. -/
def readFor (i : Invocation) : IO Disk := do
  let here := ((← IO.currentDir).toString.splitOn "/").filter (· != "")
  let start : Disk := { here }
  let start := { ((start.makeFolders (Disk.pathAt here)).2) with here }
  let d ← readPath false start (i.root.getD ⟨"./"⟩)
  let d ← readPath true d (Config.fileOf i)
  let c := match Config.load d (Config.fileOf i) with
    | .ok c => c
    | .error _ => {}
  (pathsOf i (c.resolve d i)).foldlM (readPath true) d

/-- Make a change on the real disk. -/
def writeChange : Change → IO Unit
  | .makeFolder place => IO.FS.createDirAll (Disk.pathAt place).text
  | .write place bytes => IO.FS.writeBinFile (Disk.pathAt place).text bytes
  | .remove place => do
      let entry : IO.FS.DirEntry := { root := "/", fileName := (Disk.pathAt place).text }
      if ← entry.path.isDir then IO.FS.removeDirAll entry.path else IO.FS.removeFile entry.path

/-- A seed for identifiers. -/
def freshSeed : IO Nat := do
  let bytes ← IO.getRandomBytes 16
  return bytes.toList.foldl (fun n b => 256 * n + b.toNat) 0

end PageLoom

open PageLoom in
/-- Carry out the command line. -/
def main (args : List String) : IO UInt32 := do
  let d ← match Invocation.ofArguments args with
    | .ok i => readFor i
    | .error _ => pure {}
  let report := runCommand d (Fresh.ofSeed (← freshSeed)) args
  (d.changes report.disk).forM writeChange
  report.log.forM IO.eprintln
  if report.code == 2 then IO.eprint usageText
  IO.print report.output
  return UInt32.ofNat report.code
