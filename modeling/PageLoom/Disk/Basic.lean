import PageLoom.Disk.Entry
import PageLoom.Disk.Path
import PageLoom.Text.Bytes

/-!
# Disks

A disk is a folder of entries, the topmost one, and the folder that relative paths
start in.  A path is followed segment by segment through folders.  It may end at an
entry, or with one name for which there is none yet.

What can be done to a disk either succeeds or fails with the first obstacle on the
way, and leaves the disk as it was if it fails.  Only `makeFolders` takes several
steps, and keeps those that it has taken.
-/

namespace PageLoom

/-- Why something on a disk fails. -/
inductive DiskError
  | notFound | exists | notFolder | isFolder | nameTooLong | nullInName | notText
deriving DecidableEq, Repr

/-- The message of a failure. -/
def DiskError.message : DiskError → String
  | .notFound => "No such file or directory (os error 2)"
  | .exists => "File exists (os error 17)"
  | .notFolder => "Not a directory (os error 20)"
  | .isFolder => "Is a directory (os error 21)"
  | .nameTooLong => "File name too long (os error 36)"
  | .nullInName => "file name contained an unexpected NUL byte"
  | .notText => "stream did not contain valid UTF-8"

/-- The longest name, in bytes. -/
def maxNameBytes : Nat := 255

/-- Files and folders. -/
structure Disk where
  /-- The topmost folder. -/
  top : Entry := .folder []
  /-- The place of the folder that relative paths start in. -/
  here : List String := []

/-- The text that the content of a file is. -/
def textOf (bytes : ByteArray) : Except DiskError String :=
  match String.fromUTF8? bytes with
  | some text => .ok text
  | none => .error .notText

/-- Where a path ends. -/
inductive Spot
  /-- At an entry. -/
  | taken (place : List String) (e : Entry)
  /-- In a folder, with a name that is not in it. -/
  | free (place : List String)

namespace Entry

/-- Follow segments from the folder at a place, which is given last name first. -/
def follow (top : Entry) (place : List String) : List String → Except DiskError Spot
  | [] =>
      match top.at? place.reverse with
      | some e => .ok (.taken place.reverse e)
      | none => .error .notFound
  | s :: rest =>
      match top.at? place.reverse with
      | none => .error .notFound
      | some (.file _) => .error .notFolder
      | some (.folder entries) =>
          if s = "" ∨ s = "." then top.follow place rest
          else if s = ".." then top.follow place.tail rest
          else if maxNameBytes < byteLength s.toList then .error .nameTooLong
          else if (lookupName s entries).isSome then top.follow (s :: place) rest
          else if rest.all (· == "") then .ok (.free (s :: place).reverse)
          else .error .notFound

end Entry

namespace Disk

/-- Follow segments from the start of a path. -/
def followFrom (d : Disk) (p : Path) (segments : List String) : Except DiskError Spot :=
  if p.text.isEmpty then .error .notFound
  else if p.text.toList.contains (Char.ofNat 0) then .error .nullInName
  else d.top.follow (if p.isAbsolute then [] else d.here.reverse) segments

/-- Follow a path. -/
def follow (d : Disk) (p : Path) : Except DiskError Spot := d.followFrom p p.segments

/-- Follow a path as the name of something to be made, for which a `/` at its end does
not matter. -/
def followToMake (d : Disk) (p : Path) : Except DiskError Spot :=
  d.followFrom p (p.segments.reverse.dropWhile (· == "")).reverse

/-! ## Looking -/

/-- The place and the entry at a path. -/
def locate (d : Disk) (p : Path) : Except DiskError (List String × Entry) :=
  match d.follow p with
  | .ok (.taken place e) => .ok (place, e)
  | .ok (.free _) => .error .notFound
  | .error e => .error e

/-- Whether there is an entry at a path. -/
def has (d : Disk) (p : Path) : Bool :=
  match d.locate p with
  | .ok _ => true
  | .error _ => false

/-- Whether there is a folder at a path. -/
def hasFolder (d : Disk) (p : Path) : Bool :=
  match d.locate p with
  | .ok (_, .folder _) => true
  | _ => false

/-- Whether there is a file at a path. -/
def hasFile (d : Disk) (p : Path) : Bool :=
  match d.locate p with
  | .ok (_, .file _) => true
  | _ => false

/-- What is in the folder at a path, sorted by name. -/
def list (d : Disk) (p : Path) : Except DiskError (List (String × Entry)) :=
  match d.locate p with
  | .ok (_, .folder entries) => .ok entries
  | .ok (_, .file _) => .error .notFolder
  | .error e => .error e

/-- The content of the file at a path. -/
def read (d : Disk) (p : Path) : Except DiskError ByteArray :=
  match d.locate p with
  | .ok (_, .file bytes) => .ok bytes
  | .ok (_, .folder _) => .error .isFolder
  | .error e => .error e

/-- The text in the file at a path. -/
def readText (d : Disk) (p : Path) : Except DiskError String :=
  match d.read p with
  | .error e => .error e
  | .ok bytes => textOf bytes

/-- The absolute path of a place. -/
def pathAt (place : List String) : Path := ⟨"/" ++ pathOf place⟩

/-- An absolute path.  That of an entry has only the names that lead to it. -/
def absolute (d : Disk) (p : Path) : Path :=
  match d.locate p with
  | .ok (place, _) => pathAt place
  | .error _ => if p.isAbsolute then p else (pathAt d.here).join p.text

/-! ## Changing -/

/-- Make an empty folder. -/
def makeFolder (d : Disk) (p : Path) : Except DiskError Disk :=
  match d.followToMake p with
  | .ok (.free place) => .ok { d with top := d.top.put place (.folder []) }
  | .ok (.taken _ _) => .error .exists
  | .error e => .error e

/-- Write a file, in place of what was in it. -/
def write (d : Disk) (p : Path) (bytes : ByteArray) : Except DiskError Disk :=
  match d.followToMake p with
  | .error e => .error e
  | .ok (.taken _ (.folder _)) => .error .isFolder
  | .ok (.taken place (.file _)) | .ok (.free place) =>
      if p.segments.getLast? = some "" then .error .isFolder
      else .ok { d with top := d.top.put place (.file bytes) }

/-- Remove a folder with all that is in it. -/
def removeFolder (d : Disk) (p : Path) : Except DiskError Disk :=
  match d.locate p with
  | .error e => .error e
  | .ok (_, .file _) => .error .notFolder
  | .ok (place, .folder _) => .ok { d with top := d.top.remove place }

/-- Copy a file.  The copy is emptied before the file is read. -/
def copy (d : Disk) (source target : Path) : Except DiskError Disk :=
  match d.read source with
  | .error e => .error e
  | .ok _ =>
      match d.write target ByteArray.empty with
      | .error e => .error e
      | .ok d =>
          match d.read source with
          | .error e => .error e
          | .ok bytes => d.write target bytes

/-- Make a folder and the folders that it is in.  `folders` starts with the folder and
goes on with those that it is in, innermost first. -/
def makeFoldersFrom (d : Disk) : List Path → Except DiskError Unit × Disk
  | [] => (.error .notFound, d)
  | p :: folders =>
      if p.text.isEmpty then (.ok (), d)
      else
        match d.makeFolder p with
        | .ok d => (.ok (), d)
        | .error .notFound =>
            match d.makeFoldersFrom folders with
            | (.error e, d) => (.error e, d)
            | (.ok (), d) =>
                match d.makeFolder p with
                | .ok d => (.ok (), d)
                | .error e => (if d.hasFolder p then .ok () else .error e, d)
        | .error e => (if d.hasFolder p then .ok () else .error e, d)

/-- Make a folder and the folders that it is in, unless they are there. -/
def makeFolders (d : Disk) (p : Path) : Except DiskError Unit × Disk :=
  d.makeFoldersFrom (p :: p.folders)

/-- Have an entry at a path, in place of what is there, with the folders it is in. -/
def mount (d : Disk) (p : Path) (e : Entry) : Disk :=
  let d := match p.folder? with
    | some folder => (d.makeFolders folder).2
    | none => d
  match d.followToMake p with
  | .ok (.taken place _) => { d with top := d.top.put place e }
  | .ok (.free place) => { d with top := d.top.put place e }
  | .error _ => d

end Disk

end PageLoom
