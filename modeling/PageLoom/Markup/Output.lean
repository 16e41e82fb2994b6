import PageLoom.Disk.Work
import PageLoom.Html.Minify
import PageLoom.Markup.Node

/-!
# Rendering to files

A node is rendered first.  Only then is its markup written, made smaller if asked to,
and the folders for its file are made.  So a node that cannot be rendered leaves the
disk as it was.
-/

namespace PageLoom

/-- Why a node is not written. -/
inductive OutputError
  /-- Calls failed. -/
  | calls (errors : List SpanError)
  /-- A file or a folder cannot be made. -/
  | disk (path : Path) (e : DiskError)
deriving Repr

/-- The message of an error. -/
def OutputError.message : OutputError → String
  | .calls errors => spanErrorsMessage errors
  | .disk path e => "IO error when writing `" ++ path.text ++ "`: " ++ e.message

/-- The markup to be written. -/
def finishMarkup (smaller : Bool) (markup : String) : String :=
  if smaller then Html.minify markup else markup

/-- Write a file, in folders that are made if they are not there. -/
def writeFile (p : Path) (content : String) : Work OutputError Unit := do
  match p.folder? with
  | some folder => if folder.text.isEmpty then pure () else Work.makeFolders folder (.disk folder)
  | none => pure ()
  Work.change (·.write p content.toUTF8) (.disk p)

/-- Render a node to a file. -/
def Node.output (n : Node) (p : Path) (smaller : Bool) (fresh : Fresh) :
    Work OutputError Fragment := do
  let f ← Work.ofExcept ((n.render fresh).mapError .calls)
  writeFile p (finishMarkup smaller f.markup)
  return f

end PageLoom
