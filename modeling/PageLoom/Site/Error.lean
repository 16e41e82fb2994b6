import PageLoom.Config.Error
import PageLoom.Log
import PageLoom.Tree.Render

/-!
# Errors of a site

An error tells what was being done, and then why that failed.  In the log, failed calls
are told one by one after what was being done.
-/

namespace PageLoom

/-- Why a site is not built or an article not rendered. -/
inductive SiteError
  | config (e : ConfigError)
  | cannotClean (path : Path) (e : DiskError)
  | cannotMake (path : Path) (e : DiskError)
  | cannotRead (path : Path) (e : DiskError)
  | cannotList (path : Path) (e : DiskError)
  | cannotCopy (source target : Path) (e : DiskError)
  | badRootName (e : TreeError)
  | badFolderName (path : Path) (e : TreeError)
  | badPageName (path : Path) (e : TreeError)
  | badDocument (path : Path) (e : TreeError)
  | noPages (path : Path)
  | rendering (e : RenderError)
  | calls (errors : List SpanError)
deriving Repr

namespace SiteError

/-- What was being done, and why it failed. -/
def message : SiteError → String
  | config e => e.story
  | cannotClean path e => "Failed to clean " ++ path.text ++ ": " ++ e.message
  | cannotMake path e => "Failed to create " ++ path.text ++ ": " ++ e.message
  | cannotRead path e => "Failed to read " ++ path.text ++ ": " ++ e.message
  | cannotList path e =>
      "Failed to read " ++ path.text ++ ": IO error for operation on " ++ path.text ++ ": " ++
        e.message ++ ": " ++ e.message
  | cannotCopy source target e =>
      "Failed to copy " ++ source.text ++ " to " ++ target.text ++ ": " ++ e.message
  | badRootName e => e.message
  | badFolderName path e => "Invalid directory name " ++ path.text ++ ": " ++ e.message
  | badPageName path e => "Invalid page name " ++ path.text ++ ": " ++ e.message
  | badDocument path e => "Invalid document " ++ path.text ++ ": " ++ e.message
  | noPages path => "No pages found in " ++ path.text
  | rendering e => e.message
  | calls errors => spanErrorsMessage errors

/-- The messages of an error in the log. -/
def messages : SiteError → List String
  | rendering (.output path (.calls errors)) =>
      ("failed to render `" ++ path.text ++ "`") :: errors.map SpanError.message
  | calls errors => errors.map SpanError.message
  | e => [e.message]

/-- The notes of an error. -/
def notes (e : SiteError) : List Note := e.messages.map (Note.mk "error")

end SiteError

end PageLoom
