import PageLoom.Disk.Basic
import PageLoom.Span.Marker
import PageLoom.Value.Context

/-!
# Errors of a configuration

A configuration fails when its file or that of its context cannot be read, or says
something that cannot be meant.  The message of a file that cannot be read is followed
by the reason where the whole story is told.
-/

namespace PageLoom

/-- Why a configuration fails. -/
inductive ConfigError
  | file (path : Path) (e : DiskError)
  /-- The file of the configuration is no TOML, or has settings that there are not. -/
  | notSettings
  /-- The file of a context is no JSON. -/
  | notJson (path : Path)
  | markers (e : MarkerError)
  | contextMissing (path : Path)
  | contextNotFile (path : Path)
  | contextShape (path : Path) (e : ContextError)
deriving DecidableEq, Repr

namespace ConfigError

/-- What is wrong with settings that can be read. -/
def invalid (what : String) : String := "Config validation error: " ++ what

/-- The message of an error, without its reason. -/
def message : ConfigError → String
  | .file path _ => "IO error when reading `" ++ path.text ++ "`"
  | .notSettings => "Config file parsing error"
  | .notJson path => "Context file `" ++ path.text ++ "` is not valid JSON"
  | .markers e => invalid ("[build.markers] " ++ e.message)
  | .contextMissing path => invalid ("[build.context] `" ++ path.text ++ "` not found")
  | .contextNotFile path => invalid ("[build.context] `" ++ path.text ++ "` is not a file")
  | .contextShape path e => invalid ("`" ++ path.text ++ "`: " ++ e.message)

/-- The message of an error, and its reason if that is a matter of the disk. -/
def story (e : ConfigError) : String :=
  match e with
  | .file _ reason => e.message ++ ": " ++ reason.message
  | _ => e.message

end ConfigError

end PageLoom
