/-!
# Errors of a tree

A tree refuses names that cannot be used, documents whose children do not fit
together, and ids and paths that lead nowhere.
-/

namespace PageLoom

/-- Why a tree refuses. -/
inductive TreeError
  /-- Two children of a document have one name. -/
  | duplicateName (document name : String)
  /-- Two children of a document are stored under one name. -/
  | duplicateFile (document file : String)
  /-- A document does not have exactly one index among its children. -/
  | indexCount (document : String) (found : Nat)
  /-- A child belongs to a document already. -/
  | attached (name : String)
  | pathNotFound (path : String)
  | invalidName (name : String)
  | unknownNode (id : Nat)
deriving DecidableEq, Repr

/-- The message of an error. -/
def TreeError.message : TreeError → String
  | .duplicateName document name =>
      "document `" ++ document ++ "` has more than one child named `" ++ name ++ "`"
  | .duplicateFile document file =>
      "document `" ++ document ++ "` has more than one child written to `" ++ file ++ "`"
  | .indexCount document found =>
      "document `" ++ document ++ "` needs exactly one index child, found " ++ toString found
  | .attached name => "node `" ++ name ++ "` is already attached to a document"
  | .pathNotFound path => "path `" ++ path ++ "` not found"
  | .invalidName name => "invalid node name `" ++ name ++ "`"
  | .unknownNode id => "unknown node id " ++ toString id

end PageLoom
