import PageLoom.Json.Basic
import PageLoom.Value.Basic

/-!
# Values and JSON

`Value.ofJson` reads a document as a value: an array is a list, an object a
dictionary with string keys.  `Value.toJson` is the document of a value for use
in a script: a tuple is an array, the keys of a dictionary are the texts of its
keys, and a host object and a double without JSON text are null.
-/

namespace PageLoom.Value

mutual
/-- A document as a value. -/
def ofJson : Json → Value
  | .null => .null
  | .bool b => .bool b
  | .int n => .int n
  | .float x => .float x
  | .str s => .str s
  | .arr items => .list (ofJsonItems items)
  | .obj fields => .dict (Dict.ofList (ofJsonFields fields))

/-- The items of an array. -/
def ofJsonItems : List Json → List Value
  | [] => []
  | j :: js => ofJson j :: ofJsonItems js

/-- The entries of an object. -/
def ofJsonFields : List (String × Json) → List (Value × Value)
  | [] => []
  | (k, j) :: fs => (.str k, ofJson j) :: ofJsonFields fs
end

mutual
/-- The document of a value. -/
def toJson : Value → Json
  | .null => .null
  | .bool b => .bool b
  | .int n => .int n
  | .float x => if x.isFinite then .float x else .null
  | .str s => .str s
  | .list items => .arr (toJsonItems items)
  | .tuple items => .arr (toJsonItems items)
  | .dict entries => Json.object (toJsonEntries entries)
  | .host .. => .null

/-- The documents of the items of a list. -/
def toJsonItems : List Value → List Json
  | [] => []
  | v :: vs => toJson v :: toJsonItems vs

/-- The fields of the entries of a dictionary. -/
def toJsonEntries : List (Value × Value) → List (String × Json)
  | [] => []
  | (k, v) :: es => (k.text, toJson v) :: toJsonEntries es
end

end PageLoom.Value
