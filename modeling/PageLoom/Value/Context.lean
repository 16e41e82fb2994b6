import PageLoom.NameMap
import PageLoom.Value.Json

/-!
# Contexts

A context gives the variables of a page their values.  It is read from a JSON
object.  Its scalars, the booleans, numbers and strings, can also be referred to
from the text of the page.
-/

namespace PageLoom

/-- The variables of a page. -/
abbrev Context := NameMap Value

/-- The shape of a JSON document that is no object. -/
inductive ContextError
  | notObject (shape : String)
deriving DecidableEq, Repr

/-- The message of a shape error. -/
def ContextError.message : ContextError → String
  | .notObject shape => "context must be a JSON object, found " ++ shape

namespace Context

/-- The context of a JSON object. -/
def ofJson? : Json → Except ContextError Context
  | .obj fields => .ok (NameMap.ofList (fields.map fun f => (f.1, Value.ofJson f.2)))
  | .null => .error (.notObject "null")
  | .bool _ => .error (.notObject "bool")
  | .int _ => .error (.notObject "number")
  | .float _ => .error (.notObject "number")
  | .str _ => .error (.notObject "string")
  | .arr _ => .error (.notObject "array")

/-- The text of a scalar. -/
def scalarText? : Value → Option String
  | .bool b => some (Value.bool b).text
  | .int n => some (Value.int n).text
  | .float x => some (Value.float x).text
  | .str s => some s
  | _ => none

/-- The texts of the scalars of a context. -/
def scalars (c : Context) : NameMap String := c.filterMap scalarText?

end Context

end PageLoom
