import PageLoom.Call.Eval

/-!
# Arguments

A function reads its arguments by name.  An argument it needs may be missing,
and an argument that is there may have the wrong type.
-/

namespace PageLoom

/-- The arguments of a call. -/
abbrev Arguments := NameMap Value

namespace Arguments

/-- An argument that has to be there. -/
def require (args : Arguments) (name : String) : Except FunctionError Value :=
  match args.get? name with
  | some v => .ok v
  | none => .error (.missing name)

/-- A value seen as something, or a mismatch. -/
def view {α : Type} (name : String) (shape : ArgumentShape) (f : Value → Option α) (v : Value) :
    Except FunctionError α :=
  match f v with
  | some a => .ok a
  | none => .error (.mismatch name shape v.type)

/-- An argument seen as something, if it is there. -/
def optional {α : Type} (args : Arguments) (name : String) (shape : ArgumentShape)
    (f : Value → Option α) : Except FunctionError (Option α) :=
  match args.get? name with
  | none => .ok none
  | some v => (view name shape f v).map some

/-- A string that has to be there. -/
def string (args : Arguments) (name : String) : Except FunctionError String := do
  view name .string Value.string? (← args.require name)

/-- A string, if it is there. -/
def string? (args : Arguments) (name : String) : Except FunctionError (Option String) :=
  args.optional name .string Value.string?

/-- A number, if it is there. -/
def number? (args : Arguments) (name : String) : Except FunctionError (Option Float) :=
  args.optional name .number Value.number?

/-- A value as a flag.  An integer is set unless it is zero. -/
def flagOf? : Value → Option Bool
  | .bool b => some b
  | .int n => some (n != 0)
  | _ => none

/-- A flag, if it is there. -/
def flag? (args : Arguments) (name : String) : Except FunctionError (Option Bool) :=
  args.optional name .bool flagOf?

/-- The items of a list or tuple that has to be there. -/
def items (args : Arguments) (name : String) : Except FunctionError (List Value) := do
  view name .list Value.items? (← args.require name)

/-- The numbers of a list or tuple that has to be there.  A mismatch tells the
type of the first item that is no number. -/
def numbers (args : Arguments) (name : String) : Except FunctionError (List Float) := do
  (← args.items name).mapM (view name .numbers Value.number?)

/-- The texts of the items of a list or tuple that has to be there. -/
def labels (args : Arguments) (name : String) : Except FunctionError (List String) := do
  return (← args.items name).map Value.text

end Arguments

end PageLoom
