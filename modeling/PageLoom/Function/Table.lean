import PageLoom.Call.Arguments
import PageLoom.Markup.Fragment
import PageLoom.Text.Quoted

/-!
# Function tables

A function makes a fragment of the arguments of a call.  It is also given an
identifier that no other call gets, to name elements by.

A function table is a stack of layers.  A function is looked up in the topmost
layer that has one of its name, so an upper layer can add functions and hide
others without changing the layers below.
-/

namespace PageLoom

/-- A function: given an identifier of its own and the arguments of a call. -/
abbrev Function := String → Arguments → Except FunctionError Fragment

/-- A stack of layers. -/
structure FunctionTable where
  /-- The topmost layer. -/
  top : NameMap Function
  /-- The layers below it, topmost first. -/
  below : List (NameMap Function) := []

namespace FunctionTable

/-- A table without functions. -/
def empty : FunctionTable := ⟨.empty, []⟩

/-- The layers, topmost first. -/
def layers (t : FunctionTable) : List (NameMap Function) := t.top :: t.below

/-- A table with an empty layer on top of the layers of `t`. -/
def layered (t : FunctionTable) : FunctionTable := ⟨.empty, t.layers⟩

/-- Register a function in the topmost layer. -/
def register (t : FunctionTable) (name : String) (f : Function) : FunctionTable :=
  { t with top := t.top.insert name f }

/-- The function of a name. -/
def get? (t : FunctionTable) (name : String) : Option Function :=
  t.layers.findSome? fun layer => layer.get? name

/-- Whether there is a function of a name. -/
def contains (t : FunctionTable) (name : String) : Bool := (t.get? name).isSome

/-- The names of all layers as one map. -/
def nameSet (t : FunctionTable) : NameMap Unit :=
  .ofList (t.layers.flatMap fun layer => layer.names.map (·, ()))

/-- The names that can be looked up, in order. -/
def names (t : FunctionTable) : List String := t.nameSet.names

/-- The text that shows a table: its names. -/
def shown (t : FunctionTable) : String :=
  "FunctionTable \x7b names: [" ++ ", ".intercalate (t.names.map quoted) ++ "] \x7d"

end FunctionTable

end PageLoom
