import PageLoom.Call.Error
import PageLoom.Value.Context

/-!
# Evaluating calls

Expressions are evaluated from left to right in a context.  The first name that
the context lacks, or the first attribute that a value lacks, is an error.  A
field that a value lacks is null.  Of several parameters with one name the last
one counts.
-/

namespace PageLoom

/-- A call ready to be made. -/
structure Call where
  /-- The function. -/
  function : String
  /-- Its arguments. -/
  arguments : NameMap Value

/-- The value of a name. -/
def Context.lookup (c : Context) (name : String) : Except CallError Value :=
  match c.get? name with
  | some v => .ok v
  | none => .error (.variableNotFound name)

/-- Follow a chain of attributes.  `path` is the chain followed so far. -/
def followAttributes (path : String) (v : Value) : List String → Except CallError Value
  | [] => .ok v
  | a :: rest =>
      match v.attr? a with
      | some w => followAttributes (path ++ "." ++ a) w rest
      | none => .error (.attributeNotFound path a)

mutual
/-- The value of an expression. -/
def Expr.eval (c : Context) : Expr → Except CallError Value
  | .int n => .ok (.int n)
  | .float x => .ok (.float x)
  | .str s => .ok (.str s)
  | .name x => c.lookup x
  | .list items =>
      match Expr.evalItems c items with
      | .ok vs => .ok (.list vs)
      | .error e => .error e
  | .tuple items =>
      match Expr.evalItems c items with
      | .ok vs => .ok (.tuple vs)
      | .error e => .error e
  | .dict pairs =>
      match Expr.evalPairs c pairs with
      | .ok es => .ok (.dict (Dict.ofList es))
      | .error e => .error e
  | .attr base chain =>
      match c.lookup base with
      | .ok v => followAttributes base v chain
      | .error e => .error e
  | .field base keys =>
      match c.lookup base with
      | .ok v => Expr.followFields c v keys
      | .error e => .error e

/-- The values of a list of expressions. -/
def Expr.evalItems (c : Context) : List Expr → Except CallError (List Value)
  | [] => .ok []
  | e :: es =>
      match Expr.eval c e with
      | .error err => .error err
      | .ok v =>
          match Expr.evalItems c es with
          | .error err => .error err
          | .ok vs => .ok (v :: vs)

/-- The values of a list of pairs. -/
def Expr.evalPairs (c : Context) : List (Expr × Expr) → Except CallError (List (Value × Value))
  | [] => .ok []
  | (k, e) :: ps =>
      match Expr.eval c k with
      | .error err => .error err
      | .ok key =>
          match Expr.eval c e with
          | .error err => .error err
          | .ok v =>
              match Expr.evalPairs c ps with
              | .error err => .error err
              | .ok es => .ok ((key, v) :: es)

/-- Follow a chain of fields.  A missing field is null. -/
def Expr.followFields (c : Context) (v : Value) : List Expr → Except CallError Value
  | [] => .ok v
  | k :: ks =>
      match Expr.eval c k with
      | .error err => .error err
      | .ok key => Expr.followFields c ((v.field? key).getD .null) ks
end

/-- The values of parameters. -/
def evalParams (c : Context) : List (String × Expr) → Except CallError (List (String × Value))
  | [] => .ok []
  | (name, e) :: ps =>
      match e.eval c with
      | .error err => .error err
      | .ok v =>
          match evalParams c ps with
          | .error err => .error err
          | .ok args => .ok ((name, v) :: args)

/-- The call of a call expression. -/
def CallExpr.eval (c : Context) (call : CallExpr) : Except CallError Call :=
  match evalParams c call.params with
  | .error err => .error err
  | .ok args => .ok ⟨call.function, NameMap.ofList args⟩

/-- The call that a text spells. -/
def Call.ofSource (c : Context) (source : String) : Except CallError Call :=
  match parseCall source with
  | .error e => .error (.syntaxError e)
  | .ok call => call.eval c

end PageLoom
