/-!
# Call expressions

The parameters of a call are written as expressions: literals, names of the
context, and chains of attributes (`a.b`) or fields (`a["b"]`) that start from a
name.
-/

namespace PageLoom

/-- An expression. -/
inductive Expr
  | int (n : Int64)
  | float (x : Float)
  | str (s : String)
  | name (name : String)
  | list (items : List Expr)
  | tuple (items : List Expr)
  | dict (pairs : List (Expr × Expr))
  | attr (base : String) (chain : List String)
  | field (base : String) (keys : List Expr)
deriving Inhabited

/-- A call: the name of the function, and the parameters as written. -/
structure CallExpr where
  /-- The function. -/
  function : String
  /-- The parameters in order; a name may come more than once. -/
  params : List (String × Expr)
deriving Inhabited

mutual
/-- Whether an expression refers to no name. -/
def Expr.isLiteral : Expr → Bool
  | .int _ => true
  | .float _ => true
  | .str _ => true
  | .name _ => false
  | .list items => Expr.allLiteral items
  | .tuple items => Expr.allLiteral items
  | .dict pairs => Expr.pairsLiteral pairs
  | .attr .. => false
  | .field .. => false

/-- Whether no expression of a list refers to a name. -/
def Expr.allLiteral : List Expr → Bool
  | [] => true
  | e :: es => e.isLiteral && Expr.allLiteral es

/-- Whether no key and no value of a list of pairs refers to a name. -/
def Expr.pairsLiteral : List (Expr × Expr) → Bool
  | [] => true
  | (k, v) :: ps => k.isLiteral && v.isLiteral && Expr.pairsLiteral ps
end

end PageLoom
