import PageLoom.Decimal.Layout
import PageLoom.NameMap

/-!
# Values

A call computes with values: null, booleans, integers of 64 bits, doubles,
strings, lists, tuples, dictionaries, and host objects.  A host object comes
from outside and is known by its identity, its text, and the attributes and
fields it answers to.

Values are compared with `same`.  A list never equals a tuple and an integer
never equals a double.  Doubles are compared as numbers, so NaN differs from
itself.  A dictionary keeps its entries in the order in which their keys were
first inserted.  Keys can be any values, so a look-up compares them one by one.
-/

namespace PageLoom

/-- A value. -/
inductive Value
  | null
  | bool (b : Bool)
  | int (n : Int64)
  | float (x : Float)
  | str (s : String)
  | list (items : List Value)
  | tuple (items : List Value)
  | dict (entries : List (Value × Value))
  | host (identity : Nat) (text : String) (attributes fields : List (String × Value))
deriving Inhabited

/-- The types of values. -/
inductive ValueType
  | null | bool | int | float | string | list | tuple | dict | object
deriving DecidableEq, Repr

/-- The name of a type in messages. -/
def ValueType.name : ValueType → String
  | .null => "null"
  | .bool => "bool"
  | .int => "int"
  | .float => "float"
  | .string => "string"
  | .list => "list"
  | .tuple => "tuple"
  | .dict => "dict"
  | .object => "object"

namespace Value

/-- The type of a value. -/
def type : Value → ValueType
  | .null => .null
  | .bool _ => .bool
  | .int _ => .int
  | .float _ => .float
  | .str _ => .string
  | .list _ => .list
  | .tuple _ => .tuple
  | .dict _ => .dict
  | .host .. => .object

/-! ## Equality -/

mutual
/-- Whether two values are equal. -/
def same : Value → Value → Bool
  | .null, .null => true
  | .bool a, .bool b => a == b
  | .int a, .int b => a == b
  | .float a, .float b => a == b
  | .str a, .str b => a == b
  | .list as, .list bs => sameItems as bs
  | .tuple as, .tuple bs => sameItems as bs
  | .dict as, .dict bs => sameEntries as bs
  | .host i _ _ _, .host j _ _ _ => i == j
  | _, _ => false

/-- Whether two lists of values are equal item by item. -/
def sameItems : List Value → List Value → Bool
  | [], [] => true
  | a :: as, b :: bs => same a b && sameItems as bs
  | _, _ => false

/-- Whether two lists of entries are equal entry by entry. -/
def sameEntries : List (Value × Value) → List (Value × Value) → Bool
  | [], [] => true
  | (k, a) :: as, (l, b) :: bs => same k l && same a b && sameEntries as bs
  | _, _ => false
end

/-! ## Text -/

mutual
/-- The text of a value.  Inside a container a string stands between single
quotes and null is `None`; by itself null has no text. -/
def write (inside : Bool) : Value → String
  | .null => if inside then "None" else ""
  | .bool b => if b then "true" else "false"
  | .int n => toString n.toInt
  | .float x => Decimal.plain x
  | .str s => if inside then "'" ++ s ++ "'" else s
  | .list items => "[" ++ writeItems items ++ "]"
  | .tuple items => "(" ++ writeItems items ++ ")"
  | .dict entries => "\x7b" ++ writeEntries entries ++ "\x7d"
  | .host _ text _ _ => text

/-- Items with commas between them. -/
def writeItems : List Value → String
  | [] => ""
  | [v] => write true v
  | v :: vs => write true v ++ ", " ++ writeItems vs

/-- Entries with commas between them. -/
def writeEntries : List (Value × Value) → String
  | [] => ""
  | [(k, v)] => write true k ++ ": " ++ write true v
  | (k, v) :: es => write true k ++ ": " ++ write true v ++ ", " ++ writeEntries es
end

/-- The text of a value by itself. -/
def text (v : Value) : String := v.write false

/-! ## Views -/

/-- A value as a number. -/
def number? : Value → Option Float
  | .int n => some (Float.ofInt n.toInt)
  | .float x => some x
  | _ => none

/-- A value as a string. -/
def string? : Value → Option String
  | .str s => some s
  | _ => none

/-- The items of a list or a tuple. -/
def items? : Value → Option (List Value)
  | .list vs => some vs
  | .tuple vs => some vs
  | _ => none

/-- The entries of a dictionary. -/
def entries? : Value → Option (List (Value × Value))
  | .dict es => some es
  | _ => none

end Value

/-! ## Dictionaries -/

/-- The entries of a dictionary, in order. -/
abbrev Dict := List (Value × Value)

namespace Dict

/-- The value of the first key equal to `key`. -/
def get? (key : Value) : Dict → Option Value
  | [] => none
  | (k, v) :: es => if k.same key then some v else get? key es

/-- The value of the string key `name`. -/
def getName? (name : String) : Dict → Option Value
  | [] => none
  | (k, v) :: es => if k.string? = some name then some v else getName? name es

/-- Give a key a value.  A key that is there keeps its place and its spelling; a
new key comes last. -/
def insert (key value : Value) : Dict → Dict
  | [] => [(key, value)]
  | (k, v) :: es => if k.same key then (k, value) :: es else (k, v) :: insert key value es

/-- Give a key a value, and say which value it had. -/
def exchange (key value : Value) : Dict → Option Value × Dict
  | [] => (none, [(key, value)])
  | (k, v) :: es =>
      if k.same key then (some v, (k, value) :: es)
      else ((exchange key value es).1, (k, v) :: (exchange key value es).2)

/-- The dictionary of a list of entries, inserted from left to right. -/
def ofList (entries : List (Value × Value)) : Dict :=
  entries.foldl (fun d e => insert e.1 e.2 d) []

theorem exchange_eq (key value : Value) (d : Dict) :
    exchange key value d = (get? key d, insert key value d) := by
  induction d with
  | nil => rfl
  | cons e d ih =>
      obtain ⟨k, v⟩ := e
      by_cases h : k.same key = true <;> simp [exchange, get?, insert, h, ih]

/-- A string key is found as any other key is. -/
theorem getName?_eq_get? (name : String) (d : Dict) : getName? name d = get? (.str name) d := by
  induction d with
  | nil => rfl
  | cons e d ih =>
      obtain ⟨k, v⟩ := e
      cases k with
      | str s => simp [getName?, get?, Value.string?, Value.same, ih]
      | _ => simp [getName?, get?, Value.string?, Value.same, ih]

end Dict

/-! ## Attributes and fields -/

namespace Value

/-- The item at an index; a negative index counts from the end. -/
def itemAt? (items : List Value) (index : Int64) : Option Value :=
  let i := index.toInt
  if i < 0 then
    if i.natAbs ≤ items.length then items[items.length - i.natAbs]? else none
  else items[i.toNat]?

/-- The attribute of a value.  Only dictionaries and host objects have any. -/
def attr? (name : String) : Value → Option Value
  | .dict d => Dict.getName? name d
  | .host _ _ attributes _ => lookupName name attributes
  | _ => none

/-- The field of a value: the entry of a dictionary, the item of a list or a
tuple at an integer, or what a host object answers to a string. -/
def field? (v key : Value) : Option Value :=
  match v with
  | .dict d => Dict.get? key d
  | .list items => match key with | .int i => itemAt? items i | _ => none
  | .tuple items => match key with | .int i => itemAt? items i | _ => none
  | .host _ _ _ fields => match key with | .str s => lookupName s fields | _ => none
  | _ => none

end Value

end PageLoom
