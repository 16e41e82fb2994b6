import PageLoom.Decimal.Layout
import PageLoom.NameMap

/-!
# JSON documents

A number of a document is an integer of 64 bits or a double.  An object is the
list of its fields.  The fields that `Json.object` builds are sorted by key, a
repeated key keeping its last value.

`Json.write` is the compact text of a document: no blanks, the short escapes
where JSON has them, `\u00xx` for the other control characters, and every other
character as it is.  A double without a JSON text is written as `null`.
-/

namespace PageLoom

/-- A JSON document. -/
inductive Json
  | null
  | bool (b : Bool)
  | int (n : Int64)
  | float (x : Float)
  | str (s : String)
  | arr (items : List Json)
  | obj (fields : List (String × Json))
deriving Inhabited

namespace Json

/-- The object with the given fields. -/
def object (fields : List (String × Json)) : Json :=
  .obj (fields.foldl (fun sorted f => insertName f.1 f.2 sorted) [])

/-! ## Writing -/

/-- A digit of base sixteen. -/
def hexDigit (n : Nat) : Char :=
  if n < 10 then Char.ofNat ('0'.toNat + n) else Char.ofNat ('a'.toNat + n - 10)

/-- How a character is written in a string. -/
def escapeChar (c : Char) : List Char :=
  if c = '"' then ['\\', '"']
  else if c = '\\' then ['\\', '\\']
  else if c = '\n' then ['\\', 'n']
  else if c = '\r' then ['\\', 'r']
  else if c = '\t' then ['\\', 't']
  else if c = Char.ofNat 8 then ['\\', 'b']
  else if c = Char.ofNat 12 then ['\\', 'f']
  else if c.toNat < 0x20 then
    ['\\', 'u', '0', '0', hexDigit (c.toNat / 16), hexDigit (c.toNat % 16)]
  else [c]

/-- A string between quotes. -/
def quote (s : String) : String :=
  String.ofList ('"' :: s.toList.flatMap escapeChar ++ ['"'])

mutual
/-- The compact text of a document. -/
def write : Json → String
  | .null => "null"
  | .bool b => if b then "true" else "false"
  | .int n => toString n.toInt
  | .float x => (Decimal.json? x).getD "null"
  | .str s => quote s
  | .arr items => "[" ++ writeItems items ++ "]"
  | .obj fields => "\x7b" ++ writeFields fields ++ "\x7d"

/-- Items with commas between them. -/
def writeItems : List Json → String
  | [] => ""
  | [j] => write j
  | j :: rest => write j ++ "," ++ writeItems rest

/-- Fields with commas between them. -/
def writeFields : List (String × Json) → String
  | [] => ""
  | [(k, j)] => quote k ++ ":" ++ write j
  | (k, j) :: rest => quote k ++ ":" ++ write j ++ "," ++ writeFields rest
end

end Json

end PageLoom
