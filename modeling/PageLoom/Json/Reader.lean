import PageLoom.Json.Number

/-!
# Reading JSON

`Json.read?` reads a whole text as one document.  It is strict: only the four
JSON blanks, no comma before a closing bracket, no control character in a
string, no escape of half a surrogate pair.  Arrays and objects nest at most
`maxNesting` deep; `Json.readWithin?` takes another bound.

The reader spends one unit of fuel per value or item, and `Json.read?` gives it
more than the text has characters.  It is told how the double of a number is
found (`Json.readBy?`).
-/

namespace PageLoom.Json

/-- How deep arrays and objects nest. -/
def maxNesting : Nat := 127

/-- The blanks of JSON. -/
def isSpace (c : Char) : Bool := c == ' ' || c == '\n' || c == '\r' || c == '\t'

/-- A text without the blanks it starts with. -/
def skipSpace (cs : List Char) : List Char := cs.dropWhile isSpace

/-- The value of a digit of base sixteen. -/
def hexValue? (c : Char) : Option Nat :=
  if '0' ≤ c ∧ c ≤ '9' then some (c.toNat - '0'.toNat)
  else if 'a' ≤ c ∧ c ≤ 'f' then some (c.toNat - 'a'.toNat + 10)
  else if 'A' ≤ c ∧ c ≤ 'F' then some (c.toNat - 'A'.toNat + 10)
  else none

/-- The number that four digits of base sixteen spell. -/
def hex4? (a b c d : Char) : Option Nat := do
  let a ← hexValue? a
  let b ← hexValue? b
  let c ← hexValue? c
  let d ← hexValue? d
  return ((a * 16 + b) * 16 + c) * 16 + d

/-- The character of a short escape. -/
def shortEscape? : Char → Option Char
  | '"' => some '"'
  | '\\' => some '\\'
  | '/' => some '/'
  | 'b' => some (Char.ofNat 8)
  | 'f' => some (Char.ofNat 12)
  | 'n' => some '\n'
  | 'r' => some '\r'
  | 't' => some '\t'
  | _ => none

/-- The characters of a string up to its closing quote, and the rest. -/
def scanString? : List Char → Option (List Char × List Char)
  | '"' :: rest => some ([], rest)
  | '\\' :: 'u' :: a :: b :: c :: d :: '\\' :: 'u' :: e :: f :: g :: h :: rest =>
      match hex4? a b c d with
      | none => none
      | some n =>
          if 0xD800 ≤ n ∧ n < 0xDC00 then
            match hex4? e f g h with
            | none => none
            | some m =>
                if 0xDC00 ≤ m ∧ m < 0xE000 then
                  (scanString? rest).map fun (s, r) =>
                    (Char.ofNat (0x10000 + (n - 0xD800) * 0x400 + (m - 0xDC00)) :: s, r)
                else none
          else if 0xDC00 ≤ n ∧ n < 0xE000 then none
          else
            (scanString? ('\\' :: 'u' :: e :: f :: g :: h :: rest)).map fun (s, r) =>
              (Char.ofNat n :: s, r)
  | '\\' :: 'u' :: a :: b :: c :: d :: rest =>
      match hex4? a b c d with
      | none => none
      | some n =>
          if 0xD800 ≤ n ∧ n < 0xE000 then none
          else (scanString? rest).map fun (s, r) => (Char.ofNat n :: s, r)
  | '\\' :: e :: rest =>
      match shortEscape? e with
      | none => none
      | some c => (scanString? rest).map fun (s, r) => (c :: s, r)
  | c :: rest =>
      if c.toNat < 0x20 || c = '\\' then none
      else (scanString? rest).map fun (s, r) => (c :: s, r)
  | [] => none

/-- A word that a text has to start with, and what follows it. -/
def literal? (word : String) (cs : List Char) : Option (List Char) :=
  if word.toList.isPrefixOf cs then some (cs.drop word.length) else none

section

variable (double? : NumberText → Option Float)

mutual
/-- The value that a text starts with, inside which `depth` more containers may
nest. -/
def scanValue? : Nat → Nat → List Char → Option (Json × List Char)
  | 0, _, _ => none
  | fuel + 1, depth, cs =>
      match skipSpace cs with
      | '[' :: rest =>
          if depth = 0 then none
          else (scanItems? fuel (depth - 1) true rest).map fun (items, r) => (.arr items, r)
      | '\x7b' :: rest =>
          if depth = 0 then none
          else (scanFields? fuel (depth - 1) true rest).map fun (fields, r) => (object fields, r)
      | '"' :: rest => (scanString? rest).map fun (s, r) => (.str (String.ofList s), r)
      | 'n' :: rest => (literal? "ull" rest).map (.null, ·)
      | 't' :: rest => (literal? "rue" rest).map (.bool true, ·)
      | 'f' :: rest => (literal? "alse" rest).map (.bool false, ·)
      | cs =>
          match scanNumber? cs with
          | none => none
          | some (t, r) => (t.valueBy? double?).map (·, r)

/-- The items of an array up to its closing bracket.  Only at the start may the
bracket follow at once. -/
def scanItems? : Nat → Nat → Bool → List Char → Option (List Json × List Char)
  | 0, _, _, _ => none
  | fuel + 1, depth, start, cs =>
      match start, skipSpace cs with
      | true, ']' :: rest => some ([], rest)
      | _, cs =>
          match scanValue? fuel depth cs with
          | none => none
          | some (j, rest) =>
              match skipSpace rest with
              | ']' :: rest => some ([j], rest)
              | ',' :: rest =>
                  (scanItems? fuel depth false rest).map fun (items, r) => (j :: items, r)
              | _ => none

/-- The fields of an object up to its closing brace. -/
def scanFields? : Nat → Nat → Bool → List Char → Option (List (String × Json) × List Char)
  | 0, _, _, _ => none
  | fuel + 1, depth, start, cs =>
      match start, skipSpace cs with
      | true, '\x7d' :: rest => some ([], rest)
      | _, '"' :: cs =>
          match scanString? cs with
          | none => none
          | some (key, rest) =>
              match skipSpace rest with
              | ':' :: rest =>
                  match scanValue? fuel depth rest with
                  | none => none
                  | some (j, rest) =>
                      match skipSpace rest with
                      | '\x7d' :: rest => some ([(String.ofList key, j)], rest)
                      | ',' :: rest =>
                          (scanFields? fuel depth false rest).map fun (fields, r) =>
                            ((String.ofList key, j) :: fields, r)
                      | _ => none
              | _ => none
      | _, _ => none
end

/-- The document that a whole text spells, nesting at most `depth` deep. -/
def readBy? (depth : Nat) (text : String) : Option Json :=
  let cs := text.toList
  match scanValue? double? (2 * cs.length + 2) depth cs with
  | none => none
  | some (j, rest) => if (skipSpace rest).isEmpty then some j else none

end

/-- The document that a whole text spells to the program, nesting at most `depth` deep. -/
def readWithin? (depth : Nat) (text : String) : Option Json := readBy? NumberText.double? depth text

/-- The document that a whole text spells to the program. -/
def read? (text : String) : Option Json := readWithin? maxNesting text

end PageLoom.Json
