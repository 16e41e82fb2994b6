import PageLoom.Decimal.Shortest

/-!
# Reading decimals

A decimal text denotes the double nearest to it (`float?`), and an integer text
an integer of 64 bits if it fits (`int64?`).
-/

namespace PageLoom.Decimal

/-- The value of a decimal digit. -/
def digitValue (c : Char) : Nat := c.toNat - '0'.toNat

/-- Digits read as one number. -/
def digitsValue (cs : List Char) : Nat := cs.foldl (fun n c => 10 * n + digitValue c) 0

/-- The double nearest to `n · 10 ^ e`. -/
def nearest (negative : Bool) (n : Nat) (e : Int) : Float :=
  let x := Float.ofScientific n (e < 0) e.natAbs
  if negative then -x else x

/-- The sign of a text and what follows it. -/
def splitSign : List Char → Bool × List Char
  | '-' :: cs => (true, cs)
  | '+' :: cs => (false, cs)
  | cs => (false, cs)

/-- Digits, then a point and digits if there is one: the digits before the
point, after it, and the rest. -/
def splitPoint (cs : List Char) : List Char × List Char × List Char :=
  let whole := cs.takeWhile Char.isDigit
  match cs.dropWhile Char.isDigit with
  | '.' :: rest => (whole, rest.takeWhile Char.isDigit, rest.dropWhile Char.isDigit)
  | rest => (whole, [], rest)

/-- The exponent that ends a decimal text. -/
def exponent? : List Char → Option Int
  | [] => some 0
  | c :: cs =>
      if c = 'e' ∨ c = 'E' then
        let (negative, ds) := splitSign cs
        if ds.isEmpty || !ds.all Char.isDigit then none
        else some (if negative then -(digitsValue ds : Int) else digitsValue ds)
      else none

/-- The unsigned spellings of the doubles that have no digits. -/
def special? (cs : List Char) : Option Float :=
  match String.ofList (cs.map Char.toLower) with
  | "inf" => some (1.0 / 0.0)
  | "infinity" => some (1.0 / 0.0)
  | "nan" => some (0.0 / 0.0)
  | _ => none

/-- The double nearest to a decimal text: an optional sign, digits with an
optional point, at least one of them, and an optional exponent. -/
def float? (s : String) : Option Float :=
  let (negative, cs) := splitSign s.toList
  match special? cs with
  | some x => some (if negative then -x else x)
  | none =>
      let (whole, fraction, rest) := splitPoint cs
      if whole.isEmpty && fraction.isEmpty then none
      else
        (exponent? rest).map fun e =>
          nearest negative (digitsValue (whole ++ fraction)) (e - fraction.length)

/-- Whether an integer fits 64 bits with sign. -/
def fits (n : Int) : Bool := -Int.pow 2 63 ≤ n && n < Int.pow 2 63

/-- The integer of 64 bits that a text of digits with an optional sign denotes. -/
def int64? (s : String) : Option Int64 :=
  let (negative, cs) := splitSign s.toList
  if cs.isEmpty || !cs.all Char.isDigit then none
  else
    let n : Int := if negative then -(digitsValue cs : Int) else digitsValue cs
    if fits n then some (Int64.ofInt n) else none

end PageLoom.Decimal
