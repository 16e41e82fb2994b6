import PageLoom.Decimal.Reading
import PageLoom.Json.Basic

/-!
# Numbers of a JSON text

A number without point and exponent that fits 64 bits with sign is an integer,
except `-0`.  Every other number is a double.  Its significand is made of the
leading digits that fit 64 bits without sign, and the double is the significand
times or divided by a power of ten, computed on doubles.  A number too large for
a double is refused.
-/

namespace PageLoom.Json

/-- The parts of a number: sign, digits before and after the point, and the
digits of the exponent with their sign. -/
structure NumberText where
  /-- Whether a minus sign stands in front. -/
  negative : Bool
  /-- The digits before the point. -/
  whole : List Char
  /-- The digits after the point, if there is one. -/
  fraction : Option (List Char)
  /-- The exponent, if there is one: whether it is negative, and its digits. -/
  exponent : Option (Bool × List Char)

/-- The digits of a whole part: `0` alone, or digits that do not start with it. -/
def scanWhole? : List Char → Option (List Char × List Char)
  | '0' :: c :: rest => if c.isDigit then none else some (['0'], c :: rest)
  | ['0'] => some (['0'], [])
  | cs =>
      let ds := cs.takeWhile Char.isDigit
      if ds.isEmpty then none else some (ds, cs.dropWhile Char.isDigit)

/-- A point with digits after it, if there is a point. -/
def scanFraction? : List Char → Option (Option (List Char) × List Char)
  | '.' :: cs =>
      let ds := cs.takeWhile Char.isDigit
      if ds.isEmpty then none else some (some ds, cs.dropWhile Char.isDigit)
  | cs => some (none, cs)

/-- An exponent, if there is one. -/
def scanExponent? : List Char → Option (Option (Bool × List Char) × List Char)
  | [] => some (none, [])
  | c :: cs =>
      if c = 'e' ∨ c = 'E' then
        let (negative, rest) := Decimal.splitSign cs
        let ds := rest.takeWhile Char.isDigit
        if ds.isEmpty then none else some (some (negative, ds), rest.dropWhile Char.isDigit)
      else some (none, c :: cs)

/-- The number that a text starts with, and the rest. -/
def scanNumber? (cs : List Char) : Option (NumberText × List Char) := do
  let (negative, cs) := match cs with | '-' :: rest => (true, rest) | _ => (false, cs)
  let (whole, cs) ← scanWhole? cs
  let (fraction, cs) ← scanFraction? cs
  let (exponent, cs) ← scanExponent? cs
  return (⟨negative, whole, fraction, exponent⟩, cs)

/-- The largest significand. -/
def maxSignificand : Nat := Nat.pow 2 64 - 1

/-- Add digits to a significand while it fits: the significand, how many digits
were added, and how many are left over. -/
def absorb (n : Nat) : List Char → Nat × Nat × Nat
  | [] => (n, 0, 0)
  | d :: ds =>
      let m := 10 * n + Decimal.digitValue d
      if m ≤ maxSignificand then
        let (s, taken, left) := absorb m ds
        (s, taken + 1, left)
      else (n, 0, ds.length + 1)

/-- The double `n · 10 ^ e`, by at most two divisions or one multiplication. -/
def scale? (n : Nat) (e : Int) : Option Float :=
  let x := Float.ofNat n
  let pow (k : Nat) : Float := Float.ofScientific 1 false k
  if e ≥ 0 then
    if e ≤ 308 then
      let y := x * pow e.toNat
      if y.isInf then none else some y
    else if n = 0 then some x else none
  else if e ≥ -308 then some (x / pow e.natAbs)
  else if e ≥ -616 then some (x / pow 308 / pow (e.natAbs - 308))
  else some 0.0

/-- The double of a number, without its sign. -/
def NumberText.magnitude? (t : NumberText) : Option Float :=
  let (n, _, left) := absorb 0 t.whole
  let (n, taken, _) := absorb n (t.fraction.getD [])
  let shift : Int := (left : Int) - taken
  match t.exponent with
  | none => scale? n shift
  | some (negative, ds) =>
      let e := Decimal.digitsValue ds
      if e < Nat.pow 2 31 then scale? n (if negative then shift - e else shift + e)
      else if n = 0 || negative then some 0.0
      else none

/-- The double of a number. -/
def NumberText.double? (t : NumberText) : Option Float :=
  t.magnitude?.map fun x => if t.negative then -x else x

/-- The value of a number, given how its double is found. -/
def NumberText.valueBy? (double? : NumberText → Option Float) (t : NumberText) : Option Json :=
  match t.fraction, t.exponent with
  | none, none =>
      let n : Int := Decimal.digitsValue t.whole
      let n := if t.negative then -n else n
      if Decimal.fits n && !(t.negative && n == 0) then some (.int (Int64.ofInt n))
      else (double? t).map .float
  | _, _ => (double? t).map .float

end PageLoom.Json
