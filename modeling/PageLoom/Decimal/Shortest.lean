/-!
# The shortest decimal of a double

A finite double that is not zero is `mantissa · 2 ^ exponent` (`Dyadic`).  The
reals that round to it form an interval around it, ends included when the
mantissa is even.  The shortest decimal of the double is a decimal in that
interval with the fewest digits, and of those the nearest to the double.

For a number of digits the decimals of that length form a grid, and only the
two grid points beside the double can be nearest.  `shortest` tries one digit,
two digits and so on.  Seventeen digits always suffice for a double, so the
search ends there.  Everything is computed on natural numbers.
-/

namespace PageLoom.Decimal

/-- A positive number `mantissa · 2 ^ exponent`. -/
structure Dyadic where
  /-- The mantissa. -/
  mantissa : Nat
  /-- The power of two. -/
  exponent : Int
  /-- Whether the gap below the number is half the gap above it. -/
  narrow : Bool
deriving Repr, DecidableEq

/-- The sign, and the magnitude of a double, from its bits. -/
inductive Parts
  | nan
  | infinite (negative : Bool)
  | zero (negative : Bool)
  | finite (negative : Bool) (magnitude : Dyadic)
deriving Repr, DecidableEq

/-- Read the sign, the exponent and the mantissa off the 64 bits. -/
def Parts.ofBits (bits : Nat) : Parts :=
  let negative := bits / Nat.pow 2 63 % 2 == 1
  let biased : Nat := bits / Nat.pow 2 52 % Nat.pow 2 11
  let fraction : Nat := bits % Nat.pow 2 52
  if biased = 2047 then if fraction = 0 then .infinite negative else .nan
  else if biased = 0 then
    if fraction = 0 then .zero negative else .finite negative ⟨fraction, -1074, false⟩
  else
    .finite negative
      ⟨fraction + Nat.pow 2 52, Int.ofNat biased - 1075, fraction == 0 && biased > 1⟩

/-- The parts of a double. -/
def Parts.ofFloat (x : Float) : Parts := Parts.ofBits x.toBits.toNat

/-- Decimal digits `digits · 10 ^ exponent`. -/
structure Digits where
  /-- The digits, read as one number. -/
  digits : Nat
  /-- The power of ten of the last digit. -/
  exponent : Int
deriving Repr, DecidableEq

/-- What to do with a double that lies midway between two decimals. -/
inductive Tie
  | up
  | even
deriving Repr, DecidableEq

/-- The double as a fraction of natural numbers.  The numerators of the double
and of the two ends of its interval share one denominator. -/
structure Interval where
  /-- The lower end. -/
  lo : Nat
  /-- The double. -/
  mid : Nat
  /-- The upper end. -/
  hi : Nat
  /-- The denominator. -/
  den : Nat
  /-- Whether the ends belong to the interval. -/
  closed : Bool
deriving Repr

/-- The reals that round to a double. -/
def Dyadic.interval (x : Dyadic) : Interval :=
  let scale := Nat.pow 2 (x.exponent - 2).toNat
  { lo := (4 * x.mantissa - (if x.narrow then 1 else 2)) * scale
    mid := 4 * x.mantissa * scale
    hi := (4 * x.mantissa + 2) * scale
    den := Nat.pow 2 (2 - x.exponent).toNat
    closed := x.mantissa % 2 == 0 }

/-- Whether `n · 10 ^ e` lies in the interval. -/
def Interval.holds (i : Interval) (n : Nat) (e : Int) : Bool :=
  let value := n * Nat.pow 10 e.toNat * i.den
  let unit := Nat.pow 10 (-e).toNat
  if i.closed then i.lo * unit ≤ value && value ≤ i.hi * unit
  else i.lo * unit < value && value < i.hi * unit

/-- How far `num / den · 10 ^ -e` lies above the grid point below it, and that
grid point: quotient, remainder and divisor. -/
def onGrid (num den : Nat) (e : Int) : Nat × Nat × Nat :=
  let n := num * Nat.pow 10 (-e).toNat
  let d := den * Nat.pow 10 e.toNat
  (n / d, n % d, d)

/-- The better of the two grid points beside the double, if one lies in the
interval. -/
def Interval.pick (i : Interval) (tie : Tie) (e : Int) : Option Digits :=
  let (q, r, d) := onGrid i.mid i.den e
  let below := i.holds q e && q != 0
  let above := i.holds (q + 1) e
  if below && above then
    let up : Bool :=
      if 2 * r = d then (match tie with | .up => true | .even => q % 2 == 1)
      else decide (d < 2 * r)
    some ⟨if up then q + 1 else q, e⟩
  else if below then some ⟨q, e⟩
  else if above then some ⟨q + 1, e⟩
  else none

/-- The number of decimal digits of a natural number, at least one. -/
def digitCount (n : Nat) : Nat := (Nat.toDigits 10 n).length

/-- The power of ten just above `num / den`. -/
def magnitude (num den : Nat) : Int :=
  let guess : Int := (digitCount num : Int) - digitCount den
  let (q, _, _) := onGrid num den guess
  if q = 0 then guess else guess + 1

/-- Try grids of `count`, `count + 1`, … digits, `fuel` of them. -/
def Interval.search (i : Interval) (tie : Tie) (top : Int) (count : Nat) : Nat → Digits
  | 0 => ⟨i.mid / i.den, 0⟩
  | fuel + 1 =>
      match i.pick tie (top - count) with
      | some d => d
      | none => i.search tie top (count + 1) fuel

/-- Digits without the zeros they end with.  A number has fewer digits than it
is large, so `fuel` is the number itself. -/
def Digits.strip (d : Digits) : Digits := go d.digits d.exponent (digitCount d.digits)
where
  /-- Drop one zero at a time. -/
  go (n : Nat) (e : Int) : Nat → Digits
    | 0 => ⟨n, e⟩
    | fuel + 1 => if n % 10 = 0 && n != 0 then go (n / 10) (e + 1) fuel else ⟨n, e⟩

/-- The decimal with the fewest digits that reads back as the double. -/
def shortest (tie : Tie) (x : Dyadic) : Digits :=
  let i := x.interval
  (i.search tie (magnitude i.mid i.den) 1 18).strip

end PageLoom.Decimal
