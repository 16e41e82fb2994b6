/-!
# Fresh identifiers

Placeholders and elements are named by identifiers that occur nowhere else.  A
supply gives every place of a tree an identifier, a place being the list of the
turns that lead to it.  What is rendered at one place gets the part of the supply
below that place, so it does not depend on what is rendered elsewhere.
-/

namespace PageLoom

/-- An identifier for every place. -/
abbrev Fresh := List Nat → String

/-- The part of a supply below the turn `n`. -/
def Fresh.below (f : Fresh) (n : Nat) : Fresh := fun place => f (n :: place)

/-- The identifier of the place where a supply starts. -/
def Fresh.here (f : Fresh) : String := f []

/-- A digit of base sixteen. -/
def hexDigitOf (n : Nat) : Char :=
  if n < 10 then Char.ofNat ('0'.toNat + n) else Char.ofNat ('a'.toNat + n - 10)

/-- The last digits of a number in base sixteen, `count` of them. -/
def hexDigits (n : Nat) : Nat → List Char
  | 0 => []
  | count + 1 => hexDigits (n / 16) count ++ [hexDigitOf (n % 16)]

/-- The number of a place. -/
def placeNumber (place : List Nat) : Nat := place.foldl (fun n turn => 4096 * n + turn + 1) 0

/-- Identifiers of 32 digits of base sixteen that count up from a seed. -/
def Fresh.ofSeed (seed : Nat) : Fresh := fun place =>
  String.ofList (hexDigits (seed + placeNumber place) 32)

end PageLoom
