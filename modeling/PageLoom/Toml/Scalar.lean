import PageLoom.Decimal.Reading
import PageLoom.Toml.Basic
import PageLoom.Toml.Text

/-!
# Numbers and moments

Single underscores may stand between the digits of a number.  Whole numbers are
decimal without needless zeros, or have a prefix that tells their base and no sign.
They fit 64 bits, and a number with a point or an exponent is a finite double.

A moment is a date, a time, or a date and a time with or without an offset.
-/

namespace PageLoom.Toml

/-! ## Numbers -/

/-- Digits without the single underscores between them. -/
def digits? (isDigit : Char → Bool) (cs : List Char) : Option (List Char) :=
  if (cs.splitOn '_').all fun part => !part.isEmpty && part.all isDigit then
    some (cs.filter (· != '_'))
  else none

/-- A whole number in the base that its prefix tells. -/
def prefixed? (base : Nat) (digits : List Char) : Option Int := do
  let values ← digits.mapM Json.hexValue?
  if values.all (· < base) then return (values.foldl (fun n d => base * n + d) 0 : Nat) else none

/-- Decimal digits without needless zeros. -/
def decimalDigits? (cs : List Char) : Option (List Char) := do
  let digits ← digits? Char.isDigit cs
  if digits.length > 1 && digits.head? == some '0' then none else some digits

/-- A whole number. -/
def integer? (cs : List Char) : Option Int64 := do
  let n : Int ← match cs with
    | '0' :: 'x' :: cs => (digits? (fun c => (Json.hexValue? c).isSome) cs).bind (prefixed? 16)
    | '0' :: 'o' :: cs => (digits? Char.isDigit cs).bind (prefixed? 8)
    | '0' :: 'b' :: cs => (digits? Char.isDigit cs).bind (prefixed? 2)
    | cs =>
        let (negative, cs) := Decimal.splitSign cs
        (decimalDigits? cs).map fun ds =>
          if negative then -(Decimal.digitsValue ds : Int) else Decimal.digitsValue ds
  if Decimal.fits n then some (Int64.ofInt n) else none

/-- The sign and the digits of an exponent. -/
def exponent? (cs : List Char) : Option (Option (Bool × List Char)) :=
  match cs with
  | [] => some none
  | c :: cs =>
      if c == 'e' || c == 'E' then do
        let (negative, cs) := Decimal.splitSign cs
        let ds ← digits? Char.isDigit cs
        return some (negative, ds)
      else none

/-- Whether a character can be among the digits of a number. -/
def isDigitPart (c : Char) : Bool := c.isDigit || c == '_'

/-- The digits after a point, if there is one, and what follows them. -/
def fraction? (cs : List Char) : Option (List Char × List Char) :=
  match cs with
  | '.' :: rest =>
      (digits? Char.isDigit (rest.takeWhile isDigitPart)).map (·, rest.dropWhile isDigitPart)
  | cs => some ([], cs)

/-- A finite double without a sign, which has a point or an exponent. -/
def finite? (cs : List Char) : Option Float := do
  let whole ← decimalDigits? (cs.takeWhile isDigitPart)
  let (fraction, rest) ← fraction? (cs.dropWhile isDigitPart)
  let exponent ← exponent? rest
  if fraction.isEmpty && exponent.isNone then none
  else
    let e : Int := match exponent with
      | some (true, ds) => -(Decimal.digitsValue ds : Int)
      | some (false, ds) => Decimal.digitsValue ds
      | none => 0
    let digits := whole ++ fraction
    -- beyond this bound every number is zero or infinite, whatever its digits
    let bound : Int := digits.length + 1000
    let x := Decimal.nearest false (Decimal.digitsValue digits)
      (max (-bound) (min bound (e - fraction.length)))
    if x.isFinite then some x else none

/-- A number with a point or an exponent, or one that has no digits. -/
def float? (cs : List Char) : Option Float :=
  let (negative, cs) := Decimal.splitSign cs
  let x := match cs with
    | ['i', 'n', 'f'] => some (1.0 / 0.0)
    | ['n', 'a', 'n'] => some (0.0 / 0.0)
    | cs => finite? cs
  x.map fun x => if negative then -x else x

/-! ## Moments -/

/-- The number that two digits spell. -/
def twoDigits? : List Char → Option Nat
  | [a, b] => if a.isDigit && b.isDigit then some (Decimal.digitsValue [a, b]) else none
  | _ => none

/-- The number of days of a month. -/
def daysOfMonth (year month : Nat) : Nat :=
  if month = 2 then
    if year % 4 = 0 ∧ (year % 100 ≠ 0 ∨ year % 400 = 0) then 29 else 28
  else if month ∈ [4, 6, 9, 11] then 30
  else 31

/-- Whether ten characters are a date. -/
def isDate : List Char → Bool
  | [a, b, c, d, '-', e, f, '-', g, h] =>
      match twoDigits? [a, b], twoDigits? [c, d], twoDigits? [e, f], twoDigits? [g, h] with
      | some century, some year, some month, some day =>
          1 ≤ month && month ≤ 12 && 1 ≤ day && day ≤ daysOfMonth (100 * century + year) month
      | _, _, _, _ => false
  | _ => false

/-- Whether five characters are an hour and a minute. -/
def isHourMinute : List Char → Bool
  | [a, b, ':', c, d] =>
      match twoDigits? [a, b], twoDigits? [c, d] with
      | some hour, some minute => hour ≤ 23 && minute ≤ 59
      | _, _ => false
  | _ => false

/-- What follows a time of the day. -/
def afterTime? (cs : List Char) : Option (List Char) :=
  match cs.drop 5 with
  | ':' :: a :: b :: rest =>
      match twoDigits? [a, b] with
      | some second =>
          if isHourMinute (cs.take 5) && second ≤ 60 then
            match rest with
            | '.' :: rest =>
                if (rest.takeWhile Char.isDigit).isEmpty then none
                else some (rest.dropWhile Char.isDigit)
            | rest => some rest
          else none
      | none => none
  | _ => none

/-- Whether a text is an offset, or empty. -/
def isOffset : List Char → Bool
  | [] => true
  | ['Z'] => true
  | ['z'] => true
  | '+' :: cs => isHourMinute cs
  | '-' :: cs => isHourMinute cs
  | _ => false

/-- Whether a text is a moment. -/
def isMoment (cs : List Char) : Bool :=
  if isDate (cs.take 10) then
    match cs.drop 10 with
    | [] => true
    | c :: time => (c == 'T' || c == 't' || c == ' ') && (afterTime? time).any isOffset
  else afterTime? cs == some []

/-! ## Words -/

/-- An item that is written as one word. -/
def word? (cs : List Char) : Option Toml :=
  if cs = "true".toList then some (.bool true)
  else if cs = "false".toList then some (.bool false)
  else if isMoment cs then some (.moment (String.ofList cs))
  else
    match integer? cs with
    | some n => some (.integer n)
    | none => (float? cs).map .float

/-- Whether a character can be part of a word. -/
def isWordChar (c : Char) : Bool := c.isAlphanum || c ∈ ['_', '-', '+', '.', ':']

/-- A word and what follows it.  A date may be followed by a blank and a time. -/
def scanWord (cs : List Char) : List Char × List Char :=
  let word := cs.takeWhile isWordChar
  let rest := cs.dropWhile isWordChar
  match rest with
  | ' ' :: c :: _ =>
      if isDate word && c.isDigit then
        (word ++ ' ' :: (rest.drop 1).takeWhile isWordChar, (rest.drop 1).dropWhile isWordChar)
      else (word, rest)
  | _ => (word, rest)

end PageLoom.Toml
