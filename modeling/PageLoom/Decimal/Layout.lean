import PageLoom.Decimal.Shortest

/-!
# Two layouts of a double

A value shows a double with its shortest digits, never an exponent, and no
fraction when there is none (`plain`).  A JSON text shows a double positionally
with at least one digit after the point when the first digit stands at a power
of ten from -5 to 15, and with an exponent otherwise (`json?`).  JSON has no
text for NaN and the infinities.

The layouts differ in one more point.  A double midway between two shortest
decimals goes up in the plain layout and to the even digit in JSON.
-/

namespace PageLoom.Decimal

/-- A number of zeros. -/
def zeros (n : Nat) : String := String.ofList (List.replicate n '0')

/-- Digits laid out positionally: the digits before the point, and after it. -/
def Digits.positional (d : Digits) : String × String :=
  let text := Nat.repr d.digits
  if d.exponent ≥ 0 then (text ++ zeros d.exponent.toNat, "")
  else
    let places := (-d.exponent).toNat
    let cs := text.toList
    if places < cs.length then
      (String.ofList (cs.take (cs.length - places)), String.ofList (cs.drop (cs.length - places)))
    else ("0", zeros (places - cs.length) ++ text)

/-- The sign of a number. -/
def signText (negative : Bool) : String := if negative then "-" else ""

/-- The text of a double in a value. -/
def plain (x : Float) : String :=
  match Parts.ofFloat x with
  | .nan => "NaN"
  | .infinite s => signText s ++ "inf"
  | .zero s => signText s ++ "0"
  | .finite s m =>
      match (shortest .up m).positional with
      | (whole, "") => signText s ++ whole
      | (whole, fraction) => signText s ++ whole ++ "." ++ fraction

/-- The digits with an exponent: one digit, the others after a point. -/
def Digits.scientific (d : Digits) : String :=
  let cs := (Nat.repr d.digits).toList
  let e : Int := d.exponent + cs.length - 1
  let rest := String.ofList (cs.drop 1)
  String.ofList (cs.take 1) ++ (if rest.isEmpty then "" else "." ++ rest) ++
    (if e < 0 then "e-" else "e+") ++ Nat.repr e.natAbs

/-- The text of a finite double in JSON. -/
def json? (x : Float) : Option String :=
  match Parts.ofFloat x with
  | .nan => none
  | .infinite _ => none
  | .zero s => some (signText s ++ "0.0")
  | .finite s m =>
      let d := shortest .even m
      let e : Int := d.exponent + digitCount d.digits - 1
      if -5 ≤ e ∧ e ≤ 15 then
        let (whole, fraction) := d.positional
        some (signText s ++ whole ++ "." ++ (if fraction.isEmpty then "0" else fraction))
      else some (signText s ++ d.scientific)

end PageLoom.Decimal
