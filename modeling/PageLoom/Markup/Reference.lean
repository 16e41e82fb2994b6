import PageLoom.NameMap
import PageLoom.Text.Blank

/-!
# References

A text refers to a variable by its name in double braces, with blanks allowed
around the name.  `references` splits a text into references and single
characters, from left to right.  `substitute` replaces the references that a map
knows and leaves everything else as it is written.
-/

namespace PageLoom

/-- The characters that start a variable name. -/
def isVarStart (c : Char) : Bool := c.isAlpha || c == '_'

/-- The characters that continue a variable name. -/
def isVarRest (c : Char) : Bool := c.isAlphanum || c == '_'

/-- The name at the start of a text, and the rest. -/
def scanName? : List Char → Option (List Char × List Char)
  | [] => none
  | c :: cs =>
      if isVarStart c then some (c :: cs.takeWhile isVarRest, cs.dropWhile isVarRest) else none

/-- The name of the reference at the start of a text, and what follows the
reference. -/
def scanReference? : List Char → Option (List Char × List Char)
  | '\x7b' :: '\x7b' :: cs =>
      match scanName? (dropBlank cs) with
      | none => none
      | some (name, rest) =>
          match dropBlank rest with
          | '\x7d' :: '\x7d' :: rest => some (name, rest)
          | _ => none
  | _ => none

/-- A part of a text. -/
inductive TextPart
  /-- A character that belongs to no reference. -/
  | char (c : Char)
  /-- A reference: its name, and how it is written. -/
  | reference (name written : List Char)
deriving DecidableEq, Repr

/-- How a part is written. -/
def TextPart.written : TextPart → List Char
  | .char c => [c]
  | .reference _ written => written

/-- The parts of a text.  The next `skip` characters belong to a reference that
is listed already. -/
def referencesFrom : Nat → List Char → List TextPart
  | _, [] => []
  | skip + 1, _ :: cs => referencesFrom skip cs
  | 0, c :: cs =>
      match scanReference? (c :: cs) with
      | some (name, rest) =>
          let n := cs.length - rest.length
          .reference name (c :: cs.take n) :: referencesFrom n cs
      | none => .char c :: referencesFrom 0 cs

/-- The references of a text, and the characters between them. -/
def references (cs : List Char) : List TextPart := referencesFrom 0 cs

/-- A part with the value of its variable in its place. -/
def TextPart.fill (vars : NameMap String) : TextPart → List Char
  | .char c => [c]
  | .reference name written =>
      match vars.get? (String.ofList name) with
      | some value => value.toList
      | none => written

/-- A text with the values of its variables in their places. -/
def substitute (vars : NameMap String) (text : String) : String :=
  String.ofList ((references text.toList).flatMap (TextPart.fill vars))

end PageLoom
