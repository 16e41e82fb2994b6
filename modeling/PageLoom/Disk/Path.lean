import PageLoom.Text.Segments

/-!
# Paths on disk

A path is a text, and is shown as it was written.  It is read segment by segment:
segments that are empty or `.` lead nowhere, except that a `.` at the start stands
for the folder where one is.  So `a/b/` and `a/./b` have the name `b`, and `a/..` has
no name.

The extension of a name is what follows its last `.`, and the stem is what comes
before.  A name that has no `.`, or only one at its start, is all stem.
-/

namespace PageLoom

/-- A path on disk, as written. -/
structure Path where
  /-- The text. -/
  text : String
deriving DecidableEq, Repr, Inhabited

namespace Path

/-- Whether a text starts at the topmost folder. -/
def startsAtRoot (text : String) : Bool := text.toList.head? == some '/'

/-- Whether a path starts at the topmost folder. -/
def isAbsolute (p : Path) : Bool := startsAtRoot p.text

/-- A path that continues another one, unless it is absolute. -/
def join (p : Path) (rest : String) : Path :=
  if startsAtRoot rest then ⟨rest⟩
  else if p.text.isEmpty || p.text.toList.getLast? == some '/' then ⟨p.text ++ rest⟩
  else ⟨p.text ++ "/" ++ rest⟩

/-- The segments of a path. -/
def segments (p : Path) : List String := segmentsOf p.text

/-! ## Names and folders -/

/-- Segments, last first, without those at the end that lead nowhere. -/
def dropIdle : List String → List String
  | [] => []
  | s :: rest => if s = "" ∨ (s = "." ∧ rest ≠ []) then dropIdle rest else s :: rest

/-- The path of segments, last first. -/
def ofReversed (absolute : Bool) (segments : List String) : Path :=
  if segments.isEmpty then ⟨if absolute then "/" else ""⟩ else ⟨pathOf segments.reverse⟩

/-- The folders that segments, last first, are in, innermost first. -/
def foldersFrom (absolute : Bool) : List String → List Path
  | [] => []
  | s :: rest =>
      if s = "" ∨ (s = "." ∧ rest ≠ []) then foldersFrom absolute rest
      else ofReversed absolute (dropIdle rest) :: foldersFrom absolute rest

/-- The folders that a path is in, innermost first. -/
def folders (p : Path) : List Path := foldersFrom p.isAbsolute p.segments.reverse

/-- The folder that a path is in. -/
def folder? (p : Path) : Option Path := p.folders.head?

/-- The name of a path. -/
def name? (p : Path) : Option String :=
  match dropIdle p.segments.reverse with
  | [] => none
  | s :: _ => if s = "." ∨ s = ".." then none else some s

/-- The stem and the extension of a name. -/
def splitName (name : String) : String × Option String :=
  let (extension, rest) := name.toList.reverse.span (· != '.')
  match rest with
  | [] => (name, none)
  | [_] => (name, none)
  | _ :: stem => (String.ofList stem.reverse, some (String.ofList extension.reverse))

/-- The stem of the name of a path. -/
def stem? (p : Path) : Option String := p.name?.map fun name => (splitName name).1

end Path

end PageLoom
