import PageLoom.Text.Blank
import PageLoom.Text.Search

/-!
# Markers

A call stands in a text between a start marker and an end marker.  Markers are
not empty, neither starts nor ends with a blank, and they differ.

`splitSpans` cuts a text into literal pieces and marked spans.  A span starts
with the first start marker after the span before it and ends with the first end
marker after that.  Its source is what stands between the two, trimmed.
-/

namespace PageLoom

/-- A start marker and an end marker. -/
structure Markers where
  /-- The start marker. -/
  start : List Char
  /-- The end marker. -/
  stop : List Char
  start_ne_nil : start ≠ []
  stop_ne_nil : stop ≠ []
  trim_start : trim start = start
  trim_stop : trim stop = stop
  start_ne_stop : start ≠ stop

/-- Why two texts are no markers. -/
inductive MarkerError
  | empty
  | identical (marker : String)
deriving DecidableEq, Repr

/-- The message of a marker error. -/
def MarkerError.message : MarkerError → String
  | .empty => "markers must not be empty"
  | .identical marker => "start and end markers must differ, both are `" ++ marker ++ "`"

namespace Markers

/-- The markers that two texts denote when they are trimmed. -/
def ofTexts? (start stop : String) : Except MarkerError Markers :=
  let s := trim start.toList
  let e := trim stop.toList
  if hs : s = [] then .error .empty
  else if he : e = [] then .error .empty
  else if hd : s = e then .error (.identical (String.ofList s))
  else .ok ⟨s, e, hs, he, trim_trim _, trim_trim _, hd⟩

/-- The markers of a text that says nothing else. -/
def standard : Markers where
  start := ['%', '$']
  stop := ['$', '%']
  start_ne_nil := by decide
  stop_ne_nil := by decide
  trim_start := by decide
  trim_stop := by decide
  start_ne_stop := by decide

/-- The first span of a text: what stands before it, between its markers, and
after it. -/
def firstSpan? (m : Markers) (cs : List Char) : Option (List Char × List Char × List Char) :=
  match cutAt? m.start cs with
  | none => none
  | some (before, rest) => (cutAt? m.stop rest).map fun (body, after) => (before, body, after)

theorem firstSpan?_eq_some {m : Markers} {cs before body after : List Char}
    (h : m.firstSpan? cs = some (before, body, after)) :
    cs = before ++ (m.start ++ body ++ m.stop) ++ after := by
  unfold firstSpan? at h
  split at h
  next => cases h
  next b rest hc =>
    cases hr : cutAt? m.stop rest with
    | none => rw [hr] at h; cases h
    | some p =>
        rw [hr] at h
        cases h
        rw [cutAt?_eq_some hc, cutAt?_eq_some hr]
        simp

theorem length_of_firstSpan? {m : Markers} {cs before body after : List Char}
    (h : m.firstSpan? cs = some (before, body, after)) : after.length < cs.length := by
  rw [firstSpan?_eq_some h]
  have := List.length_pos_iff.mpr m.start_ne_nil
  simp
  omega

end Markers

/-- A piece of a text. -/
inductive Piece
  /-- Text outside every span. -/
  | literal (text : List Char)
  /-- The text between the markers of a span, blanks included. -/
  | span (body : List Char)
deriving DecidableEq, Repr

/-- The pieces of a text, literals and spans in turn. -/
def splitSpans (m : Markers) (cs : List Char) : List Piece :=
  match _h : m.firstSpan? cs with
  | none => [.literal cs]
  | some (before, body, after) => .literal before :: .span body :: splitSpans m after
termination_by cs.length
decreasing_by exact Markers.length_of_firstSpan? _h

/-- A piece as it is written. -/
def Piece.written (m : Markers) : Piece → List Char
  | .literal text => text
  | .span body => m.start ++ body ++ m.stop

/-- The pieces put together again are the text. -/
theorem written_splitSpans (m : Markers) (cs : List Char) :
    (splitSpans m cs).flatMap (Piece.written m) = cs := by
  induction cs using splitSpans.induct m with
  | case1 cs h => rw [splitSpans]; split <;> simp_all [Piece.written]
  | case2 cs before body after h ih =>
      rw [splitSpans]
      split
      next h' => rw [h'] at h; cases h
      next b bo af h' =>
        rw [h'] at h
        cases h
        simp only [List.flatMap_cons, Piece.written, ih]
        conv => rhs; rw [Markers.firstSpan?_eq_some h']
        simp

end PageLoom
