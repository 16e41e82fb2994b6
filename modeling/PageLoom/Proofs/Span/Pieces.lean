import PageLoom.Proofs.Text.Search
import PageLoom.Span.Marker

/-!
# The pieces of a text

A text is a literal, and then spans with a literal after each (`exists_marked`), where
the markers stand first (`Leftmost`).  Where a span ends does not depend on what follows
it, so a span is cut out of its own text as it is cut out of any other
(`splitSpans_alone`).
-/

namespace PageLoom

/-- A span of a text, and the literal after it. -/
structure Marked where
  body : List Char
  after : List Char

def Marked.pieces (s : Marked) : List Piece := [.span s.body, .literal s.after]

/-- Whether spans are where their markers stand first: no start marker comes before a
span, no end marker in it, and none of both in turn after the last span. -/
def Leftmost (m : Markers) : List Char → List Marked → Prop
  | last, [] => ∀ u v w, last ≠ u ++ m.start ++ v ++ m.stop ++ w
  | before, s :: spans =>
      FirstAfter m.start before ∧ FirstAfter m.stop s.body ∧ Leftmost m s.after spans

namespace Markers

variable {m : Markers}

theorem firstSpan?_nil (m : Markers) : m.firstSpan? [] = none := by
  have hstart : m.start.isEmpty = false := List.isEmpty_eq_false_iff.mpr m.start_ne_nil
  rw [firstSpan?, cutAt?, hstart]
  rfl

/-- The first span is cut off by the first start marker and by the first stop marker after it. -/
theorem firstSpan?_eq_some_iff {cs before body after : List Char} :
    m.firstSpan? cs = some (before, body, after) ↔
      ∃ rest, cutAt? m.start cs = some (before, rest) ∧
        cutAt? m.stop rest = some (body, after) := by
  unfold firstSpan?
  split
  next hnone => simp [hnone]
  next b rest hstart =>
    rw [hstart]
    constructor
    · intro h
      obtain ⟨⟨body', after'⟩, hstop, he⟩ := Option.map_eq_some_iff.mp h
      cases he
      exact ⟨rest, rfl, hstop⟩
    · rintro ⟨rest', he, hstop⟩
      cases he
      rw [hstop]
      rfl

/-- A span is the first one of its own text. -/
theorem firstSpan?_alone {cs before body after : List Char}
    (h : m.firstSpan? cs = some (before, body, after)) :
    m.firstSpan? (m.start ++ body ++ m.stop) = some ([], body, []) := by
  obtain ⟨rest, -, hstop⟩ := firstSpan?_eq_some_iff.mp h
  rw [cutAt?_eq_some hstop] at hstop
  have halone := cutAt?_append m.stop_ne_nil hstop []
  rw [List.append_nil] at halone
  rw [List.append_assoc]
  exact firstSpan?_eq_some_iff.mpr ⟨_, cutAt?_word m.start_ne_nil _, halone⟩

/-- Neither cut could have been made earlier. -/
theorem firstAfter_of_firstSpan? {cs before body after : List Char}
    (h : m.firstSpan? cs = some (before, body, after)) :
    FirstAfter m.start before ∧ FirstAfter m.stop body := by
  obtain ⟨rest, hstart, hstop⟩ := firstSpan?_eq_some_iff.mp h
  exact ⟨firstAfter_of_cutAt? hstart, firstAfter_of_cutAt? hstop⟩

/-- Text in which no span is found has no start marker with a stop marker behind it. -/
theorem ne_of_firstSpan? {cs : List Char} (h : m.firstSpan? cs = none) (u v w : List Char) :
    cs ≠ u ++ m.start ++ v ++ m.stop ++ w := by
  intro hcs
  have hcs' : cs = u ++ m.start ++ (v ++ m.stop ++ w) := by simp [hcs]
  unfold firstSpan? at h
  split at h
  next hstart =>
    apply not_infix_of_cutAt? hstart
    rw [hcs']
    exact ⟨u, v ++ m.stop ++ w, rfl⟩
  next b rest hstart =>
    have hsuffix : v ++ m.stop ++ w <:+ rest :=
      (firstAfter_of_cutAt? hstart).suffix ((cutAt?_eq_some hstart).symm.trans hcs')
    apply not_infix_of_cutAt? (Option.map_eq_none_iff.mp h)
    exact List.IsInfix.trans ⟨v, w, rfl⟩ hsuffix.isInfix

end Markers

theorem splitSpans_of_none {m : Markers} {cs : List Char} (h : m.firstSpan? cs = none) :
    splitSpans m cs = [.literal cs] := by
  rw [splitSpans]
  split
  next => rfl
  next h' => rw [h] at h'; cases h'

/-- The text is split at its first span, and what follows that span is split in the same way. -/
theorem splitSpans_of_some {m : Markers} {cs before body after : List Char}
    (h : m.firstSpan? cs = some (before, body, after)) :
    splitSpans m cs = .literal before :: .span body :: splitSpans m after := by
  rw [splitSpans]
  split
  next h' => rw [h] at h'; cases h'
  next h' =>
    rw [h] at h'
    cases h'
    rfl

/-- A span written on its own is split into that span and two empty literals. -/
theorem splitSpans_alone {m : Markers} {cs before body after : List Char}
    (h : m.firstSpan? cs = some (before, body, after)) :
    splitSpans m ((Piece.span body).written m) = [.literal [], .span body, .literal []] := by
  rw [Piece.written, splitSpans_of_some (Markers.firstSpan?_alone h),
    splitSpans_of_none (m.firstSpan?_nil)]

/-- A text is a literal, and then spans with a literal after each.  Each span would be
the only one of its own text. -/
theorem exists_marked (m : Markers) (cs : List Char) :
    ∃ (first : List Char) (spans : List Marked),
      splitSpans m cs = .literal first :: spans.flatMap Marked.pieces ∧
      Leftmost m first spans ∧
      ∀ s ∈ spans, splitSpans m ((Piece.span s.body).written m) =
        [.literal [], .span s.body, .literal []] := by
  induction cs using splitSpans.induct m with
  | case1 cs h =>
      exact ⟨cs, [], splitSpans_of_none h, Markers.ne_of_firstSpan? h, fun s hs => by cases hs⟩
  | case2 cs before body after h ih =>
      obtain ⟨first, spans, hsplit, hleft, halone⟩ := ih
      obtain ⟨hstart, hstop⟩ := Markers.firstAfter_of_firstSpan? h
      refine ⟨before, ⟨body, first⟩ :: spans, ?_, ⟨hstart, hstop, hleft⟩, ?_⟩
      · rw [splitSpans_of_some h, hsplit]
        rfl
      · intro s hs
        rcases List.mem_cons.mp hs with rfl | hs
        · exact splitSpans_alone h
        · exact halone s hs

end PageLoom
