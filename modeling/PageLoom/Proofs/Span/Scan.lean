import PageLoom.Proofs.Span.Pieces
import PageLoom.Proofs.Text.Pattern
import PageLoom.Span.Process
import Mathlib.Order.Bounds.Basic

/-!
# Where the spans of a text are

The markers of a span stand at a `Place`.  `Scan` says which places a text has spans at: each
span starts at the first start marker after the span before it, and stops at the first end
marker after its own start marker, until no start marker is left that an end marker comes
after.  A text is cut at these places and no others (`scansExactly`), and they are also where
the pattern of a span is found when it is searched for from left to right.
-/

namespace PageLoom

/-- Whether a word stands in a text at an offset. -/
def OccursAt (word cs : List Char) (i : Nat) : Prop := ∃ u v, cs = u ++ word ++ v ∧ u.length = i

/-- Where the markers of a span stand. -/
structure Place where
  /-- The offset of the start marker. -/
  start : Nat
  /-- The offset of the end marker. -/
  stop : Nat
deriving DecidableEq, Repr

namespace Place

variable (m : Markers) (cs : List Char) (p : Place)

/-- The offset after the start marker. -/
def inner : Nat := p.start + m.start.length

/-- The offset after the end marker. -/
def after : Nat := p.stop + m.stop.length

/-- The text between the markers. -/
def body : List Char := (cs.drop (p.inner m)).take (p.stop - p.inner m)

/-- The source of the call: what stands between the markers, trimmed. -/
def source : List Char := trim (p.body m cs)

end Place

/-- The places of the spans of a text from an offset on. -/
inductive Scan (m : Markers) (cs : List Char) : Nat → List Place → Prop
  /-- No start marker is left that an end marker comes after. -/
  | done {n : Nat} (h : ∀ i j, n ≤ i → OccursAt m.start cs i → i + m.start.length ≤ j →
      ¬ OccursAt m.stop cs j) : Scan m cs n []
  /-- The markers of the next span are the first ones. -/
  | span {n : Nat} {p : Place} {ps : List Place}
      (hstart : IsLeast {i | n ≤ i ∧ OccursAt m.start cs i} p.start)
      (hstop : IsLeast {j | p.inner m ≤ j ∧ OccursAt m.stop cs j} p.stop)
      (hrest : Scan m cs (p.after m) ps) : Scan m cs n (p :: ps)

/-- The pattern of a span: its source between its markers, with blanks around it. -/
def Markers.pattern (m : Markers) : Pattern :=
  .seq (.word m.start) <| .seq (.many isBlank) <| .seq (.keep (.few fun _ => true)) <|
    .seq (.many isBlank) (.word m.stop)

/-- The places of the spans among pieces that start at an offset. -/
def placesFrom (m : Markers) (n : Nat) : List Piece → List Place
  | [] => []
  | .literal text :: ps => placesFrom m (n + text.length) ps
  | .span body :: ps =>
      let p : Place := ⟨n, n + m.start.length + body.length⟩
      p :: placesFrom m (p.after m) ps

/-- The places of the spans of a text. -/
def places (m : Markers) (cs : List Char) : List Place := placesFrom m 0 (splitSpans m cs)

/-- The pieces of a text that is cut at places, from an offset on. -/
def piecesAt (m : Markers) (cs : List Char) (n : Nat) : List Place → List Piece
  | [] => [.literal (cs.drop n)]
  | p :: ps =>
      .literal ((cs.drop n).take (p.start - n)) :: .span (p.body m cs) ::
        piecesAt m cs (p.after m) ps

/-! ## First occurrences -/

section Occurrences

variable {word cs : List Char}

theorem OccursAt.of_append {front : List Char} {i : Nat} (h : OccursAt word (front ++ cs) i)
    (hi : front.length ≤ i) : ∃ u v, cs = u ++ word ++ v ∧ i = front.length + u.length := by
  obtain ⟨u, v, huv, rfl⟩ := h
  rw [List.append_assoc] at huv
  obtain ⟨w, rfl⟩ := List.prefix_of_prefix_length_le (List.prefix_append front cs)
    (huv ▸ List.prefix_append u _) hi
  rw [List.append_assoc, List.append_cancel_left_eq] at huv
  exact ⟨w, v, by rw [huv, List.append_assoc], List.length_append⟩

theorem OccursAt.append (word front u v : List Char) :
    OccursAt word (front ++ (u ++ word ++ v)) (front.length + u.length) :=
  ⟨front ++ u, v, by simp only [List.append_assoc], List.length_append⟩

/-- A cut is at the first occurrence after what stands before the text. -/
theorem isLeast_of_cutAt? {before after : List Char} (h : cutAt? word cs = some (before, after))
    (front : List Char) : IsLeast {i | front.length ≤ i ∧ OccursAt word (front ++ cs) i}
      (front.length + before.length) := by
  constructor
  · rw [cutAt?_eq_some h]
    exact ⟨Nat.le_add_right _ _, .append word front before after⟩
  · rintro i ⟨hi, hocc⟩
    obtain ⟨u, v, huv, rfl⟩ := hocc.of_append hi
    have hsuffix : v <:+ after :=
      (firstAfter_of_cutAt? h).suffix ((cutAt?_eq_some h).symm.trans huv)
    have hlength := congrArg List.length ((cutAt?_eq_some h).symm.trans huv)
    have hle := hsuffix.length_le
    simp only [List.length_append] at hlength
    omega

end Occurrences

/-! ## The places of a text -/

variable {m : Markers}

theorem placesFrom_of_some {cs before body after : List Char}
    (h : m.firstSpan? cs = some (before, body, after)) (n : Nat) :
    placesFrom m n (splitSpans m cs) =
      let p : Place := ⟨n + before.length, n + before.length + m.start.length + body.length⟩
      p :: placesFrom m (p.after m) (splitSpans m after) := by
  rw [splitSpans_of_some h]
  rfl

/-- The text before the rest of a text, when one more span is put before that. -/
theorem length_front {front before body : List Char} {p : Place}
    (hp : p = ⟨front.length + before.length,
      front.length + before.length + m.start.length + body.length⟩) :
    (front ++ (before ++ (m.start ++ body ++ m.stop))).length = p.after m := by
  subst hp
  simp only [List.length_append, Place.after]
  omega

/-- The pieces of a text are at the places that scanning it finds.  `front` is what has been
scanned before. -/
theorem scan_placesFrom (cs : List Char) : ∀ front : List Char,
    Scan m (front ++ cs) front.length (placesFrom m front.length (splitSpans m cs)) := by
  induction cs using splitSpans.induct m with
  | case1 cs h =>
      intro front
      rw [splitSpans_of_none h]
      refine .done fun i j hi hstart hij hstop => ?_
      obtain ⟨u, rest, rfl, rfl⟩ := hstart.of_append hi
      have hfront : (front ++ (u ++ m.start)).length ≤ j := by
        rw [List.length_append, List.length_append]
        omega
      rw [← List.append_assoc front] at hstop
      obtain ⟨v, w, rfl, -⟩ := hstop.of_append hfront
      exact Markers.ne_of_firstSpan? h u v w (by simp only [List.append_assoc])
  | case2 cs before body after h ih =>
      intro front
      have hcs := Markers.firstSpan?_eq_some h
      rw [placesFrom_of_some h]
      generalize hp : (⟨front.length + before.length,
        front.length + before.length + m.start.length + body.length⟩ : Place) = p
      have hlength := length_front hp.symm
      have hrest := ih (front ++ (before ++ (m.start ++ body ++ m.stop)))
      rw [hlength, List.append_assoc, List.append_assoc, ← List.append_assoc before, ← hcs] at hrest
      obtain ⟨rest, hstart, hstop⟩ := Markers.firstSpan?_eq_some_iff.mp h
      have hinner : (front ++ (before ++ m.start)).length = p.inner m := by
        subst hp
        simp only [List.length_append, Place.inner]
        omega
      have hwhole : front ++ (before ++ m.start) ++ rest = front ++ cs := by
        rw [cutAt?_eq_some hstart, List.append_assoc]
      refine .span ?_ ?_ hrest
      · subst hp
        exact isLeast_of_cutAt? hstart front
      · have hleast := isLeast_of_cutAt? hstop (front ++ (before ++ m.start))
        rw [hwhole, hinner] at hleast
        subst hp
        exact hleast

theorem scan_places (m : Markers) (cs : List Char) : Scan m cs 0 (places m cs) :=
  scan_placesFrom cs []

/-! ## What scanning says of places -/

/-- There is one way to scan a text. -/
theorem Scan.unique {cs : List Char} {n : Nat} {ps qs : List Place} (hp : Scan m cs n ps)
    (hq : Scan m cs n qs) : ps = qs := by
  induction hp generalizing qs with
  | done h =>
      cases hq with
      | done _ => rfl
      | span hstart hstop _ =>
          exact absurd hstop.1.2 (h _ _ hstart.1.1 hstart.1.2 hstop.1.1)
  | @span n p ps hstart hstop _ ih =>
      cases hq with
      | done h => exact absurd hstop.1.2 (h _ _ hstart.1.1 hstart.1.2 hstop.1.1)
      | @span _ q qs hstart' hstop' hrest' =>
          obtain ⟨i, j⟩ := p
          obtain ⟨i', j'⟩ := q
          cases hstart.unique hstart'
          cases hstop.unique hstop'
          rw [ih hrest']

/-- The markers of a span stand one after the other, after the offset where scanning
starts. -/
theorem Scan.of_mem {cs : List Char} {n : Nat} {ps : List Place} (h : Scan m cs n ps) :
    ∀ p ∈ ps, n ≤ p.start ∧ OccursAt m.start cs p.start ∧ p.inner m ≤ p.stop ∧
      OccursAt m.stop cs p.stop ∧ ∀ j, p.inner m ≤ j → OccursAt m.stop cs j → p.stop ≤ j := by
  induction h with
  | done _ =>
      intro p hp
      cases hp
  | @span n p ps hstart hstop _ ih =>
      intro q hq
      rcases List.mem_cons.mp hq with rfl | hq
      · exact ⟨hstart.1.1, hstart.1.2, hstop.1.1, hstop.1.2, fun j hj hocc => hstop.2 ⟨hj, hocc⟩⟩
      · obtain ⟨hle, hrest⟩ := ih q hq
        have hp := hstart.1.1
        have hinner : p.inner m ≤ p.stop := hstop.1.1
        refine ⟨?_, hrest⟩
        simp only [Place.inner, Place.after] at hinner hle
        omega

/-- Spans do not overlap, and come in order. -/
theorem Scan.pairwise {cs : List Char} {n : Nat} {ps : List Place} (h : Scan m cs n ps) :
    ps.Pairwise fun p q => p.after m ≤ q.start := by
  induction h with
  | done _ => exact .nil
  | span _ _ hrest ih => exact .cons (fun q hq => (hrest.of_mem q hq).1) ih

/-- No end marker stands between the markers of a span. -/
theorem not_infix_body {cs : List Char} {p : Place}
    (hleast : ∀ j, p.inner m ≤ j → OccursAt m.stop cs j → p.stop ≤ j) :
    ¬ m.stop <:+: p.body m cs := by
  rintro ⟨u, v, huv⟩
  have hlength := congrArg List.length huv
  have hpos := List.length_pos_iff.mpr m.stop_ne_nil
  simp only [List.length_append, Place.body, List.length_take, List.length_drop] at hlength
  have hrest : cs = cs.take (p.inner m) ++ (u ++ m.stop ++ (v ++
      (cs.drop (p.inner m)).drop (p.stop - p.inner m))) := by
    rw [← List.append_assoc _ v, huv, Place.body, List.take_append_drop, List.take_append_drop]
  have hocc : OccursAt m.stop cs (p.inner m + u.length) := by
    have happend := OccursAt.append m.stop (cs.take (p.inner m)) u (v ++
      (cs.drop (p.inner m)).drop (p.stop - p.inner m))
    rw [← hrest, List.length_take, Nat.min_eq_left (by omega)] at happend
    exact happend
  have := hleast _ (Nat.le_add_right _ _) hocc
  omega

/-! ## Pieces at places -/

/-- The text between the markers of a span that comes first. -/
theorem body_first (front before body after : List Char) :
    (⟨front.length + before.length,
      front.length + before.length + m.start.length + body.length⟩ : Place).body m
      (front ++ (before ++ (m.start ++ body ++ m.stop) ++ after)) = body := by
  have hinner : front ++ (before ++ (m.start ++ body ++ m.stop) ++ after) =
      (front ++ (before ++ m.start)) ++ (body ++ (m.stop ++ after)) := by
    simp only [List.append_assoc]
  rw [hinner, Place.body, Place.inner, Nat.add_sub_cancel_left, List.drop_left' (by simp; omega),
    List.take_left]

theorem splitSpans_eq_piecesAt (cs : List Char) : ∀ front : List Char, splitSpans m cs =
    piecesAt m (front ++ cs) front.length (placesFrom m front.length (splitSpans m cs)) := by
  induction cs using splitSpans.induct m with
  | case1 cs h =>
      intro front
      rw [splitSpans_of_none h, placesFrom, placesFrom, piecesAt, List.drop_left]
  | case2 cs before body after h ih =>
      intro front
      have hcs := Markers.firstSpan?_eq_some h
      rw [placesFrom_of_some h, splitSpans_of_some h]
      have hrest := ih (front ++ (before ++ (m.start ++ body ++ m.stop)))
      rw [length_front rfl, List.append_assoc, List.append_assoc, ← List.append_assoc before,
        ← hcs] at hrest
      have hbefore : ((front ++ cs).drop front.length).take before.length = before := by
        rw [List.drop_left, hcs, List.append_assoc, List.take_left]
      dsimp only
      rw [piecesAt, Nat.add_sub_cancel_left, hbefore, ← hrest, hcs, body_first]

/-- A text is cut at the places of its spans. -/
theorem splitSpans_eq_piecesAt_places (m : Markers) (cs : List Char) :
    splitSpans m cs = piecesAt m cs 0 (places m cs) := splitSpans_eq_piecesAt cs []

/-! ## The literal after the last span -/

/-- Where the last span stops, or where scanning starts if there is none. -/
def scannedTo (m : Markers) (n : Nat) : List Place → Nat
  | [] => n
  | p :: ps => scannedTo m (p.after m) ps

/-- There is no span after the last one. -/
theorem Scan.rest {cs : List Char} {n : Nat} {ps : List Place} (h : Scan m cs n ps)
    (hn : n ≤ cs.length) (u body v : List Char) :
    cs.drop (scannedTo m n ps) ≠ u ++ (m.start ++ body ++ m.stop) ++ v := by
  induction h with
  | @done n h =>
      rintro heq
      have hcs : cs = cs.take n ++ (u ++ m.start ++ (body ++ m.stop ++ v)) := by
        simpa only [scannedTo, List.append_assoc, List.take_append_drop] using
          congrArg (cs.take n ++ ·) heq
      have hlength : (cs.take n).length = n := List.length_take_of_le hn
      have hstart : OccursAt m.start cs (n + u.length) := by
        have := OccursAt.append m.start (cs.take n) u (body ++ m.stop ++ v)
        rwa [← hcs, hlength] at this
      have hstop : OccursAt m.stop cs (n + u.length + m.start.length + body.length) :=
        ⟨cs.take n ++ u ++ m.start ++ body, v, by simpa only [List.append_assoc] using hcs,
          by simp only [List.length_append, hlength]⟩
      exact h _ _ (Nat.le_add_right _ _) hstart (Nat.le_add_right _ _) hstop
  | @span n p ps _ hstop _ ih =>
      obtain ⟨before, after, hcs, hbefore⟩ := hstop.1.2
      refine ih ?_
      rw [hcs, Place.after, ← hbefore]
      simp only [List.length_append]
      omega

theorem getLast?_piecesAt (cs : List Char) (n : Nat) (ps : List Place) :
    (piecesAt m cs n ps).getLast? = some (.literal (cs.drop (scannedTo m n ps))) := by
  induction ps generalizing n with
  | nil => rfl
  | cons p ps ih =>
      rw [scannedTo, ← ih (p.after m), piecesAt, List.getLast?_cons_cons]
      cases ps <;> rfl

/-! ## The pattern of a span -/

namespace Markers

/-- An end marker starts with no blank. -/
theorem exists_head?_stop (m : Markers) : ∃ a, m.stop.head? = some a ∧ isBlank a = false := by
  cases hs : m.stop with
  | nil => exact absurd hs m.stop_ne_nil
  | cons a rest =>
      refine ⟨a, rfl, ?_⟩
      obtain ⟨bs, hbs, -⟩ := dropBlankRight_append_blanks (dropBlank m.stop)
      have htrim : dropBlankRight (dropBlank m.stop) = m.stop := m.trim_stop
      rw [htrim, hs, List.cons_append] at hbs
      exact head_dropBlank hbs

theorem head?_ways_pattern (cs : List Char) : (m.pattern.ways cs).head? =
    if m.start.isPrefixOf cs then
      (cutAt? m.stop (cs.drop m.start.length)).map fun (body, after) =>
        ⟨m.start ++ (body ++ m.stop), [trim body], after⟩
    else none := by
  obtain ⟨a, hhead, ha⟩ := m.exists_head?_stop
  rw [pattern, Pattern.head?_ways_seq, Pattern.ways]
  split
  · rw [List.findSome?_singleton, Pattern.head?_ways_between hhead ha]
    cases cutAt? m.stop (cs.drop m.start.length) <;> rfl
  · rfl

/-- Where a text has no end marker after its first characters, it has no span later. -/
theorem firstSpan?_eq_none_of_prefix {c : Char} {cs : List Char}
    (hstop : cutAt? m.stop ((c :: cs).drop m.start.length) = none) : m.firstSpan? cs = none := by
  refine Option.eq_none_iff_forall_ne_some.mpr fun found h => ?_
  obtain ⟨before, body, after⟩ := found
  have hcs := firstSpan?_eq_some h
  have hsuffix : body ++ m.stop ++ after <:+ (c :: cs).drop m.start.length := by
    have hwhole : body ++ m.stop ++ after <:+ c :: cs :=
      ⟨c :: (before ++ m.start), by rw [hcs]; simp⟩
    refine List.suffix_of_suffix_length_le hwhole (List.drop_suffix _ _) ?_
    rw [List.length_drop, List.length_cons, hcs]
    simp only [List.length_append]
    omega
  exact not_infix_of_cutAt? hstop (List.IsInfix.trans ⟨body, after, rfl⟩ hsuffix.isInfix)

/-- The pattern finds the first span. -/
theorem find?_pattern (cs : List Char) : m.pattern.find? cs =
    (m.firstSpan? cs).map fun (before, body, after) =>
      (before, ⟨m.start ++ (body ++ m.stop), [trim body], after⟩) := by
  induction cs with
  | nil =>
      have hstart : ¬ m.start.isPrefixOf [] = true := fun h =>
        m.start_ne_nil (List.prefix_nil.mp (List.isPrefixOf_iff_prefix.mp h))
      rw [Pattern.find?, head?_ways_pattern, if_neg hstart, m.firstSpan?_nil]
      rfl
  | cons c cs ih =>
      rw [Pattern.find?, head?_ways_pattern]
      by_cases hp : m.start.isPrefixOf (c :: cs) = true
      · rw [if_pos hp, firstSpan?, cutAt?, if_pos hp]
        cases hstop : cutAt? m.stop ((c :: cs).drop m.start.length) with
        | some found => simp [hstop]
        | none => simp [hstop, ih, firstSpan?_eq_none_of_prefix hstop]
      · rw [if_neg hp, firstSpan?, cutAt?, if_neg hp, ih, firstSpan?]
        cases cutAt? m.start cs with
        | none => rfl
        | some found =>
            obtain ⟨before, rest⟩ := found
            simp [Function.comp_def]

end Markers

/-- Searching for the pattern finds the spans, and keeps their sources. -/
theorem finds_placesFrom (cs : List Char) : ∀ front : List Char, m.pattern.Finds front.length cs
    ((placesFrom m front.length (splitSpans m cs)).map fun p =>
      ⟨p.start, p.after m, [p.source m (front ++ cs)]⟩) := by
  induction cs using splitSpans.induct m with
  | case1 cs h =>
      intro front
      rw [splitSpans_of_none h]
      exact .none (by rw [Markers.find?_pattern, h]; rfl)
  | case2 cs before body after h ih =>
      intro front
      have hcs := Markers.firstSpan?_eq_some h
      have hfind : m.pattern.find? cs =
          some (before, ⟨m.start ++ (body ++ m.stop), [trim body], after⟩) := by
        rw [Markers.find?_pattern, h]
        rfl
      rw [placesFrom_of_some h]
      generalize hp : (⟨front.length + before.length,
        front.length + before.length + m.start.length + body.length⟩ : Place) = p
      have hstart : p.start = front.length + before.length := by rw [← hp]
      have hafter : p.after m =
          front.length + before.length + (m.start ++ (body ++ m.stop)).length := by
        subst hp
        simp only [Place.after, List.length_append]
        omega
      have hsource : p.source m (front ++ cs) = trim body := by
        rw [← hp, hcs, Place.source, body_first]
      have hrest := ih (front ++ (before ++ (m.start ++ body ++ m.stop)))
      rw [length_front hp.symm, List.append_assoc, List.append_assoc, ← List.append_assoc before,
        ← hcs, hafter] at hrest
      rw [List.map_cons, hsource, hstart, hafter]
      exact .some hfind (by simp [m.start_ne_nil]) hrest

/-! ## The account of a text -/

section Process

variable (functions : FunctionTable) (context : Context) (m : Markers) (fresh : Fresh)

/-- What the spans at places become.  `turn` is the place of the first one among the pieces of
the text. -/
def outcomesAt (cs : List Char) (turn : Nat) : List Place → List Outcome
  | [] => []
  | p :: ps =>
      (Piece.span (p.body m cs)).outcome functions context m (fresh.below turn).here ::
        outcomesAt cs (turn + 2) ps

/-- What becomes of a text that is cut at places, but for its literals. -/
theorem filterMap_outcomesFrom_piecesAt {α : Type} {f : Outcome → Option α}
    (hf : ∀ text, f (.literal text) = none) (cs : List Char) (turn n : Nat) (ps : List Place) :
    (outcomesFrom functions context m fresh turn (piecesAt m cs n ps)).filterMap f =
      (outcomesAt functions context m fresh cs (turn + 1) ps).filterMap f := by
  induction ps generalizing turn n with
  | nil => exact List.filterMap_cons_none (hf _)
  | cons p ps ih =>
      rw [piecesAt, outcomesFrom, outcomesFrom, Piece.outcome, List.filterMap_cons_none (hf _),
        outcomesAt, List.filterMap_cons, List.filterMap_cons, ih]

theorem segments_process (text : String) : (process functions context m fresh text).segments =
    (outcomesAt functions context m fresh text.toList 1 (places m text.toList)).filterMap
      Outcome.segment? := by
  rw [process, splitSpans_eq_piecesAt_places]
  exact filterMap_outcomesFrom_piecesAt functions context m fresh (fun _ => rfl) _ 0 0 _

theorem errors_process (text : String) : (process functions context m fresh text).errors =
    (outcomesAt functions context m fresh text.toList 1 (places m text.toList)).filterMap
      Outcome.error? := by
  rw [process, splitSpans_eq_piecesAt_places]
  exact filterMap_outcomesFrom_piecesAt functions context m fresh (fun _ => rfl) _ 0 0 _

/-- Why the call at a place fails, if it does.  `i` spans come before it. -/
def failureAt? (cs : List Char) (i : Nat) (p : Place) : Option SpanError :=
  match dispatch functions context (fresh.below (2 * i + 1)).here
      (String.ofList (p.source m cs)) with
  | .ok _ => none
  | .error e => some ⟨e, String.ofList (p.source m cs)⟩

/-- The failures of the calls of a text, in the order of their spans. -/
def failuresIn (text : String) : List SpanError :=
  (places m text.toList).zipIdx.filterMap fun span =>
    failureAt? functions context m fresh text.toList span.2 span.1

theorem filterMap_error?_outcomesAt (cs : List Char) (i : Nat) (ps : List Place) :
    (outcomesAt functions context m fresh cs (2 * i + 1) ps).filterMap Outcome.error? =
      (ps.zipIdx i).filterMap fun span =>
        failureAt? functions context m fresh cs span.2 span.1 := by
  induction ps generalizing i with
  | nil => rfl
  | cons p ps ih =>
      have hfirst : ((Piece.span (p.body m cs)).outcome functions context m
          (fresh.below (2 * i + 1)).here).error? =
          failureAt? functions context m fresh cs i p := by
        rw [Piece.outcome, failureAt?, Place.source]
        cases dispatch functions context (fresh.below (2 * i + 1)).here
          (String.ofList (trim (p.body m cs))) <;> rfl
      rw [outcomesAt, List.zipIdx_cons, List.filterMap_cons, List.filterMap_cons, hfirst, ← ih]
      rfl

/-- The errors of a processed text are the failures of its calls. -/
theorem errors_process_eq_failuresIn (text : String) :
    (process functions context m fresh text).errors =
      failuresIn functions context m fresh text := by
  rw [errors_process]
  exact filterMap_error?_outcomesAt functions context m fresh text.toList 0 _

/-- What scanning says of a text that has spans at places. -/
structure ScansExactly (m : Markers) (text : String) (ps : List Place) : Prop where
  /-- Each span starts at the first start marker that is left, and stops at the first end marker
  after that; nothing is left that is a span. -/
  scan : Scan m text.toList 0 ps
  unique : ∀ qs, Scan m text.toList 0 qs → qs = ps
  /-- Spans do not overlap, and come in order. -/
  ordered : ps.Pairwise fun p q => p.after m ≤ q.start
  markers : ∀ p ∈ ps, OccursAt m.start text.toList p.start ∧
    IsLeast {j | p.inner m ≤ j ∧ OccursAt m.stop text.toList j} p.stop
  /-- The source of a span is what stands between its markers, without the blanks around it. -/
  trimmed : ∀ p ∈ ps, Trimmed (p.body m text.toList) (p.source m text.toList)
  no_stop : ∀ p ∈ ps, ¬ m.stop <:+: p.source m text.toList
  /-- The text is cut at the places of its spans. -/
  pieces : splitSpans m text.toList = piecesAt m text.toList 0 ps
  /-- The literal after the last span holds no span. -/
  rest : (splitSpans m text.toList).getLast? =
      some (.literal (text.toList.drop (scannedTo m 0 ps))) ∧
    ∀ u body v, text.toList.drop (scannedTo m 0 ps) ≠ u ++ (m.start ++ body ++ m.stop) ++ v
  /-- The pattern of a span is found at the same places, and keeps the sources. -/
  found : m.pattern.Finds 0 text.toList
    (ps.map fun p => ⟨p.start, p.after m, [p.source m text.toList]⟩)
  /-- The calls that are made are those at the places. -/
  segments : ∀ functions context fresh, (process functions context m fresh text).segments =
    (outcomesAt functions context m fresh text.toList 1 ps).filterMap Outcome.segment?
  errors : ∀ functions context fresh, (process functions context m fresh text).errors =
    (outcomesAt functions context m fresh text.toList 1 ps).filterMap Outcome.error?

theorem scansExactly (text : String) : ScansExactly m text (places m text.toList) := by
  have hscan := scan_places m text.toList
  have hpieces := splitSpans_eq_piecesAt_places m text.toList
  constructor
  case scan => exact hscan
  case unique => exact fun qs hqs => hqs.unique hscan
  case ordered => exact hscan.pairwise
  case markers =>
    intro p hp
    obtain ⟨-, hstart, hstop, hocc, hleast⟩ := hscan.of_mem p hp
    exact ⟨hstart, ⟨hstop, hocc⟩, fun j hj => hleast j hj.1 hj.2⟩
  case trimmed => exact fun p _ => trimmed_trim (p.body m text.toList)
  case no_stop =>
    intro p hp hpart
    obtain ⟨-, -, -, -, hleast⟩ := hscan.of_mem p hp
    exact not_infix_body hleast (hpart.trans (trimmed_trim _).isInfix)
  case pieces => exact hpieces
  case rest =>
    rw [hpieces]
    exact ⟨getLast?_piecesAt _ _ _, hscan.rest (Nat.zero_le _)⟩
  case found => exact finds_placesFrom text.toList []
  case segments => exact fun functions context fresh => segments_process functions context m fresh _
  case errors => exact fun functions context fresh => errors_process functions context m fresh _

end Process

/-- A text with an empty span, and a span in which the end marker overlaps the start marker. -/
example : places .standard "%$$% %$%$ f() $% %$".toList = [⟨0, 2⟩, ⟨5, 14⟩] := by
  decide +kernel

end PageLoom
