import PageLoom.Proofs.Call.Prefix
import PageLoom.Proofs.Span.Scan

/-!
# Calls cut short by a marker

An end marker may occur inside a call, in a string for example.  The span then stops there, and
holds a part of the call only.  That part is refused as it stands: no function is looked up
for it, and the span is left with a syntax error (`neverTruncated`).
-/

namespace PageLoom

/-! ## Spans that stop in a call -/

section Cut

variable {m : Markers} {cs : List Char} {p : Place}

/-- A span stops at an end marker, or before it. -/
theorem stop_le_of_mem_places (hp : p ∈ places m cs) {u v : List Char}
    (h : cs.drop (p.inner m) = u ++ m.stop ++ v) : p.stop ≤ p.inner m + u.length := by
  obtain ⟨-, hstart, -, -, hleast⟩ := (scan_places m cs).of_mem p hp
  obtain ⟨before, after, hcs, hbefore⟩ := hstart
  have hlength : (cs.take (p.inner m)).length = p.inner m := by
    refine List.length_take_of_le ?_
    rw [hcs, Place.inner, ← hbefore]
    simp only [List.length_append]
    omega
  have hocc : OccursAt m.stop (cs.take (p.inner m) ++ (u ++ m.stop ++ v))
      ((cs.take (p.inner m)).length + u.length) := .append m.stop _ u v
  rw [← h, List.take_append_drop, hlength] at hocc
  exact hleast _ (Nat.le_add_right _ _) hocc

/-- The source of a span that stops in a text with blanks before it. -/
theorem source_eq_trim_take {gap s tail : List Char} {n : Nat}
    (h : cs.drop (p.inner m) = gap ++ s ++ tail) (hgap : ∀ c ∈ gap, isBlank c = true)
    (hn : n ≤ s.length) (hstop : p.stop ≤ p.inner m + (gap.length + n)) :
    ∃ k, k ≤ n ∧ p.source m cs = trim (s.take k) := by
  have hk : p.stop - p.inner m ≤ gap.length + n := by omega
  refine ⟨p.stop - p.inner m - gap.length, by omega, ?_⟩
  have hbody : p.body m cs = gap.take (p.stop - p.inner m) ++
      s.take (p.stop - p.inner m - gap.length) := by
    rw [Place.body, h, List.append_assoc, List.take_append, List.take_append_of_le_length]
    omega
  rw [Place.source, hbody, trim_append_of_blanks fun c hc => hgap c (List.mem_of_mem_take hc)]

end Cut

/-! ## What becomes of them -/

/-- Every span of a text has an outcome. -/
theorem exists_outcome_mem {cs : List Char} {p : Place} {ps : List Place} (hp : p ∈ ps)
    (functions : FunctionTable) (context : Context) (m : Markers) (fresh : Fresh) (turn : Nat) :
    ∃ id, (Piece.span (p.body m cs)).outcome functions context m id ∈
      outcomesAt functions context m fresh cs turn ps := by
  induction ps generalizing turn with
  | nil => cases hp
  | cons q ps ih =>
      rcases List.mem_cons.mp hp with rfl | hp
      · exact ⟨_, List.mem_cons_self⟩
      · obtain ⟨id, hid⟩ := ih hp (turn + 2)
        exact ⟨id, List.mem_cons_of_mem _ hid⟩

/-- The call of a span is refused for its text, whatever functions there are, and the span is
left as it is written. -/
structure Refused (m : Markers) (text : String) (p : Place) (e : SyntaxError) : Prop where
  parsed : parseCall (String.ofList (p.source m text.toList)) = .error e
  dispatched : ∀ functions context id,
    dispatch functions context id (String.ofList (p.source m text.toList)) =
      .error (.syntaxError e)
  outcome : ∀ functions context id,
    (Piece.span (p.body m text.toList)).outcome functions context m id =
      .failed (String.ofList (m.start ++ p.body m text.toList ++ m.stop))
        ⟨.syntaxError e, String.ofList (p.source m text.toList)⟩
  collected : ∀ functions context fresh,
    ⟨.syntaxError e, String.ofList (p.source m text.toList)⟩ ∈
      (process functions context m fresh text).errors

theorem refused_of_parseCall {m : Markers} {text : String} {p : Place} {e : SyntaxError}
    (hp : p ∈ places m text.toList)
    (h : parseCall (String.ofList (p.source m text.toList)) = .error e) : Refused m text p e := by
  have hdispatch : ∀ functions context id,
      dispatch functions context id (String.ofList (p.source m text.toList)) =
        .error (.syntaxError e) := by
    intro functions context id
    rw [dispatch, Call.ofSource, h]
  have houtcome : ∀ functions context id,
      (Piece.span (p.body m text.toList)).outcome functions context m id =
        .failed (String.ofList (m.start ++ p.body m text.toList ++ m.stop))
          ⟨.syntaxError e, String.ofList (p.source m text.toList)⟩ := by
    intro functions context id
    have hbody := hdispatch functions context id
    rw [Place.source] at hbody ⊢
    simp only [Piece.outcome, hbody, Piece.written]
  constructor
  case parsed => exact h
  case dispatched => exact hdispatch
  case outcome => exact houtcome
  case collected =>
    intro functions context fresh
    obtain ⟨id, hmem⟩ := exists_outcome_mem hp functions context m fresh 1
    rw [errors_process, List.mem_filterMap]
    exact ⟨_, hmem, by rw [houtcome]; rfl⟩

/-! ## The account of a call -/

/-- What becomes of a call that is cut. -/
structure NeverTruncated (s : String) : Prop where
  /-- The last parenthesis of the call is its end. -/
  last : ∃ a b, s.toList = a ++ ')' :: b ∧ ∀ c ∈ b, Token.isSpace c = true
  /-- No part of the call before its last parenthesis is a call. -/
  cut : ∀ (p : String) (more : List Char), s.toList = p.toList ++ more → ')' ∈ more →
    ∃ e, parseCall p = .error e
  /-- A span that the call is written in is refused if an end marker starts in the call. -/
  span : ∀ (m : Markers) (text : String), ∀ p ∈ places m text.toList,
    ∀ gap tail u v : List Char, text.toList.drop (p.inner m) = gap ++ s.toList ++ tail →
      (∀ c ∈ gap, isBlank c = true) → s.toList ++ tail = u ++ m.stop ++ v →
      u.length < s.length → p.stop ≤ p.inner m + gap.length + u.length ∧ ∃ e, Refused m text p e

theorem neverTruncated {s : String} {call : CallExpr} (h : parseCall s = .ok call) :
    NeverTruncated s := by
  obtain ⟨a, b, hs, hb⟩ := exists_closeParen_of_parseCall h
  constructor
  case last => exact ⟨a, b, hs, hb⟩
  case cut => exact fun p more hp hmore => parseCall_of_cut h hp hmore
  case span =>
    intro m text p hp gap tail u v htext hgap hmarker hu
    have hstop : p.stop ≤ p.inner m + (gap ++ u).length := by
      refine stop_le_of_mem_places hp (v := v) ?_
      rw [htext, List.append_assoc, hmarker]
      simp only [List.append_assoc]
    rw [List.length_append] at hstop
    rw [← String.length_toList] at hu
    have hlast : u.length ≤ a.length := by
      by_contra hlt
      -- Only spaces follow the parenthesis, and an end marker starts with no blank.
      obtain ⟨d, hd, hblank⟩ := m.exists_head?_stop
      have hat : (s.toList ++ tail)[u.length]? = some d := by
        rw [hmarker, List.append_assoc, List.getElem?_append_right (Nat.le_refl _), Nat.sub_self,
          ← List.head?_eq_getElem?, List.head?_append, hd]
        rfl
      rw [List.getElem?_append_left hu, hs,
        List.getElem?_append_right (by omega), List.getElem?_cons, if_neg (by omega)] at hat
      have hspace := isBlank_of_isSpace (hb d (List.mem_of_getElem? hat))
      rw [hblank] at hspace
      cases hspace
    obtain ⟨k, hk, hsource⟩ := source_eq_trim_take htext hgap hu.le hstop
    have hmore : ')' ∈ s.toList.drop k := by
      rw [hs, List.drop_append_of_le_length (hk.trans hlast)]
      exact List.mem_append_right _ List.mem_cons_self
    obtain ⟨e, he⟩ := parseCall_trim_of_cut h (List.take_append_drop k s.toList).symm hmore
    rw [← hsource] at he
    exact ⟨by omega, e, refused_of_parseCall hp he⟩

/-- An end marker in a string. -/
theorem neverTruncated_marker_in_string :
    parseCall "f(x=\"a$%b\")" = .ok ⟨"f", [("x", .str "a$%b")]⟩ ∧
    NeverTruncated "f(x=\"a$%b\")" ∧ ∃ e, Refused .standard "%$ f(x=\"a$%b\") $%" ⟨0, 9⟩ e := by
  have hparse : parseCall "f(x=\"a$%b\")" = .ok ⟨"f", [("x", .str "a$%b")]⟩ := rfl
  have hplaces : places .standard "%$ f(x=\"a$%b\") $%".toList = [⟨0, 9⟩] := by decide +kernel
  have hnever := neverTruncated hparse
  obtain ⟨-, hrefused⟩ := hnever.span .standard "%$ f(x=\"a$%b\") $%" ⟨0, 9⟩
    (by rw [hplaces]; exact List.mem_singleton_self _) [' '] " $%".toList "f(x=\"a".toList
    "b\") $%".toList (by decide +kernel) (List.forall_mem_singleton.mpr (by decide))
    (by decide +kernel) (by decide +kernel)
  exact ⟨hparse, hnever, hrefused⟩

end PageLoom
