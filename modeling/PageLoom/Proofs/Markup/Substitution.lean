import PageLoom.Proofs.Markup.Reference

/-!
# Substitution at once

No two references of a text overlap (`IsReference.apart`), whatever braces stand around them.  So a
text is cut in one way only into its references and literal texts without any
(`CutAtReferences.unique`).

A substitution follows that cut: it puts a value in the place of each reference that has one, all at
once, and copies everything else (`substitutes_at_once`).
-/

namespace PageLoom

/-! ## Two references -/

/-- Of two references in one text, one ends before the other one starts, unless they are the
same. -/
theorem IsReference.apart {name name' : String} {written written' u v u' v' : List Char}
    (h : IsReference name written) (h' : IsReference name' written')
    (hcs : u ++ (written ++ v) = u' ++ (written' ++ v')) (hle : u.length ≤ u'.length) :
    u = u' ∧ name = name' ∧ written = written' ∨ u.length + written.length ≤ u'.length := by
  obtain ⟨x, rfl⟩ := List.prefix_of_prefix_length_le (List.prefix_append u _)
    (hcs ▸ List.prefix_append u' _) hle
  rw [List.append_assoc, List.append_cancel_left_eq] at hcs
  have hscan := h.scan v
  rw [hcs] at hscan
  by_cases hx : x = []
  · subst hx
    rw [List.nil_append, h'.scan v'] at hscan
    cases String.toList_injective (congrArg Prod.fst (Option.some.inj hscan))
    cases congrArg Prod.snd (Option.some.inj hscan)
    exact .inl ⟨(List.append_nil u).symm, rfl, List.append_cancel_right hcs⟩
  · -- The later one starts with two braces, so the earlier one is closed before them.
    right
    obtain ⟨inside, rfl⟩ := h'.exists_braces
    rw [List.cons_append, List.cons_append, scanReference?_append hx] at hscan
    obtain ⟨⟨found, r⟩, -, hr⟩ := Option.map_eq_some_iff.mp hscan
    have hv : r ++ '{' :: '{' :: (inside ++ v') = v := congrArg Prod.snd hr
    have hlength := congrArg List.length hcs
    rw [← hv] at hlength
    simp only [List.length_append, List.length_cons] at hlength ⊢
    omega

/-! ## Cuts -/

/-- Whether no reference occurs in a text. -/
def Literal (cs : List Char) : Prop := ∀ name written, IsReference name written → ¬ written <:+: cs

/-- A reference in a text, and the literal text after it. -/
structure Referred where
  name : String
  written : List Char
  after : List Char

/-- Whether a text is cut into references and literal texts. -/
structure CutAtReferences (cs first : List Char) (refs : List Referred) : Prop where
  whole : cs = first ++ refs.flatMap fun r => r.written ++ r.after
  literal : Literal first
  references : ∀ r ∈ refs, IsReference r.name r.written ∧ Literal r.after

theorem literal_nil : Literal [] := by
  intro name written h hin
  exact h.ne_nil (List.eq_nil_of_infix_nil hin)

/-- The end of a literal is a literal: no reference can begin in it. -/
theorem Literal.of_cons {c : Char} {cs : List Char} (h : Literal (c :: cs)) : Literal cs := by
  intro name written hw hin
  exact h name written hw (hin.trans (List.suffix_cons c cs).isInfix)

/-- The first literal text of some parts, and their references with the literal text after each. -/
def cutParts : List TextPart → List Char × List Referred
  | [] => ([], [])
  | .char c :: parts => (c :: (cutParts parts).1, (cutParts parts).2)
  | .reference name written :: parts =>
      ([], ⟨String.ofList name, written, (cutParts parts).1⟩ :: (cutParts parts).2)

theorem cutParts_append (first : List Char) (parts : List TextPart) :
    cutParts (first.map TextPart.char ++ parts) =
      (first ++ (cutParts parts).1, (cutParts parts).2) := by
  induction first with
  | nil => rfl
  | cons c first ih => simp [cutParts, ih]

/-- The scan of the text cuts it at its references. -/
theorem cutAtReferences_cutParts (cs : List Char) :
    CutAtReferences cs (cutParts (references cs)).1 (cutParts (references cs)).2 := by
  induction cs using references_induct with
  | nil => exact ⟨rfl, literal_nil, by simp [references, referencesFrom, cutParts]⟩
  | char c cs hscan ih =>
      rw [references_cons_of_none hscan]
      refine ⟨congrArg (c :: ·) ih.whole, ?_, ih.references⟩
      intro name written hw hin
      rcases List.infix_cons_iff.mp hin with ⟨r, hr⟩ | hin
      · -- The text would start with a reference.
        have hcs : c :: cs = written ++ (r ++ (cutParts (references cs)).2.flatMap
            fun r => r.written ++ r.after) := by
          rw [← List.append_assoc, hr]
          exact congrArg (c :: ·) ih.whole
        rw [hcs, hw.scan] at hscan
        cases hscan
      · exact ih.literal name written hw hin
  | reference name written rest hwritten ih =>
      rw [hwritten.references_append]
      refine ⟨?_, literal_nil, ?_⟩
      · simp only [cutParts, List.flatMap_cons, List.nil_append, List.append_assoc]
        rw [← ih.whole]
      · intro r hr
        rcases List.mem_cons.mp hr with rfl | hr
        · rw [String.ofList_toList]
          exact ⟨hwritten, ih.literal⟩
        · exact ih.references r hr

theorem Literal.references_eq {cs : List Char} (h : Literal cs) :
    references cs = cs.map TextPart.char := by
  induction cs with
  | nil => rfl
  | cons c cs ih =>
      have hnone : scanReference? (c :: cs) = none := by
        by_contra hsome
        obtain ⟨⟨name, rest⟩, hscan⟩ := Option.ne_none_iff_exists'.mp hsome
        obtain ⟨written, hcs, hwritten⟩ := exists_isReference hscan
        exact h _ written hwritten (hcs ▸ (List.prefix_append written rest).isInfix)
      rw [references_cons_of_none hnone, ih h.of_cons, List.map_cons]

/-- A literal text before a reference has no part in it. -/
theorem Literal.references_append {cs : List Char} (h : Literal cs) {name : String}
    {written : List Char} (hw : IsReference name written) (rest : List Char) :
    references (cs ++ (written ++ rest)) =
      cs.map TextPart.char ++ references (written ++ rest) := by
  obtain ⟨inside, rfl⟩ := hw.exists_braces
  rw [List.cons_append, List.cons_append, PageLoom.references_append, h.references_eq]

namespace CutAtReferences

variable {cs first first' : List Char} {refs refs' : List Referred}

theorem references_eq (h : CutAtReferences cs first refs) :
    PageLoom.references cs = first.map TextPart.char ++
      refs.flatMap fun r => .reference r.name.toList r.written :: r.after.map TextPart.char := by
  obtain ⟨rfl, hfirst, hrefs⟩ := h
  induction refs generalizing first with
  | nil => simp [hfirst.references_eq]
  | cons r refs ih =>
      rw [List.forall_mem_cons] at hrefs
      obtain ⟨⟨hr, hafter⟩, hrefs⟩ := hrefs
      rw [List.flatMap_cons, List.append_assoc, hfirst.references_append hr, hr.references_append,
        ih hafter hrefs, List.flatMap_cons, List.cons_append]

/-- No other way of cutting the text than that of the scan satisfies the specification. -/
theorem cutParts_eq (h : CutAtReferences cs first refs) :
    cutParts (PageLoom.references cs) = (first, refs) := by
  have hcut : ∀ refs : List Referred, cutParts (refs.flatMap fun r =>
      .reference r.name.toList r.written :: r.after.map TextPart.char) = ([], refs) := by
    intro refs
    induction refs with
    | nil => rfl
    | cons r refs ih => simp [cutParts, cutParts_append, ih]
  rw [h.references_eq, cutParts_append, hcut, List.append_nil]

/-- There is one cut only. -/
theorem unique (h : CutAtReferences cs first refs) (h' : CutAtReferences cs first' refs') :
    first = first' ∧ refs = refs' := by
  have heq := h.cutParts_eq.symm.trans h'.cutParts_eq
  exact ⟨congrArg Prod.fst heq, congrArg Prod.snd heq⟩

end CutAtReferences

/-! ## Substitution -/

/-- What stands for a reference: the value of its name, or itself. -/
def Referred.shown (vars : NameMap String) (r : Referred) : List Char :=
  match vars.get? r.name with
  | some value => value.toList
  | none => r.written

theorem flatMap_fill_chars (vars : NameMap String) (cs : List Char) :
    (cs.map TextPart.char).flatMap (TextPart.fill vars) = cs := by
  rw [List.flatMap_map]
  exact List.flatMap_singleton' cs

/-- Each reference is replaced by what it shows, and what is inserted is not scanned again. -/
theorem CutAtReferences.substituted_eq {cs first : List Char} {refs : List Referred}
    (h : CutAtReferences cs first refs) (vars : NameMap String) :
    substituted vars cs = first ++ refs.flatMap fun r => r.shown vars ++ r.after := by
  rw [substituted, h.references_eq, List.flatMap_append, flatMap_fill_chars, List.flatMap_assoc]
  congr 1
  refine List.flatMap_congr fun r hr => ?_
  rw [List.flatMap_cons, flatMap_fill_chars, TextPart.fill, String.ofList_toList]
  rfl

/-- What a substitution does to a text. -/
structure SubstitutesAtOnce (text : String) (first : List Char) (refs : List Referred) : Prop where
  /-- No two references overlap. -/
  apart : ∀ name written u v name' written' u' v', IsReference name written →
    IsReference name' written' → text.toList = u ++ (written ++ v) →
    text.toList = u' ++ (written' ++ v') →
    u = u' ∧ name = name' ∧ written = written' ∨ u.length + written.length ≤ u'.length ∨
      u'.length + written'.length ≤ u.length
  /-- The text is cut at its references. -/
  cut : CutAtReferences text.toList first refs
  /-- There is no other cut. -/
  unique : ∀ first' refs', CutAtReferences text.toList first' refs' → first' = first ∧ refs' = refs
  /-- Each reference to a name with a value becomes the value, and all else stays. -/
  substitute : ∀ vars, substitute vars text =
    String.ofList (first ++ refs.flatMap fun r => r.shown vars ++ r.after)
  /-- Without variables the text stays as it is. -/
  empty : PageLoom.substitute .empty text = text

/-- There is one way to cut a text at its references, and substitution replaces them all at once. -/
theorem substitutes_at_once (text : String) :
    ∃ first refs, SubstitutesAtOnce text first refs := by
  have hcut := cutAtReferences_cutParts text.toList
  refine ⟨(cutParts (references text.toList)).1, (cutParts (references text.toList)).2, ?_⟩
  constructor
  case apart =>
    intro name written u v name' written' u' v' h h' hcs hcs'
    rcases Nat.le_total u.length u'.length with hle | hle
    · exact (h.apart h' (hcs.symm.trans hcs') hle).imp_right .inl
    · rcases h'.apart h (hcs'.symm.trans hcs) hle with ⟨rfl, rfl, rfl⟩ | hend
      · exact .inl ⟨rfl, rfl, rfl⟩
      · exact .inr (.inr hend)
  case cut => exact hcut
  case unique =>
    intro first' refs' hcut'
    exact hcut'.unique hcut
  case substitute =>
    intro vars
    rw [substitute_eq, hcut.substituted_eq]
  case empty =>
    rw [substitute_eq, substituted_eq_self fun _ _ => NameMap.get?_empty _, String.ofList_toList]

end PageLoom
