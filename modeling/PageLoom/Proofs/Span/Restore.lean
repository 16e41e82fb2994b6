import PageLoom.Proofs.Text.Search
import PageLoom.Span.Process
import Mathlib.Data.List.Nodup

/-!
# Putting spans back

A reference is found only where it was put: its braces tell where it starts, and the name
between them occurs nowhere else (`replaceWord_reference`).  So putting the spans back for
their placeholders, one after another and in any order, gives the text as it was before
(`Apart.restored`).
-/

namespace PageLoom

/-! ## References -/

/-- Whether a name has no braces. -/
def Unbraced (name : String) : Prop := '{' ∉ name.toList ∧ '}' ∉ name.toList

instance : DecidablePred Unbraced := fun _ => inferInstanceAs (Decidable (_ ∧ _))

theorem unbraced_placeholderName {id : String} (h : Unbraced id) :
    Unbraced (placeholderName id) := by
  have hlabel : Unbraced "fundsl_" := by decide
  simp only [Unbraced, placeholderName, String.toList_append, List.mem_append, not_or]
  exact ⟨⟨hlabel.1, h.1⟩, hlabel.2, h.2⟩

theorem unbraced_hexDigits (n count : Nat) :
    '{' ∉ hexDigits n count ∧ '}' ∉ hexDigits n count := by
  have hdigit : ∀ d : Fin 16, '{' ≠ hexDigitOf d ∧ '}' ≠ hexDigitOf d := by decide
  induction count generalizing n with
  | zero => exact ⟨List.not_mem_nil, List.not_mem_nil⟩
  | succ count ih =>
      obtain ⟨hopen, hclose⟩ := hdigit ⟨n % 16, Nat.mod_lt n (by decide)⟩
      simp only [hexDigits, List.mem_append, List.mem_singleton, not_or]
      exact ⟨⟨(ih (n / 16)).1, hopen⟩, (ih (n / 16)).2, hclose⟩

/-- Identifiers made of digits have no braces. -/
theorem unbraced_ofSeed (seed : Nat) (place : List Nat) : Unbraced (Fresh.ofSeed seed place) := by
  rw [Unbraced, Fresh.ofSeed, String.toList_ofList]
  exact unbraced_hexDigits _ _

theorem toList_reference (name : String) :
    (reference name).toList = '{' :: '{' :: (name.toList ++ ['}', '}']) := by
  simp [reference]

theorem reference_ne_nil (name : String) : (reference name).toList ≠ [] := by
  rw [toList_reference]
  exact List.cons_ne_nil _ _

/-- A word ends before a character that it does not have. -/
theorem prefix_of_prefix_append_cons {α : Type} {a : α} {word xs rest : List α} (ha : a ∉ word)
    (h : word <+: xs ++ a :: rest) : word <+: xs := by
  rcases List.prefix_or_prefix_of_prefix h (List.prefix_append xs (a :: rest)) with hw | ⟨ys, rfl⟩
  · exact hw
  · rw [List.prefix_append_right_inj] at h
    rcases List.prefix_cons_iff.mp h with rfl | ⟨t, rfl, -⟩
    · rw [List.append_nil]
    · exact absurd (List.mem_append_right xs List.mem_cons_self) ha

theorem eq_of_append_cons_eq {α : Type} {a : α} {xs ys s t : List α} (hx : a ∉ xs) (hy : a ∉ ys)
    (h : xs ++ a :: s = ys ++ a :: t) : xs = ys := by
  have hxy : xs <+: ys := prefix_of_prefix_append_cons hx (h ▸ List.prefix_append xs (a :: s))
  have hyx : ys <+: xs := prefix_of_prefix_append_cons hy (h ▸ List.prefix_append ys (a :: t))
  exact hxy.eq_of_length (Nat.le_antisymm hxy.length_le hyx.length_le)

section References

variable {p q : String} {zs rest : List Char}

theorem not_mem_closed (hp : Unbraced p) : '{' ∉ p.toList ++ ['}', '}'] := by
  simp [hp.1]

theorem not_brace_prefix {xs : List Char} (hne : zs ≠ []) (hz : '{' ∉ zs) :
    ¬ '{' :: xs <+: zs ++ rest := by
  cases zs with
  | nil => exact absurd rfl hne
  | cons z zs =>
      intro hpre
      rw [List.cons_append, List.cons_prefix_cons] at hpre
      exact hz (hpre.1 ▸ List.mem_cons_self)

/-- After its first two braces, a reference has no brace that opens. -/
theorem not_closed_prefix (hp : Unbraced p) : ¬ p.toList ++ ['}', '}'] <+: '{' :: rest := by
  intro hpre
  rcases List.prefix_cons_iff.mp hpre with hnil | ⟨t, ht, -⟩
  · exact absurd hnil (List.append_ne_nil_of_right_ne_nil _ (List.cons_ne_nil _ _))
  · exact not_mem_closed hp (ht ▸ List.mem_cons_self)

/-- A reference does not start in a text that its name does not occur in. -/
theorem not_reference_prefix_literal (hp : Unbraced p) {t : List Char}
    (ht : ¬ p.toList <:+: t) (hz : zs <:+ t) (hne : zs ≠ []) :
    ¬ (reference p).toList <+: zs ++ '{' :: '{' :: rest := by
  intro hpre
  rw [toList_reference] at hpre
  rcases zs with _ | ⟨z, _ | ⟨z', zs⟩⟩
  · exact hne rfl
  · -- The second brace is the one after the text, and the name would start with another.
    simp only [List.cons_append, List.nil_append, List.cons_prefix_cons] at hpre
    exact not_closed_prefix hp hpre.2.2
  · simp only [List.cons_append, List.cons_prefix_cons] at hpre
    have hname : p.toList <+: zs :=
      prefix_of_prefix_append_cons hp.1 ((List.prefix_append _ _).trans hpre.2.2)
    have hzs : zs <:+ t := ((List.suffix_cons z' zs).trans (List.suffix_cons z _)).trans hz
    exact ht (hname.isInfix.trans hzs.isInfix)

/-- A reference does not start in a reference to another name. -/
theorem not_reference_prefix_reference (hp : Unbraced p) (hq : Unbraced q) (hqp : q ≠ p)
    (hz : zs <:+ (reference q).toList) (hne : zs ≠ []) :
    ¬ (reference p).toList <+: zs ++ rest := by
  have hclosed : q.toList ++ ['}', '}'] ≠ [] :=
    List.append_ne_nil_of_right_ne_nil _ (List.cons_ne_nil _ _)
  rw [toList_reference] at hz ⊢
  rcases List.suffix_cons_iff.mp hz with rfl | hz
  · simp only [List.cons_append, List.cons_prefix_cons, List.append_assoc]
    rintro ⟨-, -, s, hs⟩
    rw [List.append_assoc] at hs
    exact hqp (String.toList_injective (eq_of_append_cons_eq hp.2 hq.2 hs)).symm
  rcases List.suffix_cons_iff.mp hz with rfl | hz
  · rw [List.cons_append, List.cons_prefix_cons]
    rintro ⟨-, hpre⟩
    exact not_brace_prefix hclosed (not_mem_closed hq) hpre
  · exact not_brace_prefix hne fun hm => not_mem_closed hq (hz.mem hm)

/-- A replacement passes over a text without the name. -/
theorem replaceWord_literal (hp : Unbraced p) {t : List Char} (ht : ¬ p.toList <:+: t)
    (new rest : List Char) :
    replaceWord (reference p).toList new (t ++ ((reference q).toList ++ rest)) =
      t ++ replaceWord (reference p).toList new ((reference q).toList ++ rest) := by
  apply replaceWord_append
  rintro ys zs rfl hne
  rw [toList_reference q, List.cons_append, List.cons_append]
  exact not_reference_prefix_literal hp ht (List.suffix_append ys zs) hne

/-- A replacement replaces the references to its name, and no others. -/
theorem replaceWord_reference (hp : Unbraced p) (hq : Unbraced q) (new rest : List Char) :
    replaceWord (reference p).toList new ((reference q).toList ++ rest) =
      (if q = p then new else (reference q).toList) ++
        replaceWord (reference p).toList new rest := by
  split
  case isTrue hqp =>
    rw [hqp]
    exact replaceWord_word (reference_ne_nil p) rest
  case isFalse hqp =>
    apply replaceWord_append
    intro ys zs hyz hne
    exact not_reference_prefix_reference hp hq hqp (hyz ▸ List.suffix_append ys zs) hne

end References

/-! ## Texts with some spans put back -/

namespace Outcome

/-- What stood in the text where the piece is. -/
def original : Outcome → List Char
  | .literal text => text.toList
  | .succeeded s => s.written.toList
  | .failed written _ => written.toList

/-- What stands in the text when the spans of the placeholders `names` are put back. -/
def filled (names : List String) : Outcome → List Char
  | .literal text => text.toList
  | .succeeded s =>
      if s.placeholder ∈ names then s.written.toList else (reference s.placeholder).toList
  | .failed written _ => written.toList

theorem filled_nil (o : Outcome) : o.filled [] = o.text.toList := by
  cases o <;> rfl

theorem filled_eq_original {names : List String} {o : Outcome}
    (h : ∀ s, o = .succeeded s → s.placeholder ∈ names) : o.filled names = o.original := by
  cases o with
  | literal text => rfl
  | succeeded s => exact if_pos (h s rfl)
  | failed written e => rfl

/-- One more placeholder makes a difference to its own span only. -/
theorem filled_cons {s s' : Segment} {names : List String} (h : s'.placeholder ∉ names) :
    Outcome.filled (s.placeholder :: names) (.succeeded s') =
      if s'.placeholder = s.placeholder then s'.written.toList
      else (reference s'.placeholder).toList := by
  by_cases hs : s'.placeholder = s.placeholder
  · rw [filled, if_pos hs, if_pos (List.mem_cons.mpr (.inl hs))]
  · have hnot : s'.placeholder ∉ s.placeholder :: names := fun hmem =>
      (List.mem_cons.mp hmem).elim hs h
    rw [filled, if_neg hs, if_neg hnot]

end Outcome

theorem mem_filterMap_segment? {os : List Outcome} {s : Segment} :
    s ∈ os.filterMap Outcome.segment? ↔ .succeeded s ∈ os := by
  rw [List.mem_filterMap]
  constructor
  · rintro ⟨_ | s' | _, ho, hs⟩
    · cases hs
    · cases hs
      exact ho
    · cases hs
  · intro h
    exact ⟨.succeeded s, h, rfl⟩

/-- Put a span back for its placeholder. -/
def Segment.putBack (text : List Char) (s : Segment) : List Char :=
  replaceWord (reference s.placeholder).toList s.written.toList text

/-- Placeholders that tell the spans of a text apart, and stand nowhere in it. -/
structure Apart (os : List Outcome) : Prop where
  unbraced : ∀ s, .succeeded s ∈ os → Unbraced s.placeholder
  distinct : ∀ s, .succeeded s ∈ os → ∀ s', .succeeded s' ∈ os →
    s'.placeholder = s.placeholder → s' = s
  absent : ∀ s, .succeeded s ∈ os → ¬ s.placeholder.toList <:+: os.flatMap Outcome.original

/-- Putting a span back changes no other piece. -/
theorem putBack_filled {s : Segment} {os : List Outcome} (hs : Unbraced s.placeholder)
    (hos : ∀ s', .succeeded s' ∈ os →
      Unbraced s'.placeholder ∧ (s'.placeholder = s.placeholder → s' = s))
    (names : List String) (t : List Char)
    (ht : ¬ s.placeholder.toList <:+: t ++ os.flatMap Outcome.original) :
    s.putBack (t ++ os.flatMap (Outcome.filled names)) =
      t ++ os.flatMap (Outcome.filled (s.placeholder :: names)) := by
  -- `t` is what stood in the text since the last reference, so the name is not in it.
  induction os generalizing t with
  | nil =>
      rw [List.flatMap_nil, List.append_nil] at ht
      rw [List.flatMap_nil, List.flatMap_nil, List.append_nil]
      apply replaceWord_of_not_infix
      intro hpre
      rw [toList_reference] at hpre
      exact ht (.trans ⟨['{', '{'], ['}', '}'], by simp⟩ hpre)
  | cons o os ih =>
      have hrest := fun s' hs' => hos s' (List.mem_cons_of_mem o hs')
      rw [List.flatMap_cons] at ht
      rw [List.flatMap_cons, List.flatMap_cons]
      by_cases ho : ∃ s', o = .succeeded s' ∧ s'.placeholder ∉ names
      · obtain ⟨s', rfl, hnot⟩ := ho
        obtain ⟨hs', heq⟩ := hos s' List.mem_cons_self
        have htext : ¬ s.placeholder.toList <:+: t := fun h =>
          ht (h.trans (List.prefix_append t _).isInfix)
        have htail : ¬ s.placeholder.toList <:+: [] ++ os.flatMap Outcome.original := fun h =>
          ht (h.trans ((List.suffix_append _ _).trans (List.suffix_append t _)).isInfix)
        have hspan : (if s'.placeholder = s.placeholder then s.written.toList
            else (reference s'.placeholder).toList) =
            Outcome.filled (s.placeholder :: names) (.succeeded s') := by
          rw [Outcome.filled_cons hnot]
          split
          next hsame => rw [heq hsame]
          next => rfl
        have hfilled : Outcome.filled names (.succeeded s') = (reference s'.placeholder).toList :=
          if_neg hnot
        have hput : replaceWord (reference s.placeholder).toList s.written.toList
            (os.flatMap (Outcome.filled names)) =
            os.flatMap (Outcome.filled (s.placeholder :: names)) := ih hrest [] htail
        rw [hfilled, Segment.putBack, replaceWord_literal hs htext,
          replaceWord_reference hs hs', hspan, hput]
      · -- The piece stays as it stood in the text, and joins the literal before it.
        have hnames : ∀ s', o = .succeeded s' → s'.placeholder ∈ names := fun s' hs' => by
          by_contra hnot
          exact ho ⟨s', hs', hnot⟩
        have hsame : o.filled names = o.original := Outcome.filled_eq_original hnames
        have hsame' : o.filled (s.placeholder :: names) = o.original :=
          Outcome.filled_eq_original fun s' hs' => List.mem_cons_of_mem _ (hnames s' hs')
        rw [hsame, hsame', ← List.append_assoc, ← List.append_assoc]
        exact ih hrest _ (by rwa [List.append_assoc])

/-- Putting spans back, one after another. -/
theorem Apart.foldl_putBack {os : List Outcome} (h : Apart os) {segments : List Segment}
    (hmem : ∀ s ∈ segments, .succeeded s ∈ os) (names : List String) :
    segments.foldl Segment.putBack (os.flatMap (Outcome.filled names)) =
      os.flatMap (Outcome.filled ((segments.map Segment.placeholder).reverse ++ names)) := by
  induction segments generalizing names with
  | nil => rfl
  | cons s segments ih =>
      have hs := hmem s List.mem_cons_self
      have hput : s.putBack (os.flatMap (Outcome.filled names)) =
          os.flatMap (Outcome.filled (s.placeholder :: names)) :=
        putBack_filled (h.unbraced s hs)
          (fun s' hs' => ⟨h.unbraced s' hs', h.distinct s hs s' hs'⟩) names [] (h.absent s hs)
      rw [List.foldl_cons, hput, ih fun s' hs' => hmem s' (List.mem_cons_of_mem s hs')]
      simp

/-- Putting all spans back, in any order, gives what stood in the text. -/
theorem Apart.restored {os : List Outcome} (h : Apart os) {order : List Segment}
    (horder : order.Perm (os.filterMap Outcome.segment?)) :
    order.foldl Segment.putBack (os.flatMap fun o => o.text.toList) =
      os.flatMap Outcome.original := by
  have hmem : ∀ s, s ∈ order ↔ .succeeded s ∈ os := fun s =>
    horder.mem_iff.trans mem_filterMap_segment?
  have hstart : (os.flatMap fun o => o.text.toList) = os.flatMap (Outcome.filled []) :=
    List.flatMap_congr fun o _ => (Outcome.filled_nil o).symm
  rw [hstart, h.foldl_putBack (fun s hs => (hmem s).mp hs)]
  apply List.flatMap_congr
  intro o ho
  apply Outcome.filled_eq_original
  rintro s rfl
  rw [List.append_nil, List.mem_reverse]
  exact List.mem_map_of_mem ((hmem s).mpr ho)

end PageLoom
