import PageLoom.Text.Search
import Mathlib.Data.List.Infix

/-!
# Occurrences of a word

A cut is at the first occurrence of a word (`firstAfter_of_cutAt?`), which does not depend
on what follows it (`cutAt?_append`).  A replacement leaves a text where no occurrence
starts as it is (`replaceWord_append`).
-/

namespace PageLoom

/-! ## Cutting -/

theorem cutAt?_word {word : List Char} (hne : word ≠ []) (after : List Char) :
    cutAt? word (word ++ after) = some ([], after) := by
  cases word with
  | nil => exact absurd rfl hne
  | cons c cs =>
      have hp : (c :: cs).isPrefixOf (c :: (cs ++ after)) = true :=
        List.isPrefixOf_iff_prefix.mpr (List.prefix_append (c :: cs) after)
      rw [List.cons_append, cutAt?, if_pos hp, ← List.cons_append, List.drop_left]

/-- The first occurrence of a word does not depend on what follows it. -/
theorem cutAt?_append {word before after : List Char} (hne : word ≠ [])
    (h : cutAt? word (before ++ word ++ after) = some (before, after)) (other : List Char) :
    cutAt? word (before ++ word ++ other) = some (before, other) := by
  induction before with
  | nil => exact cutAt?_word hne other
  | cons c before ih =>
      simp only [List.cons_append, cutAt?] at h ⊢
      split at h
      next => cases h
      next hp =>
        obtain ⟨⟨b, a⟩, hcut, hba⟩ := Option.map_eq_some_iff.mp h
        simp only [Prod.mk.injEq, List.cons.injEq, true_and] at hba
        rw [hba.1, hba.2] at hcut
        have hother : ¬ word.isPrefixOf (c :: (before ++ word ++ other)) = true := by
          intro hpre
          -- An earlier occurrence would end before the word does.
          have hshort : word <+: c :: before ++ word :=
            List.prefix_of_prefix_length_le (List.isPrefixOf_iff_prefix.mp hpre)
              (by rw [← List.cons_append, ← List.cons_append]; exact List.prefix_append _ _)
              (by rw [List.length_append]; omega)
          apply hp
          rw [List.isPrefixOf_iff_prefix, ← List.cons_append, ← List.cons_append]
          exact hshort.trans (List.prefix_append _ _)
        rw [if_neg hother, ih hcut]
        rfl

/-- Whether a word after a text occurs there for the first time. -/
def FirstAfter (word before : List Char) : Prop :=
  ∀ u v, before ++ word = u ++ word ++ v → v = []

/-- What stands before the cut holds no earlier occurrence, not even one that runs into the word. -/
theorem firstAfter_of_cutAt? {word cs before after : List Char}
    (h : cutAt? word cs = some (before, after)) : FirstAfter word before := by
  induction cs generalizing before with
  | nil =>
      simp only [cutAt?] at h
      split at h
      next hempty =>
        cases h
        rw [List.isEmpty_iff.mp hempty]
        intro u v huv
        rw [List.append_nil, List.append_nil] at huv
        exact (List.append_eq_nil_iff.mp huv.symm).2
      next => cases h
  | cons c cs ih =>
      simp only [cutAt?] at h
      split at h
      next =>
        cases h
        intro u v huv
        have hlength := congrArg List.length huv
        simp only [List.length_append, List.length_nil] at hlength
        exact List.eq_nil_of_length_eq_zero (by omega)
      next hp =>
        obtain ⟨⟨b, a⟩, hcut, hba⟩ := Option.map_eq_some_iff.mp h
        cases hba
        rintro (_ | ⟨d, u⟩) v huv
        · -- The word would occur at the start of the text.
          refine absurd (List.isPrefixOf_iff_prefix.mpr ?_) hp
          rw [cutAt?_eq_some hcut, ← List.cons_append, ← List.cons_append, huv]
          exact (List.prefix_append word v).trans (List.prefix_append _ a)
        · rw [List.cons_append, List.cons_append, List.cons_append] at huv
          exact ih hcut u v (List.cons.inj huv).2

/-- There is no cut only where the word does not occur. -/
theorem not_infix_of_cutAt? {word cs : List Char} (h : cutAt? word cs = none) :
    ¬ word <:+: cs := by
  induction cs with
  | nil =>
      simp only [cutAt?] at h
      split at h
      next => cases h
      next hempty =>
        intro hin
        exact hempty (List.isEmpty_iff.mpr (List.eq_nil_of_infix_nil hin))
  | cons c cs ih =>
      simp only [cutAt?] at h
      split at h
      next => cases h
      next hp =>
        intro hin
        rcases List.infix_cons_iff.mp hin with hpre | hin
        · exact hp (List.isPrefixOf_iff_prefix.mpr hpre)
        · exact ih (Option.map_eq_none_iff.mp h) hin

/-- A later occurrence of a word has less after it. -/
theorem FirstAfter.suffix {word before after u v : List Char} (h : FirstAfter word before)
    (huv : before ++ word ++ after = u ++ word ++ v) : v <:+ after := by
  have hlength : before.length ≤ u.length := by
    by_contra hlt
    have hpre : u ++ word <+: before ++ word :=
      List.prefix_of_prefix_length_le (huv ▸ List.prefix_append (u ++ word) v)
        (List.prefix_append (before ++ word) after) (by simp only [List.length_append]; omega)
    obtain ⟨w, hw⟩ := hpre
    have hnil := h u w hw.symm
    rw [hnil, List.append_nil] at hw
    have := congrArg List.length hw
    simp only [List.length_append] at this
    omega
  have hall := congrArg List.length huv
  simp only [List.length_append] at hall
  exact List.suffix_of_suffix_length_le (huv ▸ List.suffix_append (u ++ word) v)
    (List.suffix_append (before ++ word) after) (by omega)

/-! ## Replacing -/

variable {word new : List Char}

theorem replaceFrom_append (xs rest : List Char) :
    replaceFrom word new xs.length (xs ++ rest) = replaceWord word new rest := by
  induction xs with
  | nil => rfl
  | cons x xs ih => exact ih

/-- An occurrence at the beginning is replaced, and the replacement is not looked at again. -/
theorem replaceWord_word (hne : word ≠ []) (rest : List Char) :
    replaceWord word new (word ++ rest) = new ++ replaceWord word new rest := by
  cases word with
  | nil => exact absurd rfl hne
  | cons c cs =>
      have hp : (c :: cs).isPrefixOf (c :: (cs ++ rest)) = true :=
        List.isPrefixOf_iff_prefix.mpr (List.prefix_append (c :: cs) rest)
      rw [replaceWord, List.cons_append, replaceFrom, if_pos hp]
      exact congrArg (new ++ ·) (replaceFrom_append cs rest)

theorem replaceWord_cons {c : Char} {cs : List Char} (h : ¬ word <+: c :: cs) :
    replaceWord word new (c :: cs) = c :: replaceWord word new cs := by
  have hp : ¬ word.isPrefixOf (c :: cs) = true := fun hp => h (List.isPrefixOf_iff_prefix.mp hp)
  rw [replaceWord, replaceFrom, if_neg hp]
  rfl

/-- Text that no occurrence begins in is kept, also when an occurrence follows right behind it. -/
theorem replaceWord_append {xs rest : List Char}
    (h : ∀ ys zs, xs = ys ++ zs → zs ≠ [] → ¬ word <+: zs ++ rest) :
    replaceWord word new (xs ++ rest) = xs ++ replaceWord word new rest := by
  induction xs with
  | nil => rfl
  | cons x xs ih =>
      have hx : ¬ word <+: x :: (xs ++ rest) := h [] (x :: xs) rfl (List.cons_ne_nil x xs)
      have hxs : ∀ ys zs, xs = ys ++ zs → zs ≠ [] → ¬ word <+: zs ++ rest := by
        intro ys zs hyz
        exact h (x :: ys) zs (by rw [hyz, List.cons_append])
      rw [List.cons_append, replaceWord_cons hx, ih hxs, List.cons_append]

/-- Text without the word is left as it is. -/
theorem replaceWord_of_not_infix {cs : List Char} (h : ¬ word <:+: cs) :
    replaceWord word new cs = cs := by
  have hstart : ∀ ys zs, cs = ys ++ zs → zs ≠ [] → ¬ word <+: zs ++ [] := by
    intro ys zs hyz _ hpre
    rw [List.append_nil] at hpre
    exact h (hpre.isInfix.trans (hyz ▸ (List.suffix_append ys zs).isInfix))
  have hnil : replaceWord word new [] = [] := by simp only [replaceWord, replaceFrom]
  calc replaceWord word new cs
      _ = replaceWord word new (cs ++ []) := by rw [List.append_nil]
      _ = cs ++ replaceWord word new [] := replaceWord_append hstart
      _ = cs := by rw [hnil, List.append_nil]

end PageLoom
