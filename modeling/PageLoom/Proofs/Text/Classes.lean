import PageLoom.Text.Blank
import Mathlib.Data.List.TakeWhile

/-!
# Classes of characters

What a text starts with of a class does not depend on what follows a character that is not of
the class.

A text is `Trimmed` to another one if that is the text without the blanks at both ends.  This
is what `trim` leaves (`trimmed_trim`).
-/

namespace PageLoom

/-! ## Characters of a class at the start of a text -/

section Class

variable {α : Type} {p : α → Bool} {c : α} (hc : p c = false) (xs ys : List α)

include hc

theorem takeWhile_append_cons : (xs ++ c :: ys).takeWhile p = xs.takeWhile p := by
  induction xs with
  | nil => exact List.takeWhile_cons_of_neg (by simp [hc])
  | cons x xs ih =>
      rw [List.cons_append, List.takeWhile_cons, List.takeWhile_cons, ih]

theorem dropWhile_append_cons : (xs ++ c :: ys).dropWhile p = xs.dropWhile p ++ c :: ys := by
  induction xs with
  | nil => exact List.dropWhile_cons_of_neg (by simp [hc])
  | cons x xs ih =>
      rw [List.cons_append, List.dropWhile_cons, List.dropWhile_cons, ih]
      split <;> rfl

end Class

/-! ## Blanks at an end -/

/-- Nothing is left if there is nothing but blanks. -/
theorem dropBlankRight_eq_nil_iff {cs : List Char} :
    dropBlankRight cs = [] ↔ ∀ c ∈ cs, isBlank c = true := by
  induction cs with
  | nil => simp [dropBlankRight]
  | cons c cs ih =>
      rw [dropBlankRight, List.forall_mem_cons, ← ih]
      split
      next hnil => simp [hnil]
      next hcons => simp [hcons]

/-- A character stays before what is left, unless all of it is blank. -/
theorem dropBlankRight_cons {c : Char} {cs : List Char} (h : dropBlankRight (c :: cs) ≠ []) :
    dropBlankRight (c :: cs) = c :: dropBlankRight cs := by
  cases hcs : dropBlankRight cs with
  | nil =>
      rw [dropBlankRight, hcs] at h ⊢
      by_cases hc : isBlank c = true
      · simp [hc] at h
      · simp [hc]
  | cons d ds => simp [dropBlankRight, hcs]

theorem trim_cons_of_blank {c : Char} (hc : isBlank c = true) (cs : List Char) :
    trim (c :: cs) = trim cs := by rw [trim, dropBlank_cons_of_blank hc, trim]

/-- Blanks before a text do not matter when it is trimmed. -/
theorem trim_append_of_blanks {bs : List Char} (hbs : ∀ b ∈ bs, isBlank b = true)
    (cs : List Char) : trim (bs ++ cs) = trim cs := by
  induction bs with
  | nil => rfl
  | cons b bs ih =>
      rw [List.forall_mem_cons] at hbs
      rw [List.cons_append, trim_cons_of_blank hbs.1, ih hbs.2]

/-! ## Trimmed texts -/

/-- A text is another one without the blanks at both ends. -/
structure Trimmed (cs ds : List Char) : Prop where
  around : ∃ bs bs', cs = bs ++ ds ++ bs' ∧ (∀ b ∈ bs, isBlank b = true) ∧
    ∀ b ∈ bs', isBlank b = true
  head : ∀ d, ds.head? = some d → isBlank d = false
  last : ∀ d, ds.getLast? = some d → isBlank d = false

/-- Trimming takes away blanks at both ends and nothing else. -/
theorem trimmed_trim (cs : List Char) : Trimmed cs (trim cs) := by
  obtain ⟨bs, hbs, hblank⟩ := dropBlankRight_append_blanks (dropBlank cs)
  constructor
  case around =>
    refine ⟨cs.takeWhile isBlank, bs, ?_, List.all_eq_true.mp List.all_takeWhile, hblank⟩
    rw [trim, List.append_assoc, ← hbs]
    exact List.takeWhile_append_dropWhile.symm
  case head =>
    intro d hd
    obtain ⟨ds, hds⟩ := List.head?_eq_some_iff.mp hd
    rw [trim] at hds
    rw [hds, List.cons_append] at hbs
    exact head_dropBlank hbs
  case last => exact fun d hd => getLast_dropBlankRight hd

/-- What is left stands in the text as it is. -/
theorem Trimmed.isInfix {cs ds : List Char} (h : Trimmed cs ds) : ds <:+: cs := by
  obtain ⟨bs, bs', hcs, -, -⟩ := h.around
  exact ⟨bs, bs', hcs.symm⟩

/-! ## Visible characters -/

/-- Visible ASCII characters are not blank. -/
theorem isBlank_of_visible {c : Char} (h : 0x20 < c.toNat) (h' : c.toNat < 0x7F) :
    isBlank c = false := by
  simp [isBlank]
  omega

theorem visible_of_isAlphanum {c : Char} (h : c.isAlphanum = true) :
    0x20 < c.toNat ∧ c.toNat < 0x7F := by
  delta Char.isAlphanum Char.isAlpha Char.isUpper Char.isLower Char.isDigit at h
  simp only [Bool.or_eq_true, Bool.and_eq_true, decide_eq_true_eq, ge_iff_le,
    UInt32.le_iff_toNat_le] at h
  have hval : c.val.toNat = c.toNat := rfl
  simp at h
  omega

end PageLoom
