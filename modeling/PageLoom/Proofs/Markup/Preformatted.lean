import PageLoom.Markup.Tag
import PageLoom.Proofs.Span.Restore
import PageLoom.Proofs.Text.Classes
import PageLoom.Proofs.Text.Lines

/-!
# Preformatted text

A text has marks: where preformatted text opens, and where it closes.  A text `EndsOpen` if the last
of its marks opens preformatted text.  Where it opens is a parameter.  `opensPre` says that it opens
at `<pre` with a `>` or a blank after it, and `opensOnLine` that it opens there if both stand on one
line.

The marks of a line are known from the line alone, if they are those of `opensOnLine`
(`lastMark?_line`).  So the last mark of a text is found line by line.
-/

namespace PageLoom

/-- Whether preformatted text opens here, as far as the line tells. -/
def opensOnLine (cs : List Char) : Bool := opensPre (cs.takeWhile (· != '\n'))

/-- Whether the last mark of a text opens preformatted text. -/
def EndsOpen (opens : List Char → Bool) (cs : List Char) : Prop :=
  ∃ front c rest, cs = front ++ c :: rest ∧ opens (c :: rest) = true ∧
    ∀ d s, d :: s <:+ rest → opens (d :: s) = false ∧ ¬ preClose <+: d :: s

/-! ## The last mark -/

/-- The last mark of a text: `true` if it opens preformatted text, `false` if it closes it. -/
def lastMark? (opens : List Char → Bool) : List Char → Option Bool
  | [] => none
  | c :: cs =>
      match lastMark? opens cs with
      | some mark => some mark
      | none =>
          if opens (c :: cs) then some true
          else if preClose.isPrefixOf (c :: cs) then some false
          else none

section Marks

variable {opens : List Char → Bool}

theorem lastMark?_cons_of_some {c : Char} {cs : List Char} {mark : Bool}
    (h : lastMark? opens cs = some mark) : lastMark? opens (c :: cs) = some mark := by
  rw [lastMark?, h]

theorem lastMark?_cons_of_none {c : Char} {cs : List Char} (h : lastMark? opens cs = none) :
    lastMark? opens (c :: cs) =
      if opens (c :: cs) then some true
      else if preClose.isPrefixOf (c :: cs) then some false
      else none := by
  rw [lastMark?, h]

theorem lastMark?_eq_none_iff {cs : List Char} : lastMark? opens cs = none ↔
    ∀ d s, d :: s <:+ cs → opens (d :: s) = false ∧ ¬ preClose <+: d :: s := by
  induction cs with
  | nil => simp [lastMark?]
  | cons c cs ih =>
      constructor
      · intro h
        cases hcs : lastMark? opens cs with
        | some mark =>
            rw [lastMark?_cons_of_some hcs] at h
            cases h
        | none =>
            rw [lastMark?_cons_of_none hcs] at h
            intro d s hs
            rcases List.suffix_cons_iff.mp hs with heq | hs
            · cases heq
              split at h
              next => cases h
              next hopen =>
                split at h
                next => cases h
                next hclose =>
                  rw [List.isPrefixOf_iff_prefix] at hclose
                  exact ⟨Bool.eq_false_iff.mpr hopen, hclose⟩
            · exact ih.mp hcs d s hs
      · intro h
        have hcs : lastMark? opens cs = none :=
          ih.mpr fun d s hs => h d s (hs.trans (List.suffix_cons c cs))
        obtain ⟨hopen, hclose⟩ := h c cs List.suffix_rfl
        rw [← List.isPrefixOf_iff_prefix] at hclose
        rw [lastMark?_cons_of_none hcs, hopen, if_neg Bool.false_ne_true, if_neg hclose]

/-- The last mark opens when some opening has no mark behind it. -/
theorem lastMark?_eq_some_true_iff {cs : List Char} :
    lastMark? opens cs = some true ↔ EndsOpen opens cs := by
  induction cs with
  | nil => simp [lastMark?, EndsOpen]
  | cons c cs ih =>
      have hcons : EndsOpen opens (c :: cs) ↔ EndsOpen opens cs ∨
          opens (c :: cs) = true ∧ lastMark? opens cs = none := by
        rw [lastMark?_eq_none_iff]
        constructor
        · rintro ⟨front, d, rest, heq, hopen, hrest⟩
          cases front with
          | nil =>
              cases heq
              exact .inr ⟨hopen, hrest⟩
          | cons e front =>
              cases heq
              exact .inl ⟨front, d, rest, rfl, hopen, hrest⟩
        · rintro (⟨front, d, rest, rfl, hopen, hrest⟩ | ⟨hopen, hrest⟩)
          · exact ⟨c :: front, d, rest, rfl, hopen, hrest⟩
          · exact ⟨[], c, cs, rfl, hopen, hrest⟩
      rw [hcons, ← ih]
      cases hcs : lastMark? opens cs with
      | some mark => simp [lastMark?_cons_of_some hcs]
      | none =>
          rw [lastMark?_cons_of_none hcs]
          by_cases hopen : opens (c :: cs) = true
          · simp [hopen]
          · simp [hopen]

theorem lastMark?_getD_of_not_endsOpen {cs : List Char} (h : ¬ EndsOpen opens cs) :
    (lastMark? opens cs).getD false = false := by
  rw [← lastMark?_eq_some_true_iff] at h
  cases hmark : lastMark? opens cs with
  | none => rfl
  | some mark =>
      cases mark with
      | false => rfl
      | true => exact absurd hmark h

theorem infix_of_lastMark? {cs : List Char} (h : lastMark? opens cs = some false) :
    preClose <:+: cs := by
  induction cs with
  | nil => cases h
  | cons c cs ih =>
      cases hmark : lastMark? opens cs with
      | some mark =>
          rw [lastMark?_cons_of_some hmark] at h
          exact (ih (hmark.trans h)).trans (List.suffix_cons c cs).isInfix
      | none =>
          rw [lastMark?_cons_of_none hmark] at h
          split at h
          next => cases h
          next =>
            split at h
            next hclose => exact (List.isPrefixOf_iff_prefix.mp hclose).isInfix
            next => cases h

instance : DecidablePred (EndsOpen opens) := fun _ =>
  decidable_of_iff _ lastMark?_eq_some_true_iff

/-- What comes later decides, if it has a mark. -/
theorem lastMark?_append_of_some {cs : List Char} {mark : Bool}
    (h : lastMark? opens cs = some mark) (front : List Char) :
    lastMark? opens (front ++ cs) = some mark := by
  induction front with
  | nil => exact h
  | cons c front ih => exact lastMark?_cons_of_some ih

/-- A text that opens preformatted text at its start and does not close it. -/
theorem endsOpen_of_not_infix {c : Char} {cs : List Char} (hopen : opens (c :: cs) = true)
    (hclose : ¬ preClose <:+: c :: cs) : EndsOpen opens (c :: cs) := by
  rw [← lastMark?_eq_some_true_iff]
  cases hmark : lastMark? opens cs with
  | none => rw [lastMark?_cons_of_none hmark, if_pos hopen]
  | some mark =>
      cases mark with
      | true => exact lastMark?_cons_of_some hmark
      | false => exact absurd (infix_of_lastMark? (lastMark?_cons_of_some hmark)) hclose

end Marks

/-- The marks of a line are those that the test for an opening finds. -/
theorem lastPreMark?_eq (cs : List Char) : lastPreMark? cs = lastMark? opensPre cs := by
  induction cs with
  | nil => rfl
  | cons c cs ih =>
      cases hcs : lastMark? opensPre cs with
      | some mark => rw [lastMark?_cons_of_some hcs, lastPreMark?, ih, hcs]
      | none => rw [lastMark?_cons_of_none hcs, lastPreMark?, ih, hcs]

/-! ## Marks on lines -/

theorem newline_not_mem_preClose : '\n' ∉ preClose := by decide

theorem opensOnLine_line {line : List Char} (h : '\n' ∉ line) (rest : List Char) :
    opensOnLine (line ++ '\n' :: rest) = opensPre line := by
  have hline : line.takeWhile (· != '\n') = line := by
    rw [List.takeWhile_eq_self_iff]
    intro c hc
    rw [bne_iff_ne]
    intro heq
    exact h (heq ▸ hc)
  rw [opensOnLine, takeWhile_append_cons (by decide), hline]

/-- A mark is on a line, and the lines after it come later. -/
theorem lastMark?_line {line : List Char} (h : '\n' ∉ line) (rest : List Char) :
    lastMark? opensOnLine (line ++ '\n' :: rest) =
      (lastMark? opensOnLine rest).or (lastPreMark? line) := by
  induction line with
  | nil =>
      have hopen : opensOnLine ('\n' :: rest) = false := rfl
      have hclose : preClose.isPrefixOf ('\n' :: rest) = false := rfl
      rw [List.nil_append, lastMark?, hopen, hclose, lastPreMark?]
      cases lastMark? opensOnLine rest <;> rfl
  | cons c line ih =>
      have hopen := opensOnLine_line h rest
      have hclose : preClose.isPrefixOf (c :: (line ++ '\n' :: rest)) =
          preClose.isPrefixOf (c :: line) := by
        rw [Bool.eq_iff_iff, List.isPrefixOf_iff_prefix, List.isPrefixOf_iff_prefix]
        rw [← List.cons_append]
        constructor
        · exact prefix_of_prefix_append_cons newline_not_mem_preClose
        · intro hpre
          exact hpre.trans (List.prefix_append (c :: line) _)
      rw [List.cons_append] at hopen ⊢
      rw [List.mem_cons, not_or] at h
      rw [lastMark?, ih h.2, hopen, hclose, lastPreMark?]
      cases lastMark? opensOnLine rest with
      | some mark => rfl
      | none => cases lastPreMark? line <;> rfl

/-- Line by line, the last mark is that of the last line that has one. -/
theorem lastMark?_unlines_append {ls : List (List Char)} (h : ∀ l ∈ ls, '\n' ∉ l)
    (rest : List Char) : lastMark? opensOnLine (unlines ls ++ rest) =
      (lastMark? opensOnLine rest).or (lastMark? opensOnLine (unlines ls)) := by
  induction ls with
  | nil => simp [lastMark?]
  | cons l ls ih =>
      obtain ⟨hl, hls⟩ := List.forall_mem_cons.mp h
      rw [unlines_cons, List.append_assoc, List.cons_append, lastMark?_line hl, lastMark?_line hl,
        ih hls, Option.or_assoc]

/-- Spaces before a line are no marks. -/
theorem lastPreMark?_spaces (n : Nat) (line : List Char) :
    lastPreMark? (List.replicate n ' ' ++ line) = lastPreMark? line := by
  induction n with
  | zero => rfl
  | succ n ih =>
      have hopen : opensPre (' ' :: (List.replicate n ' ' ++ line)) = false := rfl
      have hclose : preClose.isPrefixOf (' ' :: (List.replicate n ' ' ++ line)) = false := rfl
      rw [List.replicate_succ, List.cons_append, lastPreMark?, ih, hopen, hclose]
      cases lastPreMark? line <;> rfl

/-! ## Marks broken off at the end of a line -/

theorem opensPre_append (rest : List Char) : opensPre (preOpen ++ rest) =
    match rest with
    | c :: _ => c == '>' || isBlank c
    | [] => false := rfl

theorem preOpen_prefix_of_opensPre {cs : List Char} (h : opensPre cs = true) : preOpen <+: cs := by
  rw [opensPre, Bool.and_eq_true, List.isPrefixOf_iff_prefix] at h
  exact h.1

/-- What opens at the start of a text opens on its first line, with the newline after that. -/
theorem opensPre_line {p q : List Char} (h : opensPre (p ++ '\n' :: q) = true) :
    opensPre (p ++ ['\n']) = true := by
  obtain ⟨rest, rfl⟩ :=
    prefix_of_prefix_append_cons (by decide) (preOpen_prefix_of_opensPre h)
  rw [List.append_assoc, opensPre_append] at h ⊢
  cases rest with
  | nil => rfl
  | cons c rest => exact h

/-- The name of an opening tag stands on one line, so only what follows it is cut off. -/
theorem opensOnLine_append (rest : List Char) :
    opensOnLine (preOpen ++ rest) = opensPre (preOpen ++ rest.takeWhile (· != '\n')) := by
  have hpre : ∀ c ∈ preOpen, (c != '\n') = true := by simp [preOpen]
  rw [opensOnLine, List.takeWhile_append_of_pos hpre]

/-- Both notions agree where the line goes on after `<pre`. -/
theorem opensOnLine_eq {cs : List Char} (h : ¬ preOpen ++ ['\n'] <+: cs) :
    opensOnLine cs = opensPre cs := by
  by_cases hpre : preOpen <+: cs
  · obtain ⟨rest, rfl⟩ := hpre
    rw [opensOnLine_append]
    cases rest with
    | nil => rfl
    | cons c rest =>
        have hc : (c != '\n') = true := by
          rw [bne_iff_ne]
          rintro rfl
          exact h ⟨rest, by simp⟩
        rw [List.takeWhile_cons, if_pos hc, opensPre_append, opensPre_append]
  · have hline : ¬ opensOnLine cs = true := fun hopen =>
      hpre ((preOpen_prefix_of_opensPre hopen).trans (List.takeWhile_prefix _))
    have hopen : ¬ opensPre cs = true := fun hopen => hpre (preOpen_prefix_of_opensPre hopen)
    rw [Bool.eq_false_iff.mpr hline, Bool.eq_false_iff.mpr hopen]

/-- What opens on its line opens. -/
theorem opensPre_of_opensOnLine {cs : List Char} (h : opensOnLine cs = true) :
    opensPre cs = true := by
  by_cases hbroken : preOpen ++ ['\n'] <+: cs
  · obtain ⟨rest, rfl⟩ := hbroken
    rw [List.append_assoc, opensPre_append]
    rfl
  · rw [← opensOnLine_eq hbroken]
    exact h

/-- The last mark of a text is the same for both notions, or it is a broken one. -/
theorem lastMark?_opensPre (cs : List Char) :
    lastMark? opensPre cs = lastMark? opensOnLine cs ∨ lastMark? opensPre cs = some true := by
  induction cs with
  | nil => exact .inl rfl
  | cons c cs ih =>
      rcases ih with ih | ih
      · by_cases hopen : opensOnLine (c :: cs) = true
        · left
          rw [lastMark?, lastMark?, ih, hopen, opensPre_of_opensOnLine hopen]
        · by_cases hpre : opensPre (c :: cs) = true
          · cases hcs : lastMark? opensOnLine cs with
            | some mark =>
                left
                rw [lastMark?_cons_of_some (ih.trans hcs), lastMark?_cons_of_some hcs]
            | none =>
                right
                rw [lastMark?_cons_of_none (ih.trans hcs), if_pos hpre]
          · left
            rw [lastMark?, lastMark?, ih, Bool.eq_false_iff.mpr hopen, Bool.eq_false_iff.mpr hpre]
      · exact .inr (lastMark?_cons_of_some ih)

/-- What opens as far as its line tells opens in the text. -/
theorem EndsOpen.opensPre {cs : List Char} (h : EndsOpen opensOnLine cs) :
    EndsOpen PageLoom.opensPre cs := by
  rw [← lastMark?_eq_some_true_iff] at h ⊢
  rcases lastMark?_opensPre cs with heq | heq
  · exact heq.trans h
  · exact heq

/-- Both notions agree on a text in which no mark is broken. -/
theorem endsOpen_opensPre_iff {cs : List Char} (h : ¬ preOpen ++ ['\n'] <:+: cs) :
    EndsOpen opensPre cs ↔ EndsOpen opensOnLine cs := by
  have hsame : ∀ s, s <:+ cs → opensOnLine s = opensPre s := by
    intro s hs
    exact opensOnLine_eq fun hpre => h (hpre.isInfix.trans hs.isInfix)
  constructor
  · rintro ⟨front, c, rest, rfl, hopen, hrest⟩
    have hsuffix : c :: rest <:+ front ++ c :: rest := List.suffix_append front _
    refine ⟨front, c, rest, rfl, (hsame _ hsuffix).trans hopen, fun d s hs => ?_⟩
    rw [hsame _ (hs.trans ((List.suffix_cons c rest).trans hsuffix))]
    exact hrest d s hs
  · exact EndsOpen.opensPre

end PageLoom
