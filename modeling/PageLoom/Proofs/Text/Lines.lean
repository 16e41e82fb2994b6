import PageLoom.Text.Lines
import Mathlib.Data.List.Infix
import Mathlib.Tactic.Common

/-!
# The lines of a text

A text without carriage returns is its lines with newlines between them, and with one after the
last line unless the text goes on to its end without one (`areLines_linesOf`).  The lines of a text
that starts with whole lines are these lines and those of the rest (`linesOf_unlines_append`).
-/

namespace PageLoom

/-- Lines with a newline after each. -/
def unlines (ls : List (List Char)) : List Char := ls.flatMap (· ++ ['\n'])

@[simp] theorem unlines_nil : unlines [] = [] := rfl

@[simp] theorem unlines_cons (l : List Char) (ls : List (List Char)) :
    unlines (l :: ls) = l ++ '\n' :: unlines ls := by
  simp [unlines]

@[simp] theorem unlines_append (ls ms : List (List Char)) :
    unlines (ls ++ ms) = unlines ls ++ unlines ms := List.flatMap_append

/-- Whether a text consists of some lines.  Its last line may do without a newline, unless it is
empty. -/
structure AreLines (ls : List (List Char)) (cs : List Char) : Prop where
  single : ∀ l ∈ ls, '\n' ∉ l
  whole : unlines ls = cs ∨ unlines ls = cs ++ ['\n'] ∧ cs ≠ [] ∧ cs.getLast? ≠ some '\n'

/-! ## The first line -/

/-- A line is cut off behind its line break. -/
theorem splitNewlines_line {l : List Char} (h : '\n' ∉ l) (rest : List Char) :
    splitNewlines (l ++ '\n' :: rest) = (l ++ ['\n']) :: splitNewlines rest := by
  induction l with
  | nil => simp [splitNewlines]
  | cons c l ih =>
      rw [List.mem_cons, not_or] at h
      rw [List.cons_append, splitNewlines, if_neg (Ne.symm h.1), ih h.2]
      rfl

/-- A line ends before its newline and a carriage return before that. -/
theorem stripNewline_line (l : List Char) :
    ∃ l', stripNewline (l ++ ['\n']) = l' ∧ (l = l' ∨ l = l' ++ ['\r']) := by
  refine ⟨_, rfl, ?_⟩
  rw [stripNewline, List.reverse_append, List.reverse_singleton, List.singleton_append]
  split
  next rest heq =>
    right
    rw [List.cons.injEq] at heq
    rw [← List.reverse_reverse l, heq.2, List.reverse_cons]
  next rest _ heq =>
    left
    rw [List.cons.injEq] at heq
    rw [← heq.2, List.reverse_reverse]
  next _ hne => exact absurd rfl (hne _)

/-- Reading a line takes off a carriage return before the break, and nothing else. -/
theorem exists_linesOf_line {l : List Char} (h : '\n' ∉ l) (rest : List Char) :
    ∃ l', linesOf (l ++ '\n' :: rest) = l' :: linesOf rest ∧ (l = l' ∨ l = l' ++ ['\r']) := by
  obtain ⟨l', hstrip, hl⟩ := stripNewline_line l
  refine ⟨l', ?_, hl⟩
  rw [linesOf, splitNewlines_line h, List.map_cons, hstrip]
  rfl

/-- A line that does not end with a carriage return is read as it is. -/
theorem linesOf_line {l : List Char} (h : '\n' ∉ l) (hreturn : '\r' ∉ l.getLast?)
    (rest : List Char) : linesOf (l ++ '\n' :: rest) = l :: linesOf rest := by
  obtain ⟨l', hlines, rfl | rfl⟩ := exists_linesOf_line h rest
  · exact hlines
  · exact absurd (by simp) hreturn

theorem not_mem_getLast? {α : Type} {a : α} {as : List α} (h : a ∉ as) : a ∉ as.getLast? :=
  fun hlast => h (List.mem_of_getLast? hlast)

theorem not_mem_getLast?_append {α : Type} {a : α} {bs : List α} (hne : bs ≠ []) (h : a ∉ bs)
    (as : List α) : a ∉ (as ++ bs).getLast? := by
  rw [List.getLast?_append_of_ne_nil as hne]
  exact not_mem_getLast? h

/-- A text without newlines is one line. -/
theorem linesOf_of_not_mem {l : List Char} (h : '\n' ∉ l) (hne : l ≠ []) : linesOf l = [l] := by
  have hsplit : splitNewlines l = [l] := by
    induction l with
    | nil => exact absurd rfl hne
    | cons c l ih =>
        rw [List.mem_cons, not_or] at h
        rw [splitNewlines, if_neg (Ne.symm h.1)]
        cases l with
        | nil => rfl
        | cons d l => rw [ih h.2 (List.cons_ne_nil d l)]
  have hstrip : stripNewline l = l := by
    rw [stripNewline]
    split
    next rest heq =>
      have hmem : '\n' ∈ l.reverse := heq ▸ List.mem_cons_self
      exact absurd (List.mem_reverse.mp hmem) h
    next rest _ heq =>
      have hmem : '\n' ∈ l.reverse := heq ▸ List.mem_cons_self
      exact absurd (List.mem_reverse.mp hmem) h
    next => rfl
  rw [linesOf, hsplit, List.map_singleton, hstrip]

/-- A text that does not end with a carriage return stays at the start of its line. -/
theorem exists_linesOf_append {l : List Char} (h : '\n' ∉ l) (hne : l ≠ [])
    (hreturn : '\r' ∉ l.getLast?) (rest : List Char) :
    ∃ line ls, linesOf (l ++ rest) = line :: ls ∧ l <+: line := by
  by_cases hmem : '\n' ∈ rest
  · obtain ⟨x, rest, rfl, hx⟩ := List.eq_append_cons_of_mem hmem
    obtain ⟨line, hlines, hstrip⟩ := exists_linesOf_line (List.not_mem_append h hx) rest
    rw [← List.append_assoc]
    refine ⟨line, linesOf rest, hlines, ?_⟩
    rcases hstrip with heq | heq
    · exact heq ▸ List.prefix_append l x
    · -- Only the part after the text can lose a carriage return.
      rcases List.eq_nil_or_concat x with rfl | ⟨x, c, rfl⟩
      · rw [List.append_nil] at heq
        exact absurd (by rw [heq]; simp) hreturn
      · rw [List.concat_eq_append, ← List.append_assoc] at heq
        exact (List.append_inj' heq rfl).1 ▸ List.prefix_append l x
  · refine ⟨l ++ rest, [], ?_, List.prefix_append l rest⟩
    exact linesOf_of_not_mem (List.not_mem_append h hmem) (List.append_ne_nil_of_left_ne_nil hne _)

/-! ## All lines -/

/-- Whether each of some lines is one, and has no carriage return. -/
def AllPlain (ls : List (List Char)) : Prop := ∀ l ∈ ls, '\n' ∉ l ∧ '\r' ∉ l

/-- Induction along the lines of a text. -/
theorem lines_induct {P : List Char → Prop} (nil : P [])
    (last : ∀ l, '\n' ∉ l → l ≠ [] → P l)
    (line : ∀ l rest, '\n' ∉ l → P rest → P (l ++ '\n' :: rest)) (cs : List Char) : P cs := by
  generalize hn : cs.length = n
  induction n using Nat.strongRecOn generalizing cs with
  | ind n ih =>
      by_cases hmem : '\n' ∈ cs
      · obtain ⟨l, rest, rfl, hl⟩ := List.eq_append_cons_of_mem hmem
        rw [List.length_append, List.length_cons] at hn
        exact line l rest hl (ih _ (by omega) rest rfl)
      · by_cases hne : cs = []
        · exact hne ▸ nil
        · exact last cs hmem hne

theorem linesOf_unlines_append {ls : List (List Char)} (h : AllPlain ls) (rest : List Char) :
    linesOf (unlines ls ++ rest) = ls ++ linesOf rest := by
  induction ls with
  | nil => rfl
  | cons l ls ih =>
      obtain ⟨⟨hl, hreturn⟩, hls⟩ := List.forall_mem_cons.mp h
      rw [unlines_cons, List.append_assoc, List.cons_append,
        linesOf_line hl (not_mem_getLast? hreturn), ih hls, List.cons_append]

/-- Lines that are written with a break after each are read back. -/
theorem linesOf_unlines {ls : List (List Char)} (h : AllPlain ls) : linesOf (unlines ls) = ls := by
  have hlines := linesOf_unlines_append h []
  rw [List.append_nil] at hlines
  rw [hlines]
  exact List.append_nil ls

/-- Lines with newlines between them. -/
def joinLines : List (List Char) → List Char
  | [] => []
  | l :: ls => l ++ ls.flatMap ('\n' :: ·)

theorem joinLines_around (l last : List Char) (ls : List (List Char)) :
    joinLines (l :: (ls ++ [last])) = l ++ '\n' :: (unlines ls ++ last) := by
  rw [joinLines, List.flatMap_append, List.flatMap_singleton]
  refine congrArg (l ++ ·) ?_
  induction ls with
  | nil => rfl
  | cons m ls ih => rw [List.flatMap_cons, List.append_assoc, ih, unlines_cons]; simp

/-- Lines that are joined by breaks are read back, given that none of them is empty. -/
theorem linesOf_joinLines {ls : List (List Char)}
    (h : ∀ l ∈ ls, '\n' ∉ l ∧ l ≠ [] ∧ '\r' ∉ l.getLast?) : linesOf (joinLines ls) = ls := by
  induction ls with
  | nil => rfl
  | cons l ls ih =>
      obtain ⟨⟨hl, hne, hreturn⟩, hls⟩ := List.forall_mem_cons.mp h
      cases ls with
      | nil =>
          rw [joinLines, List.flatMap_nil, List.append_nil]
          exact linesOf_of_not_mem hl hne
      | cons m ls =>
          rw [joinLines, List.flatMap_cons, List.cons_append, linesOf_line hl hreturn]
          exact congrArg (l :: ·) (ih hls)

/-- Without carriage returns the lines are the text, cut at its breaks. -/
theorem areLines_linesOf {cs : List Char} (h : '\r' ∉ cs) : AreLines (linesOf cs) cs := by
  induction cs using lines_induct with
  | nil => exact ⟨by simp [linesOf, splitNewlines], .inl rfl⟩
  | last l hl hne =>
      rw [linesOf_of_not_mem hl hne]
      refine ⟨by simpa using hl, .inr ⟨by simp, hne, ?_⟩⟩
      intro hlast
      exact hl (List.mem_of_getLast? hlast)
  | line l rest hl ih =>
      rw [List.mem_append, List.mem_cons, not_or, not_or] at h
      obtain ⟨hlreturn, -, hrest⟩ := h
      obtain ⟨hsingle, hwhole⟩ := ih hrest
      rw [linesOf_line hl (not_mem_getLast? hlreturn)]
      refine ⟨List.forall_mem_cons.mpr ⟨hl, hsingle⟩, ?_⟩
      rw [unlines_cons]
      refine hwhole.imp (fun hwhole => by rw [hwhole]) ?_
      rintro ⟨hwhole, hne, hlast⟩
      refine ⟨by rw [hwhole, List.append_assoc, List.cons_append], by simp, ?_⟩
      cases rest with
      | nil => exact absurd rfl hne
      | cons c rest => simpa [List.getLast?_append, List.getLast?_cons_cons] using hlast

/-- The lines before a line of a text are the start of the text. -/
theorem AreLines.isPrefix {ls : List (List Char)} {line : List Char} {ms : List (List Char)}
    {cs : List Char} (h : AreLines (ls ++ line :: ms) cs) : unlines ls <+: cs := by
  have hls : unlines ls <+: unlines (ls ++ line :: ms) := by
    rw [unlines_append]
    exact List.prefix_append _ _
  rcases h.whole with hwhole | ⟨hwhole, -, -⟩
  · exact hwhole ▸ hls
  · -- The newline that is missing is that of the line or of one after it.
    have hlength := congrArg List.length hwhole
    rw [unlines_append, unlines_cons] at hlength
    simp only [List.length_append, List.length_cons, List.length_nil] at hlength
    rw [hwhole] at hls
    exact List.prefix_of_prefix_length_le hls (List.prefix_append cs _) (by omega)

theorem allPlain_linesOf {cs : List Char} (h : '\r' ∉ cs) : AllPlain (linesOf cs) := by
  have hlines := areLines_linesOf h
  intro l hl
  refine ⟨hlines.single l hl, fun hreturn => h ?_⟩
  have hmem : '\r' ∈ unlines (linesOf cs) :=
    List.mem_flatMap.mpr ⟨l, hl, List.mem_append_left _ hreturn⟩
  rcases hlines.whole with hwhole | ⟨hwhole, -, -⟩
  · exact hwhole ▸ hmem
  · rw [hwhole, List.mem_append] at hmem
    exact hmem.resolve_right (by decide)

/-! ## Whole lines -/

/-- Whether a text ends at the end of a line. -/
def EndsLine (cs : List Char) : Prop := ∀ c, cs.getLast? = some c → c = '\n'

theorem EndsLine.nil : EndsLine [] := by
  intro c hc
  cases hc

theorem EndsLine.append {as bs : List Char} (ha : EndsLine as) (hb : EndsLine bs) :
    EndsLine (as ++ bs) := by
  intro c hc
  rw [List.getLast?_append] at hc
  rcases Option.or_eq_some_iff.mp hc with hc | ⟨-, hc⟩
  · exact hb c hc
  · exact ha c hc

theorem endsLine_line (l : List Char) {rest : List Char} (h : EndsLine rest) :
    EndsLine (l ++ '\n' :: rest) := by
  rw [List.append_cons]
  refine EndsLine.append ?_ h
  intro c hc
  rw [List.getLast?_concat, Option.some.injEq] at hc
  exact hc.symm

/-- Text that ends with a line break is a run of whole lines. -/
theorem EndsLine.exists_unlines {cs : List Char} (h : EndsLine cs) :
    ∃ ls, cs = unlines ls ∧ ∀ l ∈ ls, '\n' ∉ l := by
  induction cs using lines_induct with
  | nil => exact ⟨[], rfl, by simp⟩
  | last l hl hne =>
      have hend := h _ (List.getLast?_eq_some_getLast hne)
      exact absurd (hend ▸ List.getLast_mem hne) hl
  | line l rest hl ih =>
      have hrest : EndsLine rest := by
        intro c hc
        refine h c ?_
        rw [List.getLast?_append, List.getLast?_cons, hc]
        rfl
      obtain ⟨ls, rfl, hls⟩ := ih hrest
      exact ⟨l :: ls, (unlines_cons l ls).symm, List.forall_mem_cons.mpr ⟨hl, hls⟩⟩

/-- The lines of a text of whole lines, if it has no carriage returns. -/
theorem EndsLine.exists_allPlain {cs : List Char} (h : EndsLine cs) (hreturn : '\r' ∉ cs) :
    ∃ ls, cs = unlines ls ∧ AllPlain ls := by
  obtain ⟨ls, rfl, hls⟩ := h.exists_unlines
  refine ⟨ls, rfl, fun l hl => ⟨hls l hl, fun hmem => hreturn ?_⟩⟩
  exact List.mem_flatMap.mpr ⟨l, hl, List.mem_append_left _ hmem⟩

end PageLoom
