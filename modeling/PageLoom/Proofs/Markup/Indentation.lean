import PageLoom.Proofs.Markup.Preformatted

/-!
# Indentation

Indented markup stands on the same lines, two spaces deeper.  Lines in preformatted text stay as
they are, and so do empty ones (`deeper`).  Whether a line is in preformatted text is decided by the
last mark in the text before it, and the state that is carried from line to line is this mark
(`indentLines_deeper`).

Spaces are no marks.  So lines that stand deeper already, and then are indented, stand two spaces
deeper again.

A block is preformatted text from where it opens on (`IsBlock`).  It stays as it is wherever it
stands, also after lines that leave preformatted text open or close it (`infix_indentLines`).
-/

namespace PageLoom

/-! ## Lines that stand deeper -/

/-- The lines after some text, so many spaces deeper.  Lines in preformatted text and empty lines
stay as they are. -/
def deeper (opens : List Char → Bool) (spaces : Nat) (before : List Char) :
    List (List Char) → List (List Char)
  | [] => []
  | line :: lines =>
      (if EndsOpen opens before ∨ line = [] then line else List.replicate spaces ' ' ++ line) ::
        deeper opens spaces (before ++ (line ++ ['\n'])) lines

section Deeper

variable {opens : List Char → Bool} {before : List Char} {lines : List (List Char)}

theorem deeper_zero : deeper opens 0 before lines = lines := by
  induction lines generalizing before with
  | nil => rfl
  | cons line lines ih => simp [deeper, ih]

theorem allPlain_deeper (h : AllPlain lines) (spaces : Nat) :
    AllPlain (deeper opens spaces before lines) := by
  induction lines generalizing before with
  | nil => simp [deeper, AllPlain]
  | cons line lines ih =>
      obtain ⟨hline, hlines⟩ := List.forall_mem_cons.mp h
      refine List.forall_mem_cons.mpr ⟨?_, ih hlines⟩
      split
      · exact hline
      · simpa [List.mem_replicate] using hline

/-- Lines that stand deeper have the same marks. -/
theorem lastMark?_unlines_deeper (h : AllPlain lines) (spaces : Nat) :
    lastMark? opensOnLine (unlines (deeper opens spaces before lines)) =
      lastMark? opensOnLine (unlines lines) := by
  induction lines generalizing before with
  | nil => rfl
  | cons line lines ih =>
      obtain ⟨⟨hline, -⟩, hlines⟩ := List.forall_mem_cons.mp h
      rw [deeper, unlines_cons, unlines_cons, lastMark?_line hline]
      split
      · rw [lastMark?_line hline, ih hlines]
      · rw [lastMark?_line (by simpa [List.mem_replicate] using hline), lastPreMark?_spaces,
          ih hlines]

/-- Two notions of marks that agree before every line put the lines in the same places. -/
theorem deeper_congr {opens' : List Char → Bool} (spaces : Nat)
    (h : ∀ ls line ms, lines = ls ++ line :: ms →
      (EndsOpen opens (before ++ unlines ls) ↔ EndsOpen opens' (before ++ unlines ls))) :
    deeper opens spaces before lines = deeper opens' spaces before lines := by
  induction lines generalizing before with
  | nil => rfl
  | cons line lines ih =>
      have hbefore := h [] line lines rfl
      rw [unlines_nil, List.append_nil] at hbefore
      have hlines := @ih (before ++ (line ++ ['\n'])) fun ls l ms hls => by
        have hnext := h (line :: ls) l ms (congrArg (line :: ·) hls)
        simpa using hnext
      rw [deeper, deeper, hlines]
      simp only [hbefore]

end Deeper

/-! ## One level -/

/-- The state after some lines is told by their last mark. -/
theorem foldl_lastPreMark? {ls : List (List Char)} (h : ∀ l ∈ ls, '\n' ∉ l) (inPre : Bool) :
    ls.foldl (fun inPre l => (lastPreMark? l).getD inPre) inPre =
      (lastMark? opensOnLine (unlines ls)).getD inPre := by
  induction ls generalizing inPre with
  | nil => rfl
  | cons l ls ih =>
      obtain ⟨hl, hls⟩ := List.forall_mem_cons.mp h
      rw [List.foldl_cons, ih hls, unlines_cons, lastMark?_line hl, Option.getD_or]

theorem indentLines_append (inPre : Bool) (ls ms : List (List Char)) :
    indentLines inPre (ls ++ ms) = indentLines inPre ls ++
      indentLines (ls.foldl (fun inPre l => (lastPreMark? l).getD inPre) inPre) ms := by
  induction ls generalizing inPre with
  | nil => rfl
  | cons l ls ih =>
      rw [List.cons_append, indentLines, indentLines, ih, List.foldl_cons, List.append_assoc,
        List.cons_append]

/-- Lines that are indented come two spaces deeper. -/
theorem indentLines_deeper (spaces : Nat) {prior lines : List (List Char)}
    (hprior : ∀ l ∈ prior, '\n' ∉ l) (hlines : ∀ l ∈ lines, '\n' ∉ l) :
    indentLines ((lastMark? opensOnLine (unlines prior)).getD false)
        (deeper opensOnLine spaces (unlines prior) lines) =
      unlines (deeper opensOnLine (spaces + 2) (unlines prior) lines) := by
  induction lines generalizing prior with
  | nil => rfl
  | cons line lines ih =>
      obtain ⟨hline, hlines⟩ := List.forall_mem_cons.mp hlines
      have hnext : ∀ l ∈ prior ++ [line], '\n' ∉ l := by
        intro l hl
        rcases List.mem_append.mp hl with hl | hl
        · exact hprior l hl
        · exact List.mem_singleton.mp hl ▸ hline
      have hbefore : unlines prior ++ (line ++ ['\n']) = unlines (prior ++ [line]) := by simp
      have hmark : lastMark? opensOnLine (unlines (prior ++ [line])) =
          (lastPreMark? line).or (lastMark? opensOnLine (unlines prior)) := by
        rw [← hbefore, lastMark?_unlines_append hprior, lastMark?_line hline]
        rfl
      have hlater := ih hnext hlines
      rw [hmark, Option.getD_or] at hlater
      rw [deeper, deeper, unlines_cons, indentLines, hbefore]
      by_cases hopen : EndsOpen opensOnLine (unlines prior)
      · have hstate := lastMark?_eq_some_true_iff.mpr hopen
        rw [hstate] at hlater ⊢
        rw [if_pos (.inl hopen), if_pos (.inl hopen), indentLine, hlater]
        rfl
      · have hstate := lastMark?_getD_of_not_endsOpen hopen
        rw [hstate] at hlater ⊢
        by_cases hempty : line = []
        · rw [if_pos (.inr hempty), if_pos (.inr hempty), hlater, hempty]
          rfl
        · rw [if_neg (not_or.mpr ⟨hopen, hempty⟩), if_neg (not_or.mpr ⟨hopen, hempty⟩),
            lastPreMark?_spaces, hlater, indentLine]
          simp [hempty, List.replicate_succ]

theorem indentLines_deeper_nil (spaces : Nat) {lines : List (List Char)} (h : AllPlain lines) :
    indentLines false (deeper opensOnLine spaces [] lines) =
      unlines (deeper opensOnLine (spaces + 2) [] lines) := by
  have hnil : ∀ l ∈ ([] : List (List Char)), '\n' ∉ l := by
    intro l hl
    cases hl
  exact indentLines_deeper spaces hnil fun l hl => (h l hl).1

theorem indentLines_of_allPlain {lines : List (List Char)} (h : AllPlain lines) :
    indentLines false lines = unlines (deeper opensOnLine 2 [] lines) := by
  have hlevel := indentLines_deeper_nil 0 h
  rw [deeper_zero] at hlevel
  exact hlevel

theorem toList_indent {markup : String} (h : '\r' ∉ markup.toList) :
    (indent markup).toList = unlines (deeper opensOnLine 2 [] (linesOf markup.toList)) := by
  rw [indent, String.toList_ofList, indentLines_of_allPlain (allPlain_linesOf h)]

/-! ## Blocks -/

/-- Whether every line that starts in a text is in preformatted text that opens in it. -/
def IsBlock (opens : List Char → Bool) (block : List Char) : Prop :=
  ∀ p q, block = p ++ '\n' :: q → EndsOpen opens (p ++ ['\n'])

/-- A text that opens preformatted text and does not close it is a block, with any part of the line
on which it closes. -/
theorem isBlock_append {text last : List Char} (hopen : opensPre text = true)
    (hclose : ¬ preClose <:+: text) (hlast : '\n' ∉ last) : IsBlock opensPre (text ++ last) := by
  intro p q hpq
  have hprefix : p ++ ['\n'] <+: text := by
    rcases List.append_eq_append_iff.mp hpq with ⟨a, -, hlater⟩ | ⟨a, rfl, hrest⟩
    · exact absurd (hlater ▸ List.mem_append_right a List.mem_cons_self) hlast
    · cases a with
      | nil =>
          rw [List.nil_append] at hrest
          exact absurd (hrest ▸ List.mem_cons_self) hlast
      | cons c a =>
          cases hrest
          exact ⟨a, by simp⟩
  obtain ⟨rest, rfl⟩ := hprefix
  rw [List.append_assoc, List.singleton_append] at hopen
  have hopen := opensPre_line hopen
  cases hline : p ++ ['\n'] with
  | nil => simp at hline
  | cons c cs =>
      rw [hline] at hopen hclose
      exact endsOpen_of_not_infix hopen fun hmark =>
        hclose (hmark.trans (List.prefix_append _ _).isInfix)

theorem suffix_indentLine (inPre : Bool) (line : List Char) : line <:+ indentLine inPre line := by
  rw [indentLine]
  split
  · exact List.suffix_rfl
  · exact (List.suffix_cons ' ' line).trans (List.suffix_cons ' ' _)

/-- What is in preformatted text from its start on, and does not close it, stays as it is. -/
theorem prefix_indentLines {block : List Char} (hreturn : '\r' ∉ block)
    (h : ∀ p q, block = p ++ '\n' :: q → lastMark? opensOnLine (p ++ ['\n']) ≠ some false)
    (rest : List Char) : block <+: indentLines true (linesOf (block ++ rest)) := by
  induction block using lines_induct with
  | nil => exact List.nil_prefix
  | last l hl hne =>
      have hlast := not_mem_getLast? hreturn
      obtain ⟨line, ls, hlines, hpre⟩ := exists_linesOf_append hl hne hlast rest
      rw [hlines, indentLines]
      exact hpre.trans (List.prefix_append line _)
  | line l block hl ih =>
      rw [List.mem_append, List.mem_cons, not_or, not_or] at hreturn
      have hstate : (lastPreMark? l).getD true = true := by
        have hmark := h l block rfl
        rw [lastMark?_line hl] at hmark
        cases hline : lastPreMark? l with
        | none => rfl
        | some mark =>
            cases mark with
            | true => rfl
            | false => exact absurd (by rw [hline]; rfl) hmark
      have hlater := ih hreturn.2.2 fun p q hpq hmark => by
        refine h (l ++ '\n' :: p) q ?_ ?_
        · rw [hpq, List.append_assoc, List.cons_append]
        · rw [List.append_assoc, List.cons_append]
          exact lastMark?_append_of_some (lastMark?_cons_of_some hmark) l
      rw [List.append_assoc, List.cons_append, linesOf_line hl (not_mem_getLast? hreturn.1),
        indentLines, hstate]
      exact (List.prefix_append_right_inj l).mpr (List.cons_prefix_cons.mpr ⟨rfl, hlater⟩)

/-- The first line of a block opens preformatted text, if it is not the last. -/
theorem IsBlock.first_line {p q : List Char} (h : IsBlock opensOnLine (p ++ '\n' :: q))
    (hp : '\n' ∉ p) : lastPreMark? p = some true := by
  have hopen := lastMark?_eq_some_true_iff.mpr (h p q rfl)
  rw [lastMark?_line hp] at hopen
  exact hopen

/-- The later lines of a block do not close it, but for the last. -/
theorem IsBlock.later_lines {p q : List Char} (h : IsBlock opensOnLine (p ++ '\n' :: q)) :
    ∀ p' q', q = p' ++ '\n' :: q' → lastMark? opensOnLine (p' ++ ['\n']) ≠ some false := by
  rintro p' q' rfl hclose
  have hopen := lastMark?_eq_some_true_iff.mpr (h (p ++ '\n' :: p') q' (by simp))
  rw [List.append_assoc, List.cons_append,
    lastMark?_append_of_some (lastMark?_cons_of_some hclose)] at hopen
  cases hopen

/-- A block that starts on the first line of a text stays as it is. -/
theorem infix_indentLines_of_not_mem {front block : List Char} (hfront : '\n' ∉ front)
    (hreturn : '\r' ∉ block) (h : IsBlock opensOnLine block) (inPre : Bool) (rest : List Char) :
    block <:+: indentLines inPre (linesOf (front ++ (block ++ rest))) := by
  by_cases hmem : '\n' ∈ block
  · obtain ⟨p, q, rfl, hp⟩ := List.eq_append_cons_of_mem hmem
    rw [List.mem_append, List.mem_cons, not_or, not_or] at hreturn
    have hmark := h.first_line hp
    have hne : p ≠ [] := by
      rintro rfl
      cases hmark
    have hstate : (lastPreMark? (front ++ p)).getD inPre = true := by
      rw [lastPreMark?_eq] at hmark ⊢
      rw [lastMark?_append_of_some hmark]
      rfl
    -- The lines after the first one start in the preformatted text that it opens.
    obtain ⟨after, hafter⟩ := prefix_indentLines hreturn.2.2 h.later_lines rest
    obtain ⟨spaces, hspaces⟩ := suffix_indentLine inPre (front ++ p)
    have htext : front ++ (p ++ '\n' :: q ++ rest) = (front ++ p) ++ '\n' :: (q ++ rest) := by simp
    have hlast := not_mem_getLast?_append hne hreturn.1 front
    rw [htext, linesOf_line (List.not_mem_append hfront hp) hlast, indentLines, hstate, ← hspaces,
      ← hafter]
    exact ⟨spaces ++ front, after, by simp⟩
  · by_cases hne : block = []
    · exact hne ▸ List.nil_infix
    · obtain ⟨line, ls, hlines, hpre⟩ := exists_linesOf_append (List.not_mem_append hfront hmem)
        (List.append_ne_nil_of_right_ne_nil front hne) (not_mem_getLast?_append hne hreturn _) rest
      rw [← List.append_assoc, hlines, indentLines]
      calc block
          _ <:+: front ++ block := (List.suffix_append front block).isInfix
          _ <:+: line := hpre.isInfix
          _ <:+: indentLine inPre line := (suffix_indentLine inPre line).isInfix
          _ <:+: _ := (List.prefix_append _ _).isInfix

/-- A block of preformatted text stays as it is, wherever it stands. -/
theorem infix_indentLines {block : List Char} (hreturn : '\r' ∉ block)
    (h : IsBlock opensOnLine block) (inPre : Bool) (front rest : List Char) :
    block <:+: indentLines inPre (linesOf (front ++ (block ++ rest))) := by
  induction front using lines_induct generalizing inPre with
  | nil => exact infix_indentLines_of_not_mem List.not_mem_nil hreturn h inPre rest
  | last l hl hne => exact infix_indentLines_of_not_mem hl hreturn h inPre rest
  | line l front hl ih =>
      obtain ⟨line, hlines, -⟩ := exists_linesOf_line hl (front ++ (block ++ rest))
      rw [List.append_assoc, List.cons_append, hlines, indentLines]
      exact (ih _).trans ((List.suffix_cons '\n' _).trans (List.suffix_append _ _)).isInfix

end PageLoom
