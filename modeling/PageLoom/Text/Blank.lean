/-!
# Blank characters

The blank characters are those with the Unicode property `White_Space`.  Markers
and node names are trimmed of them, and they may stand inside the braces of a
reference.  `trim_trim` says that a trimmed text has nothing left to trim.
-/

namespace PageLoom

/-- The property `White_Space` of Unicode. -/
def isBlank (c : Char) : Bool :=
  let n := c.toNat
  (0x09 ≤ n && n ≤ 0x0D) || n == 0x20 || n == 0x85 || n == 0xA0 || n == 0x1680 ||
    (0x2000 ≤ n && n ≤ 0x200A) || n == 0x2028 || n == 0x2029 || n == 0x202F ||
    n == 0x205F || n == 0x3000

/-- The characters without the blanks they start with. -/
def dropBlank (cs : List Char) : List Char := cs.dropWhile isBlank

/-- The characters without the blanks they end with. -/
def dropBlankRight : List Char → List Char
  | [] => []
  | c :: cs =>
      match dropBlankRight cs with
      | [] => if isBlank c then [] else [c]
      | d :: ds => c :: d :: ds

/-- The characters without the blanks at both ends. -/
def trim (cs : List Char) : List Char := dropBlankRight (dropBlank cs)

/-! ## What trimming leaves -/

theorem dropBlank_cons_of_blank {c : Char} (h : isBlank c = true) (cs : List Char) :
    dropBlank (c :: cs) = dropBlank cs := by simp [dropBlank, h]

theorem dropBlank_cons_of_not {c : Char} (h : isBlank c = false) (cs : List Char) :
    dropBlank (c :: cs) = c :: cs := by simp [dropBlank, h]

/-- What is left starts with no blank. -/
theorem head_dropBlank {cs ds : List Char} {d : Char} (h : dropBlank cs = d :: ds) :
    isBlank d = false := by
  induction cs with
  | nil => simp [dropBlank] at h
  | cons c cs ih =>
      cases hc : isBlank c with
      | true => rw [dropBlank_cons_of_blank hc] at h; exact ih h
      | false =>
          rw [dropBlank_cons_of_not hc] at h
          injection h with h1 _
          exact h1 ▸ hc

/-- A text splits into what is left and the blanks after it. -/
theorem dropBlankRight_append_blanks (cs : List Char) :
    ∃ bs : List Char, cs = dropBlankRight cs ++ bs ∧ ∀ b ∈ bs, isBlank b = true := by
  induction cs with
  | nil => exact ⟨[], rfl, by simp⟩
  | cons c cs ih =>
      obtain ⟨bs, hcs, hbs⟩ := ih
      cases hr : dropBlankRight cs with
      | nil =>
          rw [hr, List.nil_append] at hcs
          cases hc : isBlank c with
          | true =>
              exact ⟨c :: bs, by simp [dropBlankRight, hr, hc, ← hcs], by simp [hc]; exact hbs⟩
          | false => exact ⟨bs, by simp [dropBlankRight, hr, hc, ← hcs], hbs⟩
      | cons d ds =>
          refine ⟨bs, ?_, hbs⟩
          rw [hr] at hcs
          simp only [dropBlankRight, hr]
          rw [List.cons_append, ← hcs]

/-- What is left ends with no blank. -/
theorem getLast_dropBlankRight {cs : List Char} {d : Char}
    (h : (dropBlankRight cs).getLast? = some d) : isBlank d = false := by
  induction cs with
  | nil => simp [dropBlankRight] at h
  | cons c cs ih =>
      cases hr : dropBlankRight cs with
      | nil =>
          cases hc : isBlank c with
          | true => simp [dropBlankRight, hr, hc] at h
          | false => simp [dropBlankRight, hr, hc] at h; exact h ▸ hc
      | cons e es =>
          simp only [dropBlankRight, hr, List.getLast?_cons_cons] at h
          exact ih (hr ▸ h)

/-- A text that ends with no blank keeps its end. -/
theorem dropBlankRight_eq_self {cs : List Char}
    (h : ∀ d, cs.getLast? = some d → isBlank d = false) : dropBlankRight cs = cs := by
  induction cs with
  | nil => rfl
  | cons c cs ih =>
      cases cs with
      | nil => simp [dropBlankRight, h c rfl]
      | cons d ds =>
          have := ih fun e he => h e (by rw [List.getLast?_cons_cons]; exact he)
          simp only [dropBlankRight] at this ⊢
          rw [this]

theorem dropBlankRight_idem (cs : List Char) :
    dropBlankRight (dropBlankRight cs) = dropBlankRight cs :=
  dropBlankRight_eq_self fun _ hd => getLast_dropBlankRight hd

/-- A trimmed text has nothing left to trim. -/
theorem trim_trim (cs : List Char) : trim (trim cs) = trim cs := by
  unfold trim
  cases hr : dropBlankRight (dropBlank cs) with
  | nil => rfl
  | cons d ds =>
      have hd : isBlank d = false := by
        obtain ⟨bs, h, _⟩ := dropBlankRight_append_blanks (dropBlank cs)
        rw [hr, List.cons_append] at h
        exact head_dropBlank h
      rw [dropBlank_cons_of_not hd, ← hr, dropBlankRight_idem]

example : trim " \t a b\u3000\n".toList = "a b".toList := by decide
example : trim "\u200B ".toList = "\u200B".toList := by decide

end PageLoom
