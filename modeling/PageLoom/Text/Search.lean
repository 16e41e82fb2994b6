/-!
# Finding a word in a text

`cutAt?` cuts a text at the first occurrence of a word.  `replaceWord` replaces
every occurrence of a word, from left to right and without overlaps; what it puts
in is not looked at again.
-/

namespace PageLoom

/-- The text before the first occurrence of a word, and the text after it. -/
def cutAt? (word : List Char) : List Char → Option (List Char × List Char)
  | [] => if word.isEmpty then some ([], []) else none
  | c :: cs =>
      if word.isPrefixOf (c :: cs) then some ([], (c :: cs).drop word.length)
      else (cutAt? word cs).map fun (before, after) => (c :: before, after)

/-- The cut loses nothing but the word. -/
theorem cutAt?_eq_some {word cs before after : List Char}
    (h : cutAt? word cs = some (before, after)) : cs = before ++ word ++ after := by
  induction cs generalizing before with
  | nil =>
      simp only [cutAt?] at h
      split at h
      next he =>
        cases h
        simp [List.isEmpty_iff.mp he]
      next => cases h
  | cons c cs ih =>
      simp only [cutAt?] at h
      split at h
      next hp =>
        obtain ⟨rest, hr⟩ := List.isPrefixOf_iff_prefix.mp hp
        cases h
        rw [← hr]
        simp
      next =>
        cases hc : cutAt? word cs with
        | none => rw [hc] at h; cases h
        | some p =>
            obtain ⟨b, a⟩ := p
            rw [hc] at h
            cases h
            rw [ih hc]
            rfl

/-- Replace a word; the next `skip` characters belong to an occurrence that has
been replaced already. -/
def replaceFrom (word new : List Char) : Nat → List Char → List Char
  | _, [] => []
  | skip + 1, _ :: cs => replaceFrom word new skip cs
  | 0, c :: cs =>
      if word.isPrefixOf (c :: cs) then new ++ replaceFrom word new (word.length - 1) cs
      else c :: replaceFrom word new 0 cs

/-- Replace every occurrence of a word. -/
def replaceWord (word new : List Char) (cs : List Char) : List Char := replaceFrom word new 0 cs

example : cutAt? "ab".toList "xaabab".toList = some ("xa".toList, "ab".toList) := by decide
example : replaceWord "aa".toList "b".toList "aaaxa".toList = "baxa".toList := by decide

end PageLoom
