import PageLoom.Json.Reader
import PageLoom.Proofs.Text.Search
import Mathlib.Tactic.Common

/-!
# Strings in scripts

A script holds JSON with `<\/` for every `</` (`slashed`), so that nothing in it ends the script
(`not_infix_slashed`).  In a string `\/` is an escape for `/`.  So a written string is read as it
is, whether its slashes are escaped or not (`scanString?_slashed_body`).

The induction goes down the text, and takes `</` in one step (`slashed_induct`).  All other
characters are written apart from each other: none but `/` is written as something that starts with
`/` (`prefix_of_prefix_body`).
-/

namespace PageLoom.Json

/-! ## Slashes -/

/-- A text with `<\/` for every `</`. -/
def slashed (cs : List Char) : List Char := replaceWord ['<', '/'] ['<', '\\', '/'] cs

theorem slashed_nil : slashed [] = [] := rfl

theorem slashed_slash (cs : List Char) :
    slashed ('<' :: '/' :: cs) = '<' :: '\\' :: '/' :: slashed cs :=
  replaceWord_word (by simp) cs

theorem slashed_cons {c : Char} {cs : List Char} (h : ¬ ['<', '/'] <+: c :: cs) :
    slashed (c :: cs) = c :: slashed cs :=
  replaceWord_cons h

theorem slashed_cons_of_ne {c : Char} (h : c ≠ '<') (cs : List Char) :
    slashed (c :: cs) = c :: slashed cs :=
  slashed_cons fun hpre => h (List.cons_prefix_cons.mp hpre).1.symm

/-- Text without `<` passes the replacement, whatever follows it. -/
theorem slashed_append {xs : List Char} (h : '<' ∉ xs) (cs : List Char) :
    slashed (xs ++ cs) = xs ++ slashed cs := by
  induction xs with
  | nil => rfl
  | cons x xs ih =>
      rw [List.mem_cons, not_or] at h
      rw [List.cons_append, slashed_cons_of_ne (Ne.symm h.1), ih h.2, List.cons_append]

/-- A text starts with `</`, or with a character that is kept. -/
theorem slashed_induct {motive : List Char → Prop} (nil : motive [])
    (slash : ∀ cs, motive cs → motive ('<' :: '/' :: cs))
    (keep : ∀ c cs, ¬ ['<', '/'] <+: c :: cs → motive cs → motive (c :: cs)) (cs : List Char) :
    motive cs := by
  induction hn : cs.length using Nat.strongRecOn generalizing cs with
  | ind n ih =>
      cases cs with
      | nil => exact nil
      | cons c cs =>
          by_cases h : ['<', '/'] <+: c :: cs
          · obtain ⟨rest, hrest⟩ := h
            rw [← hrest] at hn ⊢
            have hshorter : rest.length < n := by
              rw [← hn, List.length_append]
              exact Nat.lt_add_of_pos_left (by decide)
            exact slash rest (ih rest.length hshorter rest rfl)
          · exact keep c cs h (ih cs.length (by simp [← hn]) cs rfl)

theorem head?_slashed (cs : List Char) : (slashed cs).head? = cs.head? := by
  cases cs using slashed_induct with
  | nil => rfl
  | slash cs => rw [slashed_slash, List.head?_cons, List.head?_cons]
  | keep c cs h => rw [slashed_cons h, List.head?_cons, List.head?_cons]

/-- The replacement only ever adds characters. -/
theorem length_le_slashed (cs : List Char) : cs.length ≤ (slashed cs).length := by
  induction cs using slashed_induct with
  | nil => exact le_rfl
  | slash cs ih =>
      rw [slashed_slash]
      simp only [List.length_cons]
      omega
  | keep c cs h ih =>
      rw [slashed_cons h]
      simp only [List.length_cons]
      omega

/-- No `</` is left. -/
theorem not_infix_slashed (cs : List Char) : ¬ ['<', '/'] <:+: slashed cs := by
  induction cs using slashed_induct with
  | nil => simp [slashed_nil]
  | slash cs ih =>
      rw [slashed_slash]
      simp only [List.infix_cons_iff, List.cons_prefix_cons]
      simp [ih]
  | keep c cs h ih =>
      rw [slashed_cons h, List.infix_cons_iff, not_or]
      refine ⟨fun hpre => ?_, ih⟩
      obtain ⟨hc, rest, hrest⟩ := List.cons_prefix_cons.mp hpre
      have hhead := head?_slashed cs
      rw [← hrest] at hhead
      obtain ⟨tail, htail⟩ := List.head?_eq_some_iff.mp hhead.symm
      exact h ⟨tail, by rw [← hc, htail]; rfl⟩

/-- The only character that the replacement brings in is the backslash. -/
theorem mem_slashed {cs : List Char} {c : Char} (h : c ∈ slashed cs) : c ∈ cs ∨ c = '\\' := by
  induction cs using slashed_induct with
  | nil => exact .inl h
  | slash cs ih =>
      rw [slashed_slash] at h
      simp only [List.mem_cons] at h ⊢
      tauto
  | keep d cs hd ih =>
      rw [slashed_cons hd] at h
      simp only [List.mem_cons] at h ⊢
      tauto

/-! ## Strings -/

/-- The value of a digit of base sixteen is read back. -/
theorem hexValue?_hexDigit : ∀ n < 16, hexValue? (hexDigit n) = some n := by decide

/-- A control character is written by its code and read back from it. -/
theorem scanString?_control {c : Char} (h : c.toNat < 0x20) (cs : List Char) :
    scanString? ('\\' :: 'u' :: '0' :: '0' ::
        hexDigit (c.toNat / 16) :: hexDigit (c.toNat % 16) :: cs) =
      (scanString? cs).map fun p => (c :: p.1, p.2) := by
  have hhex : hex4? '0' '0' (hexDigit (c.toNat / 16)) (hexDigit (c.toNat % 16)) = some c.toNat := by
    have hzero : hexValue? '0' = some 0 := by decide
    rw [hex4?, hzero, hexValue?_hexDigit _ (by omega), hexValue?_hexDigit _ (by omega)]
    refine congrArg some ?_
    omega
  rw [scanString?.eq_def]
  split
  next heq => cases heq
  next heq =>
    cases heq
    rw [hhex]
    dsimp only
    rw [if_neg (by omega), if_neg (by omega), Char.ofNat_toNat]
  next heq =>
    cases heq
    rw [hhex]
    dsimp only
    rw [if_neg (by omega), Char.ofNat_toNat]
  next hno heq =>
    cases heq
    exact (hno _ _ _ _ _ rfl rfl).elim
  next hno heq =>
    cases heq
    exact (hno _ _ rfl rfl).elim
  next heq => cases heq

theorem scanString?_short {e c : Char} (h : shortEscape? e = some c) (cs : List Char) :
    scanString? ('\\' :: e :: cs) = (scanString? cs).map fun p => (c :: p.1, p.2) := by
  rw [scanString?.eq_def]
  split
  next heq => cases heq
  next heq =>
    cases heq
    cases h
  next heq =>
    cases heq
    cases h
  next heq =>
    cases heq
    rw [h]
  next hno heq =>
    cases heq
    exact (hno _ _ rfl rfl).elim
  next heq => cases heq

theorem scanString?_plain {c : Char} (hquote : c ≠ '"') (hescape : c ≠ '\\')
    (hcontrol : 0x20 ≤ c.toNat)
    (cs : List Char) : scanString? (c :: cs) = (scanString? cs).map fun p => (c :: p.1, p.2) := by
  have hplain : (decide (c.toNat < 0x20) || decide (c = '\\')) = false := by
    rw [decide_eq_false (by omega), decide_eq_false hescape, Bool.or_false]
  rw [scanString?.eq_def]
  split
  next heq => exact absurd (List.cons.inj heq).1 hquote
  next heq => exact absurd (List.cons.inj heq).1 hescape
  next heq => exact absurd (List.cons.inj heq).1 hescape
  next heq => exact absurd (List.cons.inj heq).1 hescape
  next heq =>
    cases heq
    rw [hplain, if_neg Bool.false_ne_true]
  next heq => cases heq

/-- How a character is written: with a short escape, with its number, or as it is. -/
inductive Escaped (c : Char) : List Char → Prop
  | short {e : Char} : shortEscape? e = some c → Escaped c ['\\', e]
  | control : c.toNat < 0x20 → Escaped c
      ['\\', 'u', '0', '0', hexDigit (c.toNat / 16), hexDigit (c.toNat % 16)]
  | plain : c ≠ '"' → c ≠ '\\' → 0x20 ≤ c.toNat → Escaped c [c]

/-- Each character is written in one of the three ways a reader understands. -/
theorem escaped_escapeChar (c : Char) : Escaped c (escapeChar c) := by
  have hshort : ∀ {d e : Char}, c = d → shortEscape? e = some d → Escaped c ['\\', e] := by
    rintro d e rfl h
    exact .short h
  unfold escapeChar
  split
  next h => exact hshort h rfl
  next hquote =>
    split
    next h => exact hshort h rfl
    next hescape =>
      split
      next h => exact hshort h rfl
      split
      next h => exact hshort h rfl
      split
      next h => exact hshort h rfl
      split
      next h => exact hshort h rfl
      split
      next h => exact hshort h rfl
      split
      next h => exact .control h
      next h => exact .plain hquote hescape (not_lt.mp h)

theorem ne_of_shortEscape? {e c : Char} (h : shortEscape? e = some c) : e ≠ '<' := by
  rintro rfl
  cases h

/-- A written character is read. -/
theorem scanString?_escapeChar (c : Char) (cs : List Char) :
    scanString? (escapeChar c ++ cs) = (scanString? cs).map fun p => (c :: p.1, p.2) := by
  generalize hxs : escapeChar c = xs
  cases hxs ▸ escaped_escapeChar c with
  | short h => exact scanString?_short h cs
  | control h => exact scanString?_control h cs
  | plain hquote hescape hcontrol => exact scanString?_plain hquote hescape hcontrol cs

/-- Only `<` itself is written with `<`, so no closing tag arises from an escape. -/
theorem not_mem_escapeChar {c : Char} (h : c ≠ '<') : '<' ∉ escapeChar c := by
  generalize hxs : escapeChar c = xs
  cases hxs ▸ escaped_escapeChar c with
  | short h => simp [Ne.symm (ne_of_shortEscape? h)]
  | control hc =>
      have hhex : ∀ n < 16, hexDigit n ≠ '<' := by decide
      simp [Ne.symm (hhex _ (show c.toNat / 16 < 16 by omega)),
        Ne.symm (hhex _ (show c.toNat % 16 < 16 by omega))]
  | plain => simp [Ne.symm h]

/-- The inside of a written string. -/
def body (cs : List Char) : List Char := cs.flatMap escapeChar

theorem toList_quote (s : String) : (quote s).toList = '"' :: (body s.toList ++ ['"']) := by
  simp [quote, body]

/-- A slash at the beginning of a written string stands for a slash of the text: no escape begins
with one. -/
theorem prefix_of_prefix_body {cs rest : List Char} (h : ['/'] <+: body cs ++ '"' :: rest) :
    ['/'] <+: cs := by
  cases cs with
  | nil => exact absurd (List.cons_prefix_cons.mp h).1 (by decide)
  | cons d cs =>
      rw [body, List.flatMap_cons, List.append_assoc] at h
      generalize hxs : escapeChar d = xs at h
      cases hxs ▸ escaped_escapeChar d with
      | short => exact absurd (List.cons_prefix_cons.mp h).1 (by decide)
      | control => exact absurd (List.cons_prefix_cons.mp h).1 (by decide)
      | plain => exact List.cons_prefix_cons.mpr ⟨(List.cons_prefix_cons.mp h).1, List.nil_prefix⟩

/-- A string is read although its slashes are escaped. -/
theorem scanString?_slashed_body (cs rest : List Char) :
    scanString? (slashed (body cs ++ '"' :: rest)) = some (cs, slashed rest) := by
  induction cs using slashed_induct with
  | nil =>
      rw [body, List.flatMap_nil, List.nil_append, slashed_cons_of_ne (by decide)]
      simp [scanString?]
  | slash cs ih =>
      have hbody : body ('<' :: '/' :: cs) = '<' :: '/' :: body cs := rfl
      rw [hbody, List.cons_append, List.cons_append, slashed_slash,
        scanString?_plain (by decide) (by decide) (by decide), scanString?_short rfl, ih]
      rfl
  | keep c cs h ih =>
      have hread : slashed (body (c :: cs) ++ '"' :: rest) =
          escapeChar c ++ slashed (body cs ++ '"' :: rest) := by
        rw [body, List.flatMap_cons, ← body, List.append_assoc]
        by_cases hc : c = '<'
        · subst hc
          refine slashed_cons fun hpre => h (List.cons_prefix_cons.mpr ⟨rfl, ?_⟩)
          exact prefix_of_prefix_body (List.cons_prefix_cons.mp hpre).2
        · exact slashed_append (not_mem_escapeChar hc) _
      rw [hread, scanString?_escapeChar, ih]
      rfl

/-! ## Control characters -/

/-- Whether a text has no control characters, line breaks among them. -/
def IsPrintable (cs : List Char) : Prop := ∀ c ∈ cs, 0x20 ≤ c.toNat

instance (cs : List Char) : Decidable (IsPrintable cs) :=
  decidable_of_iff (cs.all (0x20 ≤ ·.toNat) = true) (by simp [IsPrintable])

theorem isPrintable_append {xs ys : List Char} :
    IsPrintable (xs ++ ys) ↔ IsPrintable xs ∧ IsPrintable ys := List.forall_mem_append

theorem isPrintable_cons {c : Char} {cs : List Char} :
    IsPrintable (c :: cs) ↔ 0x20 ≤ c.toNat ∧ IsPrintable cs := List.forall_mem_cons

/-- The replacement brings in no control character. -/
theorem isPrintable_slashed {cs : List Char} (h : IsPrintable cs) : IsPrintable (slashed cs) := by
  intro c hc
  rcases mem_slashed hc with hmem | rfl
  · exact h c hmem
  · decide

theorem isPrintable_escapeChar (c : Char) : IsPrintable (escapeChar c) := by
  generalize hxs : escapeChar c = xs
  have hhex : ∀ n < 16, 0x20 ≤ (hexDigit n).toNat := by decide
  cases hxs ▸ escaped_escapeChar c with
  | short h =>
      simp only [isPrintable_cons]
      refine ⟨by decide, ?_, by simp [IsPrintable]⟩
      unfold shortEscape? at h
      split at h
      case h_9 => cases h
      all_goals decide
  | control hc =>
      simp only [isPrintable_cons]
      exact ⟨by decide, by decide, by decide, by decide, hhex _ (by omega),
        hhex _ (by omega), by simp [IsPrintable]⟩
  | plain _ _ hc => simpa [IsPrintable] using hc

/-- No control character is left in a written string. -/
theorem isPrintable_quote (s : String) : IsPrintable (quote s).toList := by
  rw [toList_quote, isPrintable_cons, isPrintable_append]
  refine ⟨by decide, fun c hc => ?_, by simp [IsPrintable]⟩
  obtain ⟨d, -, hd⟩ := List.mem_flatMap.mp hc
  exact isPrintable_escapeChar d c hd

end PageLoom.Json
