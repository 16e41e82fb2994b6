import PageLoom.Proofs.Call.Grammar
import Mathlib.Data.List.Induction
import Mathlib.Data.List.TakeWhile

/-!
# Numbers among the tokens of a call

The tokens of a text are scanned one after the other, so an integer token is digits
after an optional minus sign, and a decimal token has a point and at least one digit
after it (`wellSpelled_of_tokenize`).  Such an integer is read if its value fits 64 bits, and
as that value (`int64?_eq_some_iff`); such a decimal is always read (`isSome_float?`).
-/

namespace PageLoom

/-- Digits after an optional minus sign. -/
def IsInteger (text : String) : Prop :=
  ∃ sign ds, text.toList = sign ++ ds ∧ (sign = [] ∨ sign = ['-']) ∧ ds ≠ [] ∧
    ds.all Char.isDigit = true

/-- Digits after an optional minus sign, with a point before the last ones. -/
def IsDecimal (text : String) : Prop :=
  ∃ sign whole fraction, text.toList = sign ++ whole ++ '.' :: fraction ∧
    (sign = [] ∨ sign = ['-']) ∧ whole.all Char.isDigit = true ∧ fraction ≠ [] ∧
    fraction.all Char.isDigit = true

/-- What the scanner says of the numbers that it finds. -/
def Token.WellSpelled : Token → Prop
  | .integer text => IsInteger text
  | .decimal text => IsDecimal text
  | _ => True

/-! ## Scanning -/

theorem wellSpelled_of_scanDigits? {sign cs : List Char} {t : Token} {n : Nat}
    (hsign : sign = [] ∨ sign = ['-']) (h : Token.scanDigits? sign cs = some (t, n)) :
    t.WellSpelled := by
  have integer : ∀ {t n}, (if (cs.takeWhile Char.isDigit).isEmpty then none
      else some (Token.integer (String.ofList (sign ++ cs.takeWhile Char.isDigit)),
        sign.length + (cs.takeWhile Char.isDigit).length)) = some (t, n) → t.WellSpelled := by
    intro t n h
    split at h
    next => cases h
    next hne =>
      cases h
      exact ⟨sign, _, String.toList_ofList, hsign, by simpa using hne, List.all_takeWhile⟩
  unfold Token.scanDigits? at h
  dsimp only at h
  split at h
  next rest hrest =>
    split at h
    next => exact integer h
    next hne =>
      cases h
      exact ⟨sign, _, _, String.toList_ofList, hsign, List.all_takeWhile, by simpa using hne,
        List.all_takeWhile⟩
  next => exact integer h

theorem wellSpelled_of_scan? {cs : List Char} {t : Token} {n : Nat}
    (h : Token.scan? cs = some (t, n)) : t.WellSpelled := by
  cases cs with
  | nil => cases h
  | cons c cs =>
      rw [Token.scan?] at h
      split at h
      next =>
        rw [Token.scanString?] at h
        split at h
        · cases h
          trivial
        · cases h
      split at h
      next =>
        cases h
        trivial
      next =>
        split at h
        next r hr =>
          cases h
          unfold Token.scanNumber? at hr
          split at hr
          · exact wellSpelled_of_scanDigits? (.inr rfl) hr
          · exact wellSpelled_of_scanDigits? (.inl rfl) hr
        next =>
          obtain ⟨p, -, hp⟩ := Option.map_eq_some_iff.mp h
          cases hp
          trivial

theorem wellSpelled_of_tokensFrom {fuel : Nat} :
    ∀ {offset : Nat} {cs : List Char} {lexemes : List Lexeme},
      tokensFrom offset cs fuel = .ok lexemes → ∀ l ∈ lexemes, l.token.WellSpelled := by
  induction fuel with
  | zero =>
      intro offset cs lexemes h
      cases h
      intro l hl
      cases hl
  | succ fuel ih =>
      intro offset cs lexemes h
      rw [tokensFrom] at h
      dsimp only at h
      split at h
      next =>
        cases h
        intro l hl
        cases hl
      next c rest hcs =>
        split at h
        next => cases h
        next token n hscan =>
          split at h
          next => cases h
          next more hmore =>
            cases h
            intro l hl
            rcases List.mem_cons.mp hl with rfl | hl
            · exact wellSpelled_of_scan? hscan
            · exact ih hmore l hl

/-- The tokens of a text spell their numbers well. -/
theorem wellSpelled_of_tokenize {source : String} {lexemes : List Lexeme}
    (h : tokenize source = .ok lexemes) : ∀ t ∈ lexemes.map Lexeme.token, t.WellSpelled := by
  intro t ht
  obtain ⟨l, hl, rfl⟩ := List.mem_map.mp ht
  exact wellSpelled_of_tokensFrom h l hl

/-! ## Reading -/

theorem digitsValue_eq (cs : List Char) :
    Decimal.digitsValue cs = Nat.ofDigits 10 (cs.reverse.map Decimal.digitValue) := by
  induction cs using List.reverseRecOn with
  | nil => rfl
  | append_singleton cs c ih =>
      rw [List.reverse_concat, List.map_cons, Nat.ofDigits_cons, ← ih, Decimal.digitsValue,
        List.foldl_append, ← Decimal.digitsValue]
      simp only [List.foldl_cons, List.foldl_nil]
      omega

/-- A sign is split from what follows it, unless that starts with one. -/
theorem splitSign_append {sign cs : List Char} (hsign : sign = [] ∨ sign = ['-'])
    (hcs : cs.head? ≠ some '-' ∧ cs.head? ≠ some '+') :
    Decimal.splitSign (sign ++ cs) = (decide (sign = ['-']), cs) := by
  rcases hsign with rfl | rfl
  · unfold Decimal.splitSign
    split
    next h =>
      rw [List.nil_append] at h
      exact absurd (by rw [h]; rfl) hcs.1
    next h =>
      rw [List.nil_append] at h
      exact absurd (by rw [h]; rfl) hcs.2
    next => rfl
  · rfl

theorem integerValue_eq {text : String} {sign ds : List Char} (htext : text.toList = sign ++ ds)
    (hsign : sign = [] ∨ sign = ['-']) (hds : ds.head? ≠ some '-') :
    integerValue text = if sign = ['-'] then -(Decimal.digitsValue ds : Int)
      else Decimal.digitsValue ds := by
  unfold integerValue
  rw [htext, digitsValue_eq]
  rcases hsign with rfl | rfl
  · dsimp only
    split
    next h =>
      rw [List.nil_append] at h
      exact absurd (by rw [h]; rfl) hds
    next => rfl
  · rfl

/-- Digits start with no sign. -/
theorem head?_ne_of_digits {cs : List Char} (h : cs.all Char.isDigit = true) {c : Char}
    (hc : c.isDigit = false) : cs.head? ≠ some c := by
  intro hhead
  rw [List.all_eq_true.mp h c (List.mem_of_head? hhead)] at hc
  cases hc

/-- Whether the value of an integer text fits 64 bits. -/
def IntegerFits (text : String) : Prop := -2 ^ 63 ≤ integerValue text ∧ integerValue text < 2 ^ 63

theorem toInt_ofInt {text : String} (h : IntegerFits text) :
    (Int64.ofInt (integerValue text)).toInt = integerValue text :=
  Int64.toInt_ofInt_of_le h.1 h.2

/-- An integer text is read as its value if that fits. -/
theorem int64?_eq_some_iff {text : String} (h : IsInteger text) (n : Int64) :
    Decimal.int64? text = some n ↔ IntegerFits text ∧ n = Int64.ofInt (integerValue text) := by
  obtain ⟨sign, ds, htext, hsign, hne, hdigits⟩ := h
  have hminus := head?_ne_of_digits hdigits (c := '-') (by decide)
  have hplus := head?_ne_of_digits hdigits (c := '+') (by decide)
  have hvalue := integerValue_eq htext hsign hminus
  have hread : Decimal.int64? text = if Decimal.fits (integerValue text) = true
      then some (Int64.ofInt (integerValue text)) else none := by
    rw [Decimal.int64?, htext, splitSign_append hsign ⟨hminus, hplus⟩, hvalue]
    have hok : (ds.isEmpty || !ds.all Char.isDigit) = false := by
      rw [hdigits, Bool.not_true, Bool.or_false, List.isEmpty_eq_false_iff]
      exact hne
    simp only [hok, Bool.false_eq_true, if_false, decide_eq_true_eq]
  have hfits : Decimal.fits (integerValue text) = true ↔ IntegerFits text := by
    rw [Decimal.fits, Bool.and_eq_true, decide_eq_true_eq, decide_eq_true_eq, IntegerFits]
    exact Iff.rfl
  rw [hread]
  split
  next hf => simp [hfits.mp hf, eq_comm]
  next hf => exact ⟨fun hn => (by cases hn), fun h => absurd (hfits.mpr h.1) hf⟩

/-- A decimal text is read. -/
theorem isSome_float? {text : String} (h : IsDecimal text) : (Decimal.float? text).isSome := by
  obtain ⟨sign, whole, fraction, htext, hsign, hwhole, hne, hfraction⟩ := h
  have hsplit : ∃ negative, Decimal.splitSign text.toList =
      (negative, whole ++ '.' :: fraction) := by
    refine ⟨decide (sign = ['-']), ?_⟩
    rw [htext, List.append_assoc]
    refine splitSign_append hsign ?_
    cases whole with
    | nil => exact ⟨by simp, by simp⟩
    | cons c cs =>
        exact ⟨head?_ne_of_digits hwhole (c := '-') (by decide),
          head?_ne_of_digits hwhole (c := '+') (by decide)⟩
  obtain ⟨negative, hs⟩ := hsplit
  rw [Decimal.float?, hs]
  dsimp only
  split
  next => rfl
  next =>
    have hpoint : Decimal.splitPoint (whole ++ '.' :: fraction) = (whole, fraction, []) := by
      have hw := List.all_eq_true.mp hwhole
      have hf := List.all_eq_true.mp hfraction
      have hdot : ¬ ('.').isDigit = true := by decide
      rw [Decimal.splitPoint, List.takeWhile_append_of_pos hw, List.dropWhile_append_of_pos hw,
        List.takeWhile_cons_of_neg hdot, List.dropWhile_cons_of_neg hdot, List.append_nil]
      simp only [List.takeWhile_eq_self_iff.mpr hf, List.dropWhile_eq_nil_iff.mpr hf]
    have hempty : (whole.isEmpty && fraction.isEmpty) = false := by
      rw [List.isEmpty_eq_false_iff.mpr hne, Bool.and_false]
    rw [hpoint]
    simp only [hempty, Bool.false_eq_true, if_false, Decimal.exponent?, Option.map_some,
      Option.isSome_some]

end PageLoom
