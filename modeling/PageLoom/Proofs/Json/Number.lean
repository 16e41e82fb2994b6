import PageLoom.Json.Number
import PageLoom.Proofs.Decimal.Shortest

/-!
# Numbers read exactly

A number of a JSON text denotes a decimal (`NumberText.size`), and the double that it stands for is
the one nearest to that decimal (`NumberText.Denotes`).  There is at most one, so this is a way to
read numbers (`NumberText.nearest?`).

The text of a finite double in JSON is such a number, and the double is nearest to it
(`exists_denotes_of_json?`).  It has a fraction or an exponent, so it is not taken for an integer.
-/

namespace PageLoom.Json

open Decimal

/-! ## Digits -/

/-- Whether there are digits and nothing else. -/
structure IsDigits (ds : List Char) : Prop where
  nonempty : ds ≠ []
  digits : ∀ c ∈ ds, c.isDigit = true

theorem isDigits_zero : IsDigits ['0'] :=
  ⟨List.cons_ne_nil '0' [], List.forall_mem_singleton.mpr rfl⟩

/-- Whether digits can stand before a point: no zero stands before other digits. -/
def IsWhole (ds : List Char) : Prop := ds = ['0'] ∨ IsDigits ds ∧ ds.head? ≠ some '0'

theorem IsWhole.isDigits {ds : List Char} (h : IsWhole ds) : IsDigits ds := by
  rcases h with rfl | ⟨h, -⟩
  · exact isDigits_zero
  · exact h

theorem digitsValue_append (xs ys : List Char) :
    digitsValue (xs ++ ys) = 10 ^ ys.length * digitsValue xs + digitsValue ys := by
  rw [digitsValue, List.foldl_append]
  exact Nat.ofDigitChars_eq_ofDigitChars_zero

theorem digitsValue_zeros (n : Nat) : digitsValue (List.replicate n '0') = 0 :=
  Nat.ofDigitChars_replicate_zero

theorem digitsValue_toDigits (n : Nat) : digitsValue (Nat.toDigits 10 n) = n :=
  Nat.ofDigitChars_ten_toDigits

theorem isDigits_toDigits (n : Nat) : IsDigits (Nat.toDigits 10 n) :=
  ⟨Nat.toDigits_ne_nil, fun _ hc => Nat.isDigit_of_mem_toDigits (by decide) (by decide) hc⟩

/-- A number other than zero is written without a leading zero. -/
theorem head?_toDigits_ne {n : Nat} (h : n ≠ 0) : (Nat.toDigits 10 n).head? ≠ some '0' := by
  have hsmall : ∀ m < 10, m ≠ 0 → [Nat.digitChar m].head? ≠ some '0' := by decide
  induction n using Nat.strongRecOn with
  | ind n ih =>
      rcases Nat.lt_or_ge n 10 with hlt | hge
      · rw [Nat.toDigits_of_lt_base hlt]
        exact hsmall n hlt h
      · rw [Nat.toDigits_of_base_le (by decide) hge,
          List.head?_append_of_ne_nil _ Nat.toDigits_ne_nil]
        exact ih (n / 10) (by omega) (by omega)

theorem isWhole_toDigits (n : Nat) : IsWhole (Nat.toDigits 10 n) := by
  by_cases h : n = 0
  · left
    rw [h]
    rfl
  · exact .inr ⟨isDigits_toDigits n, head?_toDigits_ne h⟩

/-! ## Texts of numbers -/

/-- Whether a text does not go on with digits. -/
def EndsDigits (rest : List Char) : Prop := ∀ c, rest.head? = some c → c.isDigit = false

/-- Whether a text does not go on with a part of a number. -/
def EndsNumber (rest : List Char) : Prop :=
  ∀ c, rest.head? = some c → c.isDigit = false ∧ c ≠ '.' ∧ c ≠ 'e' ∧ c ≠ 'E'

theorem EndsNumber.endsDigits {rest : List Char} (h : EndsNumber rest) : EndsDigits rest :=
  fun c hc => (h c hc).1

theorem endsDigits_cons {c : Char} {cs : List Char} (h : c.isDigit = false) :
    EndsDigits (c :: cs) := by
  rintro d ⟨⟩
  exact h

/-- Reading digits stops where the digits stop. -/
theorem takeWhile_digits {ds rest : List Char} (hds : IsDigits ds) (hrest : EndsDigits rest) :
    (ds ++ rest).takeWhile Char.isDigit = ds ∧ (ds ++ rest).dropWhile Char.isDigit = rest := by
  rw [List.takeWhile_append_of_pos hds.digits, List.dropWhile_append_of_pos hds.digits]
  cases rest with
  | nil => simp
  | cons c rest =>
      have hc := hrest c rfl
      simp [hc]

theorem IsDigits.isEmpty {ds : List Char} (h : IsDigits ds) : ds.isEmpty = false :=
  List.isEmpty_eq_false_iff.mpr h.nonempty

namespace NumberText

/-- The text of a fraction. -/
def fractionChars : Option (List Char) → List Char
  | none => []
  | some ds => '.' :: ds

/-- The text of an exponent. -/
def exponentChars : Option (Bool × List Char) → List Char
  | none => []
  | some (negative, ds) => 'e' :: (if negative then '-' else '+') :: ds

/-- The text of a number. -/
def chars (t : NumberText) : List Char :=
  (if t.negative then ['-'] else []) ++
    (t.whole ++ (fractionChars t.fraction ++ exponentChars t.exponent))

/-- Whether the parts of a number are what they can be. -/
structure IsWritten (t : NumberText) : Prop where
  whole : IsWhole t.whole
  fraction : ∀ ds, t.fraction = some ds → IsDigits ds
  exponent : ∀ e, t.exponent = some e → IsDigits e.2

end NumberText

open NumberText

/-- A whole number is read to its end, whatever follows that is no digit. -/
theorem scanWhole?_append {ds rest : List Char} (hds : IsWhole ds) (hrest : EndsDigits rest) :
    scanWhole? (ds ++ rest) = some (ds, rest) := by
  rcases hds with rfl | ⟨hds, hhead⟩
  · cases rest with
    | nil => rfl
    | cons c rest => simp [scanWhole?, hrest c rfl]
  · obtain ⟨htake, hdrop⟩ := takeWhile_digits hds hrest
    unfold scanWhole?
    split
    next h =>
      refine absurd ?_ hhead
      rw [← List.head?_append_of_ne_nil ds hds.nonempty, h]
      rfl
    next h =>
      refine absurd ?_ hhead
      rw [← List.head?_append_of_ne_nil ds hds.nonempty, h]
      rfl
    next =>
      dsimp only
      rw [htake, hdrop, hds.isEmpty, if_neg Bool.false_ne_true]

/-- A fraction is read to its end, and no fraction is read where there is no point. -/
theorem scanFraction?_append {fraction : Option (List Char)} {rest : List Char}
    (hfraction : ∀ ds, fraction = some ds → IsDigits ds) (hrest : EndsDigits rest)
    (hpoint : rest.head? ≠ some '.') :
    scanFraction? (fractionChars fraction ++ rest) = some (fraction, rest) := by
  cases fraction with
  | none =>
      rw [fractionChars, List.nil_append]
      unfold scanFraction?
      split
      next => exact absurd rfl hpoint
      next => rfl
  | some ds =>
      have hds := hfraction ds rfl
      obtain ⟨htake, hdrop⟩ := takeWhile_digits hds hrest
      rw [fractionChars, List.cons_append, scanFraction?]
      rw [htake, hdrop, hds.isEmpty, if_neg Bool.false_ne_true]

/-- An exponent is read to its end with its sign, and only where one begins. -/
theorem scanExponent?_append {exponent : Option (Bool × List Char)} {rest : List Char}
    (hexponent : ∀ e, exponent = some e → IsDigits e.2) (hrest : EndsNumber rest) :
    scanExponent? (exponentChars exponent ++ rest) = some (exponent, rest) := by
  cases exponent with
  | none =>
      cases rest with
      | nil => rfl
      | cons c rest =>
          obtain ⟨-, -, he, hE⟩ := hrest c rfl
          simp [exponentChars, scanExponent?, he, hE]
  | some e =>
      obtain ⟨negative, ds⟩ := e
      have hds := hexponent _ rfl
      obtain ⟨htake, hdrop⟩ := takeWhile_digits hds hrest.endsDigits
      have hsign : splitSign ((if negative then '-' else '+') :: (ds ++ rest)) =
          (negative, ds ++ rest) := by
        cases negative <;> rfl
      rw [exponentChars, List.cons_append, List.cons_append, scanExponent?, if_pos (.inl rfl),
        hsign]
      dsimp only
      rw [htake, hdrop, hds.isEmpty, if_neg Bool.false_ne_true]

/-- A number is read as its parts. -/
theorem scanNumber?_chars {t : NumberText} (ht : t.IsWritten) {rest : List Char}
    (hrest : EndsNumber rest) : scanNumber? (t.chars ++ rest) = some (t, rest) := by
  obtain ⟨negative, whole, fraction, exponent⟩ := t
  obtain ⟨hwhole, hfraction, hexponent⟩ := ht
  dsimp only at hwhole hfraction hexponent
  have hexponent := scanExponent?_append hexponent hrest
  have hends : EndsDigits (exponentChars exponent ++ rest) ∧
      (exponentChars exponent ++ rest).head? ≠ some '.' := by
    cases exponent with
    | none =>
        refine ⟨hrest.endsDigits, fun hpoint => ?_⟩
        exact (hrest _ hpoint).2.1 rfl
    | some e => exact ⟨endsDigits_cons rfl, by simp [exponentChars]⟩
  have hfraction := scanFraction?_append hfraction hends.1 hends.2
  have hends' : EndsDigits (fractionChars fraction ++ (exponentChars exponent ++ rest)) := by
    cases fraction with
    | none => exact hends.1
    | some ds => exact endsDigits_cons rfl
  obtain ⟨d, ds, rfl⟩ := List.exists_cons_of_ne_nil hwhole.isDigits.nonempty
  have hne : d ≠ '-' := by
    rintro rfl
    cases hwhole.isDigits.digits '-' List.mem_cons_self
  have hwhole := scanWhole?_append hwhole hends'
  rw [List.cons_append] at hwhole
  rw [scanNumber?.eq_def]
  cases negative with
  | true => simp [chars, hwhole, hfraction, hexponent]
  | false => simp [chars, hne, hwhole, hfraction, hexponent]

/-! ## What numbers denote -/

namespace NumberText

/-- The digits of a fraction. -/
def places (t : NumberText) : List Char := t.fraction.getD []

/-- The power of ten that a number is multiplied by. -/
def power (t : NumberText) : Int :=
  match t.exponent with
  | none => 0
  | some (negative, ds) => if negative then -(digitsValue ds : Int) else digitsValue ds

/-- The decimal without its sign. -/
def size (t : NumberText) : ℚ :=
  digitsValue (t.whole ++ t.places) * 10 ^ (t.power - t.places.length)

/-- Whether a double is the one nearest to a number. -/
def Denotes (t : NumberText) (x : Float) : Prop :=
  ∃ d, (Parts.ofFloat x).finite? = some (t.negative, d) ∧ IsNearest t.size d

/-- A text denotes at most one double. -/
theorem Denotes.unique {t : NumberText} {x y : Float} (hx : t.Denotes x) (hy : t.Denotes y) :
    x = y := by
  obtain ⟨d, hd, hnear⟩ := hx
  obtain ⟨e, he, hnear'⟩ := hy
  have heq := hnear.unique (isDouble_of_finite? hd) (isDouble_of_finite? he) hnear'
  exact eq_of_finite? hd (heq ▸ he)

open Classical in
/-- The double nearest to a number.  A number too large for a double has none. -/
noncomputable def nearest? (t : NumberText) : Option Float :=
  if h : ∃ x, t.Denotes x then some h.choose else none

/-- Reading a number finds the double it denotes. -/
theorem nearest?_eq_some_iff {t : NumberText} {x : Float} : t.nearest? = some x ↔ t.Denotes x := by
  rw [nearest?]
  constructor
  · intro h
    split at h
    next hex =>
      cases h
      exact hex.choose_spec
    next => cases h
  · intro h
    have hex : ∃ y, t.Denotes y := ⟨x, h⟩
    rw [dif_pos hex, hex.choose_spec.unique h]

end NumberText

/-! ## The text of a double -/

/-- The positional layout has the value of the digits. -/
theorem positional_spec {d : Digits} (hd : d.digits ≠ 0) :
    IsWhole d.positional.1.toList ∧ (∀ c ∈ d.positional.2.toList, c.isDigit = true) ∧
      (digitsValue (d.positional.1.toList ++ d.positional.2.toList) : ℚ) *
        10 ^ (-(d.positional.2.toList.length : Int)) = d.value := by
  have hdigits := isDigits_toDigits d.digits
  have hvalue := digitsValue_toDigits d.digits
  have hhead := head?_toDigits_ne hd
  have hzeros : ∀ n, ∀ c ∈ List.replicate n '0', c.isDigit = true := fun n c hc => by
    rw [List.eq_of_mem_replicate hc]
    rfl
  rw [Digits.positional, Digits.value]
  simp only [Nat.toList_repr]
  split
  next hexponent =>
    obtain ⟨k, hk⟩ := Int.eq_ofNat_of_zero_le hexponent
    simp only [zeros, String.toList_append, Nat.toList_repr, hk, Int.toNat_natCast,
      String.toList_ofList]
    generalize Nat.toDigits 10 d.digits = cs at hdigits hvalue hhead ⊢
    refine ⟨.inr ⟨⟨?_, ?_⟩, ?_⟩, by simp, ?_⟩
    · simp [hdigits.nonempty]
    · exact List.forall_mem_append.mpr ⟨hdigits.digits, hzeros k⟩
    · rwa [List.head?_append_of_ne_nil _ hdigits.nonempty]
    · simp [digitsValue_append, digitsValue_zeros, hvalue, mul_comm]
  next hexponent =>
    obtain ⟨k, hk⟩ := Int.eq_ofNat_of_zero_le (show 0 ≤ -d.exponent by omega)
    simp only [neg_eq_iff_eq_neg.mp hk, neg_neg, Int.toNat_natCast]
    split
    next hplaces =>
      simp only [String.toList_ofList]
      generalize Nat.toDigits 10 d.digits = cs at hdigits hvalue hhead hplaces ⊢
      have htake : cs.take (cs.length - k) ≠ [] := by
        rw [Ne, List.take_eq_nil_iff, not_or]
        exact ⟨by omega, hdigits.nonempty⟩
      refine ⟨.inr ⟨⟨htake, fun c hc => hdigits.digits c (List.mem_of_mem_take hc)⟩, ?_⟩,
        fun c hc => hdigits.digits c (List.mem_of_mem_drop hc), ?_⟩
      · rw [← List.take_append_drop (cs.length - k) cs,
          List.head?_append_of_ne_nil _ htake] at hhead
        exact hhead
      · rw [List.take_append_drop, hvalue, List.length_drop, Nat.sub_sub_self hplaces.le]
    next hplaces =>
      simp only [zeros, String.toList_append, Nat.toList_repr, String.toList_ofList]
      generalize Nat.toDigits 10 d.digits = cs at hdigits hvalue hhead hplaces ⊢
      refine ⟨.inl rfl, List.forall_mem_append.mpr ⟨hzeros _, hdigits.digits⟩, ?_⟩
      have hzero : digitsValue "0".toList = 0 := rfl
      rw [digitsValue_append, digitsValue_append, digitsValue_zeros, hzero, hvalue,
        List.length_append,
        List.length_replicate, Nat.sub_add_cancel (not_lt.mp hplaces)]
      simp

/-- The layout with an exponent is a number with the value of the digits. -/
theorem exists_scientific (d : Digits) (negative : Bool) :
    ∃ t : NumberText, t.chars = (signText negative ++ d.scientific).toList ∧ t.negative = negative ∧
      t.exponent.isSome ∧ t.IsWritten ∧ t.size = d.value := by
  have hdigits := isDigits_toDigits d.digits
  have hvalue := digitsValue_toDigits d.digits
  simp only [Digits.scientific, Nat.toList_repr]
  generalize Nat.toDigits 10 d.digits = cs at hdigits hvalue ⊢
  obtain ⟨c, ds, rfl⟩ := List.exists_cons_of_ne_nil hdigits.nonempty
  obtain ⟨hc, hds⟩ := List.forall_mem_cons.mp hdigits.digits
  generalize he : d.exponent + ((c :: ds).length : Nat) - 1 = e
  have hplaces : (if ds.isEmpty then none else some ds).getD [] = ds := by
    cases ds <;> rfl
  have hpower : (if e < 0 then -(e.natAbs : Int) else e.natAbs) = e := by
    split <;> omega
  refine ⟨⟨negative, [c], if ds.isEmpty then none else some ds,
    some (decide (e < 0), Nat.toDigits 10 e.natAbs)⟩, ?_, rfl, rfl, ⟨?_, ?_, ?_⟩, ?_⟩
  · cases negative <;> cases ds <;> by_cases hneg : e < 0 <;>
      simp [chars, fractionChars, exponentChars, signText, hneg]
  · by_cases hzero : c = '0'
    · exact .inl (by rw [hzero])
    · exact .inr ⟨⟨by simp, by simpa using hc⟩, by simpa using hzero⟩
  · intro es hes
    dsimp only at hes
    split at hes
    next => cases hes
    next hne =>
      cases hes
      exact ⟨fun hnil => hne (List.isEmpty_iff.mpr hnil), hds⟩
  · rintro _ ⟨⟩
    exact isDigits_toDigits _
  · simp only [size, places, power, hplaces, digitsValue_toDigits, decide_eq_true_eq, hpower,
      List.singleton_append, hvalue, Digits.value]
    congr 2
    rw [List.length_cons] at he
    omega

/-- The positional layout is a number with the value of the digits. -/
theorem exists_positional {d : Digits} (hd : d.digits ≠ 0) (negative : Bool) :
    ∃ t : NumberText, t.chars = (signText negative ++ d.positional.1 ++ "." ++
        (if d.positional.2.isEmpty then "0" else d.positional.2)).toList ∧
      t.negative = negative ∧ t.fraction.isSome ∧ t.IsWritten ∧ t.size = d.value := by
  obtain ⟨hwhole, hplaces, hvalue⟩ := positional_spec hd
  generalize d.positional.1 = whole, d.positional.2 = places at hwhole hplaces hvalue ⊢
  refine ⟨⟨negative, whole.toList, some (if places.isEmpty then "0" else places).toList, none⟩,
    ?_, rfl, rfl, ⟨hwhole, ?_, ?_⟩, ?_⟩
  · cases negative <;> simp [chars, fractionChars, exponentChars, signText]
  · rintro _ ⟨⟩
    split
    next => exact isDigits_zero
    next hne =>
      exact ⟨fun hnil => hne (String.isEmpty_iff.mpr (String.toList_eq_nil_iff.mp hnil)), hplaces⟩
  · rintro _ ⟨⟩
  · simp only [size, NumberText.places, power, Option.getD_some, zero_sub]
    rw [← hvalue]
    split
    next hempty =>
      rw [String.isEmpty_iff.mp hempty, digitsValue_append]
      have hzero : digitsValue ['0'] = 0 := rfl
      simp [hzero, mul_comm]
    next => rfl

/-- The text of a double in JSON is a number that denotes it. -/
theorem exists_denotes_of_json? {x : Float} {text : String} (h : Decimal.json? x = some text) :
    ∃ t : NumberText, t.chars = text.toList ∧ (t.fraction.isSome ∨ t.exponent.isSome) ∧
      t.IsWritten ∧ t.Denotes x := by
  rw [Decimal.json?] at h
  split at h
  next => cases h
  next => cases h
  next s hx =>
    cases h
    refine ⟨⟨s, ['0'], some ['0'], none⟩, ?_, .inl rfl, ⟨.inl rfl, ?_, ?_⟩, ?_⟩
    · cases s <;> rfl
    · rintro _ ⟨⟩
      exact isDigits_zero
    · rintro _ ⟨⟩
    · have hfinite : (Parts.ofFloat x).finite? = some (s, ⟨0, -1074, false⟩) := by rw [hx]; rfl
      have hsize : NumberText.size ⟨s, ['0'], some ['0'], none⟩ = 0 := by
        rw [size, show digitsValue _ = 0 from rfl, Nat.cast_zero, zero_mul]
      refine ⟨_, hfinite, ?_⟩
      rw [hsize]
      exact (roundsTo_zero (-1074)).isNearest (isDouble_of_finite? hfinite)
  next s m hx =>
    have hfinite : (Parts.ofFloat x).finite? = some (s, m) := by rw [hx]; rfl
    have hdouble := isDouble_of_finite? hfinite
    obtain ⟨hrounds, hne⟩ := roundsTo_shortest .even hdouble (mantissa_pos_of_finite hx)
    have hnear := hrounds.isNearest hdouble
    dsimp only at h
    split at h
    next =>
      cases h
      obtain ⟨t, hchars, rfl, hfraction, hwritten, hsize⟩ := exists_positional hne s
      exact ⟨t, hchars, .inl hfraction, hwritten, m, hfinite, hsize ▸ hnear⟩
    next =>
      cases h
      obtain ⟨t, hchars, rfl, hexponent, hwritten, hsize⟩ := exists_scientific (shortest .even m) s
      exact ⟨t, hchars, .inr hexponent, hwritten, m, hfinite, hsize ▸ hnear⟩

/-- Every finite double can be written. -/
theorem exists_json?_of_isFinite {x : Float} (h : x.isFinite = true) :
    ∃ text, Decimal.json? x = some text := by
  obtain ⟨p, hp⟩ := Option.isSome_iff_exists.mp (isSome_finite?_iff.mpr h)
  rw [Decimal.json?]
  cases hx : Parts.ofFloat x with
  | nan => rw [hx] at hp; cases hp
  | infinite s => rw [hx] at hp; cases hp
  | zero s => exact ⟨_, rfl⟩
  | finite s m =>
      dsimp only
      split
      · exact ⟨_, rfl⟩
      · exact ⟨_, rfl⟩

/-! ## Values -/

/-- A number with a fraction or an exponent stands for a double. -/
theorem valueBy?_double {double? : NumberText → Option Float} {t : NumberText}
    (h : t.fraction.isSome ∨ t.exponent.isSome) :
    t.valueBy? double? = (double? t).map .float := by
  rw [valueBy?]
  split
  next hfraction hexponent =>
    rw [hfraction, hexponent] at h
    simp at h
  next => rfl

theorem chars_int (m : Int) :
    NumberText.chars ⟨decide (m < 0), Nat.toDigits 10 m.natAbs, none, none⟩ =
      (toString m).toList := by
  cases m with
  | ofNat k => simp [chars, fractionChars, exponentChars, toString, Int.repr]
  | negSucc k => simp [chars, fractionChars, exponentChars, toString, Int.repr]

/-- The text of an integer is a number that stands for it. -/
theorem exists_numberText_int (n : Int64) (double? : NumberText → Option Float) :
    ∃ t : NumberText, t.chars = (toString n.toInt).toList ∧ t.IsWritten ∧
      t.valueBy? double? = some (.int n) := by
  have hfits : fits n.toInt = true := by
    rw [fits, Bool.and_eq_true, decide_eq_true_iff, decide_eq_true_iff]
    exact ⟨n.le_toInt, n.toInt_lt⟩
  have hofInt : Int64.ofInt n.toInt = n := Int64.ofInt_toInt n
  refine ⟨_, chars_int n.toInt, ⟨isWhole_toDigits _, by rintro _ ⟨⟩, by rintro _ ⟨⟩⟩, ?_⟩
  generalize n.toInt = m at hfits hofInt ⊢
  have hvalue : (if decide (m < 0) = true then -(m.natAbs : Int) else m.natAbs) = m := by
    simp only [decide_eq_true_eq]
    split <;> omega
  have hzero : (decide (m < 0) && m == 0) = false := by
    rw [Bool.and_eq_false_iff, decide_eq_false_iff_not, beq_eq_false_iff_ne]
    omega
  rw [valueBy?]
  dsimp only
  rw [digitsValue_toDigits, hvalue, hfits, hzero, hofInt]
  rfl

/-! ## Characters -/

/-- The characters of numbers. -/
def isNumberChar (c : Char) : Bool := c.isDigit || c == '-' || c == '+' || c == '.' || c == 'e'

theorem IsDigits.isNumberChar {ds : List Char} (h : IsDigits ds) :
    ∀ c ∈ ds, isNumberChar c = true :=
  fun c hc => by simp [Json.isNumberChar, h.digits c hc]

theorem NumberText.IsWritten.isNumberChar {t : NumberText} (h : t.IsWritten) :
    ∀ c ∈ t.chars, isNumberChar c = true := by
  obtain ⟨negative, whole, fraction, exponent⟩ := t
  obtain ⟨hwhole, hfraction, hexponent⟩ := h
  dsimp only at hwhole hfraction hexponent
  simp only [chars, List.forall_mem_append]
  refine ⟨?_, hwhole.isDigits.isNumberChar, ?_, ?_⟩
  · cases negative <;> simp [Json.isNumberChar]
  · cases fraction with
    | none => simp [fractionChars]
    | some ds => exact List.forall_mem_cons.mpr ⟨rfl, (hfraction ds rfl).isNumberChar⟩
  · cases exponent with
    | none => simp [exponentChars]
    | some e =>
        refine List.forall_mem_cons.mpr ⟨rfl, List.forall_mem_cons.mpr ⟨?_, ?_⟩⟩
        · cases e.1 <;> rfl
        · exact (hexponent e rfl).isNumberChar

/-- A number starts with a minus sign or a digit. -/
theorem NumberText.IsWritten.exists_cons {t : NumberText} (h : t.IsWritten) :
    ∃ c cs, t.chars = c :: cs ∧ (c = '-' ∨ c.isDigit = true) := by
  obtain ⟨d, ds, hd⟩ := List.exists_cons_of_ne_nil h.whole.isDigits.nonempty
  have hdigit := h.whole.isDigits.digits d (by rw [hd]; exact List.mem_cons_self)
  cases hnegative : t.negative with
  | true => exact ⟨'-', _, by rw [chars, hnegative]; rfl, .inl rfl⟩
  | false => exact ⟨d, _, by rw [chars, hnegative, hd]; rfl, .inr hdigit⟩

end PageLoom.Json
