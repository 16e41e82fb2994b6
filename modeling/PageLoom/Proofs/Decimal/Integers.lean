import PageLoom.Proofs.Decimal.Nearest

/-!
# The double of an integer

An integer is converted to the double that is nearest to it (`exists_nearest_ofInt`), and to itself
if it is a double.  The conversion shifts the mantissa until 53 bits are left.  What is lost is
told by two bits: the last bit that was shifted out, and whether any bit before it was set
(`Brackets`).
-/

namespace PageLoom.Decimal

open Float.Model (Format UnpackedFloat totalExponent)
open Float.Model.UnpackedFloat

/-! ## Shifting -/

/-- What a mantissa, the bit behind it and the bits behind that one tell of a number. -/
def Brackets (em : ExtendedMantissa) (q : ℚ) : Prop :=
  if em.stickyBit then
    2 * em.mantissa + em.roundBit.toNat < 2 * q ∧ 2 * q < 2 * em.mantissa + em.roundBit.toNat + 1
  else 2 * q = 2 * em.mantissa + em.roundBit.toNat

theorem brackets_exact (m : Nat) : Brackets (.ofMantissaAndAccuracy m .exact) m := by
  simp [Brackets, ExtendedMantissa.ofMantissaAndAccuracy]

theorem Brackets.shiftRightOne {em : ExtendedMantissa} {q : ℚ} (h : Brackets em q) :
    Brackets em.shiftRightOne (q / 2) := by
  obtain ⟨m, round, sticky⟩ := em
  have hsplit : (m : ℚ) = 2 * (m / 2 : Nat) + (m % 2 : Nat) := by
    exact_mod_cast (Nat.div_add_mod m 2).symm
  have hbit : (m % 2 != 0).toNat = m % 2 := by
    rcases Nat.mod_two_eq_zero_or_one m with h | h <;> rw [h] <;> rfl
  simp only [Brackets, ExtendedMantissa.shiftRightOne, hbit] at h ⊢
  generalize m / 2 = half at hsplit ⊢
  generalize m % 2 = bit at hsplit ⊢
  cases round <;> cases sticky <;>
    simp only [Bool.or_self, Bool.or_false, Bool.or_true, Bool.toNat_false, Bool.toNat_true,
      Bool.false_eq_true, if_true, if_false, Nat.cast_zero, Nat.cast_one] at h ⊢
  · linarith
  · constructor <;> linarith [h.1, h.2]
  · constructor <;> linarith
  · constructor <;> linarith [h.1, h.2]

theorem Brackets.shiftRight {em : ExtendedMantissa} {q : ℚ} (h : Brackets em q) (k : Nat) :
    Brackets (em >>> k) (q / 2 ^ k) := by
  change Brackets (k.repeat ExtendedMantissa.shiftRightOne em) _
  induction k with
  | zero => simpa [Nat.repeat] using h
  | succ k ih =>
      rw [Nat.repeat, pow_succ, ← div_div]
      exact ih.shiftRightOne

theorem mantissa_shiftRight (em : ExtendedMantissa) (k : Nat) :
    (em >>> k).mantissa = em.mantissa / 2 ^ k := by
  change (k.repeat ExtendedMantissa.shiftRightOne em).mantissa = _
  induction k with
  | zero => simp [Nat.repeat]
  | succ k ih =>
      rw [Nat.repeat, ExtendedMantissa.shiftRightOne, ih, Nat.div_div_eq_div_mul, pow_succ]

/-- A mantissa is rounded to the nearest one, and to the even one if there are two. -/
structure RoundsToMantissa (q : ℚ) (r : Nat) : Prop where
  lower : 2 * (r : ℚ) - 1 ≤ 2 * q
  upper : 2 * q ≤ 2 * r + 1
  inside : ¬ Even r → 2 * (r : ℚ) - 1 < 2 * q ∧ 2 * q < 2 * r + 1

/-- What the guard bits say about the fraction is enough to round to the nearest, ties to even. -/
theorem Brackets.roundedMantissa {em : ExtendedMantissa} {q : ℚ} (h : Brackets em q) :
    RoundsToMantissa q em.roundedMantissa := by
  obtain ⟨m, round, sticky⟩ := em
  have hsucc : ((m + 1 : Nat) : ℚ) = m + 1 := Nat.cast_add_one m
  cases round <;> cases sticky <;>
    simp only [Brackets, ExtendedMantissa.roundedMantissa, ExtendedMantissa.accuracy,
      Accuracy.roundToNearestEven, Bool.toNat_false, Bool.toNat_true, Bool.false_eq_true, if_true,
      if_false, Nat.cast_zero, Nat.cast_one] at h ⊢
  · exact ⟨by linarith, by linarith, fun _ => ⟨by linarith, by linarith⟩⟩
  · obtain ⟨hlo, hhi⟩ := h
    exact ⟨by linarith, by linarith, fun _ => ⟨by linarith, by linarith⟩⟩
  · have heven : Even (m + m % 2) := by
      rw [Nat.even_iff]
      omega
    rcases Nat.mod_two_eq_zero_or_one m with hbit | hbit <;> rw [hbit] at heven ⊢
    · rw [add_zero] at heven ⊢
      exact ⟨by linarith, by linarith, fun hodd => absurd heven hodd⟩
    · exact ⟨by linarith, by linarith, fun hodd => absurd heven hodd⟩
  · obtain ⟨hlo, hhi⟩ := h
    exact ⟨by linarith, by linarith, fun _ => ⟨by linarith, by linarith⟩⟩

theorem mantissa_le_roundedMantissa (em : ExtendedMantissa) : em.mantissa ≤ em.roundedMantissa := by
  obtain ⟨m, round, sticky⟩ := em
  cases round <;> cases sticky <;>
    simp [ExtendedMantissa.roundedMantissa, ExtendedMantissa.accuracy, Accuracy.roundToNearestEven]

theorem roundedMantissa_le (em : ExtendedMantissa) : em.roundedMantissa ≤ em.mantissa + 1 := by
  obtain ⟨m, round, sticky⟩ := em
  cases round <;> cases sticky <;>
    simp [ExtendedMantissa.roundedMantissa, ExtendedMantissa.accuracy, Accuracy.roundToNearestEven]
  omega

/-! ## Rounding -/

/-- The exponent that leaves 53 bits, if it is not too small. -/
theorem targetExponent_eq (m : Nat) (e : Int) :
    Format.binary64.targetExponent (totalExponent m e) = max (m.log2 + 1 + e - 53) (-1074) := rfl

/-- A mantissa that is long enough is shifted until it has 53 bits. -/
theorem shiftToTargetExponent_eq {m k : Nat} {e : Int} (hk : m.log2 = 52 + k) (he : -1074 ≤ e) :
    shiftToTargetExponent .binary64 m e .exact =
      (ExtendedMantissa.ofMantissaAndAccuracy m .exact >>> k, e + k) := by
  have htarget : Format.binary64.targetExponent (totalExponent m e) = e + k := by
    rw [targetExponent_eq, hk]
    omega
  have hshift : (e + k - e).toNat = k := by omega
  simp only [shiftToTargetExponent, htarget, shiftToExponent, hshift]

theorem finite_eq_finite {s t : Sign} {m n : Nat} {e f : Int} {hm : 0 < m} {hn : 0 < n}
    (hst : s = t)
    (hmn : m = n) (hef : e = f) : UnpackedFloat.finite s m e hm = .finite t n f hn := by
  subst hst hmn hef
  rfl

/-- A mantissa of more than 53 bits is shifted down and rounded, and once more shifted when rounding
carries. -/
theorem roundWithAccuracy_eq (s : Sign) {m k r j : Nat} {e : Int} (hk : m.log2 = 52 + k)
    (he : -1074 ≤ e)
    (hr : (ExtendedMantissa.ofMantissaAndAccuracy m .exact >>> k).roundedMantissa = r)
    (hj : r.log2 = 52 + j) (hpos : 0 < r / 2 ^ j) :
    roundWithAccuracy .binary64 s m e .exact = .finite s (r / 2 ^ j) (e + k + j) hpos := by
  have hshift := shiftToTargetExponent_eq hj (show -1074 ≤ e + (k : Int) by omega)
  have hfinal : (ExtendedMantissa.ofMantissaAndAccuracy r .exact >>> j).mantissa = r / 2 ^ j :=
    mantissa_shiftRight _ j
  rw [roundWithAccuracy, shiftToTargetExponent_eq hk he]
  dsimp only
  rw [hr, hshift]
  dsimp only
  rw [dif_neg (by rw [hfinal]; exact hpos.ne')]
  exact finite_eq_finite rfl hfinal rfl

/-- The magnitude with a full mantissa. -/
def full (m : Nat) (e : Int) : Dyadic := ⟨m, e, m == 2 ^ 52 && decide (-1074 < e)⟩

/-- Rounding the mantissa rounds the number. -/
theorem RoundsToMantissa.roundsTo {q : ℚ} {r : Nat} (h : RoundsToMantissa q r) (hq : 2 ^ 52 ≤ q)
    (e : Int) :
    RoundsTo (q * 2 ^ e) (full r e) := by
  have hpos : (0 : ℚ) < 2 ^ e := by positivity
  have hlower : (2 * (r : ℚ) - 1) * 2 ^ e ≤ 2 * q * 2 ^ e :=
    mul_le_mul_of_nonneg_right h.lower hpos.le
  have hupper : 2 * q * 2 ^ e ≤ (2 * (r : ℚ) + 1) * 2 ^ e :=
    mul_le_mul_of_nonneg_right h.upper hpos.le
  have hvalue : (full r e).value = r * 2 ^ e := rfl
  have hunit : (full r e).unit = 2 ^ e := rfl
  refine ⟨?_, by rw [hvalue, hunit]; linarith, fun hodd => ?_⟩
  · rw [Dyadic.gap, hvalue, hunit]
    split
    next hnarrow =>
      -- the power of two itself is below the number
      have hr : r = 2 ^ 52 := beq_iff_eq.mp (Bool.and_eq_true_iff.mp hnarrow).1
      have hle : (r : ℚ) * 2 ^ e ≤ q * 2 ^ e := by
        refine mul_le_mul_of_nonneg_right ?_ hpos.le
        rw [hr]
        exact_mod_cast hq
      linarith
    next => linarith
  · obtain ⟨hlo, hhi⟩ := h.inside hodd
    have hlo : (2 * (r : ℚ) - 1) * 2 ^ e < 2 * q * 2 ^ e := mul_lt_mul_of_pos_right hlo hpos
    have hhi : 2 * q * 2 ^ e < (2 * (r : ℚ) + 1) * 2 ^ e := mul_lt_mul_of_pos_right hhi hpos
    have hgap : (full r e).gap = 2 ^ e := by
      rw [Dyadic.gap, if_neg ?_, hunit]
      intro hnarrow
      have hr : r = 2 ^ 52 := beq_iff_eq.mp (Bool.and_eq_true_iff.mp hnarrow).1
      exact hodd (show Even r by rw [hr]; decide)
    rw [hvalue, hunit, hgap]
    exact ⟨by linarith, by linarith⟩

/-- A mantissa that is rounded up to a power of two is carried into the exponent. -/
theorem RoundsToMantissa.roundsTo_carry {q : ℚ} (h : RoundsToMantissa q (2 ^ 53)) {e : Int}
    (he : -1074 ≤ e) :
    RoundsTo (q * 2 ^ e) (full (2 ^ 52) (e + 1)) := by
  have hpos : (0 : ℚ) < 2 ^ e := by positivity
  have hlower := mul_le_mul_of_nonneg_right h.lower hpos.le
  have hupper := mul_le_mul_of_nonneg_right h.upper hpos.le
  have hunit : (full (2 ^ 52) (e + 1)).unit = 2 * 2 ^ e := by
    rw [Dyadic.unit, full, zpow_add_one₀ two_ne_zero, mul_comm]
  have hvalue : (full (2 ^ 52) (e + 1)).value = 2 ^ 53 * 2 ^ e := by
    rw [Dyadic.value, full, binary, zpow_add_one₀ two_ne_zero]
    push_cast
    ring
  have hgap : (full (2 ^ 52) (e + 1)).gap = 2 ^ e := by
    rw [Dyadic.gap, hunit, if_pos (by simp [full]; omega)]
    ring
  push_cast at hlower hupper
  refine ⟨?_, ?_, fun hodd => absurd (show Even (2 ^ 52) by decide) hodd⟩
  · rw [hvalue, hgap]
    linarith
  · rw [hvalue, hunit]
    linarith

/-- Whether a double is neither subnormal nor infinite. -/
structure Dyadic.IsFull (x : Dyadic) : Prop extends x.IsDouble where
  long : 2 ^ 52 ≤ x.mantissa
  small : x.exponent ≤ 971

/-- Whether an unpacked double has a sign and a magnitude. -/
def Holds (u : UnpackedFloat) (s : Sign) (x : Dyadic) : Prop :=
  ∃ hpos, u = .finite s x.mantissa x.exponent hpos

theorem isFull_full {m : Nat} {e : Int} (hlo : 2 ^ 52 ≤ m) (hhi : m < 2 ^ 53) (he : -1074 ≤ e)
    (he' : e ≤ 971) : (full m e).IsFull :=
  ⟨⟨⟨⟨hhi, he⟩, .inl hlo⟩, rfl⟩, hlo, he'⟩

theorem mul_two_pow_le_of_log2 {m k : Nat} (hm : 2 ^ 52 ≤ m) (hk : m.log2 = 52 + k) :
    2 ^ 52 * 2 ^ k ≤ m ∧ m < 2 ^ 53 * 2 ^ k := by
  have hsucc : 53 + k = m.log2 + 1 := by omega
  rw [← pow_add, ← pow_add, ← hk, hsucc]
  exact ⟨Nat.log2_self_le (by omega), Nat.lt_log2_self⟩

/-- What is left has 53 bits, or is the next power of two. -/
theorem roundedMantissa_mem {m k : Nat} (hm : 2 ^ 52 ≤ m) (hk : m.log2 = 52 + k) :
    2 ^ 52 ≤ (ExtendedMantissa.ofMantissaAndAccuracy m .exact >>> k).roundedMantissa ∧
      (ExtendedMantissa.ofMantissaAndAccuracy m .exact >>> k).roundedMantissa ≤ 2 ^ 53 := by
  obtain ⟨hlo, hhi⟩ := mul_two_pow_le_of_log2 hm hk
  have hle := mantissa_le_roundedMantissa (ExtendedMantissa.ofMantissaAndAccuracy m .exact >>> k)
  have hle' := roundedMantissa_le (ExtendedMantissa.ofMantissaAndAccuracy m .exact >>> k)
  rw [mantissa_shiftRight] at hle hle'
  exact ⟨le_trans ((Nat.le_div_iff_mul_le (by positivity)).mpr hlo) hle,
    le_trans hle' (Nat.div_lt_of_lt_mul (by rwa [mul_comm]))⟩

/-- A mantissa that is long enough is rounded to the nearest double. -/
theorem roundWithAccuracy_spec (s : Sign) {m : Nat} {e : Int} (hm : 2 ^ 52 ≤ m) (he : -1074 ≤ e)
    (he' : e + m.log2 ≤ 1022) : ∃ x : Dyadic, x.IsFull ∧ RoundsTo (binary m e) x ∧
      e ≤ x.exponent ∧ x.exponent ≤ e + m.log2 - 51 ∧
      Holds (roundWithAccuracy .binary64 s m e .exact) s x := by
  obtain ⟨k, hk⟩ : ∃ k, m.log2 = 52 + k := Nat.exists_eq_add_of_le ((Nat.le_log2 (by omega)).mpr hm)
  have hround := ((brackets_exact m).shiftRight k).roundedMantissa
  have hfinal {j : Nat} := @roundWithAccuracy_eq s m k _ j e hk he rfl
  obtain ⟨hlo, hhi⟩ := roundedMantissa_mem hm hk
  generalize (ExtendedMantissa.ofMantissaAndAccuracy m .exact >>> k).roundedMantissa = r at *
  have hvalue : binary m e = (m : ℚ) / 2 ^ k * 2 ^ (e + k) := by
    rw [binary, zpow_add₀ two_ne_zero, zpow_natCast]
    field_simp
  have hq : (2 ^ 52 : ℚ) ≤ (m : ℚ) / 2 ^ k := by
    rw [le_div_iff₀ (by positivity)]
    exact_mod_cast (mul_two_pow_le_of_log2 hm hk).1
  rw [hvalue]
  rcases hhi.lt_or_eq with hlt | rfl
  · have hlog : r.log2 = 52 + 0 := (Nat.log2_eq_iff (by omega)).mpr ⟨hlo, hlt⟩
    have hpos : 0 < r := by omega
    refine ⟨full r (e + k), isFull_full hlo hlt (by omega) (by omega), hround.roundsTo hq _, ?_, ?_,
      hpos, ?_⟩
    · simp only [full]
      omega
    · simp only [full]
      omega
    · exact (hfinal hlog (by omega)).trans (finite_eq_finite rfl (Nat.div_one r) (add_zero _))
  · have hlog : (2 ^ 53 : Nat).log2 = 52 + 1 := Nat.log2_two_pow
    have hpos : 0 < 2 ^ 52 := by decide
    refine ⟨full (2 ^ 52) (e + k + 1), isFull_full le_rfl (by decide) (by omega) (by omega),
      hround.roundsTo_carry (by omega), ?_, ?_, hpos, ?_⟩
    · simp only [full]
      omega
    · simp only [full]
      omega
    · exact (hfinal hlog (by decide)).trans (finite_eq_finite rfl rfl rfl)

/-! ## Packing -/

/-- Joined bit strings are digits of one number. -/
theorem toNat_append {m n : Nat} (a : BitVec m) (b : BitVec n) :
    (a ++ b).toNat = a.toNat * 2 ^ n + b.toNat := by
  rw [BitVec.toNat_append, ← Nat.shiftLeft_add_eq_or_of_lt b.isLt, Nat.shiftLeft_eq]

theorem ofBitVec_unpackSign (s : Sign) (e : BitVec 11) (m : BitVec 52) :
    Sign.ofBitVec (unpackSign (packComponents .binary64 s e m)) = s := by
  have hsign : (unpackSign (packComponents .binary64 s e m)).toNat = s.toBitVec.toNat := by
    have he := e.isLt
    have hm := m.isLt
    have hs := s.toBitVec.isLt
    delta unpackSign
    rw [BitVec.toNat_cast, BitVec.extractLsb_toNat, packComponents, toNat_append, toNat_append,
      Nat.shiftRight_eq_div_pow]
    dsimp only
    omega
  rw [BitVec.eq_of_toNat_eq hsign]
  cases s <;> rfl

section Packing

variable {x : Dyadic} {u : UnpackedFloat} {s : Sign}

theorem Dyadic.IsFull.toNat_exponent (hx : x.IsFull) :
    (BitVec.ofNat 11 (x.exponent + 1075).toNat).toNat = (x.exponent + 1075).toNat := by
  have hsmall := hx.small
  rw [BitVec.toNat_ofNat, Nat.mod_eq_of_lt (by omega)]

theorem Holds.pack_eq (h : Holds u s x) (hx : x.IsFull) : pack .binary64 u =
    packComponents .binary64 s (BitVec.ofNat 11 (x.exponent + 1075).toNat)
      (BitVec.ofNat 52 x.mantissa) := by
  have hlong := hx.long
  have hsmall := hx.small
  have hexponent := hx.exponent
  have hlog : x.mantissa.log2 = 52 := (Nat.log2_eq_iff (by omega)).mpr ⟨hx.long, hx.mantissa⟩
  have hbias : x.exponent + (Format.binary64.exponentBias : Int) + (52 : Nat) =
      x.exponent + 1075 := by
    rw [add_assoc]
    rfl
  obtain ⟨hpos, rfl⟩ := h
  delta pack
  dsimp only
  rw [hlog, hbias, if_neg (by omega), if_pos (by decide)]

/-- A double of full precision survives being packed into bits. -/
theorem Holds.unpack_pack (h : Holds u s x) (hx : x.IsFull) :
    Holds (unpack .binary64 (pack .binary64 u)) s x := by
  have hlong := hx.long
  have hsmall := hx.small
  have hexponent := hx.exponent
  have hmantissa := hx.mantissa
  have hbits := hx.toNat_exponent
  have hbias : (Format.binary64.exponentBias : Int) + (52 : Nat) = 1075 := rfl
  have hones : (-1#11).toNat = 2047 := rfl
  have hzero : (0#11).toNat = 0 := rfl
  have hfull : (1#1 ++ BitVec.ofNat 52 x.mantissa).toNat = x.mantissa := by
    rw [toNat_append, BitVec.toNat_ofNat, BitVec.toNat_ofNat]
    omega
  refine ⟨by omega, ?_⟩
  rw [h.pack_eq hx]
  delta unpack
  dsimp only
  rw [if_neg, if_neg]
  · refine finite_eq_finite (ofBitVec_unpackSign s _ _) ?mantissa ?exponent
    case mantissa => rw [unpackMantissa_packComponents, hfull]
    case exponent =>
      rw [unpackExponent_packComponents, hbits, hbias]
      omega
  · rw [unpackExponent_packComponents, ← BitVec.toNat_inj, hbits, hzero]
    omega
  · rw [unpackExponent_packComponents, ← BitVec.toNat_inj, hbits, hones]
    omega

/-- The bits of a packed double are read as the number it held. -/
theorem Holds.finite?_pack (h : Holds u s x) (hx : x.IsFull) :
    (Parts.ofBits (pack .binary64 u).toNat).finite? = some (s == .negative, x) := by
  have hlong := hx.long
  have hsmall := hx.small
  have hexponent := hx.exponent
  have hmantissa := hx.mantissa
  rw [h.pack_eq hx, packComponents, toNat_append, toNat_append, hx.toNat_exponent,
    BitVec.toNat_ofNat]
  generalize hbits : (s.toBitVec.toNat * 2 ^ 11 + (x.exponent + 1075).toNat) * 2 ^ 52 +
    x.mantissa % 2 ^ 52 = bits
  have hsign : s.toBitVec.toNat < 2 := s.toBitVec.isLt
  have hbiased : bits / 2 ^ 52 % 2 ^ 11 = (x.exponent + 1075).toNat := by omega
  have hfraction : bits % 2 ^ 52 = x.mantissa - 2 ^ 52 := by omega
  have hfirst : bits / 2 ^ 63 % 2 = s.toBitVec.toNat := by omega
  have hfinite : (Parts.ofBits bits).finite?.isSome := by
    rw [Parts.isSome_finite?_ofBits, hbiased]
    omega
  obtain ⟨⟨negative, y⟩, hy⟩ := Option.isSome_iff_exists.mp hfinite
  obtain ⟨hnegative, ⟨hzero, -⟩ | ⟨-, heq⟩⟩ := Parts.finite?_ofBits hy
  · omega
  · have hy' : y.mantissa = x.mantissa ∧ y.exponent = x.exponent := by
      rw [heq]
      dsimp only
      omega
    have hsame : negative = (s == .negative) := by
      rw [hnegative, hfirst]
      cases s <;> rfl
    rw [hy, (isDouble_of_finite? hy).ext hx.toIsDouble hy'.1 hy'.2, hsame]

end Packing

/-! ## Integers -/

theorem binary_natCast (n : Nat) : binary n 0 = n := by rw [binary, zpow_zero, mul_one]

/-- A number shifted to the left, with as many bits less in its exponent. -/
theorem binary_shiftLeft (n k : Nat) (e : Int) : binary (n <<< k) (e - k) = binary n e := by
  rw [Nat.shiftLeft_eq, ← binary_shift, sub_add_cancel]

theorem log2_shiftLeft {n : Nat} (hpos : 0 < n) (k : Nat) : (n <<< k).log2 = n.log2 + k := by
  rw [Nat.shiftLeft_eq, Nat.log2_eq_iff (by positivity), pow_add, add_right_comm, pow_add]
  exact ⟨Nat.mul_le_mul_right _ (Nat.log2_self_le hpos.ne'),
    Nat.mul_lt_mul_of_pos_right Nat.lt_log2_self (by positivity)⟩

/-- A number of at most 53 bits. -/
theorem exists_holds_short {n : Nat} (hpos : 0 < n) (hn : n < 2 ^ 53) :
    ∃ x : Dyadic, x.IsFull ∧ RoundsTo n x ∧ -52 ≤ x.exponent ∧ x.exponent ≤ 1 ∧
      Holds (UnpackedFloat.ofNat .binary64 n) .positive x := by
  obtain ⟨k, hk⟩ : ∃ k, 52 = n.log2 + k :=
    Nat.exists_eq_add_of_le (Nat.le_of_lt_succ ((Nat.log2_lt hpos.ne').mpr hn))
  have hshift : (n <<< k).log2 = 52 := by rw [log2_shiftLeft hpos, ← hk]
  have hlong : 2 ^ 52 ≤ n <<< k := by
    rw [← hshift]
    exact Nat.log2_self_le (by rw [Nat.shiftLeft_eq]; positivity)
  have hround : UnpackedFloat.ofNat .binary64 n =
      roundWithAccuracy .binary64 .positive (n <<< k) (0 - k) .exact := by
    have hcompare : compare (n : Int) 0 = .gt := compare_gt_iff_gt.mpr (by omega)
    have htarget : Format.binary64.targetExponent (totalExponent n 0) = 0 - k := by
      rw [targetExponent_eq]
      omega
    have hamount : (0 - (0 - (k : Int))).toNat = k := by omega
    simp only [UnpackedFloat.ofNat, UnpackedFloat.ofInt, UnpackedFloat.normalize, hcompare,
      UnpackedFloat.round, decreaseExponent,
      Int.toNat_natCast, htarget, hamount]
  obtain ⟨x, hx, hrounds, hlo, hhi, hholds⟩ :=
    roundWithAccuracy_spec .positive hlong (e := 0 - k) (by omega) (by omega)
  rw [binary_shiftLeft, binary_natCast] at hrounds
  rw [← hround] at hholds
  exact ⟨x, hx, hrounds, by omega, by omega, hholds⟩

/-- A product is rounded to the nearest double. -/
theorem exists_holds_mul {u : UnpackedFloat} {x : Dyadic} (h : Holds u .positive x) {m : Nat}
    {e : Int} (hm : 0 < m) (hlong : 2 ^ 52 ≤ x.mantissa * m) (hlo : -1074 ≤ x.exponent + e)
    (hhi : x.exponent + e + (x.mantissa * m).log2 ≤ 1022) :
    ∃ y : Dyadic, y.IsFull ∧ RoundsTo (binary (x.mantissa * m) (x.exponent + e)) y ∧
      Holds (mul .binary64 u (.finite .positive m e hm)) .positive y := by
  obtain ⟨hpos, rfl⟩ := h
  obtain ⟨y, hy, hrounds, -, -, hholds⟩ := roundWithAccuracy_spec .positive hlong hlo hhi
  exact ⟨y, hy, hrounds, hholds⟩

/-- A number of at most 53 bits is a double, and stays the same when it is multiplied with one. -/
theorem exists_holds_times_one {n : Nat} (hpos : 0 < n) (hn : n < 2 ^ 53) :
    ∃ (x : Dyadic) (u : UnpackedFloat), x.IsFull ∧ RoundsTo n x ∧ Holds u .positive x ∧
      (n.toUInt64.toFloat * Float.exactlyRepresentablePowersOfTen[0]).toModel = .pack u := by
  obtain ⟨y, hy, hround, hlo, hhi, hholds⟩ := exists_holds_short hpos hn
  have hexact : y.value = n := by
    have hnearest := hround.isNearest hy.toIsDouble
    rw [← binary_natCast] at hnearest ⊢
    exact hnearest.value_eq ⟨hn, by decide⟩
  have hlong := hy.long
  have hmantissa := hy.mantissa
  have hlog : (y.mantissa * 2 ^ 52).log2 = 104 :=
    (Nat.log2_eq_iff (by omega)).mpr ⟨by omega, by omega⟩
  obtain ⟨x, hx, hrounds, hholds⟩ :=
    exists_holds_mul (hholds.unpack_pack hy) (m := 2 ^ 52) (e := -52)
    (by decide) (by omega) (by omega) (by omega)
  have hsame : binary (y.mantissa * 2 ^ 52) (y.exponent + -52) = n := by
    rw [← hexact, Dyadic.value, ← binary_shiftLeft y.mantissa 52, Nat.shiftLeft_eq]
    rfl
  rw [hsame] at hrounds
  refine ⟨x, _, hx, hrounds, hholds, ?_⟩
  have hword : n.toUInt64.toNat = n := by
    rw [Nat.toUInt64, UInt64.toNat_ofNat', Nat.mod_eq_of_lt (by omega)]
  have hone : (Float.exactlyRepresentablePowersOfTen[0]).toModel.unpack =
      .finite .positive (2 ^ 52) (-52) (by decide) := rfl
  have hmodel : (n.toUInt64.toFloat * Float.exactlyRepresentablePowersOfTen[0]).toModel =
      .pack (mul .binary64 (unpack .binary64 (pack .binary64
        (UnpackedFloat.ofNat .binary64 n.toUInt64.toNat)))
        (Float.exactlyRepresentablePowersOfTen[0]).toModel.unpack) := rfl
  rw [hword, hone] at hmodel
  exact hmodel

/-- A longer number is rounded once. -/
theorem exists_holds_long {n : Nat} (hpos : 0 < n) (hn : n < 2 ^ 64) :
    ∃ (x : Dyadic) (u : UnpackedFloat), x.IsFull ∧ RoundsTo n x ∧ Holds u .positive x ∧
      Float.Model.ofScientific n 0 = .pack u := by
  have hshift : 0 < n <<< 53 := by
    rw [Nat.shiftLeft_eq]
    positivity
  have hlog : (n <<< 53).log2 = n.log2 + 53 := log2_shiftLeft hpos 53
  have hbits : n.log2 < 64 := (Nat.log2_lt hpos.ne').mpr hn
  have hlong : 2 ^ 52 ≤ n <<< 53 * 10 ^ 0 := by
    rw [Nat.shiftLeft_eq]
    omega
  have hexponents : (n <<< 53 * 10 ^ 0).log2 = n.log2 + 53 := by rw [pow_zero, mul_one, hlog]
  obtain ⟨x, hx, hrounds, hholds⟩ := exists_holds_mul (x := ⟨n <<< 53, -53, false⟩)
    (u := .finite .positive (n <<< 53) (-53) hshift) ⟨hshift, rfl⟩ (m := 10 ^ 0) (e := 0)
      (by decide) hlong
    (by dsimp only; omega) (by rw [hexponents]; dsimp only; omega)
  have hsame : binary (n <<< 53 * 10 ^ 0) (-53 + 0) = n := by
    rw [pow_zero, mul_one, ← binary_natCast, ← binary_shiftLeft n 53]
    rfl
  rw [hsame] at hrounds
  refine ⟨x, _, hx, hrounds, hholds, ?_⟩
  have hmodel : UnpackedFloat.ofScientific .binary64 n 0 =
      mul .binary64 (.finite .positive (n <<< 53) (-53) hshift)
        (.finite .positive (10 ^ 0) 0 (by decide)) := by
    rw [UnpackedFloat.ofScientific, dif_neg hpos.ne', if_neg (by decide),
      if_neg (by dsimp only; omega),
      if_pos le_rfl]
    rfl
  rw [← hmodel]
  rfl

/-- A word is turned into the double that is nearest to it, ties to even. -/
theorem exists_holds_ofNat {n : Nat} (hpos : 0 < n) (hn : n < 2 ^ 64) :
    ∃ (x : Dyadic) (u : UnpackedFloat), x.IsFull ∧ RoundsTo n x ∧ Holds u .positive x ∧
      (Float.ofNat n).toModel = .pack u := by
  have hunfold : Float.ofNat n = Float.ofScientific n false 0 := rfl
  rw [hunfold, Float.ofScientific]
  split
  next h => exact exists_holds_times_one hpos h.1
  next => exact exists_holds_long hpos hn

theorem Holds.neg {u : UnpackedFloat} {s : Sign} {x : Dyadic} (h : Holds u s x) :
    Holds u.neg (-s) x := by
  obtain ⟨hpos, rfl⟩ := h
  exact ⟨hpos, rfl⟩

theorem Holds.finite?_ofFloat {u : UnpackedFloat} {s : Sign} {x : Dyadic} (h : Holds u s x)
    (hx : x.IsFull)
    {y : Float} (hy : y.toModel = .pack u) :
      (Parts.ofFloat y).finite? = some (s == .negative, x) := by
  have hbits : y.toBits.toNat = (pack .binary64 u).toNat := by
    have hmodel : y.toBits = y.toModel.toBits := rfl
    rw [hmodel, hy]
    rfl
  rw [Parts.ofFloat, hbits]
  exact h.finite?_pack hx

/-- An integer of no more than 64 bits is converted to the double that is nearest to it. -/
theorem exists_nearest_ofInt {n : Int} (hn : n.natAbs < 2 ^ 64) : ∃ x : Dyadic,
    (Parts.ofFloat (Float.ofInt n)).finite? = some (decide (n < 0), x) ∧ x.IsDouble ∧
      IsNearest n.natAbs x := by
  cases n using Int.casesOn with
  | ofNat n =>
      cases n with
      | zero =>
          have hzero : (Parts.ofFloat (Float.ofInt 0)).finite? =
              some (false, ⟨0, -1074, false⟩) := by
            decide +kernel
          have hdouble := isDouble_of_finite? hzero
          exact ⟨_, hzero, hdouble, (roundsTo_zero (-1074)).isNearest hdouble⟩
      | succ n =>
          obtain ⟨x, u, hx, hrounds, hholds, hmodel⟩ := exists_holds_ofNat n.succ_pos hn
          exact ⟨x, hholds.finite?_ofFloat hx hmodel, hx.toIsDouble,
            hrounds.isNearest hx.toIsDouble⟩
  | negSucc n =>
      obtain ⟨x, u, hx, hrounds, hholds, hmodel⟩ := exists_holds_ofNat n.succ_pos hn
      have hneg : (Float.ofInt (.negSucc n)).toModel =
          .pack (Float.ofNat n.succ).toModel.unpack.neg := rfl
      rw [hmodel] at hneg
      have hparts := (hholds.unpack_pack hx).neg.finite?_ofFloat hx hneg
      rw [decide_eq_true (Int.negSucc_lt_zero n)]
      exact ⟨x, hparts, hx.toIsDouble, hrounds.isNearest hx.toIsDouble⟩

end PageLoom.Decimal
