import PageLoom.Decimal.Shortest
import Mathlib.Algebra.Order.Field.Power
import Mathlib.Data.Rat.Cast.Order
import Mathlib.Tactic.FieldSimp
import Mathlib.Tactic.Linarith
import Mathlib.Tactic.Positivity
import Mathlib.Tactic.Ring

/-!
# The double nearest to a number

The magnitude of a finite double is a mantissa of at most 53 bits times a power of two from -1074
on.  A double is nearest to a number if no such magnitude is nearer, where the one with the even
mantissa wins a tie (`IsNearest`).  At most one double is nearest (`IsNearest.unique`), because two
doubles that are equally near are neighbours, and of two neighbours one has an odd mantissa.

The numbers to which a double is nearest reach halfway to its neighbours (`RoundsTo.isNearest`).
The neighbour above is one unit of the last place away.  So is the one below, or half as far if the
double is a power of two.
-/

namespace PageLoom.Decimal

open Float.Model (Format UnpackedFloat)
open Float.Model.UnpackedFloat (unpackExponent unpackMantissa)

/-! ## Mantissas and exponents -/

/-- The number with a mantissa and an exponent. -/
def binary (m : Nat) (e : Int) : ℚ := m * 2 ^ e

/-- Whether a mantissa and an exponent are those of a double, infinite exponents aside. -/
structure Fits (m : Nat) (e : Int) : Prop where
  mantissa : m < 2 ^ 53
  exponent : -1074 ≤ e

/-- Whether a mantissa has all bits it can have. -/
structure IsNormal (m : Nat) (e : Int) : Prop extends Fits m e where
  full : 2 ^ 52 ≤ m ∨ e = -1074

theorem binary_lt_iff {m n : Nat} {e : Int} : binary m e < binary n e ↔ m < n := by
  have hpos : (0 : ℚ) < 2 ^ e := by positivity
  rw [binary, binary, mul_lt_mul_iff_left₀ hpos, Nat.cast_lt]

theorem binary_le_iff {m n : Nat} {e : Int} : binary m e ≤ binary n e ↔ m ≤ n := by
  rw [← not_lt, binary_lt_iff, not_lt]

theorem binary_inj {m n : Nat} {e : Int} : binary m e = binary n e ↔ m = n := by
  rw [le_antisymm_iff, binary_le_iff, binary_le_iff, Nat.le_antisymm_iff]

theorem binary_add (m n : Nat) (e : Int) : binary (m + n) e = binary m e + binary n e := by
  rw [binary, binary, binary, Nat.cast_add, add_mul]

/-- A number with a smaller exponent. -/
theorem binary_shift (m k : Nat) (e : Int) : binary m (e + k) = binary (m * 2 ^ k) e := by
  rw [binary, binary, zpow_add₀ two_ne_zero, zpow_natCast, Nat.cast_mul, Nat.cast_pow,
    Nat.cast_ofNat]
  ring

/-- A full mantissa outgrows all mantissas of smaller exponents. -/
theorem IsNormal.lt_of_lower {m n k : Nat} {e : Int} (hm : IsNormal m (e + (k + 1 : Nat)))
    (hn : Fits n e) : n < m * 2 ^ (k + 1) := by
  have hexponent := hn.exponent
  have hfull : 2 ^ 52 ≤ m := hm.full.resolve_right (by omega)
  calc n < 2 ^ 53 := hn.mantissa
    _ = 2 ^ 52 * 2 := by norm_num
    _ ≤ m * 2 ^ (k + 1) := Nat.mul_le_mul hfull (Nat.le_self_pow (Nat.succ_ne_zero k) 2)

/-- Mantissa and exponent are told by the number. -/
theorem IsNormal.unique {m n : Nat} {e f : Int} (hm : IsNormal m e) (hn : IsNormal n f)
    (h : binary m e = binary n f) : m = n ∧ e = f := by
  wlog hle : e ≤ f generalizing m n e f
  · obtain ⟨hmn, hef⟩ := this hn hm h.symm (le_of_not_ge hle)
    exact ⟨hmn.symm, hef.symm⟩
  obtain ⟨k, rfl⟩ := Int.le.dest hle
  rw [binary_shift, binary_inj] at h
  cases k with
  | zero => simpa using h
  | succ k => exact absurd h (hn.lt_of_lower hm.toFits).ne

/-! ## Neighbours -/

namespace Dyadic

/-- The number that mantissa and exponent stand for. -/
def value (x : Dyadic) : ℚ := binary x.mantissa x.exponent

/-- A unit of the last place. -/
def unit (x : Dyadic) : ℚ := 2 ^ x.exponent

/-- The gap below a double. -/
def gap (x : Dyadic) : ℚ := if x.narrow then x.unit / 2 else x.unit

/-- Whether this is the magnitude of a double. -/
structure IsDouble (x : Dyadic) : Prop extends IsNormal x.mantissa x.exponent where
  narrow_eq : x.narrow = (x.mantissa == 2 ^ 52 && decide (-1074 < x.exponent))

theorem IsDouble.ext {x y : Dyadic} (hx : x.IsDouble) (hy : y.IsDouble)
    (hmantissa : x.mantissa = y.mantissa) (hexponent : x.exponent = y.exponent) : x = y := by
  have hnarrow : x.narrow = y.narrow := by rw [hx.narrow_eq, hy.narrow_eq, hmantissa, hexponent]
  cases x
  cases y
  simp_all

theorem unit_pos (x : Dyadic) : 0 < x.unit := zpow_pos two_pos _

theorem binary_succ (x : Dyadic) : binary (x.mantissa + 1) x.exponent = x.value + x.unit := by
  rw [binary_add, value, unit, binary, binary, Nat.cast_one, one_mul]

variable {x y : Dyadic} {m : Nat} {e : Int}

/-- There is nothing between a double and the next. -/
theorem IsDouble.le_above (hx : x.IsDouble) (hm : Fits m e) (h : x.value < binary m e) :
    x.value + x.unit ≤ binary m e := by
  rw [← binary_succ]
  rcases le_or_gt x.exponent e with hle | hlt
  · obtain ⟨k, hk⟩ := Int.le.dest hle
    rw [← hk, binary_shift] at h ⊢
    exact binary_le_iff.mpr (binary_lt_iff.mp h)
  · obtain ⟨k, hk⟩ := Int.lt.dest hlt
    have hbig := hx.toIsNormal
    rw [value, ← hk, binary_shift, binary_lt_iff] at h
    rw [← hk] at hbig
    exact absurd h (hbig.lt_of_lower hm).asymm

/-- The gap below a double, in units of a smaller exponent. -/
theorem gap_eq {k : Nat} (hk : e + (k + 1 : Nat) = x.exponent) :
    x.gap = binary (if x.narrow then 2 ^ k else 2 ^ (k + 1)) e := by
  have hunit : x.unit = binary (2 ^ (k + 1)) e := by
    rw [unit, ← hk, zpow_add₀ two_ne_zero, zpow_natCast, binary, Nat.cast_pow, Nat.cast_ofNat,
      mul_comm]
  rw [gap]
  split
  · rw [hunit, binary, binary, pow_succ]
    push_cast
    ring
  · exact hunit

/-- There is nothing between a double and the one before. -/
theorem IsDouble.le_below (hx : x.IsDouble) (hm : Fits m e) (h : binary m e < x.value) :
    binary m e ≤ x.value - x.gap := by
  rcases le_or_gt x.exponent e with hle | hlt
  · have hpos := x.unit_pos
    have hgap : x.gap ≤ x.unit := by
      rw [gap]
      split <;> linarith
    have hunit : binary 1 x.exponent = x.unit := by rw [binary, unit, Nat.cast_one, one_mul]
    obtain ⟨k, hk⟩ := Int.le.dest hle
    rw [← hk, binary_shift] at h ⊢
    have hnext : binary (m * 2 ^ k + 1) x.exponent ≤ x.value :=
      binary_le_iff.mpr (binary_lt_iff.mp h)
    rw [binary_add] at hnext
    linarith
  · obtain ⟨k, hk⟩ := Int.lt.dest hlt
    have hmantissa := hm.mantissa
    have hexponent := hm.exponent
    have hone : 1 ≤ 2 ^ k := Nat.one_le_two_pow
    rw [le_sub_iff_add_le, gap_eq hk, ← binary_add, value, ← hk, binary_shift, binary_le_iff,
      pow_succ]
    have hfull : 2 ^ 52 ≤ x.mantissa := hx.full.resolve_right (by omega)
    have hnarrow := hx.narrow_eq
    rw [decide_eq_true (by omega), Bool.and_true] at hnarrow
    split
    next h => nlinarith
    next h =>
      have hne : x.mantissa ≠ 2 ^ 52 := by
        rw [hnarrow] at h
        exact fun heq => h (beq_iff_eq.mpr heq)
      have hmore : 2 ^ 52 + 1 ≤ x.mantissa := by omega
      nlinarith

end Dyadic

/-! ## Nearest -/

/-- Whether a double is nearest to a number.  Of two that are equally near it is the even one. -/
structure IsNearest (q : ℚ) (x : Dyadic) : Prop where
  le : ∀ m e, Fits m e → |q - x.value| ≤ |q - binary m e|
  even : ∀ m e, Fits m e → |q - x.value| = |q - binary m e| → binary m e ≠ x.value → Even x.mantissa

theorem abs_sub_le_abs_sub_iff {q v w : ℚ} (h : v < w) : |q - v| ≤ |q - w| ↔ 2 * q ≤ v + w := by
  rw [← sq_le_sq]
  constructor
  · intro hsq
    nlinarith
  · intro hmid
    nlinarith

theorem abs_sub_le_abs_sub_iff' {q v w : ℚ} (h : w < v) : |q - v| ≤ |q - w| ↔ w + v ≤ 2 * q := by
  rw [← sq_le_sq]
  constructor
  · intro hsq
    nlinarith
  · intro hmid
    nlinarith

/-- Whether a number lies between the midpoints around a double. -/
structure RoundsTo (q : ℚ) (x : Dyadic) : Prop where
  lower : 2 * x.value - x.gap ≤ 2 * q
  upper : 2 * q ≤ 2 * x.value + x.unit
  inside : ¬ Even x.mantissa → 2 * x.value - x.gap < 2 * q ∧ 2 * q < 2 * x.value + x.unit

theorem roundsTo_zero (e : Int) : RoundsTo 0 ⟨0, e, false⟩ := by
  have hpos := Dyadic.unit_pos ⟨0, e, false⟩
  have hvalue : Dyadic.value ⟨0, e, false⟩ = 0 := by
    rw [Dyadic.value, binary, Nat.cast_zero, zero_mul]
  have hgap : Dyadic.gap ⟨0, e, false⟩ = Dyadic.unit ⟨0, e, false⟩ := rfl
  refine ⟨?_, ?_, fun hodd => absurd Even.zero hodd⟩
  · rw [hvalue, hgap]
    linarith
  · rw [hvalue]
    linarith

theorem RoundsTo.isNearest {q : ℚ} {x : Dyadic} (h : RoundsTo q x) (hx : x.IsDouble) :
    IsNearest q x where
  le m e hm := by
    rcases lt_trichotomy x.value (binary m e) with hlt | heq | hlt
    · have hnext := hx.le_above hm hlt
      have hupper := h.upper
      rw [abs_sub_le_abs_sub_iff hlt]
      linarith
    · rw [heq]
    · have hnext := hx.le_below hm hlt
      have hlower := h.lower
      rw [abs_sub_le_abs_sub_iff' hlt]
      linarith
  even m e hm heq hne := by
    by_contra hodd
    obtain ⟨hlower, hupper⟩ := h.inside hodd
    rcases lt_or_gt_of_ne hne with hlt | hlt
    · have hnext := hx.le_below hm hlt
      have hmid := (abs_sub_le_abs_sub_iff hlt).mp heq.ge
      linarith
    · have hnext := hx.le_above hm hlt
      have hmid := (abs_sub_le_abs_sub_iff' hlt).mp heq.ge
      linarith

/-- At most one double is nearest. -/
theorem IsNearest.unique {q : ℚ} {x y : Dyadic} (hx : x.IsDouble) (hy : y.IsDouble)
    (hqx : IsNearest q x) (hqy : IsNearest q y) : x = y := by
  have hvalue : x.value = y.value := by
    by_contra hne
    wlog hlt : x.value < y.value generalizing x y
    · exact this hy hx hqy hqx (Ne.symm hne) (lt_of_le_of_ne (not_lt.mp hlt) (Ne.symm hne))
    -- both are equally near, so both are even, and the double above `x` is odd
    have heq : |q - x.value| = |q - y.value| :=
      le_antisymm (hqx.le _ _ hy.toFits) (hqy.le _ _ hx.toFits)
    obtain ⟨m, hm⟩ := hqx.even _ _ hy.toFits heq (Ne.symm hne)
    obtain ⟨n, hn⟩ := hqy.even _ _ hx.toFits heq.symm hne
    have hmantissa := hx.mantissa
    have hnext : IsNormal (x.mantissa + 1) x.exponent :=
      ⟨⟨by omega, hx.exponent⟩, hx.full.imp Nat.le_succ_of_le id⟩
    have hsucc := x.binary_succ
    have hpos := x.unit_pos
    have habove : x.value + x.unit ≤ y.value := hx.le_above hy.toFits hlt
    have hmid := (abs_sub_le_abs_sub_iff hlt).mp heq.le
    have hmid' := (abs_sub_le_abs_sub_iff' hlt).mp heq.ge
    have hnear := (abs_sub_le_abs_sub_iff (by linarith)).mp (hqx.le _ _ hnext.toFits)
    have hsame : binary (x.mantissa + 1) x.exponent = y.value := by linarith
    obtain ⟨hodd, -⟩ := hnext.unique hy.toIsNormal hsame
    omega
  obtain ⟨hmantissa, hexponent⟩ := hx.toIsNormal.unique hy.toIsNormal hvalue
  exact hx.ext hy hmantissa hexponent

/-- A number that is a double is the one nearest to it. -/
theorem IsNearest.value_eq {m : Nat} {e : Int} {x : Dyadic} (h : IsNearest (binary m e) x)
    (hm : Fits m e) :
    x.value = binary m e := by
  have hle := h.le m e hm
  rw [sub_self, abs_zero] at hle
  exact (sub_eq_zero.mp (abs_nonpos_iff.mp hle)).symm

/-! ## Doubles -/

/-- The sign and the magnitude of a finite double. -/
def Parts.finite? : Parts → Option (Bool × Dyadic)
  | .zero negative => some (negative, ⟨0, -1074, false⟩)
  | .finite negative magnitude => some (negative, magnitude)
  | _ => none

/-- Sign and magnitude are read off the bits. -/
theorem Parts.finite?_ofBits {bits : Nat} {negative : Bool} {x : Dyadic}
    (h : (Parts.ofBits bits).finite? = some (negative, x)) :
    negative = (bits / 2 ^ 63 % 2 == 1) ∧
      (bits / 2 ^ 52 % 2 ^ 11 = 0 ∧ x = ⟨bits % 2 ^ 52, -1074, false⟩ ∨
        0 < bits / 2 ^ 52 % 2 ^ 11 ∧
          x = ⟨bits % 2 ^ 52 + 2 ^ 52, (bits / 2 ^ 52 % 2 ^ 11 : Nat) - 1075,
            bits % 2 ^ 52 == 0 && bits / 2 ^ 52 % 2 ^ 11 > 1⟩) := by
  rw [Parts.ofBits] at h
  simp only [Nat.pow_eq] at h
  split at h
  next => split at h <;> cases h
  next =>
    split at h
    next hbiased =>
      split at h
      next hfraction =>
        cases h
        exact ⟨rfl, .inl ⟨hbiased, by rw [hfraction]⟩⟩
      next =>
        cases h
        exact ⟨rfl, .inl ⟨hbiased, rfl⟩⟩
    next hbiased =>
      cases h
      exact ⟨rfl, .inr ⟨Nat.pos_of_ne_zero hbiased, rfl⟩⟩

theorem isDouble_of_finite? {bits : Nat} {negative : Bool} {x : Dyadic}
    (h : (Parts.ofBits bits).finite? = some (negative, x)) : x.IsDouble := by
  have hfraction : bits % 2 ^ 52 < 2 ^ 52 := Nat.mod_lt _ (by decide)
  obtain ⟨-, ⟨-, rfl⟩ | ⟨hbiased, rfl⟩⟩ := Parts.finite?_ofBits h
  · refine ⟨⟨⟨?_, le_rfl⟩, .inr rfl⟩, ?_⟩ <;> dsimp only
    · omega
    · simp
  · refine ⟨⟨⟨?_, ?_⟩, .inl ?_⟩, ?_⟩ <;> dsimp only
    · omega
    · omega
    · omega
    · rw [Bool.eq_iff_iff, Bool.and_eq_true, Bool.and_eq_true, beq_iff_eq, beq_iff_eq,
        decide_eq_true_iff, decide_eq_true_iff]
      omega

theorem mantissa_pos_of_finite {bits : Nat} {negative : Bool} {x : Dyadic}
    (h : Parts.ofBits bits = .finite negative x) : 0 < x.mantissa := by
  rw [Parts.ofBits] at h
  split at h
  next => split at h <;> cases h
  next =>
    split at h
    next =>
      split at h
      next => cases h
      next hfraction =>
        cases h
        exact Nat.pos_of_ne_zero hfraction
    next =>
      cases h
      exact Nat.add_pos_right _ (Nat.pow_pos (by decide))

/-- The bits of a double are told by its sign and magnitude. -/
theorem bits_eq_of_finite? {bits bits' : Nat} (h : bits < 2 ^ 64) (h' : bits' < 2 ^ 64)
    {p : Bool × Dyadic} (hp : (Parts.ofBits bits).finite? = some p)
    (hp' : (Parts.ofBits bits').finite? = some p) : bits = bits' := by
  obtain ⟨negative, x⟩ := p
  obtain ⟨hsign, hx⟩ := Parts.finite?_ofBits hp
  obtain ⟨hsign', hx'⟩ := Parts.finite?_ofBits hp'
  have hsame : bits / 2 ^ 63 % 2 = 1 ↔ bits' / 2 ^ 63 % 2 = 1 := by
    rw [← beq_iff_eq, ← hsign, hsign', beq_iff_eq]
  have hmagnitude : bits / 2 ^ 52 % 2 ^ 11 = bits' / 2 ^ 52 % 2 ^ 11 ∧
      bits % 2 ^ 52 = bits' % 2 ^ 52 := by
    rcases hx with ⟨hb, rfl⟩ | ⟨hb, rfl⟩ <;> rcases hx' with ⟨hb', hx'⟩ | ⟨hb', hx'⟩ <;>
      rw [Dyadic.mk.injEq] at hx' <;> omega
  omega

theorem eq_of_finite? {x y : Float} {p : Bool × Dyadic} (hx : (Parts.ofFloat x).finite? = some p)
    (hy : (Parts.ofFloat y).finite? = some p) : x = y := by
  have hbits : x.toBits = y.toBits :=
    UInt64.toNat_inj.mp (bits_eq_of_finite? x.toBits.toNat_lt y.toBits.toNat_lt hx hy)
  obtain ⟨⟨_, _⟩⟩ := x
  obtain ⟨⟨_, _⟩⟩ := y
  cases hbits
  rfl

theorem Parts.isSome_finite?_ofBits (bits : Nat) :
    (Parts.ofBits bits).finite?.isSome ↔ bits / 2 ^ 52 % 2 ^ 11 ≠ 2047 := by
  rw [Parts.ofBits]
  simp only [Nat.pow_eq]
  split
  next h => split <;> simp [Parts.finite?, h]
  next h =>
    split
    next => split <;> simp [Parts.finite?, h]
    next => simp [Parts.finite?, h]

theorem isFinite_unpack_iff (b : BitVec 64) :
    (UnpackedFloat.unpack Format.binary64 b).isFinite = true ↔
    @unpackExponent Format.binary64 b ≠ -1#_ := by
  delta UnpackedFloat.unpack
  dsimp only
  by_cases hspecial : @unpackExponent Format.binary64 b = -1#_
  case pos =>
    refine iff_of_false ?_ (not_not.mpr hspecial)
    rw [if_pos hspecial]
    split <;> exact Bool.false_ne_true
  case neg =>
    refine iff_of_true ?_ hspecial
    rw [if_neg hspecial]
    by_cases hsmall : @unpackExponent Format.binary64 b = 0#_
    case pos =>
      rw [if_pos hsmall]
      by_cases hzero : @unpackMantissa Format.binary64 b = 0#_
      case pos =>
        rw [dif_pos hzero]
        rfl
      case neg =>
        rw [dif_neg hzero]
        rfl
    case neg =>
      rw [if_neg hsmall]
      rfl

/-- The doubles with a magnitude are the finite ones. -/
theorem isSome_finite?_iff {x : Float} : (Parts.ofFloat x).finite?.isSome ↔ x.isFinite = true := by
  have hbits : (@unpackExponent Format.binary64 x.toBits.toBitVec).toNat =
      x.toBits.toNat / 2 ^ 52 % 2 ^ 11 := by
    rw [unpackExponent, BitVec.toNat_cast, BitVec.extractLsb_toNat, Nat.shiftRight_eq_div_pow]
    rfl
  rw [Parts.ofFloat, Parts.isSome_finite?_ofBits, ← hbits]
  refine Iff.trans (not_congr ?_) (isFinite_unpack_iff x.toBits.toBitVec).symm
  rw [← BitVec.toNat_inj]
  rfl

end PageLoom.Decimal
