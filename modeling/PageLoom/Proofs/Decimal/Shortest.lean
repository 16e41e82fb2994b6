import PageLoom.Proofs.Decimal.Nearest

/-!
# The shortest decimal rounds to its double

`shortest` returns a decimal to which its double is nearest (`roundsTo_shortest`).  A grid point is
only picked if it lies in the interval of the double, so it is left to show that one is picked.

With eighteen digits the grid point below the double is picked.  Its distance is less than the
eighteenth digit is worth, that is less than a part in 10 ^ 17 of the double.  The interval reaches
a quarter of a unit of the last place down, that is more than a part in 2 ^ 55 of the double, and
2 ^ 55 is less than 10 ^ 17.
-/

namespace PageLoom.Decimal

/-- The number that digits denote. -/
def Digits.value (d : Digits) : ℚ := d.digits * 10 ^ d.exponent

/-- A power with an exponent of either sign, as a fraction. -/
theorem zpow_eq_div (b : ℚ) (e : Int) : b ^ e = b ^ e.toNat / b ^ (-e).toNat := by
  obtain ⟨n, rfl | rfl⟩ := e.eq_nat_or_neg
  · simp
  · simp

/-! ## Intervals -/

namespace Interval

variable {i : Interval} {tie : Tie} {e : Int}

/-- Whether a number lies in an interval. -/
def Within (i : Interval) (q : ℚ) : Prop :=
  if i.closed then i.lo ≤ q * i.den ∧ q * i.den ≤ i.hi else i.lo < q * i.den ∧ q * i.den < i.hi

theorem Within.of_inside {q : ℚ} (hlo : i.lo < q * i.den) (hhi : q * i.den < i.hi) :
    i.Within q := by
  rw [Within]
  split
  · exact ⟨hlo.le, hhi.le⟩
  · exact ⟨hlo, hhi⟩

theorem holds_iff {n : Nat} : i.holds n e = true ↔ i.Within (n * 10 ^ e) := by
  have hunit : (0 : ℚ) < 10 ^ (-e).toNat := by positivity
  have hvalue : (n * 10 ^ e : ℚ) * i.den =
      (n * 10 ^ e.toNat * i.den : Nat) / (10 ^ (-e).toNat : Nat) := by
    rw [zpow_eq_div]
    push_cast
    ring
  rw [holds, Within, hvalue]
  simp only [Nat.pow_eq]
  split
  · rw [Bool.and_eq_true, decide_eq_true_iff, decide_eq_true_iff, Nat.cast_pow, Nat.cast_ofNat,
      le_div_iff₀ hunit, div_le_iff₀ hunit]
    norm_cast
  · rw [Bool.and_eq_true, decide_eq_true_iff, decide_eq_true_iff, Nat.cast_pow, Nat.cast_ofNat,
      lt_div_iff₀ hunit, div_lt_iff₀ hunit]
    norm_cast

/-- The grid point below a number. -/
theorem onGrid_spec (num : Nat) {den : Nat} (hden : 0 < den) (e : Int) :
    ((onGrid num den e).1 : ℚ) * 10 ^ e * den ≤ num ∧
      (num : ℚ) < ((onGrid num den e).1 + 1) * 10 ^ e * den := by
  have hdivisor : 0 < den * 10 ^ e.toNat := Nat.mul_pos hden (by positivity)
  have hunit : (0 : ℚ) < 10 ^ (-e).toNat := by positivity
  have hlo : num * 10 ^ (-e).toNat / (den * 10 ^ e.toNat) * (den * 10 ^ e.toNat) ≤
      num * 10 ^ (-e).toNat := Nat.div_mul_le_self _ _
  have hhi : num * 10 ^ (-e).toNat <
      (num * 10 ^ (-e).toNat / (den * 10 ^ e.toNat) + 1) * (den * 10 ^ e.toNat) :=
    (Nat.lt_mul_div_succ _ hdivisor).trans_eq (Nat.mul_comm _ _)
  simp only [onGrid, Nat.pow_eq]
  generalize num * 10 ^ (-e).toNat / (den * 10 ^ e.toNat) = q at hlo hhi ⊢
  have hscaled : ∀ x : ℚ, x * 10 ^ e * den = x * (den * 10 ^ e.toNat) / 10 ^ (-e).toNat :=
    fun x => by
    rw [zpow_eq_div]
    ring
  rw [hscaled, hscaled, div_le_iff₀ hunit, lt_div_iff₀ hunit]
  exact_mod_cast And.intro hlo hhi

/-- What is picked lies in the interval. -/
theorem within_of_pick {d : Digits} (h : i.pick tie e = some d) :
    i.Within d.value ∧ d.digits ≠ 0 := by
  have hpoint : ∀ n : Nat, i.holds n e = true → n ≠ 0 →
      i.Within (Digits.value ⟨n, e⟩) ∧ (Digits.mk n e).digits ≠ 0 :=
    fun n hn hne => ⟨holds_iff.mp hn, hne⟩
  rw [pick] at h
  dsimp only at h
  generalize onGrid i.mid i.den e = g at h
  simp only [Bool.and_eq_true, bne_iff_ne, ne_eq] at h
  have habove := fun hn => hpoint (g.1 + 1) hn (Nat.succ_ne_zero _)
  split at h
  next hboth =>
    have heither : ∀ up : Bool, i.Within (Digits.value ⟨if up then g.1 + 1 else g.1, e⟩) ∧
        (if up then g.1 + 1 else g.1) ≠ 0
      | true => habove hboth.2
      | false => hpoint g.1 hboth.1.1 hboth.1.2
    cases h
    exact heither _
  next =>
    split at h
    next hbelow =>
      cases h
      exact hpoint g.1 hbelow.1 hbelow.2
    next =>
      split at h
      next hn =>
        cases h
        exact habove hn
      next => cases h

/-- Something is picked if the grid is finer than the way down to the lower end. -/
theorem exists_pick (hden : 0 < i.den) (hhi : i.mid < i.hi)
    (hfine : (10 : ℚ) ^ e * i.den ≤ i.mid - i.lo) (tie : Tie) :
    ∃ d, i.pick tie e = some d := by
  have hlo : (0 : ℚ) ≤ i.lo := Nat.cast_nonneg _
  have hhi' : (i.mid : ℚ) < i.hi := Nat.cast_lt.mpr hhi
  obtain ⟨hbelow, habove⟩ := onGrid_spec i.mid hden e
  have hstep : (((onGrid i.mid i.den e).1 : ℚ) + 1) * 10 ^ e * i.den =
      (onGrid i.mid i.den e).1 * 10 ^ e * i.den + 10 ^ e * i.den := by ring
  have hwithin : i.holds (onGrid i.mid i.den e).1 e = true :=
    holds_iff.mpr (.of_inside (by linarith) (by linarith))
  have hne : (onGrid i.mid i.den e).1 ≠ 0 := by
    intro hzero
    rw [hzero] at hbelow habove hstep
    push_cast at hbelow habove hstep
    linarith
  rw [pick]
  dsimp only
  rw [hwithin, bne_iff_ne.mpr hne, Bool.and_self, Bool.true_and]
  split
  · exact ⟨_, rfl⟩
  · exact ⟨_, rfl⟩

/-- The search finds what is picked first. -/
theorem within_search {top : Int} {count fuel : Nat}
    (h : ∃ k < fuel, ∃ d, i.pick tie (top - (count + k : Nat)) = some d) :
    i.Within (i.search tie top count fuel).value ∧ (i.search tie top count fuel).digits ≠ 0 := by
  induction fuel generalizing count with
  | zero =>
      obtain ⟨k, hk, -⟩ := h
      cases hk
  | succ fuel ih =>
      rw [search]
      split
      next d hd => exact within_of_pick hd
      next hnone =>
        obtain ⟨_ | k, hk, d, hd⟩ := h
        · cases hnone.symm.trans hd
        · refine ih ⟨k, Nat.lt_of_succ_lt_succ hk, d, ?_⟩
          rw [Nat.add_right_comm, Nat.add_assoc]
          exact hd

end Interval

/-! ## Digits -/

theorem lt_pow_digitCount (n : Nat) : n < 10 ^ digitCount n :=
  (Nat.length_toDigits_le_iff (by decide) Nat.length_toDigits_pos).mp le_rfl

theorem pow_digitCount_le {n : Nat} (h : 0 < n) : 10 ^ (digitCount n - 1) ≤ n := by
  rcases Nat.eq_zero_or_pos (digitCount n - 1) with hone | hmore
  · rw [hone]
    exact h
  · by_contra hlt
    have hshort : digitCount n ≤ digitCount n - 1 :=
      (Nat.length_toDigits_le_iff (by decide) hmore).mpr (not_le.mp hlt)
    omega

/-- A number is at least a tenth of its magnitude. -/
theorem pow_magnitude_le {num den : Nat} (hnum : 0 < num) (hden : 0 < den) :
    (10 : ℚ) ^ (magnitude num den - 1) * den ≤ num := by
  rw [magnitude]
  dsimp only
  split
  next =>
    have hcount : 0 < digitCount num := Nat.length_toDigits_pos
    have hle : (10 : ℚ) ^ (digitCount num - 1) ≤ num := by exact_mod_cast pow_digitCount_le hnum
    have hlt : (den : ℚ) < 10 ^ digitCount den := by exact_mod_cast lt_pow_digitCount den
    calc (10 : ℚ) ^ ((digitCount num : Int) - digitCount den - 1) * den
      _ ≤ 10 ^ ((digitCount num : Int) - digitCount den - 1) * 10 ^ digitCount den :=
          mul_le_mul_of_nonneg_left hlt.le (by positivity)
      _ = 10 ^ (digitCount num - 1) := by
          rw [← zpow_natCast, ← zpow_add₀ (by norm_num), ← zpow_natCast]
          congr 1
          omega
      _ ≤ num := hle
  next hne =>
    obtain ⟨hbelow, -⟩ := Interval.onGrid_spec num hden ((digitCount num : Int) - digitCount den)
    have hone : (1 : ℚ) ≤ (onGrid num den ((digitCount num : Int) - digitCount den)).1 := by
      exact_mod_cast Nat.one_le_iff_ne_zero.mpr hne
    rw [add_sub_cancel_right]
    refine le_trans ?_ hbelow
    rw [mul_assoc]
    exact le_mul_of_one_le_left (by positivity) hone

/-- Dropping zeros changes no value. -/
theorem Digits.strip_go_spec (fuel n : Nat) (e : Int) :
    (Digits.strip.go n e fuel).value = (Digits.mk n e).value ∧
      (n ≠ 0 → (Digits.strip.go n e fuel).digits ≠ 0) := by
  induction fuel generalizing n e with
  | zero => exact ⟨rfl, id⟩
  | succ fuel ih =>
      rw [Digits.strip.go]
      split
      next h =>
        rw [Bool.and_eq_true, decide_eq_true_iff, bne_iff_ne] at h
        obtain ⟨k, rfl⟩ := Nat.dvd_of_mod_eq_zero h.1
        obtain ⟨hvalue, hne⟩ := ih (10 * k / 10) (e + 1)
        rw [Nat.mul_div_cancel_left k (by decide)] at hvalue hne ⊢
        refine ⟨hvalue.trans ?_, fun _ => hne (by omega)⟩
        rw [Digits.value, Digits.value, zpow_add_one₀ (by norm_num)]
        push_cast
        ring
      next => exact ⟨rfl, id⟩

/-! ## Doubles -/

namespace Dyadic

variable {x : Dyadic}

theorem interval_scale (x : Dyadic) :
    (2 : ℚ) ^ (x.exponent - 2).toNat = x.unit / 4 * x.interval.den := by
  have hden : (x.interval.den : ℚ) = 2 ^ (2 - x.exponent).toNat := by simp [interval]
  have hquarter : x.unit / 4 = 2 ^ (x.exponent - 2) := by
    rw [unit, zpow_sub₀ two_ne_zero]
    norm_num
  rw [hden, hquarter, zpow_eq_div, neg_sub, div_mul_cancel₀ _ (by positivity)]

theorem interval_den_pos (x : Dyadic) : 0 < x.interval.den := by simp [interval]

theorem interval_mid (x : Dyadic) : (x.interval.mid : ℚ) = x.value * x.interval.den := by
  have hscale := x.interval_scale
  have hmid : (x.interval.mid : ℚ) = 4 * x.mantissa * 2 ^ (x.exponent - 2).toNat := by
    simp [interval]
  rw [hmid, hscale, value, binary, unit]
  ring

theorem interval_hi (x : Dyadic) :
    (x.interval.hi : ℚ) = (x.value + x.unit / 2) * x.interval.den := by
  have hscale := x.interval_scale
  have hhi : (x.interval.hi : ℚ) = (4 * x.mantissa + 2) * 2 ^ (x.exponent - 2).toNat := by
    simp [interval]
  rw [hhi, hscale, value, binary, unit]
  ring

theorem interval_lo (hx : 0 < x.mantissa) :
    (x.interval.lo : ℚ) = (x.value - x.gap / 2) * x.interval.den := by
  have hscale := x.interval_scale
  have hlo : (x.interval.lo : ℚ) =
      (4 * x.mantissa - if x.narrow then 1 else 2) * 2 ^ (x.exponent - 2).toNat := by
    rw [interval]
    dsimp only
    rw [Nat.pow_eq, Nat.cast_mul, Nat.cast_sub (by split <;> omega)]
    push_cast
    rfl
  rw [hlo, hscale, value, binary, gap, unit]
  split <;> ring

/-- The numbers in the interval of a double round to it. -/
theorem roundsTo_of_within (hx : 0 < x.mantissa) {q : ℚ} (h : x.interval.Within q) :
    RoundsTo q x := by
  have hden : (0 : ℚ) < x.interval.den := Nat.cast_pos.mpr x.interval_den_pos
  have hclosed : x.interval.closed = true ↔ Even x.mantissa := by
    rw [Nat.even_iff, interval, beq_iff_eq]
  rw [Interval.Within, interval_lo hx, interval_hi] at h
  split at h
  next heven =>
    rw [mul_le_mul_iff_left₀ hden, mul_le_mul_iff_left₀ hden] at h
    exact ⟨by linarith [h.1], by linarith [h.2], fun hodd => absurd (hclosed.mp heven) hodd⟩
  next =>
    rw [mul_lt_mul_iff_left₀ hden, mul_lt_mul_iff_left₀ hden] at h
    exact ⟨by linarith [h.1], by linarith [h.2], fun _ => ⟨by linarith [h.1], by linarith [h.2]⟩⟩

/-- Eighteen digits are finer than the way down to the lower end. -/
theorem IsDouble.fine (hx : x.IsDouble) (hpos : 0 < x.mantissa) :
    (10 : ℚ) ^ (magnitude x.interval.mid x.interval.den - 18) * x.interval.den ≤
      x.interval.mid - x.interval.lo := by
  have hden : (0 : ℚ) < x.interval.den := Nat.cast_pos.mpr x.interval_den_pos
  have hunit := x.unit_pos
  have hmid : 0 < x.interval.mid := by
    rw [interval]
    exact Nat.mul_pos (by omega) (Nat.pow_pos (by decide))
  have hmantissa : (x.mantissa : ℚ) ≤ 2 ^ 53 := by exact_mod_cast hx.mantissa.le
  have hgap : x.unit / 2 ≤ x.gap := by
    rw [gap]
    split <;> linarith
  have hsmall : (x.mantissa : ℚ) / 10 ^ 17 ≤ 1 / 4 := by
    rw [div_le_iff₀ (by norm_num)]
    exact hmantissa.trans (by norm_num)
  have hshift : (10 : ℚ) ^ (magnitude x.interval.mid x.interval.den - 18) =
      10 ^ (magnitude x.interval.mid x.interval.den - 1) / 10 ^ 17 := by
    rw [← zpow_natCast, ← zpow_sub₀ (by norm_num)]
    congr 1
    omega
  calc (10 : ℚ) ^ (magnitude x.interval.mid x.interval.den - 18) * x.interval.den
    _ = 10 ^ (magnitude x.interval.mid x.interval.den - 1) * x.interval.den / 10 ^ 17 := by
        rw [hshift]
        ring
    _ ≤ x.interval.mid / 10 ^ 17 := by
        gcongr
        exact pow_magnitude_le hmid x.interval_den_pos
    _ = x.mantissa / 10 ^ 17 * (x.unit * x.interval.den) := by
        rw [interval_mid, value, binary, unit]
        ring
    _ ≤ 1 / 4 * (x.unit * x.interval.den) := by gcongr
    _ ≤ x.gap / 2 * x.interval.den := by
        rw [← mul_assoc]
        gcongr
        linarith
    _ = x.interval.mid - x.interval.lo := by
        rw [interval_mid, interval_lo hpos]
        ring

end Dyadic

/-- The shortest decimal of a double rounds to it. -/
theorem roundsTo_shortest (tie : Tie) {x : Dyadic} (hx : x.IsDouble) (hpos : 0 < x.mantissa) :
    RoundsTo (shortest tie x).value x ∧ (shortest tie x).digits ≠ 0 := by
  have hhi : x.interval.mid < x.interval.hi := by
    simp only [Dyadic.interval, Nat.pow_eq]
    exact Nat.mul_lt_mul_of_pos_right (by omega) (by positivity)
  have hpick : ∃ k < 18, ∃ d,
      x.interval.pick tie (magnitude x.interval.mid x.interval.den - (1 + k : Nat)) = some d :=
    ⟨17, by decide, Interval.exists_pick x.interval_den_pos hhi (hx.fine hpos) tie⟩
  obtain ⟨hwithin, hne⟩ := Interval.within_search hpick
  obtain ⟨hvalue, hstrip⟩ := Digits.strip_go_spec
    (digitCount (x.interval.search tie (magnitude x.interval.mid x.interval.den) 1 18).digits)
    (x.interval.search tie (magnitude x.interval.mid x.interval.den) 1 18).digits
    (x.interval.search tie (magnitude x.interval.mid x.interval.den) 1 18).exponent
  refine ⟨Dyadic.roundsTo_of_within hpos ?_, hstrip hne⟩
  have hsame : (shortest tie x).value =
      (x.interval.search tie (magnitude x.interval.mid x.interval.den) 1 18).value := hvalue
  rw [hsame]
  exact hwithin

end PageLoom.Decimal
