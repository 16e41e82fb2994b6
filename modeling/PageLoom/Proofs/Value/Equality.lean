import PageLoom.Value.Basic
import Mathlib.Tactic.Common

/-!
# Equality of values

Values are compared part by part, down to scalars and to the identities of host objects.  This is
symmetric and transitive (`Value.same_comm`, `Value.same_trans`), because the comparison of scalars
is.  It is not reflexive: NaN differs from itself, and so does a value that has one inside.

Doubles are equal if they stand for the same quantity (`float_beq_iff`), so a zero equals the zero
of the other sign.
-/

namespace PageLoom

open Float.Model

/-! ## Doubles -/

/-- What a double stands for. -/
inductive Quantity
  | infinite (sign : UnpackedFloat.Sign)
  | zero
  | finite (sign : UnpackedFloat.Sign) (mantissa : Nat) (exponent : Int)

/-- The quantity of a double.  NaN has none. -/
def Quantity.of? : UnpackedFloat → Option Quantity
  | .infinity s => some (.infinite s)
  | .notANumber => none
  | .zero _ => some .zero
  | .finite s m e _ => some (.finite s m e)

/-- Two floats compare equal when they stand for one quantity, which leaves out those that are not a
number. -/
theorem compare_eq_some_eq_iff (a b : UnpackedFloat) :
    a.compare b = some .eq ↔ ∃ q, Quantity.of? a = some q ∧ Quantity.of? b = some q := by
  cases a with
  | notANumber =>
      have hnone : UnpackedFloat.notANumber.compare b = none := by cases b <;> rfl
      have hquantity : Quantity.of? .notANumber = none := rfl
      simp [hnone, hquantity]
  | infinity s =>
      cases b with
      | infinity t =>
          dsimp only [UnpackedFloat.compare, Quantity.of?]
          cases s <;> cases t <;> simp [compare]
      | _ =>
          dsimp only [UnpackedFloat.compare, Quantity.of?]
          cases s <;> simp
  | zero s =>
      cases b with
      | infinity t =>
          dsimp only [UnpackedFloat.compare, Quantity.of?]
          cases t <;> simp
      | finite t =>
          dsimp only [UnpackedFloat.compare, Quantity.of?]
          cases t <;> simp
      | _ =>
          dsimp only [UnpackedFloat.compare, Quantity.of?]
          simp
  | finite s m e =>
      cases b with
      | infinity t =>
          dsimp only [UnpackedFloat.compare, Quantity.of?]
          cases t <;> simp
      | finite t m' e' =>
          have hparts : m' = m ∧ e' = e ↔ e = e' ∧ m = m' :=
            and_comm.trans (and_congr eq_comm eq_comm)
          dsimp only [UnpackedFloat.compare, Quantity.of?]
          cases s <;> cases t <;> simp [hparts]
      | _ =>
          dsimp only [UnpackedFloat.compare, Quantity.of?]
          cases s <;> simp

/-- Two doubles are equal if they stand for the same quantity. -/
theorem float_beq_iff {x y : Float} : (x == y) = true ↔
    ∃ q, Quantity.of? x.toModel.unpack = some q ∧ Quantity.of? y.toModel.unpack = some q := by
  have hbeq : (x == y) = (x.toModel.unpack.compare y.toModel.unpack == some .eq) := rfl
  rw [hbeq, beq_iff_eq, compare_eq_some_eq_iff]

theorem float_beq_comm (x y : Float) : (x == y) = (y == x) := by
  rw [Bool.eq_iff_iff, float_beq_iff, float_beq_iff]
  simp only [and_comm]

/-- Equality of floats is transitive though not reflexive: the floats that equal nothing do not come
into it. -/
theorem float_beq_trans {x y z : Float} (hxy : (x == y) = true) (hyz : (y == z) = true) :
    (x == z) = true := by
  obtain ⟨q, hx, hy⟩ := float_beq_iff.mp hxy
  obtain ⟨q', hy', hz⟩ := float_beq_iff.mp hyz
  rw [hy] at hy'
  cases hy'
  exact float_beq_iff.mpr ⟨q, hx, hz⟩

/-! ## Values -/

namespace Value

mutual

/-- Equality of values does not depend on the side a value stands on. -/
theorem same_comm : (a b : Value) → same a b = same b a
  | .null, b => by cases b <;> rfl
  | .bool x, b => by
      cases b with
      | bool y => exact BEq.comm
      | _ => rfl
  | .int x, b => by
      cases b with
      | int y => exact BEq.comm
      | _ => rfl
  | .float x, b => by
      cases b with
      | float y => exact float_beq_comm x y
      | _ => rfl
  | .str x, b => by
      cases b with
      | str y => exact BEq.comm
      | _ => rfl
  | .list xs, b => by
      cases b with
      | list ys => exact sameItems_comm xs ys
      | _ => rfl
  | .tuple xs, b => by
      cases b with
      | tuple ys => exact sameItems_comm xs ys
      | _ => rfl
  | .dict xs, b => by
      cases b with
      | dict ys => exact sameEntries_comm xs ys
      | _ => rfl
  | .host i _ _ _, b => by
      cases b with
      | host j => exact BEq.comm
      | _ => rfl

theorem sameItems_comm : (as bs : List Value) → sameItems as bs = sameItems bs as
  | [], bs => by cases bs <;> rfl
  | a :: as, bs => by
      cases bs with
      | nil => rfl
      | cons b bs => rw [sameItems, sameItems, same_comm a b, sameItems_comm as bs]

theorem sameEntries_comm : (as bs : List (Value × Value)) → sameEntries as bs = sameEntries bs as
  | [], bs => by cases bs <;> rfl
  | (k, a) :: as, bs => by
      cases bs with
      | nil => rfl
      | cons e bs =>
          obtain ⟨l, b⟩ := e
          rw [sameEntries, sameEntries, same_comm k l, same_comm a b, sameEntries_comm as bs]

end

mutual

/-- Equality of values is transitive, also through lists and dictionaries, by the recursion of the
comparison. -/
theorem same_trans : (a : Value) → {b c : Value} → same a b = true → same b c = true →
    same a c = true
  | .null, b, c, hab, hbc => by
      cases b with
      | null => exact hbc
      | _ => cases hab
  | .bool x, b, c, hab, hbc => by
      cases b with
      | bool y => exact beq_iff_eq.mp hab ▸ hbc
      | _ => cases hab
  | .int x, b, c, hab, hbc => by
      cases b with
      | int y => exact beq_iff_eq.mp hab ▸ hbc
      | _ => cases hab
  | .float x, b, c, hab, hbc => by
      cases b with
      | float y =>
          cases c with
          | float z => exact float_beq_trans hab hbc
          | _ => cases hbc
      | _ => cases hab
  | .str x, b, c, hab, hbc => by
      cases b with
      | str y => exact beq_iff_eq.mp hab ▸ hbc
      | _ => cases hab
  | .list xs, b, c, hab, hbc => by
      cases b with
      | list ys =>
          cases c with
          | list zs => exact sameItems_trans xs hab hbc
          | _ => cases hbc
      | _ => cases hab
  | .tuple xs, b, c, hab, hbc => by
      cases b with
      | tuple ys =>
          cases c with
          | tuple zs => exact sameItems_trans xs hab hbc
          | _ => cases hbc
      | _ => cases hab
  | .dict xs, b, c, hab, hbc => by
      cases b with
      | dict ys =>
          cases c with
          | dict zs => exact sameEntries_trans xs hab hbc
          | _ => cases hbc
      | _ => cases hab
  | .host i _ _ _, b, c, hab, hbc => by
      cases b with
      | host j =>
          cases c with
          | host k =>
              rw [same, beq_iff_eq] at hab hbc ⊢
              exact hab.trans hbc
          | _ => cases hbc
      | _ => cases hab

theorem sameItems_trans : (as : List Value) → {bs cs : List Value} →
    sameItems as bs = true → sameItems bs cs = true → sameItems as cs = true
  | [], bs, cs, hab, hbc => by
      cases bs with
      | nil => exact hbc
      | cons b bs => cases hab
  | a :: as, bs, cs, hab, hbc => by
      cases bs with
      | nil => cases hab
      | cons b bs =>
          cases cs with
          | nil => cases hbc
          | cons c cs =>
              rw [sameItems, Bool.and_eq_true] at hab hbc ⊢
              exact ⟨same_trans a hab.1 hbc.1, sameItems_trans as hab.2 hbc.2⟩

theorem sameEntries_trans : (as : List (Value × Value)) → {bs cs : List (Value × Value)} →
    sameEntries as bs = true → sameEntries bs cs = true → sameEntries as cs = true
  | [], bs, cs, hab, hbc => by
      cases bs with
      | nil => exact hbc
      | cons e bs => cases hab
  | (k, a) :: as, bs, cs, hab, hbc => by
      cases bs with
      | nil => cases hab
      | cons e bs =>
          obtain ⟨l, b⟩ := e
          cases cs with
          | nil => cases hbc
          | cons e cs =>
              obtain ⟨m, c⟩ := e
              rw [sameEntries, Bool.and_eq_true, Bool.and_eq_true] at hab hbc ⊢
              exact ⟨⟨same_trans k hab.1.1 hbc.1.1, same_trans a hab.1.2 hbc.1.2⟩,
                sameEntries_trans as hab.2 hbc.2⟩

end

/-- Equal values are equal to the same values. -/
theorem same_congr {a b : Value} (h : same a b = true) (c : Value) : same a c = same b c := by
  rw [Bool.eq_iff_iff]
  constructor
  · intro hac
    rw [same_comm] at h
    exact same_trans b h hac
  · intro hbc
    exact same_trans a h hbc

end Value

end PageLoom
