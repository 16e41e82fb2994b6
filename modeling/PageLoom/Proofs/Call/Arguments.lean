import PageLoom.Call.Arguments
import PageLoom.Proofs.Outcomes

/-!
# What arguments hold

Each way to read an argument has two lemmas: when it gives a value, and when it gives which error.
An argument that may be missing is an error only if it is there and has the wrong type.
-/

namespace PageLoom

namespace Arguments

variable {args : Arguments} {name : String} {shape : ArgumentShape} {α : Type}
  {f : Value → Option α}
  {v : Value} {e : FunctionError}

/-! ## One value -/

theorem view_eq_ok_iff {a : α} : view name shape f v = .ok a ↔ f v = some a := by
  rw [view]
  cases f v <;> simp

/-- A value is refused only for its shape, and the error says which shape it has instead. -/
theorem view_eq_error_iff :
    view name shape f v = .error e ↔ f v = none ∧ e = .mismatch name shape v.type := by
  rw [view]
  cases f v <;> simp [eq_comm]

theorem require_eq_ok_iff : args.require name = .ok v ↔ args.get? name = some v := by
  rw [require]
  cases args.get? name <;> simp

/-- A required argument fails in one way, by not being there. -/
theorem require_eq_error_iff :
    args.require name = .error e ↔ args.get? name = none ∧ e = .missing name := by
  rw [require]
  cases args.get? name <;> simp [eq_comm]

/-- An optional argument may be missing, but one that is there must have the right shape. -/
theorem optional_eq_ok_iff {o : Option α} : args.optional name shape f = .ok o ↔
    (args.get? name = none ∧ o = none) ∨ ∃ v a, args.get? name = some v ∧ f v = some a ∧
      o = some a := by
  rw [optional]
  cases args.get? name with
  | none => simp [eq_comm]
  | some v =>
      simp only [view]
      cases hf : f v <;> simp [Except.map, eq_comm, hf]

theorem optional_eq_error_iff : args.optional name shape f = .error e ↔
    ∃ v, args.get? name = some v ∧ f v = none ∧ e = .mismatch name shape v.type := by
  rw [optional]
  cases args.get? name with
  | none => simp
  | some v =>
      simp only [view]
      cases hf : f v <;> simp [Except.map, eq_comm, hf]

/-- Whether an argument can be seen as something if it is there. -/
def Fits (args : Arguments) (name : String) (f : Value → Option α) : Prop :=
  ∀ v, args.get? name = some v → (f v).isSome

/-- An argument fits if reading it is no error. -/
theorem fits_iff {β : Type} {x : Except FunctionError β} (h : ∀ e, x = .error e ↔
      ∃ v, args.get? name = some v ∧ f v = none ∧ e = .mismatch name shape v.type) :
    Fits args name f ↔ ∃ b, x = .ok b := by
  simp only [exists_ok_iff, Ne, h, Fits, Option.isSome_iff_ne_none]
  constructor
  · rintro hfits e ⟨v, hv, hnone, -⟩
    exact hfits v hv hnone
  · intro hfits v hv hnone
    exact hfits _ ⟨v, hv, hnone, rfl⟩

theorem string?_eq_some_iff {s : String} : v.string? = some s ↔ v = .str s := by
  cases v <;> simp [Value.string?]

/-- A string that may be missing. -/
theorem string?_eq_ok_iff {o : Option String} :
    args.string? name = .ok o ↔ args.get? name = o.map Value.str := by
  rw [string?, optional_eq_ok_iff]
  cases o <;> simp [string?_eq_some_iff]

/-! ## Items -/

theorem items_eq_ok_iff {vs : List Value} :
    args.items name = .ok vs ↔ ∃ v, args.get? name = some v ∧ v.items? = some vs := by
  rw [items, bind_eq_ok_iff]
  simp only [require_eq_ok_iff, view_eq_ok_iff]

/-- A list is refused for being missing before it is refused for its shape. -/
theorem items_eq_error_iff : args.items name = .error e ↔
    (args.get? name = none ∧ e = .missing name) ∨
      ∃ v, args.get? name = some v ∧ v.items? = none ∧ e = .mismatch name .list v.type := by
  rw [items, bind_eq_error_iff]
  simp only [require_eq_ok_iff, require_eq_error_iff, view_eq_error_iff]

/-- Numbers are read entry by entry, integers and floats alike. -/
theorem numbers_eq_ok_iff {ys : List Float} : args.numbers name = .ok ys ↔
    ∃ v vs, args.get? name = some v ∧ v.items? = some vs ∧
      List.Forall₂ (fun v y => v.number? = some y) vs ys := by
  rw [numbers, bind_eq_ok_iff]
  simp only [items_eq_ok_iff, mapM_eq_ok_iff, view_eq_ok_iff]
  constructor
  · rintro ⟨vs, ⟨v, hv, hvs⟩, hys⟩
    exact ⟨v, vs, hv, hvs, hys⟩
  · rintro ⟨v, vs, hv, hvs, hys⟩
    exact ⟨vs, ⟨v, hv, hvs⟩, hys⟩

/-- Labels never fail on an entry, since every value has a text. -/
theorem labels_eq_ok_iff {ls : List String} : args.labels name = .ok ls ↔
    ∃ v vs, args.get? name = some v ∧ v.items? = some vs ∧ ls = vs.map Value.text := by
  rw [labels, bind_eq_ok_iff]
  simp only [items_eq_ok_iff, pure, Except.pure, Except.ok.injEq]
  constructor
  · rintro ⟨vs, ⟨v, hv, hvs⟩, rfl⟩
    exact ⟨v, vs, hv, hvs, rfl⟩
  · rintro ⟨v, vs, hv, hvs, rfl⟩
    exact ⟨vs, ⟨v, hv, hvs⟩, rfl⟩

end Arguments

end PageLoom
