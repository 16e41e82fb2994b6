import PageLoom.Proofs.Call.Values
import PageLoom.Proofs.NameMap

/-!
# The rule of evaluation

A call is evaluated strictly and from left to right: it fails at the first mention of its text
that lacks something, whatever becomes of the parameter that the mention is in, and else each name
has the value of its last parameter (`call_evaluates_strictly`).

Fields are the exception.  A key that selects nothing gives null, and the chain goes on from there.
All keys are evaluated nevertheless, so a chain of fields fails where one of its keys does.
-/

namespace PageLoom

/-! ## Parameters -/

theorem failureOf?_evalParams (c : Context) (ps : List (String × Expr)) :
    failureOf? (evalParams c ps) =
      (ps.flatMap fun p => p.2.mentions).findSome? (Mention.failure? c) := by
  induction ps with
  | nil => rfl
  | cons p ps ih =>
      obtain ⟨name, e⟩ := p
      rw [evalParams, List.flatMap_cons, List.findSome?_append, ← failureOf?_eval, ← ih]
      cases e.eval c with
      | error err => rfl
      | ok v => cases evalParams c ps <;> rfl

/-- A parameter and the argument that it gives. -/
structure Gives (c : Context) (p : String × Expr) (a : String × Value) : Prop where
  name : a.1 = p.1
  value : p.2.eval c = .ok a.2

/-- Each parameter gives one argument under its own name, in the order they are written in. -/
theorem gives_of_evalParams {c : Context} {ps : List (String × Expr)}
    {args : List (String × Value)} (h : evalParams c ps = .ok args) :
    List.Forall₂ (Gives c) ps args := by
  induction ps generalizing args with
  | nil =>
      cases h
      exact .nil
  | cons p ps ih =>
      obtain ⟨name, e⟩ := p
      rw [evalParams] at h
      split at h
      next => cases h
      next v hv =>
        split at h
        next => cases h
        next rest hrest =>
          cases h
          exact .cons ⟨rfl, hv⟩ (ih hrest)

theorem forall_name_ne_of_gives {c : Context} {ps : List (String × Expr)}
    {args : List (String × Value)} (h : List.Forall₂ (Gives c) ps args) {name : String} :
    (∀ a ∈ args, a.1 ≠ name) ↔ ∀ p ∈ ps, p.1 ≠ name := by
  induction h with
  | nil => simp
  | cons hgives _ ih => rw [List.forall_mem_cons, List.forall_mem_cons, hgives.name, ih]

/-- The last argument of a name is the value of its last parameter. -/
theorem isLastOf_of_gives {c : Context} {ps : List (String × Expr)} {args : List (String × Value)}
    (h : List.Forall₂ (Gives c) ps args) {name : String} {v : Value} :
    IsLastOf name v args ↔ ∃ e, IsLastOf name e ps ∧ e.eval c = .ok v := by
  induction h with
  | nil => simp [not_isLastOf_nil]
  | @cons p a ps args hgives hrest ih =>
      obtain ⟨n, e⟩ := p
      obtain ⟨n', w⟩ := a
      obtain ⟨rfl, hvalue⟩ := hgives
      simp only [isLastOf_cons, ih, forall_name_ne_of_gives hrest]
      constructor
      · rintro (⟨e', hlast, he'⟩ | ⟨hnone, rfl, rfl⟩)
        · exact ⟨e', .inl hlast, he'⟩
        · exact ⟨e, .inr ⟨hnone, rfl, rfl⟩, hvalue⟩
      · rintro ⟨e', hlast | ⟨hnone, rfl, rfl⟩, he'⟩
        · exact .inl ⟨e', hlast, he'⟩
        · exact .inr ⟨hnone, rfl, Except.ok.inj (hvalue.symm.trans he')⟩

theorem CallExpr.failureOf?_eval (c : Context) (call : CallExpr) :
    failureOf? (call.eval c) = call.mentions.findSome? (Mention.failure? c) := by
  rw [CallExpr.eval, CallExpr.mentions, ← failureOf?_evalParams]
  cases evalParams c call.params <;> rfl

/-- A call fails exactly when some mention lacks its value, with the error of the leftmost one. -/
theorem CallExpr.eval_eq_error_iff {c : Context} {call : CallExpr} {err : CallError} :
    call.eval c = .error err ↔ FirstLacks c call.mentions err := by
  rw [firstLacks_iff, ← failureOf?_eval, failureOf?_eq_some_iff]

/-- What a call that has a value is made of. -/
theorem CallExpr.exists_of_eval_eq_ok {c : Context} {call : CallExpr} {made : Call}
    (h : call.eval c = .ok made) :
    ∃ args, evalParams c call.params = .ok args ∧ made = ⟨call.function, NameMap.ofList args⟩ := by
  rw [eval] at h
  split at h
  next => cases h
  next args hargs =>
    cases h
    exact ⟨args, hargs, rfl⟩

/-! ## Fields -/

/-- The items that keys select from a list or a tuple: an integer counts from the front, or from the
back if it is negative, and nothing else selects an item. -/
structure SelectsItems (items : List Value) (v : Value) : Prop where
  front : ∀ (i : Int64) (k : Nat) (h : k < items.length), i.toInt = k →
    v.fieldOrNull (.int i) = items[k]
  back : ∀ (i : Int64) (k : Nat) (h : k < items.length), i.toInt = (k : Int) - items.length →
    v.fieldOrNull (.int i) = items[k]
  outside : ∀ i : Int64, i.toInt < -(items.length : Int) ∨ items.length ≤ i.toInt →
    v.fieldOrNull (.int i) = .null
  /-- What has a length among the integers does not reach back to the least of them. -/
  least : items.length ≤ Int64.maxValue.toInt → v.fieldOrNull (.int .minValue) = .null
  other : ∀ key, (∀ i, key ≠ .int i) → v.fieldOrNull key = .null

/-- A position that is not negative counts from the front. -/
theorem itemAt?_of_front {items : List Value} {i : Int64} {k : Nat} (h : k < items.length)
    (hi : i.toInt = k) : Value.itemAt? items i = some items[k] := by
  have hnonneg : ¬ i.toInt < 0 := by omega
  have hk : i.toInt.toNat = k := by omega
  simp [Value.itemAt?, hnonneg, hk, h]

/-- A negative position counts from the end, `-1` being the last item. -/
theorem itemAt?_of_back {items : List Value} {i : Int64} {k : Nat} (h : k < items.length)
    (hi : i.toInt = (k : Int) - items.length) : Value.itemAt? items i = some items[k] := by
  have hneg : i.toInt < 0 := by omega
  have hle : i.toInt.natAbs ≤ items.length := by omega
  have hk : items.length - i.toInt.natAbs = k := by omega
  simp [Value.itemAt?, hneg, hle, hk, h]

/-- A position outside the list on either side gives nothing. -/
theorem itemAt?_of_outside {items : List Value} {i : Int64}
    (hi : i.toInt < -(items.length : Int) ∨ items.length ≤ i.toInt) :
    Value.itemAt? items i = none := by
  rw [Value.itemAt?]
  rcases hi with hi | hi
  · rw [if_pos (by omega), if_neg (by omega)]
  · rw [if_neg (by omega), List.getElem?_eq_none (by omega)]

theorem selectsItems {items : List Value} {v : Value} (h : v = .list items ∨ v = .tuple items) :
    SelectsItems items v := by
  have hint : ∀ i, v.field? (.int i) = Value.itemAt? items i := by
    rcases h with rfl | rfl <;> exact fun _ => rfl
  have houtside : ∀ i : Int64, i.toInt < -(items.length : Int) ∨ items.length ≤ i.toInt →
      v.fieldOrNull (.int i) = .null := by
    intro i hi
    rw [Value.fieldOrNull, hint, itemAt?_of_outside hi, Option.getD_none]
  constructor
  case front =>
    intro i k hk hi
    rw [Value.fieldOrNull, hint, itemAt?_of_front hk hi, Option.getD_some]
  case back =>
    intro i k hk hi
    rw [Value.fieldOrNull, hint, itemAt?_of_back hk hi, Option.getD_some]
  case outside => exact houtside
  case least =>
    intro hlength
    have hleast : Int64.minValue.toInt = -Int64.maxValue.toInt - 1 := rfl
    exact houtside _ (.inl (by omega))
  case other =>
    intro key hkey
    cases key with
    | int i => exact absurd rfl (hkey i)
    | _ => rcases h with rfl | rfl <;> rfl

/-! ## Calls -/

/-- What is said of the evaluation of a call in a context. -/
structure EvaluatesStrictly (c : Context) (call : CallExpr) : Prop where
  /-- It fails at the first mention that lacks something. -/
  fails_iff : ∀ err, call.eval c = .error err ↔ FirstLacks c call.mentions err
  /-- Nothing but a name or an attribute can be missing. -/
  missing : ∀ err, call.eval c = .error err →
    (∃ name, err = .variableNotFound name) ∨ ∃ path attr, err = .attributeNotFound path attr
  succeeds_iff : (∃ made, call.eval c = .ok made) ↔
    ∀ m ∈ call.mentions, ∀ err, ¬ m.Lacks c err
  function : ∀ made, call.eval c = .ok made → made.function = call.function
  /-- A name has the value of its last parameter, and no other name has one. -/
  bound : ∀ made, call.eval c = .ok made → ∀ name v, made.arguments.get? name = some v ↔
    ∃ e, IsLastOf name e call.params ∧ e.eval c = .ok v

/-- Evaluation is strict in every mention of the context and lenient behind it. -/
theorem evaluatesStrictly (c : Context) (call : CallExpr) : EvaluatesStrictly c call where
  fails_iff _ := CallExpr.eval_eq_error_iff
  missing err h := by
    obtain ⟨before, m, after, -, -, hlacks⟩ := CallExpr.eval_eq_error_iff.mp h
    cases hlacks with
    | name hbase => exact .inl ⟨_, rfl⟩
    | attr hbase hfound hmissing => exact .inr ⟨_, _, rfl⟩
  succeeds_iff := by
    rw [← failureOf?_eq_none_iff, CallExpr.failureOf?_eval, findSome?_failure?_eq_none_iff]
  function made h := by
    obtain ⟨args, -, rfl⟩ := CallExpr.exists_of_eval_eq_ok h
    rfl
  bound made h name v := by
    obtain ⟨args, hargs, rfl⟩ := CallExpr.exists_of_eval_eq_ok h
    exact NameMap.get?_ofList_eq_some_iff.trans (isLastOf_of_gives (gives_of_evalParams hargs))

/-- Calls are evaluated strictly and from left to right, and chains of fields leniently: what is not
there is null, and the keys that follow are evaluated all the same. -/
theorem call_evaluates_strictly (c : Context) : (∀ call, EvaluatesStrictly c call) ∧
    (∀ base keys w, (Expr.field base keys).eval c = .ok w ↔
      ∃ v ks, c.get? base = some v ∧ List.Forall₂ (fun key k => key.eval c = .ok k) keys ks ∧
        ks.foldl Value.fieldOrNull v = w) ∧
    ∀ items v, v = .list items ∨ v = .tuple items → SelectsItems items v :=
  ⟨evaluatesStrictly c, fun _ _ _ => eval_field_eq_ok_iff, fun _ _ => selectsItems⟩

/-- The second key of a chain is missing in the context, and the first one in the value. -/
example : (CallExpr.mk "f" [("a", .field "x" [.str "no", .name "q"]), ("b", .name "r")]).eval
    (NameMap.ofList [("x", .dict [])]) = .error (.variableNotFound "q") := by rfl

end PageLoom
