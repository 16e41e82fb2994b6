import PageLoom.Proofs.Call.Mentions
import PageLoom.Proofs.Outcomes
import Mathlib.Data.List.Forall2

/-!
# The value of an expression

A literal stands for itself, and a name for what the context has of it.  Lists, tuples and
dictionaries are made of the values of their parts.  A chain of attributes goes from a name to what
stands at its end, and a chain of fields from a name through the values of its keys, or through null
where a key selects nothing (`Expr.HasValue`).

Evaluation gives an expression this value and no other one (`eval_eq_ok_iff`).  Where there is none,
it tells the first mention that lacks something (`eval_eq_error_iff`).
-/

namespace PageLoom

/-- The field of a value, or null. -/
def Value.fieldOrNull (v key : Value) : Value := (v.field? key).getD .null

/-- The value of an expression in a context: one rule for each form of an expression. -/
inductive Expr.HasValue (c : Context) : Expr → Value → Prop
  | int (n : Int64) : HasValue c (.int n) (.int n)
  | float (x : Float) : HasValue c (.float x) (.float x)
  | str (s : String) : HasValue c (.str s) (.str s)
  | name {x : String} {v : Value} (h : c.get? x = some v) : HasValue c (.name x) v
  | list {items : List Expr} {vs : List Value} (h : List.Forall₂ (HasValue c) items vs) :
      HasValue c (.list items) (.list vs)
  | tuple {items : List Expr} {vs : List Value} (h : List.Forall₂ (HasValue c) items vs) :
      HasValue c (.tuple items) (.tuple vs)
  /-- Of several entries with one key the last one counts. -/
  | dict {pairs : List (Expr × Expr)} {entries : List (Value × Value)}
      (hkeys : List.Forall₂ (HasValue c) (pairs.map Prod.fst) (entries.map Prod.fst))
      (hvalues : List.Forall₂ (HasValue c) (pairs.map Prod.snd) (entries.map Prod.snd)) :
      HasValue c (.dict pairs) (.dict (Dict.ofList entries))
  | attr {base : String} {chain : List String} {v w : Value} (hbase : c.get? base = some v)
      (hchain : v.attrs? chain = some w) : HasValue c (.attr base chain) w
  | field {base : String} {keys : List Expr} {v : Value} {ks : List Value}
      (hbase : c.get? base = some v) (hkeys : List.Forall₂ (HasValue c) keys ks) :
      HasValue c (.field base keys) (ks.foldl Value.fieldOrNull v)

section

variable {c : Context}

/-! ## Many expressions -/

theorem evalItems_eq_mapM (es : List Expr) : Expr.evalItems c es = es.mapM (Expr.eval c) := by
  induction es with
  | nil => rfl
  | cons e es ih =>
      rw [Expr.evalItems, List.mapM_cons, ← ih]
      cases e.eval c with
      | error err => rfl
      | ok v => cases Expr.evalItems c es <;> rfl

/-- A run of items has a value for each of them, or none at all. -/
theorem evalItems_eq_ok_iff {es : List Expr} {vs : List Value} :
    Expr.evalItems c es = .ok vs ↔ List.Forall₂ (fun e v => e.eval c = .ok v) es vs := by
  rw [evalItems_eq_mapM, mapM_eq_ok_iff]

theorem evalPairs_eq_mapM (ps : List (Expr × Expr)) : Expr.evalPairs c ps =
    ps.mapM fun p => do return (← p.1.eval c, ← p.2.eval c) := by
  induction ps with
  | nil => rfl
  | cons p ps ih =>
      obtain ⟨k, e⟩ := p
      rw [Expr.evalPairs, List.mapM_cons, ← ih]
      cases k.eval c with
      | error err => rfl
      | ok key =>
          cases e.eval c with
          | error err => rfl
          | ok v => cases Expr.evalPairs c ps <;> rfl

/-- A run of entries has a value for each key and each value, or none at all. -/
theorem evalPairs_eq_ok_iff {ps : List (Expr × Expr)} {qs : List (Value × Value)} :
    Expr.evalPairs c ps = .ok qs ↔
      List.Forall₂ (fun p q => p.1.eval c = .ok q.1 ∧ p.2.eval c = .ok q.2) ps qs := by
  have hpair : ∀ (p : Expr × Expr) (q : Value × Value),
      (do return (← p.1.eval c, ← p.2.eval c)) = Except.ok q ↔
        p.1.eval c = .ok q.1 ∧ p.2.eval c = .ok q.2 := by
    intro p q
    cases p.1.eval c with
    | error err => simp [bind, Except.bind]
    | ok key =>
        cases p.2.eval c with
        | error err => simp [bind, Except.bind]
        | ok v => simp [bind, Except.bind, pure, Except.pure, Prod.ext_iff]
  rw [evalPairs_eq_mapM, mapM_eq_ok_iff]
  simp only [hpair]

/-- All keys of a chain are evaluated, and each selects a field of what is there. -/
theorem followFields_eq_ok_iff {v w : Value} {keys : List Expr} :
    Expr.followFields c v keys = .ok w ↔
      ∃ ks, List.Forall₂ (fun key k => key.eval c = .ok k) keys ks ∧
        ks.foldl Value.fieldOrNull v = w := by
  induction keys generalizing v with
  | nil => simp [Expr.followFields]
  | cons key keys ih =>
      rw [Expr.followFields]
      constructor
      · intro h
        split at h
        next => cases h
        next k hk =>
          obtain ⟨ks, hks, hw⟩ := ih.mp h
          exact ⟨k :: ks, .cons hk hks, hw⟩
      · rintro ⟨ks, hks, hw⟩
        cases hks with
        | cons hk hks =>
            rw [hk]
            exact ih.mpr ⟨_, hks, hw⟩

/-! ## One expression -/

/-- A name has the value that the context gives it. -/
theorem eval_name_eq_ok_iff {x : String} {v : Value} :
    (Expr.name x).eval c = .ok v ↔ c.get? x = some v := by
  rw [Expr.eval, Context.lookup]
  cases c.get? x <;> simp

/-- A list has the list of the values of its items, in their order. -/
theorem eval_list_eq_ok_iff {items : List Expr} {v : Value} :
    (Expr.list items).eval c = .ok v ↔
      ∃ vs, List.Forall₂ (fun e v => e.eval c = .ok v) items vs ∧ v = .list vs := by
  simp only [← evalItems_eq_ok_iff, Expr.eval]
  cases Expr.evalItems c items <;> simp [eq_comm]

theorem eval_tuple_eq_ok_iff {items : List Expr} {v : Value} :
    (Expr.tuple items).eval c = .ok v ↔
      ∃ vs, List.Forall₂ (fun e v => e.eval c = .ok v) items vs ∧ v = .tuple vs := by
  simp only [← evalItems_eq_ok_iff, Expr.eval]
  cases Expr.evalItems c items <;> simp [eq_comm]

/-- A dictionary has the entries of its values, a later one overwriting an earlier one of the same
key. -/
theorem eval_dict_eq_ok_iff {pairs : List (Expr × Expr)} {v : Value} :
    (Expr.dict pairs).eval c = .ok v ↔ ∃ entries,
      List.Forall₂ (fun p q => p.1.eval c = .ok q.1 ∧ p.2.eval c = .ok q.2) pairs entries ∧
        v = .dict (Dict.ofList entries) := by
  simp only [← evalPairs_eq_ok_iff, Expr.eval]
  cases Expr.evalPairs c pairs <;> simp [eq_comm]

/-- A chain of attributes leads from the value of its first name to its own, or it has none. -/
theorem eval_attr_eq_ok_iff {base : String} {chain : List String} {w : Value} :
    (Expr.attr base chain).eval c = .ok w ↔
      ∃ v, c.get? base = some v ∧ v.attrs? chain = some w := by
  constructor
  · intro h
    cases hbase : c.get? base with
    | none => cases (eval_attr_of_get?_eq_none hbase chain).symm.trans h
    | some v =>
        cases hend : v.attrs? chain with
        | some u =>
            cases (eval_attr_of_found hbase hend).symm.trans h
            exact ⟨v, rfl, hend⟩
        | none =>
            obtain ⟨found, a, rest, u, rfl, hfound, hmissing⟩ := v.exists_missing hend
            cases (eval_attr_of_missing hbase hfound hmissing rest).symm.trans h
  · rintro ⟨v, hbase, hend⟩
    exact eval_attr_of_found hbase hend

/-- A field access needs its base and every key, but what is not found behind the base is null. -/
theorem eval_field_eq_ok_iff {base : String} {keys : List Expr} {w : Value} :
    (Expr.field base keys).eval c = .ok w ↔
      ∃ v ks, c.get? base = some v ∧ List.Forall₂ (fun key k => key.eval c = .ok k) keys ks ∧
        ks.foldl Value.fieldOrNull v = w := by
  rw [Expr.eval, Context.lookup]
  cases c.get? base with
  | none => simp
  | some v => simpa using followFields_eq_ok_iff

/-! ## Evaluation and the rules -/

mutual
/-- Evaluation gives an expression the value that it has by the rules. -/
theorem eval_eq_ok_iff (e : Expr) {v : Value} : e.eval c = .ok v ↔ Expr.HasValue c e v := by
  cases e with
  | int n =>
      constructor
      · rintro ⟨⟩
        exact .int n
      · rintro ⟨⟩
        rfl
  | float x =>
      constructor
      · rintro ⟨⟩
        exact .float x
      · rintro ⟨⟩
        rfl
  | str s =>
      constructor
      · rintro ⟨⟩
        exact .str s
      · rintro ⟨⟩
        rfl
  | name x =>
      rw [eval_name_eq_ok_iff]
      constructor
      · exact .name
      · rintro ⟨⟩
        assumption
  | list items =>
      rw [eval_list_eq_ok_iff]
      constructor
      · rintro ⟨vs, hvs, rfl⟩
        exact .list ((forall_eval_eq_ok_iff items).mp hvs)
      · rintro ⟨⟩
        exact ⟨_, (forall_eval_eq_ok_iff items).mpr ‹_›, rfl⟩
  | tuple items =>
      rw [eval_tuple_eq_ok_iff]
      constructor
      · rintro ⟨vs, hvs, rfl⟩
        exact .tuple ((forall_eval_eq_ok_iff items).mp hvs)
      · rintro ⟨⟩
        exact ⟨_, (forall_eval_eq_ok_iff items).mpr ‹_›, rfl⟩
  | dict pairs =>
      rw [eval_dict_eq_ok_iff]
      constructor
      · rintro ⟨entries, hentries, rfl⟩
        obtain ⟨hkeys, hvalues⟩ := (forall_pair_eq_ok_iff pairs).mp hentries
        exact .dict hkeys hvalues
      · rintro ⟨⟩
        exact ⟨_, (forall_pair_eq_ok_iff pairs).mpr ⟨‹_›, ‹_›⟩, rfl⟩
  | attr base chain =>
      rw [eval_attr_eq_ok_iff]
      constructor
      · rintro ⟨v, hbase, hchain⟩
        exact .attr hbase hchain
      · rintro ⟨⟩
        exact ⟨_, ‹_›, ‹_›⟩
  | field base keys =>
      rw [eval_field_eq_ok_iff]
      constructor
      · rintro ⟨v, ks, hbase, hks, rfl⟩
        exact .field hbase ((forall_eval_eq_ok_iff keys).mp hks)
      · rintro ⟨⟩
        exact ⟨_, _, ‹_›, (forall_eval_eq_ok_iff keys).mpr ‹_›, rfl⟩

theorem forall_eval_eq_ok_iff (es : List Expr) {vs : List Value} :
    List.Forall₂ (fun e v => e.eval c = .ok v) es vs ↔ List.Forall₂ (Expr.HasValue c) es vs := by
  cases es with
  | nil => rw [List.forall₂_nil_left_iff, List.forall₂_nil_left_iff]
  | cons e es =>
      simp only [List.forall₂_cons_left_iff, eval_eq_ok_iff e, forall_eval_eq_ok_iff es]

theorem forall_pair_eq_ok_iff (ps : List (Expr × Expr)) {qs : List (Value × Value)} :
    List.Forall₂ (fun p q => p.1.eval c = .ok q.1 ∧ p.2.eval c = .ok q.2) ps qs ↔
      List.Forall₂ (Expr.HasValue c) (ps.map Prod.fst) (qs.map Prod.fst) ∧
        List.Forall₂ (Expr.HasValue c) (ps.map Prod.snd) (qs.map Prod.snd) := by
  cases ps with
  | nil => cases qs <;> simp
  | cons p ps =>
      obtain ⟨k, e⟩ := p
      cases qs with
      | nil => simp
      | cons q qs =>
          simp only [List.map_cons, List.forall₂_cons, eval_eq_ok_iff k, eval_eq_ok_iff e,
            forall_pair_eq_ok_iff ps, and_and_and_comm]
end

end

end PageLoom
