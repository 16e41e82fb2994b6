import PageLoom.Call.Eval

/-!
# What an expression mentions

An expression reads the context at its mentions: a name by itself, or a name with a chain of
attributes.  `Expr.mentions` lists them in the order of the text, those in the keys of fields and of
dictionaries among them.

A mention lacks its name, if the context does not have it, or else the first attribute of its
chain that is not there (`Mention.Lacks`).  Evaluation fails at the first mention that lacks
something, and only there (`eval_eq_error_iff`).
-/

namespace PageLoom

/-! ## Mentions -/

/-- A place where an expression reads the context. -/
structure Mention where
  /-- The name that is looked up. -/
  base : String
  /-- The attributes that are followed from its value. -/
  chain : List String

mutual
/-- What an expression mentions, from left to right. -/
def Expr.mentions : Expr → List Mention
  | .int _ => []
  | .float _ => []
  | .str _ => []
  | .name x => [⟨x, []⟩]
  | .list items => Expr.allMentions items
  | .tuple items => Expr.allMentions items
  | .dict pairs => Expr.pairMentions pairs
  | .attr base chain => [⟨base, chain⟩]
  | .field base keys => ⟨base, []⟩ :: Expr.allMentions keys

/-- What a list of expressions mentions. -/
def Expr.allMentions : List Expr → List Mention
  | [] => []
  | e :: es => e.mentions ++ Expr.allMentions es

/-- What a list of pairs mentions: each key before its value. -/
def Expr.pairMentions : List (Expr × Expr) → List Mention
  | [] => []
  | (k, v) :: ps => k.mentions ++ v.mentions ++ Expr.pairMentions ps
end

/-- What a call mentions. -/
def CallExpr.mentions (call : CallExpr) : List Mention :=
  call.params.flatMap fun p => p.2.mentions

/-- The value at the end of a chain of attributes. -/
def Value.attrs? (v : Value) (chain : List String) : Option Value :=
  chain.foldlM (fun w a => w.attr? a) v

/-- What is missing at a mention. -/
inductive Mention.Lacks (c : Context) : Mention → CallError → Prop
  /-- The context does not have the name. -/
  | name {base : String} {chain : List String} (hbase : c.get? base = none) :
      Lacks c ⟨base, chain⟩ (.variableNotFound base)
  /-- The attributes `found` are there, and the next one is not. -/
  | attr {base a : String} {found rest : List String} {v w : Value} (hbase : c.get? base = some v)
      (hfound : v.attrs? found = some w) (hmissing : w.attr? a = none) :
      Lacks c ⟨base, found ++ a :: rest⟩
        (.attributeNotFound (".".intercalate (base :: found)) a)

/-- The first of the mentions that lacks something lacks `err`. -/
def FirstLacks (c : Context) (ms : List Mention) (err : CallError) : Prop :=
  ∃ before m after, ms = before ++ m :: after ∧ (∀ b ∈ before, ∀ e, ¬ b.Lacks c e) ∧
    m.Lacks c err

/-! ## What a mention lacks -/

/-- The error of a result that is one. -/
def failureOf? {ε α : Type} : Except ε α → Option ε
  | .ok _ => none
  | .error e => some e

@[simp] theorem failureOf?_eq_some_iff {ε α : Type} {r : Except ε α} {e : ε} :
    failureOf? r = some e ↔ r = .error e := by
  cases r <;> simp [failureOf?]

@[simp] theorem failureOf?_eq_none_iff {ε α : Type} {r : Except ε α} :
    failureOf? r = none ↔ ∃ a, r = .ok a := by
  cases r <;> simp [failureOf?]

/-- The error at a mention. -/
def Mention.failure? (c : Context) (m : Mention) : Option CallError :=
  failureOf? ((Expr.attr m.base m.chain).eval c)

@[simp] theorem Value.attrs?_nil (v : Value) : v.attrs? [] = some v := rfl

@[simp] theorem Value.attrs?_cons (v : Value) (a : String) (chain : List String) :
    v.attrs? (a :: chain) = (v.attr? a).bind fun w => w.attrs? chain := rfl

/-- Attributes that are there are followed, and the path goes on with their names. -/
theorem followAttributes_append {path : String} {v w : Value} {found : List String}
    (h : v.attrs? found = some w) (rest : List String) :
    followAttributes path v (found ++ rest) =
      followAttributes (".".intercalate (path :: found)) w rest := by
  induction found generalizing path v with
  | nil =>
      cases h
      rfl
  | cons a found ih =>
      rw [Value.attrs?_cons] at h
      obtain ⟨u, ha, hu⟩ := Option.bind_eq_some_iff.mp h
      rw [List.cons_append, followAttributes, ha]
      exact ih hu

/-- A chain that does not end has a first attribute that is missing. -/
theorem Value.exists_missing {v : Value} {chain : List String} (h : v.attrs? chain = none) :
    ∃ found a rest w, chain = found ++ a :: rest ∧ v.attrs? found = some w ∧
      w.attr? a = none := by
  induction chain generalizing v with
  | nil => cases h
  | cons a chain ih =>
      cases ha : v.attr? a with
      | none => exact ⟨[], a, chain, v, rfl, rfl, ha⟩
      | some u =>
          rw [attrs?_cons, ha] at h
          obtain ⟨found, b, rest, w, rfl, hfound, hmissing⟩ := ih h
          exact ⟨a :: found, b, rest, w, rfl, by simp [ha, hfound], hmissing⟩

/-- A chain fails at its name if the context does not have it, whatever its attributes are. -/
theorem eval_attr_of_get?_eq_none {c : Context} {base : String} (hbase : c.get? base = none)
    (chain : List String) : (Expr.attr base chain).eval c = .error (.variableNotFound base) := by
  rw [Expr.eval, Context.lookup, hbase]

/-- A chain whose attributes are all there has the value at its end. -/
theorem eval_attr_of_found {c : Context} {base : String} {chain : List String} {v w : Value}
    (hbase : c.get? base = some v) (hfound : v.attrs? chain = some w) :
    (Expr.attr base chain).eval c = .ok w := by
  have hend := @followAttributes_append base v w chain hfound []
  rw [List.append_nil] at hend
  rw [Expr.eval, Context.lookup, hbase]
  exact hend

/-- A chain fails at its first missing attribute.  The error has the path up to there. -/
theorem eval_attr_of_missing {c : Context} {base a : String} {found : List String} {v w : Value}
    (hbase : c.get? base = some v) (hfound : v.attrs? found = some w)
    (hmissing : w.attr? a = none) (rest : List String) :
    (Expr.attr base (found ++ a :: rest)).eval c =
      .error (.attributeNotFound (".".intercalate (base :: found)) a) := by
  rw [Expr.eval, Context.lookup, hbase]
  dsimp only
  rw [followAttributes_append hfound, followAttributes, hmissing]

/-- The rules for what is missing agree with the evaluation of the mention by itself. -/
theorem Mention.lacks_iff {c : Context} {m : Mention} {err : CallError} :
    m.Lacks c err ↔ m.failure? c = some err := by
  rw [failure?, failureOf?_eq_some_iff]
  constructor
  · intro h
    cases h with
    | name hbase => exact eval_attr_of_get?_eq_none hbase _
    | attr hbase hfound hmissing => exact eval_attr_of_missing hbase hfound hmissing _
  · intro h
    obtain ⟨base, chain⟩ := m
    cases hbase : c.get? base with
    | none =>
        cases (eval_attr_of_get?_eq_none hbase chain).symm.trans h
        exact .name hbase
    | some v =>
        cases hend : v.attrs? chain with
        | some w => cases (eval_attr_of_found hbase hend).symm.trans h
        | none =>
            obtain ⟨found, a, rest, w, rfl, hfound, hmissing⟩ := v.exists_missing hend
            cases (eval_attr_of_missing hbase hfound hmissing rest).symm.trans h
            exact .attr hbase hfound hmissing

theorem Mention.failure?_eq_none_iff {c : Context} {m : Mention} :
    m.failure? c = none ↔ ∀ err, ¬ m.Lacks c err := by
  simp only [Mention.lacks_iff, Option.eq_none_iff_forall_ne_some]

/-- The first mention that lacks something is found by a search from the left. -/
theorem firstLacks_iff {c : Context} {ms : List Mention} {err : CallError} :
    FirstLacks c ms err ↔ ms.findSome? (Mention.failure? c) = some err := by
  rw [List.findSome?_eq_some_iff]
  constructor
  · rintro ⟨before, m, after, rfl, hbefore, hm⟩
    exact ⟨before, m, after, rfl, Mention.lacks_iff.mp hm,
      fun b hb => Mention.failure?_eq_none_iff.mpr (hbefore b hb)⟩
  · rintro ⟨before, m, after, rfl, hm, hbefore⟩
    exact ⟨before, m, after, rfl, fun b hb => Mention.failure?_eq_none_iff.mp (hbefore b hb),
      Mention.lacks_iff.mpr hm⟩

theorem findSome?_failure?_eq_none_iff {c : Context} {ms : List Mention} :
    ms.findSome? (Mention.failure? c) = none ↔ ∀ m ∈ ms, ∀ err, ¬ m.Lacks c err := by
  rw [List.findSome?_eq_none_iff]
  simp only [Mention.failure?_eq_none_iff]

/-! ## Evaluation reads from left to right -/

section

variable (c : Context)

mutual
/-- An expression fails as the first of its mentions that does.  The induction follows the
expression; what is evaluated first is mentioned first. -/
theorem failureOf?_eval (e : Expr) :
    failureOf? (e.eval c) = e.mentions.findSome? (Mention.failure? c) := by
  cases e with
  | int n => rfl
  | float x => rfl
  | str s => rfl
  | name x =>
      rw [Expr.eval, Expr.mentions, List.findSome?_cons, Mention.failure?, Expr.eval]
      cases c.lookup x <;> rfl
  | list items =>
      rw [Expr.eval, Expr.mentions, ← failureOf?_evalItems items]
      cases Expr.evalItems c items <;> rfl
  | tuple items =>
      rw [Expr.eval, Expr.mentions, ← failureOf?_evalItems items]
      cases Expr.evalItems c items <;> rfl
  | dict pairs =>
      rw [Expr.eval, Expr.mentions, ← failureOf?_evalPairs pairs]
      cases Expr.evalPairs c pairs <;> rfl
  | attr base chain =>
      rw [Expr.mentions, List.findSome?_cons, Mention.failure?]
      cases (Expr.attr base chain).eval c <;> rfl
  | field base keys =>
      rw [Expr.eval, Expr.mentions, List.findSome?_cons, Mention.failure?, Expr.eval]
      cases c.lookup base with
      | error err => rfl
      | ok v => exact failureOf?_followFields v keys

theorem failureOf?_evalItems (es : List Expr) :
    failureOf? (Expr.evalItems c es) =
      (Expr.allMentions es).findSome? (Mention.failure? c) := by
  cases es with
  | nil => rfl
  | cons e es =>
      rw [Expr.evalItems, Expr.allMentions, List.findSome?_append, ← failureOf?_eval e,
        ← failureOf?_evalItems es]
      cases e.eval c with
      | error err => rfl
      | ok v => cases Expr.evalItems c es <;> rfl

theorem failureOf?_evalPairs (ps : List (Expr × Expr)) :
    failureOf? (Expr.evalPairs c ps) =
      (Expr.pairMentions ps).findSome? (Mention.failure? c) := by
  cases ps with
  | nil => rfl
  | cons p ps =>
      obtain ⟨k, e⟩ := p
      rw [Expr.evalPairs, Expr.pairMentions, List.findSome?_append, List.findSome?_append,
        ← failureOf?_eval k, ← failureOf?_eval e, ← failureOf?_evalPairs ps]
      cases k.eval c with
      | error err => rfl
      | ok key =>
          cases e.eval c with
          | error err => rfl
          | ok v => cases Expr.evalPairs c ps <;> rfl

theorem failureOf?_followFields (v : Value) (keys : List Expr) :
    failureOf? (Expr.followFields c v keys) =
      (Expr.allMentions keys).findSome? (Mention.failure? c) := by
  cases keys with
  | nil => rfl
  | cons k ks =>
      rw [Expr.followFields, Expr.allMentions, List.findSome?_append, ← failureOf?_eval k]
      cases k.eval c with
      | error err => rfl
      | ok key => exact failureOf?_followFields _ ks
end

end

/-- Evaluation fails exactly at the first mention that lacks something. -/
theorem eval_eq_error_iff {c : Context} {e : Expr} {err : CallError} :
    e.eval c = .error err ↔ FirstLacks c e.mentions err := by
  rw [firstLacks_iff, ← failureOf?_eval, failureOf?_eq_some_iff]

/-- An expression has a value if nothing that it mentions lacks anything. -/
theorem exists_eval_eq_ok_iff {c : Context} {e : Expr} :
    (∃ v, e.eval c = .ok v) ↔ ∀ m ∈ e.mentions, ∀ err, ¬ m.Lacks c err := by
  rw [← failureOf?_eq_none_iff, failureOf?_eval, findSome?_failure?_eq_none_iff]

end PageLoom
