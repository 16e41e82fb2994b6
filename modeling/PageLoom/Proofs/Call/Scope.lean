import PageLoom.Proofs.Call.Mentions

/-!
# What evaluation sees

Evaluation sees a context only through the names that the expression mentions.  Contexts that agree
on them give the same value or the same error (`eval_congr`), so a value stays what it is in a
context with more names.

An expression without names is a literal.  It has the same value in every context, and in the empty
one nothing else has a value: every other expression lacks its leftmost name there
(`eval_sees_names_only`).
-/

namespace PageLoom

/-- The names that an expression mentions, from left to right. -/
def Expr.names (e : Expr) : List String := e.mentions.map Mention.base

/-! ## Agreement -/

section

variable {c d : Context}

/-- Two contexts have the same values of the names that are mentioned. -/
def AgreeOn (c d : Context) (ms : List Mention) : Prop := ∀ m ∈ ms, c.get? m.base = d.get? m.base

theorem AgreeOn.left {ms ns : List Mention} (h : AgreeOn c d (ms ++ ns)) : AgreeOn c d ms :=
  fun m hm => h m (List.mem_append_left _ hm)

theorem AgreeOn.right {ms ns : List Mention} (h : AgreeOn c d (ms ++ ns)) : AgreeOn c d ns :=
  fun m hm => h m (List.mem_append_right _ hm)

/-- Contexts that agree on a mention give its base the same value or none. -/
theorem AgreeOn.lookup_eq {m : Mention} {ms : List Mention} (h : AgreeOn c d (m :: ms)) :
    c.lookup m.base = d.lookup m.base := by
  rw [Context.lookup, Context.lookup, h m (.head _)]

mutual
/-- An expression has the same outcome in contexts that agree on what it mentions. -/
theorem eval_congr (e : Expr) (h : AgreeOn c d e.mentions) : e.eval c = e.eval d := by
  cases e with
  | int n => rfl
  | float x => rfl
  | str s => rfl
  | name x => exact h.lookup_eq
  | list items => rw [Expr.eval, Expr.eval, evalItems_congr items h]
  | tuple items => rw [Expr.eval, Expr.eval, evalItems_congr items h]
  | dict pairs => rw [Expr.eval, Expr.eval, evalPairs_congr pairs h]
  | attr base chain => rw [Expr.eval, Expr.eval, h.lookup_eq]
  | field base keys =>
      have hkeys : ∀ v, Expr.followFields c v keys = Expr.followFields d v keys :=
        fun v => followFields_congr keys (fun m hm => h m (.tail _ hm)) v
      rw [Expr.eval, Expr.eval, h.lookup_eq]
      simp only [hkeys]

theorem evalItems_congr (es : List Expr) (h : AgreeOn c d (Expr.allMentions es)) :
    Expr.evalItems c es = Expr.evalItems d es := by
  cases es with
  | nil => rfl
  | cons e es =>
      rw [Expr.evalItems, Expr.evalItems, eval_congr e h.left, evalItems_congr es h.right]

theorem evalPairs_congr (ps : List (Expr × Expr)) (h : AgreeOn c d (Expr.pairMentions ps)) :
    Expr.evalPairs c ps = Expr.evalPairs d ps := by
  cases ps with
  | nil => rfl
  | cons p ps =>
      obtain ⟨k, e⟩ := p
      rw [Expr.evalPairs, Expr.evalPairs, eval_congr k h.left.left, eval_congr e h.left.right,
        evalPairs_congr ps h.right]

theorem followFields_congr (keys : List Expr) (h : AgreeOn c d (Expr.allMentions keys))
    (v : Value) : Expr.followFields c v keys = Expr.followFields d v keys := by
  cases keys with
  | nil => rfl
  | cons k ks =>
      have hks : ∀ w, Expr.followFields c w ks = Expr.followFields d w ks :=
        fun w => followFields_congr ks h.right w
      rw [Expr.followFields, Expr.followFields, eval_congr k h.left]
      simp only [hks]
end

theorem eval_congr_of_names {e : Expr} (h : ∀ x ∈ e.names, c.get? x = d.get? x) :
    e.eval c = e.eval d :=
  eval_congr e fun m hm => h m.base (List.mem_map_of_mem hm)

/-- What an expression needs is there in a context where it has a value. -/
theorem exists_get?_of_eval {e : Expr} {v : Value} (h : e.eval c = .ok v) {m : Mention}
    (hm : m ∈ e.mentions) : ∃ w, c.get? m.base = some w := by
  cases hbase : c.get? m.base with
  | some w => exact ⟨w, rfl⟩
  | none => exact absurd (.name hbase) (exists_eval_eq_ok_iff.mp ⟨v, h⟩ m hm _)

/-- A value stays what it is in a context with more names. -/
theorem eval_of_extends {e : Expr} {v : Value}
    (hextends : ∀ x w, c.get? x = some w → d.get? x = some w) (h : e.eval c = .ok v) :
    e.eval d = .ok v := by
  rw [← h]
  refine (eval_congr e fun m hm => ?_).symm
  obtain ⟨w, hw⟩ := exists_get?_of_eval h hm
  rw [hw, hextends m.base w hw]

end

/-! ## Literals -/

mutual
/-- An expression is literal when it mentions nothing. -/
theorem isLiteral_iff (e : Expr) : e.isLiteral = true ↔ e.mentions = [] := by
  cases e with
  | int n => simp [Expr.isLiteral, Expr.mentions]
  | float x => simp [Expr.isLiteral, Expr.mentions]
  | str s => simp [Expr.isLiteral, Expr.mentions]
  | name x => simp [Expr.isLiteral, Expr.mentions]
  | list items => exact allLiteral_iff items
  | tuple items => exact allLiteral_iff items
  | dict pairs => exact pairsLiteral_iff pairs
  | attr base chain => simp [Expr.isLiteral, Expr.mentions]
  | field base keys => simp [Expr.isLiteral, Expr.mentions]

theorem allLiteral_iff (es : List Expr) :
    Expr.allLiteral es = true ↔ Expr.allMentions es = [] := by
  cases es with
  | nil => simp [Expr.allLiteral, Expr.allMentions]
  | cons e es => simp [Expr.allLiteral, Expr.allMentions, isLiteral_iff e, allLiteral_iff es]

theorem pairsLiteral_iff (ps : List (Expr × Expr)) :
    Expr.pairsLiteral ps = true ↔ Expr.pairMentions ps = [] := by
  cases ps with
  | nil => simp [Expr.pairsLiteral, Expr.pairMentions]
  | cons p ps =>
      obtain ⟨k, v⟩ := p
      simp [Expr.pairsLiteral, Expr.pairMentions, isLiteral_iff k, isLiteral_iff v,
        pairsLiteral_iff ps, and_assoc]
end

theorem isLiteral_iff_names {e : Expr} : e.isLiteral = true ↔ e.names = [] := by
  rw [isLiteral_iff, Expr.names, List.map_eq_nil_iff]

/-- Literals are the expressions that have a value in the empty context. -/
theorem exists_eval_empty_iff {e : Expr} :
    (∃ v, e.eval .empty = .ok v) ↔ e.isLiteral = true := by
  rw [exists_eval_eq_ok_iff, isLiteral_iff, List.eq_nil_iff_forall_not_mem]
  refine forall_congr' fun m => ⟨fun h hm => ?_, fun h hm => absurd hm h⟩
  exact h hm _ (.name rfl)

/-- In the empty context the leftmost name is missing. -/
theorem eval_empty_of_names {e : Expr} {x : String} (h : e.names.head? = some x) :
    e.eval .empty = .error (.variableNotFound x) := by
  rw [Expr.names, List.head?_map, Option.map_eq_some_iff] at h
  obtain ⟨m, hm, rfl⟩ := h
  obtain ⟨ms, hms⟩ := List.head?_eq_some_iff.mp hm
  exact eval_eq_error_iff.mpr ⟨[], m, ms, hms, by simp, .name rfl⟩

/-- What is no literal has a leftmost name. -/
theorem exists_leftmost {e : Expr} (h : e.isLiteral = false) : ∃ x, e.names.head? = some x := by
  cases hnames : e.names with
  | nil => simp [isLiteral_iff_names.mpr hnames] at h
  | cons x xs => exact ⟨x, rfl⟩

/-! ## Scope -/

/-- Evaluation of an expression sees a context only through the names in the expression. -/
structure SeesNamesOnly (e : Expr) : Prop where
  literal_iff : e.isLiteral = true ↔ ∃ v, e.eval .empty = .ok v
  /-- What is no literal has a leftmost name, which the empty context lacks. -/
  leftmost : e.isLiteral = false → ∃ x, e.names.head? = some x ∧
    e.eval .empty = .error (.variableNotFound x)
  literal_eval : e.isLiteral = true → ∃ v, ∀ c : Context, e.eval c = .ok v
  agree : ∀ c d : Context, (∀ x ∈ e.names, c.get? x = d.get? x) → e.eval c = e.eval d
  extends_eval : ∀ (c d : Context) v, (∀ x w, c.get? x = some w → d.get? x = some w) →
    e.eval c = .ok v → e.eval d = .ok v

/-- Evaluation sees only what the expression names. -/
theorem eval_sees_names_only (e : Expr) : SeesNamesOnly e := by
  constructor
  case literal_iff => exact exists_eval_empty_iff.symm
  case leftmost =>
    intro h
    obtain ⟨x, hx⟩ := exists_leftmost h
    exact ⟨x, hx, eval_empty_of_names hx⟩
  case literal_eval =>
    intro h
    obtain ⟨v, hv⟩ := exists_eval_empty_iff.mpr h
    refine ⟨v, fun c => ?_⟩
    rw [← hv]
    refine eval_congr_of_names ?_
    simp [isLiteral_iff_names.mp h]
  case agree => exact fun c d => eval_congr_of_names
  case extends_eval => exact fun c d v => eval_of_extends

end PageLoom
