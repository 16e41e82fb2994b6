import PageLoom.Proofs.Call.Numbers
import PageLoom.Proofs.Call.Sound

/-!
# The language of the parser

A text that can be cut into tokens is read as a call, or as a value, exactly if its
tokens have a derivation and its integers fit 64 bits.  What it is read as is what the
derivation stands for, and there is only one (`followsGrammar`).
-/

namespace PageLoom

/-! ## Runs over integers -/

/-- No step takes an integer that cannot be read. -/
theorem exists_int64?_of_step {c c' : Situation} {text : String}
    (h : step c (.integer text) = .ok c') : ∃ n, Decimal.int64? text = some n := by
  have scalar : ∀ {frames c'}, startScalar (.integer text) frames = .ok c' →
      ∃ n, Decimal.int64? text = some n := by
    intro frames c' h
    rw [startScalar] at h
    split at h
    next n hn => exact ⟨n, hn⟩
    next => cases h
  have after : ∀ {e frames c'}, afterExpr e (.integer text) frames ≠ .ok c' := by
    intro e frames c' h
    cases frames with
    | nil => cases h
    | cons frame frames =>
        cases frame with
        | item kind done => cases kind <;> cases h
        | param f done key => cases h
        | pairKey done => cases h
        | pairValue done key => cases h
        | fieldKey base done => cases h
  obtain ⟨st, frames⟩ := c
  cases st with
  | value => exact scalar h
  | scalar => exact scalar h
  | items kind done =>
      have hne : Token.integer text ≠ .punct kind.close := fun he => by cases he
      rw [step, if_neg hne] at h
      exact scalar h
  | pairs done =>
      have hne : Token.integer text ≠ .punct .closeBrace := fun he => by cases he
      rw [step, if_neg hne] at h
      exact scalar h
  | name x => exact (after h).elim
  | attr base chain => exact (after h).elim
  | field base keys => exact (after h).elim
  | complete e => exact (after h).elim
  | call => cases h
  | function f => cases h
  | params f done => cases h
  | key f done k => cases h
  | dot base chain => cases h
  | done call => cases h

/-- Every integer in text that is read has a value: one out of range is refused where it stands. -/
theorem exists_int64?_of_run {c c' : Situation} {ts : List Token} (h : run c ts = .ok c') :
    ∀ text, .integer text ∈ ts → ∃ n, Decimal.int64? text = some n := by
  induction ts generalizing c with
  | nil =>
      intro text hm
      cases hm
  | cons t ts ih =>
      rw [run] at h
      split at h
      next => cases h
      next c₁ hs =>
        intro text hm
        rcases List.mem_cons.mp hm with rfl | hm
        · exact exists_int64?_of_step hs
        · exact ih h text hm

/-! ## Parsing -/

theorem parseCall_eq_ok_iff {source : String} {lexemes : List Lexeme}
    (h : tokenize source = .ok lexemes) (call : CallExpr) : parseCall source = .ok call ↔
      ∃ frames, run (.call, []) (lexemes.map Lexeme.token) = .ok (.done call, frames) := by
  rw [parseCall, parseWith, h]
  dsimp only
  constructor
  · intro hp
    split at hp
    next => cases hp
    next c hrun =>
      split at hp
      next => cases hp
      next =>
        split at hp
        next a ha =>
          cases hp
          obtain ⟨st, frames⟩ := c
          cases st <;> cases ha
          exact ⟨frames, hrun⟩
        next => cases hp
  · rintro ⟨frames, hrun⟩
    rw [hrun]
    rfl

theorem parseValue_eq_ok_iff {source : String} {lexemes : List Lexeme}
    (h : tokenize source = .ok lexemes) (e : Expr) : parseValue source = .ok e ↔
      ∃ st : State, run (.value, []) (lexemes.map Lexeme.token) = .ok (st, []) ∧
        st.expr? = some e := by
  rw [parseValue, parseWith, h]
  dsimp only
  constructor
  · intro hp
    split at hp
    next => cases hp
    next c hrun =>
      split at hp
      next => cases hp
      next =>
        split at hp
        next a ha =>
          cases hp
          obtain ⟨st, frames⟩ := c
          rw [Situation.expr?] at ha
          split at ha
          next hempty =>
            cases List.isEmpty_iff.mp hempty
            exact ⟨st, hrun, ha⟩
          next => cases ha
        next => cases hp
  · rintro ⟨st, hrun, hst⟩
    have hexpected : Situation.expected? (st, []) = none := by
      cases st <;> first | rfl | cases hst
    rw [hrun]
    dsimp only
    rw [hexpected]
    dsimp only
    rw [Situation.expr?]
    simp only [List.isEmpty_nil, if_true, hst]

/-! ## The language -/

/-- Whether the integers among tokens fit 64 bits. -/
def IntegersFit (ts : List Token) : Prop := ∀ text, .integer text ∈ ts → IntegerFits text

/-- What the grammar says of a text with the tokens `ts`. -/
structure FollowsGrammar (source : String) (ts : List Token) : Prop where
  /-- Calls are read exactly if they are derived, as what their derivation stands for. -/
  call : ∀ c, parseCall source = .ok c ↔ IntegersFit ts ∧
    ∃ d : Derivation .call, d.tokens = ts ∧ d.meaning = c
  /-- Values are read exactly if they are derived, as what their derivation stands for. -/
  value : ∀ e, parseValue source = .ok e ↔ IntegersFit ts ∧
    ∃ d : Derivation (.element .value), d.tokens = ts ∧ d.meaning = e
  /-- No two derivations of a call have these tokens, and no two of a value. -/
  unique_call : ∀ d d' : Derivation .call, d.tokens = ts → d'.tokens = ts → d = d'
  unique_value : ∀ d d' : Derivation (.element .value), d.tokens = ts → d'.tokens = ts → d = d'
  /-- An integer is digits after an optional minus sign, and stands for its value. -/
  integer : ∀ text, .integer text ∈ ts → IsInteger text ∧
    (IntegerFits text → (Int64.ofInt (integerValue text)).toInt = integerValue text)
  /-- Decimals are never refused. -/
  decimal : ∀ text, .decimal text ∈ ts → IsDecimal text ∧ (Decimal.float? text).isSome

/-- What is read is exactly what the grammar derives, with the meaning of its derivation. -/
theorem followsGrammar {source : String} {lexemes : List Lexeme}
    (h : tokenize source = .ok lexemes) : FollowsGrammar source (lexemes.map Lexeme.token) := by
  have spelled := wellSpelled_of_tokenize h
  generalize hts : lexemes.map Lexeme.token = ts at spelled
  have integers : ∀ text, .integer text ∈ ts → IsInteger text := fun text hm => spelled _ hm
  have sound : ∀ t ∈ ts, IntegerSound t := by
    rintro t ht text n rfl hn
    exact ((int64?_eq_some_iff (integers text ht) n).mp hn).2
  have read : IntegersFit ts → IntegersRead ts := fun hfit text hm =>
    (int64?_eq_some_iff (integers text hm) _).mpr ⟨hfit text hm, rfl⟩
  have fit : ∀ {c c' : Situation}, run c ts = .ok c' → IntegersFit ts := fun hrun text hm => by
    obtain ⟨n, hn⟩ := exists_int64?_of_run hrun text hm
    exact ((int64?_eq_some_iff (integers text hm) n).mp hn).1
  constructor
  case call =>
    intro c
    rw [parseCall_eq_ok_iff h, hts]
    constructor
    · rintro ⟨frames, hrun⟩
      have hprogress : Progress (.call, []) [] := ⟨rfl, rfl⟩
      obtain ⟨-, d, htokens, hmeaning⟩ := hprogress.run sound hrun
      exact ⟨fit hrun, d, htokens, hmeaning⟩
    · rintro ⟨hfit, d, rfl, rfl⟩
      exact ⟨[], d.reads (read hfit)⟩
  case value =>
    intro e
    rw [parseValue_eq_ok_iff h, hts]
    constructor
    · rintro ⟨st, hrun, hst⟩
      have hprogress : Progress (.value, []) [] := ⟨rfl, trivial⟩
      obtain ⟨outer, own, rfl, hs, hown⟩ := (hprogress.run sound hrun).exists_expr hst
      obtain ⟨d, htokens, hmeaning⟩ := hs.exists_value
      exact ⟨fit hrun, d, htokens.trans hown.symm, hmeaning⟩
    · rintro ⟨hfit, d, rfl, rfl⟩
      exact d.reads (read hfit) []
  case unique_call => exact fun d d' hd hd' => Derivation.eq_of_call_tokens (hd.trans hd'.symm)
  case unique_value => exact fun d d' hd hd' => Derivation.eq_of_value_tokens (hd.trans hd'.symm)
  case integer => exact fun text hm => ⟨integers text hm, toInt_ofInt⟩
  case decimal => exact fun text hm => ⟨spelled _ hm, isSome_float? (spelled _ hm)⟩

/-- A call with a list, a trailing comma and a negative integer. -/
theorem followsGrammar_list_call : ∃ lexemes, tokenize "f(x=[1,-2,])" = .ok lexemes ∧
    lexemes.map Lexeme.token = [.name "f", .punct .openParen, .name "x", .punct .equals,
      .punct .openBracket, .integer "1", .punct .comma, .integer "-2", .punct .comma,
      .punct .closeBracket, .punct .closeParen] ∧
    FollowsGrammar "f(x=[1,-2,])" (lexemes.map Lexeme.token) :=
  ⟨_, rfl, rfl, followsGrammar rfl⟩

end PageLoom
