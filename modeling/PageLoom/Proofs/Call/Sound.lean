import PageLoom.Proofs.Call.Complete

/-!
# The parser reads nothing else

`Progress` says which tokens have led to a situation: every frame stands for the tokens
from where its construct was opened up to the part that is being read, and the state
for those after them.  A step keeps this (`Progress.step`), and so does a run
(`Progress.run`).  At the end of a call or a value the tokens are those of a
derivation.
-/

namespace PageLoom

/-! ## Elements that are held -/

/-- Elements that have been read, each with a comma after it. -/
inductive Held (e : Element) : List e.Meaning → List Token → Prop
  | nil : Held e [] []
  | snoc {done : List e.Meaning} {ts : List Token} (h : Held e done ts)
      (d : Derivation (.element e)) :
      Held e (done ++ [d.meaning]) (ts ++ (d.tokens ++ [.punct .comma]))

theorem Held.exists_append {e : Element} {done : List e.Meaning} {ts : List Token}
    (h : Held e done ts) (rest : Derivation (.many e)) :
    ∃ d : Derivation (.many e), d.tokens = ts ++ rest.tokens ∧
      d.meaning = done ++ rest.meaning := by
  induction h generalizing rest with
  | nil => exact ⟨rest, rfl, rfl⟩
  | snoc h d ih =>
      obtain ⟨ds, htokens, hmeaning⟩ := ih (.more d rest)
      refine ⟨ds, ?_, ?_⟩
      · rw [htokens, List.append_assoc, List.append_assoc]
        rfl
      · rw [hmeaning, List.append_assoc]
        rfl

/-- The elements held so far are a derivation of their own, a last comma included. -/
theorem Held.exists_many {e : Element} {done : List e.Meaning} {ts : List Token}
    (h : Held e done ts) : ∃ d : Derivation (.many e), d.tokens = ts ∧ d.meaning = done := by
  obtain ⟨d, htokens, hmeaning⟩ := h.exists_append .none
  exact ⟨d, htokens.trans (List.append_nil ts), hmeaning.trans (List.append_nil done)⟩

/-- Keys after keys are keys. -/
theorem exists_keys_append : ∀ ks ls : Derivation .keys, ∃ d : Derivation .keys,
    d.tokens = ks.tokens ++ ls.tokens ∧ d.meaning = ks.meaning ++ ls.meaning
  | .lastKey k, ls => ⟨.key k ls, by simp [Derivation.tokens], rfl⟩
  | .key k ks, ls => by
      obtain ⟨d, htokens, hmeaning⟩ := exists_keys_append ks ls
      refine ⟨.key k d, ?_, ?_⟩
      · simp [Derivation.tokens, htokens]
      · rw [Derivation.meaning, hmeaning]
        rfl

/-! ## Places -/

/-- Whether every value may stand in a place, and not only a scalar. -/
def ValuePlace : List Frame → Prop
  | .pairKey _ :: _ => False
  | .fieldKey _ _ :: _ => False
  | _ => True

/-- Tokens that are an expression which may stand in a place. -/
def Stands (frames : List Frame) (ts : List Token) (e : Expr) : Prop :=
  (∃ d : Derivation .scalar, d.tokens = ts ∧ d.meaning = e) ∨
    ValuePlace frames ∧ ∃ d : Derivation (.element .value), d.tokens = ts ∧ d.meaning = e

/-- A value that stands complete has a derivation. -/
theorem Stands.exists_value {frames : List Frame} {ts : List Token} {e : Expr}
    (h : Stands frames ts e) :
    ∃ d : Derivation (.element .value), d.tokens = ts ∧ d.meaning = e := by
  rcases h with ⟨d, hd⟩ | ⟨-, d, hd⟩
  · exact ⟨.scalar d, hd⟩
  · exact ⟨d, hd⟩

theorem Stands.exists_scalar {frames : List Frame} {ts : List Token} {e : Expr}
    (h : Stands frames ts e) (hplace : ¬ ValuePlace frames) :
    ∃ d : Derivation .scalar, d.tokens = ts ∧ d.meaning = e := by
  rcases h with hd | ⟨hv, -⟩
  · exact hd
  · exact absurd hv hplace

/-- The token that opens a list or a tuple. -/
def Sequence.opening : Sequence → Punct
  | .list => .openBracket
  | .tuple => .openParen

/-- A list stands where every value may, a tuple everywhere. -/
theorem stands_sequence {frames : List Frame} (kind : Sequence) (d : Derivation (.many .value))
    (hplace : kind = .list → ValuePlace frames) :
    Stands frames (.punct kind.opening :: (d.tokens ++ [.punct kind.close]))
      (kind.expr d.meaning) := by
  cases kind with
  | list => exact .inr ⟨hplace rfl, .list d, rfl, rfl⟩
  | tuple => exact .inl ⟨.tuple d, rfl, rfl⟩

/-- The tokens before a place in open constructs. -/
def Opened : List Frame → List Token → Prop
  | [], ts => ts = []
  | .param f done key :: frames, ts => frames = [] ∧ ∃ ps, Held .param done ps ∧
      ts = .name f :: .punct .openParen :: (ps ++ [.name key, .punct .equals])
  | .item kind done :: frames, ts => ∃ outer is, Opened frames outer ∧
      (kind = .list → ValuePlace frames) ∧ Held .value done is ∧
      ts = outer ++ .punct kind.opening :: is
  | .pairKey done :: frames, ts => ∃ outer ps, Opened frames outer ∧ ValuePlace frames ∧
      Held .pair done ps ∧ ts = outer ++ .punct .openBrace :: ps
  | .pairValue done key :: frames, ts => ∃ outer ps, ∃ k : Derivation .scalar,
      Opened frames outer ∧ ValuePlace frames ∧ Held .pair done ps ∧ k.meaning = key ∧
      ts = outer ++ .punct .openBrace :: (ps ++ (k.tokens ++ [.punct .colon]))
  | .fieldKey base done :: frames, ts => ∃ outer ks, Opened frames outer ∧ ValuePlace frames ∧
      (done = [] ∧ ks = [] ∨ ∃ d : Derivation .keys, d.tokens = ks ∧ d.meaning = done) ∧
      ts = outer ++ .name base :: (ks ++ [.punct .openBracket])

/-! ## Progress -/

/-- The tokens that have led to a situation. -/
def Progress : Situation → List Token → Prop
  | (.call, frames), ts => frames = [] ∧ ts = []
  | (.function f, frames), ts => frames = [] ∧ ts = [.name f]
  | (.params f done, frames), ts => frames = [] ∧ ∃ ps, Held .param done ps ∧
      ts = .name f :: .punct .openParen :: ps
  | (.key f done key, frames), ts => frames = [] ∧ ∃ ps, Held .param done ps ∧
      ts = .name f :: .punct .openParen :: (ps ++ [.name key])
  | (.value, frames), ts => Opened frames ts ∧ ValuePlace frames
  | (.scalar, frames), ts => Opened frames ts
  | (.items kind done, frames), ts => Opened (.item kind done :: frames) ts
  | (.pairs done, frames), ts => Opened (.pairKey done :: frames) ts
  | (.name x, frames), ts => ∃ outer, Opened frames outer ∧ ValuePlace frames ∧
      ts = outer ++ [.name x]
  | (.dot base chain, frames), ts => ∃ outer, Opened frames outer ∧ ValuePlace frames ∧
      ts = outer ++ .name base :: (chainTokens chain ++ [.punct .dot])
  | (.attr base chain, frames), ts => ∃ outer, Opened frames outer ∧ ValuePlace frames ∧
      chain ≠ [] ∧ ts = outer ++ .name base :: chainTokens chain
  | (.field base keys, frames), ts => ∃ outer, ∃ d : Derivation .keys, Opened frames outer ∧
      ValuePlace frames ∧ d.meaning = keys ∧ ts = outer ++ .name base :: d.tokens
  | (.complete e, frames), ts => ∃ outer own, Opened frames outer ∧ Stands frames own e ∧
      ts = outer ++ own
  | (.done call, frames), ts =>
      frames = [] ∧ ∃ d : Derivation .call, d.tokens = ts ∧ d.meaning = call

/-- A state that may end has read an expression, after the tokens around it. -/
theorem Progress.exists_expr {st : State} {frames : List Frame} {ts : List Token} {e : Expr}
    (h : Progress (st, frames) ts) (he : st.expr? = some e) :
    ∃ outer own, Opened frames outer ∧ Stands frames own e ∧ ts = outer ++ own := by
  cases st with
  | name x =>
      cases he
      obtain ⟨outer, ho, hplace, rfl⟩ := h
      exact ⟨outer, _, ho, .inr ⟨hplace, .name x, rfl, rfl⟩, rfl⟩
  | attr base chain =>
      cases he
      obtain ⟨outer, ho, hplace, hne, rfl⟩ := h
      cases chain with
      | nil => exact absurd rfl hne
      | cons a as => exact ⟨outer, _, ho, .inr ⟨hplace, .attr base a as, rfl, rfl⟩, rfl⟩
  | field base keys =>
      cases he
      obtain ⟨outer, d, ho, hplace, rfl, rfl⟩ := h
      exact ⟨outer, _, ho, .inr ⟨hplace, .field base d, rfl, rfl⟩, rfl⟩
  | complete e' =>
      cases he
      exact h
  | call => cases he
  | function f => cases he
  | params f done => cases he
  | key f done k => cases he
  | value => cases he
  | scalar => cases he
  | items kind done => cases he
  | pairs done => cases he
  | dot base chain => cases he
  | done call => cases he

/-- An integer token denotes its value if it is read at all. -/
def IntegerSound (t : Token) : Prop :=
  ∀ text n, t = .integer text → Decimal.int64? text = some n → n = Int64.ofInt (integerValue text)

theorem progress_startScalar {t : Token} {frames : List Frame} {ts : List Token} {c : Situation}
    (ho : Opened frames ts) (ht : IntegerSound t) (h : startScalar t frames = .ok c) :
    Progress c (ts ++ [t]) := by
  cases t with
  | integer text =>
      rw [startScalar] at h
      split at h
      next n hn =>
        cases h
        cases ht text n rfl hn
        exact ⟨ts, _, ho, .inl ⟨.integer text, rfl, rfl⟩, rfl⟩
      next => cases h
  | decimal text =>
      cases h
      exact ⟨ts, _, ho, .inl ⟨.decimal text, rfl, rfl⟩, rfl⟩
  | str text =>
      cases h
      exact ⟨ts, _, ho, .inl ⟨.str text, rfl, rfl⟩, rfl⟩
  | name x => cases h
  | punct p =>
      cases p with
      | openParen =>
          cases h
          exact ⟨ts, [], ho, fun hbase => (by cases hbase), .nil, rfl⟩
      | closeParen => cases h
      | openBracket => cases h
      | closeBracket => cases h
      | openBrace => cases h
      | closeBrace => cases h
      | comma => cases h
      | colon => cases h
      | dot => cases h
      | equals => cases h

theorem progress_startValue {t : Token} {frames : List Frame} {ts : List Token} {c : Situation}
    (ho : Opened frames ts) (hplace : ValuePlace frames) (ht : IntegerSound t)
    (h : startValue t frames = .ok c) : Progress c (ts ++ [t]) := by
  cases t with
  | name x =>
      cases h
      exact ⟨ts, ho, hplace, rfl⟩
  | integer text => exact progress_startScalar ho ht h
  | decimal text => exact progress_startScalar ho ht h
  | str text => exact progress_startScalar ho ht h
  | punct p =>
      cases p with
      | openParen => exact progress_startScalar ho ht h
      | openBracket =>
          cases h
          exact ⟨ts, [], ho, fun _ => hplace, .nil, rfl⟩
      | openBrace =>
          cases h
          exact ⟨ts, [], ho, hplace, .nil, rfl⟩
      | closeParen => cases h
      | closeBracket => cases h
      | closeBrace => cases h
      | comma => cases h
      | colon => cases h
      | dot => cases h
      | equals => cases h

/-- The token after an expression goes to the construct around it. -/
theorem Progress.afterExpr {st : State} {frames : List Frame} {ts : List Token} {e : Expr}
    {t : Token} {c : Situation} (hp : Progress (st, frames) ts) (he : st.expr? = some e)
    (h : afterExpr e t frames = .ok c) : Progress c (ts ++ [t]) := by
  obtain ⟨outer, own, ho, hs, rfl⟩ := hp.exists_expr he
  cases frames with
  | nil => cases h
  | cons frame frames =>
      cases frame with
      | param f done key =>
          obtain ⟨rfl, ps, hps, rfl⟩ := ho
          obtain ⟨v, rfl, rfl⟩ := hs.exists_value
          unfold PageLoom.afterExpr at h
          dsimp only at h
          split at h
          next =>
            cases h
            obtain ⟨d, htokens, hmeaning⟩ := hps.exists_append (.last (.param key v))
            refine ⟨rfl, .call f d, ?_, ?_⟩
            · rw [Derivation.tokens, htokens]
              simp [Derivation.tokens]
            · rw [Derivation.meaning, hmeaning]
              rfl
          next =>
            cases h
            refine ⟨rfl, _, hps.snoc (.param key v), ?_⟩
            simp [Derivation.tokens]
          next => cases h
      | item kind done =>
          obtain ⟨before, is, hbefore, hplace, his, rfl⟩ := ho
          obtain ⟨v, rfl, rfl⟩ := hs.exists_value
          rw [PageLoom.afterExpr] at h
          split at h
          next hclose =>
            cases h
            cases hclose
            obtain ⟨d, htokens, hmeaning⟩ := his.exists_append (.last v)
            have hstands := stands_sequence kind d hplace
            rw [hmeaning] at hstands
            refine ⟨before, _, hbefore, hstands, ?_⟩
            rw [htokens]
            simp [Derivation.tokens]
          next =>
            split at h
            next hcomma =>
              cases h
              cases hcomma
              refine ⟨before, _, hbefore, hplace, his.snoc v, ?_⟩
              simp
            next => cases h
      | pairKey done =>
          obtain ⟨before, ps, hbefore, hplace, hps, rfl⟩ := ho
          obtain ⟨k, rfl, rfl⟩ := hs.exists_scalar fun hplace => hplace.elim
          unfold PageLoom.afterExpr at h
          dsimp only at h
          split at h
          next =>
            cases h
            refine ⟨⟨before, ps, k, hbefore, hplace, hps, rfl, ?_⟩, trivial⟩
            simp
          next => cases h
      | pairValue done key =>
          obtain ⟨before, ps, k, hbefore, hplace, hps, rfl, rfl⟩ := ho
          obtain ⟨v, rfl, rfl⟩ := hs.exists_value
          unfold PageLoom.afterExpr at h
          dsimp only at h
          split at h
          next =>
            cases h
            obtain ⟨d, htokens, hmeaning⟩ := hps.exists_append (.last (.pair k v))
            refine ⟨before, _, hbefore, .inr ⟨hplace, .dict d, rfl, ?_⟩, ?_⟩
            · rw [Derivation.meaning, hmeaning]
              rfl
            · rw [Derivation.tokens, htokens]
              simp [Derivation.tokens]
          next =>
            cases h
            refine ⟨before, _, hbefore, hplace, hps.snoc (.pair k v), ?_⟩
            simp [Derivation.tokens]
          next => cases h
      | fieldKey base done =>
          obtain ⟨before, ks, hbefore, hplace, hks, rfl⟩ := ho
          obtain ⟨k, rfl, rfl⟩ := hs.exists_scalar fun hplace => hplace.elim
          unfold PageLoom.afterExpr at h
          dsimp only at h
          split at h
          next =>
            cases h
            rcases hks with ⟨rfl, rfl⟩ | ⟨d, rfl, rfl⟩
            · refine ⟨before, .lastKey k, hbefore, hplace, rfl, ?_⟩
              simp [Derivation.tokens]
            · obtain ⟨d', htokens, hmeaning⟩ := exists_keys_append d (.lastKey k)
              refine ⟨before, d', hbefore, hplace, hmeaning, ?_⟩
              rw [htokens]
              simp [Derivation.tokens]
          next => cases h

/-- What a step reads is added to the tokens. -/
theorem Progress.step {c c' : Situation} {t : Token} {ts : List Token} (hp : Progress c ts)
    (ht : IntegerSound t) (h : step c t = .ok c') : Progress c' (ts ++ [t]) := by
  obtain ⟨st, frames⟩ := c
  cases st with
  | call =>
      obtain ⟨rfl, rfl⟩ := hp
      unfold PageLoom.step at h
      dsimp only at h
      split at h
      next =>
        cases h
        exact ⟨rfl, rfl⟩
      next => cases h
  | function f =>
      obtain ⟨rfl, rfl⟩ := hp
      unfold PageLoom.step at h
      dsimp only at h
      split at h
      next =>
        cases h
        exact ⟨rfl, [], .nil, rfl⟩
      next => cases h
  | params f done =>
      obtain ⟨rfl, ps, hps, rfl⟩ := hp
      unfold PageLoom.step at h
      dsimp only at h
      split at h
      next =>
        cases h
        obtain ⟨d, rfl, rfl⟩ := hps.exists_many
        exact ⟨rfl, .call f d, rfl, rfl⟩
      next =>
        cases h
        exact ⟨rfl, ps, hps, rfl⟩
      next => cases h
  | key f done k =>
      obtain ⟨rfl, ps, hps, rfl⟩ := hp
      unfold PageLoom.step at h
      dsimp only at h
      split at h
      next =>
        cases h
        exact ⟨⟨rfl, ps, hps, by simp⟩, trivial⟩
      next => cases h
  | value => exact progress_startValue hp.1 hp.2 ht h
  | scalar => exact progress_startScalar hp ht h
  | items kind done =>
      unfold PageLoom.step at h
      dsimp only at h
      split at h
      next hclose =>
        cases h
        cases hclose
        obtain ⟨outer, is, ho, hplace, his, rfl⟩ := hp
        obtain ⟨d, rfl, rfl⟩ := his.exists_many
        exact ⟨outer, _, ho, stands_sequence kind d hplace, by simp⟩
      next => exact progress_startValue hp trivial ht h
  | pairs done =>
      unfold PageLoom.step at h
      dsimp only at h
      split at h
      next hclose =>
        cases h
        cases hclose
        obtain ⟨outer, ps, ho, hplace, hps, rfl⟩ := hp
        obtain ⟨d, rfl, rfl⟩ := hps.exists_many
        exact ⟨outer, _, ho, .inr ⟨hplace, .dict d, rfl, rfl⟩, by simp [Derivation.tokens]⟩
      next => exact progress_startScalar hp ht h
  | name x =>
      unfold PageLoom.step at h
      dsimp only at h
      split at h
      next =>
        cases h
        obtain ⟨outer, ho, hplace, rfl⟩ := hp
        exact ⟨outer, ho, hplace, by simp [chainTokens]⟩
      next =>
        cases h
        obtain ⟨outer, ho, hplace, rfl⟩ := hp
        exact ⟨outer, [], ho, hplace, .inl ⟨rfl, rfl⟩, by simp⟩
      next => exact hp.afterExpr rfl h
  | dot base chain =>
      obtain ⟨outer, ho, hplace, rfl⟩ := hp
      unfold PageLoom.step at h
      dsimp only at h
      split at h
      next x =>
        cases h
        exact ⟨outer, ho, hplace, by simp, by simp [chainTokens]⟩
      next => cases h
  | attr base chain =>
      unfold PageLoom.step at h
      dsimp only at h
      split at h
      next =>
        cases h
        obtain ⟨outer, ho, hplace, hne, rfl⟩ := hp
        exact ⟨outer, ho, hplace, by simp⟩
      next => exact hp.afterExpr rfl h
  | field base keys =>
      unfold PageLoom.step at h
      dsimp only at h
      split at h
      next =>
        cases h
        obtain ⟨outer, d, ho, hplace, rfl, rfl⟩ := hp
        exact ⟨outer, d.tokens, ho, hplace, .inr ⟨d, rfl, rfl⟩, by simp⟩
      next => exact hp.afterExpr rfl h
  | complete e => exact hp.afterExpr rfl h
  | done call => cases h

/-- As long as reading goes on there is a derivation that the tokens so far begin. -/
theorem Progress.run {c c' : Situation} {ts us : List Token} (hp : Progress c ts)
    (ht : ∀ t ∈ us, IntegerSound t) (h : run c us = .ok c') : Progress c' (ts ++ us) := by
  induction us generalizing c ts with
  | nil =>
      cases h
      rwa [List.append_nil]
  | cons t us ih =>
      rw [PageLoom.run] at h
      split at h
      next => cases h
      next c₁ hs =>
        have hrest := ih (hp.step (ht t (.head _)) hs) (fun u hu => ht u (.tail _ hu)) h
        rwa [List.append_assoc] at hrest

end PageLoom
