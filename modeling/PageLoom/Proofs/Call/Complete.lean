import PageLoom.Call.Parser
import PageLoom.Proofs.Call.Grammar

/-!
# The parser reads what the grammar derives

`Phrase.Reads` says what a run does on the tokens of each phrase: from the state in
which a phrase starts to the state in which it has been read, with the frames around it
as they were.  All derivations are read, one lemma for each alternative of the grammar
(`Derivation.reads`), provided that their integers fit.

Parameters, items and pairs are all held the same way: a `Holder` collects elements up
to the token that closes it.
-/

namespace PageLoom

/-! ## Runs -/

theorem run_cons {c c' : Situation} {t : Token} (h : step c t = .ok c') (ts : List Token) :
    run c (t :: ts) = run c' ts := by rw [run, h]

/-- Reading goes on from the situation that the tokens so far have led to. -/
theorem run_append {c c' : Situation} {xs : List Token} (h : run c xs = .ok c')
    (ys : List Token) : run c (xs ++ ys) = run c' ys := by
  induction xs generalizing c with
  | nil =>
      cases h
      rfl
  | cons t xs ih =>
      rw [run] at h
      rw [List.cons_append, run]
      cases hs : step c t with
      | error cause =>
          rw [hs] at h
          cases h
      | ok c₁ =>
          rw [hs] at h
          exact ih h

theorem run_concat {c c₁ c₂ : Situation} {xs : List Token} {t : Token} (h : run c xs = .ok c₁)
    (hs : step c₁ t = .ok c₂) : run c (xs ++ [t]) = .ok c₂ := by
  rw [run_append h, run_cons hs, run]

/-- A state that has read an expression leaves a token that it cannot use to the
construct around it. -/
theorem step_of_expr? {st : State} {e : Expr} (h : st.expr? = some e) {p : Punct}
    (hdot : p ≠ .dot) (hopen : p ≠ .openBracket) (frames : List Frame) :
    step (st, frames) (.punct p) = afterExpr e (.punct p) frames := by
  cases st with
  | name x => cases h; cases p <;> first | rfl | exact absurd rfl hdot | exact absurd rfl hopen
  | attr base chain => cases h; cases p <;> first | rfl | exact absurd rfl hdot
  | field base keys => cases h; cases p <;> first | rfl | exact absurd rfl hopen
  | complete e => cases h; rfl
  | call => cases h
  | function f => cases h
  | params f done => cases h
  | key f done k => cases h
  | value => cases h
  | scalar => cases h
  | items kind done => cases h
  | pairs done => cases h
  | dot base chain => cases h
  | done call => cases h

/-! ## Holders -/

/-- What holds elements. -/
inductive Holder : Element → Type
  | params (function : String) : Holder .param
  | items (kind : Sequence) : Holder .value
  | pairs : Holder .pair

namespace Holder

/-- The state that holds the elements `done`. -/
def state : {e : Element} → Holder e → List e.Meaning → State
  | _, .params f, done => .params f done
  | _, .items kind, done => .items kind done
  | _, .pairs, done => .pairs done

/-- The token that closes a holder. -/
def close : {e : Element} → Holder e → Punct
  | _, .params _ => .closeParen
  | _, .items kind => kind.close
  | _, .pairs => .closeBrace

/-- The state after a holder has been closed. -/
def whole : {e : Element} → Holder e → List e.Meaning → State
  | _, .params f, done => .done ⟨f, done⟩
  | _, .items kind, done => .complete (kind.expr done)
  | _, .pairs, done => .complete (.dict done)

/-- The closing bracket ends its holder wherever a further element may stand, so also after a
comma. -/
theorem step_close {e : Element} (h : Holder e) (done : List e.Meaning) (frames : List Frame) :
    step (h.state done, frames) (.punct h.close) = .ok (h.whole done, frames) := by
  cases h with
  | params f => rfl
  | items kind => exact if_pos rfl
  | pairs => rfl

/-- A situation in which a holder takes one more element with the next token. -/
structure Takes {e : Element} (h : Holder e) (done : List e.Meaning) (frames : List Frame)
    (m : e.Meaning) (c : Situation) : Prop where
  comma : step c (.punct .comma) = .ok (h.state (done ++ [m]), frames)
  close : step c (.punct h.close) = .ok (h.whole (done ++ [m]), frames)

/-- A value that is complete as an expression becomes the parameter whose name was read before
it. -/
theorem takes_param {f : String} {done : List (String × Expr)} {frames : List Frame}
    {key : String} {st : State} {e : Expr} (he : st.expr? = some e) :
    (params f).Takes done frames (key, e) (st, .param f done key :: frames) where
  comma := step_of_expr? he (by decide) (by decide) _
  close := step_of_expr? (p := .closeParen) he (by decide) (by decide) _

theorem takes_item {kind : Sequence} {done : List Expr} {frames : List Frame} {st : State}
    {e : Expr} (he : st.expr? = some e) :
    (items kind).Takes done frames e (st, .item kind done :: frames) where
  comma := (step_of_expr? he (by decide) (by decide) _).trans (by cases kind <;> rfl)
  close := by
    cases kind <;> exact step_of_expr? he (by decide) (by decide) _

/-- A value that is complete as an expression becomes the value of the key that was read before
it. -/
theorem takes_pair {done : List (Expr × Expr)} {frames : List Frame} {key : Expr} {st : State}
    {e : Expr} (he : st.expr? = some e) :
    pairs.Takes done frames (key, e) (st, .pairValue done key :: frames) where
  comma := step_of_expr? he (by decide) (by decide) _
  close := step_of_expr? (p := .closeBrace) he (by decide) (by decide) _

end Holder

/-! ## First tokens -/

/-- Where a value may stand, a scalar may. -/
theorem run_value_of_scalar {t : Token} (h : t.startsScalar = true) (ts : List Token)
    (frames : List Frame) : run (.value, frames) (t :: ts) = run (.scalar, frames) (t :: ts) := by
  cases t with
  | punct p => cases p <;> first | rfl | cases h
  | name x => cases h
  | integer text => rfl
  | decimal text => rfl
  | str text => rfl

/-- Unless the list is closed at once, its first token begins an item. -/
theorem run_items {kind : Sequence} {t : Token} (h : t ≠ .punct kind.close) (ts : List Token)
    (done : List Expr) (frames : List Frame) :
    run (.items kind done, frames) (t :: ts) =
      run (.value, .item kind done :: frames) (t :: ts) := by
  have hstep : step (.items kind done, frames) t = step (.value, .item kind done :: frames) t :=
    if_neg h
  rw [run, run, hstep]

theorem run_pairs {t : Token} (h : t ≠ .punct .closeBrace) (ts : List Token)
    (done : List (Expr × Expr)) (frames : List Frame) :
    run (.pairs done, frames) (t :: ts) = run (.scalar, .pairKey done :: frames) (t :: ts) := by
  have hstep : step (.pairs done, frames) t = step (.scalar, .pairKey done :: frames) t :=
    if_neg h
  rw [run, run, hstep]

/-! ## What a run does with a phrase -/

/-- What a run does with the tokens of an element. -/
def Element.Reads : (e : Element) → List Token → e.Meaning → Prop
  | .value, ts, m => ∀ frames, ∃ st, run (.value, frames) ts = .ok (st, frames) ∧ st.expr? = some m
  | .param, ts, m => ∀ f done frames, ∃ c, run (.params f done, frames) ts = .ok c ∧
      (Holder.params f).Takes done frames m c
  | .pair, ts, m => ∀ done frames, ∃ c, run (.pairs done, frames) ts = .ok c ∧
      Holder.pairs.Takes done frames m c

/-- What a run does with the tokens of a phrase. -/
def Phrase.Reads : (s : Phrase) → List Token → s.Meaning → Prop
  | .call, ts, m => run (.call, []) ts = .ok (.done m, [])
  | .element e, ts, m => e.Reads ts m
  | .many e, ts, m => ∀ (h : Holder e) done frames,
      run (h.state done, frames) (ts ++ [.punct h.close]) = .ok (h.whole (done ++ m), frames)
  | .scalar, ts, m => ∀ frames, run (.scalar, frames) ts = .ok (.complete m, frames)
  | .keys, ts, m => ∀ base done frames,
      run (.field base done, frames) ts = .ok (.field base (done ++ m), frames)

theorem Holder.close_closes {e : Element} (h : Holder e) : h.close.closes = true := by
  cases h with
  | params f => rfl
  | items kind => cases kind <;> rfl
  | pairs => rfl

/-- Every holder takes elements. -/
theorem Holder.takes {e : Element} (h : Holder e) {d : Derivation (.element e)}
    (hd : e.Reads d.tokens d.meaning) (done : List e.Meaning) (frames : List Frame) :
    ∃ c, run (h.state done, frames) d.tokens = .ok c ∧ h.Takes done frames d.meaning c := by
  cases h with
  | params f => exact hd f done frames
  | pairs => exact hd done frames
  | items kind =>
      obtain ⟨t, ts, ht, hne⟩ := d.exists_element_tokens
      obtain ⟨st, hrun, hst⟩ := hd (.item kind done :: frames)
      rw [ht] at hrun ⊢
      refine ⟨_, ?_, takes_item hst⟩
      rw [state, run_items (hne _ (Holder.items kind).close_closes)]
      exact hrun

/-- The integers among tokens are read as what they denote. -/
def IntegersRead (ts : List Token) : Prop :=
  ∀ text, .integer text ∈ ts → Decimal.int64? text = some (Int64.ofInt (integerValue text))

namespace Derivation

/-- A chain of attributes is taken up name by name. -/
theorem reads_chain (base : String) (done chain : List String) (frames : List Frame) :
    run (.attr base done, frames) (chainTokens chain) =
      .ok (.attr base (done ++ chain), frames) := by
  induction chain generalizing done with
  | nil => rw [List.append_nil]; rfl
  | cons x xs ih =>
      rw [chainTokens_cons, run_cons rfl, run_cons rfl, ih, List.append_assoc]
      rfl

/-- The parser reads what the grammar derives. -/
theorem reads {s : Phrase} (d : Derivation s) (h : IntegersRead d.tokens) :
    s.Reads d.tokens d.meaning := by
  induction d with
  | call f ps ih =>
      have hps := ih (fun text hm => h text (by simp [tokens, hm])) (.params f) [] []
      show run (.call, []) (.name f :: .punct .openParen :: (ps.tokens ++ [.punct .closeParen])) = _
      rw [run_cons rfl, run_cons rfl]
      exact hps
  | param k v ih => 
      intro f done frames
      obtain ⟨st, hrun, hst⟩ := ih (fun text hm => h text (by simp [tokens, hm]))
        (.param f done k :: frames)
      refine ⟨_, ?_, Holder.takes_param hst⟩
      show run (.params f done, frames) (.name k :: .punct .equals :: v.tokens) = _
      rw [run_cons rfl, run_cons rfl]
      exact hrun
  | name x => exact fun frames => ⟨.name x, rfl, rfl⟩
  | scalar d ih =>
      intro frames
      have hrun := ih h frames
      obtain ⟨t, ts, ht, hs⟩ := d.exists_scalar_tokens
      refine ⟨.complete d.meaning, ?_, rfl⟩
      show run (.value, frames) d.tokens = _
      rw [ht] at hrun ⊢
      rw [run_value_of_scalar hs, hrun]
  | list is ih =>
      intro frames
      have hrun := ih (fun text hm => h text (by simp [tokens, hm])) (.items .list) [] frames
      exact ⟨.complete (.list is.meaning), hrun, rfl⟩
  | dict ps ih =>
      intro frames
      have hrun := ih (fun text hm => h text (by simp [tokens, hm])) .pairs [] frames
      exact ⟨.complete (.dict ps.meaning), hrun, rfl⟩
  | attr x a as =>
      intro frames
      refine ⟨.attr x (a :: as), ?_, rfl⟩
      show run (.value, frames) (.name x :: chainTokens (a :: as)) = _
      rw [chainTokens_cons, run_cons rfl, run_cons rfl, run_cons rfl]
      exact reads_chain x [a] as frames
  | field x ks ih =>
      intro frames
      refine ⟨.field x ks.meaning, ?_, rfl⟩
      obtain ⟨ts, hts⟩ := ks.exists_keys_tokens
      have hrun := ih (fun text hm => h text (by simp [tokens, hm])) x [] frames
      show run (.value, frames) (.name x :: ks.tokens) = _
      rw [run_cons rfl]
      rw [hts] at hrun ⊢
      exact hrun
  | integer text =>
      intro frames
      have hstep : step (.scalar, frames) (.integer text) =
          .ok (.complete (.int (Int64.ofInt (integerValue text))), frames) := by
        show startScalar (.integer text) frames = _
        rw [startScalar, h text (.head _)]
      exact run_cons hstep []
  | decimal text => exact fun frames => rfl
  | str text => exact fun frames => rfl
  | tuple is ih =>
      intro frames
      exact ih (fun text hm => h text (by simp [tokens, hm])) (.items .tuple) [] frames
  | pair k v ihk ihv =>
      intro done frames
      have hk := ihk (fun text hm => h text (by simp [tokens, hm])) (.pairKey done :: frames)
      obtain ⟨st, hrun, hst⟩ := ihv (fun text hm => h text (by simp [tokens, hm]))
        (.pairValue done k.meaning :: frames)
      refine ⟨_, ?_, Holder.takes_pair hst⟩
      obtain ⟨t, ts, ht, hs⟩ := k.exists_scalar_tokens
      have hne : t ≠ .punct .closeBrace := by
        rintro rfl
        cases hs
      show run (.pairs done, frames) (k.tokens ++ .punct .colon :: v.tokens) = _
      rw [ht] at hk ⊢
      rw [List.cons_append, run_pairs hne, ← List.cons_append, run_append hk, run_cons rfl]
      exact hrun
  | lastKey k ih =>
      intro base done frames
      have hk := ih (fun text hm => h text (by simp [tokens, hm])) (.fieldKey base done :: frames)
      show run (.field base done, frames) (.punct .openBracket :: (k.tokens ++ _)) = _
      rw [run_cons rfl]
      exact run_concat hk rfl
  | key k ks ihk ihks =>
      intro base done frames
      have hk := ihk (fun text hm => h text (by simp [tokens, hm])) (.fieldKey base done :: frames)
      have hks := ihks (fun text hm => h text (by simp [tokens, hm])) base
        (done ++ [k.meaning]) frames
      show run (.field base done, frames)
        (.punct .openBracket :: (k.tokens ++ .punct .closeBracket :: ks.tokens)) = _
      rw [run_cons rfl, run_append hk, run_cons rfl, hks, List.append_assoc]
      rfl
  | none =>
      intro holder done frames
      show run (holder.state done, frames) [.punct holder.close] =
        .ok (holder.whole (done ++ []), frames)
      rw [run_cons (holder.step_close done frames), List.append_nil, run]
  | last d ih =>
      intro holder done frames
      obtain ⟨c, hrun, htakes⟩ := holder.takes (ih h) done frames
      exact run_concat hrun htakes.close
  | more d ds ihd ihds =>
      intro holder done frames
      obtain ⟨c, hrun, htakes⟩ := holder.takes
        (ihd fun text hm => h text (by simp [tokens, hm])) done frames
      have hrest := ihds (fun text hm => h text (by simp [tokens, hm])) holder
        (done ++ [d.meaning]) frames
      show run (holder.state done, frames) ((d.tokens ++ .punct .comma :: ds.tokens) ++ _) = _
      rw [List.append_assoc, run_append hrun, List.cons_append, run_cons htakes.comma, hrest,
        List.append_assoc]
      rfl

end Derivation

end PageLoom
