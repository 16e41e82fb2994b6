import PageLoom.Proofs.Call.Language
import PageLoom.Proofs.Call.Writing

/-!
# What has been read can be completed

A run never leads into a dead end: from every situation, the tokens `completion c` lead to one
that is whole, which closes the constructs around the state, innermost first
(`exists_run_completion`).  Whether what is whole is a call or a value was fixed by the state in
which the run started, for no step enters or leaves a call (`calls_step`).

All tokens can be written, so what a run has read is the beginning of the tokens of a text that
is read to its end (`exists_source`).
-/

namespace PageLoom

/-! ## Whole situations -/

/-- A call or a value has been read, and nothing is open around it. -/
def Situation.Whole (c : Situation) : Prop :=
  (∃ call, c.1 = .done call) ∨ c.2 = [] ∧ ∃ e, c.1.expr? = some e

/-- The tokens that close the constructs around an expression. -/
def closing : List Frame → List Token
  | [] => []
  | .param .. :: _ => [.punct .closeParen]
  | .item kind _ :: frames => .punct kind.close :: closing frames
  | .pairKey _ :: frames =>
      .punct .colon :: .str "" :: .punct .closeBrace :: closing frames
  | .pairValue .. :: frames => .punct .closeBrace :: closing frames
  | .fieldKey .. :: frames => .punct .closeBracket :: closing frames

/-- Tokens that lead from a situation to a whole one. -/
def completion : Situation → List Token
  | (.call, _) => [.name "f", .punct .openParen, .punct .closeParen]
  | (.function _, _) => [.punct .openParen, .punct .closeParen]
  | (.params .., _) => [.punct .closeParen]
  | (.key .., _) => [.punct .equals, .str "", .punct .closeParen]
  | (.value, frames) => .str "" :: closing frames
  | (.scalar, frames) => .str "" :: closing frames
  | (.items kind _, frames) => .punct kind.close :: closing frames
  | (.pairs _, frames) => .punct .closeBrace :: closing frames
  | (.dot .., frames) => .name "a" :: closing frames
  | (.done _, _) => []
  | (.name _, frames) => closing frames
  | (.attr .., frames) => closing frames
  | (.field .., frames) => closing frames
  | (.complete _, frames) => closing frames

theorem Sequence.close_ne (kind : Sequence) : kind.close ≠ .dot ∧ kind.close ≠ .openBracket := by
  cases kind <;> decide

/-- After an expression, what closes all that is open is accepted. -/
theorem exists_run_closing {st : State} {e : Expr} (h : st.expr? = some e) (frames : List Frame) :
    ∃ c, run (st, frames) (closing frames) = .ok c ∧ c.Whole := by
  induction frames generalizing st e with
  | nil => exact ⟨_, rfl, .inr ⟨rfl, e, h⟩⟩
  | cons frame frames ih =>
      cases frame with
      | param f done key =>
          refine ⟨(.done ⟨f, done ++ [(key, e)]⟩, frames), ?_, .inl ⟨_, rfl⟩⟩
          have hstep : step (st, .param f done key :: frames) (.punct .closeParen) =
              .ok (.done ⟨f, done ++ [(key, e)]⟩, frames) :=
            step_of_expr? h (by decide) (by decide) _
          rw [closing, run_cons hstep, run]
      | item kind done =>
          obtain ⟨c, hrun, hwhole⟩ := @ih (.complete (kind.expr (done ++ [e]))) _ rfl
          refine ⟨c, ?_, hwhole⟩
          obtain ⟨hdot, hopen⟩ := kind.close_ne
          have hstep : step (st, .item kind done :: frames) (.punct kind.close) =
              .ok (.complete (kind.expr (done ++ [e])), frames) := by
            rw [step_of_expr? h hdot hopen, afterExpr, if_pos rfl]
          rw [closing, run_cons hstep, hrun]
      | pairKey done =>
          obtain ⟨c, hrun, hwhole⟩ := @ih (.complete (.dict (done ++ [(e, .str "")]))) _ rfl
          refine ⟨c, ?_, hwhole⟩
          have hcolon : step (st, .pairKey done :: frames) (.punct .colon) =
              .ok (.value, .pairValue done e :: frames) :=
            step_of_expr? h (by decide) (by decide) _
          rw [closing, run_cons hcolon]
          exact hrun
      | pairValue done key =>
          obtain ⟨c, hrun, hwhole⟩ := @ih (.complete (.dict (done ++ [(key, e)]))) _ rfl
          refine ⟨c, ?_, hwhole⟩
          have hstep : step (st, .pairValue done key :: frames) (.punct .closeBrace) =
              .ok (.complete (.dict (done ++ [(key, e)])), frames) :=
            step_of_expr? h (by decide) (by decide) _
          rw [closing, run_cons hstep, hrun]
      | fieldKey base done =>
          obtain ⟨c, hrun, hwhole⟩ := @ih (.field base (done ++ [e])) _ rfl
          refine ⟨c, ?_, hwhole⟩
          have hstep : step (st, .fieldKey base done :: frames) (.punct .closeBracket) =
              .ok (.field base (done ++ [e]), frames) :=
            step_of_expr? h (by decide) (by decide) _
          rw [closing, run_cons hstep, hrun]

/-- Every situation can be completed. -/
theorem exists_run_completion (c : Situation) :
    ∃ c', run c (completion c) = .ok c' ∧ c'.Whole := by
  obtain ⟨st, frames⟩ := c
  have after : ∀ {t : Token} {st' : State} {e : Expr}, step (st, frames) t = .ok (st', frames) →
      st'.expr? = some e → ∃ c', run (st, frames) (t :: closing frames) = .ok c' ∧ c'.Whole :=
    fun hstep hexpr => by
      rw [run_cons hstep]
      exact exists_run_closing hexpr frames
  cases st with
  | call => exact ⟨_, rfl, .inl ⟨_, rfl⟩⟩
  | function f => exact ⟨_, rfl, .inl ⟨_, rfl⟩⟩
  | params f done => exact ⟨_, rfl, .inl ⟨_, rfl⟩⟩
  | key f done key => exact ⟨_, rfl, .inl ⟨_, rfl⟩⟩
  | value => exact after rfl rfl
  | scalar => exact after rfl rfl
  | items kind done =>
      refine @after _ (.complete (kind.expr done)) _ ?_ rfl
      rw [step, if_pos rfl]
  | pairs done => exact after rfl rfl
  | name x => exact exists_run_closing rfl frames
  | dot base chain => exact after rfl rfl
  | attr base chain => exact exists_run_closing rfl frames
  | field base keys => exact exists_run_closing rfl frames
  | complete e => exact exists_run_closing rfl frames
  | done call => exact ⟨_, rfl, .inl ⟨_, rfl⟩⟩

/-! ## Calls and values -/

/-- The number of calls in which a construct stands at once. -/
def Frame.calls : Frame → Nat
  | .param .. => 1
  | _ => 0

/-- The number of calls that a state has begun. -/
def State.calls : State → Nat
  | .call => 1
  | .function _ => 1
  | .params .. => 1
  | .key .. => 1
  | .done _ => 1
  | _ => 0

/-- The number of calls that have been begun. -/
def Situation.calls (c : Situation) : Nat := c.1.calls + (c.2.map Frame.calls).sum

/-- An expression by itself is no call. -/
theorem State.calls_of_expr? {st : State} {e : Expr} (h : st.expr? = some e) : st.calls = 0 := by
  cases st <;> first | rfl | cases h

theorem calls_startScalar {t : Token} {frames : List Frame} {c : Situation}
    (h : startScalar t frames = .ok c) : c.calls = (frames.map Frame.calls).sum := by
  unfold startScalar at h
  split at h
  · split at h
    · cases h
      exact Nat.zero_add _
    · cases h
  · cases h
    exact Nat.zero_add _
  · cases h
    exact Nat.zero_add _
  · cases h
    exact Nat.zero_add _
  · cases h

theorem calls_startValue {t : Token} {frames : List Frame} {c : Situation}
    (h : startValue t frames = .ok c) : c.calls = (frames.map Frame.calls).sum := by
  unfold startValue at h
  split at h
  · cases h
    exact Nat.zero_add _
  · cases h
    exact Nat.zero_add _
  · cases h
    exact Nat.zero_add _
  · exact calls_startScalar h
  · exact calls_startScalar h
  · exact calls_startScalar h
  · exact calls_startScalar h
  · cases h

theorem calls_afterExpr {e : Expr} {t : Token} {frames : List Frame} {c : Situation}
    (h : afterExpr e t frames = .ok c) : c.calls = (frames.map Frame.calls).sum := by
  unfold afterExpr at h
  cases frames with
  | nil => cases h
  | cons frame frames =>
      cases frame with
      | param f done key =>
          dsimp only at h
          split at h
          next =>
            cases h
            rfl
          next =>
            cases h
            rfl
          next => cases h
      | item kind done =>
          dsimp only at h
          split at h
          next =>
            cases h
            rfl
          next =>
            split at h
            next =>
              cases h
              rfl
            next => cases h
      | pairKey done =>
          dsimp only at h
          split at h
          next =>
            cases h
            exact Nat.zero_add _
          next => cases h
      | pairValue done key =>
          dsimp only at h
          split at h
          next =>
            cases h
            rfl
          next =>
            cases h
            rfl
          next => cases h
      | fieldKey base done =>
          dsimp only at h
          split at h
          next =>
            cases h
            rfl
          next => cases h

/-- No step enters or leaves a call. -/
theorem calls_step {c c' : Situation} {t : Token} (h : step c t = .ok c') :
    c'.calls = c.calls := by
  obtain ⟨st, frames⟩ := c
  have zero : ∀ {st : State} {frames : List Frame}, st.calls = 0 →
      Situation.calls (st, frames) = (frames.map Frame.calls).sum := fun hst => by
    rw [Situation.calls, hst, Nat.zero_add]
  unfold step at h
  cases st with
  | call =>
      dsimp only at h
      split at h
      next =>
        cases h
        rfl
      next => cases h
  | function f =>
      dsimp only at h
      split at h
      next =>
        cases h
        rfl
      next => cases h
  | params f done =>
      dsimp only at h
      split at h
      next =>
        cases h
        rfl
      next =>
        cases h
        rfl
      next => cases h
  | key f done key =>
      -- The call that the state has begun is that of the frame of its parameter.
      dsimp only at h
      split at h
      next =>
        cases h
        exact zero rfl
      next => cases h
  | value => exact (calls_startValue h).trans (zero rfl).symm
  | scalar => exact (calls_startScalar h).trans (zero rfl).symm
  | items kind done =>
      dsimp only at h
      split at h
      next =>
        cases h
        rfl
      next => exact (calls_startValue h).trans rfl
  | pairs done =>
      dsimp only at h
      split at h
      next =>
        cases h
        rfl
      next => exact (calls_startScalar h).trans rfl
  | name x =>
      dsimp only at h
      split at h
      next =>
        cases h
        rfl
      next =>
        cases h
        exact Nat.zero_add _
      next => exact (calls_afterExpr h).trans (zero rfl).symm
  | dot base chain =>
      dsimp only at h
      split at h
      next =>
        cases h
        rfl
      next => cases h
  | attr base chain =>
      dsimp only at h
      split at h
      next =>
        cases h
        rfl
      next => exact (calls_afterExpr h).trans (zero rfl).symm
  | field base keys =>
      dsimp only at h
      split at h
      next =>
        cases h
        exact Nat.zero_add _
      next => exact (calls_afterExpr h).trans (zero rfl).symm
  | complete e => exact (calls_afterExpr h).trans (zero rfl).symm
  | done call => cases h

/-- Steps keep what is a call a call, and what is a value a value. -/
theorem calls_run {c c' : Situation} {ts : List Token} (h : run c ts = .ok c') :
    c'.calls = c.calls := by
  induction ts generalizing c with
  | nil =>
      cases h
      rfl
  | cons t ts ih =>
      rw [run] at h
      split at h
      next => cases h
      next c₁ hstep => exact (ih h).trans (calls_step hstep)

/-! ## Tokens that can be written -/

/-- A token that has a text. -/
def Token.Written (t : Token) : Prop := ∃ text, Spells text t

/-- Tokens that are read from a text can be written. -/
theorem Lexing.written {o o' : Nat} {cs rest : List Char} {ls : List Lexeme}
    (h : Lexing o cs ls o' rest) : ∀ l ∈ ls, l.token.Written := by
  induction ls generalizing o cs with
  | nil => exact fun l hl => by cases hl
  | cons l ls ih =>
      obtain ⟨blanks, text, after, -, -, -, -, hlongest, hrest⟩ := h.of_cons
      intro l' hl'
      rcases List.mem_cons.mp hl' with rfl | hl'
      · exact ⟨text, hlongest.spells⟩
      · exact ih hrest l' hl'

theorem written_of_tokenize {source : String} {ls : List Lexeme} (h : tokenize source = .ok ls) :
    ∀ t ∈ ls.map Lexeme.token, t.Written := by
  obtain ⟨o, rest, hlexing, -⟩ := tokenize_eq_ok_iff.mp h
  intro t ht
  obtain ⟨l, hl, rfl⟩ := List.mem_map.mp ht
  exact hlexing.written l hl

theorem written_str_nil : Token.Written (.str "") :=
  ⟨_, Token.Spells.str (.inl rfl) (List.not_mem_nil)⟩

theorem written_closing (frames : List Frame) : ∀ t ∈ closing frames, t.Written := by
  induction frames with
  | nil => exact fun t ht => by cases ht
  | cons frame frames ih =>
      have punct : ∀ p, Token.Written (.punct p) := fun p => ⟨_, .punct p⟩
      cases frame with
      | param => simpa [closing] using punct _
      | item => simpa [closing] using ⟨punct _, ih⟩
      | pairKey => simpa [closing] using ⟨punct _, written_str_nil, punct _, ih⟩
      | pairValue => simpa [closing] using ⟨punct _, ih⟩
      | fieldKey => simpa [closing] using ⟨punct _, ih⟩

/-- The tokens of a completion can be written. -/
theorem written_completion (c : Situation) : ∀ t ∈ completion c, t.Written := by
  obtain ⟨st, frames⟩ := c
  have punct : ∀ p, Token.Written (.punct p) := fun p => ⟨_, .punct p⟩
  have name : ∀ x : Char, Token.isNameStart x = true → Token.Written (.name (String.ofList [x])) :=
    fun x hx => ⟨_, .name hx (by simp)⟩
  have close := written_closing frames
  cases st with
  | call => simpa [completion] using ⟨name 'f' rfl, punct _, punct _⟩
  | function => simpa [completion] using ⟨punct _, punct _⟩
  | params => simpa [completion] using punct _
  | key => simpa [completion] using ⟨punct _, written_str_nil, punct _⟩
  | value => simpa [completion] using ⟨written_str_nil, close⟩
  | scalar => simpa [completion] using ⟨written_str_nil, close⟩
  | items => simpa [completion] using ⟨punct _, close⟩
  | pairs => simpa [completion] using ⟨punct _, close⟩
  | dot => simpa [completion] using ⟨name 'a' rfl, close⟩
  | name => exact close
  | attr => exact close
  | field => exact close
  | complete => exact close
  | done => exact fun t ht => by cases ht

/-- Tokens that can be written are those of a text: a space stands before each. -/
theorem exists_writing {ts : List Token} (h : ∀ t ∈ ts, t.Written) :
    ∃ ws : List WrittenToken, ws.map WrittenToken.token = ts ∧ ∀ w ∈ ws, w.spaces ≠ [] := by
  induction ts with
  | nil => exact ⟨[], rfl, by simp⟩
  | cons t ts ih =>
      obtain ⟨text, hspells⟩ := h t (.head _)
      obtain ⟨ws, rfl, hspaces⟩ := ih fun t ht => h t (.tail _ ht)
      exact ⟨⟨[' '], text, t, by simp [Token.isSpace], hspells⟩ :: ws, rfl,
        List.forall_mem_cons.mpr ⟨List.cons_ne_nil _ _, hspaces⟩⟩

/-- Tokens that can be written are those of some text. -/
theorem exists_source {ts : List Token} (h : ∀ t ∈ ts, t.Written) :
    ∃ source ls, tokenize source = .ok ls ∧ ls.map Lexeme.token = ts := by
  obtain ⟨ws, rfl, hspaces⟩ := exists_writing h
  have hapart : ws.Pairwise WrittenToken.Apart :=
    List.pairwise_of_forall_mem_list fun _ _ next hnext => .inl (hspaces next hnext)
  exact ⟨_, _, tokenize_chars hapart.isChain (List.forall_mem_nil _),
    WrittenToken.map_token_lexemes 0 ws⟩

end PageLoom
