import PageLoom.Proofs.Call.Completion
import PageLoom.Proofs.Text.Utf8

/-!
# Where a syntax error is

The parser looks at no token after the first that cannot follow those before it, and what it
has read up to there can be completed.  So an error points at the first impossible token: the
tokens before its offset start those of some text that is read (`Viable`), and no text that is
read starts with these and the token at the offset (`PointsAt.of_run_eq_error`).  An error at the
end of a text says that its tokens are such a beginning, but not all of what is read
(`PointsAt.of_not_whole`).
-/

namespace PageLoom

/-! ## Offsets -/

namespace Partition

variable {o : Nat} {cs rest : List Char} {before after : List Lexeme} {l : Lexeme}

/-- The tokens before a token start before it, and those after it start after it. -/
theorem starts (h : Partition o cs rest (before ++ l :: after)) :
    (∀ l' ∈ before, l'.start < l.start) ∧ ∀ l' ∈ after, l.start < l'.start := by
  obtain ⟨-, hafter, hbefore⟩ := List.pairwise_append.mp h.ordered
  constructor
  · intro l' hl'
    have := hbefore l' hl' l (.head _)
    have := h.nonempty l' (by simp [hl'])
    omega
  · intro l' hl'
    have := (List.pairwise_cons.mp hafter).1 l' hl'
    have := h.nonempty l (by simp)
    omega

/-- The tokens that start before a token are those read before it. -/
theorem filter_start_lt (h : Partition o cs rest (before ++ l :: after)) :
    (before ++ l :: after).filter (fun l' => decide (l'.start < l.start)) = before := by
  obtain ⟨hbefore, hafter⟩ := h.starts
  rw [List.filter_append, List.filter_eq_self.mpr, List.filter_eq_nil_iff.mpr, List.append_nil]
  · intro l' hl'
    rw [decide_eq_true_eq, not_lt]
    rcases List.mem_cons.mp hl' with rfl | hl'
    · exact Nat.le_refl _
    · exact (hafter l' hl').le
  · intro l' hl'
    rw [decide_eq_true_eq]
    exact hbefore l' hl'

/-- No other token starts where a token starts. -/
theorem eq_of_start_eq (h : Partition o cs rest (before ++ l :: after)) {l' : Lexeme}
    (hl' : l' ∈ before ++ l :: after) (hstart : l'.start = l.start) : l' = l := by
  obtain ⟨hbefore, hafter⟩ := h.starts
  rcases List.mem_append.mp hl' with hl' | hl'
  · exact absurd hstart (hbefore l' hl').ne
  · rcases List.mem_cons.mp hl' with rfl | hl'
    · rfl
    · exact absurd hstart (hafter l' hl').ne'

end Partition

/-! ## Texts that are read -/

section Parse

variable {α : Type}

/-- The tokens of a text that is read. -/
def Accepted (parse : String → Except SyntaxError α) (ts : List Token) : Prop :=
  ∃ source ls a, tokenize source = .ok ls ∧ ls.map Lexeme.token = ts ∧ parse source = .ok a

/-- Tokens with which those of a text that is read start. -/
def Viable (parse : String → Except SyntaxError α) (ts : List Token) : Prop :=
  ∃ more, Accepted parse (ts ++ more)

/-- What the offset of an error says of the tokens of a text. -/
structure PointsAt (parse : String → Except SyntaxError α) (source : String) (ls : List Lexeme)
    (o : Nat) : Prop where
  /-- A token starts there, or the text ends there. -/
  place : (∃ l ∈ ls, l.start = o) ∨ o = source.utf8ByteSize
  /-- The tokens that start before it can be continued. -/
  viable : Viable parse ((ls.filter fun l => decide (l.start < o)).map Lexeme.token)
  /-- They cannot be continued with the token that starts there. -/
  impossible : ∀ l ∈ ls, l.start = o →
    ¬ Viable parse ((ls.filter fun l => decide (l.start < o)).map Lexeme.token ++ [l.token])
  /-- At the end of the text these are all its tokens, and they are not all of a text that is
  read. -/
  incomplete : o = source.utf8ByteSize →
    (ls.filter fun l => decide (l.start < o)) = ls ∧ ¬ Accepted parse (ls.map Lexeme.token)

/-- The texts that are read are those whose tokens lead from a state to a whole situation. -/
def ReadsFrom (parse : String → Except SyntaxError α) (start : State) : Prop :=
  ∀ source ls, tokenize source = .ok ls → ((∃ a, parse source = .ok a) ↔
    ∃ c, run (start, []) (ls.map Lexeme.token) = .ok c ∧ c.Whole)

variable {parse : String → Except SyntaxError α} {start : State}

theorem ReadsFrom.accepted_iff (h : ReadsFrom parse start) {ts : List Token}
    (hts : ∀ t ∈ ts, t.Written) :
    Accepted parse ts ↔ ∃ c, run (start, []) ts = .ok c ∧ c.Whole := by
  constructor
  · rintro ⟨source, ls, a, htokens, rfl, hparse⟩
    exact (h source ls htokens).mp ⟨a, hparse⟩
  · intro hrun
    obtain ⟨source, ls, htokens, rfl⟩ := exists_source hts
    obtain ⟨a, ha⟩ := (h source ls htokens).mpr hrun
    exact ⟨source, ls, a, htokens, rfl, ha⟩

/-- A run that stops at a token stops at the first impossible one. -/
theorem PointsAt.of_run_eq_error (h : ReadsFrom parse start) {source : String}
    {before after : List Lexeme} {l : Lexeme}
    (htokens : tokenize source = .ok (before ++ l :: after))
    {c : Situation} (hrun : run (start, []) (before.map Lexeme.token) = .ok c)
    {cause : SyntaxCause} (hstep : step c l.token = .error cause) :
    PointsAt parse source (before ++ l :: after) l.start := by
  have hpartition := tokenize_eq_ok_iff_partition.mp htokens
  have hwritten := written_of_tokenize htokens
  rw [List.map_append] at hwritten
  have hbefore : ∀ t ∈ before.map Lexeme.token, t.Written := fun t ht =>
    hwritten t (List.mem_append_left _ ht)
  have hfilter := hpartition.filter_start_lt
  have hlt : l.start < source.utf8ByteSize := by
    have := hpartition.nonempty l (by simp)
    have := hpartition.inside l (by simp)
    rw [byteLength_toList] at this
    omega
  refine ⟨.inl ⟨l, by simp, rfl⟩, ?_, ?_, fun ho => absurd ho hlt.ne⟩
  · obtain ⟨c', hcompletion, hwhole⟩ := exists_run_completion c
    rw [hfilter]
    refine ⟨completion c, (h.accepted_iff ?_).mpr ⟨c', ?_, hwhole⟩⟩
    · intro t ht
      exact (List.mem_append.mp ht).elim (hbefore t) (written_completion c t)
    · rw [run_append hrun, hcompletion]
  · intro l' hl' hstart
    obtain rfl := hpartition.eq_of_start_eq hl' hstart
    rw [hfilter]
    rintro ⟨more, source', ls', a, htokens', htokens'', hparse⟩
    obtain ⟨c', hrun', -⟩ := (h source' ls' htokens').mp ⟨a, hparse⟩
    rw [htokens'', List.append_assoc, run_append hrun, List.singleton_append, run, hstep] at hrun'
    cases hrun'

/-- A run that does not stop has read the beginning of a text that is read. -/
theorem PointsAt.of_not_whole (h : ReadsFrom parse start) {source : String} {ls : List Lexeme}
    (htokens : tokenize source = .ok ls) {c : Situation}
    (hrun : run (start, []) (ls.map Lexeme.token) = .ok c) (hrefused : ∀ a, parse source ≠ .ok a) :
    PointsAt parse source ls source.utf8ByteSize := by
  have hpartition := tokenize_eq_ok_iff_partition.mp htokens
  have hwritten := written_of_tokenize htokens
  have hlt : ∀ l ∈ ls, l.start < source.utf8ByteSize := fun l hl => by
    have := hpartition.nonempty l hl
    have := hpartition.inside l hl
    rw [byteLength_toList] at this
    omega
  have hfilter : (ls.filter fun l => decide (l.start < source.utf8ByteSize)) = ls :=
    List.filter_eq_self.mpr fun l hl => decide_eq_true (hlt l hl)
  refine ⟨.inr rfl, ?_, fun l hl hstart => absurd hstart (hlt l hl).ne, fun _ => ⟨hfilter, ?_⟩⟩
  · obtain ⟨c', hcompletion, hwhole⟩ := exists_run_completion c
    rw [hfilter]
    refine ⟨completion c, (h.accepted_iff ?_).mpr ⟨c', ?_, hwhole⟩⟩
    · intro t ht
      exact (List.mem_append.mp ht).elim (hwritten t) (written_completion c t)
    · rw [run_append hrun, hcompletion]
  · rw [h.accepted_iff hwritten, ← h source ls htokens]
    rintro ⟨a, ha⟩
    exact hrefused a ha

/-! ## Errors -/

theorem exists_of_run_eq_error {c : Situation} {ls : List Lexeme} {cause : SyntaxCause} {left : Nat}
    (h : run c (ls.map Lexeme.token) = .error (cause, left)) : ∃ before l after c',
      ls = before ++ l :: after ∧ run c (before.map Lexeme.token) = .ok c' ∧
      step c' l.token = .error cause ∧ left = after.length + 1 := by
  induction ls generalizing c with
  | nil => cases h
  | cons l ls ih =>
      rw [List.map_cons, run] at h
      split at h
      next cause' hstep =>
        cases h
        exact ⟨[], l, ls, c, rfl, rfl, hstep, by rw [List.length_map]⟩
      next c₁ hstep =>
        obtain ⟨before, l', after, c', rfl, hrun, hstep', hleft⟩ := ih h
        exact ⟨l :: before, l', after, c', rfl, (run_cons hstep _).trans hrun, hstep', hleft⟩

theorem offsetBefore_append (source : String) (before after : List Lexeme) (l : Lexeme) :
    offsetBefore source (before ++ l :: after) (after.length + 1) = l.start := by
  have hlength : (before ++ l :: after).length - (after.length + 1) = before.length := by
    simp
  rw [offsetBefore, hlength, List.getElem?_append_right (Nat.le_refl _), Nat.sub_self]
  rfl

/-- What the errors of a parser say. -/
structure Blames (parse : String → Except SyntaxError α) (source : String) : Prop where
  /-- A place where no token starts is reported before all else. -/
  unreadable : ∀ e, tokenize source = .error e →
    parse source = .error ⟨.unreadable e.shown, e.offset⟩
  /-- Other errors point at the first impossible token. -/
  points : ∀ ls e, tokenize source = .ok ls → parse source = .error e →
    PointsAt parse source ls e.offset

theorem blames_parseWith {result? : Situation → Option α}
    (h : ReadsFrom (parseWith start result?) start) (source : String) :
    Blames (parseWith start result?) source := by
  constructor
  · intro e he
    rw [parseWith, he]
  · intro ls e htokens herror
    have hrefused : ∀ a, parseWith start result? source ≠ .ok a := fun a ha => by
      cases ha.symm.trans herror
    rw [parseWith, htokens] at herror
    dsimp only at herror
    split at herror
    next cause left hrun =>
      cases herror
      obtain ⟨before, l, after, c, rfl, hbefore, hstep, rfl⟩ := exists_of_run_eq_error hrun
      rw [offsetBefore_append]
      exact .of_run_eq_error h htokens hbefore hstep
    next c hrun =>
      have hend : e.offset = source.utf8ByteSize := by
        split at herror
        next =>
          cases herror
          rfl
        next =>
          split at herror
          next => cases herror
          next =>
            cases herror
            rfl
      rw [hend]
      exact .of_not_whole h htokens hrun hrefused

end Parse

theorem readsFrom_parseCall : ReadsFrom parseCall .call := by
  intro source ls htokens
  simp only [parseCall_eq_ok_iff htokens]
  constructor
  · rintro ⟨call, frames, hrun⟩
    exact ⟨_, hrun, .inl ⟨call, rfl⟩⟩
  · rintro ⟨⟨st, frames⟩, hrun, ⟨call, rfl⟩ | ⟨rfl, e, he⟩⟩
    · exact ⟨call, frames, hrun⟩
    · -- What has been read is one call, and an expression is none.
      have hcalls := calls_run hrun
      rw [Situation.calls, State.calls_of_expr? he] at hcalls
      cases hcalls

theorem readsFrom_parseValue : ReadsFrom parseValue .value := by
  intro source ls htokens
  simp only [parseValue_eq_ok_iff htokens]
  constructor
  · rintro ⟨e, st, hrun, he⟩
    exact ⟨_, hrun, .inr ⟨rfl, e, he⟩⟩
  · rintro ⟨⟨st, frames⟩, hrun, ⟨call, rfl⟩ | ⟨rfl, e, he⟩⟩
    · have hcalls := calls_run hrun
      rw [Situation.calls, State.calls, Nat.add_comm] at hcalls
      cases hcalls
    · exact ⟨e, st, hrun, he⟩

/-- Errors of calls and of values point at the first impossible token. -/
theorem syntaxError_points_at (source : String) :
    Blames parseCall source ∧ Blames parseValue source :=
  ⟨blames_parseWith readsFrom_parseCall source, blames_parseWith readsFrom_parseValue source⟩

/-- Two parameters without a comma: the second is impossible, and what stands before is not. -/
theorem syntaxError_points_at_missing_comma : ∃ ls e, tokenize "f(a=1 b)" = .ok ls ∧
    parseCall "f(a=1 b)" = .error e ∧ e.offset = 6 ∧ PointsAt parseCall "f(a=1 b)" ls 6 :=
  ⟨_, _, rfl, rfl, rfl, (syntaxError_points_at "f(a=1 b)").1.points _ _ rfl rfl⟩

end PageLoom
