import PageLoom.Proofs.Call.Language
import PageLoom.Proofs.Call.Lexing

/-!
# A part of a call is no call

A call ends with a parenthesis.  A text that is cut before that parenthesis is refused,
wherever the cut is: in a string, in a number or in a name (`parseCall_of_cut`).  If it were
a call, the tokens of the whole text would start with its tokens, and no token may follow
a call.
-/

namespace PageLoom

/-! ## The end of a run -/

theorem startScalar_ne_done {t : Token} {frames frames' : List Frame} {call : CallExpr} :
    startScalar t frames ≠ .ok (.done call, frames') := by
  intro h
  unfold startScalar at h
  split at h
  · split at h <;> cases h
  · cases h
  · cases h
  · cases h
  · cases h

theorem startValue_ne_done {t : Token} {frames frames' : List Frame} {call : CallExpr} :
    startValue t frames ≠ .ok (.done call, frames') := by
  intro h
  unfold startValue at h
  split at h
  · cases h
  · cases h
  · cases h
  · exact startScalar_ne_done h
  · exact startScalar_ne_done h
  · exact startScalar_ne_done h
  · exact startScalar_ne_done h
  · cases h

theorem eq_closeParen_of_afterExpr {e : Expr} {t : Token} {frames frames' : List Frame}
    {call : CallExpr} (h : afterExpr e t frames = .ok (.done call, frames')) :
    t = .punct .closeParen := by
  unfold afterExpr at h
  split at h
  · cases h
  · split at h
    · rfl
    · cases h
    · cases h
  · split at h
    · cases h
    · split at h <;> cases h
  · split at h <;> cases h
  · split at h <;> cases h
  · split at h <;> cases h

/-- A call is complete with a parenthesis. -/
theorem eq_closeParen_of_step {c : Situation} {t : Token} {frames : List Frame}
    {call : CallExpr} (h : step c t = .ok (.done call, frames)) : t = .punct .closeParen := by
  unfold step at h
  split at h
  · split at h <;> cases h
  · split at h <;> cases h
  · split at h
    · rfl
    · cases h
    · cases h
  · split at h <;> cases h
  · exact absurd h startValue_ne_done
  · exact absurd h startScalar_ne_done
  · split at h
    · cases h
    · exact absurd h startValue_ne_done
  · split at h
    · cases h
    · exact absurd h startScalar_ne_done
  · split at h
    · cases h
    · cases h
    · exact eq_closeParen_of_afterExpr h
  · split at h <;> cases h
  · split at h
    · cases h
    · exact eq_closeParen_of_afterExpr h
  · split at h
    · cases h
    · exact eq_closeParen_of_afterExpr h
  · exact eq_closeParen_of_afterExpr h
  · cases h

theorem exists_concat_of_run {c : Situation} {ts : List Token} {frames : List Frame}
    {call : CallExpr} (hc : ∀ call frames, c ≠ (.done call, frames))
    (h : run c ts = .ok (.done call, frames)) : ∃ init, ts = init ++ [.punct .closeParen] := by
  induction ts generalizing c with
  | nil =>
      cases h
      exact absurd rfl (hc call frames)
  | cons t ts ih =>
      rw [run] at h
      split at h
      next => cases h
      next c' hstep =>
        cases ts with
        | nil =>
            cases h
            exact ⟨[], by rw [eq_closeParen_of_step hstep]; rfl⟩
        | cons t' ts =>
            -- A run goes on after `c'`, so `c'` is no whole call.
            have hc' : ∀ call frames, c' ≠ (.done call, frames) := by
              rintro call frames rfl
              cases h
            obtain ⟨init, hinit⟩ := ih hc' h
            exact ⟨t :: init, congrArg _ hinit⟩

theorem eq_nil_of_run_done {call : CallExpr} {frames : List Frame} {ts : List Token}
    {c : Situation} (h : run (.done call, frames) ts = .ok c) : ts = [] := by
  cases ts with
  | nil => rfl
  | cons t ts => cases h

/-! ## Whole texts -/

/-- The tokens of a text are those of a call. -/
structure ReadsCall (cs : List Char) (ls : List Lexeme) (o : Nat) (rest : List Char)
    (call : CallExpr) : Prop where
  lexing : Lexing 0 cs ls o rest
  spaces : ∀ c ∈ rest, Token.isSpace c = true
  run : ∃ frames, run (.call, []) (ls.map Lexeme.token) = .ok (.done call, frames)

theorem parseCall_eq_ok_iff_reads {source : String} {call : CallExpr} :
    parseCall source = .ok call ↔ ∃ ls o rest, ReadsCall source.toList ls o rest call := by
  constructor
  · intro h
    cases htokens : tokenize source with
    | error e =>
        rw [parseCall, parseWith, htokens] at h
        cases h
    | ok ls =>
        obtain ⟨o, rest, hlexing, hspaces⟩ := tokenize_eq_ok_iff.mp htokens
        exact ⟨ls, o, rest, hlexing, hspaces, (parseCall_eq_ok_iff htokens call).mp h⟩
  · rintro ⟨ls, o, rest, h⟩
    have htokens := tokenize_eq_ok_iff.mpr ⟨o, rest, h.lexing, h.spaces⟩
    exact (parseCall_eq_ok_iff htokens call).mpr h.run

theorem Token.eq_of_scan?_punct {cs : List Char} {p : Punct} {n : Nat}
    (h : scan? cs = some (.punct p, n)) : cs = p.char :: cs.drop n := by
  cases cs with
  | nil => cases h
  | cons c cs =>
      have hdigits : ∀ {sign cs}, scanDigits? sign cs ≠ some (.punct p, n) := by
        intro sign cs h
        unfold scanDigits? at h
        dsimp only at h
        split at h
        · split at h
          · split at h <;> cases h
          · cases h
        · split at h <;> cases h
      rw [scan?] at h
      split at h
      next =>
        rw [scanString?] at h
        split at h <;> cases h
      split at h
      next => cases h
      next =>
        split at h
        next r hr =>
          cases h
          unfold scanNumber? at hr
          split at hr
          · exact absurd hr hdigits
          · exact absurd hr hdigits
        next =>
          obtain ⟨q, hq, heq⟩ := Option.map_eq_some_iff.mp h
          cases heq
          have hchar := List.find?_some hq
          rw [beq_iff_eq] at hchar
          rw [hchar]
          rfl

namespace ReadsCall

variable {cs rest : List Char} {ls : List Lexeme} {o : Nat} {call : CallExpr}

theorem exists_concat (h : ReadsCall cs ls o rest call) :
    ∃ init, ls.map Lexeme.token = init ++ [.punct .closeParen] := by
  obtain ⟨frames, hrun⟩ := h.run
  exact exists_concat_of_run (by rintro call frames ⟨⟩) hrun

theorem ne_nil (h : ReadsCall cs ls o rest call) : ls ≠ [] := by
  rintro rfl
  obtain ⟨init, hinit⟩ := h.exists_concat
  exact List.append_ne_nil_of_right_ne_nil init (List.cons_ne_nil _ []) hinit.symm

/-- The parenthesis at the end of a call. -/
theorem exists_closeParen (h : ReadsCall cs ls o rest call) : ∃ w, cs = w ++ ')' :: rest := by
  obtain ⟨init, hinit⟩ := h.exists_concat
  obtain ⟨ls₁, last, rfl, -, hlast⟩ := List.map_eq_append_iff.mp hinit
  obtain ⟨l, rfl, hl⟩ := List.map_eq_singleton_iff.mp hlast
  obtain ⟨o₁, rest₁, hfirst, hclose⟩ := h.lexing.exists_append
  cases hclose with
  | @cons _ n _ _ _ t _ _ _ hstart hstop hscan hrest =>
      cases hl
      obtain ⟨u, hu⟩ := hfirst.suffix.1
      have hparen := Token.eq_of_scan?_punct hscan
      cases hrest
      refine ⟨u ++ rest₁.takeWhile Token.isSpace, ?_⟩
      calc cs = u ++ rest₁ := hu.symm
        _ = u ++ (rest₁.takeWhile Token.isSpace ++ rest₁.dropWhile Token.isSpace) := by
            rw [List.takeWhile_append_dropWhile]
        _ = u ++ rest₁.takeWhile Token.isSpace ++ rest₁.dropWhile Token.isSpace :=
            (List.append_assoc _ _ _).symm
        _ = _ := congrArg _ hparen

/-- What follows a call in a text that is a call is spaces. -/
theorem spaces_of_append {more : List Char} {ls' : List Lexeme} {o' : Nat} {rest' : List Char}
    {call' : CallExpr} (h : ReadsCall (cs ++ more) ls o rest call)
    (h' : ReadsCall cs ls' o' rest' call') : ∀ c ∈ more, Token.isSpace c = true := by
  obtain ⟨w, rfl⟩ := h'.exists_closeParen
  obtain ⟨frames, hrun⟩ := h.run
  obtain ⟨frames', hrun'⟩ := h'.run
  have hwhole := h.lexing
  have hpart := h'.lexing.replace_rest (rest' ++ more)
  rw [List.append_assoc, List.cons_append] at hwhole
  obtain ⟨extra, rfl, hextra⟩ := hwhole.exists_more h.spaces hpart
  rw [List.map_append, run_append hrun'] at hrun
  cases List.map_eq_nil_iff.mp (eq_nil_of_run_done hrun)
  cases hextra
  exact fun c hc => h.spaces c (List.mem_append_right _ hc)

end ReadsCall

variable {s : String} {call : CallExpr}

/-- A call ends with a parenthesis, and spaces may follow it. -/
theorem exists_closeParen_of_parseCall (h : parseCall s = .ok call) :
    ∃ a b, s.toList = a ++ ')' :: b ∧ ∀ c ∈ b, Token.isSpace c = true := by
  obtain ⟨ls, o, rest, hreads⟩ := parseCall_eq_ok_iff_reads.mp h
  obtain ⟨a, ha⟩ := hreads.exists_closeParen
  exact ⟨a, rest, ha, hreads.spaces⟩

theorem exists_error_of_ne_ok {source : String} (h : ∀ call, parseCall source ≠ .ok call) :
    ∃ e, parseCall source = .error e := by
  cases hparse : parseCall source with
  | error e => exact ⟨e, rfl⟩
  | ok call => exact absurd hparse (h call)

/-- A call that is cut before its last parenthesis is refused. -/
theorem parseCall_of_cut (h : parseCall s = .ok call) {p : String} {more : List Char}
    (hs : s.toList = p.toList ++ more) (hmore : ')' ∈ more) : ∃ e, parseCall p = .error e := by
  refine exists_error_of_ne_ok fun call' h' => ?_
  obtain ⟨ls, o, rest, hreads⟩ := parseCall_eq_ok_iff_reads.mp h
  obtain ⟨ls', o', rest', hreads'⟩ := parseCall_eq_ok_iff_reads.mp h'
  rw [hs] at hreads
  have hspace := hreads.spaces_of_append hreads' _ hmore
  revert hspace
  decide

/-! ## Blanks around a call -/

theorem isBlank_of_isSpace {c : Char} (h : Token.isSpace c = true) : isBlank c = true := by
  simp only [Token.isSpace, Bool.or_eq_true, beq_iff_eq] at h
  rcases h with (((rfl | rfl) | rfl) | rfl) | rfl <;> decide

theorem visible_of_scanDigits? {c : Char} {cs : List Char} {t : Token} {n : Nat}
    (h : Token.scanDigits? [] (c :: cs) = some (t, n)) : 0x20 < c.toNat ∧ c.toNat < 0x7F := by
  by_cases hc : c.isDigit = true
  · exact visible_of_isAlphanum (by rw [Char.isAlphanum, hc, Bool.or_true])
  · unfold Token.scanDigits? at h
    rw [List.takeWhile_cons_of_neg hc, List.dropWhile_cons_of_neg hc] at h
    dsimp only at h
    split at h
    next rest heq =>
      rw [(List.cons.inj heq).1]
      decide
    next => cases h

/-- Every token starts with a visible character. -/
theorem visible_of_scan? {c : Char} {cs : List Char} {t : Token} {n : Nat}
    (h : Token.scan? (c :: cs) = some (t, n)) : 0x20 < c.toNat ∧ c.toNat < 0x7F := by
  rw [Token.scan?] at h
  split at h
  next hq => rcases hq with rfl | rfl <;> decide
  split at h
  next hname =>
    rw [Token.isNameStart, Bool.or_eq_true, beq_iff_eq] at hname
    rcases hname with halpha | rfl
    · exact visible_of_isAlphanum (by rw [Char.isAlphanum, halpha, Bool.true_or])
    · decide
  next =>
    split at h
    next r hr =>
      cases h
      unfold Token.scanNumber? at hr
      split at hr
      next rest heq =>
        rw [(List.cons.inj heq).1]
        decide
      next => exact visible_of_scanDigits? hr
    next =>
      obtain ⟨p, hp, -⟩ := Option.map_eq_some_iff.mp h
      have hchar := List.find?_some hp
      rw [beq_iff_eq] at hchar
      rw [← hchar]
      cases p <;> decide

/-- Blanks before the tokens of a text are spaces. -/
theorem Lexing.isSpace_of_blanks {o o' : Nat} {blanks cs rest : List Char} {ls : List Lexeme}
    (h : Lexing o (blanks ++ cs) ls o' rest) (hne : ls ≠ [])
    (hblank : ∀ c ∈ blanks, isBlank c = true) : ∀ c ∈ blanks, Token.isSpace c = true := by
  cases h with
  | nil => exact absurd rfl hne
  | cons hstart hstop hscan hrest =>
      rw [← List.dropWhile_eq_nil_iff]
      cases hdrop : blanks.dropWhile Token.isSpace with
      | nil => rfl
      | cons d ds =>
          have hmem : d ∈ blanks :=
            (List.dropWhile_suffix Token.isSpace).subset (hdrop ▸ List.mem_cons_self)
          rw [List.dropWhile_append, hdrop] at hscan
          obtain ⟨hlow, hhigh⟩ := visible_of_scan? hscan
          have hd := isBlank_of_visible hlow hhigh
          rw [hblank d hmem] at hd
          cases hd

/-- What is left of a call that is cut before its last parenthesis is refused without the
blanks around it. -/
theorem parseCall_trim_of_cut (h : parseCall s = .ok call) {cs more : List Char}
    (hs : s.toList = cs ++ more) (hmore : ')' ∈ more) :
    ∃ e, parseCall (String.ofList (trim cs)) = .error e := by
  refine exists_error_of_ne_ok fun call' h' => ?_
  obtain ⟨bs, bs', hcs, hbs, -⟩ := (trimmed_trim cs).around
  obtain ⟨ls, o, rest, hreads⟩ := parseCall_eq_ok_iff_reads.mp h
  obtain ⟨ls', o', rest', hreads'⟩ := parseCall_eq_ok_iff_reads.mp h'
  rw [String.toList_ofList] at hreads'
  have hbefore : s.toList = bs ++ (trim cs ++ (bs' ++ more)) := by
    rw [hs]
    conv => lhs; rw [hcs]
    simp only [List.append_assoc]
  have hspaces : ∀ b ∈ bs, Token.isSpace b = true :=
    (hbefore ▸ hreads.lexing).isSpace_of_blanks hreads.ne_nil hbs
  -- The blanks before it are spaces, so with them it would be a call as well.
  have hcut : s.toList = (String.ofList (bs ++ trim cs)).toList ++ (bs' ++ more) := by
    rw [hbefore, String.toList_ofList, List.append_assoc]
  obtain ⟨e, he⟩ := parseCall_of_cut h hcut (List.mem_append_right _ hmore)
  have hok : parseCall (String.ofList (bs ++ trim cs)) = .ok call' := by
    obtain ⟨ls₁, o₁, hlexing, htokens⟩ :=
      hreads'.lexing.exists_append_of_spaces hreads'.ne_nil hspaces 0
    refine parseCall_eq_ok_iff_reads.mpr ⟨ls₁, o₁, rest', ?_, hreads'.spaces, ?_⟩
    · rwa [String.toList_ofList]
    · rw [htokens]
      exact hreads'.run
  rw [hok] at he
  cases he

end PageLoom
