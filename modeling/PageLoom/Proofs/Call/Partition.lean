import PageLoom.Proofs.Call.Spelling

/-!
# The partition of a source

`Partition o cs rest ls` says that the text `cs`, which starts at the offset `o` and before the
text `rest`, is cut into the tokens `ls` and spaces: the tokens stand one after another, each is
the longest token at its place, and all characters outside them are spaces.

A source is tokenized in the only way in which it is cut so, and it is not tokenized where the
text before a place is cut so and no token starts at the place
(`tokenize_eq_ok_iff_partition`, `tokenize_eq_error_iff_partition`).
-/

namespace PageLoom

/-! ## Bytes -/

theorem byteLength_pos {cs : List Char} (h : cs ≠ []) : 0 < byteLength cs := by
  cases cs with
  | nil => exact absurd rfl h
  | cons c cs =>
      have := Char.utf8Size_pos c
      rw [byteLength]
      omega

/-- Beginnings of one text are compared by their bytes. -/
theorem prefix_of_byteLength_le {as bs cs : List Char} (has : as <+: cs) (hbs : bs <+: cs)
    (h : byteLength as ≤ byteLength bs) : as <+: bs := by
  rcases List.prefix_or_prefix_of_prefix has hbs with hprefix | ⟨more, rfl⟩
  · exact hprefix
  · have hmore : more = [] := by
      by_contra hne
      have := byteLength_pos hne
      rw [byteLength_append] at h
      omega
    exact ⟨[], by rw [hmore, List.append_nil, List.append_nil]⟩

/-! ## Tokens that are read -/

namespace Lexing

variable {o o' : Nat} {cs rest : List Char} {ls : List Lexeme}

/-- Spaces and the longest token at a place are read. -/
theorem read {blanks text : List Char} {t : Token} {start stop : Nat}
    (hblanks : ∀ c ∈ blanks, Token.isSpace c = true) (hstart : start = o + byteLength blanks)
    (hstop : stop = start + byteLength text) (hlongest : Token.IsLongest (text ++ cs) text t)
    (h : Lexing stop cs ls o' rest) :
    Lexing o (blanks ++ text ++ cs) (⟨t, start, stop⟩ :: ls) o' rest := by
  obtain ⟨c, text', htext⟩ := List.exists_cons_of_ne_nil hlongest.spells.ne_nil
  have hc : ¬ Token.isSpace c = true :=
    Bool.eq_false_iff.mp (Token.Spells.head (htext ▸ hlongest.spells))
  have htake : (blanks ++ text ++ cs).takeWhile Token.isSpace = blanks := by
    rw [htext, List.append_assoc, List.takeWhile_append_of_pos hblanks, List.cons_append,
      List.takeWhile_cons_of_neg hc, List.append_nil]
  have hdrop : (blanks ++ text ++ cs).dropWhile Token.isSpace = text ++ cs := by
    rw [htext, List.append_assoc, List.dropWhile_append_of_pos hblanks, List.cons_append,
      List.dropWhile_cons_of_neg hc]
  refine .cons (n := text.length) ?_ ?_ ?_ ?_
  · rw [htake, hstart]
  · rw [hdrop, List.take_left, hstop]
  · rw [hdrop]
    exact Token.scan?_eq_some_iff.mpr ⟨text, rfl, hlongest⟩
  · rw [hdrop, List.drop_left]
    exact h

theorem of_cons {l : Lexeme} (h : Lexing o cs (l :: ls) o' rest) : ∃ blanks text after,
    cs = blanks ++ text ++ after ∧ (∀ c ∈ blanks, Token.isSpace c = true) ∧
      l.start = o + byteLength blanks ∧ l.stop = l.start + byteLength text ∧
      Token.IsLongest (text ++ after) text l.token ∧ Lexing l.stop after ls o' rest := by
  cases h with
  | @cons o n o' cs rest t ls start stop hstart hstop hscan hrest =>
      obtain ⟨text, rfl, hlongest⟩ := Token.scan?_eq_some_iff.mp hscan
      obtain ⟨after, hafter⟩ := hlongest.starts
      rw [← hafter] at hstop hrest hlongest
      rw [List.take_left] at hstop
      rw [List.drop_left] at hrest
      refine ⟨cs.takeWhile Token.isSpace, text, after, ?_, fun c hc => List.mem_takeWhile_imp hc,
        hstart, hstop, hlongest, hrest⟩
      rw [List.append_assoc, hafter, List.takeWhile_append_dropWhile]

/-- The offsets are those of the text that is left. -/
theorem offset (h : Lexing o cs ls o' rest) : o' + byteLength rest = o + byteLength cs := by
  induction ls generalizing o cs with
  | nil =>
      cases h
      rfl
  | cons l ls ih =>
      obtain ⟨blanks, text, after, rfl, -, hstart, hstop, -, hrest⟩ := h.of_cons
      have := ih hrest
      rw [byteLength_append, byteLength_append]
      omega

end Lexing

/-! ## Partitions -/

/-- A token stands in a text that starts at an offset: its bytes are those of a part of the text,
and the part is the longest text of a token at its place. -/
def Lexeme.StandsIn (l : Lexeme) (o : Nat) (cs : List Char) : Prop :=
  ∃ left text right, cs = left ++ text ++ right ∧ l.start = o + byteLength left ∧
    l.stop = l.start + byteLength text ∧ Token.IsLongest (text ++ right) text l.token

/-- A text that starts at an offset and goes on after `cs` is cut into tokens and spaces. -/
structure Partition (o : Nat) (cs rest : List Char) (ls : List Lexeme) : Prop where
  stands : ∀ l ∈ ls, l.StandsIn o (cs ++ rest)
  nonempty : ∀ l ∈ ls, l.start < l.stop
  ordered : ls.Pairwise fun l l' => l.stop ≤ l'.start
  inside : ∀ l ∈ ls, l.stop ≤ o + byteLength cs
  spaces : ∀ left c right, cs = left ++ c :: right →
    (∀ l ∈ ls, ¬ (l.start ≤ o + byteLength left ∧ o + byteLength left < l.stop)) →
      Token.isSpace c = true

namespace Partition

variable {o : Nat} {cs rest : List Char} {ls : List Lexeme}

theorem nil_iff : Partition o cs rest [] ↔ ∀ c ∈ cs, Token.isSpace c = true := by
  constructor
  · intro h c hc
    obtain ⟨left, right, hcs⟩ := List.append_of_mem hc
    exact h.spaces left c right hcs fun l hl => by cases hl
  · intro h
    refine ⟨by simp, by simp, .nil, by simp, ?_⟩
    rintro left c right rfl -
    exact h c (by simp)

/-- Spaces and a token stand before a partition. -/
theorem cons {blanks text : List Char} {t : Token} {start stop : Nat}
    (hblanks : ∀ c ∈ blanks, Token.isSpace c = true)
    (hstart : start = o + byteLength blanks) (hstop : stop = start + byteLength text)
    (hlongest : Token.IsLongest (text ++ (cs ++ rest)) text t) (h : Partition stop cs rest ls) :
    Partition o (blanks ++ text ++ cs) rest (⟨t, start, stop⟩ :: ls) := by
  have hpos : start < stop := by
    have := byteLength_pos hlongest.spells.ne_nil
    omega
  have hlater : ∀ l ∈ ls, stop ≤ l.start := fun l hl => by
    obtain ⟨left, -, -, -, hleft, -⟩ := h.stands l hl
    omega
  refine ⟨?_, ?_, .cons hlater h.ordered, ?_, ?_⟩
  · intro l hl
    rcases List.mem_cons.mp hl with rfl | hl
    · exact ⟨blanks, text, cs ++ rest, by simp, hstart, hstop, hlongest⟩
    · obtain ⟨left, text', right, hcs, hleft, hright, hlongest'⟩ := h.stands l hl
      refine ⟨blanks ++ text ++ left, text', right, ?_, ?_, hright, hlongest'⟩
      · rw [List.append_assoc _ cs rest, hcs]
        simp
      · rw [hleft, byteLength_append, byteLength_append]
        omega
  · intro l hl
    rcases List.mem_cons.mp hl with rfl | hl
    · exact hpos
    · exact h.nonempty l hl
  · intro l hl
    rw [byteLength_append, byteLength_append]
    rcases List.mem_cons.mp hl with rfl | hl
    · dsimp only
      omega
    · have := h.inside l hl
      omega
  · intro left c right hcs hout
    have hfirst := hout _ (.head _)
    dsimp only at hfirst
    rcases Nat.lt_or_ge (byteLength left) (byteLength blanks) with hlt | hge
    · -- A character before the token.
      obtain ⟨more, hmore⟩ := @prefix_of_byteLength_le _ _ (blanks ++ text ++ cs)
        ⟨_, hcs.symm⟩ ⟨_, (List.append_assoc _ _ _).symm⟩ hlt.le
      cases more with
      | nil =>
          rw [List.append_nil] at hmore
          rw [hmore] at hlt
          exact absurd hlt (Nat.lt_irrefl _)
      | cons d more =>
          rw [← hmore, List.append_assoc, List.append_assoc, List.append_cancel_left_eq] at hcs
          rw [← (List.cons.inj hcs).1]
          exact hblanks d (hmore ▸ by simp)
    · -- A character after the token.
      obtain ⟨more, rfl⟩ := @prefix_of_byteLength_le (blanks ++ text) left _
        ⟨_, rfl⟩ ⟨_, hcs.symm⟩ (by rw [byteLength_append]; omega)
      rw [List.append_assoc (blanks ++ text), List.append_cancel_left_eq] at hcs
      refine h.spaces more c right hcs fun l hl => ?_
      have := hout l (.tail _ hl)
      rw [byteLength_append, byteLength_append] at this
      omega

/-- Spaces and a token stand before the partition that is left. -/
theorem of_cons {l : Lexeme} (h : Partition o cs rest (l :: ls)) : ∃ blanks text after,
    cs = blanks ++ text ++ after ∧ (∀ c ∈ blanks, Token.isSpace c = true) ∧
      l.start = o + byteLength blanks ∧ l.stop = l.start + byteLength text ∧
      Token.IsLongest (text ++ (after ++ rest)) text l.token ∧
      Partition l.stop after rest ls := by
  obtain ⟨blanks, text, right, hcs, hstart, hstop, hlongest⟩ := h.stands l (.head _)
  have hinside := h.inside l (.head _)
  have hlater : ∀ l' ∈ ls, l.stop ≤ l'.start := (List.pairwise_cons.mp h.ordered).1
  obtain ⟨after, rfl⟩ : blanks ++ text <+: cs :=
    @prefix_of_byteLength_le _ _ (cs ++ rest) ⟨right, hcs.symm⟩ ⟨rest, rfl⟩
      (by rw [byteLength_append]; omega)
  rw [List.append_assoc (blanks ++ text), List.append_cancel_left_eq] at hcs
  subst hcs
  refine ⟨blanks, text, after, rfl, ?_, hstart, hstop, hlongest, ?_⟩
  · intro c hc
    obtain ⟨left, right, rfl⟩ := List.append_of_mem hc
    refine h.spaces left c (right ++ text ++ after) (by simp) fun l' hl' => ?_
    rw [byteLength_append, byteLength] at hstart
    have := Char.utf8Size_pos c
    rcases List.mem_cons.mp hl' with rfl | hl'
    · omega
    · have := hlater l' hl'
      omega
  · refine ⟨?_, fun l' hl' => h.nonempty l' (.tail _ hl'), h.ordered.of_cons, ?_, ?_⟩
    · intro l' hl'
      obtain ⟨left, text', right', hcs, hstart', hstop', hlongest'⟩ := h.stands l' (.tail _ hl')
      have := hlater l' hl'
      obtain ⟨more, rfl⟩ : blanks ++ text <+: left :=
        @prefix_of_byteLength_le _ _ (blanks ++ text ++ after ++ rest)
          ⟨_, (List.append_assoc _ _ _).symm⟩ ⟨text' ++ right', by rw [hcs, List.append_assoc]⟩
          (by rw [byteLength_append]; omega)
      refine ⟨more, text', right', ?_, ?_, hstop', hlongest'⟩
      · simpa using hcs
      · rw [hstart', byteLength_append, byteLength_append]
        omega
    · intro l' hl'
      have := h.inside l' (.tail _ hl')
      rw [byteLength_append, byteLength_append] at this
      omega
    · rintro left c right rfl hout
      refine h.spaces (blanks ++ text ++ left) c right (by simp) fun l' hl' => ?_
      rw [byteLength_append, byteLength_append]
      rcases List.mem_cons.mp hl' with rfl | hl'
      · omega
      · have := hout l' hl'
        omega

/-- What is read as tokens and spaces is cut into them. -/
theorem of_lexing {o' : Nat} {blanks : List Char} (h : Lexing o (cs ++ rest) ls o' (blanks ++ rest))
    (hblanks : ∀ c ∈ blanks, Token.isSpace c = true) : Partition o cs rest ls := by
  induction ls generalizing o cs with
  | nil =>
      generalize htext : cs ++ rest = text at h
      cases h
      rw [List.append_left_inj] at htext
      exact nil_iff.mpr (htext ▸ hblanks)
  | cons l ls ih =>
      obtain ⟨spaces, text, after, hcs, hspaces, hstart, hstop, hlongest, hrest⟩ := h.of_cons
      obtain ⟨more, rfl⟩ := hrest.suffix.1
      obtain rfl : cs = spaces ++ text ++ (more ++ blanks) := by
        rw [← List.append_left_inj rest, hcs]
        simp
      have hmore : more ++ (blanks ++ rest) = more ++ blanks ++ rest := by simp
      rw [hmore] at hlongest hrest
      exact cons hspaces hstart hstop hlongest (ih hrest)

/-- A text that is cut into tokens and spaces is read in this way. -/
theorem exists_lexing (h : Partition o cs rest ls) : ∃ o' blanks,
    Lexing o (cs ++ rest) ls o' (blanks ++ rest) ∧ ∀ c ∈ blanks, Token.isSpace c = true := by
  induction ls generalizing o cs with
  | nil => exact ⟨o, cs, .nil, nil_iff.mp h⟩
  | cons l ls ih =>
      obtain ⟨spaces, text, after, rfl, hspaces, hstart, hstop, hlongest, hafter⟩ := h.of_cons
      obtain ⟨o', blanks, hlexing, hblanks⟩ := ih hafter
      refine ⟨o', blanks, ?_, hblanks⟩
      rw [List.append_assoc (spaces ++ text)]
      exact hlexing.read hspaces hstart hstop hlongest

end Partition

/-! ## Sources -/

/-- No token starts at a text, which starts with no space. -/
structure Token.Stuck (cs : List Char) : Prop where
  visible : ∃ c more, cs = c :: more ∧ isSpace c = false
  noToken : ∀ text t, text <+: cs → ¬ Spells text t

theorem Token.Stuck.scan?_eq_none {cs : List Char} (h : Stuck cs) : scan? cs = none :=
  scan?_eq_none_iff.mpr h.noToken

theorem tokensFrom_eq_error_iff {o fuel : Nat} {cs : List Char} {e : LexError}
    (hfuel : cs.length < fuel) : tokensFrom o cs fuel = .error e ↔
      ∃ ls o' left, Lexing o cs ls o' left ∧ Token.Stuck (left.dropWhile Token.isSpace) ∧
        e = ⟨String.ofList (Token.unreadable (left.dropWhile Token.isSpace)),
          o' + byteLength (left.takeWhile Token.isSpace)⟩ := by
  induction fuel generalizing o cs with
  | zero => cases hfuel
  | succ fuel ih =>
      rw [tokensFrom]
      dsimp only
      have hlength := (List.dropWhile_suffix (l := cs) Token.isSpace).length_le
      have hhead := List.head?_dropWhile_not Token.isSpace cs
      cases hcs : cs.dropWhile Token.isSpace with
      | nil =>
          refine iff_of_false (fun h => by cases h) ?_
          rintro ⟨ls, o', left, h, hstuck, -⟩
          cases h with
          | nil =>
              obtain ⟨c, more, hvisible, -⟩ := hstuck.visible
              rw [hcs] at hvisible
              cases hvisible
          | cons hstart hstop hscan hrest =>
              rw [hcs] at hscan
              cases hscan
      | cons c rest =>
          dsimp only
          rw [hcs] at hlength hhead
          cases hscan : Token.scan? (c :: rest) with
          | none =>
              constructor
              · intro h
                cases h
                refine ⟨[], o, cs, .nil, ⟨⟨c, rest, hcs, ?_⟩, ?_⟩, ?_⟩
                · simpa using hhead
                · rw [hcs]
                  exact Token.scan?_eq_none_iff.mp hscan
                · rw [hcs]
              · rintro ⟨ls, o', left, h, hstuck, rfl⟩
                cases h with
                | nil => rw [hcs]
                | cons hstart hstop hscan' hrest =>
                    rw [hcs, hscan] at hscan'
                    cases hscan'
          | some found =>
              obtain ⟨t, n⟩ := found
              dsimp only
              have hn := Token.length_of_scan? hscan
              have hdrop : ((c :: rest).drop n).length < fuel := by
                rw [List.length_drop]
                omega
              constructor
              · intro h
                split at h
                next e' herror =>
                  cases h
                  obtain ⟨ls, o', left, hrest, hstuck, he⟩ := (ih hdrop).mp herror
                  refine ⟨_ :: ls, o', left, .cons (n := n) (t := t) rfl rfl ?_ ?_, hstuck, he⟩
                  · rw [hcs, hscan]
                  · rwa [hcs]
                next => cases h
              · rintro ⟨ls, o', left, h, hstuck, he⟩
                cases h with
                | nil =>
                    have hnone := hstuck.scan?_eq_none
                    rw [hcs, hscan] at hnone
                    cases hnone
                | cons hstart hstop hscan' hrest =>
                    rw [hcs] at hstop hscan' hrest
                    rw [hscan] at hscan'
                    cases hscan'
                    subst hstart hstop
                    rw [(ih hdrop).mpr ⟨_, o', left, hrest, hstuck, he⟩]

theorem tokenize_eq_error_iff {source : String} {e : LexError} : tokenize source = .error e ↔
    ∃ ls o left, Lexing 0 source.toList ls o left ∧
      Token.Stuck (left.dropWhile Token.isSpace) ∧
      e = ⟨String.ofList (Token.unreadable (left.dropWhile Token.isSpace)),
        o + byteLength (left.takeWhile Token.isSpace)⟩ :=
  tokensFrom_eq_error_iff (by rw [String.length_toList]; exact Nat.lt_succ_self _)

/-- A source is tokenized as it is cut into tokens and spaces. -/
theorem tokenize_eq_ok_iff_partition {source : String} {ls : List Lexeme} :
    tokenize source = .ok ls ↔ Partition 0 source.toList [] ls := by
  rw [tokenize_eq_ok_iff]
  constructor
  · rintro ⟨o, rest, h, hspaces⟩
    have hlexing : Lexing 0 (source.toList ++ []) ls o (rest ++ []) := by
      rwa [List.append_nil, List.append_nil]
    exact .of_lexing hlexing hspaces
  · intro h
    obtain ⟨o, blanks, hlexing, hblanks⟩ := h.exists_lexing
    rw [List.append_nil, List.append_nil] at hlexing
    exact ⟨o, blanks, hlexing, hblanks⟩

/-- A source is refused where no token starts and what stands before is cut into tokens and
spaces. -/
theorem tokenize_eq_error_iff_partition {source : String} {e : LexError} :
    tokenize source = .error e ↔ ∃ cs rest ls, source.toList = cs ++ rest ∧
      Partition 0 cs rest ls ∧ Token.Stuck rest ∧
      e = ⟨String.ofList (Token.unreadable rest), byteLength cs⟩ := by
  rw [tokenize_eq_error_iff]
  constructor
  · rintro ⟨ls, o, left, h, hstuck, rfl⟩
    have hleft := List.takeWhile_append_dropWhile (p := Token.isSpace) (l := left)
    obtain ⟨more, hmore⟩ := h.suffix.1
    have hsource : source.toList =
        more ++ left.takeWhile Token.isSpace ++ left.dropWhile Token.isSpace := by
      rw [List.append_assoc, hleft, hmore]
    have hlexing : Lexing 0 (more ++ left.takeWhile Token.isSpace ++ left.dropWhile Token.isSpace)
        ls o (left.takeWhile Token.isSpace ++ left.dropWhile Token.isSpace) := by
      rwa [← hsource, hleft]
    refine ⟨_, _, ls, hsource, .of_lexing hlexing fun c hc => List.mem_takeWhile_imp hc, hstuck, ?_⟩
    have hoffset := h.offset
    rw [← hmore, byteLength_append] at hoffset
    rw [byteLength_append]
    congr 1
    omega
  · rintro ⟨cs, rest, ls, hsource, hpartition, hstuck, rfl⟩
    obtain ⟨o, blanks, hlexing, hblanks⟩ := hpartition.exists_lexing
    obtain ⟨c, more, hrest, hc⟩ := hstuck.visible
    have hvisible : ¬ Token.isSpace c = true := Bool.eq_false_iff.mp hc
    have htake : (blanks ++ rest).takeWhile Token.isSpace = blanks := by
      rw [hrest, List.takeWhile_append_of_pos hblanks, List.takeWhile_cons_of_neg hvisible,
        List.append_nil]
    have hdrop : (blanks ++ rest).dropWhile Token.isSpace = rest := by
      rw [hrest, List.dropWhile_append_of_pos hblanks, List.dropWhile_cons_of_neg hvisible]
    have hoffset := hlexing.offset
    refine ⟨ls, o, blanks ++ rest, hsource ▸ hlexing, ?_, ?_⟩
    · rwa [hdrop]
    rw [hdrop, htake]
    congr 1
    rw [byteLength_append, byteLength_append] at hoffset
    omega

/-- A source is tokenized exactly as it is cut into longest tokens and spaces, and it is refused
exactly where this stops. -/
theorem tokenize_maximal_munch (source : String) :
    (∀ ls, tokenize source = .ok ls ↔ Partition 0 source.toList [] ls) ∧
    ∀ e, tokenize source = .error e ↔ ∃ cs rest ls, source.toList = cs ++ rest ∧
      Partition 0 cs rest ls ∧ Token.Stuck rest ∧
      e = ⟨String.ofList (Token.unreadable rest), byteLength cs⟩ :=
  ⟨fun _ => tokenize_eq_ok_iff_partition, fun _ => tokenize_eq_error_iff_partition⟩

end PageLoom
