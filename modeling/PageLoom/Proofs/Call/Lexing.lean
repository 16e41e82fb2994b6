import PageLoom.Call.Token
import PageLoom.Proofs.Text.Classes

/-!
# How a text is cut into tokens

`Lexing o cs ls o' rest` says that the text `cs`, which starts at the offset `o`, starts with
the tokens `ls`, and that the text `rest` is left, which starts at the offset `o'`.  A text
is tokenized if all of it but spaces can be read in this way (`tokenize_eq_ok_iff`).

A token is read from a text that goes on after it, and the text that follows can matter: a
digit after a number belongs to the number.  Nothing that follows a closing parenthesis
matters for the tokens that end with it (`Lexing.replace_rest`).
-/

namespace PageLoom

/-- A text starts with tokens.  The offsets are those of the text and of what is left of
it. -/
inductive Lexing : Nat → List Char → List Lexeme → Nat → List Char → Prop
  | nil {o : Nat} {cs : List Char} : Lexing o cs [] o cs
  | cons {o n o' : Nat} {cs rest : List Char} {t : Token} {ls : List Lexeme} {start stop : Nat}
      (hstart : start = o + byteLength (cs.takeWhile Token.isSpace))
      (hstop : stop = start + byteLength ((cs.dropWhile Token.isSpace).take n))
      (hscan : Token.scan? (cs.dropWhile Token.isSpace) = some (t, n))
      (hrest : Lexing stop ((cs.dropWhile Token.isSpace).drop n) ls o' rest) :
      Lexing o cs (⟨t, start, stop⟩ :: ls) o' rest

/-! ## One token -/

namespace Token

/-- A number ends before a parenthesis. -/
theorem scanDigits?_append (sign w v : List Char) :
    scanDigits? sign (w ++ ')' :: v) = scanDigits? sign w := by
  have hdigit : Char.isDigit ')' = false := by decide
  unfold scanDigits?
  rw [takeWhile_append_cons hdigit, dropWhile_append_cons hdigit]
  cases w.dropWhile Char.isDigit with
  | nil => rfl
  | cons d rest =>
      by_cases hd : d = '.'
      · subst hd
        simp only [List.cons_append, takeWhile_append_cons hdigit]
      · simp [hd]

theorem scanNumber?_append (w v : List Char) :
    scanNumber? (w ++ ')' :: v) = scanNumber? w := by
  cases w with
  | nil => exact scanDigits?_append [] [] v
  | cons c w =>
      by_cases hc : c = '-'
      · subst hc
        exact scanDigits?_append ['-'] w v
      · have hnumber : ∀ cs, scanNumber? (c :: cs) = scanDigits? [] (c :: cs) := by
          intro cs
          unfold scanNumber?
          split
          next cs' heq => exact absurd (List.cons.inj heq).1 hc
          next => rfl
        rw [List.cons_append, hnumber, hnumber, ← List.cons_append, scanDigits?_append]

/-- The string that is closed in a text does not depend on what follows the text. -/
theorem scanString?_append {q : Char} {w v : List Char} {t : Token} {n : Nat}
    (h : scanString? q (w ++ v) = some (t, n)) (hn : n ≤ w.length + 1) (v' : List Char) :
    scanString? q (w ++ v') = some (t, n) := by
  unfold scanString? at h ⊢
  by_cases hw : (w.takeWhile (· != q)).length = w.length
  · rw [List.takeWhile_append, if_pos hw] at h
    dsimp only at h
    split at h
    · cases h
      rw [List.length_append] at hn
      omega
    · cases h
  · have hbody : ∀ v, (w ++ v).takeWhile (· != q) = w.takeWhile (· != q) := fun v => by
      rw [List.takeWhile_append, if_neg hw]
    have hlt : (w.takeWhile (· != q)).length < w.length :=
      lt_of_le_of_ne (List.takeWhile_prefix _).length_le hw
    rw [hbody] at h ⊢
    dsimp only at h ⊢
    rw [if_pos (by rw [List.length_append]; omega)] at h ⊢
    exact h

/-- A token that ends before a parenthesis, or with it, does not depend on what follows the
parenthesis. -/
theorem scan?_append {w v : List Char} {t : Token} {n : Nat}
    (h : scan? (w ++ ')' :: v) = some (t, n)) (hn : n ≤ w.length + 1) (v' : List Char) :
    scan? (w ++ ')' :: v') = some (t, n) := by
  cases w with
  | nil =>
      have hclose : ∀ v, scan? (')' :: v) = some (.punct .closeParen, 1) := by
        intro v
        have hnumber : scanNumber? (')' :: v) = none := scanNumber?_append [] v
        simp only [scan?, hnumber]
        rfl
      rw [List.nil_append, hclose] at h ⊢
      exact h
  | cons c w =>
      have hrest : isNameRest ')' = false := by decide
      have hnumber : ∀ v, scanNumber? (c :: (w ++ ')' :: v)) = scanNumber? (c :: w) :=
        fun v => scanNumber?_append (c :: w) v
      rw [List.cons_append, scan?] at h ⊢
      split at h
      next hq =>
        rw [if_pos hq]
        have hend : n ≤ (w ++ [')']).length + 1 := by rwa [List.length_append]
        have happend : ∀ v, w ++ ')' :: v = (w ++ [')']) ++ v := fun v => by simp
        rw [happend] at h ⊢
        exact scanString?_append h hend v'
      next hq =>
        rw [if_neg hq]
        rwa [takeWhile_append_cons hrest, hnumber] at h ⊢

theorem length_of_scanDigits? {sign cs : List Char} {t : Token} {n : Nat}
    (h : scanDigits? sign cs = some (t, n)) : 0 < n ∧ n ≤ sign.length + cs.length := by
  have hall : (cs.takeWhile Char.isDigit).length + (cs.dropWhile Char.isDigit).length =
      cs.length := by rw [← List.length_append, List.takeWhile_append_dropWhile]
  have integer : ∀ {t n}, (if (cs.takeWhile Char.isDigit).isEmpty then none
      else some (Token.integer (String.ofList (sign ++ cs.takeWhile Char.isDigit)),
        sign.length + (cs.takeWhile Char.isDigit).length)) = some (t, n) →
      0 < n ∧ n ≤ sign.length + cs.length := by
    intro t n h
    split at h
    next => cases h
    next hne =>
      cases h
      have := List.length_pos_iff.mpr fun hnil => hne (List.isEmpty_iff.mpr hnil)
      omega
  unfold scanDigits? at h
  dsimp only at h
  split at h
  next rest hrest =>
    split at h
    next => exact integer h
    next hne =>
      cases h
      have := (List.takeWhile_prefix (l := rest) Char.isDigit).length_le
      rw [hrest, List.length_cons] at hall
      omega
  next => exact integer h

/-- A token takes a character at least. -/
theorem length_of_scan? {cs : List Char} {t : Token} {n : Nat} (h : scan? cs = some (t, n)) :
    0 < n ∧ n ≤ cs.length := by
  cases cs with
  | nil => cases h
  | cons c cs =>
      rw [scan?] at h
      split at h
      next =>
        rw [scanString?] at h
        split at h
        next hlt =>
          cases h
          rw [List.length_cons]
          omega
        next => cases h
      split at h
      next =>
        cases h
        have := (List.takeWhile_prefix (l := cs) isNameRest).length_le
        rw [List.length_cons]
        omega
      next =>
        split at h
        next r hr =>
          cases h
          unfold scanNumber? at hr
          split at hr
          next c' cs' heq =>
            have := length_of_scanDigits? hr
            rw [heq, List.length_cons]
            rwa [List.length_singleton, Nat.add_comm] at this
          next =>
            have := length_of_scanDigits? hr
            rwa [List.length_nil, Nat.zero_add] at this
        next =>
          obtain ⟨p, -, hp⟩ := Option.map_eq_some_iff.mp h
          cases hp
          simp

end Token

/-! ## Texts -/

theorem tokensFrom_eq_ok_iff {o fuel : Nat} {cs : List Char} {ls : List Lexeme}
    (hfuel : cs.length < fuel) : tokensFrom o cs fuel = .ok ls ↔
      ∃ o' rest, Lexing o cs ls o' rest ∧ ∀ c ∈ rest, Token.isSpace c = true := by
  induction fuel generalizing o cs ls with
  | zero => cases hfuel
  | succ fuel ih =>
      rw [tokensFrom]
      dsimp only
      have hlength := (List.dropWhile_suffix (l := cs) Token.isSpace).length_le
      cases hcs : cs.dropWhile Token.isSpace with
      | nil =>
          have hspace := List.dropWhile_eq_nil_iff.mp hcs
          constructor
          · intro h
            cases h
            exact ⟨o, cs, .nil, hspace⟩
          · rintro ⟨o', rest, h, -⟩
            cases h with
            | nil => rfl
            | cons hstart hstop hscan hrest =>
                rw [hcs] at hscan
                cases hscan
      | cons c rest =>
          dsimp only
          rw [hcs] at hlength
          cases hscan : Token.scan? (c :: rest) with
          | none =>
              constructor
              · intro h
                cases h
              · rintro ⟨o', rest', h, hspace⟩
                cases h with
                | nil =>
                    have hnil := List.dropWhile_eq_nil_iff.mpr hspace
                    rw [hcs] at hnil
                    cases hnil
                | cons hstart hstop hscan' hrest =>
                    rw [hcs, hscan] at hscan'
                    cases hscan'
          | some found =>
              obtain ⟨t, n⟩ := found
              dsimp only
              have hn := Token.length_of_scan? hscan
              have hdrop : ((c :: rest).drop n).length < fuel := by
                rw [List.length_drop]
                omega
              constructor
              · intro h
                split at h
                next => cases h
                next lexemes hok =>
                  cases h
                  obtain ⟨o', rest', hrest, hspace⟩ := (ih hdrop).mp hok
                  refine ⟨o', rest', .cons (n := n) rfl ?_ ?_ ?_, hspace⟩
                  · rw [hcs]
                  · rw [hcs, hscan]
                  · rwa [hcs]
              · rintro ⟨o', rest', h, hspace⟩
                cases h with
                | nil =>
                    have hnil := List.dropWhile_eq_nil_iff.mpr hspace
                    rw [hcs] at hnil
                    cases hnil
                | cons hstart hstop hscan' hrest =>
                    rw [hcs] at hstop hscan' hrest
                    rw [hscan] at hscan'
                    cases hscan'
                    subst hstart hstop
                    rw [(ih hdrop).mpr ⟨o', rest', hrest, hspace⟩]

theorem tokenize_eq_ok_iff {source : String} {ls : List Lexeme} : tokenize source = .ok ls ↔
    ∃ o rest, Lexing 0 source.toList ls o rest ∧ ∀ c ∈ rest, Token.isSpace c = true :=
  tokensFrom_eq_ok_iff (by rw [String.length_toList]; exact Nat.lt_succ_self _)

namespace Lexing

variable {o o' o₁ o₂ : Nat} {cs rest rest₁ : List Char} {ls ls' : List Lexeme}

theorem exists_append (h : Lexing o cs (ls ++ ls') o' rest) :
    ∃ o₁ rest₁, Lexing o cs ls o₁ rest₁ ∧ Lexing o₁ rest₁ ls' o' rest := by
  induction ls generalizing o cs with
  | nil => exact ⟨o, cs, .nil, h⟩
  | cons l ls ih =>
      cases h with
      | cons hstart hstop hscan hrest =>
          obtain ⟨o₁, rest₁, hfirst, hlast⟩ := ih hrest
          exact ⟨o₁, rest₁, .cons hstart hstop hscan hfirst, hlast⟩

/-- What is left is the end of the text, and shorter by a character for each token. -/
theorem suffix (h : Lexing o cs ls o' rest) :
    rest <:+ cs ∧ rest.length + ls.length ≤ cs.length := by
  induction h with
  | nil => exact ⟨List.suffix_rfl, Nat.le_refl _⟩
  | @cons o n o' cs rest t ls start stop hstart hstop hscan hrest ih =>
      have hspace := List.dropWhile_suffix (l := cs) Token.isSpace
      refine ⟨(ih.1.trans (List.drop_suffix _ _)).trans hspace, ?_⟩
      have := ih.2
      have := hspace.length_le
      have := Token.length_of_scan? hscan
      rw [List.length_drop] at ih
      rw [List.length_cons]
      omega

/-- The tokens at the start of a text come first among all its tokens. -/
theorem exists_more (h : Lexing o cs ls o' rest) (hspace : ∀ c ∈ rest, Token.isSpace c = true)
    (h₁ : Lexing o cs ls' o₁ rest₁) : ∃ more, ls = ls' ++ more ∧ Lexing o₁ rest₁ more o' rest := by
  induction h₁ generalizing ls with
  | nil => exact ⟨ls, rfl, h⟩
  | cons hstart hstop hscan _ ih =>
      cases h with
      | nil =>
          rw [List.dropWhile_eq_nil_iff.mpr hspace] at hscan
          cases hscan
      | cons hstart' hstop' hscan' hrest' =>
          rw [hscan] at hscan'
          cases hscan'
          subst hstart hstart' hstop hstop'
          obtain ⟨more, rfl, hmore⟩ := ih hrest'
          exact ⟨more, rfl, hmore⟩

/-- The tokens do not depend on the offset. -/
theorem exists_at (h : Lexing o cs ls o' rest) (o₁ : Nat) : ∃ ls' o₂,
    Lexing o₁ cs ls' o₂ rest ∧ ls'.map Lexeme.token = ls.map Lexeme.token := by
  induction h generalizing o₁ with
  | nil => exact ⟨[], o₁, .nil, rfl⟩
  | cons hstart hstop hscan _ ih =>
      obtain ⟨ls', o₂, hrest, htokens⟩ := ih _
      exact ⟨_, o₂, .cons rfl rfl hscan hrest, congrArg (List.cons _) htokens⟩

/-- Spaces before a text do not change its tokens. -/
theorem exists_append_of_spaces {spaces : List Char} (h : Lexing o cs ls o' rest) (hne : ls ≠ [])
    (hspaces : ∀ c ∈ spaces, Token.isSpace c = true) (o₁ : Nat) : ∃ ls' o₂,
    Lexing o₁ (spaces ++ cs) ls' o₂ rest ∧ ls'.map Lexeme.token = ls.map Lexeme.token := by
  cases h with
  | nil => exact absurd rfl hne
  | cons hstart hstop hscan hrest =>
      have hdrop : (spaces ++ cs).dropWhile Token.isSpace = cs.dropWhile Token.isSpace :=
        List.dropWhile_append_of_pos hspaces
      obtain ⟨ls', o₂, hrest', htokens⟩ := hrest.exists_at _
      refine ⟨_, o₂, .cons rfl rfl (hdrop ▸ hscan) (hdrop ▸ hrest'), congrArg (List.cons _) htokens⟩

theorem eq_nil_of_same (h : Lexing o rest ls o' rest) : ls = [] ∧ o' = o := by
  have hlength := h.suffix.2
  cases h with
  | nil => exact ⟨rfl, rfl⟩
  | cons _ _ _ _ =>
      rw [List.length_cons] at hlength
      omega

/-- What follows a closing parenthesis does not change the tokens that end with it. -/
theorem replace_rest {w v : List Char} (h : Lexing o (w ++ ')' :: v) ls o' v) (v' : List Char) :
    Lexing o (w ++ ')' :: v') ls o' v' := by
  generalize hcs : w ++ ')' :: v = cs at h
  induction h generalizing w with
  | nil =>
      have hlength := congrArg List.length hcs
      rw [List.length_append, List.length_cons] at hlength
      omega
  | @cons o n o' cs v t ls start stop hstart hstop hscan hrest ih =>
      subst hcs
      have hclose : Token.isSpace ')' = false := by decide
      have hlength := hrest.suffix.2
      rw [takeWhile_append_cons hclose] at hstart
      rw [dropWhile_append_cons hclose] at hstop hscan hrest hlength
      simp only [dropWhile_append_cons hclose] at ih
      generalize hw : w.dropWhile Token.isSpace = u at hstop hscan hrest hlength ih
      have hn : n ≤ u.length + 1 := by
        have hscanned := (Token.length_of_scan? hscan).2
        rw [List.length_drop] at hlength
        rw [List.length_append, List.length_cons] at hlength hscanned
        omega
      have htake : ∀ v, (u ++ ')' :: v).take n = (u ++ [')']).take n := fun v => by
        have happend : u ++ ')' :: v = (u ++ [')']) ++ v := by simp
        rw [happend, List.take_append_of_le_length (by rwa [List.length_append])]
      have hdrop : Lexing stop ((u ++ ')' :: v').drop n) ls o' v' := by
        rcases Nat.le_or_eq_of_le_succ hn with hle | rfl
        · rw [List.drop_append_of_le_length hle]
          exact ih (List.drop_append_of_le_length hle).symm
        · -- The parenthesis is the end of this token, so there are no more.
          have hall : ∀ v, (u ++ ')' :: v).drop (u.length + 1) = v := fun v => by
            rw [← List.drop_drop, List.drop_left]
            rfl
          rw [hall] at hrest ⊢
          obtain ⟨rfl, rfl⟩ := hrest.eq_nil_of_same
          exact .nil
      refine .cons (n := n) ?_ ?_ ?_ ?_
      · rwa [takeWhile_append_cons hclose]
      · rwa [dropWhile_append_cons hclose, hw, htake, ← htake v]
      · rw [dropWhile_append_cons hclose, hw]
        exact Token.scan?_append hscan hn v'
      · rwa [dropWhile_append_cons hclose, hw]

end Lexing

end PageLoom
