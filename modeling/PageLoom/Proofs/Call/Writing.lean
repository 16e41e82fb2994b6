import PageLoom.Proofs.Call.Partition
import Mathlib.Data.List.Chain

/-!
# Writing tokens

A written token is a text that spells it, and the spaces before it.  Tokens that are written one
after another are read again as they were written if no token runs into the next one: a space
stands between them, or one of them separates tokens by itself, as all tokens of one character do
but the point (`tokenize_written`).

A point is no such token: `1`, `.` and `5` are three tokens, and without spaces they are the number
`1.5`.
-/

namespace PageLoom

/-- A token as it is written: the spaces before it, and its text. -/
structure WrittenToken where
  /-- The spaces. -/
  spaces : List Char
  /-- The text. -/
  text : List Char
  /-- The token. -/
  token : Token
  /-- The spaces are spaces. -/
  isSpace : ∀ c ∈ spaces, Token.isSpace c = true
  /-- The text is one of the token. -/
  spells : Token.Spells text token

/-- A token of one character that is no point. -/
def Token.IsSeparator (t : Token) : Prop := ∃ p, t = .punct p ∧ p ≠ .dot

theorem Token.Spells.eq_of_isSeparator {text : List Char} {t : Token} (h : Spells text t)
    (hseparator : t.IsSeparator) : ∃ p, text = [p.char] ∧ t = .punct p ∧ p ≠ .dot := by
  obtain ⟨p, rfl, hp⟩ := hseparator
  cases h
  exact ⟨p, rfl, rfl, hp⟩

namespace WrittenToken

/-- The characters of tokens that are written one after another. -/
def chars (ws : List WrittenToken) : List Char := ws.flatMap fun w => w.spaces ++ w.text

@[simp] theorem chars_nil : chars [] = [] := rfl

@[simp] theorem chars_cons (w : WrittenToken) (ws : List WrittenToken) :
    chars (w :: ws) = w.spaces ++ w.text ++ chars ws := rfl

/-- A token does not run into the next one. -/
def Apart (w next : WrittenToken) : Prop :=
  next.spaces ≠ [] ∨ w.token.IsSeparator ∨ next.token.IsSeparator

/-- The place of a token that is written after a text of `o` bytes. -/
def lexeme (w : WrittenToken) (o : Nat) : Lexeme :=
  ⟨w.token, o + byteLength w.spaces, o + byteLength w.spaces + byteLength w.text⟩

/-- The places of tokens that are written after a text of `o` bytes. -/
def lexemes (o : Nat) : List WrittenToken → List Lexeme
  | [] => []
  | w :: ws => w.lexeme o :: lexemes (w.lexeme o).stop ws

theorem map_token_lexemes (o : Nat) (ws : List WrittenToken) :
    (lexemes o ws).map Lexeme.token = ws.map token := by
  induction ws generalizing o with
  | nil => rfl
  | cons w ws ih => simp [lexemes, lexeme, ih]

/-- The place of a token is that of its characters. -/
theorem getElem?_lexemes (o : Nat) (front : List WrittenToken) (w : WrittenToken)
    (back : List WrittenToken) : (lexemes o (front ++ w :: back))[front.length]? =
      some (w.lexeme (o + byteLength (chars front))) := by
  induction front generalizing o with
  | nil => simp [lexemes, byteLength]
  | cons v front ih => simp [lexemes, ih, lexeme, byteLength_append, Nat.add_assoc]

/-- Before a break a token is read as it is written, and a separator wherever it stands. -/
theorem isLongest (w : WrittenToken) {rest : List Char}
    (h : w.token.IsSeparator ∨ ∀ c ∈ rest.head?, Token.IsBreak c) :
    Token.IsLongest (w.text ++ rest) w.text w.token := by
  rcases h with hseparator | hbreak
  · obtain ⟨p, htext, htoken, hp⟩ := w.spells.eq_of_isSeparator hseparator
    rw [htext, htoken]
    exact Token.isLongest_punct hp rest
  · cases rest with
    | nil => simpa using w.spells.isLongest_alone
    | cons c rest => exact w.spells.isLongest_before (hbreak c rfl) rest

/-- What follows a token that does not run into it starts with a break, if the token is no
separator. -/
theorem Apart.head {w next : WrittenToken} (h : w.Apart next) (rest : List Char) :
    w.token.IsSeparator ∨ ∀ c ∈ (next.spaces ++ next.text ++ rest).head?, Token.IsBreak c := by
  cases hspaces : next.spaces with
  | cons s spaces =>
      have hs : Token.isSpace s = true := next.isSpace s (by simp [hspaces])
      simp [Token.isBreak_of_isSpace hs]
  | nil =>
      refine (h.resolve_left (by simp [hspaces])).imp_right ?_
      intro hseparator
      obtain ⟨p, htext, -, hp⟩ := next.spells.eq_of_isSeparator hseparator
      simp [htext, Token.isBreak_char hp]

end WrittenToken

open WrittenToken

/-- Tokens that do not run into each other are read as they are written. -/
theorem lexing_written {ws : List WrittenToken} (h : ws.IsChain Apart) {rest : List Char}
    (hrest : ∀ c ∈ rest.head?, Token.IsBreak c) (o : Nat) :
    ∃ o', Lexing o (chars ws ++ rest) (lexemes o ws) o' rest := by
  induction ws generalizing o with
  | nil => exact ⟨o, .nil⟩
  | cons w ws ih =>
      have hnext : w.token.IsSeparator ∨ ∀ c ∈ (chars ws ++ rest).head?, Token.IsBreak c := by
        cases ws with
        | nil => exact .inr hrest
        | cons next ws =>
            rw [chars_cons, List.append_assoc]
            exact (List.isChain_cons_cons.mp h).1.head _
      obtain ⟨o', hlexing⟩ := ih h.tail (w.lexeme o).stop
      refine ⟨o', ?_⟩
      rw [chars_cons, List.append_assoc]
      exact hlexing.read w.isSpace rfl rfl (w.isLongest hnext)

theorem tokenize_chars {ws : List WrittenToken} (hapart : ws.IsChain Apart) {tail : List Char}
    (htail : ∀ c ∈ tail, Token.isSpace c = true) :
    tokenize (String.ofList (chars ws ++ tail)) = .ok (lexemes 0 ws) := by
  have hbreak : ∀ c ∈ tail.head?, Token.IsBreak c := by
    intro c hc
    exact Token.isBreak_of_isSpace (htail c (List.mem_of_mem_head? hc))
  obtain ⟨o, hlexing⟩ := lexing_written hapart hbreak 0
  exact tokenize_eq_ok_iff.mpr ⟨o, tail, by rwa [String.toList_ofList], htail⟩

/-- Tokens that do not run into each other are tokenized as they were written, each at its
place. -/
theorem tokenize_written {ws : List WrittenToken} (hapart : ws.IsChain Apart) {tail : List Char}
    (htail : ∀ c ∈ tail, Token.isSpace c = true) :
    ∃ ls, tokenize (String.ofList (chars ws ++ tail)) = .ok ls ∧
      ls.map Lexeme.token = ws.map token ∧
      ∀ front w back, ws = front ++ w :: back →
        ls[front.length]? = some (w.lexeme (byteLength (chars front))) := by
  refine ⟨lexemes 0 ws, tokenize_chars hapart htail, map_token_lexemes 0 ws, ?_⟩
  rintro front w back rfl
  rw [getElem?_lexemes, Nat.zero_add]

/-- Spaces stand around a point, and none beside the parentheses. -/
theorem tokenize_written_point : ∃ ws : List WrittenToken, ws.IsChain Apart ∧
    String.ofList (chars ws ++ ['\n']) = "-1 . 5('\"')\n" ∧
    ∃ ls, tokenize "-1 . 5('\"')\n" = .ok ls ∧
      ls.map Lexeme.token = [.integer "-1", .punct .dot, .integer "5", .punct .openParen,
        .str "\"", .punct .closeParen] ∧ ls[4]? = some ⟨.str "\"", 7, 10⟩ := by
  have hminus : Token.Spells ['-', '1'] (.integer "-1") :=
    @Token.Spells.integer ['-'] ['1'] (.inr rfl) (by simp) (by simp)
  have hfive : Token.Spells ['5'] (.integer "5") :=
    @Token.Spells.integer [] ['5'] (.inl rfl) (by simp) (by simp)
  have hquote : Token.Spells ['\'', '"', '\''] (.str "\"") :=
    @Token.Spells.str '\'' ['"'] (.inr rfl) (by simp)
  let ws : List WrittenToken :=
    [⟨[], _, _, by simp, hminus⟩, ⟨[' '], _, _, by simp [Token.isSpace], .punct .dot⟩,
      ⟨[' '], _, _, by simp [Token.isSpace], hfive⟩, ⟨[], _, _, by simp, .punct .openParen⟩,
      ⟨[], _, _, by simp, hquote⟩, ⟨[], _, _, by simp, .punct .closeParen⟩]
  have hopen : Token.IsSeparator (.punct .openParen) := ⟨_, rfl, by decide⟩
  have hclose : Token.IsSeparator (.punct .closeParen) := ⟨_, rfl, by decide⟩
  have hapart : ws.IsChain Apart := by simp [ws, Apart, hopen, hclose]
  have htail : ∀ c ∈ ['\n'], Token.isSpace c = true := by simp [Token.isSpace]
  obtain ⟨ls, htokens, hmap, hplaces⟩ := tokenize_written hapart htail
  exact ⟨ws, hapart, rfl, ls, htokens, hmap, hplaces (ws.take 4) _ (ws.drop 5) rfl⟩

end PageLoom
