import PageLoom.Call.Expr
import PageLoom.Call.Token
import PageLoom.Decimal.Reading
import Mathlib.Data.Nat.Digits.Defs

/-!
# The grammar of calls

```text
call     := NAME "(" many(param) ")"
param    := NAME "=" value
value    := NAME | scalar | "[" many(value) "]" | "{" many(pair) "}"
          | NAME ("." NAME)+ | NAME keys
scalar   := INTEGER | DECIMAL | STRING | "(" many(value) ")"
pair     := scalar ":" value
keys     := "[" scalar "]" | "[" scalar "]" keys
many(x)  := ε | x | x "," many(x)
```

So `many(x)` is `(x ("," x)* ","?)?`: a comma separates elements, and may follow the
last one, where `ε` comes after it.

A `Derivation` is a derivation tree of the grammar, with the tokens at its leaves and
the expression that it stands for.  The grammar is unambiguous: the tokens determine
the derivation (`eq_of_call_tokens`, `eq_of_value_tokens`).
-/

namespace PageLoom

/-! ## Derivations -/

/-- What a call has many of. -/
inductive Element
  | param | value | pair

abbrev Element.Meaning : Element → Type
  | .param => String × Expr
  | .value => Expr
  | .pair => Expr × Expr

/-- What the grammar derives. -/
inductive Phrase
  | call | element (e : Element) | many (e : Element) | scalar | keys

/-- What a phrase stands for. -/
abbrev Phrase.Meaning : Phrase → Type
  | .call => CallExpr
  | .element e => e.Meaning
  | .many e => List e.Meaning
  | .scalar => Expr
  | .keys => List Expr

/-- A derivation tree: one constructor for each alternative of the grammar. -/
inductive Derivation : Phrase → Type
  | call (function : String) (params : Derivation (.many .param)) : Derivation .call
  | param (key : String) (value : Derivation (.element .value)) : Derivation (.element .param)
  | name (x : String) : Derivation (.element .value)
  | scalar (d : Derivation .scalar) : Derivation (.element .value)
  | list (items : Derivation (.many .value)) : Derivation (.element .value)
  | dict (pairs : Derivation (.many .pair)) : Derivation (.element .value)
  | attr (base first : String) (rest : List String) : Derivation (.element .value)
  | field (base : String) (keys : Derivation .keys) : Derivation (.element .value)
  | integer (text : String) : Derivation .scalar
  | decimal (text : String) : Derivation .scalar
  | str (text : String) : Derivation .scalar
  | tuple (items : Derivation (.many .value)) : Derivation .scalar
  | pair (key : Derivation .scalar) (value : Derivation (.element .value)) :
      Derivation (.element .pair)
  | lastKey (key : Derivation .scalar) : Derivation .keys
  | key (key : Derivation .scalar) (rest : Derivation .keys) : Derivation .keys
  | none {e : Element} : Derivation (.many e)
  | last {e : Element} (d : Derivation (.element e)) : Derivation (.many e)
  | more {e : Element} (d : Derivation (.element e)) (rest : Derivation (.many e)) :
      Derivation (.many e)

/-- The number that digits with an optional minus sign denote. -/
def integerValue (text : String) : Int :=
  let number (cs : List Char) : Nat := Nat.ofDigits 10 (cs.reverse.map Decimal.digitValue)
  match text.toList with
  | '-' :: cs => -(number cs : Int)
  | cs => number cs

/-- Names that follow a name, each after a point. -/
def chainTokens (chain : List String) : List Token :=
  chain.flatMap fun x => [.punct .dot, .name x]

namespace Derivation

/-- The tokens at the leaves, from left to right. -/
def tokens : {s : Phrase} → Derivation s → List Token
  | _, .call f ps => .name f :: .punct .openParen :: (ps.tokens ++ [.punct .closeParen])
  | _, .param k v => .name k :: .punct .equals :: v.tokens
  | _, .name x => [.name x]
  | _, .scalar d => d.tokens
  | _, .list is => .punct .openBracket :: (is.tokens ++ [.punct .closeBracket])
  | _, .dict ps => .punct .openBrace :: (ps.tokens ++ [.punct .closeBrace])
  | _, .attr x a as => .name x :: chainTokens (a :: as)
  | _, .field x ks => .name x :: ks.tokens
  | _, .integer text => [.integer text]
  | _, .decimal text => [.decimal text]
  | _, .str text => [.str text]
  | _, .tuple is => .punct .openParen :: (is.tokens ++ [.punct .closeParen])
  | _, .pair k v => k.tokens ++ .punct .colon :: v.tokens
  | _, .lastKey k => .punct .openBracket :: (k.tokens ++ [.punct .closeBracket])
  | _, .key k ks => .punct .openBracket :: (k.tokens ++ .punct .closeBracket :: ks.tokens)
  | _, .none => []
  | _, .last d => d.tokens
  | _, .more d ds => d.tokens ++ .punct .comma :: ds.tokens

/-- What a derivation stands for, with everything in the order of the tokens. -/
def meaning : {s : Phrase} → Derivation s → s.Meaning
  | _, .call f ps => CallExpr.mk f ps.meaning
  | _, .param k v => (k, v.meaning)
  | _, .name x => Expr.name x
  | _, .scalar d => d.meaning
  | _, .list is => Expr.list is.meaning
  | _, .dict ps => Expr.dict ps.meaning
  | _, .attr x a as => Expr.attr x (a :: as)
  | _, .field x ks => Expr.field x ks.meaning
  | _, .integer text => Expr.int (Int64.ofInt (integerValue text))
  | _, .decimal text => Expr.float ((Decimal.float? text).getD 0)
  | _, .str text => Expr.str text
  | _, .tuple is => Expr.tuple is.meaning
  | _, .pair k v => (k.meaning, v.meaning)
  | _, .lastKey k => [k.meaning]
  | _, .key k ks => List.cons k.meaning ks.meaning
  | _, .none => []
  | _, .last d => [d.meaning]
  | _, .more d ds => List.cons d.meaning ds.meaning

end Derivation

/-! ## First tokens -/

/-- The tokens that a scalar starts with. -/
def Token.startsScalar : Token → Bool
  | .integer _ | .decimal _ | .str _ | .punct .openParen => true
  | _ => false

/-- The tokens that close a construct. -/
def Punct.closes : Punct → Bool
  | .closeParen | .closeBracket | .closeBrace => true
  | _ => false

namespace Derivation

/-- The first token of a scalar settles that it is one. -/
theorem exists_scalar_tokens (d : Derivation .scalar) :
    ∃ t ts, d.tokens = t :: ts ∧ t.startsScalar = true := by
  cases d <;> exact ⟨_, _, rfl, rfl⟩

theorem not_scalar_tokens {d : Derivation .scalar} {t : Token} {ts r : List Token}
    (ht : t.startsScalar = false) (h : t :: ts = d.tokens ++ r) : False := by
  obtain ⟨u, us, hu, hs⟩ := d.exists_scalar_tokens
  rw [hu, List.cons_append, List.cons.injEq] at h
  rw [h.1, hs] at ht
  cases ht

/-- No element starts with a token that closes a construct. -/
theorem exists_element_tokens {e : Element} (d : Derivation (.element e)) :
    ∃ t ts, d.tokens = t :: ts ∧ ∀ p : Punct, p.closes = true → t ≠ .punct p := by
  have scalars : ∀ t : Token, t.startsScalar = true → ∀ p : Punct, p.closes = true →
      t ≠ .punct p := by
    rintro t ht p hp rfl
    cases p <;> first | exact (Bool.false_ne_true hp).elim | exact (Bool.false_ne_true ht).elim
  cases d with
  | param k v => exact ⟨_, _, rfl, fun p hp he => by cases he⟩
  | name x => exact ⟨_, _, rfl, fun p hp he => by cases he⟩
  | scalar d =>
      obtain ⟨t, ts, ht, hs⟩ := d.exists_scalar_tokens
      exact ⟨t, ts, ht, scalars t hs⟩
  | list is => exact ⟨_, _, rfl, fun p hp he => by cases he; cases hp⟩
  | dict ps => exact ⟨_, _, rfl, fun p hp he => by cases he; cases hp⟩
  | attr x a as => exact ⟨_, _, rfl, fun p hp he => by cases he⟩
  | field x ks => exact ⟨_, _, rfl, fun p hp he => by cases he⟩
  | pair k v =>
      obtain ⟨t, ts, ht, hs⟩ := k.exists_scalar_tokens
      exact ⟨t, _, by rw [tokens, ht]; rfl, scalars t hs⟩

/-- No element starts with a token that closes a bracket, so an empty list and a last comma are told
apart from a further element. -/
theorem not_element_tokens {e : Element} {d : Derivation (.element e)} {p : Punct}
    {ts r : List Token} (hp : p.closes = true) (h : .punct p :: ts = d.tokens ++ r) : False := by
  obtain ⟨t, us, ht, hne⟩ := d.exists_element_tokens
  rw [ht, List.cons_append, List.cons.injEq] at h
  exact hne p hp h.1.symm

theorem exists_keys_tokens (d : Derivation .keys) :
    ∃ ts, d.tokens = .punct .openBracket :: ts := by
  cases d <;> exact ⟨_, rfl⟩

end Derivation

/-! ## One derivation for the tokens -/

/-- What follows a phrase wherever the grammar has it: nothing that it could go on
with. -/
def Phrase.EndsAt : Phrase → List Token → Prop
  | .call, _ => True
  | .element _, r => r.head? ≠ some (.punct .dot) ∧ r.head? ≠ some (.punct .openBracket)
  | .many _, r => ∃ p rest, r = .punct p :: rest ∧ p.closes = true
  | .scalar, _ => True
  | .keys, r => r.head? ≠ some (.punct .openBracket)

theorem endsAt_element {e : Element} {p : Punct} (hdot : p ≠ .dot) (hopen : p ≠ .openBracket)
    (r : List Token) : (Phrase.element e).EndsAt (.punct p :: r) := by
  simp [Phrase.EndsAt, hdot, hopen]

theorem endsAt_comma {e : Element} (r : List Token) :
    (Phrase.element e).EndsAt (.punct .comma :: r) := endsAt_element (by decide) (by decide) r

theorem endsAt_nil {e : Element} : (Phrase.element e).EndsAt [] := by simp [Phrase.EndsAt]

/-- What may follow a list of elements may follow its last element. -/
theorem endsAt_element_of_many {e : Element} {r : List Token} (h : (Phrase.many e).EndsAt r) :
    (Phrase.element e).EndsAt r := by
  obtain ⟨p, rest, rfl, hp⟩ := h
  exact endsAt_element (by rintro rfl; cases hp) (by rintro rfl; cases hp) rest

theorem endsAt_many {e : Element} {p : Punct} (hp : p.closes = true) (r : List Token) :
    (Phrase.many e).EndsAt (.punct p :: r) := ⟨p, r, rfl, hp⟩

/-- A comma never ends a list of elements: it either joins the next one or is the last comma, which
belongs to the list. -/
theorem not_endsAt_comma {e : Element} {r : List Token}
    (h : (Phrase.many e).EndsAt (.punct .comma :: r)) : False := by
  obtain ⟨p, rest, he, hp⟩ := h
  cases he
  cases hp

theorem chainTokens_cons (x : String) (xs : List String) :
    chainTokens (x :: xs) = .punct .dot :: .name x :: chainTokens xs := rfl

/-- A chain of attributes is cut off only where no further point follows. -/
theorem eq_of_chainTokens {xs ys : List String} {r r' : List Token}
    (hr : r.head? ≠ some (.punct .dot)) (hr' : r'.head? ≠ some (.punct .dot))
    (h : chainTokens xs ++ r = chainTokens ys ++ r') : xs = ys ∧ r = r' := by
  induction xs generalizing ys with
  | nil =>
      cases ys with
      | nil => exact ⟨rfl, h⟩
      | cons y ys => exact absurd (congrArg List.head? h) hr
  | cons x xs ih =>
      cases ys with
      | nil => exact absurd (congrArg List.head? h).symm hr'
      | cons y ys =>
          simp only [chainTokens_cons, List.cons_append, List.cons.injEq, Token.name.injEq,
            true_and] at h
          obtain ⟨rfl, hrest⟩ := ih h.2
          rw [h.1]
          exact ⟨rfl, hrest⟩

namespace Derivation

section Accessors

variable {x y a : String} {as : List String} {ks : Derivation .keys} {r r' : List Token}

/-- A name alone is not the beginning of a chain, given that no point follows it. -/
theorem name_tokens_ne_attr (hr : r.head? ≠ some (.punct .dot)) :
    (name x).tokens ++ r ≠ (attr y a as).tokens ++ r' := by
  intro h
  exact hr (congrArg List.head? (List.cons.inj h).2)

/-- A name alone is not the beginning of a field access, given that no bracket follows it. -/
theorem name_tokens_ne_field (hr : r.head? ≠ some (.punct .openBracket)) :
    (name x).tokens ++ r ≠ (field y ks).tokens ++ r' := by
  intro h
  obtain ⟨ts, hts⟩ := ks.exists_keys_tokens
  rw [tokens, tokens, hts] at h
  exact hr (congrArg List.head? (List.cons.inj h).2)

/-- The token after the name tells a chain of attributes from a field access. -/
theorem attr_tokens_ne_field : (attr x a as).tokens ++ r ≠ (field y ks).tokens ++ r' := by
  intro h
  obtain ⟨ts, hts⟩ := ks.exists_keys_tokens
  rw [tokens, tokens, hts] at h
  cases (List.cons.inj (List.cons.inj h).2).1

end Accessors

/-- No other derivation of the same phrase starts a list of tokens that this one starts, provided
that what follows does not go on with the phrase. -/
def Determined {s : Phrase} (d : Derivation s) : Prop :=
  ∀ (e : Derivation s) {r r' : List Token}, s.EndsAt r → s.EndsAt r' →
    d.tokens ++ r = e.tokens ++ r' → d = e ∧ r = r'

/-- What stands before a closing token is determined, and so is what stands after it. -/
theorem Determined.of_closed {e : Element} {d d' : Derivation (.many e)} (hd : d.Determined)
    {p : Punct} (hp : p.closes = true) {r r' : List Token}
    (h : (d.tokens ++ [.punct p]) ++ r = (d'.tokens ++ [.punct p]) ++ r') : d = d' ∧ r = r' := by
  rw [List.append_assoc, List.append_assoc] at h
  obtain ⟨rfl, hrest⟩ := hd d' (endsAt_many hp r) (endsAt_many hp r') h
  exact ⟨rfl, (List.cons.inj hrest).2⟩

/-! ### Values -/

theorem determined_name (x : String) : (name x).Determined := by
  intro e r r' hr _ h
  cases e with
  | name y => exact ⟨congrArg name (Token.name.inj (List.cons.inj h).1), (List.cons.inj h).2⟩
  | scalar d => exact (not_scalar_tokens rfl h).elim
  | list is => cases h
  | dict ps => cases h
  | attr y a as => exact (name_tokens_ne_attr hr.1 h).elim
  | field y ks => exact (name_tokens_ne_field hr.2 h).elim

theorem Determined.scalar {d : Derivation .scalar} (hd : d.Determined) :
    (Derivation.scalar d).Determined := by
  intro e r r' _ _ h
  cases e with
  | scalar d' =>
      obtain ⟨rfl, hrest⟩ := hd d' trivial trivial h
      exact ⟨rfl, hrest⟩
  | name y => exact (not_scalar_tokens rfl h.symm).elim
  | list is => exact (not_scalar_tokens rfl h.symm).elim
  | dict ps => exact (not_scalar_tokens rfl h.symm).elim
  | attr y a as => exact (not_scalar_tokens rfl h.symm).elim
  | field y ks => exact (not_scalar_tokens rfl h.symm).elim

/-- The closing bracket ends the items, which makes the list as determined as they are. -/
theorem Determined.list {is : Derivation (.many .value)} (his : is.Determined) :
    (Derivation.list is).Determined := by
  intro e r r' _ _ h
  cases e with
  | list js =>
      obtain ⟨rfl, hrest⟩ := his.of_closed rfl (List.cons.inj h).2
      exact ⟨rfl, hrest⟩
  | scalar d => exact (not_scalar_tokens rfl h).elim
  | name y => cases h
  | dict ps => cases h
  | attr y a as => cases h
  | field y ks => cases h

theorem Determined.dict {ps : Derivation (.many .pair)} (hps : ps.Determined) :
    (Derivation.dict ps).Determined := by
  intro e r r' _ _ h
  cases e with
  | dict qs =>
      obtain ⟨rfl, hrest⟩ := hps.of_closed rfl (List.cons.inj h).2
      exact ⟨rfl, hrest⟩
  | scalar d => exact (not_scalar_tokens rfl h).elim
  | name y => cases h
  | list is => cases h
  | attr y a as => cases h
  | field y ks => cases h

theorem determined_attr (x a : String) (as : List String) : (attr x a as).Determined := by
  intro e r r' hr hr' h
  cases e with
  | attr y b bs =>
      simp only [tokens, List.cons_append, List.cons.injEq, Token.name.injEq] at h
      obtain ⟨rfl, h⟩ := h
      obtain ⟨hab, hrest⟩ := eq_of_chainTokens hr.1 hr'.1 h
      cases hab
      exact ⟨rfl, hrest⟩
  | scalar d => exact (not_scalar_tokens rfl h).elim
  | name y => exact (name_tokens_ne_attr hr'.1 h.symm).elim
  | list is => cases h
  | dict ps => cases h
  | field y ks => exact (attr_tokens_ne_field h).elim

theorem Determined.field {ks : Derivation .keys} (hks : ks.Determined) (x : String) :
    (Derivation.field x ks).Determined := by
  intro e r r' hr hr' h
  cases e with
  | field y ls =>
      simp only [tokens, List.cons_append, List.cons.injEq, Token.name.injEq] at h
      obtain ⟨rfl, h⟩ := h
      obtain ⟨rfl, hrest⟩ := hks ls hr.2 hr'.2 h
      exact ⟨rfl, hrest⟩
  | scalar d => exact (not_scalar_tokens rfl h).elim
  | name y => exact (name_tokens_ne_field hr'.2 h.symm).elim
  | list is => cases h
  | dict ps => cases h
  | attr y a as => exact (attr_tokens_ne_field h.symm).elim

theorem Determined.tuple {is : Derivation (.many .value)} (his : is.Determined) :
    (Derivation.tuple is).Determined := by
  intro e r r' _ _ h
  cases e with
  | tuple js =>
      obtain ⟨rfl, hrest⟩ := his.of_closed rfl (List.cons.inj h).2
      exact ⟨rfl, hrest⟩
  | integer text => cases h
  | decimal text => cases h
  | str text => cases h

/-! ### Keys -/

/-- One key is not the first of several: no bracket opens after it. -/
theorem lastKey_tokens_ne_key {k l : Derivation .scalar} {ls : Derivation .keys} {r r' : List Token}
    (hk : k.Determined) (hr : r.head? ≠ some (.punct .openBracket)) :
    (lastKey k).tokens ++ r ≠ (key l ls).tokens ++ r' := by
  intro h
  obtain ⟨ts, hts⟩ := ls.exists_keys_tokens
  simp only [tokens, hts, List.cons_append, List.append_assoc, List.nil_append,
    List.cons.injEq, true_and] at h
  have hrest := (hk l trivial trivial h).2
  exact hr (congrArg List.head? (List.cons.inj hrest).2)

theorem Determined.lastKey {k : Derivation .scalar} (hk : k.Determined) :
    (Derivation.lastKey k).Determined := by
  intro e r r' hr _ h
  cases e with
  | lastKey l =>
      simp only [tokens, List.cons_append, List.append_assoc, List.nil_append,
        List.cons.injEq, true_and] at h
      obtain ⟨rfl, hrest⟩ := hk l trivial trivial h
      exact ⟨rfl, (List.cons.inj hrest).2⟩
  | key l ls => exact (lastKey_tokens_ne_key hk hr h).elim

/-- After a key comes either a bracket, which opens the next one, or the end of the access. -/
theorem Determined.key {k : Derivation .scalar} {ks : Derivation .keys} (hk : k.Determined)
    (hks : ks.Determined) : (Derivation.key k ks).Determined := by
  intro e r r' hr hr' h
  cases e with
  | lastKey l =>
      obtain ⟨ts, hts⟩ := ks.exists_keys_tokens
      simp only [tokens, hts, List.cons_append, List.append_assoc, List.nil_append,
        List.cons.injEq, true_and] at h
      have hrest := (hk l trivial trivial h).2
      exact absurd (congrArg List.head? (List.cons.inj hrest).2).symm hr'
  | key l ls =>
      simp only [tokens, List.cons_append, List.append_assoc, List.cons.injEq, true_and] at h
      obtain ⟨rfl, hrest⟩ := hk l trivial trivial h
      obtain ⟨rfl, hlast⟩ := hks ls hr hr' (List.cons.inj hrest).2
      exact ⟨rfl, hlast⟩

/-! ### Many elements -/

section Many

variable {e : Element}

theorem determined_none : (none : Derivation (.many e)).Determined := by
  intro ds r r' hr _ h
  obtain ⟨p, rest, rfl, hp⟩ := hr
  cases ds with
  | none => exact ⟨rfl, h⟩
  | last d => exact (not_element_tokens hp h).elim
  | more d ds =>
      rw [tokens, tokens, List.append_assoc] at h
      exact (not_element_tokens hp h).elim

/-- The last element is not followed by a comma. -/
theorem last_tokens_ne_more {d d' : Derivation (.element e)} {ds : Derivation (.many e)}
    {r r' : List Token} (hd : d.Determined) (hr : (Phrase.many e).EndsAt r) :
    (last d).tokens ++ r ≠ (more d' ds).tokens ++ r' := by
  intro h
  simp only [tokens, List.append_assoc, List.cons_append] at h
  obtain ⟨-, rfl⟩ := hd d' (endsAt_element_of_many hr) (endsAt_comma _) h
  exact not_endsAt_comma hr

theorem Determined.last {d : Derivation (.element e)} (hd : d.Determined) :
    (Derivation.last d).Determined := by
  intro ds r r' hr hr' h
  cases ds with
  | none =>
      obtain ⟨p, rest, rfl, hp⟩ := hr'
      exact (not_element_tokens hp h.symm).elim
  | last d' =>
      obtain ⟨rfl, hrest⟩ := hd d' (endsAt_element_of_many hr) (endsAt_element_of_many hr') h
      exact ⟨rfl, hrest⟩
  | more d' ds => exact (last_tokens_ne_more hd hr h).elim

/-- After an element comes either a comma or a closing token, so whether there are more of them is
settled by one token. -/
theorem Determined.more {d : Derivation (.element e)} {ds : Derivation (.many e)}
    (hd : d.Determined) (hds : ds.Determined) : (Derivation.more d ds).Determined := by
  intro es r r' hr hr' h
  simp only [tokens, List.append_assoc, List.cons_append] at h
  cases es with
  | none =>
      obtain ⟨p, rest, rfl, hp⟩ := hr'
      exact (not_element_tokens hp h.symm).elim
  | last d' =>
      obtain ⟨-, rfl⟩ := hd d' (endsAt_comma _) (endsAt_element_of_many hr') h
      exact (not_endsAt_comma hr').elim
  | more d' ds' =>
      simp only [tokens, List.append_assoc, List.cons_append] at h
      obtain ⟨rfl, hrest⟩ := hd d' (endsAt_comma _) (endsAt_comma _) h
      obtain ⟨rfl, hlast⟩ := hds ds' hr hr' (List.cons.inj hrest).2
      exact ⟨rfl, hlast⟩

end Many

/-! ### All phrases -/

/-- A derivation is determined by the tokens that it starts: the first token tells the production,
or what follows tells that none goes on. -/
theorem determined {s : Phrase} (d : Derivation s) : d.Determined := by
  induction d with
  | call f ps ih =>
      intro e r r' _ _ h
      cases e with
      | call g qs =>
          obtain ⟨hname, hparams⟩ := List.cons.inj h
          cases hname
          obtain ⟨rfl, hrest⟩ := ih.of_closed rfl (List.cons.inj hparams).2
          exact ⟨rfl, hrest⟩
  | param k v ih =>
      intro e r r' hr hr' h
      cases e with
      | param l w =>
          simp only [tokens, List.cons_append, List.cons.injEq, Token.name.injEq, true_and] at h
          obtain ⟨rfl, h⟩ := h
          obtain ⟨rfl, hrest⟩ := ih w hr hr' h
          exact ⟨rfl, hrest⟩
  | name x => exact determined_name x
  | scalar d ih => exact ih.scalar
  | list is ih => exact ih.list
  | dict ps ih => exact ih.dict
  | attr x a as => exact determined_attr x a as
  | field x ks ih => exact ih.field x
  | integer text =>
      intro e r r' _ _ h
      cases e <;> cases h
      exact ⟨rfl, rfl⟩
  | decimal text =>
      intro e r r' _ _ h
      cases e <;> cases h
      exact ⟨rfl, rfl⟩
  | str text =>
      intro e r r' _ _ h
      cases e <;> cases h
      exact ⟨rfl, rfl⟩
  | tuple is ih => exact ih.tuple
  | pair k v ihk ihv =>
      intro e r r' hr hr' h
      cases e with
      | pair l w =>
          simp only [tokens, List.cons_append, List.append_assoc] at h
          obtain ⟨rfl, hrest⟩ := ihk l trivial trivial h
          obtain ⟨rfl, hlast⟩ := ihv w hr hr' (List.cons.inj hrest).2
          exact ⟨rfl, hlast⟩
  | lastKey k ih => exact ih.lastKey
  | key k ks ihk ihks => exact ihk.key ihks
  | none => exact determined_none
  | last d ih => exact ih.last
  | more d ds ihd ihds => exact ihd.more ihds

/-- The grammar is unambiguous. -/
theorem eq_of_call_tokens {d e : Derivation .call} (h : d.tokens = e.tokens) : d = e :=
  (d.determined e (r := []) trivial trivial (by rw [h])).1

/-- A value is the value of one derivation only. -/
theorem eq_of_value_tokens {d e : Derivation (.element .value)} (h : d.tokens = e.tokens) :
    d = e :=
  (d.determined e (r := []) endsAt_nil endsAt_nil (by rw [h])).1

end Derivation

end PageLoom
