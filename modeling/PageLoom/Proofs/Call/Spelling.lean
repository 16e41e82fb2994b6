import PageLoom.Proofs.Call.Lexing

/-!
# How tokens are spelled

`Token.Spells text t` says that the text `text` is a way to write the token `t`, with one
constructor for each kind of token.  What a token is follows from its text (`Spells.scan?_eq`), but
tokens share beginnings: `1.5` starts with the integer `1`, and `.5` with a point.

What is scanned at the start of a text is the longest token that the text starts with
(`scan?_eq_some_iff`), and nothing is scanned only where no token starts (`scan?_eq_none_iff`).
No token but a string goes on with a space, or with a character that is a token by itself and no
point, so before such a character a token is the longest one (`Spells.isLongest_before`).
-/

namespace PageLoom

namespace Token

/-- No sign, or a minus sign. -/
def IsSign (sign : List Char) : Prop := sign = [] ∨ sign = ['-']

/-- The texts of tokens. -/
inductive Spells : List Char → Token → Prop
  | str {q : Char} {body : List Char} (hquote : q = '"' ∨ q = '\'') (hbody : q ∉ body) :
      Spells (q :: (body ++ [q])) (.str (String.ofList body))
  | decimal {sign whole fraction : List Char} (hsign : IsSign sign)
      (hwhole : ∀ c ∈ whole, c.isDigit = true) (hne : fraction ≠ [])
      (hfraction : ∀ c ∈ fraction, c.isDigit = true) :
      Spells (sign ++ whole ++ '.' :: fraction)
        (.decimal (String.ofList (sign ++ whole ++ '.' :: fraction)))
  | integer {sign digits : List Char} (hsign : IsSign sign) (hne : digits ≠ [])
      (hdigits : ∀ c ∈ digits, c.isDigit = true) :
      Spells (sign ++ digits) (.integer (String.ofList (sign ++ digits)))
  | name {c : Char} {cs : List Char} (hstart : isNameStart c = true)
      (hrest : ∀ d ∈ cs, isNameRest d = true) : Spells (c :: cs) (.name (String.ofList (c :: cs)))
  | punct (p : Punct) : Spells [p.char] (.punct p)

theorem Spells.ne_nil {text : List Char} {t : Token} (h : Spells text t) : text ≠ [] := by
  cases h with
  | str hquote hbody => exact List.cons_ne_nil _ _
  | decimal hsign hwhole hne hfraction =>
      exact List.append_ne_nil_of_right_ne_nil _ (List.cons_ne_nil _ _)
  | integer hsign hne hdigits => exact List.append_ne_nil_of_right_ne_nil _ hne
  | name hstart hrest => exact List.cons_ne_nil _ _
  | punct p => exact List.cons_ne_nil _ _

/-! ## What is scanned is spelled -/

theorem exists_spells_of_scanString? {q : Char} {cs : List Char} {t : Token} {n : Nat}
    (hquote : q = '"' ∨ q = '\'') (h : scanString? q cs = some (t, n)) :
    ∃ text, text.length = n ∧ text <+: q :: cs ∧ Spells text t := by
  rw [scanString?] at h
  split at h
  next hlt =>
    cases h
    have hbody : q ∉ cs.takeWhile (· != q) := fun hmem => by
      simpa using List.mem_takeWhile_imp hmem
    have hjoin := List.takeWhile_append_dropWhile (p := (· != q)) (l := cs)
    have hhead := List.head?_dropWhile_not (· != q) cs
    cases hrest : cs.dropWhile (· != q) with
    | nil =>
        rw [hrest, List.append_nil] at hjoin
        rw [hjoin] at hlt
        exact absurd hlt (Nat.lt_irrefl _)
    | cons d rest =>
        rw [hrest] at hjoin hhead
        obtain rfl : d = q := by simpa using hhead
        refine ⟨_, ?_, ⟨rest, ?_⟩, .str hquote hbody⟩
        · simp
        · rw [List.cons_append, List.append_assoc]
          exact congrArg _ hjoin
  next => cases h

theorem exists_spells_of_scanDigits? {sign cs : List Char} {t : Token} {n : Nat}
    (hsign : IsSign sign) (h : scanDigits? sign cs = some (t, n)) :
    ∃ text, text.length = n ∧ text <+: sign ++ cs ∧ Spells text t := by
  have hall : ∀ cs : List Char, ∀ c ∈ cs.takeWhile Char.isDigit, c.isDigit = true :=
    fun cs c hc => List.mem_takeWhile_imp hc
  have hjoin := List.takeWhile_append_dropWhile (p := Char.isDigit) (l := cs)
  have integer : ∀ {t n}, (if (cs.takeWhile Char.isDigit).isEmpty then none
      else some (Token.integer (String.ofList (sign ++ cs.takeWhile Char.isDigit)),
        sign.length + (cs.takeWhile Char.isDigit).length)) = some (t, n) →
      ∃ text, text.length = n ∧ text <+: sign ++ cs ∧ Spells text t := by
    intro t n h
    split at h
    next => cases h
    next hne =>
      cases h
      rw [List.isEmpty_iff] at hne
      exact ⟨_, List.length_append, List.prefix_append_right_inj sign |>.mpr
        (List.takeWhile_prefix _), .integer hsign hne (hall cs)⟩
  unfold scanDigits? at h
  dsimp only at h
  split at h
  next rest hrest =>
    split at h
    next => exact integer h
    next hne =>
      cases h
      rw [List.isEmpty_iff] at hne
      refine ⟨_, ?_, ⟨rest.dropWhile Char.isDigit, ?_⟩, .decimal hsign (hall cs) hne (hall rest)⟩
      · simp only [List.length_append, List.length_cons]
        omega
      · rw [List.append_assoc, List.append_assoc, List.cons_append,
          List.takeWhile_append_dropWhile, ← hrest, hjoin]
  next => exact integer h

theorem exists_spells_of_scan? {cs : List Char} {t : Token} {n : Nat}
    (h : scan? cs = some (t, n)) : ∃ text, text.length = n ∧ text <+: cs ∧ Spells text t := by
  cases cs with
  | nil => cases h
  | cons c cs =>
      rw [scan?] at h
      split at h
      next hquote => exact exists_spells_of_scanString? hquote h
      split at h
      next hstart =>
        cases h
        exact ⟨_, rfl, List.cons_prefix_cons.mpr ⟨rfl, List.takeWhile_prefix _⟩,
          .name hstart fun d hd => List.mem_takeWhile_imp hd⟩
      next =>
        split at h
        next r hr =>
          cases h
          unfold scanNumber? at hr
          split at hr
          next heq =>
            rw [heq]
            exact exists_spells_of_scanDigits? (.inr rfl) hr
          next => exact exists_spells_of_scanDigits? (.inl rfl) hr
        next =>
          obtain ⟨p, hp, hpunct⟩ := Option.map_eq_some_iff.mp h
          cases hpunct
          have hchar := List.find?_some hp
          rw [beq_iff_eq] at hchar
          exact ⟨[p.char], rfl, ⟨cs, by rw [hchar]; rfl⟩, .punct p⟩

/-! ## What is spelled is scanned -/

/-- What is scanned where a text starts with the text `text` of the token `t`: the token, or a
longer one. -/
def Reaches (found : Option (Token × Nat)) (text : List Char) (t : Token) : Prop :=
  ∃ t' n, found = some (t', n) ∧ (text.length < n ∨ n = text.length ∧ t' = t)

/-- A number starts with no quote, and with no character of a name. -/
theorem not_quote_or_name_of_number {c : Char} (h : c.isDigit = true ∨ c = '.' ∨ c = '-') :
    ¬ (c = '"' ∨ c = '\'') ∧ isNameStart c = false := by
  rcases h with h | rfl | rfl
  · constructor
    · rintro (rfl | rfl) <;> cases h
    · have hne : c ≠ '_' := by
        rintro rfl
        cases h
      rw [isNameStart, Bool.or_eq_false_iff, beq_eq_false_iff_ne]
      refine ⟨?_, hne⟩
      delta Char.isDigit at h
      delta Char.isAlpha Char.isUpper Char.isLower
      simp only [Bool.and_eq_true, decide_eq_true_eq, ge_iff_le, UInt32.le_iff_toNat_le,
        Bool.or_eq_false_iff, Bool.and_eq_false_iff, decide_eq_false_iff_not] at h ⊢
      simp at h ⊢
      omega
  · decide
  · decide

/-- A number is scanned after its sign. -/
theorem scan?_of_scanDigits? {sign cs : List Char} {c : Char} {r : Token × Nat}
    (hsign : IsSign sign) (hc : c.isDigit = true ∨ c = '.')
    (h : scanDigits? sign (c :: cs) = some r) : scan? (sign ++ c :: cs) = some r := by
  have hminus : c ≠ '-' := by
    rintro rfl
    rcases hc with hc | hc <;> cases hc
  have hnumber : ∀ {d ds}, (d.isDigit = true ∨ d = '.' ∨ d = '-') →
      scanNumber? (d :: ds) = some r → scan? (d :: ds) = some r := by
    intro d ds hd hr
    obtain ⟨hquote, hname⟩ := not_quote_or_name_of_number hd
    rw [scan?, if_neg hquote, if_neg (by rw [hname]; exact Bool.false_ne_true), hr]
  rcases hsign with rfl | rfl
  · refine hnumber (hc.imp_right .inl) ?_
    unfold scanNumber?
    split
    next heq => exact absurd (List.cons.inj heq).1 hminus
    next => exact h
  · exact hnumber (.inr (.inr rfl)) h

section Digits

variable (sign : List Char) {ds : List Char} (hds : ∀ c ∈ ds, c.isDigit = true)
  (rest : List Char)

include hds

/-- Digits go on with all digits that follow, and a point may end them. -/
theorem reaches_integer (hne : ds ≠ []) :
    Reaches (scanDigits? sign (ds ++ rest)) (sign ++ ds)
      (.integer (String.ofList (sign ++ ds))) := by
  have integer : Reaches (if (ds ++ rest.takeWhile Char.isDigit).isEmpty then none
      else some (Token.integer (String.ofList (sign ++ (ds ++ rest.takeWhile Char.isDigit))),
        sign.length + (ds ++ rest.takeWhile Char.isDigit).length)) (sign ++ ds)
      (.integer (String.ofList (sign ++ ds))) := by
    rw [if_neg (by simp [hne])]
    refine ⟨_, _, rfl, ?_⟩
    cases rest.takeWhile Char.isDigit with
    | nil => exact .inr ⟨by simp, by simp⟩
    | cons d more =>
        refine .inl ?_
        simp only [List.length_append, List.length_cons]
        omega
  unfold scanDigits?
  rw [List.takeWhile_append_of_pos hds, List.dropWhile_append_of_pos hds]
  dsimp only
  split
  next rest' hrest =>
    split
    next => exact integer
    next =>
      refine ⟨_, _, rfl, .inl ?_⟩
      simp only [List.length_append]
      omega
  next => exact integer

/-- A fraction goes on with all digits that follow. -/
theorem reaches_decimal {fraction : List Char} (hne : fraction ≠ [])
    (hfraction : ∀ c ∈ fraction, c.isDigit = true) :
    Reaches (scanDigits? sign (ds ++ '.' :: (fraction ++ rest))) (sign ++ ds ++ '.' :: fraction)
      (.decimal (String.ofList (sign ++ ds ++ '.' :: fraction))) := by
  have hdot : ¬ ('.').isDigit = true := by decide
  unfold scanDigits?
  rw [List.takeWhile_append_of_pos hds, List.dropWhile_append_of_pos hds,
    List.takeWhile_cons_of_neg hdot, List.dropWhile_cons_of_neg hdot, List.append_nil]
  dsimp only
  split
  next rest' heq =>
    cases heq
    rw [List.takeWhile_append_of_pos hfraction, if_neg (by simp [hne])]
    refine ⟨_, _, rfl, ?_⟩
    cases rest.takeWhile Char.isDigit with
    | nil =>
        refine .inr ⟨?_, by rw [List.append_nil]⟩
        simp only [List.length_append, List.length_cons, List.length_nil]
        omega
    | cons d more =>
        refine .inl ?_
        simp only [List.length_append, List.length_cons]
        omega
  next hne => exact absurd rfl (hne _)

end Digits

/-- A point may start a fraction, and every other token of one character is scanned. -/
theorem reaches_punct (p : Punct) (rest : List Char) :
    Reaches (scan? (p.char :: rest)) [p.char] (.punct p) := by
  have alone : ∀ {p : Punct}, scanNumber? (p.char :: rest) = none →
      Reaches (scan? (p.char :: rest)) [p.char] (.punct p) := by
    intro p hnumber
    refine ⟨.punct p, 1, ?_, .inr ⟨rfl, rfl⟩⟩
    rw [scan?, hnumber]
    cases p <;> rfl
  cases p with
  | dot =>
      cases hnumber : scanNumber? ('.' :: rest) with
      | none => exact alone (p := .dot) hnumber
      | some found =>
          obtain ⟨t, n⟩ := found
          have hsign : IsSign [] := .inl rfl
          have hscan : scan? ('.' :: rest) = some (t, n) :=
            scan?_of_scanDigits? hsign (.inr rfl) hnumber
          refine ⟨t, n, hscan, .inl ?_⟩
          have hfraction : scanDigits? [] ('.' :: rest) = some (t, n) := hnumber
          unfold scanDigits? at hfraction
          rw [List.takeWhile_cons_of_neg (by decide), List.dropWhile_cons_of_neg (by decide)]
            at hfraction
          dsimp only at hfraction
          split at hfraction
          next rest' heq =>
            split at hfraction
            next => cases hfraction
            next hne =>
              cases hfraction
              rw [List.isEmpty_iff] at hne
              have := List.length_pos_iff.mpr hne
              simp only [List.length_nil, List.length_singleton]
              omega
          next => cases hfraction
  | openParen => exact alone rfl
  | closeParen => exact alone rfl
  | openBracket => exact alone rfl
  | closeBracket => exact alone rfl
  | openBrace => exact alone rfl
  | closeBrace => exact alone rfl
  | comma => exact alone rfl
  | colon => exact alone rfl
  | equals => exact alone rfl

/-- Where a text starts with a token, that token is scanned or a longer one. -/
theorem Spells.reaches {text : List Char} {t : Token} (h : Spells text t) (rest : List Char) :
    Reaches (scan? (text ++ rest)) text t := by
  cases h with
  | @str q body hquote hbody =>
      have hword : body.takeWhile (· != q) = body :=
        List.takeWhile_eq_self_iff.mpr fun c hc => bne_iff_ne.mpr fun he => hbody (he ▸ hc)
      have htake : (body ++ [q] ++ rest).takeWhile (· != q) = body := by
        rw [List.append_assoc, List.singleton_append, takeWhile_append_cons (by simp), hword]
      refine ⟨_, _, ?_, .inr ⟨rfl, rfl⟩⟩
      rw [List.cons_append, scan?, if_pos hquote, scanString?, htake]
      simp
  | @decimal sign whole fraction hsign hwhole hne hfraction =>
      obtain ⟨t', n, hscan, hlength⟩ := reaches_decimal sign hwhole rest hne hfraction
      refine ⟨t', n, ?_, hlength⟩
      have hjoin : sign ++ whole ++ '.' :: fraction ++ rest =
          sign ++ (whole ++ '.' :: (fraction ++ rest)) := by simp
      rw [hjoin]
      cases whole with
      | nil => exact scan?_of_scanDigits? hsign (.inr rfl) hscan
      | cons c whole => exact scan?_of_scanDigits? hsign (.inl (hwhole c (.head _))) hscan
  | @integer sign digits hsign hne hdigits =>
      obtain ⟨t', n, hscan, hlength⟩ := reaches_integer sign hdigits rest hne
      refine ⟨t', n, ?_, hlength⟩
      rw [List.append_assoc]
      cases digits with
      | nil => exact absurd rfl hne
      | cons c digits => exact scan?_of_scanDigits? hsign (.inl (hdigits c (.head _))) hscan
  | @name c cs hstart hrest =>
      have hquote : ¬ (c = '"' ∨ c = '\'') := by
        rintro (rfl | rfl) <;> exact absurd hstart (by decide)
      rw [List.cons_append, scan?, if_neg hquote, if_pos hstart]
      dsimp only
      rw [List.takeWhile_append_of_pos hrest]
      refine ⟨_, _, rfl, ?_⟩
      cases rest.takeWhile isNameRest with
      | nil => exact .inr ⟨by simp, by simp⟩
      | cons d more =>
          refine .inl ?_
          simp only [List.length_append, List.length_cons]
          omega
  | punct p => exact reaches_punct p rest

/-! ## The longest token -/

/-- A text starts with the text `text` of the token `t`, and with no longer text of a token. -/
structure IsLongest (cs text : List Char) (t : Token) : Prop where
  starts : text <+: cs
  spells : Spells text t
  longest : ∀ text' t', text' <+: cs → Spells text' t' → text'.length ≤ text.length

/-- What a token is follows from its text. -/
theorem Spells.scan?_eq {text : List Char} {t : Token} (h : Spells text t) :
    scan? text = some (t, text.length) := by
  obtain ⟨t', n, hscan, hlength⟩ := h.reaches []
  rw [List.append_nil] at hscan
  have hn := (length_of_scan? hscan).2
  obtain ⟨rfl, rfl⟩ := hlength.resolve_left (by omega)
  exact hscan

theorem isLongest_of_scan? {cs : List Char} {t : Token} {n : Nat} (h : scan? cs = some (t, n)) :
    ∃ text, text.length = n ∧ IsLongest cs text t := by
  obtain ⟨text, hlength, hstarts, hspells⟩ := exists_spells_of_scan? h
  refine ⟨text, hlength, hstarts, hspells, fun text' t' hstarts' hspells' => ?_⟩
  obtain ⟨rest, rfl⟩ := hstarts'
  obtain ⟨t'', n', hscan, hn⟩ := hspells'.reaches rest
  cases h.symm.trans hscan
  omega

/-- What is scanned at the start of a text is the longest token that it starts with. -/
theorem scan?_eq_some_iff {cs : List Char} {t : Token} {n : Nat} :
    scan? cs = some (t, n) ↔ ∃ text, text.length = n ∧ IsLongest cs text t := by
  refine ⟨isLongest_of_scan?, ?_⟩
  rintro ⟨text, rfl, h⟩
  obtain ⟨rest, hrest⟩ := h.starts
  obtain ⟨t', n, hscan, hn⟩ := h.spells.reaches rest
  rw [hrest] at hscan
  obtain ⟨text', hlength, hlongest⟩ := isLongest_of_scan? hscan
  have hle := h.longest text' t' hlongest.starts hlongest.spells
  obtain ⟨rfl, rfl⟩ := hn.resolve_left (by omega)
  exact hscan

/-- Nothing is scanned only where no token starts. -/
theorem scan?_eq_none_iff {cs : List Char} :
    scan? cs = none ↔ ∀ text t, text <+: cs → ¬ Spells text t := by
  constructor
  · rintro h text t ⟨rest, rfl⟩ hspells
    obtain ⟨t', n, hscan, -⟩ := hspells.reaches rest
    cases h.symm.trans hscan
  · intro h
    cases hscan : scan? cs with
    | none => rfl
    | some found =>
        obtain ⟨text, -, hstarts, hspells⟩ := exists_spells_of_scan? hscan
        exact absurd hspells (h text _ hstarts)

/-! ## Where tokens end -/

/-- A character with which no token goes on, but strings. -/
def IsBreak (c : Char) : Prop := isNameRest c = false ∧ c ≠ '.' ∧ c ≠ '-'

theorem isBreak_of_isSpace {c : Char} (h : isSpace c = true) : IsBreak c := by
  simp only [isSpace, Bool.or_eq_true, beq_iff_eq] at h
  rcases h with (((rfl | rfl) | rfl) | rfl) | rfl <;> simp [IsBreak, isNameRest]

theorem isBreak_char {p : Punct} (h : p ≠ .dot) : IsBreak p.char := by
  cases p with
  | dot => exact absurd rfl h
  | _ => simp [IsBreak, isNameRest, Punct.char]

theorem isNameRest_of_isDigit {c : Char} (h : c.isDigit = true) : isNameRest c = true := by
  simp [isNameRest, Char.isAlphanum, h]

theorem isNameRest_of_isNameStart {c : Char} (h : isNameStart c = true) :
    isNameRest c = true := by
  simp only [isNameStart, Bool.or_eq_true] at h
  rcases h with h | h <;> simp [isNameRest, Char.isAlphanum, h]

/-- A token with such a character in it is the character or a string. -/
theorem Spells.eq_or_exists_quote {text : List Char} {t : Token} (h : Spells text t) {c : Char}
    (hc : c ∈ text) (hbreak : IsBreak c) :
    text = [c] ∨ ∃ q body, (q = '"' ∨ q = '\'') ∧ q ∉ body ∧ text = q :: (body ++ [q]) := by
  obtain ⟨hname, hdot, hminus⟩ := hbreak
  have digits : ∀ {ds : List Char}, (∀ d ∈ ds, d.isDigit = true) → c ∉ ds := by
    intro ds hds hm
    exact absurd (isNameRest_of_isDigit (hds c hm)) (by simp [hname])
  have signs : ∀ {sign : List Char}, IsSign sign → c ∉ sign := by
    rintro sign (rfl | rfl) <;> simp [hminus]
  cases h with
  | str hquote hbody => exact .inr ⟨_, _, hquote, hbody, rfl⟩
  | decimal hsign hwhole hne hfraction =>
      simp [signs hsign, digits hwhole, hdot, digits hfraction] at hc
  | integer hsign hne hdigits => simp [signs hsign, digits hdigits] at hc
  | @name d ds hstart hrest =>
      have hall : ∀ d' ∈ d :: ds, isNameRest d' = true :=
        List.forall_mem_cons.mpr ⟨isNameRest_of_isNameStart hstart, hrest⟩
      exact absurd (hall c hc) (by simp [hname])
  | punct p => exact .inl (by simpa [eq_comm] using hc)

/-- No token starts with a space. -/
theorem Spells.head {c : Char} {cs : List Char} {t : Token} (h : Spells (c :: cs) t) :
    isSpace c = false := by
  rw [← Bool.not_eq_true]
  intro hspace
  have halone : scan? [c] = none := by
    simp only [isSpace, Bool.or_eq_true, beq_iff_eq] at hspace
    rcases hspace with (((rfl | rfl) | rfl) | rfl) | rfl <;> rfl
  rcases h.eq_or_exists_quote (.head _) (isBreak_of_isSpace hspace) with
    heq | ⟨q, body, hquote, -, heq⟩
  · rw [heq] at h
    rw [h.scan?_eq] at halone
    cases halone
  · rw [(List.cons.inj heq).1] at hspace
    rcases hquote with rfl | rfl <;> cases hspace

/-- A string ends at the first quote. -/
theorem Spells.not_prefix {q : Char} {body text : List Char} {t : Token} (h : Spells text t)
    (hquote : q = '"' ∨ q = '\'') (hbody : q ∉ body) : ¬ text <+: q :: body := by
  intro hstarts
  have hscan := h.scan?_eq
  cases text with
  | nil => exact h.ne_nil rfl
  | cons c cs =>
      obtain ⟨rfl, hcs⟩ := List.cons_prefix_cons.mp hstarts
      have hall : cs.takeWhile (· != c) = cs :=
        List.takeWhile_eq_self_iff.mpr fun d hd =>
          bne_iff_ne.mpr fun he => hbody (he ▸ hcs.subset hd)
      rw [scan?, if_pos hquote, scanString?, hall, if_neg (Nat.lt_irrefl _)] at hscan
      cases hscan

/-- A text is the longest token there is in it. -/
theorem Spells.isLongest_alone {text : List Char} {t : Token} (h : Spells text t) :
    IsLongest text text t :=
  ⟨List.prefix_rfl, h, fun _ _ hstarts _ => hstarts.length_le⟩

/-- A token before a character with which only strings go on is the longest token there. -/
theorem Spells.isLongest_before {text : List Char} {t : Token} (h : Spells text t) {c : Char}
    (hbreak : IsBreak c) (rest : List Char) : IsLongest (text ++ c :: rest) text t := by
  refine ⟨List.prefix_append _ _, h, ?_⟩
  intro text' t' hstarts hspells
  by_contra hlt
  rw [not_le] at hlt
  -- A longer token has the character in it, so it is a string, and a string starts with no token.
  have hmore : text ++ [c] <+: text' := by
    refine List.prefix_of_prefix_length_le ⟨rest, by simp⟩ hstarts ?_
    rw [List.length_append]
    exact hlt
  rcases hspells.eq_or_exists_quote (hmore.subset (by simp)) hbreak with
    rfl | ⟨q, body, hquote, hbody, rfl⟩
  · have := List.length_pos_iff.mpr h.ne_nil
    rw [List.length_singleton] at hlt
    omega
  · refine absurd ?_ (h.not_prefix hquote hbody)
    refine List.prefix_of_prefix_length_le ((List.prefix_append _ _).trans hmore)
      (List.prefix_append (q :: body) [q]) ?_
    rw [← List.cons_append, List.length_append] at hlt
    exact Nat.le_of_lt_succ hlt

/-- A token of one character is the longest token wherever it stands, but for a point. -/
theorem isLongest_punct {p : Punct} (h : p ≠ .dot) (rest : List Char) :
    IsLongest (p.char :: rest) [p.char] (.punct p) := by
  have hscan : scan? (p.char :: rest) = some (.punct p, 1) := by
    cases p with
    | dot => exact absurd rfl h
    | _ => rfl
  obtain ⟨text, hlength, hlongest⟩ := isLongest_of_scan? hscan
  obtain ⟨c, rfl⟩ := List.length_eq_one_iff.mp hlength
  obtain rfl := (List.cons_prefix_cons.mp hlongest.starts).1
  exact hlongest

end Token

end PageLoom
