import PageLoom.Markup.Tag
import Mathlib.Tactic.Common

/-!
# Reading elements

Markup is read without knowing how it was made.  It is cut at its brackets, a tag ending at the
first `>` outside quotes (`cuts?`).  A tag is then a name with attributes, each after a space, as a
bare name or with a value in double quotes, or the end of an element; in values and texts the five
entities are replaced by their characters (`pieces?`).  Nothing else is accepted, so a tag or an
ampersand that does not belong there cannot be overlooked.

Reading undoes escaping (`unescape_escape`), and a start tag is read as the name and the attributes
that it was written with (`piece?_startTag`).  Lemmas on cuts go through the text from left to
right: what is before a bracket is a text or the inside of a tag, whatever follows (`cuts?_text`,
`cuts?_tag`).
-/

namespace PageLoom.Markup

/-! ## Entities -/

/-- A text with characters in place of the five entities.  Other ampersands are refused. -/
def unescape : List Char → Option (List Char)
  | [] => some []
  | '&' :: 'l' :: 't' :: ';' :: cs => (unescape cs).map ('<' :: ·)
  | '&' :: 'g' :: 't' :: ';' :: cs => (unescape cs).map ('>' :: ·)
  | '&' :: 'a' :: 'm' :: 'p' :: ';' :: cs => (unescape cs).map ('&' :: ·)
  | '&' :: 'a' :: 'p' :: 'o' :: 's' :: ';' :: cs => (unescape cs).map ('\'' :: ·)
  | '&' :: 'q' :: 'u' :: 'o' :: 't' :: ';' :: cs => (unescape cs).map ('"' :: ·)
  | c :: cs => if c = '&' then none else (unescape cs).map (c :: ·)

/-- An entity for a character is read as the character. -/
theorem unescape_escapeChar (c : Char) (cs : List Char) :
    unescape (escapeChar c ++ cs) = (unescape cs).map (c :: ·) := by
  unfold escapeChar
  split
  case h_6 _ _ _ hamp _ _ =>
    rw [List.singleton_append, unescape, if_neg hamp]
    all_goals
      intro _ hc
      exact absurd hc hamp
  all_goals rfl

theorem unescape_flatMap (cs : List Char) : unescape (cs.flatMap escapeChar) = some cs := by
  induction cs with
  | nil => rfl
  | cons c cs ih => rw [List.flatMap_cons, unescape_escapeChar, ih, Option.map_some]

/-- Reading undoes escaping. -/
theorem unescape_escape (s : String) : unescape (escape s).toList = some s.toList := by
  rw [escape, String.toList_ofList, unescape_flatMap]

/-- Escaped text has no brackets and no quotes. -/
theorem not_mem_escape (s : String) {d : Char} (h : d = '<' ∨ d = '>' ∨ d = '"' ∨ d = '\'') :
    d ∉ (escape s).toList := by
  rw [escape, String.toList_ofList, List.mem_flatMap]
  rintro ⟨c, -, hc⟩
  exact not_mem_escapeChar c d h hc

/-! ## Cuts -/

/-- What stands between two brackets. -/
inductive Cut
  | text (cs : List Char)
  /-- The inside of a tag. -/
  | tag (cs : List Char)

/-- What is being read: a text, or a tag, perhaps inside quotes. -/
inductive Mode
  | text
  | tag (quote : Option Char)

/-- The cut of a text, unless it is empty. -/
def cutText (cs : List Char) : List Cut := if cs.isEmpty then [] else [.text cs]

/-- The cuts of markup; `seen` are the characters of the first one that are read already. -/
def cuts? : Mode → List Char → List Char → Option (List Cut)
  | .text, seen, [] => some (cutText seen)
  | .tag _, _, [] => none
  | .text, seen, c :: cs =>
      if c = '<' then (cuts? (.tag none) [] cs).map (cutText seen ++ ·)
      else cuts? .text (seen ++ [c]) cs
  | .tag none, seen, c :: cs =>
      if c = '>' then (cuts? .text [] cs).map (.tag seen :: ·)
      else cuts? (.tag (if c = '"' ∨ c = '\'' then some c else none)) (seen ++ [c]) cs
  | .tag (some quote), seen, c :: cs =>
      cuts? (.tag (if c = quote then none else some quote)) (seen ++ [c]) cs

/-- A text is cut at the first bracket that opens, whatever follows. -/
theorem cuts?_text {xs : List Char} (h : '<' ∉ xs) (seen rest : List Char) :
    cuts? .text seen (xs ++ '<' :: rest) =
      (cuts? (.tag none) [] rest).map (cutText (seen ++ xs) ++ ·) := by
  induction xs generalizing seen with
  | nil => rw [List.nil_append, cuts?, if_pos rfl, List.append_nil]
  | cons c xs ih =>
      rw [List.mem_cons, not_or] at h
      rw [List.cons_append, cuts?, if_neg (Ne.symm h.1), ih h.2, List.append_assoc,
        List.singleton_append]

/-- Whether characters stay inside a tag and leave no quotes open. -/
def StaysInside (xs : List Char) : Prop :=
  ∀ seen rest, cuts? (.tag none) seen (xs ++ rest) = cuts? (.tag none) (seen ++ xs) rest

theorem StaysInside.append {xs ys : List Char} (hx : StaysInside xs) (hy : StaysInside ys) :
    StaysInside (xs ++ ys) := by
  intro seen rest
  rw [List.append_assoc, hx, hy, List.append_assoc]

/-- Without brackets and quotes nothing ends a tag. -/
theorem staysInside_of_plain {xs : List Char} (h : ∀ c ∈ xs, c ≠ '>' ∧ c ≠ '"' ∧ c ≠ '\'') :
    StaysInside xs := by
  intro seen rest
  induction xs generalizing seen with
  | nil => rw [List.nil_append, List.append_nil]
  | cons c xs ih =>
      obtain ⟨⟨hclose, hdouble, hsingle⟩, hxs⟩ := List.forall_mem_cons.mp h
      rw [List.cons_append, cuts?, if_neg hclose, if_neg (not_or.mpr ⟨hdouble, hsingle⟩), ih hxs,
        List.append_assoc, List.singleton_append]

theorem staysInside_singleton {c : Char} (h : c ≠ '>' ∧ c ≠ '"' ∧ c ≠ '\'') : StaysInside [c] :=
  staysInside_of_plain (List.forall_mem_singleton.mpr h)

/-- Quotes are left at the next quote of their kind, and brackets in them do not count. -/
theorem cuts?_quoted {xs : List Char} (h : '"' ∉ xs) (seen rest : List Char) :
    cuts? (.tag (some '"')) seen (xs ++ '"' :: rest) =
      cuts? (.tag none) (seen ++ xs ++ ['"']) rest := by
  induction xs generalizing seen with
  | nil => rw [List.nil_append, cuts?, if_pos rfl, List.append_nil]
  | cons c xs ih =>
      rw [List.mem_cons, not_or] at h
      rw [List.cons_append, cuts?, if_neg (Ne.symm h.1), ih h.2, List.append_assoc seen,
        List.singleton_append]

/-- A quoted value ends no tag, brackets and all. -/
theorem staysInside_quoted {xs : List Char} (h : '"' ∉ xs) :
    StaysInside ('"' :: (xs ++ ['"'])) := by
  intro seen rest
  rw [List.cons_append, cuts?, if_neg (by decide), if_pos (.inl rfl), List.append_assoc,
    List.singleton_append, cuts?_quoted h]
  simp

/-- A tag is cut at the bracket that closes it, if what is before does not leave the tag. -/
theorem cuts?_tag {xs : List Char} (h : StaysInside xs) (rest : List Char) :
    cuts? (.tag none) [] (xs ++ '>' :: rest) = (cuts? .text [] rest).map (.tag xs :: ·) := by
  rw [h, List.nil_append, cuts?, if_pos rfl]

/-! ## Tags -/

/-- The characters of names: all but the white space of markup, quotes, `=`, `/` and brackets. -/
def isNameChar (c : Char) : Bool :=
  c ∉ [' ', '\t', '\n', '\r', Char.ofNat 12, '"', '\'', '=', '/', '<', '>']

/-- Whether all characters of a text may stand in a name. -/
def IsName (name : String) : Prop := ∀ c ∈ name.toList, isNameChar c = true

instance (name : String) : Decidable (IsName name) :=
  decidable_of_iff (name.toList.all isNameChar = true) List.all_eq_true

/-- What is being read in a tag: what is between attributes, a name, what follows the `=` of a name,
or a value. -/
inductive AttrMode
  | between
  | name (cs : List Char)
  | equals (name : List Char)
  | value (name cs : List Char)

/-- Put an attribute first. -/
def addAttr (a : String × String) (r : Attrs × Bool) : Attrs × Bool := (a :: r.1, r.2)

/-- The attributes of a start tag, and whether the element is void. -/
def attrs? : AttrMode → List Char → Option (Attrs × Bool)
  | .between, [] => some ([], false)
  | .name n, [] => some (addAttr (String.ofList n, "") ([], false))
  | .equals _, [] => none
  | .value _ _, [] => none
  | .between, c :: cs =>
      if c = ' ' then attrs? (.name []) cs
      else if c = '/' ∧ cs = [] then some ([], true)
      else none
  | .name n, c :: cs =>
      if isNameChar c then attrs? (.name (n ++ [c])) cs
      else if c = '=' then attrs? (.equals n) cs
      else if c = ' ' then (attrs? (.name []) cs).map (addAttr (String.ofList n, ""))
      else if c = '/' ∧ cs = [] then some (addAttr (String.ofList n, "") ([], true))
      else none
  | .equals n, c :: cs => if c = '"' then attrs? (.value n []) cs else none
  | .value n v, c :: cs =>
      if c = '"' then
        (unescape v).bind fun v =>
          (attrs? .between cs).map (addAttr (String.ofList n, String.ofList v))
      else attrs? (.value n (v ++ [c])) cs

/-- The characters of a name are collected. -/
theorem attrs?_name {xs : List Char} (h : ∀ c ∈ xs, isNameChar c = true) (n rest : List Char) :
    attrs? (.name n) (xs ++ rest) = attrs? (.name (n ++ xs)) rest := by
  induction xs generalizing n with
  | nil => rw [List.nil_append, List.append_nil]
  | cons c xs ih =>
      obtain ⟨hc, hxs⟩ := List.forall_mem_cons.mp h
      rw [List.cons_append, attrs?, if_pos hc, ih hxs, List.append_assoc, List.singleton_append]

/-- A value is read up to its closing quote, and then unescaped. -/
theorem attrs?_value {xs : List Char} (h : '"' ∉ xs) (n v rest : List Char) :
    attrs? (.value n v) (xs ++ '"' :: rest) =
      (unescape (v ++ xs)).bind fun v =>
        (attrs? .between rest).map (addAttr (String.ofList n, String.ofList v)) := by
  induction xs generalizing v with
  | nil => rw [List.nil_append, attrs?, if_pos rfl, List.append_nil]
  | cons c xs ih =>
      rw [List.mem_cons, not_or] at h
      rw [List.cons_append, attrs?, if_neg (Ne.symm h.1), ih h.2, List.append_assoc,
        List.singleton_append]

/-- Whether a name may end before some characters: a space, or the end of the tag. -/
def EndsName (rest : List Char) : Prop := rest = [] ∨ rest = ['/'] ∨ ∃ cs, rest = ' ' :: cs

/-- A name that no value follows is an attribute with an empty value. -/
theorem attrs?_name_end {rest : List Char} (h : EndsName rest) (n : List Char) :
    attrs? (.name n) rest = (attrs? .between rest).map (addAttr (String.ofList n, "")) := by
  rcases h with rfl | rfl | ⟨cs, rfl⟩
  · rfl
  · rfl
  · rw [attrs?, attrs?, if_neg (by decide), if_neg (by decide), if_pos rfl, if_pos rfl]

/-- An attribute is read as it was written. -/
theorem attrs?_writeAttr {a : String × String} (h : IsName a.1) {rest : List Char}
    (hrest : EndsName rest) :
    attrs? .between ((writeAttr a).toList ++ rest) = (attrs? .between rest).map (addAttr a) := by
  obtain ⟨name, value⟩ := a
  rw [writeAttr]
  split
  next hempty =>
    rw [String.isEmpty_iff] at hempty
    subst hempty
    have hwritten : (" " ++ name).toList ++ rest = ' ' :: (name.toList ++ rest) := by simp
    rw [hwritten, attrs?, if_pos rfl, attrs?_name h, attrs?_name_end hrest, List.nil_append,
      String.ofList_toList]
  next =>
    have hquote := not_mem_escape value (d := '"') (by simp)
    have hwritten : (" " ++ name ++ "=\"" ++ escape value ++ "\"").toList ++ rest =
        ' ' :: (name.toList ++ '=' :: '"' :: ((escape value).toList ++ '"' :: rest)) := by simp
    rw [hwritten, attrs?, if_pos rfl, attrs?_name h, attrs?, if_neg (by decide), if_pos rfl, attrs?,
      if_pos rfl, attrs?_value hquote, List.nil_append, List.nil_append, unescape_escape,
      Option.bind_some, String.ofList_toList, String.ofList_toList]

/-- The attributes of a tag as they are written. -/
def attrChars (attrs : Attrs) : List Char := attrs.flatMap fun a => (writeAttr a).toList

@[simp] theorem attrChars_nil : attrChars [] = [] := rfl

theorem attrChars_cons (a : String × String) (attrs : Attrs) :
    attrChars (a :: attrs) = (writeAttr a).toList ++ attrChars attrs := rfl

/-- A start tag is its name and its attributes after an opening bracket. -/
theorem toList_openTag (name : String) (attrs : Attrs) :
    (openTag name attrs).toList = '<' :: (name.toList ++ attrChars attrs) := by
  simp [openTag, attrChars, String.toList_join, List.flatMap_map]

/-- Attributes end the name before them, since each starts with a space. -/
theorem endsName_attrChars (attrs : Attrs) {rest : List Char} (h : EndsName rest) :
    EndsName (attrChars attrs ++ rest) := by
  cases attrs with
  | nil => exact h
  | cons a attrs =>
      have hspace : ∃ cs, (writeAttr a).toList = ' ' :: cs := by
        rw [writeAttr]
        split <;> simp
      obtain ⟨cs, hcs⟩ := hspace
      rw [attrChars_cons, hcs, List.cons_append, List.cons_append]
      exact .inr (.inr ⟨_, rfl⟩)

/-- Attributes are read as they were written. -/
theorem attrs?_attrChars {attrs : Attrs} (h : ∀ a ∈ attrs, IsName a.1) {rest : List Char}
    (hrest : EndsName rest) : attrs? .between (attrChars attrs ++ rest) =
      (attrs? .between rest).map fun r => (attrs ++ r.1, r.2) := by
  induction attrs with
  | nil => simp
  | cons a attrs ih =>
      obtain ⟨ha, hattrs⟩ := List.forall_mem_cons.mp h
      rw [attrChars_cons, List.append_assoc,
        attrs?_writeAttr ha (endsName_attrChars attrs hrest), ih hattrs, Option.map_map]
      rfl

/-! ## Pieces -/

/-- A piece of markup. -/
inductive Piece
  /-- The start of an element; a void element is this piece alone. -/
  | start (name : String) (attrs : Attrs) (void : Bool)
  | text (s : String)
  /-- The end of an element. -/
  | finish (name : String)
deriving DecidableEq, Repr

/-- A piece of what was cut. -/
def piece? : Cut → Option Piece
  | .text cs => (unescape cs).map fun cs => .text (String.ofList cs)
  | .tag [] => none
  | .tag (c :: cs) =>
      if c = '/' then
        if cs.all isNameChar && !cs.isEmpty then some (.finish (String.ofList cs)) else none
      else if isNameChar c then
        (attrs? .between ((c :: cs).dropWhile isNameChar)).map fun r =>
          .start (String.ofList ((c :: cs).takeWhile isNameChar)) r.1 r.2
      else none

/-- The pieces of markup. -/
def pieces? (markup : List Char) : Option (List Piece) :=
  (cuts? .text [] markup).bind fun cuts => cuts.mapM piece?

/-- The piece of a text, unless it is empty. -/
def textPiece (s : String) : List Piece := if s.isEmpty then [] else [.text s]

/-- Different texts are different pieces, the empty one being none. -/
theorem textPiece_inj {s t : String} (h : textPiece s = textPiece t) : s = t := by
  unfold textPiece at h
  split at h
  next hs =>
    split at h
    next ht => rw [String.isEmpty_iff.mp hs, String.isEmpty_iff.mp ht]
    next => cases h
  next =>
    split at h
    next => cases h
    next =>
      cases h
      rfl

/-- No character of a name is a bracket or a quote. -/
theorem ne_of_isNameChar {c : Char} (h : isNameChar c = true) :
    c ≠ '<' ∧ c ≠ '>' ∧ c ≠ '"' ∧ c ≠ '\'' := by
  refine ⟨?_, ?_, ?_, ?_⟩ <;> (rintro rfl; cases h)

theorem staysInside_name {name : String} (h : IsName name) : StaysInside name.toList :=
  staysInside_of_plain fun c hc => (ne_of_isNameChar (h c hc)).2

/-- A written attribute ends no tag, since its value is escaped and in quotes. -/
theorem staysInside_writeAttr {a : String × String} (h : IsName a.1) :
    StaysInside (writeAttr a).toList := by
  obtain ⟨name, value⟩ := a
  have hspace : StaysInside [' '] := staysInside_singleton (by decide)
  rw [writeAttr]
  split
  next =>
    rw [String.toList_append]
    exact hspace.append (staysInside_name h)
  next =>
    have hwritten : (" " ++ name ++ "=\"" ++ escape value ++ "\"").toList =
        [' '] ++ (name.toList ++ (['='] ++ ('"' :: ((escape value).toList ++ ['"'])))) := by simp
    rw [hwritten]
    exact hspace.append ((staysInside_name h).append ((staysInside_singleton (by decide)).append
      (staysInside_quoted (not_mem_escape value (by simp)))))

/-- A written start tag is closed by the bracket after it and not before. -/
theorem staysInside_startTag {name : String} {attrs : Attrs} (hname : IsName name)
    (hattrs : ∀ a ∈ attrs, IsName a.1) (void : Bool) :
    StaysInside (name.toList ++ (attrChars attrs ++ if void then ['/'] else [])) := by
  have hvoid : StaysInside (if void then ['/'] else []) := by
    cases void with
    | true => exact staysInside_singleton (by decide)
    | false => exact staysInside_of_plain (List.forall_mem_nil _)
  refine (staysInside_name hname).append (StaysInside.append ?_ hvoid)
  induction attrs with
  | nil => exact staysInside_of_plain (by simp)
  | cons a attrs ih =>
      obtain ⟨ha, hattrs⟩ := List.forall_mem_cons.mp hattrs
      rw [attrChars_cons]
      exact (staysInside_writeAttr ha).append (ih hattrs)

theorem EndsName.takeWhile {rest : List Char} (h : EndsName rest) :
    rest.takeWhile isNameChar = [] ∧ rest.dropWhile isNameChar = rest := by
  rcases h with rfl | rfl | ⟨cs, rfl⟩
  · exact ⟨rfl, rfl⟩
  · exact ⟨rfl, rfl⟩
  · exact ⟨List.takeWhile_cons_of_neg (by decide), List.dropWhile_cons_of_neg (by decide)⟩

/-- A start tag is read as the name and the attributes that it was written with. -/
theorem piece?_startTag {name : String} {attrs : Attrs} (hne : name ≠ "") (hname : IsName name)
    (hattrs : ∀ a ∈ attrs, IsName a.1) (void : Bool) :
    piece? (.tag (name.toList ++ (attrChars attrs ++ if void then ['/'] else []))) =
      some (.start name attrs void) := by
  have hend : EndsName (if void then ['/'] else []) := by
    cases void
    · exact .inl rfl
    · exact .inr (.inl rfl)
  have hread : attrs? .between (if void then ['/'] else []) = some ([], void) := by
    cases void <;> rfl
  obtain ⟨htake, hdrop⟩ := (endsName_attrChars attrs hend).takeWhile
  obtain ⟨c, cs, hcs⟩ := List.exists_cons_of_ne_nil (fun h => hne (String.toList_eq_nil_iff.mp h))
  have hc : isNameChar c = true := hname c (by rw [hcs]; exact List.mem_cons_self)
  have hslash : c ≠ '/' := by rintro rfl; cases hc
  rw [hcs, List.cons_append, piece?, if_neg hslash, if_pos hc, ← List.cons_append, ← hcs,
    List.takeWhile_append_of_pos hname, List.dropWhile_append_of_pos hname, htake, hdrop,
    attrs?_attrChars hattrs hend, hread, List.append_nil, String.ofList_toList]
  simp

/-- An end tag is read as the end of the element that it names. -/
theorem piece?_endTag {name : String} (hne : name ≠ "") (hname : IsName name) :
    piece? (.tag ('/' :: name.toList)) = some (.finish name) := by
  have hok : (name.toList.all isNameChar && !name.toList.isEmpty) = true := by
    rw [List.all_eq_true.mpr hname, Bool.true_and, Bool.not_eq_true', List.isEmpty_eq_false_iff]
    exact fun h => hne (String.toList_eq_nil_iff.mp h)
  rw [piece?, if_pos rfl, if_pos hok, String.ofList_toList]

/-- Escaped text is read as the text. -/
theorem mapM_piece?_cutText (s : String) :
    (cutText (escape s).toList).mapM piece? = some (textPiece s) := by
  by_cases hempty : s = ""
  · subst hempty
    rfl
  · have hescape : (escape s).toList ≠ [] := by
      intro hnil
      have hback := unescape_escape s
      rw [hnil, unescape, Option.some.injEq] at hback
      exact hempty (String.toList_eq_nil_iff.mp hback.symm)
    have hfull : s.isEmpty = false := by
      rw [← Bool.not_eq_true, String.isEmpty_iff]
      exact hempty
    rw [cutText, List.isEmpty_eq_false_iff.mpr hescape, textPiece, hfull]
    simp [piece?, unescape_escape]

/-- Text and a tag after it are read apart from all that follows. -/
theorem pieces?_tag {xs tag : List Char} {before : List Piece} {piece : Piece} (hxs : '<' ∉ xs)
    (htag : StaysInside tag) (hbefore : (cutText xs).mapM piece? = some before)
    (hpiece : piece? (.tag tag) = some piece) (rest : List Char) :
    pieces? (xs ++ '<' :: (tag ++ '>' :: rest)) = (pieces? rest).map (before ++ piece :: ·) := by
  rw [pieces?, cuts?_text hxs, cuts?_tag htag, Option.map_map, pieces?]
  cases cuts? .text [] rest with
  | none => rfl
  | some cuts => cases hcuts : cuts.mapM piece? <;> simp [hbefore, hpiece, hcuts]

/-- An escaped text and a start tag after it are read as the text, the name and the attributes. -/
theorem pieces?_startTag (s : String) {name : String} {attrs : Attrs} (hne : name ≠ "")
    (hname : IsName name) (hattrs : ∀ a ∈ attrs, IsName a.1) (void : Bool) (rest : List Char) :
    pieces? ((escape s).toList ++ '<' ::
        (name.toList ++ (attrChars attrs ++ if void then ['/'] else []) ++ '>' :: rest)) =
      (pieces? rest).map (textPiece s ++ .start name attrs void :: ·) :=
  pieces?_tag (not_mem_escape s (.inl rfl)) (staysInside_startTag hname hattrs void)
    (mapM_piece?_cutText s) (piece?_startTag hne hname hattrs void) rest

/-- An escaped text and an end tag after it are read as the text and the end of the element. -/
theorem pieces?_endTag (s : String) {name : String} (hne : name ≠ "") (hname : IsName name)
    (rest : List Char) :
    pieces? ((escape s).toList ++ '<' :: ('/' :: name.toList ++ '>' :: rest)) =
      (pieces? rest).map (textPiece s ++ .finish name :: ·) := by
  have hslash : StaysInside ['/'] := staysInside_singleton (by decide)
  have hinside : StaysInside ('/' :: name.toList) := hslash.append (staysInside_name hname)
  exact pieces?_tag (not_mem_escape s (.inl rfl)) hinside (mapM_piece?_cutText s)
    (piece?_endTag hne hname) rest

end PageLoom.Markup
