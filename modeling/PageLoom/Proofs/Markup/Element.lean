import PageLoom.Proofs.Markup.Reading

/-!
# One element around a text

The markup of an element with attributes and a text is read as exactly these, whatever the values
and the text hold (`Tag.readsBack_withText`): nothing in them ends the tag or starts another one,
since all brackets of the markup are the element's own.  So elements with the same markup are the
same.

An empty value is written as a bare name and read as the empty value again.  Names have no white
space, quotes, `=`, `/` or brackets in them (`Tag.WellNamed`).
-/

namespace PageLoom

open Markup

namespace Tag

/-- Whether the names of an element can be told from what is around them. -/
structure WellNamed (t : Tag) : Prop where
  nonempty : t.name ≠ ""
  name : IsName t.name
  attrs : ∀ a ∈ t.attrs, IsName a.1

/-- The pieces of an element around a text. -/
def pieces (t : Tag) (text : String) : List Piece :=
  .start t.name t.attrs t.void :: if t.void then [] else textPiece text ++ [.finish t.name]

/-- The inside of the start tag. -/
def inside (t : Tag) : List Char :=
  t.name.toList ++ (attrChars t.attrs ++ if t.void then ['/'] else [])

/-- What follows the start tag. -/
def afterStart (t : Tag) (text : String) : List Char :=
  if t.void then [] else (escape text).toList ++ '<' :: '/' :: (t.name.toList ++ ['>'])

/-- The markup of an element is its start tag and then its text and its end tag, if it has an
inside. -/
theorem toList_markup_withText {t : Tag} (h : t.name ≠ "") (text : String) :
    (t.withText text).markup.toList = '<' :: (t.inside ++ '>' :: t.afterStart text) := by
  have hfull : t.name.isEmpty = false := by
    rw [← Bool.not_eq_true, String.isEmpty_iff]
    exact h
  cases hvoid : t.void <;>
    simp [withText, markup, hfull, hvoid, inside, afterStart, toList_openTag]

/-- The markup of an element is read as the element. -/
theorem pieces?_markup_withText {t : Tag} (h : t.WellNamed) (text : String) :
    pieces? (t.withText text).markup.toList = some (t.pieces text) := by
  have hstart := pieces?_startTag "" h.nonempty h.name h.attrs t.void (t.afterStart text)
  rw [toList_markup_withText h.nonempty, inside]
  refine hstart.trans ?_
  rw [pieces, afterStart]
  cases t.void with
  | true => rfl
  | false =>
      have hend := pieces?_endTag text h.nonempty h.name []
      rw [List.cons_append] at hend
      rw [if_neg Bool.false_ne_true, if_neg Bool.false_ne_true, hend]
      rfl

/-! ## Brackets -/

/-- Whether a text has neither bracket. -/
def BracketFree (cs : List Char) : Prop := '<' ∉ cs ∧ '>' ∉ cs

theorem bracketFree_name {name : String} (h : IsName name) : BracketFree name.toList :=
  ⟨fun hc => (ne_of_isNameChar (h _ hc)).1 rfl, fun hc => (ne_of_isNameChar (h _ hc)).2.1 rfl⟩

theorem BracketFree.append {cs ds : List Char} (hc : BracketFree cs) (hd : BracketFree ds) :
    BracketFree (cs ++ ds) :=
  ⟨List.not_mem_append hc.1 hd.1, List.not_mem_append hc.2 hd.2⟩

/-- Escaped text has no brackets. -/
theorem bracketFree_escape (s : String) : BracketFree (escape s).toList :=
  ⟨not_mem_escape s (.inl rfl), not_mem_escape s (.inr (.inl rfl))⟩

theorem bracketFree_writeAttr {a : String × String} (h : IsName a.1) :
    BracketFree (writeAttr a).toList := by
  obtain ⟨name, value⟩ := a
  have hname := bracketFree_name h
  have hvalue := bracketFree_escape value
  rw [writeAttr]
  split
  · simpa [BracketFree] using hname
  · simpa [BracketFree] using ⟨⟨hname.1, hvalue.1⟩, hname.2, hvalue.2⟩

/-- So between the brackets of a start tag there are none. -/
theorem WellNamed.bracketFree_inside {t : Tag} (h : t.WellNamed) : BracketFree t.inside := by
  have hattrs : BracketFree (attrChars t.attrs) := by
    constructor <;>
    · rw [attrChars, List.mem_flatMap]
      rintro ⟨a, ha, hc⟩
      have hfree := bracketFree_writeAttr (h.attrs a ha)
      first | exact hfree.1 hc | exact hfree.2 hc
  refine (bracketFree_name h.name).append (hattrs.append ?_)
  cases t.void <;> exact ⟨by decide, by decide⟩

/-! ## Reading back -/

/-- Elements that are read as the same have the same name, attributes and text. -/
theorem pieces_inj {t t' : Tag} {text text' : String} (h : t.pieces text = t'.pieces text') :
    t.name = t'.name ∧ t.attrs = t'.attrs ∧ t.void = t'.void ∧ (t.void = false → text = text') := by
  simp only [pieces, List.cons.injEq, Piece.start.injEq] at h
  obtain ⟨⟨hname, hattrs, hvoid⟩, hrest⟩ := h
  refine ⟨hname, hattrs, hvoid, fun hfull => ?_⟩
  rw [← hvoid, hfull, if_neg Bool.false_ne_true, if_neg Bool.false_ne_true] at hrest
  exact textPiece_inj (List.append_inj_left' hrest rfl)

/-- The markup of an element around a text gives the element and the text back. -/
structure ReadsBack (t : Tag) (text : String) : Prop where
  /-- The markup is read as the start, the text and the end of the element, and nothing else. -/
  pieces : pieces? (t.withText text).markup.toList = some (t.pieces text)
  /-- All brackets are those of the tags. -/
  brackets : BracketFree t.inside ∧ BracketFree (escape text).toList ∧ BracketFree t.name.toList ∧
    (t.withText text).markup.toList = '<' :: (t.inside ++ '>' ::
      if t.void then [] else (escape text).toList ++ '<' :: '/' :: (t.name.toList ++ ['>']))
  /-- No other element around no other text has this markup. -/
  unique : ∀ (t' : Tag) (text' : String), t'.WellNamed →
    (t.withText text).markup = (t'.withText text').markup →
      t.name = t'.name ∧ t.attrs = t'.attrs ∧ t.void = t'.void ∧ (t.void = false → text = text')

/-- Every element with proper names is read back, whatever its values and its text are. -/
theorem readsBack_withText {t : Tag} (h : t.WellNamed) (text : String) : t.ReadsBack text := by
  constructor
  case pieces => exact pieces?_markup_withText h text
  case brackets =>
    exact ⟨h.bracketFree_inside, bracketFree_escape text, bracketFree_name h.name,
      toList_markup_withText h.nonempty text⟩
  case unique =>
    intro t' text' h' hmarkup
    have hpieces := pieces?_markup_withText h text
    rw [hmarkup, pieces?_markup_withText h' text', Option.some.injEq] at hpieces
    exact pieces_inj hpieces.symm

/-- Values with quotes, entities and end tags, and names written twice. -/
theorem readsBack_withText_hostile :
    let t : Tag :=
      { name := "a", attrs := [("href", "\"><b x='&lt;'>"), ("é", ""), ("href", "/>")] }
    t.WellNamed ∧ t.ReadsBack "</a>&amp;" := by
  intro t
  have h : t.WellNamed := ⟨by decide, by decide +kernel, by decide +kernel⟩
  exact ⟨h, readsBack_withText h "</a>&amp;"⟩

end Tag

end PageLoom
