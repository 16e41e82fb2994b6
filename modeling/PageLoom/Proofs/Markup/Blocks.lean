import PageLoom.Proofs.Markup.Preformatted
import PageLoom.Proofs.Markup.Reading

/-!
# Reading nested elements

The pieces of markup are put together to a tree: an element holds what stands between its start and
its end, and a line break with spaces after it is indentation and skipped (`parts?`).

A block is an element around a text, or around other blocks.  Its markup is a list of lines, and
each of them is a tag or an element around a text, indented by its depth (`Block.lines`).  Every
element around it indents all lines once more, since none of them opens preformatted text.  So the
lines of a rendered block are known (`Block.toList_markup`), and reading them one after the other
gives the block back (`Block.parts?_markup`).
-/

namespace PageLoom.Markup

/-! ## Trees -/

/-- A part of what is read: a text, or an element with what is inside. -/
inductive Part
  | text (s : String)
  | element (name : String) (attrs : Attrs) (void : Bool) (inside : List Part)

/-- An element that is being read, with what is inside so far. -/
structure Opened where
  name : String
  attrs : Attrs
  inside : List Part

/-- Add what is inside. -/
def Opened.add (o : Opened) (ps : List Part) : Opened := { o with inside := o.inside ++ ps }

/-- Whether a text is a line break with spaces after it. -/
def isIndentation (s : String) : Bool :=
  match s.toList with
  | [] => false
  | c :: cs => c == '\n' && cs.all (· == ' ')

/-- Read a piece inside of some elements, the innermost first. -/
def put : List Opened → Piece → Option (List Opened)
  | o :: os, .start name attrs void =>
      if void then some (o.add [.element name attrs true []] :: os)
      else some (⟨name, attrs, []⟩ :: o :: os)
  | o :: os, .text s => some (o.add [.text s] :: os)
  | o :: p :: os, .finish name =>
      if o.name = name then some (p.add [.element o.name o.attrs false o.inside] :: os) else none
  | _, _ => none

/-- Whether a piece is no indentation. -/
def isSolid : Piece → Bool
  | .text s => !isIndentation s
  | _ => true

/-- The parts of markup. -/
def parts? (markup : List Char) : Option (List Part) :=
  match (pieces? markup).bind fun ps => (ps.filter isSolid).foldlM put [⟨"", [], []⟩] with
  | some [o] => some o.inside
  | _ => none

/-! ## Blocks -/

/-- Whether a name can be told from what is around it, and opens no preformatted text. -/
structure IsBlockName (name : String) : Prop where
  nonempty : name ≠ ""
  isName : IsName name
  quiet : ¬ ['p', 'r', 'e'] <+: name.toList

/-- An element around a text, or around blocks. -/
inductive Block
  | cell (name text : String)
  | group (name : String) (inside : List Block)

/-- What stands on one line. -/
inductive Line
  | start (name : String)
  | cell (name text : String)
  | finish (name : String)

namespace Line

/-- The characters of a line. -/
def chars : Line → List Char
  | .start name => '<' :: (name.toList ++ ['>'])
  | .cell name text =>
      '<' :: (name.toList ++ '>' :: ((escape text).toList ++ '<' :: '/' :: (name.toList ++ ['>'])))
  | .finish name => '<' :: '/' :: (name.toList ++ ['>'])

/-- The pieces of a line. -/
def pieces : Line → List Piece
  | .start name => [.start name [] false]
  | .cell name text => .start name [] false :: textPiece text ++ [.finish name]
  | .finish name => [.finish name]

end Line

/-- The characters of a line so many levels deep. -/
def indented (l : Nat × Line) : List Char := List.replicate (2 * l.1) ' ' ++ l.2.chars

namespace Block

mutual
/-- A block as a fragment. -/
def fragment : Block → Fragment
  | .cell name text => (Tag.withText { name := name } text).fragment
  | .group name inside => nest name [] (fragments inside)

/-- Blocks as fragments. -/
def fragments : List Block → List Fragment
  | [] => []
  | b :: bs => b.fragment :: fragments bs
end

mutual
/-- A block as a part of markup. -/
def part : Block → Part
  | .cell name text => .element name [] false (if text.isEmpty then [] else [.text text])
  | .group name inside => .element name [] false (parts inside)

/-- Blocks as parts of markup. -/
def parts : List Block → List Part
  | [] => []
  | b :: bs => b.part :: parts bs
end

mutual
/-- The lines of a block, each with its depth. -/
def lines : Block → List (Nat × Line)
  | .cell name text => [(0, .cell name text)]
  | .group name inside =>
      (0, .start name) :: (allLines inside).map (fun l => (l.1 + 1, l.2)) ++ [(0, .finish name)]

/-- The lines of blocks. -/
def allLines : List Block → List (Nat × Line)
  | [] => []
  | b :: bs => b.lines ++ allLines bs
end

/-- Whether the texts of a block stay on their lines. -/
inductive IsReadable : Block → Prop
  | cell {name text : String} : IsBlockName name → '\n' ∉ text.toList → IsReadable (.cell name text)
  | group {name : String} {inside : List Block} : IsBlockName name →
      (∀ b ∈ inside, IsReadable b) → IsReadable (.group name inside)

theorem fragments_eq_map (bs : List Block) : fragments bs = bs.map fragment := by
  induction bs with
  | nil => rfl
  | cons b bs ih => rw [fragments, ih, List.map_cons]

theorem parts_eq_map (bs : List Block) : parts bs = bs.map part := by
  induction bs with
  | nil => rfl
  | cons b bs ih => rw [parts, ih, List.map_cons]

theorem allLines_eq_flatMap (bs : List Block) : allLines bs = bs.flatMap lines := by
  induction bs with
  | nil => rfl
  | cons b bs ih => rw [allLines, ih, List.flatMap_cons]

end Block

/-! ## Lines -/

namespace Line

/-- Whether what stands on a line stays there. -/
def IsReadable : Line → Prop
  | .start name => IsBlockName name
  | .cell name text => IsBlockName name ∧ '\n' ∉ text.toList
  | .finish name => IsBlockName name

end Line

namespace Block

theorem IsReadable.lines {b : Block} (h : b.IsReadable) : ∀ l ∈ b.lines, l.2.IsReadable := by
  induction h with
  | cell hname htext => simpa [Block.lines, Line.IsReadable] using ⟨hname, htext⟩
  | @group name inside hname _ ih =>
      intro l hl
      rw [Block.lines, allLines_eq_flatMap, List.cons_append, List.mem_cons, List.mem_append,
        List.mem_singleton, List.mem_map] at hl
      rcases hl with rfl | ⟨m, hm, rfl⟩ | rfl
      · exact hname
      · obtain ⟨b, hb, hmb⟩ := List.mem_flatMap.mp hm
        exact ih b hb m hmb
      · exact hname

/-! ## Building the tree -/

/-- The lines of a readable block close everything they open. -/
theorem foldlM_put_lines {b : Block} (h : b.IsReadable) (o : Opened) (os : List Opened) :
    (b.lines.flatMap fun l => l.2.pieces).foldlM put (o :: os) = some (o.add [b.part] :: os) := by
  induction h generalizing o os with
  | @cell name text _ _ =>
      rw [Block.lines, List.flatMap_singleton, Line.pieces, textPiece]
      split
      next hempty => simp [put, part, hempty, Opened.add]
      next hempty => simp [put, part, hempty, Opened.add]
  | @group name inside _ _ ih =>
      have hinside : ∀ (bs : List Block) (p : Opened), (∀ b ∈ bs, b ∈ inside) →
          (bs.flatMap fun b => b.lines.flatMap fun l => l.2.pieces).foldlM put (p :: o :: os) =
            some (p.add (bs.map part) :: o :: os) := by
        intro bs p hbs
        induction bs generalizing p with
        | nil => simp [Opened.add]
        | cons b bs ihbs =>
            obtain ⟨hb, hbs⟩ := List.forall_mem_cons.mp hbs
            rw [List.flatMap_cons, List.foldlM_append, ih b hb]
            simp only [Option.bind_eq_bind, Option.bind_some]
            rw [ihbs _ hbs]
            simp [Opened.add]
      have hlines : (Block.group name inside).lines.flatMap (fun l => l.2.pieces) =
          .start name [] false ::
            ((inside.flatMap fun b => b.lines.flatMap fun l => l.2.pieces) ++ [.finish name]) := by
        rw [Block.lines, allLines_eq_flatMap]
        simp [Line.pieces, List.flatMap_map, List.flatMap_assoc]
      rw [hlines, List.foldlM_cons]
      show List.foldlM put (⟨name, [], []⟩ :: o :: os) _ = _
      rw [List.foldlM_append, hinside inside _ fun b hb => hb]
      simp [put, part, parts_eq_map, Opened.add]

end Block

/-! ## Reading lines -/

/-- A line break and the spaces before a line so many levels deep. -/
def indentation (depth : Nat) : String := String.ofList ('\n' :: List.replicate (2 * depth) ' ')

theorem toList_escape_indentation (depth : Nat) :
    (escape (indentation depth)).toList = '\n' :: List.replicate (2 * depth) ' ' := by
  rw [escape, indentation, String.toList_ofList, String.toList_ofList, List.flatMap_cons,
    List.flatMap_replicate]
  simp [escapeChar]

theorem filter_indentation (depth : Nat) : (textPiece (indentation depth)).filter isSolid = [] := by
  have hindent : isIndentation (indentation depth) = true := by
    simp [isIndentation, indentation]
  rw [textPiece]
  split
  · rfl
  · simp [isSolid, hindent]

namespace Line

theorem IsReadable.filter_pieces {l : Line} (h : l.IsReadable) :
    l.pieces.filter isSolid = l.pieces := by
  cases l with
  | start name => rfl
  | finish name => rfl
  | cell name text =>
      have hsolid : isIndentation text = false := by
        rw [isIndentation]
        split
        next => rfl
        next c cs hcs =>
          have hc : c ≠ '\n' := by
            rintro rfl
            exact h.2 (by rw [hcs]; exact List.mem_cons_self)
          rw [beq_eq_false_iff_ne.mpr hc, Bool.false_and]
      rw [pieces, textPiece]
      split <;> simp [isSolid, hsolid]

/-- A line is read as its pieces. -/
theorem IsReadable.pieces?_chars {l : Line} (h : l.IsReadable) (s : String) (rest : List Char) :
    pieces? ((escape s).toList ++ (l.chars ++ rest)) =
      (pieces? rest).map (textPiece s ++ l.pieces ++ ·) := by
  have hstart : ∀ {name : String}, IsBlockName name → ∀ rest,
      pieces? ((escape s).toList ++ '<' :: (name.toList ++ '>' :: rest)) =
        (pieces? rest).map (textPiece s ++ .start name [] false :: ·) := by
    intro name hname rest
    have hattrs : ∀ a ∈ ([] : Attrs), IsName a.1 := by simp
    have hread := pieces?_startTag s hname.nonempty hname.isName hattrs false rest
    rw [attrChars_nil, List.nil_append, if_neg Bool.false_ne_true, List.append_nil] at hread
    exact hread
  cases l with
  | start name =>
      have hread := hstart h rest
      simpa [chars, pieces] using hread
  | finish name =>
      have hread := pieces?_endTag s h.nonempty h.isName rest
      simpa [chars, pieces] using hread
  | cell name text =>
      have hread := hstart h.1 ((escape text).toList ++ '<' :: ('/' :: name.toList ++ '>' :: rest))
      rw [pieces?_endTag text h.1.nonempty h.1.isName, Option.map_map] at hread
      simpa [chars, pieces, Function.comp_def] using hread

end Line

/-- Reading indented lines gives the pieces of the lines and blank text between them. -/
theorem exists_pieces?_lines {ls : List (Nat × Line)} (h : ∀ l ∈ ls, l.2.IsReadable) :
    ∃ ps, pieces? (ls.flatMap fun l => '\n' :: indented l) = some ps ∧
      ps.filter isSolid = ls.flatMap fun l => l.2.pieces := by
  induction ls with
  | nil => exact ⟨[], rfl, rfl⟩
  | cons l ls ih =>
      obtain ⟨hl, hls⟩ := List.forall_mem_cons.mp h
      obtain ⟨ps, hps, hsolid⟩ := ih hls
      refine ⟨textPiece (indentation l.1) ++ l.2.pieces ++ ps, ?_, ?_⟩
      · have hread := hl.pieces?_chars (indentation l.1) (ls.flatMap fun l => '\n' :: indented l)
        rw [toList_escape_indentation, hps, Option.map_some] at hread
        rw [List.flatMap_cons, indented, List.cons_append, List.append_assoc]
        exact hread
      · rw [List.filter_append, List.filter_append, filter_indentation, hl.filter_pieces, hsolid,
          List.nil_append, List.flatMap_cons]

/-! ## Rendering lines -/

/-- Text without `<` says nothing about preformatted blocks. -/
theorem lastPreMark?_append_of_not_mem {xs : List Char} (h : '<' ∉ xs) (rest : List Char) :
    lastPreMark? (xs ++ rest) = lastPreMark? rest := by
  induction xs with
  | nil => rfl
  | cons c xs ih =>
      rw [List.mem_cons, not_or] at h
      have hne : ('<' == c) = false := beq_eq_false_iff_ne.mpr h.1
      have hopen : ∀ cs, opensPre (c :: cs) = false := fun cs => by
        rw [opensPre, preOpen, List.isPrefixOf_cons_cons, hne, Bool.false_and, Bool.false_and]
      have hclose : ∀ cs, preClose.isPrefixOf (c :: cs) = false := fun cs => by
        rw [preClose, List.isPrefixOf_cons_cons, hne, Bool.false_and]
      rw [List.cons_append, lastPreMark?, hopen, hclose, ih h.2]
      cases lastPreMark? rest <;> rfl

/-- A word without a character ends before the character. -/
theorem prefix_of_prefix_append_cons {word xs rest : List Char} {c : Char} (hc : c ∉ word)
    (h : word <+: xs ++ c :: rest) : word <+: xs := by
  induction word generalizing xs with
  | nil => exact List.nil_prefix
  | cons d word ih =>
      rw [List.mem_cons, not_or] at hc
      cases xs with
      | nil => exact absurd (List.cons_prefix_cons.mp h).1.symm hc.1
      | cons x xs =>
          obtain ⟨hx, hpre⟩ := List.cons_prefix_cons.mp h
          exact List.cons_prefix_cons.mpr ⟨hx, ih hc.2 hpre⟩

/-- A tag is no mark unless its name starts like that of preformatted text. -/
theorem lastPreMark?_tag {name : String} (h : IsBlockName name) (slash : Bool) (rest : List Char) :
    lastPreMark? ('<' :: ((if slash then ['/'] else []) ++ (name.toList ++ '>' :: rest))) =
      lastPreMark? rest := by
  have hname : ¬ ['p', 'r', 'e'] <+: name.toList ++ '>' :: rest := fun hpre =>
    h.quiet (prefix_of_prefix_append_cons (by decide) hpre)
  have hfree : '<' ∉ (if slash then ['/'] else []) ++ (name.toList ++ ['>']) := by
    have hletters : '<' ∉ name.toList := fun hmem => (ne_of_isNameChar (h.isName _ hmem)).1 rfl
    cases slash <;> simp [hletters]
  have hinside := lastPreMark?_append_of_not_mem hfree rest
  rw [List.append_assoc, List.append_assoc, List.singleton_append] at hinside
  have hopen : opensPre ('<' :: ((if slash then ['/'] else []) ++ (name.toList ++ '>' :: rest))) =
      false := by
    rw [opensPre, Bool.and_eq_false_iff]
    refine .inl (Bool.eq_false_iff.mpr fun hpre => ?_)
    rw [List.isPrefixOf_iff_prefix, preOpen, List.cons_prefix_cons] at hpre
    cases slash
    · exact hname hpre.2
    · exact absurd (List.cons_prefix_cons.mp hpre.2).1 (by decide)
  have hclose : preClose.isPrefixOf ('<' :: ((if slash then ['/'] else []) ++
      (name.toList ++ '>' :: rest))) = false := by
    refine Bool.eq_false_iff.mpr fun hpre => ?_
    rw [List.isPrefixOf_iff_prefix, preClose, List.cons_prefix_cons] at hpre
    cases slash
    · obtain ⟨c, cs, hcs⟩ :=
        List.exists_cons_of_ne_nil fun hnil => h.nonempty (String.toList_eq_nil_iff.mp hnil)
      have hc := h.isName c (by rw [hcs]; exact List.mem_cons_self)
      rw [hcs] at hpre
      rw [← (List.cons_prefix_cons.mp hpre.2).1] at hc
      cases hc
    · refine hname (List.IsPrefix.trans ⟨['>'], rfl⟩ (List.cons_prefix_cons.mp hpre.2).2)
  rw [lastPreMark?, hinside, hopen, hclose]
  cases lastPreMark? rest <;> rfl

theorem newline_not_mem_escape {s : String} (h : '\n' ∉ s.toList) : '\n' ∉ (escape s).toList := by
  rw [escape, String.toList_ofList, List.mem_flatMap]
  rintro ⟨c, hc, hmem⟩
  unfold escapeChar at hmem
  split at hmem
  case h_6 => exact h (List.mem_singleton.mp hmem ▸ hc)
  all_goals exact absurd hmem (by decide)

/-- What indentation needs to know of a line. -/
structure IsQuietLine (l : List Char) : Prop where
  single : '\n' ∉ l
  nonempty : l ≠ []
  whole : '\r' ∉ l.getLast?
  quiet : lastPreMark? l = none

theorem Line.exists_chars (l : Line) : ∃ cs, l.chars = cs ++ ['>'] := by
  cases l with
  | start name => exact ⟨'<' :: name.toList, rfl⟩
  | cell name text =>
      exact ⟨'<' :: (name.toList ++ '>' :: ((escape text).toList ++ '<' :: '/' :: name.toList)),
        by simp [chars]⟩
  | finish name => exact ⟨'<' :: '/' :: name.toList, rfl⟩

theorem Line.IsReadable.isQuietLine {l : Line} (h : l.IsReadable) (depth : Nat) :
    IsQuietLine (indented (depth, l)) := by
  have hspaces : '<' ∉ List.replicate (2 * depth) ' ' := by simp
  have hletters : ∀ {name : String}, IsBlockName name → '\n' ∉ name.toList := fun hname hmem => by
    cases hname.isName _ hmem
  obtain ⟨cs, hcs⟩ := l.exists_chars
  have hend : indented (depth, l) = List.replicate (2 * depth) ' ' ++ cs ++ ['>'] := by
    rw [indented, hcs, List.append_assoc]
  constructor
  case nonempty => simp [hend]
  case whole =>
    rw [hend, List.getLast?_concat]
    simp
  case single =>
    cases l with
    | start name => simp [indented, chars, hletters h]
    | finish name => simp [indented, chars, hletters h]
    | cell name text => simp [indented, chars, hletters h.1, newline_not_mem_escape h.2]
  case quiet =>
    rw [indented, lastPreMark?_append_of_not_mem hspaces]
    cases l with
    | start name => exact lastPreMark?_tag h false []
    | finish name => exact lastPreMark?_tag h true []
    | cell name text =>
        have hstart := lastPreMark?_tag h.1 false
          ((escape text).toList ++ '<' :: '/' :: (name.toList ++ ['>']))
        rw [lastPreMark?_append_of_not_mem (not_mem_escape text (.inl rfl))] at hstart
        exact hstart.trans (lastPreMark?_tag h.1 true [])

/-- Lines that open no preformatted text are indented one by one. -/
theorem indentLines_of_quiet {ls : List (List Char)} (h : ∀ l ∈ ls, IsQuietLine l) :
    indentLines false ls = unlines (ls.map (' ' :: ' ' :: ·)) := by
  induction ls with
  | nil => rfl
  | cons l ls ih =>
      obtain ⟨hl, hls⟩ := List.forall_mem_cons.mp h
      have hfull : (false || l.isEmpty) = false := by
        rw [Bool.false_or]
        exact List.isEmpty_eq_false_iff.mpr hl.nonempty
      rw [indentLines, hl.quiet, Option.getD_none, ih hls, indentLine,
        if_neg (by rw [hfull]; decide),
        List.map_cons, unlines_cons]

namespace Block

/-- Indenting moves every line of readable markup one step further in. -/
theorem toList_indent {markup : String} {ls : List (Nat × Line)}
    (h : ∀ l ∈ ls, l.2.IsReadable) (hmarkup : markup.toList = joinLines (ls.map indented)) :
    (indent markup).toList = unlines (ls.map fun l => indented (l.1 + 1, l.2)) := by
  have hquiet : ∀ l ∈ ls.map indented, IsQuietLine l := by
    intro l hl
    obtain ⟨⟨depth, l⟩, hmem, rfl⟩ := List.mem_map.mp hl
    exact (h _ hmem).isQuietLine depth
  rw [indent, String.toList_ofList, hmarkup, linesOf_joinLines fun l hl =>
    ⟨(hquiet l hl).single, (hquiet l hl).nonempty, (hquiet l hl).whole⟩,
    indentLines_of_quiet hquiet, List.map_map]
  rfl

/-- A block is rendered line by line. -/
theorem toList_markup {b : Block} (h : b.IsReadable) :
    b.fragment.markup.toList = joinLines (b.lines.map indented) := by
  induction h with
  | @cell name text hname _ =>
      have hfull : name.isEmpty = false := by
        rw [← Bool.not_eq_true, String.isEmpty_iff]
        exact hname.nonempty
      simp [fragment, Tag.fragment, Tag.withText, Tag.markup, hfull, toList_openTag, Block.lines,
        joinLines, indented, Line.chars]
  | @group name inside hname hinside ih =>
      have hindent : ∀ b ∈ inside, (indent b.fragment.markup).toList =
          unlines (b.lines.map fun l => indented (l.1 + 1, l.2)) := fun b hb =>
        toList_indent (hinside b hb).lines (ih b hb)
      have hjoin : (String.join ((inside.map Block.fragment).map fun c => indent c.markup)).toList =
          unlines ((allLines inside).map fun l => indented (l.1 + 1, l.2)) := by
        rw [String.toList_join, List.map_map, List.flatMap_map, allLines_eq_flatMap]
        clear ih hinside
        induction inside with
        | nil => rfl
        | cons b bs ihbs =>
            obtain ⟨hb, hbs⟩ := List.forall_mem_cons.mp hindent
            rw [List.flatMap_cons, List.flatMap_cons, List.map_append, unlines_append, ← ihbs hbs,
              ← hb]
            rfl
      have hmarkup : (Block.group name inside).fragment.markup.toList =
          (Line.start name).chars ++ '\n' ::
            (unlines ((allLines inside).map fun l => indented (l.1 + 1, l.2)) ++
              (Line.finish name).chars) := by
        rw [← hjoin, fragment, fragments_eq_map]
        simp [nest, toList_openTag, Line.chars]
      rw [hmarkup, ← joinLines_around, Block.lines]
      simp [indented, Function.comp_def]

/-- A rendered block is read as the block. -/
theorem parts?_markup {b : Block} (h : b.IsReadable) :
    parts? b.fragment.markup.toList = some [b.part] := by
  have hstart : ∃ l ls, b.lines = (0, l) :: ls := by
    cases b with
    | cell name text => exact ⟨_, _, rfl⟩
    | group name inside => exact ⟨_, _, rfl⟩
  obtain ⟨l, ls, hlines⟩ := hstart
  obtain ⟨hl, hls⟩ := List.forall_mem_cons.mp (hlines ▸ h.lines)
  obtain ⟨ps, hps, hsolid⟩ := exists_pieces?_lines hls
  have hpieces : pieces? b.fragment.markup.toList = some (l.pieces ++ ps) := by
    have hfirst := hl.pieces?_chars "" (ls.flatMap fun l => '\n' :: indented l)
    rw [hps, Option.map_some] at hfirst
    rw [toList_markup h, hlines, List.map_cons, joinLines, List.flatMap_map]
    exact hfirst
  have htree : (l.pieces ++ ps).filter isSolid = b.lines.flatMap fun l => l.2.pieces := by
    rw [List.filter_append, hl.filter_pieces, hsolid, hlines, List.flatMap_cons]
  rw [parts?, hpieces, Option.bind_some, htree, foldlM_put_lines h]
  rfl

end Block

end PageLoom.Markup
