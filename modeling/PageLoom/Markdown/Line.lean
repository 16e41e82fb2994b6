import PageLoom.Markdown.Scan

/-!
# Lines of Markdown

A `Cursor` is a place in a line.  Indentation is counted in columns, and a tab
reaches to the next multiple of four.  A part of a tab may have been used up, so
a cursor can stand inside one.

The rest of the module recognises what a line starts: headings, rules, fences,
list markers, tables and raw HTML.
-/

namespace PageLoom.Markdown

/-- A line, and whether a line end follows it. -/
structure Line where
  /-- The characters of the line. -/
  cs : List Char
  /-- Whether a line end follows. -/
  ended : Bool

/-- The lines of a text.  A line ends with a line feed, a carriage return, or
both. -/
def splitLinesFrom (line : List Char) : List Char → List Line
  | [] => if line.isEmpty then [] else [⟨line.reverse, false⟩]
  | '\r' :: '\n' :: cs => ⟨line.reverse, true⟩ :: splitLinesFrom [] cs
  | c :: cs =>
      if c = '\n' ∨ c = '\r' then ⟨line.reverse, true⟩ :: splitLinesFrom [] cs
      else splitLinesFrom (c :: line) cs

/-- The lines of a text. -/
def splitLines (cs : List Char) : List Line := splitLinesFrom [] cs

/-! ## Cursors -/

/-- A place in a line. -/
structure Cursor where
  /-- The characters after it. -/
  rest : List Char
  /-- The column. -/
  column : Nat := 0
  /-- The columns that are left of a tab. -/
  pending : Nat := 0

namespace Cursor

/-- Skip at most `n` columns of indentation: how many were left to skip, and the
place after. -/
def skip : Nat → Cursor → Nat × Cursor
  | 0, c => (0, c)
  | n + 1, c =>
      if 0 < c.pending then skip n { c with column := c.column + 1, pending := c.pending - 1 }
      else
        match c.rest with
        | ' ' :: rest => skip n ⟨rest, c.column + 1, 0⟩
        | '\t' :: rest => skip n ⟨rest, c.column + 1, 3 - c.column % 4⟩
        | _ => (n + 1, c)

/-- Skip exactly `n` columns of indentation. -/
def skip? (n : Nat) (c : Cursor) : Option Cursor :=
  match c.skip n with
  | (0, c) => some c
  | _ => none

/-- Skip at most `n` columns: how many were skipped, and the place after. -/
def skipUpTo (n : Nat) (c : Cursor) : Nat × Cursor :=
  let (left, c) := c.skip n
  (n - left, c)

/-- Skip a character. -/
def next (c : Cursor) : Cursor := ⟨c.rest.drop 1, c.column + 1, 0⟩

/-- Whether only gaps are left. -/
def isBlank (c : Cursor) : Bool := c.rest.all isGapInLine

/-- What is left, with spaces in place of a tab that is used up in part. -/
def remainder (c : Cursor) : List Char := List.replicate c.pending ' ' ++ c.rest

end Cursor

/-! ## Rules, headings and fences -/

/-- Whether a line is a rule: at least three of one mark, and gaps. -/
def isRule (cs : List Char) : Bool :=
  match cs with
  | c :: _ =>
      (c == '*' || c == '-' || c == '_') && cs.all (fun d => d == c || isGapInLine d) &&
        3 ≤ cs.count c
  | [] => false

/-- The level of a heading that starts with marks, and its text. -/
def scanHeading? (cs : List Char) : Option (Nat × List Char) :=
  let level := (cs.takeWhile (· == '#')).length
  let rest := cs.drop level
  if 1 ≤ level ∧ level ≤ 6 ∧ (rest.isEmpty ∨ isGapInLine (rest.headD 'x')) then some (level, rest)
  else none

/-- The level of a heading that is underlined. -/
def scanUnderline? (cs : List Char) : Option Nat :=
  match cs with
  | c :: _ =>
      if (c == '=' || c == '-') && (cs.dropWhile (· == c)).all isGapInLine then
        some (if c == '=' then 1 else 2)
      else none
  | [] => none

/-- The mark and length of a fence, and the text after it. -/
def scanFence? (cs : List Char) : Option (Char × Nat × List Char) :=
  match cs with
  | c :: _ =>
      let length := (cs.takeWhile (· == c)).length
      let info := cs.drop length
      if (c == '`' || c == '~') && 3 ≤ length && !(c == '`' && info.contains '`') then
        some (c, length, info)
      else none
  | [] => none

/-- Whether a line closes a fence. -/
def closesFence (mark : Char) (length : Nat) (cs : List Char) : Bool :=
  length ≤ (cs.takeWhile (· == mark)).length && (cs.dropWhile (· == mark)).all (· == ' ')

/-! ## Attributes of headings -/

/-- The attributes that a heading is given. -/
structure HeadingAttrs where
  /-- The identifier. -/
  id : Option (List Char) := none
  /-- The classes. -/
  classes : List (List Char) := []
  /-- The other attributes. -/
  others : List (List Char × List Char) := []

/-- The words of a text. -/
def words (cs : List Char) : List (List Char) :=
  (cs.splitOnP isGap).filter fun w => !w.isEmpty

/-- Add the attribute that a word gives. -/
def HeadingAttrs.addWord (a : HeadingAttrs) (word : List Char) : HeadingAttrs :=
  match word with
  | [] => a
  | [c] => if c.utf8Size = 1 then a else { a with others := a.others ++ [([c], [])] }
  | '#' :: id => { a with id := some id }
  | '.' :: name => { a with classes := a.classes ++ [name] }
  | word =>
      let key := word.takeWhile (· != '=')
      { a with others := a.others ++ [(key, (word.drop key.length).drop 1)] }

/-- Split the attributes in braces off the end of a heading. -/
def splitAttrs (cs : List Char) : List Char × HeadingAttrs :=
  match cs.reverse.dropWhile isGap with
  | '\x7d' :: rev =>
      let isPart (c : Char) : Bool := !"\x7b\x7d<>\\\n\r".toList.contains c
      match rev.dropWhile isPart with
      | '\x7b' :: before =>
          (before.reverse, (words (rev.takeWhile isPart).reverse).foldl HeadingAttrs.addWord {})
      | _ => (cs, {})
  | _ => (cs, {})

/-- A heading without the marks that close it. -/
def dropClosingMarks (cs : List Char) : List Char :=
  let trimmed := cs.reverse.dropWhile fun c => c == ' ' || c == '\n' || c == '\r'
  match trimmed.dropWhile (· == '#') with
  | [] => []
  | c :: rest =>
      if c == ' ' then ((c :: rest).dropWhile (· == ' ')).reverse else trimmed.reverse

/-! ## List markers -/

/-- A list marker: the character that tells its list, its number if it has one,
the width of an item's indentation, and the place after it. -/
structure Marker where
  /-- The character that tells the list. -/
  mark : Char
  /-- The number of an ordered item. -/
  number : Option Nat
  /-- The indentation of what belongs to the item. -/
  indent : Nat
  /-- The place after the marker. -/
  after : Cursor

/-- Finish a marker of the given width that ends at `c`. -/
def finishMarker? (mark : Char) (number : Option Nat) (width : Nat) (c : Cursor) : Option Marker :=
  match c.skip? 1 with
  | none => if c.rest.isEmpty then some ⟨mark, number, width + 1, c⟩ else none
  | some c =>
      if c.isBlank then some ⟨mark, number, width + 1, c⟩
      else
        match c.skipUpTo 4 with
        | (4, _) => some ⟨mark, number, width + 1, c⟩
        | (n, after) => some ⟨mark, number, width + 1 + n, after⟩

/-- The list marker at a place that lies `indent` columns into its container. -/
def scanMarker? (indent : Nat) (c : Cursor) : Option Marker :=
  match c.rest with
  | [] => none
  | ch :: _ =>
      if ch == '-' || ch == '+' || ch == '*' then
        if isRule c.rest then none else finishMarker? ch none (indent + 1) c.next
      else
        let ds := c.rest.takeWhile Char.isDigit
        if ds.isEmpty || 9 < ds.length then none
        else
          match c.rest.drop ds.length with
          | d :: rest =>
              if d == '.' || d == ')' then
                finishMarker? d (some (ds.foldl (fun n c => 10 * n + (c.toNat - 48)) 0))
                  (indent + ds.length + 1) ⟨rest, c.column + ds.length + 1, 0⟩
              else none
          | [] => none

/-! ## Tables -/

/-- The alignment of a column. -/
inductive Align
  | none | left | center | right
deriving DecidableEq, Repr

/-- What has been read of the line under the head of a table. -/
structure Delimiter where
  /-- The finished columns. -/
  columns : List Align := []
  /-- The alignment of the open column. -/
  align : Align := .none
  /-- Whether nothing has been read of the open column. -/
  fresh : Bool := true
  /-- Whether the open column has a hyphen. -/
  hyphen : Bool := false
  /-- Whether a bar has been read. -/
  bar : Bool := false

/-- The columns of the line under the head of a table.  The line has a bar, and a
hyphen in every column that a bar ends. -/
def scanDelimiter? (d : Delimiter) : List Char → Option (List Align)
  | [] =>
      if !d.bar || (d.columns.isEmpty && !d.hyphen) then none
      else if d.fresh then some d.columns
      else some (d.columns ++ [d.align])
  | c :: cs =>
      if c == ' ' then scanDelimiter? d cs
      else if c == ':' then
        let align : Align :=
          match d.fresh, d.align with
          | true, .none => .left
          | false, .left => .center
          | false, .none => .right
          | _, a => a
        scanDelimiter? { d with align := align, fresh := false } cs
      else if c == '-' then scanDelimiter? { d with fresh := false, hyphen := true } cs
      else if c == '|' then
        if d.hyphen then scanDelimiter? { columns := d.columns ++ [d.align], bar := true } cs
        else none
      else none

/-- The columns of a table, read off the line under its head. -/
def scanColumns? (cs : List Char) : Option (List Align) :=
  match cs with
  | '|' :: rest => scanDelimiter? { bar := true } rest
  | cs => scanDelimiter? {} cs

/-- A text up to the first bar that is not escaped, and the text from there.  One
backslash before a bar escapes it, and so do two. -/
def cutCell : List Char → List Char × List Char
  | [] => ([], [])
  | '\\' :: '\\' :: '|' :: cs => let (cell, rest) := cutCell cs; ('|' :: cell, rest)
  | '\\' :: '|' :: cs => let (cell, rest) := cutCell cs; ('|' :: cell, rest)
  | '\\' :: c :: cs => let (cell, rest) := cutCell cs; ('\\' :: c :: cell, rest)
  | '|' :: cs => ([], '|' :: cs)
  | c :: cs => let (cell, rest) := cutCell cs; (c :: cell, rest)

/-- The cells of a row.  Every cell but the last is followed by a bar. -/
def cellsFrom : Nat → List Char → List (List Char)
  | 0, _ => []
  | fuel + 1, cs =>
      let cs := match cs with | '|' :: rest => rest | cs => cs
      let cs := cs.dropWhile isGapInLine
      if cs.isEmpty then []
      else
        let (cell, rest) := cutCell cs
        ((cell.reverse.dropWhile isGapInLine).reverse) :: cellsFrom fuel rest

/-- The cells that a row is written with. -/
def writtenCells (cs : List Char) : List (List Char) := cellsFrom (cs.length + 1) cs

/-- The cells of a row of a table with a number of columns. -/
def cells (columns : Nat) (cs : List Char) : List (List Char) :=
  let found := writtenCells cs
  (found ++ List.replicate (columns - found.length) []).take columns

/-- The bars of a line that are not escaped. -/
def countBars : List Char → Nat
  | [] => 0
  | '\\' :: _ :: cs => countBars cs
  | c :: cs => (if c == '|' then 1 else 0) + countBars cs

/-- The number of columns that the head of a table has. -/
def headColumns (cs : List Char) : Nat :=
  let bars := countBars cs
  let bars := if (cs.dropWhile isGapInLine).head? = some '|' then bars - 1 else bars
  if (cs.reverse.dropWhile isGapInLine).head? = some '|' then bars else bars + 1

/-- The columns of the table with the given head, if the next line lies under
one. -/
def tableColumns? (head line : List Char) : Option (List Align) :=
  if countBars head = 0 then none
  else
    match scanColumns? line with
    | some columns =>
        if columns.length = headColumns head ∧ columns.length ≠ 0 then some columns else none
    | none => none

/-! ## Raw HTML -/

/-- How a block of raw HTML ends: with a line that has a word, or before a blank
line. -/
inductive HtmlEnd
  | word (w : List Char)
  | blank

/-- The elements that start a block of raw HTML. -/
def blockElements : List String :=
  ["address", "article", "aside", "base", "basefont", "blockquote", "body", "caption", "center",
    "col", "colgroup", "dd", "details", "dialog", "dir", "div", "dl", "dt", "fieldset",
    "figcaption", "figure", "footer", "form", "frame", "frameset", "h1", "h2", "h3", "h4", "h5",
    "h6", "head", "header", "hr", "html", "iframe", "legend", "li", "link", "main", "menu",
    "menuitem", "nav", "noframes", "ol", "optgroup", "option", "p", "param", "search", "section",
    "summary", "table", "tbody", "td", "tfoot", "th", "thead", "title", "tr", "track", "ul"]

/-- The word that ends a block that has to be closed, given what follows `<`. -/
def htmlWord? (cs : List Char) : Option (List Char) :=
  let low := cs.map Char.toLower
  let raw := ["pre", "style", "script", "textarea"].find? fun name =>
    name.toList.isPrefixOf low &&
      match cs.drop name.length with
      | [] => true
      | c :: _ => isGap c || c == '>'
  match raw with
  | some name => some ("</" ++ name ++ ">").toList
  | none =>
      if "!--".toList.isPrefixOf cs then some "-->".toList
      else if "?".toList.isPrefixOf cs then some "?>".toList
      else if "![CDATA[".toList.isPrefixOf cs then some "]]>".toList
      else
        match cs with
        | '!' :: c :: _ => if c.isAlpha then some ">".toList else none
        | _ => none

/-- Whether an element that starts a block follows `<`. -/
def startsBlockElement (cs : List Char) : Bool :=
  let cs := match cs with | '/' :: rest => rest | cs => cs
  let name := String.ofList ((cs.takeWhile Char.isAlphanum).map Char.toLower)
  blockElements.contains name &&
    match cs.dropWhile Char.isAlphanum with
    | [] => true
    | '/' :: '>' :: _ => true
    | c :: _ => c == ' ' || c == '\t' || c == '>'

/-- Whether a whole tag stands alone on a line, after its `<`. -/
def isLoneTag (cs : List Char) : Bool :=
  match afterTag? false cs with
  | some rest => rest.all isGapInLine
  | none => false

/-- How the block of raw HTML ends that starts with a line. -/
def htmlStart? (cs : List Char) : Option HtmlEnd :=
  match cs with
  | '<' :: rest =>
      match htmlWord? rest with
      | some w => some (.word w)
      | none => if startsBlockElement rest || isLoneTag rest then some .blank else none
  | _ => none

/-! ## Footnotes and interruptions -/

/-- The label of the footnote that a line starts, and the text after it. -/
def scanFootnote? (cs : List Char) : Option (List Char × List Char) :=
  match cs with
  | '[' :: '^' :: rest =>
      match scanLabel? rest with
      | some (label, ':' :: rest) => some (label, rest)
      | _ => none
  | _ => none

/-- Whether a line ends the paragraph or table before it.  `inside` tells whether
the line belongs to the same containers. -/
def interrupts (inside inTable : Bool) (cs : List Char) : Bool :=
  let listItem : Bool :=
    match scanMarker? 0 ⟨cs, 0, 0⟩ with
    | none => false
    | some m => !inside || inTable || ((m.number.getD 1) == 1 && !m.after.isBlank)
  let html : Bool :=
    match cs with
    | '<' :: rest => (htmlWord? rest).isSome || startsBlockElement rest
    | _ => false
  cs.isEmpty || isRule cs || (scanHeading? cs).isSome || (scanFence? cs).isSome ||
    cs.head? == some '>' || listItem || html || (scanFootnote? cs).isSome

end PageLoom.Markdown
