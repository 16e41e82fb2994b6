import PageLoom.Markdown.Block

/-!
# HTML of Markdown

Blocks start on lines of their own: a writer knows whether it stands at the start
of a line, and starts one where it does not.  The paragraphs of an item of a
tight list are written without an element.  Footnotes are numbered in the order
in which they are first referred to or defined.

Raw HTML is copied.  In text the characters `&`, `<` and `>` are escaped, in
attributes the quotes as well, and in addresses every character that an address
cannot hold is written as its bytes in base sixteen.
-/

namespace PageLoom.Markdown

/-! ## Escapes -/

/-- A character of a text. -/
def textChar (c : Char) : List Char :=
  match c with
  | '&' => "&amp;".toList
  | '<' => "&lt;".toList
  | '>' => "&gt;".toList
  | c => [c]

/-- A character of an attribute. -/
def attrChar (c : Char) : List Char :=
  match c with
  | '"' => "&quot;".toList
  | '\'' => "&#x27;".toList
  | c => textChar c

/-- Whether a character stands for itself in an address. -/
def isAddressChar (c : Char) : Bool :=
  c.isAlphanum || "!#$%()*+,-./:;=?@_~".toList.contains c

/-- A digit of base sixteen. -/
def hexDigit (n : Nat) : Char :=
  if n < 10 then Char.ofNat (48 + n) else Char.ofNat (55 + n)

/-- A byte as an address holds it. -/
def percentByte (b : UInt8) : List Char :=
  ['%', hexDigit (b.toNat / 16), hexDigit (b.toNat % 16)]

/-- A character of an address. -/
def addressChar (c : Char) : List Char :=
  if isAddressChar c then [c]
  else if c = '&' then "&amp;".toList
  else if c = '\'' then "&#x27;".toList
  else (String.ofList [c]).toUTF8.toList.flatMap percentByte

/-- A text with its characters escaped. -/
def escapeWith (f : Char → List Char) (cs : List Char) : String := String.ofList (cs.flatMap f)

/-! ## Writing -/

/-- A text that is being written. -/
structure Writer where
  /-- What is written. -/
  out : String := ""
  /-- Whether a line starts here. -/
  atStart : Bool := true
  /-- The footnotes, in the order of their numbers. -/
  notes : List (List Char) := []

namespace Writer

/-- Write a text. -/
def put (w : Writer) (s : String) : Writer :=
  if s.isEmpty then w else { w with out := w.out ++ s, atStart := s.endsWith "\n" }

/-- Start a line, unless one starts here. -/
def freshLine (w : Writer) : Writer := if w.atStart then w else w.put "\n"

/-- The number of a footnote. -/
def number (w : Writer) (label : List Char) : Writer × Nat :=
  match w.notes.findIdx? (· == label) with
  | some i => (w, i + 1)
  | none => ({ w with notes := w.notes ++ [label] }, w.notes.length + 1)

/-- An attribute, if it has a value. -/
def putTitle (w : Writer) (title : List Char) : Writer :=
  if title.isEmpty then w else w.put ("\" title=\"" ++ escapeWith attrChar title)

mutual
/-- Write an inline as plain text. -/
def plain (w : Writer) : Inline → Writer
  | .text cs => w.put (escapeWith attrChar cs)
  | .code cs => w.put (escapeWith attrChar cs)
  | .html cs => w.put (escapeWith attrChar cs)
  | .softBreak => w.put " "
  | .hardBreak => w.put " "
  | .emphasis is => w.plainAll is
  | .strong is => w.plainAll is
  | .strike is => w.plainAll is
  | .link _ is => w.plainAll is
  | .image _ is => w.plainAll is
  | .footnote label =>
      let (w, n) := w.number label
      w.put ("[" ++ toString n ++ "]")

/-- Write inlines as plain text. -/
def plainAll (w : Writer) : List Inline → Writer
  | [] => w
  | i :: is => (w.plain i).plainAll is
end

mutual
/-- Write an inline. -/
def inline (w : Writer) : Inline → Writer
  | .text cs => w.put (escapeWith textChar cs)
  | .code cs => ((w.put "<code>").put (escapeWith textChar cs)).put "</code>"
  | .html cs => w.put (String.ofList cs)
  | .softBreak => w.put "\n"
  | .hardBreak => w.put "<br />\n"
  | .emphasis is => ((w.put "<em>").inlines is).put "</em>"
  | .strong is => ((w.put "<strong>").inlines is).put "</strong>"
  | .strike is => ((w.put "<del>").inlines is).put "</del>"
  | .link target is =>
      let w := w.put ("<a href=\"" ++ escapeWith addressChar target.dest)
      (((w.putTitle target.title).put "\">").inlines is).put "</a>"
  | .image target is =>
      let w := w.put ("<img src=\"" ++ escapeWith addressChar target.dest ++ "\" alt=\"")
      ((w.plainAll is).putTitle target.title).put "\" />"
  | .footnote label =>
      let (w, n) := w.number label
      w.put ("<sup class=\"footnote-reference\"><a href=\"#" ++
        escapeWith attrChar label ++ "\">" ++
        toString n ++ "</a></sup>")

/-- Write inlines. -/
def inlines (w : Writer) : List Inline → Writer
  | [] => w
  | i :: is => (w.inline i).inlines is
end

/-- Write a text with its formatting. -/
def formatted (w : Writer) (labels : Labels) (cs : List Char) : Writer :=
  w.inlines (readInlines labels cs)

/-- The attributes of a heading. -/
def attrsText (a : HeadingAttrs) : String :=
  (match a.id with
    | some id => " id=\"" ++ escapeWith attrChar id ++ "\""
    | none => "") ++
  (if a.classes.isEmpty then ""
    else " class=\"" ++ " ".intercalate (a.classes.map (escapeWith attrChar)) ++ "\"") ++
  String.join (a.others.map fun (k, v) =>
    " " ++ escapeWith attrChar k ++ "=\"" ++ escapeWith attrChar v ++ "\"")

/-- The style of a cell. -/
def alignText : Align → String
  | .none => ""
  | .left => " style=\"text-align: left\""
  | .center => " style=\"text-align: center\""
  | .right => " style=\"text-align: right\""

/-- Write the cells of a row. -/
def cells (w : Writer) (labels : Labels) (name : String) :
    List Align → List (List Char) → Writer
  | a :: as, c :: cs =>
      let w := (w.put ("<" ++ name ++ alignText a ++ ">")).formatted labels c
      (w.put ("</" ++ name ++ ">")).cells labels name as cs
  | _, _ => w

/-- Write the rows of a table. -/
def rows (w : Writer) (labels : Labels) (columns : List Align) : List (List (List Char)) → Writer
  | [] => w
  | r :: rs => (((w.put "<tr>").cells labels "td" columns r).put "</tr>\n").rows labels columns rs

/-- The word of the fence that names a language. -/
def language (info : Option (List Char)) : List Char := (info.getD []).takeWhile (· != ' ')

mutual
/-- Write a block.  `tight` tells whether it stands in an item of a tight list. -/
def block (w : Writer) (labels : Labels) (tight : Bool) : Block → Writer
  | .paragraph text =>
      if tight then w.formatted labels text
      else ((w.freshLine.put "<p>").formatted labels text).put "</p>\n"
  | .heading level attrs text =>
      let name := "h" ++ toString level
      let w := w.freshLine.put ("<" ++ name ++ attrsText attrs ++ ">")
      (w.formatted labels text).put ("</" ++ name ++ ">\n")
  | .rule => w.freshLine.put "<hr />\n"
  | .code info text =>
      let start :=
        if (language info).isEmpty then "<pre><code>"
        else "<pre><code class=\"language-" ++ escapeWith attrChar (language info) ++ "\">"
      ((w.freshLine.put start).put (escapeWith textChar text)).put "</code></pre>\n"
  | .html text => w.put (String.ofList text)
  | .table columns head body =>
      let w := ((w.put "<table><thead><tr>").cells labels "th" columns head).put
        "</tr></thead><tbody>\n"
      (w.rows labels columns body).put "</tbody></table>\n"
  | .quote children =>
      ((w.freshLine.put "<blockquote>\n").blocks labels false children).put "</blockquote>\n"
  | .list none tight items => ((w.freshLine.put "<ul>\n").blocks labels tight items).put "</ul>\n"
  | .list (some start) tight items =>
      let name := if start = 1 then "<ol>\n" else "<ol start=\"" ++ toString start ++ "\">\n"
      ((w.freshLine.put name).blocks labels tight items).put "</ol>\n"
  | .item children => ((w.freshLine.put "<li>").blocks labels tight children).put "</li>\n"
  | .footnote label children =>
      let w := w.freshLine.put
        ("<div class=\"footnote-definition\" id=\"" ++ escapeWith attrChar label ++
          "\"><sup class=\"footnote-definition-label\">")
      let (w, n) := w.number label
      ((w.put (toString n ++ "</sup>")).blocks labels false children).put "</div>\n"

/-- Write blocks. -/
def blocks (w : Writer) (labels : Labels) (tight : Bool) : List Block → Writer
  | [] => w
  | b :: bs => (w.block labels tight b).blocks labels tight bs
end

end Writer

/-- The HTML of a document. -/
def toHtml (text : String) : String :=
  let (blocks, labels) := readBlocks text.toList
  (Writer.blocks {} labels false blocks).out

end PageLoom.Markdown
