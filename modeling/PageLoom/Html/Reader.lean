import PageLoom.Html.CharRef

/-!
# Reading markup

Markup is read into pieces (texts, tags, comments and declarations), and the pieces
into a tree of elements.

The inside of scripts, styles, titles and text areas is text up to their closing
tag.  References to characters are replaced by these, except in scripts and styles.
Comments and declarations other than the document type leave nothing behind.

A closing tag closes the nearest open element of its name together with all that is
open inside; without such an element it means nothing.  Some elements, such as
paragraphs and items, also end where an element starts that they cannot hold.
-/

namespace PageLoom.Html

/-- The white space of markup. -/
def isSpace (c : Char) : Bool := c ∈ [' ', '\t', '\n', '\r', Char.ofNat 12]

/-! ## Pieces -/

/-- A piece of markup. -/
inductive Piece
  | text (cs : List Char)
  /-- A tag, without its angle brackets. -/
  | tag (cs : List Char)
  /-- A declaration, without its angle brackets. -/
  | declaration (cs : List Char)
deriving Repr

/-- What is being read.  Characters read so far are in reverse. -/
inductive Mode
  | text (cs : List Char)
  | tag (cs : List Char) (quote : Option Char)
  | declaration (cs : List Char)
  | comment (cs : List Char)
  /-- The inside of an element that holds text only. -/
  | raw (name cs : List Char)

/-- The elements that hold text only. -/
def rawNames : List String := ["script", "style", "title", "textarea"]

/-- The name at the start of a tag, in lower case. -/
def tagName (cs : List Char) : List Char :=
  (cs.takeWhile fun c => !isSpace c && c != '/').map Char.toLower

/-- What is read after a tag. -/
def modeAfter (tag : List Char) : Mode :=
  if String.ofList (tagName tag) ∈ rawNames then .raw (tagName tag) [] else .text []

/-- Whether a tag starts with `cs`, which follows a `<`. -/
def startsTag : List Char → Bool
  | '/' :: c :: _ => c.isAlpha
  | c :: _ => c.isAlpha
  | [] => false

/-- The piece of a text, unless it is empty. -/
def textPiece (cs : List Char) : List Piece := if cs.isEmpty then [] else [.text cs.reverse]

/-- The pieces of markup. -/
def pieces : Mode → List Char → List Piece
  | .text cs, [] => textPiece cs
  | .tag _ _, [] => []
  | .declaration _, [] => []
  | .comment _, [] => []
  | .raw _ cs, [] => textPiece cs
  | .text cs, c :: rest =>
      if c != '<' then pieces (.text (c :: cs)) rest
      else if startsTag rest then textPiece cs ++ pieces (.tag [] none) rest
      else if ['!', '-', '-'].isPrefixOf rest then textPiece cs ++ pieces (.comment []) rest
      else if rest.head? == some '!' || rest.head? == some '?' then
        textPiece cs ++ pieces (.declaration []) rest
      else pieces (.text (c :: cs)) rest
  | .tag cs none, c :: rest =>
      if c == '>' then .tag cs.reverse :: pieces (modeAfter cs.reverse) rest
      else pieces (.tag (c :: cs) (if c == '"' || c == '\'' then some c else none)) rest
  | .tag cs (some quote), c :: rest =>
      pieces (.tag (c :: cs) (if c == quote then none else some quote)) rest
  | .declaration cs, c :: rest =>
      if c == '>' then .declaration cs.reverse :: pieces (.text []) rest
      else pieces (.declaration (c :: cs)) rest
  | .comment cs, c :: rest =>
      if c == '>' && ['-', '-'].isPrefixOf cs then pieces (.text []) rest
      else pieces (.comment (c :: cs)) rest
  | .raw name cs, c :: rest =>
      if c == '<' && ('/' :: name).isPrefixOf (rest.map Char.toLower) then
        textPiece cs ++ pieces (.tag [] none) rest
      else pieces (.raw name (c :: cs)) rest

/-! ## Attributes -/

/-- An attribute: its name in lower case, and its value. -/
abbrev Attr := String × String

/-- What is being read in a tag. -/
inductive AttrMode
  | between
  | name (cs : List Char)
  | afterName (cs : List Char)
  | beforeValue (name : List Char)
  | quoted (name : List Char) (quote : Char) (cs : List Char)
  | bare (name cs : List Char)

/-- An attribute from characters in reverse. -/
def attrOf (name value : List Char) : Attr :=
  (String.ofList (name.reverse.map Char.toLower), String.ofList (decode true value.reverse))

/-- The attributes of a tag, after its name. -/
def attrsFrom : AttrMode → List Char → List Attr
  | .between, [] => []
  | .name cs, [] => [attrOf cs []]
  | .afterName cs, [] => [attrOf cs []]
  | .beforeValue name, [] => [attrOf name []]
  | .quoted name _ cs, [] => [attrOf name cs]
  | .bare name cs, [] => [attrOf name cs]
  | .between, c :: rest =>
      attrsFrom (if isSpace c || c == '/' then .between else .name [c]) rest
  | .name cs, c :: rest =>
      if isSpace c then attrsFrom (.afterName cs) rest
      else if c == '=' then attrsFrom (.beforeValue cs) rest
      else if c == '/' then attrOf cs [] :: attrsFrom .between rest
      else attrsFrom (.name (c :: cs)) rest
  | .afterName cs, c :: rest =>
      if isSpace c then attrsFrom (.afterName cs) rest
      else if c == '=' then attrsFrom (.beforeValue cs) rest
      else attrOf cs [] :: attrsFrom (if c == '/' then .between else .name [c]) rest
  | .beforeValue name, c :: rest =>
      if isSpace c then attrsFrom (.beforeValue name) rest
      else attrsFrom (if c == '"' || c == '\'' then .quoted name c [] else .bare name [c]) rest
  | .quoted name quote cs, c :: rest =>
      if c == quote then attrOf name cs :: attrsFrom .between rest
      else attrsFrom (.quoted name quote (c :: cs)) rest
  | .bare name cs, c :: rest =>
      if isSpace c then attrOf name cs :: attrsFrom .between rest
      else attrsFrom (.bare name (c :: cs)) rest

/-! ## Trees -/

/-- A node of markup. -/
inductive Node
  | text (cs : List Char)
  /-- The document type, after the name of the declaration. -/
  | doctype (cs : List Char)
  /-- An element.  One that has no inside, or was never closed, has no closing tag. -/
  | element (name : String) (attrs : List Attr) (children : List Node) (closed : Bool)
deriving Inhabited

/-- The elements in which references to characters mean nothing. -/
def scriptNames : List String := ["script", "style"]

/-- The elements that have no inside. -/
def voidNames : List String :=
  ["area", "base", "br", "col", "embed", "hr", "img", "input", "link", "meta", "param", "source",
    "track", "wbr"]

/-- An open element, with its children so far in reverse. -/
structure OpenElement where
  name : String
  attrs : List Attr := []
  children : List Node := []

namespace OpenElement

/-- Add a child. -/
def add (o : OpenElement) (n : Node) : OpenElement := { o with children := n :: o.children }

/-- An element that is open no more. -/
def close (o : OpenElement) (closed : Bool) : Node :=
  .element o.name o.attrs o.children.reverse closed

end OpenElement

/-- Markup being read: the innermost open element, and those around it.  The outermost
one stands for the markup as a whole, and its name is empty. -/
abbrev Open := OpenElement × List OpenElement

/-- Close elements up to the nearest one that is called `name`. -/
def closeUpTo (name : String) (o : OpenElement) : List OpenElement → Open
  | [] => (o, [])
  | p :: around =>
      if o.name = name then (p.add (o.close true), around)
      else closeUpTo name (p.add (o.close false)) around

/-- Close all elements. -/
def closeAll (o : OpenElement) : List OpenElement → List Node
  | [] => o.children.reverse
  | p :: around => closeAll (p.add (o.close false)) around

/-- The document type that a declaration gives. -/
def doctype? (cs : List Char) : Option (List Char) :=
  if (cs.take 8).map Char.toLower = "!doctype".toList then some ((cs.drop 8).dropWhile isSpace)
  else none

/-- The elements that end a paragraph by starting. -/
def paragraphEnders : List String :=
  ["address", "article", "aside", "blockquote", "details", "div", "dl", "fieldset", "figcaption",
    "figure", "footer", "form", "h1", "h2", "h3", "h4", "h5", "h6", "header", "hgroup", "hr",
    "main", "menu", "nav", "ol", "p", "pre", "section", "table", "ul"]

/-- Whether the open element called `name` ends where one called `next` starts. -/
def endsBefore (name next : String) : Bool :=
  match name with
  | "p" => next ∈ paragraphEnders
  | "li" => next == "li"
  | "dt" => next == "dt" || next == "dd"
  | "dd" => next == "dt" || next == "dd"
  | "option" => next == "option" || next == "optgroup"
  | "optgroup" => next == "optgroup"
  | "thead" => next == "tbody" || next == "tfoot"
  | "tbody" => next == "tbody" || next == "tfoot"
  | "tr" => next == "tr"
  | "td" => next == "td" || next == "th"
  | "th" => next == "td" || next == "th"
  | _ => false

/-- End the innermost open element if one called `next` cannot stand in it. -/
def endFor (next : String) : Open → Open
  | (o, p :: around) => if endsBefore o.name next then (p.add (o.close false), around)
      else (o, p :: around)
  | (o, []) => (o, [])

/-- Read a piece. -/
def readPiece : Open → Piece → Open
  | (o, around), .text cs =>
      (o.add (.text (if o.name ∈ scriptNames then cs else decode false cs)), around)
  | (o, around), .declaration cs =>
      match doctype? cs with
      | some name => (o.add (.doctype name), around)
      | none => (o, around)
  | (o, around), .tag ('/' :: cs) =>
      let name := String.ofList (tagName cs)
      if (o :: around).any (·.name == name) then closeUpTo name o around else (o, around)
  | open_, .tag cs =>
      let name := tagName cs
      let attrs := attrsFrom .between (cs.drop name.length)
      let name := String.ofList name
      let (o, around) := endFor name open_
      if name ∈ voidNames then (o.add (.element name attrs [] false), around)
      else ({ name, attrs }, o :: around)

/-- The nodes of markup. -/
def read (markup : List Char) : List Node :=
  let (o, around) := (pieces (.text []) markup).foldl readPiece ({ name := "" }, [])
  closeAll o around

end PageLoom.Html
