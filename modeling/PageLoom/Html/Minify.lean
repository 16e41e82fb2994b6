import PageLoom.Html.Reader

/-!
# Smaller markup

Markup is made smaller without changing what it shows.  Comments go.  Runs of white
space in text become one space, except in preformatted text.  Inside an element that
is laid out, as opposed to one that is part of a text, white space at both ends of
its content goes too, and inside one that only holds such elements all white space
between elements goes.  Characters stand for themselves where nothing else could be
read.  Values of attributes are quoted only where they must be, with the quotes that
make them shorter, and attributes stand in the order of their names, those with quotes
first.
-/

namespace PageLoom.Html

/-! ## White space -/

/-- What happens to the white space inside an element. -/
structure Spacing where
  /-- Runs of white space become one space. -/
  collapse : Bool
  /-- Texts of nothing but white space go. -/
  dropBlank : Bool
  /-- White space at both ends goes. -/
  trim : Bool

namespace Spacing

/-- White space counts. -/
def preformatted : Spacing := ⟨false, false, false⟩

/-- Inside an element that is part of a text. -/
def inline : Spacing := ⟨true, false, false⟩

/-- Inside an element that holds text. -/
def content : Spacing := ⟨true, false, true⟩

/-- Inside an element that holds other elements. -/
def layout : Spacing := ⟨true, true, true⟩

/-- Elements that hold text. -/
def contentNames : List String :=
  ["address", "audio", "button", "canvas", "caption", "figcaption", "h1", "h2", "h3", "h4", "h5",
    "h6", "legend", "meter", "object", "option", "p", "summary", "video", "dd", "details", "dt",
    "iframe", "label", "li", "noscript", "output", "progress", "slot", "td", "template", "th",
    "title"]

/-- Elements that hold other elements. -/
def layoutNames : List String :=
  ["", "article", "aside", "blockquote", "body", "colgroup", "datalist", "dialog", "div", "dl",
    "fieldset", "figure", "footer", "form", "head", "header", "hgroup", "html", "main", "map",
    "menu", "nav", "ol", "optgroup", "picture", "section", "select", "svg", "table", "tbody",
    "tfoot", "thead", "tr", "ul"]

/-- Elements that keep their white space. -/
def preformattedNames : List String := ["pre", "code", "textarea", "script", "style"]

/-- What happens to the white space inside the element called `name`. -/
def of (name : String) : Spacing :=
  if name ∈ preformattedNames then preformatted
  else if name ∈ contentNames then content
  else if name ∈ layoutNames then layout
  else inline

end Spacing

/-- Runs of white space as one space.  `after` tells whether white space comes
before. -/
def collapseFrom (after : Bool) : List Char → List Char
  | [] => []
  | c :: cs =>
      if isSpace c then if after then collapseFrom true cs else ' ' :: collapseFrom true cs
      else c :: collapseFrom false cs

/-- A text with its runs of white space as one space. -/
def collapse (cs : List Char) : List Char := collapseFrom false cs

/-- A text without the white space at its end. -/
def trimRight (cs : List Char) : List Char := (cs.reverse.dropWhile isSpace).reverse

/-- A node whose inside is written already. -/
inductive Part
  | text (cs : List Char)
  | doctype (markup : String)
  | element (markup : String)

/-- The parts of an element with their white space reduced.  `first` tells whether no
text or element comes before. -/
def reduceFrom (s : Spacing) (first : Bool) : List Part → List Part
  | [] => []
  | .text cs :: rest =>
      let cs := if first && s.trim then cs.dropWhile isSpace else cs
      let cs := if s.dropBlank && cs.all isSpace then [] else if s.collapse then collapse cs else cs
      .text cs :: reduceFrom s false rest
  | .element markup :: rest => .element markup :: reduceFrom s false rest
  | .doctype markup :: rest => .doctype markup :: reduceFrom s first rest

/-- Parts, last first, without the white space at the end of the last one that is an
element or has text. -/
def trimLast : List Part → List Part
  | [] => []
  | .text [] :: rest => trimLast rest
  | .text cs :: rest => .text (trimRight cs) :: rest
  | .element markup :: rest => .element markup :: rest
  | .doctype markup :: rest => .doctype markup :: trimLast rest

/-- The parts of an element with their white space reduced. -/
def reduce (s : Spacing) (parts : List Part) : List Part :=
  let parts := reduceFrom s true parts
  if s.trim then (trimLast parts.reverse).reverse else parts

/-! ## Attributes -/

/-- Whether a value can stand without quotes. -/
def isBare (value : String) : Bool :=
  !value.isEmpty && value.toList.all fun c =>
    !isSpace c && !(c ∈ ['"', '\'', '\x60', '=', '<', '>'])

/-- A value between quotes of one kind. -/
def quoted (quote : Char) (reference : String) (value : List Char) : List Char :=
  quote :: encodeChar quote reference (encodeAmpersands true value) ++ [quote]

/-- An attribute as it is written. -/
def writeAttr (a : Attr) : String :=
  let value := a.2.toList
  if value.isEmpty then " " ++ a.1
  else if isBare a.2 then " " ++ a.1 ++ "=" ++ String.ofList (encodeAmpersands true value)
  else
    let double := quoted '"' "&#34;" value
    let single := quoted '\'' "&#39;" value
    " " ++ a.1 ++ "=" ++ String.ofList (if double.length ≤ single.length then double else single)

/-- The attributes that say what they say without a value. -/
def switches : List String :=
  ["allowfullscreen", "async", "autofocus", "autoplay", "checked", "controls", "default", "defer",
    "disabled", "formnovalidate", "hidden", "ismap", "itemscope", "loop", "multiple", "muted",
    "nomodule", "novalidate", "open", "playsinline", "readonly", "required", "reversed", "selected"]

/-- The value that an attribute needs: a list of names needs no white space around
them, and a switch needs no value. -/
def reduceValue (a : Attr) : Attr :=
  if a.1 = "class" then
    (a.1, String.ofList (trimRight ((collapse a.2.toList).dropWhile isSpace)))
  else if a.1 ∈ switches then (a.1, "")
  else a

/-- Whether an attribute says nothing. -/
def isIdle (a : Attr) : Bool := a.2.isEmpty && (a.1 == "class" || a.1 == "style")

/-- The attributes of an element as they are written. -/
def writeAttrs (attrs : List Attr) : String :=
  let attrs := (attrs.map reduceValue).filter (!isIdle ·)
  let attrs := attrs.mergeSort fun a b => a.1 ≤ b.1
  let quoted := attrs.filter fun a => !a.2.isEmpty && !isBare a.2
  let bare := attrs.filter fun a => a.2.isEmpty || isBare a.2
  String.join ((quoted ++ bare).map writeAttr)

/-! ## Trees -/

/-- A text as it is written inside the element called `name`. -/
def writeText (name : String) (cs : List Char) : List Char :=
  if name ∈ scriptNames then cs
  else if name ∈ rawNames then encodeAmpersands false cs
  else encodeChar '<' "&lt;" (encodeAmpersands false cs)

/-- The markup of a part inside the element called `name`. -/
def Part.markup (name : String) : Part → String
  | .text cs => String.ofList (writeText name cs)
  | .doctype markup => markup
  | .element markup => markup

/-- The inside of the element called `name` as it is written. -/
def writeParts (name : String) (s : Spacing) (parts : List Part) : String :=
  String.join ((reduce s parts).map (Part.markup name))

mutual
/-- A node with its inside written.  `inPre` tells whether it is in preformatted
text. -/
def Node.part (inPre : Bool) : Node → Part
  | .text cs => .text cs
  | .doctype cs => .doctype ("<!doctype " ++ String.ofList (cs.map Char.toLower) ++ ">")
  | .element name attrs children closed =>
      let inPre := inPre || name == "pre"
      let spacing := if inPre then .preformatted else Spacing.of name
      .element ("<" ++ name ++ writeAttrs attrs ++ ">" ++
        writeParts name spacing (Node.parts inPre children) ++
        (if closed then "</" ++ name ++ ">" else ""))

/-- Nodes with their insides written. -/
def Node.parts (inPre : Bool) : List Node → List Part
  | [] => []
  | n :: ns => n.part inPre :: Node.parts inPre ns
end

/-- Markup made smaller. -/
def minify (markup : String) : String :=
  writeParts "" .layout (Node.parts false (read markup.toList))

end PageLoom.Html
