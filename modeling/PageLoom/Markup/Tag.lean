import PageLoom.Markup.Escape
import PageLoom.Markup.Fragment
import PageLoom.Text.Blank
import PageLoom.Text.Lines

/-!
# Elements

A `Tag` is one element around markup that is there already.  `nest` puts an
element around rendered children, each on lines of its own, indented by two
spaces, and lists their resources before its own.

Preformatted text is not indented.  A line opens it if it has `<pre` followed by
`>` or a blank on that line, and closes it if it has `</pre>`; of several such
marks on one line the last one counts.
-/

namespace PageLoom

/-- The attributes of an element, in order. -/
abbrev Attrs := List (String × String)

/-- An attribute.  An empty value is written as a bare name. -/
def writeAttr : String × String → String
  | (name, value) =>
      if value.isEmpty then " " ++ name else " " ++ name ++ "=\"" ++ escape value ++ "\""

/-- The start of an element without its closing bracket. -/
def openTag (name : String) (attrs : Attrs) : String :=
  "<" ++ name ++ String.join (attrs.map writeAttr)

/-! ## One element -/

/-- One element around markup. -/
structure Tag where
  /-- The name; markup without an element has an empty one. -/
  name : String := ""
  /-- The attributes. -/
  attrs : Attrs := []
  /-- The markup inside. -/
  content : String := ""
  /-- Whether the element has no inside. -/
  void : Bool := false
  /-- The resources it needs. -/
  resources : List String := []
deriving DecidableEq, Repr, Inhabited

namespace Tag

/-- An element around a text. -/
def withText (t : Tag) (text : String) : Tag := { t with content := escape text }

/-- The start tag alone. -/
def start (t : Tag) : String := openTag t.name t.attrs ++ ">"

/-- The markup of an element. -/
def markup (t : Tag) : String :=
  if t.name.isEmpty then t.content
  else if t.void then openTag t.name t.attrs ++ "/>"
  else openTag t.name t.attrs ++ ">" ++ t.content ++ "</" ++ t.name ++ ">"

/-- An element as a fragment. -/
def fragment (t : Tag) : Fragment := ⟨t.markup, t.resources⟩

/-- Metadata. -/
def metadata (attrs : Attrs) : Tag := { name := "meta", attrs := attrs, void := true }

/-- A link to a stylesheet. -/
def stylesheet (href : String) : Tag :=
  { name := "link", attrs := [("rel", "stylesheet"), ("href", href)], void := true }

/-- A deferred script. -/
def script (src : String) : Tag := { name := "script", attrs := [("src", src), ("defer", "")] }

/-- A title. -/
def title (text : String) : Tag := { name := "title", content := escape text }

/-- A paragraph. -/
def paragraph (text : String) : Tag := { name := "p", content := escape text }

/-- Markup without an element. -/
def passthrough (markup : String) : Tag := { content := markup }

end Tag

/-! ## Elements around elements -/

/-- The start of an opening of preformatted text. -/
def preOpen : List Char := ['<', 'p', 'r', 'e']

/-- The closing of preformatted text. -/
def preClose : List Char := ['<', '/', 'p', 'r', 'e', '>']

/-- Whether preformatted text opens here. -/
def opensPre (cs : List Char) : Bool :=
  preOpen.isPrefixOf cs &&
    match cs.drop preOpen.length with
    | c :: _ => c == '>' || isBlank c
    | [] => false

/-- The last mark of a line: `true` if it opens preformatted text, `false` if it
closes it. -/
def lastPreMark? : List Char → Option Bool
  | [] => none
  | c :: cs =>
      match lastPreMark? cs with
      | some mark => some mark
      | none =>
          if opensPre (c :: cs) then some true
          else if preClose.isPrefixOf (c :: cs) then some false
          else none

/-- A line as it stands among the children of an element. -/
def indentLine (inPre : Bool) (line : List Char) : List Char :=
  if inPre || line.isEmpty then line else ' ' :: ' ' :: line

/-- Lines indented, a newline after each.  `inPre` tells whether they start in
preformatted text. -/
def indentLines (inPre : Bool) : List (List Char) → List Char
  | [] => []
  | line :: rest =>
      indentLine inPre line ++ '\n' :: indentLines ((lastPreMark? line).getD inPre) rest

/-- Markup as it stands among the children of an element. -/
def indent (markup : String) : String := String.ofList (indentLines false (linesOf markup.toList))

/-- An element around rendered children. -/
def nest (name : String) (attrs : Attrs) (children : List Fragment)
    (resources : List String := []) : Fragment where
  markup := openTag name attrs ++ ">\n" ++ String.join (children.map fun c => indent c.markup) ++
    "</" ++ name ++ ">"
  resources := children.flatMap Fragment.resources ++ resources

end PageLoom
