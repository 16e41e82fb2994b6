import PageLoom.Markdown.Entity
import PageLoom.Text.Fold
import PageLoom.Text.Punctuation
import PageLoom.Text.Search

/-!
# The small constructs of Markdown

Scanners for the constructs that are read character by character: character
references, escapes, autolinks, tags, and the parts of links and of link
definitions.  A scanner takes the text where its construct may start and gives
what it read and the rest of the text.
-/

namespace PageLoom.Markdown

/-- A scanner for something of type `α`. -/
abbrev Scanner (α : Type) := List Char → Option (α × List Char)

/-- Spaces, tabs, and line ends. -/
def isGap (c : Char) : Bool :=
  c == ' ' || c == '\t' || c == '\n' || c == '\r' || c == '\x0b' || c == '\x0c'

/-- Spaces and tabs. -/
def isGapInLine (c : Char) : Bool := c == ' ' || c == '\t' || c == '\x0b' || c == '\x0c'

/-! ## Character references and escapes -/

/-- The character of a number; none of those has the replacement character. -/
def charOfNumber (n : Nat) : Char :=
  if n = 0 ∨ 0x110000 ≤ n ∨ (0xD800 ≤ n ∧ n < 0xE000) then Char.ofNat 0xFFFD else Char.ofNat n

/-- The number that digits spell, at most `most` of them, before a semicolon. -/
def scanCode? (isDigit : Char → Bool) (base most : Nat) : Scanner Char := fun cs =>
  let ds := cs.takeWhile isDigit
  match cs.dropWhile isDigit with
  | ';' :: rest =>
      if ds.isEmpty ∨ most < ds.length then none
      else
        let n := if base = 16 then hexNumber ds else ds.foldl (fun n c => 10 * n + (c.toNat - 48)) 0
        some (charOfNumber n, rest)
  | _ => none

/-- A digit of base sixteen. -/
def isHexDigit (c : Char) : Bool :=
  c.isDigit || ('a' ≤ c && c ≤ 'f') || ('A' ≤ c && c ≤ 'F')

/-- The characters of a reference, after its ampersand. -/
def scanCharRef? : Scanner (List Char)
  | '#' :: 'x' :: cs => (scanCode? isHexDigit 16 6 cs).map fun (c, rest) => ([c], rest)
  | '#' :: 'X' :: cs => (scanCode? isHexDigit 16 6 cs).map fun (c, rest) => ([c], rest)
  | '#' :: cs => (scanCode? Char.isDigit 10 7 cs).map fun (c, rest) => ([c], rest)
  | cs =>
      match cs.dropWhile Char.isAlphanum with
      | ';' :: rest => (entity? (cs.takeWhile Char.isAlphanum)).map fun value => (value, rest)
      | _ => none

/-- A text with its escapes and character references replaced.  Every step reads
at least one character. -/
def unescapeFrom : Nat → List Char → List Char
  | 0, _ => []
  | _, [] => []
  | fuel + 1, '\\' :: c :: cs =>
      if isAsciiPunct c then c :: unescapeFrom fuel cs else '\\' :: unescapeFrom fuel (c :: cs)
  | fuel + 1, '&' :: cs =>
      match scanCharRef? cs with
      | some (value, rest) => value ++ unescapeFrom fuel rest
      | none => '&' :: unescapeFrom fuel cs
  | fuel + 1, c :: cs => c :: unescapeFrom fuel cs

/-- A text with its escapes and character references replaced. -/
def unescape (cs : List Char) : List Char := unescapeFrom cs.length cs

/-! ## Autolinks -/

/-- The address of an autolink: a scheme and what follows it. -/
def scanUri? : Scanner (List Char) := fun cs =>
  let isScheme (c : Char) : Bool := c.isAlphanum || c == '+' || c == '.' || c == '-'
  let scheme := cs.takeWhile isScheme
  match scheme.head?, cs.dropWhile isScheme with
  | some c, ':' :: rest =>
      if c.isAlpha ∧ 2 ≤ scheme.length ∧ scheme.length ≤ 32 then
        let isPart (c : Char) : Bool := c.toNat > 0x20 && c != '<' && c != '>' && c.toNat != 0x7F
        match rest.dropWhile isPart with
        | '>' :: after => some (scheme ++ ':' :: rest.takeWhile isPart, after)
        | _ => none
      else none
  | _, _ => none

/-- The characters before the sign of a mail address. -/
def isMailLocal (c : Char) : Bool :=
  c.isAlphanum || ".!#$%&'*+/=?^_`\x7b|\x7d~-".toList.contains c

/-- Whether a part of a domain is well formed. -/
def isDomainLabel (cs : List Char) : Bool :=
  !cs.isEmpty && cs.length ≤ 63 && cs.head? != some '-' && cs.getLast? != some '-' &&
    cs.all fun c => c.isAlphanum || c == '-'

/-- The address of a mail autolink. -/
def scanMail? : Scanner (List Char) := fun cs =>
  let name := cs.takeWhile isMailLocal
  match cs.dropWhile isMailLocal with
  | '@' :: rest =>
      let isPart (c : Char) : Bool := c.isAlphanum || c == '-' || c == '.'
      let domain := rest.takeWhile isPart
      match rest.dropWhile isPart with
      | '>' :: after =>
          if !name.isEmpty && (domain.splitOn '.').all isDomainLabel then
            some (name ++ '@' :: domain, after)
          else none
      | _ => none
  | _ => none

/-! ## Tags -/

/-- The gaps at the start of a text; line ends count if `lines` is set. -/
def dropGap (lines : Bool) (cs : List Char) : List Char :=
  cs.dropWhile fun c => if lines then isGap c else isGapInLine c

/-- The text after a name of a tag. -/
def afterTagName? : List Char → Option (List Char)
  | [] => none
  | c :: cs =>
      if c.isAlpha then some (cs.dropWhile fun c => c.isAlphanum || c == '-') else none

/-- The text after the value of an attribute. -/
def afterValue? (lines : Bool) : List Char → Option (List Char)
  | [] => none
  | c :: cs =>
      if c = '"' ∨ c = '\'' then
        let body := cs.takeWhile (· != c)
        if !lines && body.contains '\n' then none
        else
          match cs.dropWhile (· != c) with
          | _ :: rest => some rest
          | [] => none
      else
        let isPart (c : Char) : Bool := !isGap c && !"\"'=<>`".toList.contains c
        if isPart c then some (cs.dropWhile isPart) else none

/-- The text after the attributes of a tag. -/
def afterAttrs? (lines : Bool) : Nat → List Char → Option (List Char)
  | 0, cs => some cs
  | fuel + 1, cs =>
      let rest := dropGap lines cs
      if rest.length = cs.length then some cs
      else
        match rest with
        | [] => some cs
        | c :: rest =>
            if c.isAlpha || c == '_' || c == ':' then
              let rest := rest.dropWhile fun c =>
                c.isAlphanum || c == '_' || c == ':' || c == '.' || c == '-'
              match dropGap lines rest with
              | '=' :: value =>
                  match afterValue? lines (dropGap lines value) with
                  | some rest => afterAttrs? lines fuel rest
                  | none => none
              | _ => afterAttrs? lines fuel rest
            else some (c :: rest)

/-- The text after an opening or closing tag, after its `<`. -/
def afterTag? (lines : Bool) : List Char → Option (List Char)
  | '/' :: cs =>
      match afterTagName? cs with
      | none => none
      | some rest =>
          match dropGap lines rest with
          | '>' :: rest => some rest
          | _ => none
  | cs =>
      match afterTagName? cs with
      | none => none
      | some rest =>
          match afterAttrs? lines rest.length rest with
          | none => none
          | some rest =>
              match dropGap lines rest with
              | '>' :: rest => some rest
              | '/' :: '>' :: rest => some rest
              | _ => none

/-- The text after the first occurrence of a word. -/
def afterWord? (word : String) (cs : List Char) : Option (List Char) :=
  (cutAt? word.toList cs).map (·.2)

/-- The text after any inline markup, after its `<`. -/
def afterMarkup? (cs : List Char) : Option (List Char) :=
  match cs with
  | '!' :: '-' :: '-' :: '>' :: rest => some rest
  | '!' :: '-' :: '-' :: '-' :: '>' :: rest => some rest
  | '!' :: '-' :: '-' :: rest => afterWord? "-->" rest
  | '?' :: rest => afterWord? "?>" rest
  | '!' :: '[' :: 'C' :: 'D' :: 'A' :: 'T' :: 'A' :: '[' :: rest => afterWord? "]]>" rest
  | '!' :: c :: rest => if c.isAlpha then afterWord? ">" rest else none
  | cs => afterTag? true cs

/-! ## Parts of links -/

/-- How deep parentheses nest in the address of a link. -/
def maxParens : Nat := 32

/-- An address without brackets around it: it ends at a gap or at the
parenthesis that closes the link. -/
def scanBareDest? : Nat → Scanner (List Char)
  | nest, [] => if nest = 0 then some ([], []) else none
  | nest, '\\' :: c :: cs =>
      if isAsciiPunct c then
        (scanBareDest? nest cs).map fun (d, rest) => ('\\' :: c :: d, rest)
      else (scanBareDest? nest (c :: cs)).map fun (d, rest) => ('\\' :: d, rest)
  | nest, c :: cs =>
      if c.toNat ≤ 0x20 then if nest = 0 then some ([], c :: cs) else none
      else if c = '(' then
        if maxParens < nest then none
        else (scanBareDest? (nest + 1) cs).map fun (d, rest) => (c :: d, rest)
      else if c = ')' then
        match nest with
        | 0 => some ([], c :: cs)
        | n + 1 => (scanBareDest? n cs).map fun (d, rest) => (c :: d, rest)
      else (scanBareDest? nest cs).map fun (d, rest) => (c :: d, rest)
termination_by _ cs => cs.length

/-- An address in angle brackets, after the first of them. -/
def scanAngleDest? : Scanner (List Char)
  | [] => none
  | '>' :: rest => some ([], rest)
  | '\\' :: c :: cs =>
      if isAsciiPunct c then (scanAngleDest? cs).map fun (d, rest) => ('\\' :: c :: d, rest)
      else (scanAngleDest? (c :: cs)).map fun (d, rest) => ('\\' :: d, rest)
  | c :: cs =>
      if c = '\n' ∨ c = '\r' ∨ c = '<' then none
      else (scanAngleDest? cs).map fun (d, rest) => (c :: d, rest)
termination_by cs => cs.length

/-- The address of a link, as written. -/
def scanDest? : Scanner (List Char)
  | '<' :: cs => scanAngleDest? cs
  | cs => scanBareDest? 0 cs

/-- The title of a link up to the character that closes it, as written. -/
def scanTitleBody? (opener closer : Char) : Scanner (List Char)
  | [] => none
  | '\\' :: c :: cs =>
      if isAsciiPunct c then
        (scanTitleBody? opener closer cs).map fun (t, rest) => ('\\' :: c :: t, rest)
      else (scanTitleBody? opener closer (c :: cs)).map fun (t, rest) => ('\\' :: t, rest)
  | c :: cs =>
      if c = closer then some ([], cs)
      else if c = opener then none
      else (scanTitleBody? opener closer cs).map fun (t, rest) => (c :: t, rest)
termination_by cs => cs.length

/-- The title of a link, with its escapes replaced. -/
def scanTitle? : Scanner (List Char)
  | '"' :: cs => (scanTitleBody? '"' '"' cs).map fun (t, rest) => (unescape t, rest)
  | '\'' :: cs => (scanTitleBody? '\'' '\'' cs).map fun (t, rest) => (unescape t, rest)
  | '(' :: cs => (scanTitleBody? '(' ')' cs).map fun (t, rest) => (unescape t, rest)
  | _ => none

/-- Address and title of a link in parentheses, after the first of them. -/
def scanLinkTail? : Scanner (List Char × List Char) := fun cs =>
  match scanDest? (cs.dropWhile isGap) with
  | none => none
  | some (dest, rest) =>
      let rest := rest.dropWhile isGap
      let (title, rest) :=
        match scanTitle? rest with
        | some (title, rest) => (title, rest.dropWhile isGap)
        | none => ([], rest)
      match rest with
      | ')' :: rest => some ((unescape dest, title), rest)
      | _ => none

/-- A label up to the bracket that closes it, as written. -/
def scanLabelBody? : Scanner (List Char)
  | [] => none
  | ']' :: rest => some ([], rest)
  | '\\' :: c :: cs => (scanLabelBody? cs).map fun (l, rest) => ('\\' :: c :: l, rest)
  | c :: cs =>
      if c = '[' then none else (scanLabelBody? cs).map fun (l, rest) => (c :: l, rest)

/-- A label: not empty, and not too long. -/
def scanLabel? : Scanner (List Char) := fun cs =>
  match scanLabelBody? cs with
  | some (label, rest) =>
      if label.all isGap || 999 < label.length then none else some (label, rest)
  | none => none

/-- A text with every run of gaps made one space; `gap` tells whether a gap came
just before. -/
def squeeze (gap : Bool) : List Char → List Char
  | [] => []
  | c :: cs =>
      if isGap c then (if gap then squeeze true cs else ' ' :: squeeze true cs)
      else c :: squeeze false cs

/-- What two labels that mean the same have in common. -/
def labelKey (label : List Char) : List Char :=
  let squeezed := squeeze true label
  fold (if squeezed.getLast? = some ' ' then squeezed.dropLast else squeezed)

/-! ## Link definitions -/

/-- The address and the title that a label stands for. -/
structure LinkTarget where
  /-- The address. -/
  dest : List Char
  /-- The title. -/
  title : List Char
deriving Repr

/-- Skip gaps that hold at most one line end. -/
def dropGapLine (cs : List Char) : List Char :=
  match cs.dropWhile isGapInLine with
  | '\n' :: rest => rest.dropWhile isGapInLine
  | rest => rest

/-- The text after the end of a line on which only gaps are left. -/
def lineEnd? (cs : List Char) : Option (List Char) :=
  match cs.dropWhile isGapInLine with
  | [] => some []
  | '\n' :: rest => some rest
  | _ => none

/-- A definition of a link at the start of a paragraph, after the bracket. -/
def scanDefinition? : Scanner (List Char × LinkTarget) := fun cs =>
  match scanLabel? cs with
  | some (label, ':' :: rest) =>
      let afterLabel := dropGapLine rest
      if afterLabel.isEmpty then none
      else
        match scanDest? afterLabel with
        | none => none
        | some (dest, rest) =>
            if dest.isEmpty && afterLabel.head? != some '<' then none
            else
              let plain : Option ((List Char × LinkTarget) × List Char) :=
                (lineEnd? rest).map fun after => ((label, ⟨unescape dest, []⟩), after)
              let gap := dropGapLine rest
              if gap.length = rest.length then plain
              else
                match scanTitle? gap with
                | none => plain
                | some (title, after) =>
                    match lineEnd? after with
                    | some after => some ((label, ⟨unescape dest, title⟩), after)
                    | none => plain
  | _ => none

end PageLoom.Markdown
