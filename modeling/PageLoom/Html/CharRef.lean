import PageLoom.Markdown.Scan

/-!
# References to characters

In markup `&name;` and `&#number;` stand for characters.  Some old names count without
the semicolon too, and in attributes only if nothing follows that could belong to a
longer name.

`decode` gives a text the characters that its references stand for.
`encodeAmpersands` goes back: an ampersand is written as a reference only where what
follows would make it the start of one.
-/

namespace PageLoom.Html

/-- The names that count without a semicolon. -/
def oldNames : List String := [
  "AElig", "AMP", "Aacute", "Acirc", "Agrave", "Aring", "Atilde", "Auml", "COPY", "Ccedil", "ETH",
  "Eacute", "Ecirc", "Egrave", "Euml", "GT", "Iacute", "Icirc", "Igrave", "Iuml", "LT", "Ntilde",
  "Oacute", "Ocirc", "Ograve", "Oslash", "Otilde", "Ouml", "QUOT", "REG", "THORN", "Uacute",
  "Ucirc", "Ugrave", "Uuml", "Yacute", "aacute", "acirc", "acute", "aelig", "agrave", "amp",
  "aring", "atilde", "auml", "brvbar", "ccedil", "cedil", "cent", "copy", "curren", "deg",
  "divide", "eacute", "ecirc", "egrave", "eth", "euml", "frac12", "frac14", "frac34", "gt",
  "iacute", "icirc", "iexcl", "igrave", "iquest", "iuml", "laquo", "lt", "macr", "micro",
  "middot", "nbsp", "not", "ntilde", "oacute", "ocirc", "ograve", "ordf", "ordm", "oslash",
  "otilde", "ouml", "para", "plusmn", "pound", "quot", "raquo", "reg", "sect", "shy", "sup1",
  "sup2", "sup3", "szlig", "thorn", "times", "uacute", "ucirc", "ugrave", "uml", "uuml", "yacute",
  "yen", "yuml"]

/-- A character by its number without a semicolon, after the ampersand, and what
follows. -/
def openNumber? (cs : List Char) : Option (List Char × List Char) :=
  let read (isDigit : Char → Bool) (base : Nat) (cs : List Char) :
      Option (List Char × List Char) :=
    match Markdown.scanCode? isDigit base 6 (cs.takeWhile isDigit ++ [';']) with
    | some (c, _) => some ([c], cs.dropWhile isDigit)
    | none => none
  match cs with
  | '#' :: 'x' :: cs => read Markdown.isHexDigit 16 cs
  | '#' :: 'X' :: cs => read Markdown.isHexDigit 16 cs
  | '#' :: cs => read Char.isDigit 10 cs
  | _ => none

/-- An old name without a semicolon, after the ampersand, and what follows. -/
def openName? (inAttr : Bool) (cs : List Char) : Option (List Char × List Char) :=
  match oldNames.find? fun name => name.toList.isPrefixOf cs with
  | none => none
  | some name =>
      let rest := cs.drop name.length
      if inAttr && rest.head?.any (fun c => c.isAlphanum || c == '=') then none
      else (Markdown.entity? name.toList).map (·, rest)

/-- The characters of a reference, after its ampersand, and what follows. -/
def charRef? (inAttr : Bool) (cs : List Char) : Option (List Char × List Char) :=
  ((Markdown.scanCharRef? cs).or (openNumber? cs)).or (openName? inAttr cs)

/-- A text with characters in place of its references; `fuel` bounds the number of steps. -/
def decodeFrom (inAttr : Bool) : Nat → List Char → List Char
  | 0, cs => cs
  | _, [] => []
  | fuel + 1, '&' :: cs =>
      match charRef? inAttr cs with
      | some (chars, rest) => chars ++ decodeFrom inAttr fuel rest
      | none => '&' :: decodeFrom inAttr fuel cs
  | fuel + 1, c :: cs => c :: decodeFrom inAttr fuel cs

/-- A text with characters in place of its references. -/
def decode (inAttr : Bool) (cs : List Char) : List Char := decodeFrom inAttr cs.length cs

/-- A text whose ampersands start no reference. -/
def encodeAmpersands (inAttr : Bool) : List Char → List Char
  | [] => []
  | c :: cs =>
      if c == '&' && (charRef? inAttr cs).isSome then
        "&amp;".toList ++ encodeAmpersands inAttr cs
      else c :: encodeAmpersands inAttr cs

/-- A text with every `c` written as `reference`. -/
def encodeChar (c : Char) (reference : String) (cs : List Char) : List Char :=
  cs.flatMap fun d => if d = c then reference.toList else [d]

end PageLoom.Html
