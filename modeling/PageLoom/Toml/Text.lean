import PageLoom.Json.Reader

/-!
# Texts and keys of a document

A text stands between quotes.  Between double quotes a backslash starts an escape, and
between single quotes it stands for itself.  Three quotes enclose a text of several
lines; a newline right after them does not count, and before the closing ones there
may be up to two more quotes that belong to the text.

A key is a name, or several with dots between them.  A name may be quoted.
-/

namespace PageLoom.Toml

/-- The white space within a line. -/
def isSpace (c : Char) : Bool := c == ' ' || c == '\t'

/-- A text without the white space it starts with. -/
def skipSpace (cs : List Char) : List Char := cs.dropWhile isSpace

/-- Whether a character stands in no text and no comment. -/
def isControl (c : Char) : Bool := (c.toNat < 32 && c != '\t') || c.toNat == 127

/-- Whether a character can stand in a name without quotes. -/
def isBare (c : Char) : Bool := c.isAlphanum || c == '_' || c == '-'

/-- The character of a short escape. -/
def shortEscape? : Char → Option Char
  | '"' => some '"'
  | '\\' => some '\\'
  | 'b' => some (Char.ofNat 8)
  | 'f' => some (Char.ofNat 12)
  | 'n' => some '\n'
  | 'r' => some '\r'
  | 't' => some '\t'
  | _ => none

/-- The character whose number some digits of base sixteen spell. -/
def scalar? (digits : List Char) : Option Char := do
  let values ← digits.mapM Json.hexValue?
  let n := values.foldl (fun n d => 16 * n + d) 0
  if n < 0xD800 || (0xE000 ≤ n && n < 0x110000) then some (Char.ofNat n) else none

/-- A text and what follows its closing quote. -/
abbrev Scanned := Option (List Char × List Char)

/-- Put a character in front of a text, if both are there. -/
def consChar? (c : Option Char) (scanned : Scanned) : Scanned := do
  let c ← c
  let (cs, rest) ← scanned
  return (c :: cs, rest)

/-- A text between double quotes, after the first. -/
def scanBasic : List Char → Scanned
  | '"' :: rest => some ([], rest)
  | '\\' :: 'u' :: a :: b :: c :: d :: rest => consChar? (scalar? [a, b, c, d]) (scanBasic rest)
  | '\\' :: 'U' :: a :: b :: c :: d :: e :: f :: g :: h :: rest =>
      consChar? (scalar? [a, b, c, d, e, f, g, h]) (scanBasic rest)
  | '\\' :: c :: rest => consChar? (shortEscape? c) (scanBasic rest)
  | c :: rest => consChar? (if isControl c || c == '\\' then none else some c) (scanBasic rest)
  | [] => none

/-- A text between single quotes, after the first. -/
def scanLiteral : List Char → Scanned
  | '\'' :: rest => some ([], rest)
  | c :: rest => consChar? (if isControl c then none else some c) (scanLiteral rest)
  | [] => none

/-- Whether a newline comes next, maybe after white space. -/
def endsLine (cs : List Char) : Bool :=
  match skipSpace cs with
  | '\n' :: _ => true
  | '\r' :: '\n' :: _ => true
  | _ => false

/-- A text between three double quotes, after the first three.  `skip` tells whether
white space and newlines do not count, as after a backslash at the end of a line. -/
def scanBasicLines (skip : Bool) : List Char → Scanned
  | '"' :: '"' :: '"' :: '"' :: '"' :: rest => some (['"', '"'], rest)
  | '"' :: '"' :: '"' :: '"' :: rest => some (['"'], rest)
  | '"' :: '"' :: '"' :: rest => some ([], rest)
  | '\r' :: '\n' :: rest =>
      if skip then scanBasicLines true rest else consChar? (some '\n') (scanBasicLines false rest)
  | '\\' :: 'u' :: a :: b :: c :: d :: rest =>
      consChar? (scalar? [a, b, c, d]) (scanBasicLines false rest)
  | '\\' :: 'U' :: a :: b :: c :: d :: e :: f :: g :: h :: rest =>
      consChar? (scalar? [a, b, c, d, e, f, g, h]) (scanBasicLines false rest)
  | '\\' :: c :: rest =>
      if endsLine (c :: rest) then scanBasicLines true (c :: rest)
      else consChar? (shortEscape? c) (scanBasicLines false rest)
  | c :: rest =>
      if skip && (isSpace c || c == '\n') then scanBasicLines true rest
      else if c == '\n' then consChar? (some '\n') (scanBasicLines false rest)
      else consChar? (if isControl c || c == '\\' then none else some c) (scanBasicLines false rest)
  | [] => none

/-- A text between three single quotes, after the first three. -/
def scanLiteralLines : List Char → Scanned
  | '\'' :: '\'' :: '\'' :: '\'' :: '\'' :: rest => some (['\'', '\''], rest)
  | '\'' :: '\'' :: '\'' :: '\'' :: rest => some (['\''], rest)
  | '\'' :: '\'' :: '\'' :: rest => some ([], rest)
  | '\r' :: '\n' :: rest => consChar? (some '\n') (scanLiteralLines rest)
  | '\n' :: rest => consChar? (some '\n') (scanLiteralLines rest)
  | c :: rest => consChar? (if isControl c then none else some c) (scanLiteralLines rest)
  | [] => none

/-- A text without a newline at its start. -/
def skipNewline : List Char → List Char
  | '\r' :: '\n' :: rest => rest
  | '\n' :: rest => rest
  | cs => cs

/-- A text in quotes of any kind. -/
def scanText : List Char → Scanned
  | '"' :: '"' :: '"' :: rest => scanBasicLines false (skipNewline rest)
  | '\'' :: '\'' :: '\'' :: rest => scanLiteralLines (skipNewline rest)
  | '"' :: rest => scanBasic rest
  | '\'' :: rest => scanLiteral rest
  | _ => none

/-- A name, quoted or not. -/
def scanName (cs : List Char) : Scanned :=
  match cs with
  | '"' :: rest => scanBasic rest
  | '\'' :: rest => scanLiteral rest
  | _ =>
      let name := cs.takeWhile isBare
      if name.isEmpty then none else some (name, cs.dropWhile isBare)

/-- The names of a key and what follows it.  `fuel` bounds their number. -/
def scanKey : Nat → List Char → Option (List String × List Char)
  | 0, _ => none
  | fuel + 1, cs => do
      let (name, rest) ← scanName cs
      match skipSpace rest with
      | '.' :: rest =>
          let (names, rest) ← scanKey fuel (skipSpace rest)
          return (String.ofList name :: names, rest)
      | rest => return ([String.ofList name], rest)

end PageLoom.Toml
