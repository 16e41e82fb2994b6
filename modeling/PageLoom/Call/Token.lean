import PageLoom.Text.Bytes

/-!
# Tokens of a call

The text of a call is cut into tokens from left to right.  Blanks between tokens
are skipped: spaces, tabs, carriage returns, line feeds and form feeds.  Where a
token starts, the longest text that is a token is taken.

* A string stands between two quotes of one kind and contains none of them.
* A decimal is an optional minus sign, any digits, a point and at least one digit.
* An integer is an optional minus sign and at least one digit.
* A name is a letter or underscore, then letters, digits and underscores.
* Ten characters are tokens by themselves.

A place where no token starts is an error.  Its message shows the character that
stands there, or, at a quote that is never closed, the rest of the text.
-/

namespace PageLoom

/-- The tokens of one character. -/
inductive Punct
  | openParen | closeParen | openBracket | closeBracket | openBrace | closeBrace
  | comma | colon | dot | equals
deriving DecidableEq, Repr

/-- The character of a token of one character. -/
def Punct.char : Punct → Char
  | .openParen => '('
  | .closeParen => ')'
  | .openBracket => '['
  | .closeBracket => ']'
  | .openBrace => '\x7b'
  | .closeBrace => '\x7d'
  | .comma => ','
  | .colon => ':'
  | .dot => '.'
  | .equals => '='

/-- The token that is a character. -/
def Punct.ofChar? (c : Char) : Option Punct :=
  [Punct.openParen, .closeParen, .openBracket, .closeBracket, .openBrace, .closeBrace,
    .comma, .colon, .dot, .equals].find? fun p => p.char == c

/-- A token.  A string is held without its quotes. -/
inductive Token
  | str (text : String)
  | decimal (text : String)
  | integer (text : String)
  | name (text : String)
  | punct (p : Punct)
deriving DecidableEq, Repr

/-- A token as messages show it. -/
def Token.shown : Token → String
  | .str text => "string \"" ++ text ++ "\""
  | .decimal text => "number `" ++ text ++ "`"
  | .integer text => "number `" ++ text ++ "`"
  | .name text => "identifier `" ++ text ++ "`"
  | .punct p => "`" ++ String.ofList [p.char] ++ "`"

/-- A token with the bytes of the source that it takes up. -/
structure Lexeme where
  /-- The token. -/
  token : Token
  /-- The offset of its first byte. -/
  start : Nat
  /-- The offset after its last byte. -/
  stop : Nat
deriving DecidableEq, Repr

namespace Token

/-- The blanks between tokens. -/
def isSpace (c : Char) : Bool :=
  c == ' ' || c == '\t' || c == '\r' || c == '\n' || c == '\x0c'

/-- The characters that start a name. -/
def isNameStart (c : Char) : Bool := c.isAlpha || c == '_'

/-- The characters that continue a name. -/
def isNameRest (c : Char) : Bool := c.isAlphanum || c == '_'

/-- The number at the start of a text, without sign: its token and its length. -/
def scanDigits? (sign : List Char) (cs : List Char) : Option (Token × Nat) :=
  let whole := cs.takeWhile Char.isDigit
  let integer : Option (Token × Nat) :=
    if whole.isEmpty then none
    else some (.integer (String.ofList (sign ++ whole)), sign.length + whole.length)
  match cs.dropWhile Char.isDigit with
  | '.' :: rest =>
      let fraction := rest.takeWhile Char.isDigit
      if fraction.isEmpty then integer
      else
        some (.decimal (String.ofList (sign ++ whole ++ '.' :: fraction)),
          sign.length + whole.length + 1 + fraction.length)
  | _ => integer

/-- The number at the start of a text. -/
def scanNumber? : List Char → Option (Token × Nat)
  | '-' :: cs => scanDigits? ['-'] cs
  | cs => scanDigits? [] cs

/-- The string at the start of a text that follows the quote `q`. -/
def scanString? (q : Char) (cs : List Char) : Option (Token × Nat) :=
  let body := cs.takeWhile (· != q)
  if body.length < cs.length then some (.str (String.ofList body), body.length + 2) else none

/-- The longest token at the start of a text, and its length in characters. -/
def scan? : List Char → Option (Token × Nat)
  | [] => none
  | c :: cs =>
      if c = '"' ∨ c = '\'' then scanString? c cs
      else if isNameStart c then
        let rest := cs.takeWhile isNameRest
        some (.name (String.ofList (c :: rest)), rest.length + 1)
      else
        match scanNumber? (c :: cs) with
        | some r => some r
        | none => (Punct.ofChar? c).map fun p => (.punct p, 1)

/-- What a place where no token starts shows. -/
def unreadable : List Char → List Char
  | [] => []
  | c :: cs => if c = '"' ∨ c = '\'' then c :: cs else [c]

end Token

/-- A place where no token starts. -/
structure LexError where
  /-- The text shown for it. -/
  shown : String
  /-- Its offset in bytes. -/
  offset : Nat
deriving DecidableEq, Repr

/-- The tokens of a text that starts at an offset.  Every token takes at least
one character, so `fuel` need not exceed the number of characters. -/
def tokensFrom (offset : Nat) (cs : List Char) : Nat → Except LexError (List Lexeme)
  | 0 => .ok []
  | fuel + 1 =>
      let blanks := cs.takeWhile Token.isSpace
      let start := offset + byteLength blanks
      match cs.dropWhile Token.isSpace with
      | [] => .ok []
      | c :: rest =>
          match Token.scan? (c :: rest) with
          | none => .error ⟨String.ofList (Token.unreadable (c :: rest)), start⟩
          | some (token, n) =>
              let stop := start + byteLength ((c :: rest).take n)
              match tokensFrom stop ((c :: rest).drop n) fuel with
              | .error e => .error e
              | .ok lexemes => .ok (⟨token, start, stop⟩ :: lexemes)

/-- The tokens of a text, or the first place where no token starts. -/
def tokenize (source : String) : Except LexError (List Lexeme) :=
  tokensFrom 0 source.toList (source.length + 1)

end PageLoom
