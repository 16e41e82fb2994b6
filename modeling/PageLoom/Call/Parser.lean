import PageLoom.Call.Expr
import PageLoom.Call.Token
import PageLoom.Decimal.Reading

/-!
# Parsing calls

The grammar, with `?` for at most one and `*` for any number:

* a call is a name and, in parentheses, parameters separated by commas;
* a parameter is a name, `=` and a value;
* a value is a scalar, a list in brackets, a dictionary in braces, or a name
  that may be followed either by attributes `.name` or by fields `[scalar]`;
* a scalar is an integer, a decimal, a string, or a tuple in parentheses;
* a list and a tuple hold values, a dictionary holds pairs `scalar : value`,
  separated by commas.

A comma may also follow the last parameter, item or pair.  An integer must fit
64 bits.

The parser reads one token at a time.  Its `State` says what has just been read
of the innermost construct, and the stack of `Frame`s holds the constructs
around it, innermost first.  A token that no state can use is the first one that
cannot continue any call: nothing before it is read twice, and nothing after it
is looked at.
-/

namespace PageLoom

/-- What a token sequence should have continued with. -/
inductive Expected
  | functionName | openParen | commaOrParen | commaOrBracket | commaOrBrace
  | parameterName | equals | value | scalar | colon | attributeName | closeBracket | endOfCall
deriving DecidableEq, Repr

/-- The wording of what was expected. -/
def Expected.text : Expected → String
  | .functionName => "function name"
  | .openParen => "`(`"
  | .commaOrParen => "`,` or `)`"
  | .commaOrBracket => "`,` or `]`"
  | .commaOrBrace => "`,` or `\x7d`"
  | .parameterName => "parameter name"
  | .equals => "`=`"
  | .value => "a value"
  | .scalar => "a number, string or tuple"
  | .colon => "`:`"
  | .attributeName => "attribute name"
  | .closeBracket => "`]`"
  | .endOfCall => "end of call"

/-- Why a text is no call. -/
inductive SyntaxCause
  | unreadable (shown : String)
  | expected (what : Expected) (found : Option Token)
  | integerRange (text : String)
deriving DecidableEq, Repr

/-- The wording of a cause. -/
def SyntaxCause.message : SyntaxCause → String
  | .unreadable shown => "unexpected character `" ++ shown ++ "`"
  | .expected what none => "expected " ++ what.text ++ ", found end of input"
  | .expected what (some token) => "expected " ++ what.text ++ ", found " ++ token.shown
  | .integerRange text => "integer literal `" ++ text ++ "` out of range"

/-- A text that is no call: why, and where. -/
structure SyntaxError where
  /-- Why. -/
  cause : SyntaxCause
  /-- The offset in bytes. -/
  offset : Nat
deriving DecidableEq, Repr

/-! ## States -/

/-- The two constructs that hold a list of values. -/
inductive Sequence
  | list | tuple
deriving DecidableEq, Repr

namespace Sequence

/-- The token that closes the construct. -/
def close : Sequence → Punct
  | .list => .closeBracket
  | .tuple => .closeParen

/-- The expression with the given items. -/
def expr : Sequence → List Expr → Expr
  | .list, items => .list items
  | .tuple, items => .tuple items

/-- What may follow an item. -/
def separator : Sequence → Expected
  | .list => .commaOrBracket
  | .tuple => .commaOrParen

end Sequence

/-- A construct whose next part is being read. -/
inductive Frame
  /-- The value of a parameter. -/
  | param (function : String) (done : List (String × Expr)) (key : String)
  /-- An item of a list or a tuple. -/
  | item (kind : Sequence) (done : List Expr)
  /-- The key of a pair. -/
  | pairKey (done : List (Expr × Expr))
  /-- The value of a pair. -/
  | pairValue (done : List (Expr × Expr)) (key : Expr)
  /-- The key of a field. -/
  | fieldKey (base : String) (done : List Expr)

/-- What has been read of the innermost construct. -/
inductive State
  /-- Nothing of a call. -/
  | call
  /-- The name of the function. -/
  | function (function : String)
  /-- Parameters, and the parenthesis or comma after them. -/
  | params (function : String) (done : List (String × Expr))
  /-- Parameters and the name of one more. -/
  | key (function : String) (done : List (String × Expr)) (key : String)
  /-- Nothing of a value. -/
  | value
  /-- Nothing of a scalar. -/
  | scalar
  /-- Items, and the bracket or comma after them. -/
  | items (kind : Sequence) (done : List Expr)
  /-- Pairs, and the brace or comma after them. -/
  | pairs (done : List (Expr × Expr))
  /-- A name. -/
  | name (name : String)
  /-- A chain of attributes, and the point after it. -/
  | dot (base : String) (chain : List String)
  /-- A chain of attributes. -/
  | attr (base : String) (chain : List String)
  /-- A chain of fields. -/
  | field (base : String) (keys : List Expr)
  /-- An expression that cannot be continued. -/
  | complete (e : Expr)
  /-- A whole call. -/
  | done (call : CallExpr)

/-- The state and the constructs around it. -/
abbrev Situation := State × List Frame

/-- The expression that a state has read, if it may end there. -/
def State.expr? : State → Option Expr
  | .name x => some (.name x)
  | .attr base chain => some (.attr base chain)
  | .field base keys => some (.field base keys)
  | .complete e => some e
  | _ => none

/-- What may follow an expression, by the construct around it. -/
def Frame.separator : Frame → Expected
  | .param .. => .commaOrParen
  | .item kind _ => kind.separator
  | .pairKey _ => .colon
  | .pairValue .. => .commaOrBrace
  | .fieldKey .. => .closeBracket

/-- What may follow, if the text may not end here. -/
def Situation.expected? : Situation → Option Expected
  | (.call, _) => some .functionName
  | (.function _, _) => some .openParen
  | (.params .., _) => some .parameterName
  | (.key .., _) => some .equals
  | (.value, _) => some .value
  | (.scalar, _) => some .scalar
  | (.items .., _) => some .value
  | (.pairs _, _) => some .scalar
  | (.dot .., _) => some .attributeName
  | (.done _, _) => none
  | (.name _, frames) => (frames.head?.map Frame.separator)
  | (.attr .., frames) => (frames.head?.map Frame.separator)
  | (.field .., frames) => (frames.head?.map Frame.separator)
  | (.complete _, frames) => (frames.head?.map Frame.separator)

/-! ## Steps -/

/-- The first token of a scalar. -/
def startScalar (t : Token) (frames : List Frame) : Except SyntaxCause Situation :=
  match t with
  | .integer text =>
      match Decimal.int64? text with
      | some n => .ok (.complete (.int n), frames)
      | none => .error (.integerRange text)
  | .decimal text => .ok (.complete (.float ((Decimal.float? text).getD 0)), frames)
  | .str text => .ok (.complete (.str text), frames)
  | .punct .openParen => .ok (.items .tuple [], frames)
  | t => .error (.expected .scalar (some t))

/-- The first token of a value. -/
def startValue (t : Token) (frames : List Frame) : Except SyntaxCause Situation :=
  match t with
  | .name x => .ok (.name x, frames)
  | .punct .openBracket => .ok (.items .list [], frames)
  | .punct .openBrace => .ok (.pairs [], frames)
  | .punct .openParen => startScalar t frames
  | .integer _ => startScalar t frames
  | .decimal _ => startScalar t frames
  | .str _ => startScalar t frames
  | t => .error (.expected .value (some t))

/-- The token after an expression: it belongs to the construct around it. -/
def afterExpr (e : Expr) (t : Token) : List Frame → Except SyntaxCause Situation
  | [] => .error (.expected .endOfCall (some t))
  | .param f done key :: frames =>
      match t with
      | .punct .closeParen => .ok (.done ⟨f, done ++ [(key, e)]⟩, frames)
      | .punct .comma => .ok (.params f (done ++ [(key, e)]), frames)
      | t => .error (.expected .commaOrParen (some t))
  | .item kind done :: frames =>
      if t = .punct kind.close then .ok (.complete (kind.expr (done ++ [e])), frames)
      else if t = .punct .comma then .ok (.items kind (done ++ [e]), frames)
      else .error (.expected kind.separator (some t))
  | .pairKey done :: frames =>
      match t with
      | .punct .colon => .ok (.value, .pairValue done e :: frames)
      | t => .error (.expected .colon (some t))
  | .pairValue done key :: frames =>
      match t with
      | .punct .closeBrace => .ok (.complete (.dict (done ++ [(key, e)])), frames)
      | .punct .comma => .ok (.pairs (done ++ [(key, e)]), frames)
      | t => .error (.expected .commaOrBrace (some t))
  | .fieldKey base done :: frames =>
      match t with
      | .punct .closeBracket => .ok (.field base (done ++ [e]), frames)
      | t => .error (.expected .closeBracket (some t))

/-- Read one token. -/
def step (c : Situation) (t : Token) : Except SyntaxCause Situation :=
  match c with
  | (.call, frames) =>
      match t with
      | .name f => .ok (.function f, frames)
      | t => .error (.expected .functionName (some t))
  | (.function f, frames) =>
      match t with
      | .punct .openParen => .ok (.params f [], frames)
      | t => .error (.expected .openParen (some t))
  | (.params f done, frames) =>
      match t with
      | .punct .closeParen => .ok (.done ⟨f, done⟩, frames)
      | .name key => .ok (.key f done key, frames)
      | t => .error (.expected .parameterName (some t))
  | (.key f done key, frames) =>
      match t with
      | .punct .equals => .ok (.value, .param f done key :: frames)
      | t => .error (.expected .equals (some t))
  | (.value, frames) => startValue t frames
  | (.scalar, frames) => startScalar t frames
  | (.items kind done, frames) =>
      if t = .punct kind.close then .ok (.complete (kind.expr done), frames)
      else startValue t (.item kind done :: frames)
  | (.pairs done, frames) =>
      if t = .punct .closeBrace then .ok (.complete (.dict done), frames)
      else startScalar t (.pairKey done :: frames)
  | (.name x, frames) =>
      match t with
      | .punct .dot => .ok (.dot x [], frames)
      | .punct .openBracket => .ok (.scalar, .fieldKey x [] :: frames)
      | t => afterExpr (.name x) t frames
  | (.dot base chain, frames) =>
      match t with
      | .name x => .ok (.attr base (chain ++ [x]), frames)
      | t => .error (.expected .attributeName (some t))
  | (.attr base chain, frames) =>
      match t with
      | .punct .dot => .ok (.dot base chain, frames)
      | t => afterExpr (.attr base chain) t frames
  | (.field base keys, frames) =>
      match t with
      | .punct .openBracket => .ok (.scalar, .fieldKey base keys :: frames)
      | t => afterExpr (.field base keys) t frames
  | (.complete e, frames) => afterExpr e t frames
  | (.done _, _) => .error (.expected .endOfCall (some t))

/-- Read tokens until one cannot be used.  A failure tells how many tokens were
left, the unusable one included. -/
def run (c : Situation) : List Token → Except (SyntaxCause × Nat) Situation
  | [] => .ok c
  | t :: ts =>
      match step c t with
      | .error cause => .error (cause, ts.length + 1)
      | .ok c => run c ts

/-! ## Whole texts -/

/-- The offset of the place before the last `left` tokens. -/
def offsetBefore (source : String) (lexemes : List Lexeme) (left : Nat) : Nat :=
  match lexemes[lexemes.length - left]? with
  | some l => l.start
  | none => source.utf8ByteSize

/-- Read the tokens of a whole text, starting from a state, and take the result
out of the state they lead to. -/
def parseWith {α : Type} (start : State) (result? : Situation → Option α) (source : String) :
    Except SyntaxError α :=
  match tokenize source with
  | .error e => .error ⟨.unreadable e.shown, e.offset⟩
  | .ok lexemes =>
      match run (start, []) (lexemes.map Lexeme.token) with
      | .error (cause, left) => .error ⟨cause, offsetBefore source lexemes left⟩
      | .ok c =>
          match c.expected? with
          | some what => .error ⟨.expected what none, source.utf8ByteSize⟩
          | none =>
              match result? c with
              | some a => .ok a
              | none => .error ⟨.expected .endOfCall none, source.utf8ByteSize⟩

/-- The call of a finished run. -/
def Situation.call? : Situation → Option CallExpr
  | (.done call, _) => some call
  | _ => none

/-- The expression of a finished run. -/
def Situation.expr? (c : Situation) : Option Expr := if c.2.isEmpty then c.1.expr? else none

/-- Read a whole text as a call. -/
def parseCall (source : String) : Except SyntaxError CallExpr :=
  parseWith .call Situation.call? source

/-- Read a whole text as a value. -/
def parseValue (source : String) : Except SyntaxError Expr :=
  parseWith .value Situation.expr? source

end PageLoom
