import PageLoom.Function.Table
import PageLoom.Span.Fresh
import PageLoom.Span.Marker

/-!
# Processing spans

Every span of a text is a call.  A call that succeeds leaves a fragment, and a
reference to a placeholder in the text.  A call that fails leaves the span as it
was written, and an error.  One span never changes what becomes of another.
-/

namespace PageLoom

/-- A call that succeeded. -/
structure Segment where
  /-- What the call made. -/
  result : Fragment
  /-- The span as written, markers included. -/
  written : String
  /-- The name that stands for the result. -/
  placeholder : String
deriving DecidableEq, Repr

/-- A call that failed. -/
structure SpanError where
  /-- Why. -/
  error : CallError
  /-- The source of the call. -/
  source : String
deriving DecidableEq, Repr

/-- The message of a failed call. -/
def SpanError.message (e : SpanError) : String := "in `" ++ e.source ++ "`: " ++ e.error.message

/-- The message of all failed calls of a text. -/
def spanErrorsMessage (errors : List SpanError) : String :=
  toString errors.length ++ " fun-dsl segment(s) failed" ++
    String.join (errors.map fun e => "\n  " ++ e.message)

/-- A text whose spans have been processed. -/
structure Processed where
  /-- The text, with references in place of the spans that succeeded. -/
  text : String
  /-- The calls that succeeded, in order. -/
  segments : List Segment
  /-- The calls that failed, in order. -/
  errors : List SpanError
deriving DecidableEq, Repr

/-- Make the call that a source spells. -/
def dispatch (functions : FunctionTable) (context : Context) (id : String) (source : String) :
    Except CallError Fragment :=
  match Call.ofSource context source with
  | .error e => .error e
  | .ok call =>
      match functions.get? call.function with
      | none => .error (.functionNotFound call.function)
      | some f =>
          match f id call.arguments with
          | .error e => .error (.failed call.function e)
          | .ok fragment => .ok fragment

/-- The reference to a variable. -/
def reference (name : String) : String := "\x7b\x7b" ++ name ++ "\x7d\x7d"

/-- The name that stands for the call with the identifier `id`. -/
def placeholderName (id : String) : String := "fundsl_" ++ id

/-- What a piece of a text becomes. -/
inductive Outcome
  | literal (text : String)
  | succeeded (s : Segment)
  | failed (written : String) (e : SpanError)

namespace Outcome

/-- What stands in the text in place of the piece. -/
def text : Outcome → String
  | .literal text => text
  | .succeeded s => reference s.placeholder
  | .failed written _ => written

/-- The call that succeeded. -/
def segment? : Outcome → Option Segment
  | .succeeded s => some s
  | _ => none

/-- The call that failed. -/
def error? : Outcome → Option SpanError
  | .failed _ e => some e
  | _ => none

end Outcome

/-- What a piece becomes, given an identifier of its own. -/
def Piece.outcome (functions : FunctionTable) (context : Context) (m : Markers) (id : String)
    (p : Piece) : Outcome :=
  match p with
  | .literal text => .literal (String.ofList text)
  | .span body =>
      let written := String.ofList (p.written m)
      let source := String.ofList (trim body)
      match dispatch functions context id source with
      | .ok result => .succeeded ⟨result, written, placeholderName id⟩
      | .error e => .failed written ⟨e, source⟩

/-- What the pieces of a text become.  `place` is the place of the first one. -/
def outcomesFrom (functions : FunctionTable) (context : Context) (m : Markers) (fresh : Fresh)
    (place : Nat) : List Piece → List Outcome
  | [] => []
  | p :: ps =>
      p.outcome functions context m (fresh.below place).here ::
        outcomesFrom functions context m fresh (place + 1) ps

/-- Process the spans of a text. -/
def process (functions : FunctionTable) (context : Context) (m : Markers) (fresh : Fresh)
    (text : String) : Processed :=
  let outcomes := outcomesFrom functions context m fresh 0 (splitSpans m text.toList)
  { text := String.join (outcomes.map Outcome.text)
    segments := outcomes.filterMap Outcome.segment?
    errors := outcomes.filterMap Outcome.error? }

namespace Processed

/-- The markup that each placeholder stands for. -/
def placeholders (p : Processed) : NameMap String :=
  .ofList (p.segments.map fun s => (s.placeholder, s.result.markup))

/-- The resources of all calls, in order. -/
def resources (p : Processed) : List String := p.segments.flatMap fun s => s.result.resources

/-- The processed text, if no call failed. -/
def result (p : Processed) : Except (List SpanError) Processed :=
  if p.errors.isEmpty then .ok p else .error p.errors

end Processed

end PageLoom
