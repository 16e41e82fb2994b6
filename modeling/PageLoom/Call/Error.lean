import PageLoom.Call.Parser
import PageLoom.Value.Basic

/-!
# Errors of a call

A call fails when its text is no call, when a name or an attribute it mentions
is missing, when its function is unknown, or when the function refuses it.
-/

namespace PageLoom

/-- What a function asks of an argument. -/
inductive ArgumentShape
  | string | number | bool | list | numbers
deriving DecidableEq, Repr

/-- The wording of a shape. -/
def ArgumentShape.text : ArgumentShape → String
  | .string => "string"
  | .number => "number"
  | .bool => "bool"
  | .list => "list"
  | .numbers => "list of numbers"

/-- Why a function refuses a call. -/
inductive FunctionError
  /-- An argument it needs is missing. -/
  | missing (argument : String)
  /-- An argument has the wrong type. -/
  | mismatch (argument : String) (expected : ArgumentShape) (found : ValueType)
  /-- A reason of its own. -/
  | custom (message : String)
  /-- An error of something it relies on. -/
  | host (message : String)
deriving DecidableEq, Repr

/-- The message of a refusal. -/
def FunctionError.message : FunctionError → String
  | .missing argument => "missing argument `" ++ argument ++ "`"
  | .mismatch argument expected found =>
      "argument `" ++ argument ++ "` must be " ++ expected.text ++ ", got " ++ found.name
  | .custom message => message
  | .host message => message

/-- Why a call fails. -/
inductive CallError
  | syntaxError (e : SyntaxError)
  | variableNotFound (name : String)
  | attributeNotFound (path attr : String)
  | functionNotFound (function : String)
  | failed (function : String) (e : FunctionError)
deriving DecidableEq, Repr

/-- The message of a syntax error. -/
def SyntaxError.message (e : SyntaxError) : String :=
  "syntax error at offset " ++ toString e.offset ++ ": " ++ e.cause.message

/-- The message of a failure. -/
def CallError.message : CallError → String
  | .syntaxError e => e.message
  | .variableNotFound name => "variable `" ++ name ++ "` not found in context"
  | .attributeNotFound path attr => "`" ++ path ++ "` has no attribute `" ++ attr ++ "`"
  | .functionNotFound function => "function `" ++ function ++ "` not found"
  | .failed function e => "`" ++ function ++ "` failed: " ++ e.message

end PageLoom
