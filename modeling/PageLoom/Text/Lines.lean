/-!
# Lines

A line ends with a newline, which a carriage return may precede; both belong to
no line.  The text after the last newline is a line of its own unless it is
empty, and keeps a carriage return it ends with.
-/

namespace PageLoom

/-- Split after every newline.  Each piece but the last keeps its newline. -/
def splitNewlines : List Char → List (List Char)
  | [] => []
  | c :: cs =>
      if c = '\n' then [c] :: splitNewlines cs
      else
        match splitNewlines cs with
        | [] => [[c]]
        | l :: ls => (c :: l) :: ls

/-- A piece without its newline and the carriage return before that. -/
def stripNewline (l : List Char) : List Char :=
  match l.reverse with
  | '\n' :: '\r' :: rest => rest.reverse
  | '\n' :: rest => rest.reverse
  | _ => l

/-- The lines of a text. -/
def linesOf (cs : List Char) : List (List Char) := (splitNewlines cs).map stripNewline

example : linesOf "a\r\n\nb\r".toList = ["a".toList, [], "b\r".toList] := by decide
example : linesOf "a\n".toList = ["a".toList] := by decide

end PageLoom
