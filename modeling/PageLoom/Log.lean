import PageLoom.Text.Bytes
import PageLoom.Text.Lines

/-!
# The log

What the program does is told in notes.  A note has a topic and a message, and every
line of the message becomes a line of the log, with the topic in brackets before it.
Lines are cut so that they fit the width of the log, as late as possible and between
two characters.
-/

namespace PageLoom

/-- The width of the log in bytes. -/
def logWidth : Nat := 120

/-- A note of what was done or what went wrong. -/
structure Note where
  topic : String
  message : String
deriving DecidableEq, Repr

namespace Note

/-- The bytes that are left for the message on each line. -/
def room (n : Note) : Nat := logWidth - (byteLength n.topic.toList + 3)

/-- The lines of a note in the log. -/
def lines (n : Note) : List String :=
  (linesOf n.message.toList).map fun line =>
    "[" ++ n.topic ++ "] " ++ String.ofList (takeBytes n.room line)

end Note

end PageLoom
