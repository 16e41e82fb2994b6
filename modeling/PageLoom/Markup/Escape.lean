/-!
# Escaping

Text and attribute values are written with the five predefined entities for the
characters `<`, `>`, `&` and the two quotes.
-/

namespace PageLoom

/-- How a character of a text is written in markup. -/
def escapeChar (c : Char) : List Char :=
  match c with
  | '<' => ['&', 'l', 't', ';']
  | '>' => ['&', 'g', 't', ';']
  | '&' => ['&', 'a', 'm', 'p', ';']
  | '\'' => ['&', 'a', 'p', 'o', 's', ';']
  | '"' => ['&', 'q', 'u', 'o', 't', ';']
  | c => [c]

/-- A text as it is written in markup. -/
def escape (s : String) : String := String.ofList (s.toList.flatMap escapeChar)

/-- No escaped text has a bracket or a quote. -/
theorem not_mem_escapeChar (c d : Char) (h : d = '<' ∨ d = '>' ∨ d = '"' ∨ d = '\'') :
    d ∉ escapeChar c := by
  unfold escapeChar
  rcases h with rfl | rfl | rfl | rfl <;> split <;> simp_all [eq_comm]

end PageLoom
