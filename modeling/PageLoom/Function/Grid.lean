import PageLoom.Function.Table
import PageLoom.Markup.Tag

/-!
# Tables

`table` makes a table of rows of cells.  The rows are lists, or a dictionary
whose keys head the rows.  Every cell shows the text of its value.
-/

namespace PageLoom.Grid

/-- A cell. -/
def cell (name : String) (v : Value) : Fragment := (Tag.withText { name := name } v.text).fragment

/-- A row of cells of one kind. -/
def row (name : String) (vs : List Value) : Fragment := nest "tr" [] (vs.map (cell name))

/-- A row for an entry of a dictionary. -/
def entryRow (e : Value × Value) : Fragment := nest "tr" [] [cell "th" e.1, cell "td" e.2]

/-- The rows of a list of lists.  `i` is the number of the first of them. -/
def rowsFrom (i : Nat) : List Value → Except FunctionError (List Fragment)
  | [] => .ok []
  | v :: vs =>
      match v.items? with
      | none => .error (.mismatch ("rows[" ++ toString i ++ "]") .list v.type)
      | some cells =>
          match rowsFrom (i + 1) vs with
          | .error e => .error e
          | .ok rows => .ok (row "td" cells :: rows)

/-- The caption, if there is one. -/
def caption (args : Arguments) : Except FunctionError (List Fragment) := do
  match ← args.string? "caption" with
  | some text => return [(Tag.withText { name := "caption" } text).fragment]
  | none => return []

/-- The header, if there is one. -/
def header (args : Arguments) : Except FunctionError (List Fragment) := do
  match args.get? "header" with
  | some _ => return [nest "thead" [] [row "th" (← args.items "header")]]
  | none => return []

/-- The rows. -/
def body (args : Arguments) : Except FunctionError (List Fragment) := do
  match ← args.require "rows" with
  | .dict entries => return entries.map entryRow
  | _ => rowsFrom 0 (← args.items "rows")

/-- A table of the given rows. -/
def table : Function := fun _ args => do
  let caption ← caption args
  let header ← header args
  let body ← body args
  return nest "table" [] (caption ++ header ++ [nest "tbody" [] body])

end PageLoom.Grid
