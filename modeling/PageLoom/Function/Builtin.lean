import PageLoom.Function.Chart
import PageLoom.Function.Grid

/-!
# Built-in functions

Every page can call `line`, `bar` and `table`.
-/

namespace PageLoom

/-- The functions of every page. -/
def FunctionTable.builtin : FunctionTable :=
  ((FunctionTable.empty.register "line" Chart.line).register "bar" Chart.bar).register
    "table" Grid.table

end PageLoom
