import PageLoom.Function.Table
import PageLoom.Text.Search
import PageLoom.Value.Json

/-!
# Charts

`line` and `bar` make a fragment with a sized box, a canvas in it, and a script
that draws the chart when the page has loaded.  The script holds the
configuration of the chart as one line of JSON.  In that line `</` is written
`<\/`, which JSON reads as the same text and which cannot end the script.
-/

namespace PageLoom.Chart

/-- The library that draws charts. -/
def library : String := "https://cdn.jsdelivr.net/npm/chart.js@4.4.1/dist/chart.umd.min.js"

/-- A finite number, or null. -/
def numberJson (x : Float) : Json := (Value.float x).toJson

/-- The legend and the title of a chart. -/
def plugins (title : Option String) : Json :=
  .object [
    ("legend", .object [("display", .bool false)]),
    ("title", .object [("display", .bool title.isSome), ("text", .str (title.getD ""))])]

/-- An axis with or without a label. -/
def axis : Option String → Json
  | some label => .object [("title", .object [("display", .bool true), ("text", .str label)])]
  | none => .object []

/-- The configuration of a line chart. -/
def lineConfig (x : List Json) (y : List Float) (title xLabel yLabel : Option String) : Json :=
  .object [
    ("type", .str "line"),
    ("data", .object [
      ("labels", .arr x),
      ("datasets", .arr [.object [
        ("label", .str (title.getD "")),
        ("data", .arr (y.map numberJson)),
        ("fill", .bool false)]])]),
    ("options", .object [
      ("maintainAspectRatio", .bool false),
      ("plugins", plugins title),
      ("scales", .object [("x", axis xLabel), ("y", axis yLabel)])])]

/-- The configuration of a bar chart.  The index axis runs along the bars' feet. -/
def barConfig (labels : List String) (values : List Float) (title : Option String)
    (vertical : Bool) : Json :=
  .object [
    ("type", .str "bar"),
    ("data", .object [
      ("labels", .arr (labels.map .str)),
      ("datasets", .arr [.object [
        ("label", .str (title.getD "")),
        ("data", .arr (values.map numberJson))]])]),
    ("options", .object [
      ("maintainAspectRatio", .bool false),
      ("indexAxis", .str (if vertical then "x" else "y")),
      ("plugins", plugins title)])]

/-- A configuration as it stands in a script. -/
def embedded (config : Json) : String :=
  String.ofList (replaceWord ['<', '/'] ['<', '\\', '/'] config.write.toList)

/-- The markup of a chart. -/
def markup (id : String) (width height : Float) (config : Json) : String :=
  "<div class=\"chart\" style=\"position:relative;width:" ++ Decimal.plain width ++
    "px;height:" ++ Decimal.plain height ++ "px\">\n" ++
  "<canvas id=\"chart_" ++ id ++ "\"></canvas>\n" ++
  "</div>\n" ++
  "<script>\n" ++
  "document.addEventListener(\"DOMContentLoaded\", function () \x7b\n" ++
  "new Chart(document.getElementById(\"chart_" ++ id ++ "\"), " ++ embedded config ++ ");\n" ++
  "\x7d);\n" ++
  "</script>"

/-- A chart of the size that the arguments ask for. -/
def embed (id : String) (args : Arguments) (config : Json) : Except FunctionError Fragment := do
  let width ← args.number? "width"
  let height ← args.number? "height"
  return ⟨markup id (width.getD 600) (height.getD 400) config, [library]⟩

/-- The points along the x axis: the items of `x`, or 0, 1, 2, … . -/
def xValues (args : Arguments) (count : Nat) : Except FunctionError (List Json) := do
  match args.get? "x" with
  | none => return (List.range count).map fun i => .int (Int64.ofNat i)
  | some _ =>
      let x ← args.items "x"
      if x.length ≠ count then
        throw (.custom
          ("`x` has " ++ toString x.length ++ " values but `y` has " ++ toString count))
      return x.map Value.toJson

/-- A line chart of the numbers `y`. -/
def line : Function := fun id args => do
  let y ← args.numbers "y"
  let x ← xValues args y.length
  let title ← args.string? "title"
  let xLabel ← args.string? "x_label"
  let yLabel ← args.string? "y_label"
  embed id args (lineConfig x y title xLabel yLabel)

/-- A bar chart of the numbers `values`, lying unless `vertical` is set. -/
def bar : Function := fun id args => do
  let labels ← args.labels "labels"
  let values ← args.numbers "values"
  if labels.length ≠ values.length then
    throw (.custom ("`labels` has " ++ toString labels.length ++ " entries but `values` has " ++
      toString values.length))
  let title ← args.string? "title"
  let vertical ← args.flag? "vertical"
  embed id args (barConfig labels values title (vertical.getD false))

end PageLoom.Chart
