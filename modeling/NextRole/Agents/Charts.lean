import NextRole.Agents.ObjectStorage
import NextRole.Lib.Grouping

/-!
# Charts of query results

`analytics_agent/charts.py`: the column mapping of a chart and its check, the traces and the
matrix that are drawn of the rows, and the path at which a chart is stored.

Plotly keeps the lists that a trace is given.  The values of the rows are objects of Python; of
these the code reads whether one is `None`, its text, and as which key a dictionary takes it.

## Main definitions

* `slugify`, `chartPath` — the path of a chart.
* `ChartSpec`, `ChartData`, `validateMapping` — the mapping of columns.
* `Cells` — what is read of a value.
* `grouped`, `distributions`, `traces`, `pivot`, `grid`, `buildFigure` — what is drawn.
-/

namespace NextRole

/-! ### Paths -/

/-- `str.lower` of one character, for the texts that keep `a` to `z` and digits alone: what other
characters become holds none of them. -/
def slugLower (c : Char) : List Char :=
  if c.toNat = 0x130 then ['i', Char.ofNat 0x307]
  else if c.toNat = 0x212A then ['k']
  else [c.toLower]

/-- A character that `_SLUG_STRIP` does not match. -/
def isSlugChar (c : Char) : Bool := ('a' ≤ c && c ≤ 'z') || ('0' ≤ c && c ≤ '9')

/-- `_SLUG_STRIP.sub("-", text)`: each run of other characters becomes a dash. -/
def stripRuns : List Char → List Char
  | [] => []
  | c :: cs =>
    if isSlugChar c then c :: stripRuns cs
    else
      match stripRuns cs with
      | '-' :: rest => '-' :: rest
      | rest => '-' :: rest

/-- `str.strip("-")`. -/
def stripDashes (l : List Char) : List Char :=
  (l.rdropWhile fun c => c = '-').dropWhile fun c => c = '-'

/-- `slugify`. -/
def slugify (text : String) : String :=
  let lowered := (strip text).toList.flatMap slugLower
  let slug := stripDashes ((stripDashes (stripRuns lowered)).take 60)
  if slug = [] then "chart" else String.ofList slug

/-! ### The mapping of columns -/

/-- `ChartKind`. -/
inductive ChartKind
  | line | bar | area | scatter | pie | histogram | heatmap | table | kpi | box | violin | contour
  | histogram2d
  deriving Repr, DecidableEq

/-- The text of a kind. -/
def ChartKind.text : ChartKind → String
  | line => "line"
  | bar => "bar"
  | area => "area"
  | scatter => "scatter"
  | pie => "pie"
  | histogram => "histogram"
  | heatmap => "heatmap"
  | table => "table"
  | kpi => "kpi"
  | box => "box"
  | violin => "violin"
  | contour => "contour"
  | histogram2d => "histogram2d"

/-- `FIGURE_KINDS`. -/
def ChartKind.isFigure (kind : ChartKind) : Bool := kind ≠ .table && kind ≠ .kpi

/-- `DISTRIBUTION_KINDS`. -/
def ChartKind.isDistribution (kind : ChartKind) : Bool := kind = .box || kind = .violin

/-- `GRID_KINDS`. -/
def ChartKind.isGrid (kind : ChartKind) : Bool := kind = .heatmap || kind = .contour

/-- `ChartSpec`; `y` is one column or a list of columns. -/
structure ChartSpec where
  kind : ChartKind
  title : String
  x : Option String := none
  y : Option (String ⊕ List String) := none
  series : Option String := none
  z : Option String := none
  stacked : Bool := false
  orientation : String := "v"
  slug : String := ""

/-- `ChartSpec.y_columns`. -/
def ChartSpec.yColumns (spec : ChartSpec) : List String :=
  match spec.y with
  | none => []
  | some (.inl y) => [y]
  | some (.inr ys) => ys

/-- A column that is set: an empty text counts as none. -/
def setColumn (column : Option String) : Option String := column.filter fun c => c ≠ ""

/-- `ChartData`: the rows of a result are as long as the list of its columns. -/
structure ChartData (V : Type) where
  columns : List String
  rows : List (List V)
  length_eq : ∀ row ∈ rows, row.length = columns.length

/-- `ChartData.index`; a column that is not there raises. -/
def ChartData.index {V : Type} (data : ChartData V) (column : String) : Option ℕ :=
  data.columns.idxOf? column

/-- The fields that a kind may require. -/
inductive ChartField
  | x | y | series
  deriving Repr, DecidableEq

/-- `_REQUIREMENTS`. -/
def ChartKind.requirements : ChartKind → List ChartField × String
  | .table => ([], "")
  | .kpi => ([.y], "a kpi needs `y` (the column holding the number)")
  | .histogram => ([.x], "a histogram needs `x` (the column to bin)")
  | .heatmap =>
    ([.x, .series, .y], "a heatmap needs `x` (columns), `series` (rows) and `y` (the value)")
  | .contour =>
    ([.x, .series, .y], "a contour needs `x` (columns), `series` (rows) and `y` (the value)")
  | .histogram2d =>
    ([.x, .y], "a 2D histogram needs `x` and `y` (the two columns to bin together)")
  | .box => ([.y], "a box plot needs `y` (the column of observations); `x` optionally groups them")
  | .violin =>
    ([.y], "a violin plot needs `y` (the column of observations); `x` optionally groups them")
  | .pie => ([.x, .y], "a pie needs `x` (the labels) and one `y` (the values)")
  | .line => ([.x, .y], "a line chart needs `x` and `y`")
  | .area => ([.x, .y], "an area chart needs `x` and `y`")
  | .bar => ([.x, .y], "a bar chart needs `x` and `y`")
  | .scatter => ([.x, .y], "a scatter chart needs `x` and `y`")

/-- Whether a field is set. -/
def ChartSpec.present (spec : ChartSpec) : ChartField → Bool
  | .x => (setColumn spec.x).isSome
  | .y => spec.yColumns ≠ []
  | .series => (setColumn spec.series).isSome

/-- `_missing_requirement`. -/
def missingRequirement (spec : ChartSpec) : Option String :=
  if spec.kind.requirements.1.any fun field => !spec.present field then some spec.kind.requirements.2
  else none

/-- `_conflicting_mapping`. -/
def conflictingMapping (spec : ChartSpec) : Option String :=
  if (spec.kind = .pie || spec.kind = .histogram2d || spec.kind.isGrid) &&
      spec.yColumns.length ≠ 1 then
    some ("Error: a " ++ spec.kind.text ++ " takes exactly one `y` column.")
  else if (setColumn spec.series).isSome && 1 < spec.yColumns.length then
    some ("Error: use either `series` (one column split into traces) or several `y` " ++
      "columns, not both.")
  else none

/-- Columns between backquotes. -/
def quotedColumns (columns : List String) : String :=
  ", ".intercalate (columns.map fun c => "`" ++ c ++ "`")

/-- The columns that a mapping names. -/
def ChartSpec.referenced (spec : ChartSpec) : List String :=
  ([spec.x, spec.series, spec.z] ++ spec.yColumns.map some).filterMap setColumn

/-- `validate_mapping`: an error, or none. -/
def validateMapping {V : Type} (spec : ChartSpec) (data : ChartData V) : Option String :=
  if data.columns = [] then
    some "Error: the query returned no columns, so there is nothing to plot."
  else
    let available := quotedColumns data.columns
    let missing := (spec.referenced.filter fun c => c ∉ data.columns).eraseDups
    if missing ≠ [] then
      some ("Error: column(s) " ++ quotedColumns missing ++ " are not in the result. Available: " ++
        available ++ ".")
    else
      match missingRequirement spec with
      | some shapeError => some ("Error: " ++ shapeError ++ ". Available: " ++ available ++ ".")
      | none => conflictingMapping spec

/-! ### Values -/

/-- What the code reads of a value: whether it is `None`, `str` of it, and the key as which a
dictionary takes it, if it can be hashed.  Two values are one key if they are one object or equal. -/
structure Cells (V K : Type) where
  null : V
  text : V → String
  key : V → K
  hashable : V → Bool

/-- `row[position]`. -/
def Cells.cell {V K : Type} (cells : Cells V K) (row : List V) (position : ℕ) : V :=
  row.getD position cells.null

/-- The label of a series: `"∅" if value is None else str(value)`. -/
def Cells.label {V K : Type} [DecidableEq V] (cells : Cells V K) (value : V) : String :=
  if value = cells.null then "∅" else cells.text value

/-- `ChartData.values`. -/
def ChartData.values {V K : Type} (data : ChartData V) (cells : Cells V K) (column : String) :
    Option (List V) :=
  (data.index column).map fun position => data.rows.map fun row => cells.cell row position

/-! ### Traces -/

/-- The class of a trace, with the arguments that are not values. -/
inductive TraceType
  | scatter (mode : String) (fill stackgroup : Option String)
  | bar (orientation : String)
  | box | violin | histogram | histogram2d | pie
  deriving Repr, DecidableEq

/-- A trace; the labels and the values of a pie stand as `x` and `y`. -/
structure Trace (V : Type) where
  type : TraceType
  name : Option String := none
  x : Option (List V) := none
  y : Option (List V) := none
  deriving DecidableEq

section Traces

variable {V K : Type} [DecidableEq V] (cells : Cells V K)

/-- The loop of `_grouped` and `_distributions` over the rows, whose `x` may not be set. -/
def collect (label : List V → String) (x : Option (List V → V)) (y : List V → V)
    (rows : List (List V)) : Dict String (List V × List V) :=
  rows.foldl (fun groups row =>
    let (xs, ys) := (groups.get? (label row)).getD ([], [])
    groups.set (label row) (xs ++ (x.map fun f => f row).toList, ys ++ [y row])) {}

/-- `_grouped`. -/
def grouped (data : ChartData V) (spec : ChartSpec) :
    Option (List (String × List V × List V)) := do
  let yColumn ← spec.yColumns.head?
  match setColumn spec.series with
  | none =>
    spec.yColumns.mapM fun y => do
      some (y, ← data.values cells ((setColumn spec.x).getD y), ← data.values cells y)
  | some series =>
    let xIndex ← data.index (spec.x.getD "")
    let yIndex ← data.index yColumn
    let seriesIndex ← data.index series
    let groups := collect (fun row => cells.label (cells.cell row seriesIndex))
      (some fun row => cells.cell row xIndex) (fun row => cells.cell row yIndex) data.rows
    some (groups.entries.map fun (label, xs, ys) => (label, xs, ys))

/-- The position of a column, if one is set. -/
def ChartData.indexIfSet (data : ChartData V) : Option String → Option (Option ℕ)
  | none => some none
  | some column => (data.index column).map some

/-- `_distributions`. -/
def distributions (spec : ChartSpec) (data : ChartData V) : Option (List (Trace V)) := do
  let trace (name : String) (xs : Option (List V)) (ys : List V) : Trace V :=
    { type := if spec.kind = .violin then .violin else .box, name := some name, x := xs, y := some ys }
  let xIndex ← data.indexIfSet (setColumn spec.x)
  match setColumn spec.series with
  | none =>
    let xs := xIndex.map fun position => data.rows.map fun row => cells.cell row position
    spec.yColumns.mapM fun y => do some (trace y xs (← data.values cells y))
  | some series =>
    let yIndex ← data.index (← spec.yColumns.head?)
    let seriesIndex ← data.index series
    let groups := collect (fun row => cells.label (cells.cell row seriesIndex))
      (xIndex.map fun position row => cells.cell row position) (fun row => cells.cell row yIndex)
      data.rows
    some (groups.entries.map fun (label, xs, ys) =>
      trace label (if xs = [] then none else some xs) ys)

/-- The type of a trace of `_traces`. -/
def traceType (spec : ChartSpec) : TraceType :=
  match spec.kind with
  | .bar => .bar spec.orientation
  | .scatter => .scatter "markers" none none
  | .area =>
    .scatter "lines" (some (if spec.stacked then "tonexty" else "tozeroy"))
      (if spec.stacked then some "one" else none)
  | _ => .scatter "lines+markers" none none

/-- `_traces`. -/
def traces (spec : ChartSpec) (data : ChartData V) : Option (List (Trace V)) :=
  match spec.kind with
  | .histogram => do
    let xs ← data.values cells (spec.x.getD "")
    some [{ type := .histogram, name := some (spec.x.getD ""), x := some xs }]
  | .histogram2d => do
    let xs ← data.values cells (spec.x.getD "")
    let ys ← data.values cells (← spec.yColumns.head?)
    some [{ type := .histogram2d, x := some xs, y := some ys }]
  | .box | .violin => distributions cells spec data
  | .pie => do
    let xs ← data.values cells (spec.x.getD "")
    let ys ← data.values cells (← spec.yColumns.head?)
    some [{ type := .pie, x := some xs, y := some ys }]
  | _ => do
    let groups ← grouped cells data spec
    some (groups.map fun (label, xs, ys) =>
      { type := traceType spec, name := some label, x := some xs, y := some ys })

end Traces

/-! ### Matrices -/

section Grids

variable {V K : Type} [DecidableEq K] (cells : Cells V K)

/-- `list(dict.fromkeys(values))`: the first value of each key. -/
def fromKeys (values : List V) : List V :=
  (values.foldl (fun (d : Dict K V) v =>
    if (d.get? (cells.key v)).isSome then d else d.set (cells.key v) v) {}).values

/-- The values of the axes and the cells of a matrix. -/
structure Pivot (V : Type) where
  xValues : List V
  rows : List V
  z : List (List V)

/-- The first part of `_grid`.  A value that cannot be hashed raises. -/
def pivot (spec : ChartSpec) (data : ChartData V) : Option (Pivot V) := do
  let xIndex ← data.index (spec.x.getD "")
  let seriesIndex ← data.index (spec.series.getD "")
  let xs := data.rows.map fun row => cells.cell row xIndex
  let series := data.rows.map fun row => cells.cell row seriesIndex
  if (xs ++ series).all cells.hashable then
    let xValues := fromKeys cells xs
    let rows := fromKeys cells series
    let lookup ← data.rows.foldlM (fun (lookup : Dict (K × K) V) row => do
      let yIndex ← data.index (← spec.yColumns.head?)
      some (lookup.set (cells.key (cells.cell row xIndex), cells.key (cells.cell row seriesIndex))
        (cells.cell row yIndex))) {}
    some {
      xValues, rows
      z := rows.map fun row => xValues.map fun x =>
        (lookup.get? (cells.key x, cells.key row)).getD cells.null }
  else none

/-- The labels of an axis: texts, or the values. -/
inductive GridAxis (V : Type)
  | text (labels : List String)
  | raw (values : List V)

/-- `go.Heatmap` and `go.Contour`. -/
structure Grid (V : Type) where
  x : GridAxis V
  y : GridAxis V
  z : List (List V)

/-- `_grid`. -/
def grid (spec : ChartSpec) (data : ChartData V) : Option (Grid V) := do
  let p ← pivot cells spec data
  if spec.kind = .contour then some { x := .raw p.xValues, y := .raw p.rows, z := p.z }
  else
    some { x := .text (p.xValues.map cells.text), y := .text (p.rows.map cells.text), z := p.z }

/-- The data of a figure. -/
inductive Figure (V : Type)
  | grid (g : Grid V)
  | traces (ts : List (Trace V))

/-- `build_figure`. -/
def buildFigure [DecidableEq V] (spec : ChartSpec) (data : ChartData V) : Option (Figure V) :=
  if spec.kind.isGrid then (grid cells spec data).map .grid
  else (traces cells spec data).map .traces

end Grids

/-- `chart_path`. -/
def chartPath (threadId : String) (spec : ChartSpec) : String :=
  "/charts/" ++ threadId ++ "/" ++ (if spec.slug = "" then slugify spec.title else spec.slug) ++
    ".plotly.json"

end NextRole
