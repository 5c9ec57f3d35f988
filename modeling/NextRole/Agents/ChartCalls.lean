import NextRole.Agents.Charts
import NextRole.Agents.ObjectBackend
import NextRole.Agents.Scratch

/-!
# Calls that draw charts

`create_chart` in `analytics_agent/tools.py`: a call prepares the envelope of a chart and writes it
to a path of the thread, which it returns.  The warehouse and the drawing decide whether there is an
envelope; the path is made of the title and of the slug that is passed.

## Main definitions

* `ChartCall`, `specOf` — what is passed to a call.
* `chartsRoute` — the path that the backend of the charts sees.
* `draw`, `drawAll` — a call, and calls of one thread.
-/

namespace NextRole

/-- A call of `create_chart`, and its envelope or why there is none. -/
structure ChartCall where
  kind : ChartKind
  title : String
  x : Option String := none
  y : Option (String ⊕ List String) := none
  series : Option String := none
  z : Option String := none
  stacked : Bool := false
  slug : Option String := none
  prepared : Except String String

/-- The slug that is passed; an empty text counts as none. -/
def ChartCall.givenSlug (call : ChartCall) : Option String := call.slug.filter fun s => s ≠ ""

/-- `spec_of`. -/
def ChartCall.specOf (call : ChartCall) : ChartSpec where
  kind := call.kind
  title := call.title
  x := call.x
  y := call.y
  series := call.series
  z := call.z
  stacked := call.stacked
  slug := (call.givenSlug.map slugify).getD ""

/-- The path without the prefix of the route `/charts/`, which the composite backend strips. -/
def chartsRoute (path : String) : String :=
  if startsWith path "/charts/" then dropText 7 path else path

/-- Why a chart is not stored. -/
inductive ChartError
  | prepare (text : String)
  | save (error : ObjectError)
  deriving Repr, DecidableEq

/-- The texts of the errors, with what `repr` makes of a path. -/
def ChartError.text (repr : String → String) : ChartError → String
  | .prepare text => text
  | .save error => "Error: the chart could not be saved: " ++ error.text repr

/-- `draw`, with the path of its answer. -/
def draw (b : ObjectBackend) (threadId : String) (store : Objects) (call : ChartCall) :
    Except ChartError String × Objects :=
  match call.prepared with
  | .error e => (.error (.prepare e), store)
  | .ok envelope =>
    let path := chartPath threadId call.specOf
    match b.write store (chartsRoute path) envelope with
    | (.error e, store) => (.error (.save e), store)
    | (.ok _, store) => (.ok path, store)

/-- The objects after calls. -/
def drawAll (b : ObjectBackend) (threadId : String) (start : Objects) (calls : List ChartCall) :
    Objects :=
  calls.foldl (fun store call => (draw b threadId store call).2) start

end NextRole
