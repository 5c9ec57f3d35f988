import NextRole.Agents.Warehouse

/-!
# Results of queries

`run_readonly` and `render_table` in `analytics_agent/warehouse.py`, and `run_sql` in
`analytics_agent/tools.py`: a statement is sent with a limit for display, and what comes back is
shown as a table, with a summary above it and notices below it.

The server is given by the rows of a statement and by its cap.  The text of an answer is made of its
parts, which are kept apart here: what a cell says is not part of the summary.

## Main definitions

* `QueryResult`, `QueryOutcome` — what the server returns, and what is kept of it.
* `runReadonly` — one statement.
* `RenderedTable`, `renderTable` — a table with its summary and its notices.
* `SqlAnswer`, `runSql` — the answer of the tool.
-/

namespace NextRole

/-! ### Results -/

/-- The settings that are read here, with their defaults. -/
structure QueryCaps where
  displayRows : ℕ := 200
  serverMaxResultRows : ℕ := 10000

/-- A result of the server: a statement has columns. -/
structure QueryResult (V : Type) where
  columns : List String
  rows : List (List V)
  readRows : Option ℕ := none
  columns_ne_nil : columns ≠ []

/-- `QueryOutcome`, with the text of the elapsed seconds. -/
structure QueryOutcome (V : Type) where
  columns : List String
  rows : List (List V)
  elapsed : String
  readRows : Option ℕ
  limitInjected : Bool
  injectedLimit : Option ℕ
  serverCapped : Bool

/-- `run_readonly`, with the client and the elapsed time; an error of the client is the text of
`friendly_error`. -/
def runReadonly {V : Type} (wide : Char → Bool) (client : String → Except String (QueryResult V))
    (elapsed : String) (caps : QueryCaps) (sql : String) (displayLimit : Option ℕ) :
    Except String (QueryOutcome V) :=
  match classifyStatement sql with
  | some rejection => .error rejection
  | none =>
    let sent := sentBody wide sql displayLimit
    (client sent.1).map fun result =>
      { columns := result.columns
        rows := result.rows
        elapsed := elapsed
        readRows := result.readRows
        limitInjected := sent.2
        injectedLimit := if sent.2 then displayLimit else none
        serverCapped := caps.serverMaxResultRows ≤ result.rows.length }

/-! ### Tables -/

/-- Digits in groups of three from the right. -/
def groupThousands : List Char → List Char
  | a :: b :: c :: d :: digits => a :: b :: c :: ',' :: groupThousands (d :: digits)
  | digits => digits

/-- A number with commas between the thousands. -/
def withCommas (n : ℕ) : String :=
  String.ofList (groupThousands (toString n).toList.reverse).reverse

/-- A part of the summary. -/
inductive SummaryPart
  | rowCount (rows : ℕ)
  | showing (rows : ℕ)
  | elapsed (seconds : String)
  | scanned (rows : ℕ)
  deriving Repr, DecidableEq

/-- The text of a part. -/
def SummaryPart.text : SummaryPart → String
  | .rowCount rows => toString rows ++ " row(s)"
  | .showing rows => "showing " ++ toString rows
  | .elapsed seconds => seconds ++ "s"
  | .scanned rows => "scanned " ++ withCommas rows

/-- A notice below the table. -/
inductive TableNotice
  | limitReached (limit : ℕ)
  | serverCap (rows : ℕ)
  deriving Repr, DecidableEq

/-- The text of a notice. -/
def TableNotice.text : TableNotice → String
  | .limitReached limit =>
    "The query had no LIMIT, so " ++ toString limit ++ " was applied and " ++
      "reached — there are more rows. Aggregate, or set your own LIMIT."
  | .serverCap rows =>
    "The server's " ++ withCommas rows ++ "-row cap truncated this result. Aggregate or " ++
      "filter further; the numbers above are incomplete."

/-- What `render_table` makes of an outcome. -/
structure RenderedTable (V : Type) where
  summary : List SummaryPart
  columns : List String
  shown : List (List V)
  notices : List TableNotice

/-- `render_table`. -/
def renderTable {V : Type} (outcome : QueryOutcome V) (maxRows : ℕ) : RenderedTable V :=
  let shown := outcome.rows.take maxRows
  { summary :=
      [.rowCount outcome.rows.length] ++
        (if shown.length < outcome.rows.length then [.showing shown.length] else []) ++
          [.elapsed outcome.elapsed] ++ (outcome.readRows.map SummaryPart.scanned).toList
    columns := outcome.columns
    shown := shown
    notices :=
      (match outcome.injectedLimit with
        | some limit =>
          if outcome.limitInjected ∧ outcome.rows.length = limit then [.limitReached limit] else []
        | none => []) ++
      -- The number in the notice is a constant of the source.
      if outcome.serverCapped then [.serverCap 10000] else [] }

/-- `str.replace` of one character. -/
def replaceChar (c : Char) (new : String) (s : String) : String :=
  String.ofList (s.toList.flatMap fun a => if a = c then new.toList else [a])

/-- `_cell`; of a value that is not `None`, the text is `str` of it. -/
def tableCell (maxWidth : ℕ) : Option String → String
  | none => "∅"
  | some value =>
    let text := replaceChar '\n' " " (replaceChar '|' "\\|" value)
    if text.length ≤ maxWidth then text
    else String.ofList (text.toList.take (maxWidth - 1)) ++ "…"

/-- The text of a table. -/
def RenderedTable.text {V : Type} (str : V → Option String) (maxWidth : ℕ)
    (table : RenderedTable V) : String :=
  let header := " · ".intercalate (table.summary.map SummaryPart.text)
  let notices := table.notices.map TableNotice.text
  let row := fun cells : List String => "| " ++ " | ".intercalate cells ++ " |"
  let lines :=
    if table.columns = [] then header :: notices
    else if table.shown = [] then [header, "", "_No rows._"] ++ notices
    else [header, "", row table.columns, row (table.columns.map fun _ => "---")] ++
      table.shown.map (fun values => row (values.map fun v => tableCell maxWidth (str v))) ++
        if notices = [] then [] else "" :: notices
  "\n".intercalate lines

/-! ### The tool -/

/-- What the answer says about `save_as`. -/
inductive SavedResult
  | full (rows : ℕ) (path : String)
  | failed (error : String)
  deriving Repr, DecidableEq

/-- The answer of `run_sql` to a statement that ran. -/
structure SqlAnswer (V : Type) where
  rendered : RenderedTable V
  saved : Option SavedResult

/-- The text of an answer. -/
def SqlAnswer.text {V : Type} (str : V → Option String) (answer : SqlAnswer V) : String :=
  answer.rendered.text str 80 ++
    match answer.saved with
    | none => ""
    | some (.full rows path) =>
      "\n\nFull result (" ++ toString rows ++ " rows) saved to `" ++ path ++ "`."
    | some (.failed error) => "\n\nError: the result could not be saved: " ++ error

/-- `query` of `make_run_sql`, for a limit and a number of rows to show; `writeText` stores the
comma separated values in the scratch directory and returns the path. -/
def runSqlWith {V : Type} (wide : Char → Bool) (client : String → Except String (QueryResult V))
    (elapsed : String) (writeText : String → QueryOutcome V → Except String String)
    (caps : QueryCaps) (displayLimit maxRows : ℕ) (sql : String) (saveAs : Option String) :
    Except String (SqlAnswer V) :=
  let saveName := saveAs.filter fun s => s ≠ ""
  let limit := if saveName.isSome then none else some displayLimit
  (runReadonly wide client elapsed caps sql limit).map fun outcome =>
    { rendered := renderTable outcome maxRows
      saved := saveName.map fun name =>
        match writeText (safeSegment (some name) "result.csv") outcome with
        | .error e => .failed e
        | .ok path => .full outcome.rows.length path }

/-- `run_sql`: the rows for display are both the limit and the rows that are shown. -/
def runSql {V : Type} (wide : Char → Bool) (client : String → Except String (QueryResult V))
    (elapsed : String) (writeText : String → QueryOutcome V → Except String String)
    (caps : QueryCaps) (sql : String) (saveAs : Option String) : Except String (SqlAnswer V) :=
  runSqlWith wide client elapsed writeText caps caps.displayRows caps.displayRows sql saveAs

/-! ### The server -/

/-- What the server returns of the rows of a statement: the first ones, up to the limit that was
added and to its cap. -/
def QueryResult.returned {V : Type} (result : QueryResult V) (cap : ℕ) (limit : Option ℕ) :
    QueryResult V :=
  { result with rows := result.rows.take (limit.elim cap fun n => min n cap) }

end NextRole
