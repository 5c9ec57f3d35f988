import Mathlib
import NextRole.Lib.Pages
import NextRole.Servicers.Assistants

/-!
# The searches of the services

`Search` of the thread, run, cron and assistant services: a filter, one `ORDER BY`
column, a limit and an offset.  How a database orders text and matches `ILIKE` is a
parameter.  Rows that tie on the column may come in any order, so a search is a relation
between the tables and the rows returned.

## Main definitions

* `Collation` — what the database decides about text.
* `SortValue`, `SortOrder.le` — the values of a sort column and their order.
* `SearchThreadsRequest`, `searchThreads`, and the same for runs, crons and assistants.
-/

namespace NextRole

/-! ### Sorting -/

/-- What the database decides about text: the order of a column, and `ILIKE`. -/
structure Collation (κ : Type*) where
  rank : String → κ
  ilike : String → String → Bool

/-- A value of a sort column. -/
inductive SortValue
  | text (s : String)
  | uuid (u : Uuid)
  | time (t : Timestamp)
  deriving DecidableEq

/-- `SortOrder`. -/
inductive SortOrder
  | desc | asc
  deriving DecidableEq

section

variable {κ : Type*}

/-- The place of a value in the ascending order of its column, with nulls last. -/
def Collation.key (c : Collation κ) : Option SortValue → WithTop (κ ⊕ₗ ℤ)
  | none => ⊤
  | some (.text s) => ((toLex (.inl (c.rank s)) : κ ⊕ₗ ℤ) : WithTop (κ ⊕ₗ ℤ))
  | some (.uuid u) => ((toLex (.inr (u : ℤ)) : κ ⊕ₗ ℤ) : WithTop (κ ⊕ₗ ℤ))
  | some (.time t) => ((toLex (.inr t) : κ ⊕ₗ ℤ) : WithTop (κ ⊕ₗ ℤ))

theorem Collation.key_uuid_inj {c : Collation κ} {u v : Uuid}
    (h : c.key (some (.uuid u)) = c.key (some (.uuid v))) : u = v := by
  have hlex : toLex (Sum.inr (u : ℤ) : κ ⊕ ℤ) = toLex (Sum.inr (v : ℤ)) := WithTop.coe_injective h
  have hcast : (u : ℤ) = v := Sum.inr_injective (toLex.injective hlex)
  exact_mod_cast hcast

variable [LinearOrder κ]

-- The order of the places in its computable form, from the order of `κ` and that of `ℤ`.
instance sortKeyLinearOrder : LinearOrder (WithTop (κ ⊕ₗ ℤ)) :=
  @WithTop.linearOrder _ (@Sum.Lex.linearOrder κ ℤ _ Int.instLinearOrder)

/-- `ORDER BY column direction`: whether a row may come before another. -/
def SortOrder.le {α : Type*} (c : Collation κ) (direction : SortOrder) (column : α → Option SortValue)
    (x y : α) : Prop :=
  match direction with
  | .asc => c.key (column x) ≤ c.key (column y)
  | .desc => c.key (column y) ≤ c.key (column x)

variable {α : Type*} {c : Collation κ} {direction : SortOrder} {column : α → Option SortValue}

instance : DecidableRel (SortOrder.le c direction column) := fun x y =>
  match direction with
  | .asc => LinearOrder.toDecidableLE (c.key (column x)) (c.key (column y))
  | .desc => LinearOrder.toDecidableLE (c.key (column y)) (c.key (column x))

instance : Std.Total (SortOrder.le c direction column) where
  total x y := by
    cases direction
    · exact le_total (c.key (column y)) (c.key (column x))
    · exact le_total (c.key (column x)) (c.key (column y))

instance : IsTrans α (SortOrder.le c direction column) where
  trans x y z hxy hyz := by
    cases direction
    · exact le_trans (b := c.key (column y)) hyz hxy
    · exact le_trans (b := c.key (column y)) hxy hyz

theorem SortOrder.key_eq_of_le {x y : α} (hxy : direction.le c column x y)
    (hyx : direction.le c column y x) : c.key (column x) = c.key (column y) := by
  cases direction
  · exact le_antisymm hyx hxy
  · exact le_antisymm hxy hyx

theorem SortOrder.le_of_eq {x y : α} (h : column x = column y) : direction.le c column x y := by
  cases direction
  · exact le_of_eq (congrArg c.key h.symm)
  · exact le_of_eq (congrArg c.key h)

end

/-! ### Conditions -/

/-- `column @> wanted`, where the request has it and it is not empty. -/
def containsIfSet (wanted : Option Json) (column : Option Json) : Bool :=
  !truthy wanted || (column.any fun j => wanted.all fun w => j.contains w)

/-- The value of a column is the one wanted, if any is. -/
def isIfSet {β : Type*} [DecidableEq β] (wanted : Option β) (value : β) : Bool :=
  wanted.all fun w => value = w

section

variable {κ : Type*} [LinearOrder κ]

/-! ### Threads -/

/-- The text of a status in `thread.status`. -/
def ThreadStatus.text : ThreadStatus → String
  | .idle => "idle"
  | .busy => "busy"
  | .interrupted => "interrupted"
  | .error => "error"

/-- `ThreadsSortBy`. -/
inductive ThreadsSortBy
  | unspecified | threadId | createdAt | updatedAt | status | stateUpdatedAt
  deriving DecidableEq

/-- `_SORT` of the thread service. -/
def ThreadsSortBy.column : ThreadsSortBy → Thread → Option SortValue
  | .unspecified, t => some (.time t.createdAt)
  | .threadId, t => some (.uuid t.threadId)
  | .createdAt, t => some (.time t.createdAt)
  | .updatedAt, t => some (.time t.updatedAt)
  | .status, t => some (.text t.status.text)
  | .stateUpdatedAt, t => t.stateUpdatedAt.map .time

/-- A request to search threads. -/
structure SearchThreadsRequest where
  metadataJson : Option Json := none
  valuesJson : Option Json := none
  status : Option ThreadStatus := none
  ids : List Uuid := []
  filters : List AuthFilter := []
  limit : Option ℕ := none
  offset : Option ℕ := none
  sortBy : ThreadsSortBy := .unspecified
  sortOrder : Option SortOrder := none

/-- The `WHERE` clause of `Threads.Search`. -/
def SearchThreadsRequest.matching (request : SearchThreadsRequest) (d : Database) : List Thread :=
  d.thread.select fun t =>
    containsIfSet request.metadataJson (some t.metadata) &&
      containsIfSet request.valuesJson t.values &&
      isIfSet request.status t.status &&
      (request.ids.isEmpty || request.ids.contains t.threadId) &&
      admits request.filters t.metadata

/-- The order of `Threads.Search`. -/
abbrev SearchThreadsRequest.le (c : Collation κ) (request : SearchThreadsRequest) :
    Thread → Thread → Prop :=
  (request.sortOrder.getD .desc).le c request.sortBy.column

/-- `Threads.Search`. -/
def searchThreads (c : Collation κ) (request : SearchThreadsRequest) (d : Database) :
    List Thread → Prop :=
  Pages.Returns (request.le c) (request.matching d) (request.offset.getD 0)
    (request.limit.getD 1000)

/-! ### Runs -/

/-- A request to search runs. -/
structure SearchRunsRequest where
  threadId : Uuid
  status : Option RunStatus := none
  filters : List AuthFilter := []
  limit : Option ℕ := none
  offset : Option ℕ := none

/-- The `WHERE` clause of `Runs.Search`. -/
def SearchRunsRequest.matching (request : SearchRunsRequest) (d : Database) : List Run :=
  d.run.select fun r =>
    r.threadId = request.threadId && isIfSet request.status r.status &&
      threadOwnerClause request.filters d.thread r.threadId

/-- `ORDER BY created_at DESC`. -/
abbrev runsLe (c : Collation κ) : Run → Run → Prop :=
  SortOrder.desc.le c fun r => some (.time r.createdAt)

/-- `Runs.Search`. -/
def searchRuns (c : Collation κ) (request : SearchRunsRequest) (d : Database) :
    List Run → Prop :=
  Pages.Returns (runsLe c) (request.matching d) (request.offset.getD 0) (request.limit.getD 10)

/-! ### Crons -/

/-- A row of `cron` with the columns that only the search reads. -/
structure CronRow extends Cron where
  createdAt : Timestamp := 0
  updatedAt : Timestamp := 0
  deriving DecidableEq

instance : Keyed CronRow Uuid := ⟨fun c => c.cronId⟩

/-- `CronsSortBy`. -/
inductive CronsSortBy
  | unspecified | cronId | assistantId | threadId | nextRunDate | endTime | createdAt | updatedAt
  deriving DecidableEq

/-- `_SORT` of the cron service. -/
def CronsSortBy.column : CronsSortBy → CronRow → Option SortValue
  | .unspecified, c => some (.time c.createdAt)
  | .cronId, c => some (.uuid c.cronId)
  | .assistantId, c => c.assistantId.map .uuid
  | .threadId, c => c.threadId.map .uuid
  | .nextRunDate, c => c.nextRunDate.map .time
  | .endTime, c => c.endTime.map .time
  | .createdAt, c => some (.time c.createdAt)
  | .updatedAt, c => some (.time c.updatedAt)

/-- A request to search crons. -/
structure SearchCronsRequest where
  assistantId : Option Uuid := none
  threadId : Option Uuid := none
  enabled : Option Bool := none
  metadataJson : Option Json := none
  filters : List AuthFilter := []
  limit : Option ℕ := none
  offset : Option ℕ := none
  sortBy : CronsSortBy := .unspecified
  sortOrder : SortOrder := .desc

/-- The `WHERE` clause of `Crons.Search`. -/
def SearchCronsRequest.matching (request : SearchCronsRequest) (crons : Table CronRow) :
    List CronRow :=
  crons.select fun c =>
    (request.assistantId.all fun id => c.assistantId = some id) &&
      (request.threadId.all fun id => c.threadId = some id) &&
      isIfSet request.enabled c.enabled &&
      containsIfSet request.metadataJson (some c.metadata) &&
      admits request.filters c.metadata

/-- The order of `Crons.Search`. -/
abbrev SearchCronsRequest.le (c : Collation κ) (request : SearchCronsRequest) :
    CronRow → CronRow → Prop :=
  request.sortOrder.le c request.sortBy.column

/-- `Crons.Search`. -/
def searchCrons (c : Collation κ) (request : SearchCronsRequest) (crons : Table CronRow) :
    List CronRow → Prop :=
  Pages.Returns (request.le c) (request.matching crons) (request.offset.getD 0)
    (request.limit.getD 1000)

/-! ### Assistants -/

/-- `AssistantsSortBy`. -/
inductive AssistantsSortBy
  | unspecified | assistantId | graphId | name | createdAt | updatedAt
  deriving DecidableEq

/-- `_sort_col` of the assistant service. -/
def AssistantsSortBy.column : AssistantsSortBy → AssistantRow → Option SortValue
  | .unspecified, a => some (.time a.createdAt)
  | .assistantId, a => some (.uuid a.assistantId)
  | .graphId, a => some (.text a.graphId)
  | .name, a => a.name.map .text
  | .createdAt, a => some (.time a.createdAt)
  | .updatedAt, a => some (.time a.updatedAt)

/-- A request to search assistants. -/
structure SearchAssistantsRequest where
  graphId : Option String := none
  name : Option String := none
  metadataJson : Option Json := none
  filters : List AuthFilter := []
  limit : Option ℕ := none
  offset : Option ℕ := none
  sortBy : Option AssistantsSortBy := none
  sortOrder : Option SortOrder := none

/-- The `WHERE` clause of `Assistants.Search`. -/
def SearchAssistantsRequest.matching (c : Collation κ) (graphs : Option (List String))
    (request : SearchAssistantsRequest) (s : AssistantTables) : List AssistantRow :=
  s.assistant.select fun a =>
    registered graphs a.graphId &&
      isIfSet request.graphId a.graphId &&
      (request.name.all fun name => a.name.any fun n => c.ilike n ("%" ++ name ++ "%")) &&
      containsIfSet request.metadataJson (some a.metadata) &&
      admits request.filters a.metadata

/-- The order of `Assistants.Search`. -/
abbrev SearchAssistantsRequest.le (c : Collation κ) (request : SearchAssistantsRequest) :
    AssistantRow → AssistantRow → Prop :=
  (request.sortOrder.getD .desc).le c (request.sortBy.getD .createdAt).column

/-- `Assistants.Search`. -/
def searchAssistants (c : Collation κ) (graphs : Option (List String))
    (request : SearchAssistantsRequest) (s : AssistantTables) : List AssistantRow → Prop :=
  Pages.Returns (request.le c) (request.matching c graphs s) (request.offset.getD 0)
    (request.limit.getD 1000)

end

end NextRole
