import Mathlib.Data.Int.Order.Basic
import Mathlib.Data.String.Basic
import NextRole.Analytics.Transforms
import NextRole.Api.Store
import NextRole.Lib.Incremental
import NextRole.Lib.Transition

/-!
# The extraction of the runtime's tables

`dlt_sources/app_source.py`: five resources over the tables `run`, `thread`, `checkpoints` and
`store` are loaded into the warehouse by a cursor, while transactions write these tables.  The
column `updated_at` is the start of the transaction that writes it; a statement that does not
set it leaves what the row has.  A checkpoint carries the time that its client gave it.

## Main definitions

* `runResource`, `threadResource`, `messageResource`, `checkpointMetaResource`,
  `storeItemResource` — the resources.
* `SourceTables`, `SourceWrite`, `SourceTxn` — the tables and their writers.
* `Extraction`, `extraction` — the machine of writers and loads.
* `Extraction.loadAll` — a run of the pipeline.
-/

namespace NextRole

/-! ### Resources -/

/-- A row of `store` with its timestamps. -/
structure StoreRow where
  item : StoreItem
  createdAt : Timestamp := 0
  updatedAt : Timestamp := 0
  deriving DecidableEq

instance : Keyed StoreRow (List Char × String) := ⟨fun row => (row.item.text, row.item.key)⟩

/-- A row of `raw_app.store_item`. -/
structure WarehouseItem where
  text : List Char
  key : String
  createdAt : Timestamp
  updatedAt : Timestamp
  valueLength : ℕ
  deriving DecidableEq

/-- The columns of `_STORE_SQL_FULL`. -/
def shapeItem (row : StoreRow) : WarehouseItem where
  text := row.item.text
  key := row.item.key
  createdAt := row.createdAt
  updatedAt := row.updatedAt
  valueLength := row.item.value.render.length

def runResource : Extractor Run Uuid WarehouseRun Timestamp :=
  .ofRows (fun row => some row.updatedAt) shapeRun

def threadResource : Extractor Thread Uuid WarehouseThread Timestamp :=
  .ofRows (fun row => some row.updatedAt) shapeThread

/-- `_message_resource`: the rows of a thread's messages, with the cursor of the thread. -/
def messageResource : Extractor Thread (Uuid × ℕ) (WarehouseMessage × Timestamp) Timestamp where
  cursor row := some row.updatedAt
  shape row :=
    (explodeMessages row.threadId (row.values.bind fun values => values.get? "messages")).map
      fun messages => messages.map fun m => ((m.threadId, m.messageIndex), (m, row.updatedAt))

def checkpointMetaResource :
    Extractor Checkpoint (Uuid × String × Uuid) WarehouseCheckpoint String :=
  .ofRows (fun row => row.checkpoint.text? "ts") shapeCheckpointMeta

def storeItemResource : Extractor StoreRow (List Char × String) WarehouseItem Timestamp :=
  .ofRows (fun row => some row.updatedAt) fun row => some (shapeItem row)

/-- The resources of `nextrole_app_source` over the tables that have writers here. -/
inductive AppResource
  | run | thread | message | checkpointMeta | storeItem
  deriving DecidableEq

/-! ### Writers -/

/-- The tables that are extracted. -/
structure SourceTables where
  run : Table Run := .empty
  thread : Table Thread := .empty
  checkpoints : Table Checkpoint := .empty
  store : Table StoreRow := .empty

/-- A statement writes or deletes a row. -/
inductive SourceWrite
  | putRun (row : Run)
  | delRun (runId : Uuid)
  | putThread (row : Thread)
  | delThread (threadId : Uuid)
  | putCheckpoint (row : Checkpoint)
  | delCheckpoint (key : Uuid × String × Uuid)
  | putStore (row : StoreRow)
  | delStore (key : List Char × String)

namespace SourceTables

def apply (source : SourceTables) : SourceWrite → SourceTables
  | .putRun row => { source with run := source.run.put row }
  | .delRun runId => { source with run := source.run.erase runId }
  | .putThread row => { source with thread := source.thread.put row }
  | .delThread threadId => { source with thread := source.thread.erase threadId }
  | .putCheckpoint row => { source with checkpoints := source.checkpoints.put row }
  | .delCheckpoint key => { source with checkpoints := source.checkpoints.erase key }
  | .putStore row => { source with store := source.store.put row }
  | .delStore key => { source with store := source.store.erase key }

/-- The column `updated_at` of the row that a statement writes, if there is one. -/
def updatedAt? (source : SourceTables) : SourceWrite → Option Timestamp
  | .putRun row => (source.run.get? row.runId).map Run.updatedAt
  | .putThread row => (source.thread.get? row.threadId).map Thread.updatedAt
  | .putStore row => (source.store.get? (Keyed.key row)).map StoreRow.updatedAt
  | _ => none

end SourceTables

/-- The statement with a value for `updated_at`; checkpoints have no such column. -/
def SourceWrite.stamp (updatedAt : Timestamp) : SourceWrite → SourceWrite
  | .putRun row => .putRun { row with updatedAt := updatedAt }
  | .putThread row => .putThread { row with updatedAt := updatedAt }
  | .putStore row => .putStore { row with updatedAt := updatedAt }
  | w => w

/-- A transaction: its start, and its statements so far. -/
structure SourceTxn where
  start : Timestamp
  writes : List SourceWrite := []

/-! ### The machine -/

/-- The tables, the open transactions, and what the loads of each resource have left. -/
structure Extraction where
  source : SourceTables := {}
  openTxns : Dict ℕ SourceTxn := {}
  run : Extracted Uuid WarehouseRun Timestamp := {}
  thread : Extracted Uuid WarehouseThread Timestamp := {}
  message : Extracted (Uuid × ℕ) (WarehouseMessage × Timestamp) Timestamp := {}
  checkpointMeta : Extracted (Uuid × String × Uuid) WarehouseCheckpoint String := {}
  storeItem : Extracted (List Char × String) WarehouseItem Timestamp := {}

/-- What writers and loads do. -/
inductive ExtractionAction
  | start (txn : ℕ) (now : Timestamp)
  /-- A statement; `touches` says whether it sets `updated_at = now()`. -/
  | write (txn : ℕ) (w : SourceWrite) (touches : Bool)
  | commit (txn : ℕ)
  | rollback (txn : ℕ)
  | load (resource : AppResource)

namespace Extraction

variable (s : Extraction)

/-- A load of one resource. -/
def load : AppResource → Extraction
  | .run => { s with run := runResource.load s.source.run.rows s.run }
  | .thread => { s with thread := threadResource.load s.source.thread.rows s.thread }
  | .message => { s with message := messageResource.load s.source.thread.rows s.message }
  | .checkpointMeta =>
    { s with
      checkpointMeta :=
        checkpointMetaResource.load s.source.checkpoints.rows s.checkpointMeta }
  | .storeItem => { s with storeItem := storeItemResource.load s.source.store.rows s.storeItem }

/-- A run of the pipeline loads every resource. -/
def loadAll : Extraction :=
  [.run, .thread, .message, .checkpointMeta, .storeItem].foldl load s

/-- A statement of a transaction. -/
def write (txn : ℕ) (w : SourceWrite) (touches : Bool) : Option Extraction :=
  (s.openTxns.get? txn).map fun t =>
    let updatedAt := if touches then t.start else (s.source.updatedAt? w).getD t.start
    { s with openTxns := s.openTxns.set txn { t with writes := t.writes ++ [w.stamp updatedAt] } }

/-- A transaction commits. -/
def commit (txn : ℕ) : Option Extraction :=
  (s.openTxns.get? txn).map fun t =>
    { s with
      source := t.writes.foldl SourceTables.apply s.source
      openTxns := s.openTxns.erase txn }

end Extraction

/-- Writers and loads in any order, from empty tables on. -/
def extraction : Machine Extraction ExtractionAction where
  init s := s = {}
  step s
    | .start txn now =>
      if (s.openTxns.get? txn).isSome then none
      else some { s with openTxns := s.openTxns.set txn { start := now } }
    | .write txn w touches => s.write txn w touches
    | .commit txn => s.commit txn
    | .rollback txn => some { s with openTxns := s.openTxns.erase txn }
    | .load resource => some (s.load resource)

end NextRole
