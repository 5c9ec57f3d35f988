import NextRole.Lib.ReadCommitted
import NextRole.Python

/-!
# The database schema

The tables of `storage/migrations/000001_init.up.sql` that the run and thread
services read and write, as rows with a primary key, and the database as a store
of rows.  Referential integrity is left to the services: the run and checkpoint
tables carry no foreign keys.

## Main definitions

* `Thread`, `Run`, `Cron`, `Checkpoint`, `CheckpointBlob`, `CheckpointWrite`,
  `Assistant` — the rows.
* `Database` — the tables.
* `Write` — replacing or removing one row.
-/

namespace NextRole

/-- A `uuid` column. -/
abbrev Uuid := ℕ

/-- The text form of a uuid. -/
def Uuid.text (u : Uuid) : String := toString u

/-- A `timestamp with time zone` column, in microseconds. -/
abbrev Timestamp := Int

/-- The values of `thread.status`. -/
inductive ThreadStatus
  | idle | busy | interrupted | error
  deriving Repr, DecidableEq

/-- The values of `run.status`. -/
inductive RunStatus
  | pending | running | error | success | timeout | interrupted | rollback
  deriving Repr, DecidableEq

/-- `status IN ('pending', 'running')`. -/
def RunStatus.inflight : RunStatus → Bool
  | pending | running => true
  | _ => false

/-- The values of `run.multitask_strategy`. -/
inductive MultitaskStrategy
  | reject | interrupt | rollback | enqueue
  deriving Repr, DecidableEq

/-! ### Rows -/

/-- A row of `assistant`. -/
structure Assistant where
  assistantId : Uuid
  graphId : String
  config : Json := .obj []
  metadata : Json := .obj []
  deriving Repr, DecidableEq

/-- A row of `thread`. -/
structure Thread where
  threadId : Uuid
  createdAt : Timestamp := 0
  updatedAt : Timestamp := 0
  metadata : Json := .obj []
  status : ThreadStatus := .idle
  config : Json := .obj []
  values : Option Json := none
  interrupts : Json := .obj []
  error : Option String := none
  stateUpdatedAt : Option Timestamp := none
  deriving Repr, DecidableEq

/-- A row of `run`. -/
structure Run where
  runId : Uuid
  threadId : Uuid
  assistantId : Uuid
  createdAt : Timestamp := 0
  updatedAt : Timestamp := 0
  metadata : Json := .obj []
  status : RunStatus := .pending
  kwargs : Json := .obj []
  multitaskStrategy : MultitaskStrategy := .reject
  deriving Repr, DecidableEq

/-- A row of `cron`. -/
structure Cron where
  cronId : Uuid
  assistantId : Option Uuid := none
  threadId : Option Uuid := none
  userId : Option String := none
  payload : Json := .obj []
  schedule : String
  nextRunDate : Option Timestamp := none
  endTime : Option Timestamp := none
  metadata : Json := .obj []
  onRunCompleted : String := "delete"
  enabled : Bool := true
  timezone : Option String := none
  deriving Repr, DecidableEq

/-- A row of `checkpoints`. -/
structure Checkpoint where
  threadId : Uuid
  checkpointNs : String := ""
  checkpointId : Uuid
  runId : Option Uuid := none
  parentCheckpointId : Option Uuid := none
  checkpoint : Json
  metadata : Json := .obj []
  deriving Repr, DecidableEq

/-- A row of `checkpoint_blobs`. -/
structure CheckpointBlob where
  threadId : Uuid
  checkpointNs : String := ""
  channel : String
  version : String
  type : String
  blob : Option String
  deriving Repr, DecidableEq

/-- A row of `checkpoint_writes`. -/
structure CheckpointWrite where
  threadId : Uuid
  checkpointNs : String := ""
  checkpointId : Uuid
  taskId : Uuid
  idx : ℤ
  channel : String
  type : String
  blob : String
  deriving Repr, DecidableEq

instance : Keyed Assistant Uuid := ⟨Assistant.assistantId⟩
instance : Keyed Thread Uuid := ⟨Thread.threadId⟩
instance : Keyed Run Uuid := ⟨Run.runId⟩
instance : Keyed Cron Uuid := ⟨Cron.cronId⟩
instance : Keyed Checkpoint (Uuid × String × Uuid) :=
  ⟨fun c => (c.threadId, c.checkpointNs, c.checkpointId)⟩
instance : Keyed CheckpointBlob (Uuid × String × String × String) :=
  ⟨fun b => (b.threadId, b.checkpointNs, b.channel, b.version)⟩
instance : Keyed CheckpointWrite (Uuid × String × Uuid × Uuid × ℤ) :=
  ⟨fun w => (w.threadId, w.checkpointNs, w.checkpointId, w.taskId, w.idx)⟩

@[simp] theorem key_assistant (a : Assistant) : Keyed.key a = a.assistantId := rfl
@[simp] theorem key_thread (t : Thread) : Keyed.key t = t.threadId := rfl
@[simp] theorem key_run (r : Run) : Keyed.key r = r.runId := rfl
@[simp] theorem key_cron (c : Cron) : Keyed.key c = c.cronId := rfl

/-! ### The database as a store of rows -/

/-- The tables. -/
structure Database where
  assistant : Table Assistant
  thread : Table Thread
  run : Table Run
  cron : Table Cron
  checkpoints : Table Checkpoint
  checkpointBlobs : Table CheckpointBlob
  checkpointWrites : Table CheckpointWrite
  deriving DecidableEq

/-- The database with the given assistants and nothing else. -/
def Database.fresh (assistants : Table Assistant) : Database :=
  ⟨assistants, .empty, .empty, .empty, .empty, .empty, .empty⟩

/-- Databases without runs. -/
def NoRuns (d : Database) : Prop := d.run = Table.empty

/-- A store without threads and runs. -/
def EmptyStore (d : Database) : Prop := d.thread = Table.empty ∧ d.run = Table.empty

/-- A row of one of the tables that the run and thread services write. -/
inductive Row
  | thread (t : Thread)
  | run (r : Run)
  | cron (c : Cron)
  | checkpoint (c : Checkpoint)
  | blob (b : CheckpointBlob)
  | write (w : CheckpointWrite)
  deriving Repr, DecidableEq

/-- The primary key of a row, with the table it belongs to. -/
inductive RowKey
  | thread (k : Uuid)
  | run (k : Uuid)
  | cron (k : Uuid)
  | checkpoint (k : Uuid × String × Uuid)
  | blob (k : Uuid × String × String × String)
  | write (k : Uuid × String × Uuid × Uuid × ℤ)
  deriving Repr, DecidableEq

/-- The key of a row. -/
def Row.key : Row → RowKey
  | thread t => .thread (Keyed.key t)
  | run r => .run (Keyed.key r)
  | cron c => .cron (Keyed.key c)
  | checkpoint c => .checkpoint (Keyed.key c)
  | blob b => .blob (Keyed.key b)
  | write w => .write (Keyed.key w)

/-- A change of one row. -/
inductive Write
  | put (r : Row)
  | del (k : RowKey)
  deriving Repr, DecidableEq

instance : RowWrite Write RowKey Row where
  key
    | .put r => r.key
    | .del k => k
  val
    | .put r => some r
    | .del _ => none

/-- The row of a key. -/
def Database.row (d : Database) : RowKey → Option Row
  | .thread k => (d.thread.get? k).map .thread
  | .run k => (d.run.get? k).map .run
  | .cron k => (d.cron.get? k).map .cron
  | .checkpoint k => (d.checkpoints.get? k).map .checkpoint
  | .blob k => (d.checkpointBlobs.get? k).map .blob
  | .write k => (d.checkpointWrites.get? k).map .write

/-- Change one row. -/
def Database.apply (d : Database) : Write → Database
  | .put (.thread t) => { d with thread := d.thread.put t }
  | .put (.run r) => { d with run := d.run.put r }
  | .put (.cron c) => { d with cron := d.cron.put c }
  | .put (.checkpoint c) => { d with checkpoints := d.checkpoints.put c }
  | .put (.blob b) => { d with checkpointBlobs := d.checkpointBlobs.put b }
  | .put (.write w) => { d with checkpointWrites := d.checkpointWrites.put w }
  | .del (.thread k) => { d with thread := d.thread.erase k }
  | .del (.run k) => { d with run := d.run.erase k }
  | .del (.cron k) => { d with cron := d.cron.erase k }
  | .del (.checkpoint k) => { d with checkpoints := d.checkpoints.erase k }
  | .del (.blob k) => { d with checkpointBlobs := d.checkpointBlobs.erase k }
  | .del (.write k) => { d with checkpointWrites := d.checkpointWrites.erase k }

theorem Database.row_apply (d : Database) (w : Write) (k : RowKey) :
    (d.apply w).row k = if k = RowWrite.key w then RowWrite.val w else d.row k := by
  cases w with
  | put r =>
    cases r <;> cases k <;>
      simp only [Database.apply, Database.row, RowWrite.key, RowWrite.val, Row.key,
        Table.map_get?_put, RowKey.thread.injEq, RowKey.run.injEq, RowKey.cron.injEq,
        RowKey.checkpoint.injEq, RowKey.blob.injEq, RowKey.write.injEq, reduceCtorEq, if_false]
  | del k' =>
    cases k' <;> cases k <;>
      simp only [Database.apply, Database.row, RowWrite.key, RowWrite.val,
        Table.map_get?_erase, RowKey.thread.injEq, RowKey.run.injEq, RowKey.cron.injEq,
        RowKey.checkpoint.injEq, RowKey.blob.injEq, RowKey.write.injEq, reduceCtorEq, if_false]

instance : RowStore Database Write := ⟨Database.row, Database.apply, Database.row_apply⟩

@[simp] theorem key_put (r : Row) : RowWrite.key (Write.put r) = r.key := rfl
@[simp] theorem key_del (k : RowKey) : RowWrite.key (Write.del k) = k := rfl
@[simp] theorem val_put (r : Row) : RowWrite.val (Write.put r) = some r := rfl
@[simp] theorem val_del (k : RowKey) : RowWrite.val (Write.del k) = none := rfl
@[simp] theorem Row.key_thread (t : Thread) : (Row.thread t).key = .thread t.threadId := rfl
@[simp] theorem Row.key_run (r : Run) : (Row.run r).key = .run r.runId := rfl

/-- The run row that a write puts. -/
def Write.run? : Write → Option Run
  | .put (.run r) => some r
  | _ => none

/-- The thread row that a write puts. -/
def Write.thread? : Write → Option Thread
  | .put (.thread t) => some t
  | _ => none

theorem Write.run?_eq_some {w : Write} {r : Run} : w.run? = some r ↔ w = .put (.run r) := by
  cases w with
  | put x => cases x <;> simp [Write.run?]
  | del k => simp [Write.run?]

theorem Write.thread?_eq_some {w : Write} {t : Thread} :
    w.thread? = some t ↔ w = .put (.thread t) := by
  cases w with
  | put x => cases x <;> simp [Write.thread?]
  | del k => simp [Write.thread?]

theorem mem_filterMap_run? {ws : List Write} {r : Run} :
    r ∈ ws.filterMap Write.run? ↔ .put (.run r) ∈ ws := by
  simp [List.mem_filterMap, Write.run?_eq_some]

theorem mem_filterMap_thread? {ws : List Write} {t : Thread} :
    t ∈ ws.filterMap Write.thread? ↔ .put (.thread t) ∈ ws := by
  simp [List.mem_filterMap, Write.thread?_eq_some]

/-! ### Rows after writes -/

open ReadCommitted

theorem mem_thread_iff_row {d : Database} {t : Thread} :
    t ∈ d.thread ↔ RowStore.row d (.thread t.threadId) = some (.thread t) := by
  rw [Table.mem_iff_get?]
  simp [RowStore.row, Database.row]

theorem mem_run_iff_row {d : Database} {r : Run} :
    r ∈ d.run ↔ RowStore.row d (.run r.runId) = some (.run r) := by
  rw [Table.mem_iff_get?]
  simp [RowStore.row, Database.row]

theorem mem_cron_iff_row {d : Database} {c : Cron} :
    c ∈ d.cron ↔ RowStore.row d (.cron c.cronId) = some (.cron c) := by
  rw [Table.mem_iff_get?]
  simp [RowStore.row, Database.row]

theorem mem_checkpoints_iff_row {d : Database} {c : Checkpoint} :
    c ∈ d.checkpoints ↔ RowStore.row d (Row.checkpoint c).key = some (.checkpoint c) := by
  rw [Table.mem_iff_get?]
  simp [RowStore.row, Database.row, Row.key]

theorem mem_checkpointBlobs_iff_row {d : Database} {b : CheckpointBlob} :
    b ∈ d.checkpointBlobs ↔ RowStore.row d (Row.blob b).key = some (.blob b) := by
  rw [Table.mem_iff_get?]
  simp [RowStore.row, Database.row, Row.key]

theorem mem_checkpointWrites_iff_row {d : Database} {w : CheckpointWrite} :
    w ∈ d.checkpointWrites ↔ RowStore.row d (Row.write w).key = some (.write w) := by
  rw [Table.mem_iff_get?]
  simp [RowStore.row, Database.row, Row.key]

theorem eq_put_of_val {w : Write} {r : Row} (h : RowWrite.val w = some r) : w = .put r := by
  cases w with
  | put r' => rw [← Option.some.inj h]
  | del k => cases h

theorem row_of_applyAll {d : Database} {ws : List Write} {r : Row}
    (h : RowStore.row (applyAll d ws) r.key = some r) :
    .put r ∈ ws ∨ r.key ∉ keys ws ∧ RowStore.row d r.key = some r := by
  rcases row_applyAll d ws r.key with ⟨w, hw, -, hrow⟩ | ⟨hk, hrow⟩
  · rw [h] at hrow
    rw [eq_put_of_val hrow.symm] at hw
    exact Or.inl hw
  · exact Or.inr ⟨hk, hrow ▸ h⟩

theorem run_of_applyAll {d : Database} {ws : List Write} {r : Run} (h : r ∈ (applyAll d ws).run) :
    .put (.run r) ∈ ws ∨ .run r.runId ∉ keys ws ∧ r ∈ d.run := by
  rw [mem_run_iff_row] at h ⊢
  exact @row_of_applyAll d ws (.run r) h

theorem thread_of_applyAll {d : Database} {ws : List Write} {t : Thread}
    (h : t ∈ (applyAll d ws).thread) :
    .put (.thread t) ∈ ws ∨ .thread t.threadId ∉ keys ws ∧ t ∈ d.thread := by
  rw [mem_thread_iff_row] at h ⊢
  exact @row_of_applyAll d ws (.thread t) h

theorem mem_run_applyAll_of_not_mem {d : Database} {ws : List Write} {r : Run}
    (hk : .run r.runId ∉ keys ws) : r ∈ (applyAll d ws).run ↔ r ∈ d.run := by
  rw [mem_run_iff_row, mem_run_iff_row, row_applyAll_of_not_mem hk]

theorem applyAll_run {d : Database} {ws : List Write}
    (h : ∀ w ∈ ws, ∀ k, RowWrite.key w ≠ .run k) : (applyAll d ws).run = d.run := by
  induction ws generalizing d with
  | nil => rfl
  | cons w ws ih =>
    obtain ⟨hw, hws⟩ := List.forall_mem_cons.mp h
    rw [applyAll_cons, ih hws]
    cases w with
    | put r =>
      cases r with
      | run r => exact absurd rfl (hw r.runId)
      | _ => rfl
    | del k =>
      cases k with
      | run k => exact absurd rfl (hw k)
      | _ => rfl

theorem applyAll_thread {d : Database} {ws : List Write}
    (h : ∀ w ∈ ws, ∀ k, RowWrite.key w ≠ .thread k) : (applyAll d ws).thread = d.thread := by
  induction ws generalizing d with
  | nil => rfl
  | cons w ws ih =>
    obtain ⟨hw, hws⟩ := List.forall_mem_cons.mp h
    rw [applyAll_cons, ih hws]
    cases w with
    | put r =>
      cases r with
      | thread t => exact absurd rfl (hw t.threadId)
      | _ => rfl
    | del k =>
      cases k with
      | thread k => exact absurd rfl (hw k)
      | _ => rfl

@[simp] theorem apply_assistant (d : Database) (w : Write) : (d.apply w).assistant = d.assistant := by
  cases w with
  | put r => cases r <;> rfl
  | del k => cases k <;> rfl

@[simp] theorem applyAll_assistant (d : Database) (ws : List Write) :
    (applyAll d ws).assistant = d.assistant := by
  induction ws generalizing d with
  | nil => rfl
  | cons w ws ih =>
    rw [applyAll_cons, ih]
    exact apply_assistant d w

end NextRole
