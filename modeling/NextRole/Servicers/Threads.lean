import NextRole.Servicers.Runs

/-!
# The Threads service

The statements of `core_server/servicers/threads.py` that write: creating,
patching, deleting and copying a thread, and the two status writes at the end of
a run.

## Main definitions

* `createThread`, `patchThread` — `Create` and `Patch`.
* `deleteThread`, `copyThread` — the transactions of `Delete` and `Copy`.
* `SetThreadStatusRequest`, `setThreadStatus` — `SetStatus`.
* `SetJointStatusRequest`, `setJointStatus` — the transaction of `SetJointStatus`.
-/

namespace NextRole

open ReadCommitted

/-! ### Create and Patch -/

/-- The row that `Create` inserts. -/
def newThread (threadId : Uuid) (metadata : Json) (now : Timestamp) : Thread where
  threadId := threadId
  metadata := metadata
  createdAt := now
  updatedAt := now
  stateUpdatedAt := some now

/-- The insertion of `Create`, with `ON CONFLICT (thread_id) DO NOTHING`. -/
def createThread (threadId : Uuid) (metadata : Json) (now : Timestamp) : Statement :=
  fun _ _ cur => {
    waits := [.thread threadId]
    writes := some (
      if (cur.thread.get? threadId).isSome then []
      else [.put (.thread (newThread threadId metadata now))]) }

/-- The query of `Patch`. -/
def patchThread (threadId : Uuid) (metadata : Json) (filters : List AuthFilter)
    (now : Timestamp) : Statement :=
  threadTable.update (fun _ t => t.threadId = threadId && admits filters t.metadata)
    (fun _ t => { t with metadata := t.metadata.concat metadata, updatedAt := now })

/-! ### Delete -/

/-- The statements of `Delete`: the ownership check, the rows of the thread in each
table, and the thread. -/
def deleteThread (threadId : Uuid) (filters : List AuthFilter) : List Statement :=
  (match filtersClause filters with
    | none => []
    | some p => [select1 fun d =>
        d.thread.rows.any fun t => t.threadId = threadId && p.holds t.metadata]) ++
  [ checkpointWritesTable.delete fun _ w => w.threadId = threadId,
    checkpointBlobsTable.delete fun _ b => b.threadId = threadId,
    checkpointsTable.delete fun _ c => c.threadId = threadId,
    runTable.delete fun _ r => r.threadId = threadId,
    cronTable.delete fun _ c => c.threadId = some threadId,
    threadTable.delete fun _ t => t.threadId = threadId ]

/-! ### Status writes -/

/-- A `CheckpointPayload`: what a run's stream reports of a checkpoint. -/
structure CheckpointPayload where
  /-- `values_json`, where an empty text is `none`. -/
  values : Option Json := none
  next : List String := []
  /-- `interrupts_json`, where an empty text reads as `{}`. -/
  interrupts : Json := .obj []
  deriving Repr, DecidableEq

/-- Whether a reported checkpoint has next nodes. -/
def hasNext (checkpoint : Option CheckpointPayload) : Bool :=
  checkpoint.any fun cp => !cp.next.isEmpty

/-- The interrupts that a status write stores. -/
def interruptsOf (checkpoint : Option CheckpointPayload) : Json :=
  (checkpoint.map CheckpointPayload.interrupts).getD (.obj [])

/-- An exception text counts only when it is not empty. -/
def exceptionOf (exception : Option String) : Option String := exception.filter fun e => e ≠ ""

/-- `EXISTS (SELECT 1 FROM run WHERE thread_id = … AND status IN ('pending','running'))`. -/
def hasInflight (d : Database) (threadId : Uuid) : Bool :=
  d.run.rows.any fun r => r.threadId = threadId && r.status.inflight

theorem hasInflight_iff {d : Database} {threadId : Uuid} :
    hasInflight d threadId = true ↔
      ∃ r ∈ d.run, r.threadId = threadId ∧ r.status.inflight = true := by
  simp [hasInflight, Table.mem_def]

/-- A run of the thread is in flight that was not in flight on it in a snapshot. -/
def EnteredFlight (threadId : Uuid) (snap d : Database) : Prop :=
  ∃ r ∈ d.run, r.threadId = threadId ∧ r.status.inflight = true ∧
    ∀ r₀ ∈ snap.run, r₀.runId = r.runId → r₀.threadId = threadId → r₀.status.inflight = false

instance (threadId : Uuid) (snap d : Database) : Decidable (EnteredFlight threadId snap d) := by
  unfold EnteredFlight
  infer_instance

/-- `values` is set only when a checkpoint is given. -/
def valuesAfter (checkpoint : Option CheckpointPayload) (values : Option Json) : Option Json :=
  match checkpoint with
  | none => values
  | some cp => cp.values

/-- A `SetThreadStatusRequest`. -/
structure SetThreadStatusRequest where
  threadId : Uuid
  checkpoint : Option CheckpointPayload := none
  exception : Option String := none
  expectedStatus : List ThreadStatus := []

/-- The status that `SetStatus` gives a thread without runs in flight. -/
def SetThreadStatusRequest.base (request : SetThreadStatusRequest) : ThreadStatus :=
  if (exceptionOf request.exception).isSome then .error
  else if hasNext request.checkpoint then .interrupted else .idle

theorem SetThreadStatusRequest.base_ne_busy (request : SetThreadStatusRequest) :
    request.base ≠ .busy := by
  unfold SetThreadStatusRequest.base
  split
  · simp
  · split <;> simp

/-- The row that `SetStatus` leaves of a thread. -/
def statusThread (request : SetThreadStatusRequest) (now : Timestamp) (snap : Database)
    (t : Thread) : Thread :=
  { t with
    updatedAt := now
    stateUpdatedAt := some now
    interrupts := interruptsOf request.checkpoint
    error := exceptionOf request.exception
    status := if hasInflight snap request.threadId then .busy else request.base
    values := valuesAfter request.checkpoint t.values }

theorem statusThread_busy {request : SetThreadStatusRequest} {now : Timestamp} {snap : Database}
    {t : Thread} : (statusThread request now snap t).status = .busy ↔
      hasInflight snap request.threadId = true := by
  simp [statusThread, request.base_ne_busy]

/-- The query of `SetStatus`. -/
def setThreadStatus (request : SetThreadStatusRequest) (now : Timestamp) : Statement :=
  threadTable.update
    (fun _ t => t.threadId = request.threadId &&
      (request.expectedStatus.isEmpty || t.status ∈ request.expectedStatus))
    (statusThread request now)

/-- A `SetThreadJointStatusRequest`. -/
structure SetJointStatusRequest where
  threadId : Uuid
  runId : Uuid
  runStatus : RunStatus
  graphId : String := ""
  checkpoint : Option CheckpointPayload := none
  exception : Option String := none

/-- The status that `SetJointStatus` gives a thread without runs in flight. -/
def SetJointStatusRequest.base (request : SetJointStatusRequest) : ThreadStatus :=
  if (exceptionOf request.exception).isSome && request.runStatus ≠ .interrupted &&
      request.runStatus ≠ .rollback then .error
  else if hasNext request.checkpoint then .interrupted else .idle

theorem SetJointStatusRequest.base_ne_busy (request : SetJointStatusRequest) :
    request.base ≠ .busy := by
  unfold SetJointStatusRequest.base
  split
  · simp
  · split <;> simp

/-- The first statement of `SetJointStatus`: a rolled back run is deleted, any other
gets its status. -/
def setJointRun (request : SetJointStatusRequest) (now : Timestamp) : Statement :=
  if request.runStatus = .rollback then
    runTable.delete fun _ r => r.runId = request.runId && r.threadId = request.threadId
  else
    setRunStatus request.runId request.runStatus now

/-- The row that `SetJointStatus` leaves of a thread. -/
def jointThread (request : SetJointStatusRequest) (now : Timestamp) (snap : Database)
    (t : Thread) : Thread :=
  { t with
    updatedAt := now
    stateUpdatedAt := some now
    metadata := t.metadata.set "graph_id" (.str request.graphId)
    interrupts := interruptsOf request.checkpoint
    error := exceptionOf request.exception
    status :=
      if request.runStatus.inflight || hasInflight snap request.threadId then .busy
      else request.base
    values := valuesAfter request.checkpoint t.values }

theorem jointThread_busy {request : SetJointStatusRequest} {now : Timestamp} {snap : Database}
    {t : Thread} : (jointThread request now snap t).status = .busy ↔
      request.runStatus.inflight = true ∨ hasInflight snap request.threadId = true := by
  simp only [jointThread, Bool.or_eq_true]
  split
  · next h => simpa using h
  · next h => simpa [request.base_ne_busy] using h

/-- The second statement of `SetJointStatus`. -/
def setJointThread (request : SetJointStatusRequest) (now : Timestamp) : Statement :=
  threadTable.update (fun _ t => t.threadId = request.threadId) (jointThread request now)

/-- The transaction of `SetJointStatus`. -/
def setJointStatus (request : SetJointStatusRequest) (now : Timestamp) : List Statement :=
  [setJointRun request now, setJointThread request now]

/-! ### Copy -/

/-- The row that `Copy` inserts: no values, no interrupts, status `idle`. -/
def copiedThread (newId : Uuid) (now : Timestamp) (t : Thread) : Thread where
  threadId := newId
  metadata := t.metadata
  config := t.config
  createdAt := now
  updatedAt := now
  stateUpdatedAt := some now

/-- The insertion of the copied thread, which fails when its uuid is taken. -/
def insertCopy (threadId newId : Uuid) (now : Timestamp) : Statement := fun snap _ cur => {
  waits := [.thread newId]
  writes := match snap.thread.get? threadId with
    | none => some []
    | some t =>
      if (cur.thread.get? newId).isSome then none
      else some [.put (.thread (copiedThread newId now t))] }

/-- Insert the copies of some rows with `ON CONFLICT DO NOTHING`. -/
def copyRows {α κ : Type} [Keyed α κ] [DecidableEq κ] (T : Relation α) (p : α → Bool)
    (f : α → α) : Statement := fun snap _ cur => {
  waits := ((T.table snap).select p).map fun a => (T.row (f a)).key
  writes := some (((((T.table snap).select p).map f).filter fun a =>
    ((T.table cur).get? (Keyed.key a)).isNone).map fun a => .put (T.row a)) }

/-- The statements of `Copy`, where `newId` is the uuid it draws: the thread without
its values, and the rows of the checkpoint tables. -/
def copyThread (threadId newId : Uuid) (filters : List AuthFilter) (now : Timestamp) :
    List Statement :=
  [ select1 fun d => d.thread.rows.any fun t => t.threadId = threadId && admits filters t.metadata,
    insertCopy threadId newId now,
    copyRows checkpointsTable (fun c => c.threadId = threadId) fun c => { c with
      threadId := newId, metadata := c.metadata.set "thread_id" (.str newId.text) },
    copyRows checkpointBlobsTable (fun b => b.threadId = threadId) fun b => { b with
      threadId := newId },
    copyRows checkpointWritesTable (fun w => w.threadId = threadId) fun w => { w with
      threadId := newId } ]

end NextRole
