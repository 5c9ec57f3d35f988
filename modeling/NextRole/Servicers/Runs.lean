import NextRole.Lib.Rank
import NextRole.Sql

/-!
# The Runs service

The statements of `core_server/servicers/runs.py`: creating a run with its
common table expressions, claiming pending runs, deleting, setting a status and
cancelling.

## Main definitions

* `CreateRunRequest`, `createParams` — a request and the parameters of its query.
* `inflightRuns`, `insertedThread`, `runThread`, `insertedRun`, `updatedThread` —
  the common table expressions of the query of `Create`.
* `createRun`, `createResponse` — the query and the rows it returns.
* `claim` — the query of `_claim`, behind `Next`.
* `deleteRun`, `setRunStatus` — `Delete` and `SetStatus`.
* `CancelRunRequest`, `cancelTargets`, `ownedTargets`, `cancelRuns` — the stages
  of `Cancel`.
-/

namespace NextRole

open ReadCommitted

/-! ### Create -/

/-- A `CreateRunRequest`; `none` is a field that is not set. -/
structure CreateRunRequest where
  assistantId : Uuid
  runId : Option Uuid := none
  threadId : Option Uuid := none
  kwargs : Json := .obj []
  metadata : Json := .obj []
  status : Option RunStatus := none
  multitaskStrategy : Option MultitaskStrategy := none
  /-- `if_not_exists` is `CREATE_THREAD_IF_THREAD_NOT_EXISTS`. -/
  createIfNotExists : Bool := false
  preventInsertIfInflight : Bool := false
  afterSeconds : Int := 0
  userId : Option String := none
  threadFilters : List AuthFilter := []
  assistantFilters : List AuthFilter := []

/-- What the environment supplies to a call: the start time of its transaction
and the uuids that the call draws when the request names none. -/
structure CreateEnv where
  now : Timestamp
  freshRunId : Uuid
  freshThreadId : Uuid

/-- The parameters of the query. -/
structure CreateParams where
  runId : Uuid
  threadId : Uuid
  assistantId : Uuid
  metadata : Json
  kwargs : Json
  config : Json
  status : RunStatus
  multitaskStrategy : MultitaskStrategy
  userId : Option String
  afterSeconds : Int
  createThread : Bool
  prevent : Bool
  threadFilters : List AuthFilter
  assistantFilters : List AuthFilter
  now : Timestamp

/-- `x or {}` on a JSON value that may be missing. -/
def orEmpty : Option Json → Json
  | none | some .null | some (.bool false) | some (.arr []) | some (.str "") => .obj []
  | some (.num q) => if q = 0 then .obj [] else .num q
  | some j => j

/-- `metadata.setdefault(k, v)`. -/
def setdefault (j : Json) (k : String) (v : Json) : Json :=
  match j.get? k with
  | some _ => j
  | none => j.set k v

theorem get?_setdefault_of_ne (j : Json) {k k' : String} (v : Json) (h : k' ≠ k) :
    (setdefault j k v).get? k' = j.get? k' := by
  unfold setdefault
  split
  · rfl
  · exact Json.get?_set_of_ne j v h

theorem get?_setdefault_self (kvs : List (String × Json)) (k : String) (v : Json) :
    (setdefault (.obj kvs) k v).get? k = some ((kvs.lookup k).getD v) := by
  unfold setdefault
  cases h : kvs.lookup k with
  | none => simp [h, Json.get?_set]
  | some w => simp [h]

theorem setdefault_obj (kvs : List (String × Json)) (k : String) (v : Json) :
    ∃ kvs', setdefault (.obj kvs) k v = .obj kvs' := by
  unfold setdefault
  split
  · exact ⟨kvs, rfl⟩
  · exact ⟨_, rfl⟩

/-- The parameters that `Create` computes from a request. -/
def createParams (request : CreateRunRequest) (env : CreateEnv) : CreateParams where
  runId := request.runId.getD env.freshRunId
  threadId := request.threadId.getD env.freshThreadId
  assistantId := request.assistantId
  metadata := setdefault request.metadata "assistant_id" (.str request.assistantId.text)
  kwargs := request.kwargs
  config := orEmpty (request.kwargs.get? "config")
  status := request.status.getD .pending
  multitaskStrategy := request.multitaskStrategy.getD .reject
  userId := request.userId
  afterSeconds := request.afterSeconds
  createThread := request.threadId.isNone || request.createIfNotExists
  prevent := request.preventInsertIfInflight
  threadFilters := request.threadFilters
  assistantFilters := request.assistantFilters
  now := env.now

/-- `coalesce(config -> 'configurable', '{}')`. -/
def configurableOf (config : Json) : Json := (config.get? "configurable").getD (.obj [])

/-- `config -> 'configurable' ->> 'user_id'`. -/
def configUserId (config : Json) : Option String :=
  (config.get? "configurable").bind fun c => c.text? "user_id"

/-- `to_jsonb` of a text that may be `NULL`. -/
def textToJson : Option String → Json
  | some s => .str s
  | none => .null

/-- The row of `inserted_thread`. -/
def insertThread (p : CreateParams) (assistant : Assistant) : Thread where
  threadId := p.threadId
  createdAt := p.now
  updatedAt := p.now
  status := .busy
  metadata := Json.concat
    (.obj [("graph_id", .str assistant.graphId), ("assistant_id", .str assistant.assistantId.text)])
    p.metadata
  config := ((assistant.config.concat p.config).concat
    (.obj [("configurable", (configurableOf assistant.config).concat (configurableOf p.config))]))
  stateUpdatedAt := some p.now

/-- The fields that a run's `configurable` gets from the query itself. -/
def runConfigurable (p : CreateParams) (thread : Thread) (assistant : Assistant) : Json :=
  .obj [
    ("run_id", .str p.runId.text),
    ("thread_id", .str thread.threadId.text),
    ("graph_id", .str assistant.graphId),
    ("assistant_id", .str assistant.assistantId.text),
    ("user_id", textToJson ((configUserId p.config).or ((configUserId thread.config).or
      ((configUserId assistant.config).or p.userId))))]

/-- The row of `inserted_run`. -/
def insertRun (p : CreateParams) (thread : Thread) (assistant : Assistant) : Run where
  runId := p.runId
  threadId := thread.threadId
  assistantId := assistant.assistantId
  metadata := p.metadata
  status := p.status
  kwargs := p.kwargs.concat (.obj [("config",
    ((assistant.config.concat thread.config).concat p.config).concat (.obj [
      ("configurable", (((configurableOf assistant.config).concat
        (configurableOf thread.config)).concat (configurableOf p.config)).concat
          (runConfigurable p thread assistant)),
      ("metadata", (assistant.metadata.concat thread.metadata).concat p.metadata)]))])
  multitaskStrategy := p.multitaskStrategy
  createdAt := p.now + p.afterSeconds * 1000000
  updatedAt := p.now

/-- The row of `updated_thread`. -/
def refreshThread (p : CreateParams) (assistant : Assistant) (thread : Thread) : Thread :=
  { thread with
    metadata := (thread.metadata.set "graph_id" (.str assistant.graphId)).set "assistant_id"
      (.str assistant.assistantId.text)
    config := ((assistant.config.concat thread.config).concat p.config).concat (.obj [
      ("configurable", ((configurableOf assistant.config).concat
        (configurableOf thread.config)).concat (configurableOf p.config))])
    status := .busy }

/-- The assistant that the query joins, if the caller's filters admit it. -/
def createAssistant (p : CreateParams) (snap : Database) : Option Assistant :=
  (snap.assistant.get? p.assistantId).filter fun a => admits p.assistantFilters a.metadata

/-- `run.status = 'pending'` on the thread named by the request. -/
def inflightRuns (p : CreateParams) (snap : Database) : List Run :=
  snap.run.select fun r => r.threadId = p.threadId && r.status = .pending

/-- `inserted_thread`: the conflict check sees the rows committed by now. -/
def insertedThread (p : CreateParams) (snap cur : Database) : Option Thread :=
  if p.createThread && (cur.thread.get? p.threadId).isNone then
    (createAssistant p snap).map (insertThread p)
  else none

/-- `run_thread`: the thread of the snapshot that the filters admit, and the
inserted one. -/
def runThread (p : CreateParams) (snap cur : Database) : List Thread :=
  ((snap.thread.get? p.threadId).filter fun t => admits p.threadFilters t.metadata).toList ++
    (insertedThread p snap cur).toList

/-- `inserted_run`. -/
def insertedRun (p : CreateParams) (snap cur : Database) : List Run :=
  if p.prevent && !(inflightRuns p snap).isEmpty then []
  else (runThread p snap cur).flatMap fun t =>
    (createAssistant p snap).toList.map fun a => insertRun p t a

/-- `updated_thread`: the threads of the inserted run that are not busy in the
snapshot, in their current version if it is not busy either. -/
def updatedThread (p : CreateParams) (snap cur : Database) : List Thread :=
  (threadTable.rechecked
    (fun _ t => (insertedRun p snap cur).any (fun r => r.threadId = t.threadId) &&
      t.status ≠ .busy) snap cur).flatMap fun t =>
    (snap.assistant.get? p.assistantId).toList.map fun a => refreshThread p a t

@[simp] theorem insertRun_runId (p : CreateParams) (t : Thread) (a : Assistant) :
    (insertRun p t a).runId = p.runId := rfl
@[simp] theorem insertRun_threadId (p : CreateParams) (t : Thread) (a : Assistant) :
    (insertRun p t a).threadId = t.threadId := rfl
@[simp] theorem insertRun_status (p : CreateParams) (t : Thread) (a : Assistant) :
    (insertRun p t a).status = p.status := rfl
@[simp] theorem insertThread_threadId (p : CreateParams) (a : Assistant) :
    (insertThread p a).threadId = p.threadId := rfl
@[simp] theorem insertThread_status (p : CreateParams) (a : Assistant) :
    (insertThread p a).status = .busy := rfl
@[simp] theorem refreshThread_threadId (p : CreateParams) (a : Assistant) (t : Thread) :
    (refreshThread p a t).threadId = t.threadId := rfl
@[simp] theorem refreshThread_status (p : CreateParams) (a : Assistant) (t : Thread) :
    (refreshThread p a t).status = .busy := rfl

theorem mem_inflightRuns {p : CreateParams} {snap : Database} {r : Run} :
    r ∈ inflightRuns p snap ↔ r ∈ snap.run ∧ r.threadId = p.threadId ∧ r.status = .pending := by
  simp [inflightRuns]

theorem insertedThread_eq_some {p : CreateParams} {snap cur : Database} {t : Thread} :
    insertedThread p snap cur = some t ↔ p.createThread = true ∧
      cur.thread.get? p.threadId = none ∧
        ∃ a, createAssistant p snap = some a ∧ insertThread p a = t := by
  simp [insertedThread, and_assoc]

theorem mem_runThread {p : CreateParams} {snap cur : Database} {t : Thread} :
    t ∈ runThread p snap cur ↔
      (t ∈ snap.thread ∧ t.threadId = p.threadId ∧ admits p.threadFilters t.metadata = true) ∨
        insertedThread p snap cur = some t := by
  simp [runThread, Option.filter_eq_some_iff, Table.get?_eq_some, and_assoc]

theorem threadId_of_mem_runThread {p : CreateParams} {snap cur : Database} {t : Thread}
    (h : t ∈ runThread p snap cur) : t.threadId = p.threadId := by
  rcases mem_runThread.mp h with ⟨-, hid, -⟩ | hins
  · exact hid
  · obtain ⟨-, -, a, -, rfl⟩ := insertedThread_eq_some.mp hins
    rfl

theorem mem_insertedRun {p : CreateParams} {snap cur : Database} {r : Run} :
    r ∈ insertedRun p snap cur ↔ (p.prevent = true → inflightRuns p snap = []) ∧
      ∃ t ∈ runThread p snap cur, ∃ a, createAssistant p snap = some a ∧ insertRun p t a = r := by
  unfold insertedRun
  split
  · next h =>
    simp only [Bool.and_eq_true, Bool.not_eq_true', List.isEmpty_eq_false_iff] at h
    simp [h.1, h.2]
  · next h =>
    have h' : p.prevent = true → inflightRuns p snap = [] := by simpa using h
    simp only [List.mem_flatMap, List.mem_map, Option.mem_toList, iff_and_self]
    exact fun _ => h'

theorem threadId_of_mem_insertedRun {p : CreateParams} {snap cur : Database} {r : Run}
    (h : r ∈ insertedRun p snap cur) : r.threadId = p.threadId := by
  obtain ⟨-, t, ht, a, -, rfl⟩ := mem_insertedRun.mp h
  exact threadId_of_mem_runThread ht

theorem status_of_mem_insertedRun {p : CreateParams} {snap cur : Database} {r : Run}
    (h : r ∈ insertedRun p snap cur) : r.status = p.status := by
  obtain ⟨-, t, -, a, -, rfl⟩ := mem_insertedRun.mp h
  rfl

theorem runId_of_mem_insertedRun {p : CreateParams} {snap cur : Database} {r : Run}
    (h : r ∈ insertedRun p snap cur) : r.runId = p.runId := by
  obtain ⟨-, t, -, a, -, rfl⟩ := mem_insertedRun.mp h
  rfl

theorem mem_updatedThread {p : CreateParams} {snap cur : Database} {t : Thread} :
    t ∈ updatedThread p snap cur ↔
      ∃ t₀ ∈ threadTable.rechecked (fun _ t =>
          (insertedRun p snap cur).any (fun r => r.threadId = t.threadId) && t.status ≠ .busy)
          snap cur,
        ∃ a, snap.assistant.get? p.assistantId = some a ∧ refreshThread p a t₀ = t := by
  simp [updatedThread]

/-- Whether the insertion of the run violates the primary key of `run`. -/
def createConflicts (p : CreateParams) (snap cur : Database) : Bool :=
  1 < (insertedRun p snap cur).length ||
    (!(insertedRun p snap cur).isEmpty && (cur.run.get? p.runId).isSome)

/-- With nothing in between at most one run is inserted. -/
theorem length_insertedRun_le (p : CreateParams) (d : Database) : (insertedRun p d d).length ≤ 1 := by
  have hthread : (runThread p d d).length ≤ 1 := by
    rw [runThread, List.length_append]
    cases hget : d.thread.get? p.threadId with
    | none => simp
    | some t =>
      have hnone : insertedThread p d d = none := by simp [insertedThread, hget]
      simp [hnone]
  unfold insertedRun
  split
  · simp
  · cases hlist : runThread p d d with
    | nil => simp
    | cons t ts =>
      rw [hlist, List.length_cons] at hthread
      obtain rfl : ts = [] := List.length_eq_zero_iff.mp (by omega)
      simp

theorem createConflicts_self {p : CreateParams} {d : Database} :
    createConflicts p d d = true ↔ insertedRun p d d ≠ [] ∧ ∃ r ∈ d.run, r.runId = p.runId := by
  have hlen := length_insertedRun_le p d
  have hnot : ¬ 1 < (insertedRun p d d).length := by omega
  simp [createConflicts, hnot, Option.isSome_iff_exists, Table.get?_eq_some]

/-- The rows that the query returns: `inserted_run` and then `inflight_runs`. -/
def createResponse (p : CreateParams) (snap cur : Database) : List Run :=
  insertedRun p snap cur ++ inflightRuns p snap

/-- The query of `Create`.  An insertion waits for a transaction that inserts the
same key; the update waits for one that holds the thread. -/
def createRun (p : CreateParams) : Statement := fun snap _ cur => {
  waits :=
    (if p.createThread && (createAssistant p snap).isSome then [.thread p.threadId] else []) ++
    (insertedRun p snap cur).map (fun r => .run r.runId) ++
    (snap.thread.select fun t => (insertedRun p snap cur).any (fun r => r.threadId = t.threadId) &&
      t.status ≠ .busy).map (fun t => .thread t.threadId)
  writes :=
    if createConflicts p snap cur then none
    else some (
      (insertedThread p snap cur).toList.map (fun t => .put (.thread t)) ++
      (insertedRun p snap cur).map (fun r => .put (.run r)) ++
      (updatedThread p snap cur).map (fun t => .put (.thread t))) }

/-- A creation whose run id is taken fails. -/
theorem createRun_writes_of_taken {p : CreateParams} {snap cur : Database} {held : List RowKey}
    {r r₀ : Run} (hr : r ∈ insertedRun p snap cur) (hr₀ : r₀ ∈ cur.run) (hid : r₀.runId = p.runId) :
    (createRun p snap held cur).writes.getD [] = [] := by
  have hconf : createConflicts p snap cur = true := by
    have hne : (insertedRun p snap cur).isEmpty = false :=
      List.isEmpty_eq_false_iff.mpr (List.ne_nil_of_mem hr)
    have hsome : (cur.run.get? p.runId).isSome = true := by
      rw [Option.isSome_iff_exists]
      exact ⟨r₀, Table.get?_eq_some.mpr ⟨hr₀, hid⟩⟩
    rw [createConflicts, hne, hsome]
    simp
  simp only [createRun]
  rw [if_pos hconf]
  rfl

/-! ### Next -/

/-- The order of the claim: `ORDER BY run.created_at`, where `tie` is the order in
which the database happens to return rows of one instant. -/
def claimBefore (tie : Uuid → ℕ) (a b : Run) : Prop :=
  a.createdAt < b.createdAt ∨ a.createdAt = b.createdAt ∧
    (tie a.runId < tie b.runId ∨ tie a.runId = tie b.runId ∧ a.runId ≤ b.runId)

instance (tie : Uuid → ℕ) : DecidableRel (claimBefore tie) := fun a b => by
  unfold claimBefore
  infer_instance

/-- `run.status = 'pending' AND run.created_at < now()`. -/
def due (now : Timestamp) (r : Run) : Bool := r.status = .pending && r.createdAt < now

/-- The rows that the claim may lock: due in the snapshot, held by nobody else, and
still due in their current version. -/
def claimable (now : Timestamp) (snap : Database) (held : List RowKey) (cur : Database) :
    List Run :=
  ((snap.run.select (due now)).filter fun r => .run r.runId ∉ held).filter fun r =>
    ((cur.run.get? r.runId).filter (due now)).isSome

/-- `claimed`: the first `limit` of them in the order of the claim. -/
def claimed (limit : ℕ) (now : Timestamp) (tie : Uuid → ℕ) (snap : Database)
    (held : List RowKey) (cur : Database) : List Run :=
  ((claimable now snap held cur).insertionSort (claimBefore tie)).take limit

theorem claimBefore_total (tie : Uuid → ℕ) (a b : Run) :
    claimBefore tie a b ∨ claimBefore tie b a := by
  unfold claimBefore
  grind

theorem claimBefore_trans (tie : Uuid → ℕ) (a b c : Run) (h : claimBefore tie a b)
    (h' : claimBefore tie b c) : claimBefore tie a c := by
  unfold claimBefore at *
  grind

theorem claimBefore_antisymm {tie : Uuid → ℕ} {a b : Run} (h : claimBefore tie a b)
    (h' : claimBefore tie b a) : a.runId = b.runId := by
  unfold claimBefore at *
  grind

theorem mem_claimable {now : Timestamp} {snap : Database} {held : List RowKey} {cur : Database}
    {r : Run} : r ∈ claimable now snap held cur ↔
      r ∈ snap.run ∧ due now r = true ∧ .run r.runId ∉ held ∧
        ∃ r₀ ∈ cur.run, r₀.runId = r.runId ∧ due now r₀ = true := by
  simp only [claimable, List.mem_filter, Table.mem_select, decide_eq_true_eq,
    Option.isSome_iff_exists, Option.filter_eq_some_iff, Table.get?_eq_some, and_assoc, key_run]

/-- The claimed runs are the claimable ones with fewer than `limit` others before them. -/
theorem mem_claimed {limit : ℕ} {now : Timestamp} {tie : Uuid → ℕ} {snap : Database}
    {held : List RowKey} {cur : Database} {r : Run} :
    r ∈ claimed limit now tie snap held cur ↔ r ∈ claimable now snap held cur ∧
      (claimable now snap held cur).numBefore (claimBefore tie) r < limit := by
  refine List.mem_take_insertionSort_iff (claimBefore_total tie) (claimBefore_trans tie) ?_ ?_
  · intro a ha b hb hab hba
    exact Table.eq_of_key (mem_claimable.mp ha).1 (mem_claimable.mp hb).1
      (claimBefore_antisymm hab hba)
  · exact ((snap.run.nodup_select _).filter _).filter _

/-- The row that a claim leaves. -/
def setRunning (now : Timestamp) (r : Run) : Run := { r with status := .running, updatedAt := now }

@[simp] theorem setRunning_runId (now : Timestamp) (r : Run) :
    (setRunning now r).runId = r.runId := rfl
@[simp] theorem setRunning_threadId (now : Timestamp) (r : Run) :
    (setRunning now r).threadId = r.threadId := rfl
@[simp] theorem setRunning_status (now : Timestamp) (r : Run) :
    (setRunning now r).status = .running := rfl

/-- The current versions of the claimed rows, which the query updates and returns. -/
def claimResponse (limit : ℕ) (now : Timestamp) (tie : Uuid → ℕ) (snap : Database)
    (held : List RowKey) (cur : Database) : List Run :=
  (claimed limit now tie snap held cur).filterMap fun r =>
    (cur.run.get? r.runId).map (setRunning now)

theorem mem_claimResponse {limit : ℕ} {now : Timestamp} {tie : Uuid → ℕ} {snap cur : Database}
    {held : List RowKey} {r : Run} (h : r ∈ claimResponse limit now tie snap held cur) :
    ∃ r₀ ∈ cur.run, due now r₀ = true ∧ r = setRunning now r₀ := by
  obtain ⟨r', hr', heq⟩ := List.mem_filterMap.mp h
  obtain ⟨r₀, hget, rfl⟩ := Option.map_eq_some_iff.mp heq
  obtain ⟨hr₀, hid⟩ := Table.get?_eq_some.mp hget
  obtain ⟨-, -, -, r₁, hr₁, hid₁, hdue⟩ := mem_claimable.mp (mem_claimed.mp hr').1
  obtain rfl : r₀ = r₁ := Table.eq_of_key hr₀ hr₁ (hid.trans hid₁.symm)
  exact ⟨r₀, hr₀, hdue, rfl⟩

/-- The query of `_claim`: locked rows are skipped, so it waits for nothing. -/
def claim (limit : ℕ) (now : Timestamp) (tie : Uuid → ℕ) : Statement := fun snap held cur => {
  waits := []
  writes := some ((claimResponse limit now tie snap held cur).map fun r => .put (.run r)) }

/-- `limit = request.limit or 1`. -/
def nextLimit (limit : ℕ) : ℕ := if limit = 0 then 1 else limit

/-! ### Delete and SetStatus -/

/-- A `DeleteRunRequest`. -/
structure DeleteRunRequest where
  runId : Uuid
  threadId : Uuid
  filters : List AuthFilter := []

/-- The query of `Delete`. -/
def deleteRun (request : DeleteRunRequest) : Statement :=
  runTable.delete fun snap r =>
    r.runId = request.runId && r.threadId = request.threadId &&
      threadOwnerClause request.filters snap.thread r.threadId

/-- The row that a status write leaves. -/
def withStatus (status : RunStatus) (now : Timestamp) (r : Run) : Run :=
  { r with status := status, updatedAt := now }

@[simp] theorem withStatus_runId (st : RunStatus) (now : Timestamp) (r : Run) :
    (withStatus st now r).runId = r.runId := rfl
@[simp] theorem withStatus_threadId (st : RunStatus) (now : Timestamp) (r : Run) :
    (withStatus st now r).threadId = r.threadId := rfl
@[simp] theorem withStatus_status (st : RunStatus) (now : Timestamp) (r : Run) :
    (withStatus st now r).status = st := rfl

/-- The query of `SetStatus`. -/
def setRunStatus (runId : Uuid) (status : RunStatus) (now : Timestamp) : Statement :=
  runTable.update (fun _ r => r.runId = runId) (fun _ r => withStatus status now r)

/-! ### Cancel -/

/-- The action of a cancel; anything but a rollback is an interrupt. -/
inductive CancelRunAction
  | interrupt | rollback
  deriving Repr, DecidableEq

/-- `CancelRunStatus`; a value the service does not know selects as `all`. -/
inductive CancelRunStatus
  | pending | running | all
  deriving Repr, DecidableEq

/-- The runs that a cancel names: some runs of one thread, the runs of a status,
or none. -/
inductive CancelTarget
  | runIds (threadId : Uuid) (runIds : List Uuid)
  | status (status : CancelRunStatus)
  | unset
  deriving Repr, DecidableEq

/-- A `CancelRunRequest`. -/
structure CancelRunRequest where
  target : CancelTarget
  action : CancelRunAction := .interrupt
  filters : List AuthFilter := []

/-- The statuses that a selector names. -/
def CancelRunStatus.statuses : CancelRunStatus → List RunStatus
  | pending => [.pending]
  | running => [.running]
  | all => [.pending, .running]

/-- The pairs of thread and run that a cancel is about, before the ownership gate. -/
def cancelTargets (target : CancelTarget) (d : Database) : List (Uuid × Uuid) :=
  match target with
  | .runIds threadId runIds => runIds.map fun runId => (threadId, runId)
  | .status st => (d.run.select fun r => r.status ∈ st.statuses).map fun r => (r.threadId, r.runId)
  | .unset => []

/-- The ownership gate: with filters to enforce, only targets on the threads that
pass them are kept. -/
def ownedTargets (filters : List AuthFilter) (targets : List (Uuid × Uuid)) (d : Database) :
    List (Uuid × Uuid) :=
  match filtersClause filters with
  | none => targets
  | some p => targets.filter fun target =>
      (d.thread.select fun t => p.holds t.metadata).any fun t => t.threadId = target.1

/-- A control signal: its action is set as the value of the run's control key and
published on the run's control channel. -/
structure ControlSignal where
  threadId : Uuid
  runId : Uuid
  action : CancelRunAction
  deriving Repr, DecidableEq

/-- The signals that `Cancel` sends, one for each target. -/
def controlSignals (targets : List (Uuid × Uuid)) (action : CancelRunAction) :
    List ControlSignal :=
  targets.map fun target => ⟨target.1, target.2, action⟩

/-- The last query of `Cancel`: pending runs are deleted or set to `interrupted`. -/
def cancelRuns (runIds : List Uuid) (action : CancelRunAction) (now : Timestamp) : Statement :=
  match action with
  | .rollback => runTable.delete fun _ r => r.runId ∈ runIds && r.status = .pending
  | .interrupt => runTable.update (fun _ r => r.runId ∈ runIds && r.status = .pending)
      (fun _ r => withStatus .interrupted now r)

end NextRole
