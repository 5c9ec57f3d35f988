import NextRole.Api.Runs

/-!
# State updates through the API

`Threads.State.post` and `Threads.State.bulk` of `api/grpc/ops/threads.py`: a new
checkpoint is saved, the state of the thread is read, and the row of the thread gets
its values, next nodes and interrupts.  How a graph computes a state from the rows of
the checkpoint tables is a parameter.

## Main definitions

* `StateReader` — reading a state, with what it depends on.
* `getGraphId` — `GetGraphID` of the thread service.
* `StateUpdate`, `updateState` — an update and what it leaves.
* `HasRoot`, `latestState` — the state of the latest root checkpoint.

## Main results

* `latestState_congr` — the latest state of a thread depends on its checkpoints only.
-/

namespace NextRole

open ReadCommitted

/-! ### The state of a thread -/

/-- `aget_state` of the graphs, as the payload that is made of a snapshot.  It reads
the checkpoint that the configuration names, or else the latest root checkpoint. -/
structure StateReader where
  stateAt : Database → Uuid → Option Uuid → CheckpointPayload
  /-- A reader reads the checkpoints of the thread and nothing else. -/
  congr : ∀ {d d' : Database} {threadId : Uuid}, SameCheckpoints threadId d d' →
    stateAt d threadId = stateAt d' threadId

/-- A reader that finds nothing. -/
def emptyReader : StateReader := ⟨fun _ _ _ => {}, fun _ => rfl⟩

/-- The thread has a root checkpoint. -/
def HasRoot (threadId : Uuid) (d : Database) : Prop :=
  ∃ c ∈ d.checkpoints, c.threadId = threadId ∧ c.checkpointNs = ""

instance (threadId : Uuid) (d : Database) : Decidable (HasRoot threadId d) := by
  unfold HasRoot
  infer_instance

/-- The state of the latest root checkpoint of a thread, if it has one. -/
def latestState (reader : StateReader) (d : Database) (threadId : Uuid) : Option CheckpointPayload :=
  if HasRoot threadId d then some (reader.stateAt d threadId none) else none

theorem HasRoot.of_rows {threadId : Uuid} {d d' : Database}
    (hrows : ∀ x : Row, x.checkpointThread = some threadId →
      RowStore.row d x.key = some x → RowStore.row d' x.key = some x)
    (h : HasRoot threadId d) : HasRoot threadId d' := by
  obtain ⟨c, hc, hid, hns⟩ := h
  have hrow := hrows (.checkpoint c) (congrArg some hid) (mem_checkpoints_iff_row.mp hc)
  exact ⟨c, mem_checkpoints_iff_row.mpr hrow, hid, hns⟩

theorem hasRoot_congr {threadId : Uuid} {d d' : Database} (h : SameCheckpoints threadId d d') :
    HasRoot threadId d ↔ HasRoot threadId d' :=
  ⟨.of_rows fun x hx => (h x hx).mp, .of_rows fun x hx => (h x hx).mpr⟩

theorem latestState_congr {reader : StateReader} {threadId : Uuid} {d d' : Database}
    (h : SameCheckpoints threadId d d') :
    latestState reader d threadId = latestState reader d' threadId := by
  simp only [latestState, hasRoot_congr h, reader.congr h]

theorem latestState_of_hasRoot {reader : StateReader} {threadId : Uuid} {d : Database}
    (h : HasRoot threadId d) :
    latestState reader d threadId = some (reader.stateAt d threadId none) :=
  if_pos h

theorem latestState_of_not_hasRoot {reader : StateReader} {threadId : Uuid} {d : Database}
    (h : ¬ HasRoot threadId d) : latestState reader d threadId = none :=
  if_neg h

/-- Puts of checkpoints keep a root checkpoint, or replace it by one. -/
theorem HasRoot.puts {threadId : Uuid} {d : Database} (h : HasRoot threadId d) (rows : List Row) :
    HasRoot threadId (applyAll d (rows.map Write.put)) := by
  obtain ⟨c, hc, hid, hns⟩ := h
  rcases row_applyAll d (rows.map Write.put) (Row.checkpoint c).key with
    ⟨w, hw, hkey, hrow⟩ | ⟨-, hrow⟩
  · obtain ⟨x, -, rfl⟩ := List.mem_map.mp hw
    cases x with
    | checkpoint c' =>
      -- the key has the thread and the namespace
      have heq : (c'.threadId, c'.checkpointNs, c'.checkpointId) =
          (c.threadId, c.checkpointNs, c.checkpointId) := RowKey.checkpoint.inj hkey
      simp only [Prod.mk.injEq] at heq
      rw [← hkey] at hrow
      exact ⟨c', mem_checkpoints_iff_row.mpr hrow, heq.1.trans hid, heq.2.1.trans hns⟩
    | _ => cases hkey
  · rw [mem_checkpoints_iff_row.mp hc] at hrow
    exact ⟨c, mem_checkpoints_iff_row.mpr hrow, hid, hns⟩

theorem hasRoot_puts {threadId : Uuid} {c : Checkpoint} {rows : List Row}
    (hmem : .checkpoint c ∈ rows) (hid : c.threadId = threadId) (hns : c.checkpointNs = "")
    (d : Database) : HasRoot threadId (applyAll d (rows.map Write.put)) := by
  obtain ⟨before, after, rfl⟩ := List.append_of_mem hmem
  rw [List.map_append, List.map_cons, applyAll_append, applyAll_cons]
  refine HasRoot.puts ⟨c, ?_, hid, hns⟩ after
  exact Table.mem_put.mpr (Or.inl rfl)

/-! ### The graph of a thread -/

/-- `kwargs->'config'->'configurable'->>'graph_id'`. -/
def Run.graphId (r : Run) : Option String :=
  ((r.kwargs.get? "config").bind fun c => c.get? "configurable").bind fun c => c.text? "graph_id"

/-- `GetGraphID`: the graph of the latest run that has one, where runs of one instant
come in the order of the table. -/
def getGraphId (threadId : Uuid) (d : Database) : Option String :=
  let runs := d.run.select fun r => r.threadId = threadId && r.graphId.isSome
  ((runs.insertionSort fun a b => b.createdAt ≤ a.createdAt).head?.bind Run.graphId).filter
    fun gid => gid ≠ ""

/-- `graph_id or metadata.get("graph_id")` is set. -/
def hasGraph (t : Thread) (d : Database) : Bool :=
  (getGraphId t.threadId d).isSome || truthy (t.metadata.get? "graph_id")

/-! ### Updating the state -/

/-- A call of `Threads.State.post`, or of `Threads.State.bulk`, with the rows that the
graph saves for it. -/
structure StateUpdate where
  caller : Caller := none
  threadId : Uuid
  /-- `checkpoint_id` of the configuration. -/
  checkpointId : Option Uuid := none
  saved : List Row
  bulk : Bool := false
  now : Timestamp

/-- The write of the status of the thread, with the state that is read. -/
def StateUpdate.setStatus (u : StateUpdate) (checkpoint : CheckpointPayload) :
    SetThreadStatusRequest where
  threadId := u.threadId
  checkpoint := some checkpoint
  -- `post` accepts a thread that is not busy
  expectedStatus := if u.bulk then [] else [.interrupted, .idle, .error]

/-- The database after the rows of an update are saved. -/
def StateUpdate.save (u : StateUpdate) (d : Database) : Database :=
  applyAll d (u.saved.map Write.put)

/-- `Threads.State.post` and `Threads.State.bulk`.  The state is read at the checkpoint
that the update names, not at the one that it saves. -/
def updateState (reader : StateReader) (u : StateUpdate) (d : Database) :
    Except HTTPException Database :=
  match (d.thread.get? u.threadId).filter fun t => admits (authFilters u.caller) t.metadata with
  | none => .error ⟨404, "Thread " ++ u.threadId.text ++ " not found"⟩
  | some t =>
    if !u.bulk && hasInflight d u.threadId then
      .error ⟨409, "Thread is busy with a running job. Cannot update state."⟩
    else if !hasGraph t d then
      .error ⟨400, "Thread '" ++ u.threadId.text ++ "' has no assigned graph ID. This usually occurs when no runs have been made on this particular thread. This operation requires a graph ID. Please ensure a run has been made for the thread or manually update the thread metadata (by setting the 'graph_id' field) before running this operation."⟩
    else
      let checkpoint := reader.stateAt (u.save d) u.threadId u.checkpointId
      .ok (execute (.setThreadStatus (u.setStatus checkpoint) u.now) (u.save d))

/-- What an update that succeeds has found and leaves. -/
theorem updateState_eq_ok {reader : StateReader} {u : StateUpdate} {d d' : Database}
    (h : updateState reader u d = .ok d') :
    (∃ t ∈ d.thread, t.threadId = u.threadId) ∧
      (u.bulk = false → hasInflight d u.threadId = false) ∧
        d' = execute (.setThreadStatus
          (u.setStatus (reader.stateAt (u.save d) u.threadId u.checkpointId)) u.now) (u.save d) := by
  unfold updateState at h
  split at h
  · cases h
  · next t hfind =>
    obtain ⟨hget, -⟩ := Option.filter_eq_some_iff.mp hfind
    obtain ⟨ht, hid⟩ := Table.get?_eq_some.mp hget
    split at h
    · cases h
    · next hbusy =>
      split at h
      · cases h
      · refine ⟨⟨t, ht, hid⟩, fun hbulk => ?_, (Except.ok.inj h).symm⟩
        simpa [hbulk] using hbusy

end NextRole
