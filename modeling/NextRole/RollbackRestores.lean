import NextRole.Api.Worker
import NextRole.Runtime.Checkpoint

/-!
# The thread after a rollback

A run that is rolled back is deleted with its row in `run`; what its execution has saved
in the checkpoint tables stays.  So the thread is as it was before the run exactly when
the run has saved no checkpoint and no checkpoint write.

## Main definitions

* `SavedBy` — the rows that a run saves.
* `RollbackCall` — the two calls that roll a run back.
* `Restored` — the thread is as it was before the run.

## Main results

* `RollbackCall.sameCheckpoints` — a rollback leaves the checkpoint tables alone.
* `restored_iff` — **when the thread is restored**.
* `not_restored` — a run that has saved one checkpoint.
-/

namespace NextRole

open ReadCommitted

/-- The rows that a run saves are rows of its thread in the checkpoint tables, and its
checkpoints carry its id. -/
structure SavedBy (run : Run) (saved : List Row) : Prop where
  thread : ∀ x ∈ saved, x.checkpointThread = some run.threadId
  runId : ∀ c, .checkpoint c ∈ saved → c.runId = some run.runId

/-- A call that rolls a run back: the joint status that the worker writes for it, or the
write of a cancel that finds it pending. -/
inductive RollbackCall (run : Run) : Rpc → Prop
  | joint {request now} (hstatus : request.runStatus = .rollback)
      (hrun : request.runId = run.runId) (hthread : request.threadId = run.threadId) :
      RollbackCall run (.setJointStatus request now)
  | cancel {runIds now} (hmem : run.runId ∈ runIds) (hpending : run.status = .pending) :
      RollbackCall run (.cancelRuns runIds .rollback now)

theorem rollbackCall_endCall {run : Run} {report : RunReport} (now : Timestamp)
    (h : report.ended = .rollback) (htemp : run.temporary = false) :
    RollbackCall run (endCall run report now) := by
  rw [endCall_of_not_temporary now (by simp [h]) htemp]
  refine .joint ?_ (jointStatus_runId run report) (jointStatus_threadId run report)
  rw [jointStatus, h]

/-- Nothing of the run is left, its thread has the latest checkpoints of before, and the
checkpoints of other runs are the same: `d` is the database before the run and `d'` the
one after the rollback. -/
structure Restored (run : Run) (saved : List Row) (d d' : Database) : Prop where
  noRun : ∀ r ∈ d'.run, r.runId ≠ run.runId
  noCheckpoint : ∀ c ∈ d'.checkpoints, c.runId ≠ some run.runId
  noWrite : ∀ w, .write w ∈ saved → w ∉ d'.checkpointWrites
  latest : ∀ ns c, IsLatest d' run.threadId ns c ↔ IsLatest d run.threadId ns c
  others : ∀ c, c.runId ≠ some run.runId → (c ∈ d'.checkpoints ↔ c ∈ d.checkpoints)

variable {run : Run} {saved : List Row} {rpc : Rpc} {d : Database}

/-- **A rollback leaves the checkpoint tables alone.** -/
theorem RollbackCall.sameCheckpoints (h : RollbackCall run rpc) (k : Uuid) (d : Database) :
    SameCheckpoints k d (execute rpc d) := by
  refine sameCheckpoints_execute ?_ ?_ d
  · intro threadId filters heq
    subst heq
    cases h
  · intro threadId filters now heq
    subst heq
    cases h

theorem RollbackCall.mem_checkpoints (h : RollbackCall run rpc) {c : Checkpoint} :
    c ∈ (execute rpc d).checkpoints ↔ c ∈ d.checkpoints :=
  ((h.sameCheckpoints c.threadId d).mem_checkpoints rfl).symm

theorem RollbackCall.mem_checkpointWrites (h : RollbackCall run rpc) {w : CheckpointWrite} :
    w ∈ (execute rpc d).checkpointWrites ↔ w ∈ d.checkpointWrites := by
  rw [mem_checkpointWrites_iff_row, mem_checkpointWrites_iff_row]
  exact (h.sameCheckpoints w.threadId d (.write w) rfl).symm

/-- A rollback deletes the row of the run. -/
theorem RollbackCall.not_mem_run (h : RollbackCall run rpc) (hrun : run ∈ d.run) :
    ∀ r ∈ (execute rpc d).run, r.runId ≠ run.runId := by
  intro r hr hid
  cases h with
  | joint hstatus hrunId hthread =>
    obtain ⟨hmem, hnot⟩ := (mem_run_setJointStatus_rollback hstatus).mp hr
    obtain rfl : r = run := Table.eq_of_key hmem hrun hid
    exact hnot ⟨hrunId.symm, hthread.symm⟩
  | cancel hmemIds hpending =>
    obtain ⟨hmem, hnot⟩ := mem_run_cancelRuns_rollback.mp hr
    obtain rfl : r = run := Table.eq_of_key hmem hrun hid
    exact hnot ⟨hmemIds, hpending⟩

theorem exists_checkpoint_of_saved (hsaved : SavedBy run saved) {c : Checkpoint}
    (h : .checkpoint c ∈ saved) :
    ∃ c' ∈ (saveRows saved d).checkpoints, c'.runId = some run.runId := by
  obtain ⟨y, hy, hkey, hrow⟩ := exists_row_saveRows h d
  cases y with
  | checkpoint c' => exact ⟨c', mem_checkpoints_iff_row.mpr hrow, hsaved.runId c' hy⟩
  | _ => cases hkey

theorem exists_write_of_saved {w : CheckpointWrite} (h : .write w ∈ saved) :
    ∃ w' ∈ (saveRows saved d).checkpointWrites, .write w' ∈ saved := by
  obtain ⟨y, hy, hkey, hrow⟩ := exists_row_saveRows h d
  cases y with
  | write w' => exact ⟨w', mem_checkpointWrites_iff_row.mpr hrow, hy⟩
  | _ => cases hkey

theorem mem_checkpoints_saveRows (h : ∀ c, .checkpoint c ∉ saved) {c : Checkpoint} :
    c ∈ (saveRows saved d).checkpoints ↔ c ∈ d.checkpoints := by
  have hne : ∀ y ∈ saved, y.key ≠ (Row.checkpoint c).key := by
    intro y hy hkey
    cases y with
    | checkpoint c' => exact h c' hy
    | _ => cases hkey
  rw [mem_checkpoints_iff_row, mem_checkpoints_iff_row, row_saveRows_of_ne hne]

/-- **The thread is restored** exactly when the run has saved no checkpoint and no
checkpoint write, whichever of the two calls rolls it back. -/
theorem restored_iff (hrun : run ∈ d.run) (hnew : ∀ c ∈ d.checkpoints, c.runId ≠ some run.runId)
    (hsaved : SavedBy run saved) (hrpc : RollbackCall run rpc) :
    Restored run saved d (execute rpc (saveRows saved d)) ↔
      (∀ c, .checkpoint c ∉ saved) ∧ ∀ w, .write w ∉ saved := by
  constructor
  · intro h
    constructor
    · intro c hc
      obtain ⟨c', hc', hid⟩ := exists_checkpoint_of_saved (d := d) hsaved hc
      exact h.noCheckpoint c' (hrpc.mem_checkpoints.mpr hc') hid
    · intro w hw
      obtain ⟨w', hw', hmem⟩ := exists_write_of_saved (d := d) hw
      exact h.noWrite w' hmem (hrpc.mem_checkpointWrites.mpr hw')
  · rintro ⟨hcheckpoints, hwrites⟩
    -- the call leaves the checkpoints alone, and none was saved
    have hsame : ∀ c, c ∈ (execute rpc (saveRows saved d)).checkpoints ↔ c ∈ d.checkpoints := by
      intro c
      rw [hrpc.mem_checkpoints, mem_checkpoints_saveRows hcheckpoints]
    constructor
    · refine hrpc.not_mem_run ?_
      rw [run_saveRows hsaved.thread]
      exact hrun
    · intro c hc
      exact hnew c ((hsame c).mp hc)
    · intro w hw
      exact absurd hw (hwrites w)
    · intro ns c
      simp only [IsLatest, hsame]
    · intro c _
      exact hsame c

/-- A running run on the thread of `oneThread`, where another one has saved a checkpoint. -/
def secondOfThread : Run := { runId := 7, threadId := 10, assistantId := 1, status := .running }

def beforeSecond : Database :=
  { oneThread with
    run := Table.empty.put secondOfThread
    checkpoints := Table.empty.put
      { threadId := 10, checkpointId := 1, runId := some 6, checkpoint := .obj [] } }

/-- The checkpoint that the second run saves. -/
def checkpointOfSecond : Checkpoint where
  threadId := 10
  checkpointId := 2
  runId := some 7
  parentCheckpointId := some 1
  checkpoint := .obj []

/-- A run that is rolled back before it has saved anything. -/
theorem restored_iff_witness :
    Restored secondOfThread [] beforeSecond
      (execute (endCall secondOfThread { ended := .rollback } 5) (saveRows [] beforeSecond)) :=
  (restored_iff (by decide +kernel) (by decide +kernel) ⟨by simp, by simp⟩
    (rollbackCall_endCall 5 rfl (by decide +kernel))).mpr ⟨by simp, by simp⟩

/-- The checkpoint of a run that is rolled back stays, and is the latest one. -/
theorem not_restored :
    ¬ Restored secondOfThread [.checkpoint checkpointOfSecond] beforeSecond
      (execute (endCall secondOfThread { ended := .rollback } 5)
        (saveRows [.checkpoint checkpointOfSecond] beforeSecond)) := by
  intro h
  exact h.noCheckpoint checkpointOfSecond (by decide +kernel) rfl

end NextRole
