import NextRole.Api.Runs

/-!
# The end of a run in the worker

`worker` of `api/worker.py` after the execution of a run: which call it makes for each
way in which the execution can end, and with which checkpoint and exception.

## Main definitions

* `Run.temporary` — whether the run's thread goes with it.
* `RunException`, `RunEnd`, `attemptEnd` — how an execution ends.
* `endCall` — the call that the worker makes then.
* `saveRows` — the database after the rows of an execution are saved.
-/

namespace NextRole

open ReadCommitted

/-- `run["kwargs"].get("temporary", False)`. -/
def Run.temporary (run : Run) : Bool := truthy (run.kwargs.get? "temporary")

theorem Run.temporary_congr {r r' : Run} (h : r.kwargs = r'.kwargs) : r.temporary = r'.temporary := by
  rw [Run.temporary, Run.temporary, h]

/-- An exception, with the name of its type and its message. -/
structure RunException where
  error : String
  message : String
  deriving Repr, DecidableEq

/-- The text that is sent for an exception: `_encrypt_thread_field` makes it a dictionary. -/
def RunException.json (exception : RunException) : String :=
  "\x7b\"error\":" ++ exception.error.quote ++ ",\"message\":" ++ exception.message.quote ++ "\x7d"

/-- How the execution of a run ends. -/
inductive RunEnd
  | success
  | timeout (exception : RunException)
  | rollback
  | interrupted (exception : RunException)
  | retriable
  | error (exception : RunException)
  deriving Repr, DecidableEq

/-- An attempt over the limit does not execute the run but raises. -/
def attemptEnd (maxRetries attempt : ℕ) (run : Run) (execution : RunEnd) : RunEnd :=
  if maxRetries < attempt then
    .error ⟨"RuntimeError", "Run " ++ run.runId.text ++ " exceeded max attempts (" ++ toString maxRetries ++ ").\n\nThis usually means the pod processing the run became unhealthy and the run was re-queued repeatedly. Check for OOM kills, pod restarts, liveness/readiness probe failures, or other signs of pod instability in your deployment's logs and metrics.\n\n"⟩
  else execution

/-- What the worker knows when an execution has ended: the checkpoint that its stream
reported last, and the state that is fetched when a successful one reported none. -/
structure RunReport where
  ended : RunEnd
  graphId : String := ""
  checkpoint : Option CheckpointPayload := none
  fetched : Option CheckpointPayload := none

/-- The joint status that the worker writes for a run whose thread stays. -/
def jointStatus (run : Run) (report : RunReport) : SetJointStatusRequest :=
  match report.ended with
  | .success => {
      threadId := run.threadId, runId := run.runId, runStatus := .success, graphId := report.graphId
      checkpoint := report.checkpoint.or report.fetched }
  | .timeout exception => {
      threadId := run.threadId, runId := run.runId, runStatus := .timeout, graphId := report.graphId
      checkpoint := report.checkpoint, exception := some exception.json }
  | .rollback => {
      threadId := run.threadId, runId := run.runId, runStatus := .rollback, graphId := report.graphId }
  | .interrupted exception => {
      threadId := run.threadId, runId := run.runId, runStatus := .interrupted
      graphId := report.graphId, checkpoint := report.checkpoint, exception := some exception.json }
  | .retriable => {
      threadId := run.threadId, runId := run.runId, runStatus := .pending }
  | .error exception => {
      threadId := run.threadId, runId := run.runId, runStatus := .error, graphId := report.graphId
      checkpoint := report.checkpoint, exception := some exception.json }

/-- The call that the worker makes at the end: a retriable failure puts the run back,
a temporary thread is deleted, and any other run gets its status with its thread. -/
def endCall (run : Run) (report : RunReport) (now : Timestamp) : Rpc :=
  if report.ended = .retriable then .setRunStatus run.runId .pending now
  else if run.temporary then .deleteThread run.threadId []
  else .setJointStatus (jointStatus run report) now

@[simp] theorem jointStatus_threadId (run : Run) (report : RunReport) :
    (jointStatus run report).threadId = run.threadId := by
  unfold jointStatus
  split <;> rfl

@[simp] theorem jointStatus_runId (run : Run) (report : RunReport) :
    (jointStatus run report).runId = run.runId := by
  unfold jointStatus
  split <;> rfl

/-! ### What the joint status says -/

/-- The ends of a run that fail. -/
def RunEnd.failed : RunEnd → Bool
  | timeout _ | error _ => true
  | _ => false

theorem RunException.json_ne_empty (exception : RunException) : exception.json ≠ "" := by
  intro h
  have hlen := congrArg String.length h
  simp [json] at hlen

theorem inflight_jointStatus {run : Run} {report : RunReport} (h : report.ended ≠ .retriable) :
    (jointStatus run report).runStatus.inflight = false := by
  unfold jointStatus
  split <;> first | rfl | contradiction

theorem base_jointStatus {run : Run} {report : RunReport} (h : report.ended ≠ .retriable) :
    (jointStatus run report).base = if report.ended.failed then .error
      else if hasNext (jointStatus run report).checkpoint then .interrupted else .idle := by
  cases hended : report.ended with
  | retriable => exact absurd hended h
  | _ =>
    simp [jointStatus, hended, SetJointStatusRequest.base, RunEnd.failed, exceptionOf,
      RunException.json_ne_empty]

/-- The checkpoint that is passed was reported or fetched. -/
theorem checkpoint_jointStatus {run : Run} {report : RunReport} {checkpoint : CheckpointPayload}
    (h : (jointStatus run report).checkpoint = some checkpoint) :
    report.checkpoint = some checkpoint ∨ report.fetched = some checkpoint := by
  cases hended : report.ended with
  | success =>
    have hor : report.checkpoint.or report.fetched = some checkpoint := by
      simpa [jointStatus, hended] using h
    rcases Option.or_eq_some_iff.mp hor with hreported | ⟨-, hfetched⟩
    · exact Or.inl hreported
    · exact Or.inr hfetched
  | rollback => simp [jointStatus, hended] at h
  | retriable => simp [jointStatus, hended] at h
  | _ =>
    left
    simpa [jointStatus, hended] using h

theorem endCall_of_retriable {run : Run} {report : RunReport} (now : Timestamp)
    (h : report.ended = .retriable) : endCall run report now = .setRunStatus run.runId .pending now :=
  if_pos h

theorem endCall_of_not_temporary {run : Run} {report : RunReport} (now : Timestamp)
    (h : report.ended ≠ .retriable) (htemp : run.temporary = false) :
    endCall run report now = .setJointStatus (jointStatus run report) now := by
  rw [endCall, if_neg h, if_neg (by simp [htemp])]

/-! ### What an execution saves -/

/-- The database after the rows of an execution are saved. -/
def saveRows (saved : List Row) (d : Database) : Database := applyAll d (saved.map Write.put)

theorem run_saveRows {saved : List Row} {k : Uuid}
    (h : ∀ x ∈ saved, x.checkpointThread = some k) (d : Database) : (saveRows saved d).run = d.run := by
  refine applyAll_run fun w hw runId => ?_
  obtain ⟨x, hx, rfl⟩ := List.mem_map.mp hw
  exact checkpointThread_run_ne (h x hx)

theorem thread_saveRows {saved : List Row} {k : Uuid}
    (h : ∀ x ∈ saved, x.checkpointThread = some k) (d : Database) :
    (saveRows saved d).thread = d.thread := by
  refine applyAll_thread fun w hw threadId => ?_
  obtain ⟨x, hx, rfl⟩ := List.mem_map.mp hw
  exact checkpointThread_thread_ne (h x hx)

theorem exists_row_saveRows {saved : List Row} {x : Row} (hx : x ∈ saved) (d : Database) :
    ∃ y ∈ saved, y.key = x.key ∧ RowStore.row (saveRows saved d) y.key = some y := by
  rcases row_applyAll d (saved.map Write.put) x.key with ⟨w, hw, hkey, hrow⟩ | ⟨hnot, -⟩
  · obtain ⟨y, hy, rfl⟩ := List.mem_map.mp hw
    have hkey' : y.key = x.key := hkey
    refine ⟨y, hy, hkey', ?_⟩
    rw [hkey']
    exact hrow
  · exact absurd (List.mem_map.mpr ⟨Write.put x, List.mem_map.mpr ⟨x, hx, rfl⟩, rfl⟩) hnot

theorem row_saveRows_of_ne {saved : List Row} {x : Row} (h : ∀ y ∈ saved, y.key ≠ x.key)
    (d : Database) : RowStore.row (saveRows saved d) x.key = RowStore.row d x.key := by
  refine row_applyAll_of_not_mem (fun hmem => ?_) d
  obtain ⟨w, hw, hkey⟩ := List.mem_map.mp hmem
  obtain ⟨y, hy, rfl⟩ := List.mem_map.mp hw
  exact h y hy hkey

end NextRole
