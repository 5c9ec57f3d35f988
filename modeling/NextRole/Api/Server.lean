import NextRole.Api.Worker
import NextRole.Lib.Transition

/-!
# Clients and workers over one database

The runs of the API as a whole: clients create runs and call the services, workers
claim runs, save the checkpoints of their graphs and end them.  Every call of a
service is one step.  Besides the database and what the workers hold, a state records
what has been asked for: the runs on temporary threads, the threads that callers have
named, and those that workers have deleted.

## Main definitions

* `Server`, `ServerAction`, `serverStep` — the states and the steps.
* `server` — the machine.
-/

namespace NextRole

structure Server where
  db : Database
  /-- The runs that workers have claimed and not ended. -/
  held : List Run := []
  /-- The runs created on temporary threads, with these threads. -/
  temporary : List (Uuid × Uuid) := []
  /-- The threads that callers have named to create them or runs on them. -/
  named : List Uuid := []
  /-- The threads that workers have deleted at the end of a run. -/
  cleaned : List Uuid := []

inductive ServerAction
  /-- The query of `create_valid_run`; its cancel of other runs is a call of its own. -/
  | create (call : CreateCall)
  /-- A call of a client on threads and runs, or the write of a state update. -/
  | client (rpc : Rpc)
  | claim (limit : ℕ) (now : Timestamp) (tie : Uuid → ℕ)
  /-- The graph of a run saves a row of a checkpoint. -/
  | save (run : Run) (row : Row)
  | finish (run : Run) (attempt : ℕ) (report : RunReport) (now : Timestamp)

/-- The calls of clients, other than the creation of a run. -/
def Rpc.byClients : Rpc → Bool
  | .createThread .. | .patchThread .. | .deleteThread .. | .copyThread .. => true
  | .setThreadStatus .. | .deleteRun .. | .cancelRuns .. => true
  | _ => false

/-- The thread that a call names to create it. -/
def Rpc.names? : Rpc → Option Uuid
  | .createThread threadId _ _ => some threadId
  | _ => none

/-- The thread that a caller names for a run.  With the argument `temporary` it is
one that the endpoint has drawn. -/
def CreateCall.names? (call : CreateCall) : Option Uuid :=
  if call.temporary then none else call.threadId

/-- Whether the thread of the run is to go with it. -/
def CreateCall.isTemporary (call : CreateCall) : Bool :=
  call.payload.temporary call.threadId call.temporary

theorem CreateCall.temporary_of_mem {call : CreateCall} {snap cur : Database} {r : Run}
    (hr : r ∈ insertedRun call.params snap cur) : r.temporary = call.isTemporary := by
  obtain ⟨-, t, -, a, -, rfl⟩ := mem_insertedRun.mp hr
  have hget : (insertRun call.params t a).kwargs.get? "temporary" = some (.bool call.isTemporary) := by
    simp only [insertRun, params, createParams, createRequest]
    rw [Json.set, Json.get?_concat_of_ne _ _ (by decide), Json.get?_obj, Json.lookup_merge]
    rfl
  rw [Run.temporary, hget]
  cases call.isTemporary <;> rfl

theorem CreateCall.names?_of_isTemporary {call : CreateCall} (h : call.isTemporary = true) :
    call.names? = none := by
  simp only [isTemporary, RunPayload.temporary, Bool.and_eq_true, Bool.or_eq_true,
    Option.isNone_iff_eq_none] at h
  unfold names?
  split
  · rfl
  · next htemp => exact h.1.resolve_left htemp

/-- The report of an attempt, which fails if it is one too many. -/
def RunReport.ofAttempt (report : RunReport) (maxRetries attempt : ℕ) (run : Run) : RunReport :=
  { report with ended := attemptEnd maxRetries attempt run report.ended }

/-- One step; `maxRetries` is `BG_JOB_MAX_RETRIES`. -/
def serverStep (maxRetries : ℕ) (s : Server) : ServerAction → Option Server
  | .create call =>
    if (validatePayload call).isSome then some s
    else some { s with
      db := execute (.createRun (createRequest call) call.env) s.db
      temporary := if call.isTemporary && decide (Inserts call s.db) then
        (call.env.freshRunId, call.params.threadId) :: s.temporary else s.temporary
      named := call.names?.toList ++ s.named }
  | .client rpc =>
    if rpc.byClients then some { s with
      db := execute rpc s.db
      named := rpc.names?.toList ++ s.named }
    else none
  | .claim limit now tie => some { s with
      db := execute (.next limit now tie) s.db
      held := claimResponse (nextLimit limit) now tie s.db [] s.db ++ s.held }
  | .save run row =>
    -- a temporary run has no checkpointer
    if run ∈ s.held ∧ run.temporary = false ∧ row.checkpointThread = some run.threadId then
      some { s with db := RowStore.apply s.db (.put row) }
    else none
  | .finish run attempt report now =>
    let report := report.ofAttempt maxRetries attempt run
    if run ∈ s.held then some { s with
      db := execute (endCall run report now) s.db
      held := s.held.erase run
      cleaned := if run.temporary && report.ended ≠ .retriable then run.threadId :: s.cleaned
        else s.cleaned }
    else none

/-- Clients and workers, started on a store without threads and runs. -/
def server (maxRetries : ℕ) : Machine Server ServerAction where
  init s := EmptyStore s.db ∧ s.held = [] ∧ s.temporary = [] ∧ s.named = [] ∧ s.cleaned = []
  step := serverStep maxRetries

end NextRole
