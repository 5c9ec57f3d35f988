import NextRole.Lib.Isolation
import NextRole.Servicers.Threads

/-!
# The transactions of the services

Each call that writes, as one transaction of the list of statements that its
service runs.  The connection pool is in autocommit mode, so a call is a
transaction of one statement except where the service opens a transaction block.
Reads that come before the write of a call, as in `Runs.Cancel`, have their own
transactions; what they found is in the label of the write.

## Main definitions

* `Rpc`, `statements` — the calls and their statements.
* `services` — interleaved calls over a database.
* `claimReply` — what a call of `Runs.Next` returns.
* `oneThread`, `atOnce` — a database and runs for concrete examples.
-/

namespace NextRole

open ReadCommitted

/-- A call that writes, with the start time of its transaction and the uuids that
it draws. -/
inductive Rpc
  /-- `Runs.Create`. -/
  | createRun (request : CreateRunRequest) (env : CreateEnv)
  /-- `Runs.Next`: one execution of its claim. -/
  | next (limit : ℕ) (now : Timestamp) (tie : Uuid → ℕ)
  /-- `Runs.Delete`. -/
  | deleteRun (request : DeleteRunRequest)
  /-- `Runs.SetStatus`. -/
  | setRunStatus (runId : Uuid) (status : RunStatus) (now : Timestamp)
  /-- The write of `Runs.Cancel` for the targets that it found. -/
  | cancelRuns (runIds : List Uuid) (action : CancelRunAction) (now : Timestamp)
  /-- `Threads.Create`. -/
  | createThread (threadId : Uuid) (metadata : Json) (now : Timestamp)
  /-- `Threads.Patch`. -/
  | patchThread (threadId : Uuid) (metadata : Json) (filters : List AuthFilter) (now : Timestamp)
  /-- `Threads.Delete`. -/
  | deleteThread (threadId : Uuid) (filters : List AuthFilter)
  /-- `Threads.SetStatus`. -/
  | setThreadStatus (request : SetThreadStatusRequest) (now : Timestamp)
  /-- `Threads.SetJointStatus`. -/
  | setJointStatus (request : SetJointStatusRequest) (now : Timestamp)
  /-- `Threads.Copy`. -/
  | copyThread (threadId newId : Uuid) (filters : List AuthFilter) (now : Timestamp)

/-- The statements of a call's transaction. -/
def statements : Rpc → List Statement
  | .createRun request env => [createRun (createParams request env)]
  | .next limit now tie => [claim (nextLimit limit) now tie]
  | .deleteRun request => [deleteRun request]
  | .setRunStatus runId status now => [setRunStatus runId status now]
  | .cancelRuns runIds action now => [cancelRuns runIds action now]
  | .createThread threadId metadata now => [createThread threadId metadata now]
  | .patchThread threadId metadata filters now => [patchThread threadId metadata filters now]
  | .deleteThread threadId filters => deleteThread threadId filters
  | .setThreadStatus request now => [setThreadStatus request now]
  | .setJointStatus request now => setJointStatus request now
  | .copyThread threadId newId filters now => copyThread threadId newId filters now

/-- The states of the services: the committed database and the open transactions. -/
abbrev ServiceState := State Rpc Database RowKey

/-- The services, started on a database that satisfies `init`. -/
abbrev services (init : Database → Prop) : Machine ServiceState (Action Rpc) :=
  machine statements init

/-- What a call of `Runs.Next` returns, when the statement of its claim has finished.  A
call that waits makes a second claim only after a first one that returned nothing. -/
def claimReply (t : Txn Rpc Database RowKey) : List Run :=
  match t.rpc, t.done with
  | .next limit now tie, ρ :: _ => claimResponse (nextLimit limit) now tie ρ.snap ρ.held ρ.cur
  | _, _ => []

/-! ### A small database -/

/-- A transaction that runs from its beginning to its commit with nothing between. -/
def atOnce (rpc : Rpc) : List (Action Rpc) := [.begin 0 rpc, .snapshot 0, .exec 0, .commit 0]

/-- A database with one assistant and one idle thread. -/
def oneThread : Database :=
  { Database.fresh (Table.empty.put { assistantId := 1, graphId := "agent" }) with
    thread := Table.empty.put { threadId := 10 } }

/-- The creation of run `runId` on the thread of `oneThread`, to be enqueued behind others. -/
def enqueue (runId : Uuid) : Rpc :=
  .createRun {
    assistantId := 1, runId := some runId, threadId := some 10, status := some .pending,
    multitaskStrategy := some .enqueue } ⟨0, 0, 0⟩

/-- The successful end of run `runId` of the same thread. -/
def finish (runId : Uuid) : Rpc :=
  .setJointStatus { threadId := 10, runId := runId, runStatus := .success } 6

/-- A store with one assistant. -/
def oneAssistant : Database := Database.fresh (Table.empty.put { assistantId := 1, graphId := "agent" })

/-- The creation of run `runId` on thread `10`, which is created if it is missing. -/
def createOn (runId : Uuid) : Rpc :=
  .createRun {
    assistantId := 1, runId := some runId, threadId := some 10, status := some .pending,
    multitaskStrategy := some .enqueue, createIfNotExists := true } ⟨0, 0, 0⟩

end NextRole
