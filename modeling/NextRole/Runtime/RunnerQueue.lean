import NextRole.Lib.Transition
import NextRole.Schema

/-!
# The queue of a worker process

`queue` of `runtime_postgres/queue.py`: a loop asks for as many runs as there are free runners and
gives each run a runner.  A runner is put back when its worker is done; with isolated loops that
happens on another thread, which hands the call to the event loop.

## Main definitions

* `RunnerQueue` — the runners, where they are, and what the loop is at.
* `releaseRunner`, `putNowait` — how a runner is put back.
* `runnerQueue` — the loop with its workers.
* `RespondsWithinLimit` — an answer has at most as many runs as were asked for.
-/

namespace NextRole

/-- A worker that was dispatched: its runner, and whether it still runs.  It stays until its
callback has put the runner back. -/
structure QueueWorker where
  runner : ℕ
  running : Bool
  deriving Repr, DecidableEq

/-- What the loop is at. -/
inductive QueuePhase
  /-- `while True`. -/
  | top
  /-- Before expired runners are put back. -/
  | restoring
  /-- `runners.wait()`. -/
  | waiting
  /-- `Runs.next`, with the limit that was read before it. -/
  | fetching (limit : ℕ)
  /-- The runs of the answer that are left. -/
  | iterating (runs : List Run)
  /-- `get_graph_id` of a run, with a runner held for it. -/
  | resolving (run : Run) (runner : ℕ) (runs : List Run)
  /-- The loop is cancelled. -/
  | ended (runner : Option ℕ)
  deriving DecidableEq

/-- The runner that the loop holds. -/
def QueuePhase.held : QueuePhase → List ℕ
  | .resolving _ runner _ => [runner]
  | .ended runner => runner.toList
  | _ => []

/-- The state of `queue`. -/
structure RunnerQueue where
  /-- `N_JOBS_PER_WORKER`. -/
  concurrency : ℕ
  /-- `BG_JOB_ISOLATED_LOOPS`. -/
  isolated : Bool
  runners : List ℕ
  expired : List ℕ := []
  /-- Runners whose `put_nowait` was handed to the event loop and has not run yet. -/
  ready : List ℕ := []
  workers : List QueueWorker := []
  phase : QueuePhase := .top
  /-- The event loop is closed. -/
  closed : Bool := false
  /-- `get_nowait` has raised `QueueEmpty`. -/
  emptied : Bool := false
  deriving DecidableEq

namespace RunnerQueue

/-- `runners.put_nowait`, which raises where the queue is full. -/
def putNowait (s : RunnerQueue) (runner : ℕ) : Option RunnerQueue :=
  if 0 < s.concurrency ∧ s.concurrency ≤ s.runners.length then none
  else some { s with runners := s.runners ++ [runner] }

/-- `release_runner`; a closed event loop takes no calls. -/
def releaseRunner (s : RunnerQueue) (runner : ℕ) : RunnerQueue :=
  if s.isolated then
    if s.closed then { s with expired := s.expired ++ [runner] }
    else { s with ready := s.ready ++ [runner] }
  else (s.putNowait runner).getD { s with expired := s.expired ++ [runner] }

/-- `get_graph_id`, up to the status that it sets. -/
def getGraphId (run : Run) : Option Json :=
  (((run.kwargs.get? "config").bind fun config => config.get? "configurable").bind
    fun configurable => configurable.get? "graph_id").filter fun graphId => graphId ≠ .null

/-- The loop goes on to its next `await`. -/
def advance (s : RunnerQueue) : Option RunnerQueue :=
  match s.phase with
  | .top => some { s with phase := if s.expired = [] then .waiting else .restoring }
  | .restoring =>
    -- `put` does not suspend while there is room
    if s.concurrency = 0 ∨ s.runners.length + s.expired.length ≤ s.concurrency then
      some { s with
        runners := s.runners ++ s.expired
        expired := []
        phase := .waiting }
    else none
  | .waiting =>
    if s.runners = [] then none else some { s with phase := .fetching s.runners.length }
  | .fetching _ => none
  | .iterating [] => some { s with phase := .top }
  | .iterating (run :: runs) =>
    match s.runners with
    | [] => some { s with
        emptied := true
        phase := .top }
    | runner :: runners => some { s with
        runners := runners
        phase := .resolving run runner runs }
  | .resolving run runner runs =>
    match getGraphId run with
    | none => some ({ s with phase := .iterating runs }.releaseRunner runner)
    | some _ => some { s with
        workers := s.workers ++ [⟨runner, true⟩]
        phase := .iterating runs }
  | .ended _ => none

/-- Something in the `try` of the loop raises; a runner that is held is put back. -/
def raise (s : RunnerQueue) : Option RunnerQueue :=
  match s.phase with
  | .fetching _ | .iterating _ => some { s with phase := .top }
  | .resolving _ runner _ => some ({ s with phase := .top }.releaseRunner runner)
  | _ => none

end RunnerQueue

/-- What happens in the process. -/
inductive QueueAction
  /-- The loop goes on. -/
  | advance
  /-- `Runs.next` answers. -/
  | respond (runs : List Run)
  /-- Something raises in the loop. -/
  | raise
  /-- A worker completes, fails or is cancelled. -/
  | finish (worker : ℕ)
  /-- The callback of a worker that is done. -/
  | cleanup (worker : ℕ)
  /-- The event loop runs a call that was handed to it; what the call raises is logged. -/
  | callback
  /-- The loop is cancelled. -/
  | cancel
  /-- The event loop is closed. -/
  | close
  deriving DecidableEq

/-- The loop with its workers. -/
def runnerQueue : Machine RunnerQueue QueueAction where
  init s := ∃ concurrency isolated,
    s = { concurrency := concurrency, isolated := isolated, runners := List.range concurrency }
  step s
    | .advance => s.advance
    | .respond runs =>
      match s.phase with
      | .fetching _ => some { s with phase := .iterating runs }
      | _ => none
    | .raise => s.raise
    | .finish worker =>
      (s.workers[worker]?).bind fun w =>
        if w.running then
          some { s with workers := s.workers.set worker { w with running := false } }
        else none
    | .cleanup worker =>
      (s.workers[worker]?).bind fun w =>
        if w.running then none
        else some ({ s with workers := s.workers.eraseIdx worker }.releaseRunner w.runner)
    | .callback =>
      match s.ready with
      | [] => none
      | runner :: ready =>
        if s.closed then none
        else some (({ s with ready := ready }.putNowait runner).getD { s with ready := ready })
    | .cancel =>
      match s.phase with
      | .ended _ => none
      | phase => some { s with phase := .ended phase.held.head? }
    | .close =>
      match s.phase with
      | .ended _ => some { s with closed := true }
      | _ => none

/-- An answer has at most as many runs as were asked for. -/
def RespondsWithinLimit (s : RunnerQueue) (a : QueueAction) : Prop :=
  ∀ limit runs, s.phase = .fetching limit → a = .respond runs → runs.length ≤ limit

end NextRole
