import NextRole.Lib.Transition
import NextRole.Servicers.Crons

/-!
# The cron scheduler

The loop of `api/cron_scheduler.py`, run by any number of schedulers over one cron
table.  An iteration asks `Crons.Next` for the due crons, creates one run for each
of them, and sleeps.  On the backend that this deployment uses the loop leaves the
advance of `next_run_date` to `Crons.Next`; on the other one it calls
`Crons.SetNextRunDate` itself after each run.

## Main definitions

* `getMetadataFromPayload`, `runPayload` — the payload of a cron's run.
* `SchedulerState`, `SchedulerAction`, `schedulerStep` — the loops and their steps.
* `scheduler` — the machine of the loops.
-/

namespace NextRole

/-- `get_metadata_from_payload`: the fields of the payload's metadata over those of
the cron's. -/
def getMetadataFromPayload (cron : Cron) (payload : Json) : Json :=
  cron.metadata.concat ((payload.get? "metadata").getD (.obj []))

/-- The payload with which the scheduler creates a run. -/
def runPayload (cron : Cron) : Json :=
  let payload :=
    if cron.onRunCompleted = "keep" ∧ (cron.payload.get? "on_completion").isNone then
      cron.payload.set "on_completion" (.str "keep")
    else cron.payload
  payload.set "metadata" (getMetadataFromPayload cron payload)

/-- An item of the response of `Crons.Next`. -/
structure CronWithNow where
  cron : Cron
  now : Timestamp
  deriving Repr, DecidableEq

/-- A scheduled occurrence of a cron: the cron and the date that was due. -/
abbrev Occurrence := Uuid × Option Timestamp

/-- The occurrence that an item of `Crons.Next` stands for. -/
def Cron.occurrence (c : Cron) : Occurrence := (c.cronId, c.nextRunDate)

/-- A run that the scheduler has created, and the occurrence it was created for. -/
structure ScheduledRun where
  occurrence : Occurrence
  threadId : Option Uuid
  payload : Json
  userId : Option String

/-- The run that the scheduler asks for when it serves a cron. -/
def scheduledRun (c : Cron) : ScheduledRun where
  occurrence := c.occurrence
  threadId := c.threadId
  payload := runPayload c
  userId := c.userId

/-- The cron table, the clock, the items that each loop still has to serve, and the
record of what `Crons.Next` has returned and of the runs created. -/
structure SchedulerState where
  cron : Table Cron
  clock : Timestamp
  serving : List (List CronWithNow)
  returned : List Occurrence := []
  created : List ScheduledRun := []

/-- A step of loop `i`: its call of `Crons.Next` at the time `now`, the end of a call
of `create_valid_run` for its first item, with a run or with an exception that is
logged, or an exception that ends the iteration. -/
inductive SchedulerAction
  | next (i : ℕ) (now : Timestamp)
  | create (i : ℕ) (created : Bool)
  | abort (i : ℕ)
  deriving Repr, DecidableEq

/-- One step, where `grpcBackend` is `IS_POSTGRES_OR_GRPC_BACKEND` and `nextCronDate`
computes the next date of a schedule. -/
def schedulerStep (grpcBackend : Bool)
    (nextCronDate : String → Timestamp → Option String → Option Timestamp)
    (s : SchedulerState) : SchedulerAction → Option SchedulerState
  | .next i now =>
    if s.serving[i]? = some [] ∧ s.clock ≤ now then
      let crons := nextCrons s.cron now
      some { s with
        clock := now
        serving := s.serving.set i (crons.map fun c => ⟨c, now⟩)
        returned := s.returned ++ crons.map Cron.occurrence }
    else none
  | .create i created =>
    match s.serving[i]? with
    | some (item :: rest) =>
      some { s with
        serving := s.serving.set i rest
        created := if created then s.created ++ [scheduledRun item.cron] else s.created
        cron :=
          if grpcBackend then s.cron
          else setNextRunDate s.cron item.cron.cronId
            (nextCronDate item.cron.schedule item.now item.cron.timezone) }
    | _ => none
  | .abort i =>
    if i < s.serving.length then some { s with serving := s.serving.set i [] } else none

/-- The schedulers, started with any number of idle loops on any cron table. -/
def scheduler (grpcBackend : Bool)
    (nextCronDate : String → Timestamp → Option String → Option Timestamp) :
    Machine SchedulerState SchedulerAction where
  init s := (∃ n, s.serving = List.replicate n []) ∧ s.returned = [] ∧ s.created = []
  step := schedulerStep grpcBackend nextCronDate

end NextRole
