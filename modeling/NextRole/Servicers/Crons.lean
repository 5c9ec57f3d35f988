import Mathlib.Data.List.Sort
import NextRole.Filters

/-!
# The Crons service

The calls of `core_server/servicers/crons.py` that the scheduler makes, and the creation,
the update and the deletion of a cron.  Each is one statement; `Next` only reads.

## Main definitions

* `Cron.dueAt`, `nextCrons` — `Next`.
* `setNextRunDate` — `SetNextRunDate`.
* `CreateCronRequest`, `createCron` — `Create`, with the foreign keys of the table.
* `PatchCronRequest`, `patchCron` — `Patch`.
* `deleteCron` — `Delete`.

## Main results

* `createCron_ok` — a cron that is created has a thread or names none.
* `createCron_eq_ok` — when a cron is created, and what its row is.
* `patchCron_eq_some` — when a cron is patched, and what its row is.
-/

namespace NextRole

/-! ### Next and SetNextRunDate -/

/-- `enabled = true AND next_run_date <= now() AND (end_time IS NULL OR end_time > now())`. -/
def Cron.dueAt (c : Cron) (now : Timestamp) : Bool :=
  c.enabled && c.nextRunDate.any (fun d => d ≤ now) && c.endTime.all (fun e => now < e)

/-- `ORDER BY next_run_date`, on rows whose date is not null. -/
def Cron.dateLE (a b : Cron) : Prop := a.nextRunDate.getD 0 ≤ b.nextRunDate.getD 0

instance : DecidableRel Cron.dateLE := fun a b => by
  unfold Cron.dateLE
  infer_instance

/-- The rows that `Next` returns. -/
def nextCrons (crons : Table Cron) (now : Timestamp) : List Cron :=
  (crons.select fun c => c.dueAt now).insertionSort Cron.dateLE

/-- The effect of `SetNextRunDate`. -/
def setNextRunDate (crons : Table Cron) (cronId : Uuid) (date : Option Timestamp) : Table Cron :=
  match crons.get? cronId with
  | none => crons
  | some c => crons.put { c with nextRunDate := date }

theorem mem_nextCrons {crons : Table Cron} {now : Timestamp} {c : Cron} :
    c ∈ nextCrons crons now ↔ c ∈ crons ∧ c.dueAt now = true := by
  rw [nextCrons, List.mem_insertionSort, Table.mem_select]

theorem nodup_nextCrons (crons : Table Cron) (now : Timestamp) : (nextCrons crons now).Nodup :=
  (List.perm_insertionSort _ _).nodup_iff.mpr (crons.nodup_select _)

/-! ### Create and Delete -/

/-- The names of a `MultitaskStrategy`. -/
def MultitaskStrategy.name : MultitaskStrategy → String
  | reject => "reject"
  | interrupt => "interrupt"
  | rollback => "rollback"
  | enqueue => "enqueue"

/-- The values of `on_run_completed`. -/
inductive CronOnRunCompleted
  | delete | keep
  deriving Repr, DecidableEq

def CronOnRunCompleted.name : CronOnRunCompleted → String
  | delete => "delete"
  | keep => "keep"

/-- An interrupt configuration; `unset` is the message with no alternative chosen. -/
inductive InterruptConfig
  | all
  | nodeNames (names : List String)
  | unset
  deriving Repr, DecidableEq

/-- `_interrupt_from_proto`. -/
def InterruptConfig.toJson : InterruptConfig → Json
  | all => .str "*"
  | nodeNames names => .arr (names.map .str)
  | unset => .null

/-- A `CronPayload`, with the parsed texts of its fields. -/
structure CronPayload where
  assistantId : String := ""
  /-- In the next three, `none` is an empty text. -/
  input : Option Json := none
  context : Option Json := none
  metadata : Option Json := none
  webhook : Option String := none
  config : Option Json := none
  interruptBefore : Option InterruptConfig := none
  interruptAfter : Option InterruptConfig := none
  multitaskStrategy : Option MultitaskStrategy := none
  extra : List (String × Json) := []
  deriving Repr, DecidableEq

/-- `_payload_proto_to_dict`: the fields that are set, under those of `extra_json`. -/
def CronPayload.toDict (p : CronPayload) : Json :=
  let fields := [
    ("assistant_id", if p.assistantId = "" then none else some (.str p.assistantId)),
    ("input", p.input),
    ("context", p.context),
    ("metadata", p.metadata),
    ("webhook", p.webhook.map .str),
    ("config", p.config),
    ("interrupt_before", p.interruptBefore.map InterruptConfig.toJson),
    ("interrupt_after", p.interruptAfter.map InterruptConfig.toJson),
    ("multitask_strategy", p.multitaskStrategy.map fun strategy => .str strategy.name)]
  .obj (Json.merge (fields.filterMap fun field => field.2.map (field.1, ·)) p.extra)

/-- A `CreateCronRequest`. -/
structure CreateCronRequest where
  cronId : Option Uuid := none
  payload : CronPayload := {}
  schedule : String
  threadId : Option Uuid := none
  userId : Option String := none
  endTime : Option Timestamp := none
  metadataJson : Option Json := none
  onRunCompleted : Option CronOnRunCompleted := none
  enabled : Bool := false
  timezone : Option String := none
  deriving Repr, DecidableEq

/-- The payload that `Create` stores: it names its cron in the configuration. -/
def CreateCronRequest.storedPayload (request : CreateCronRequest) (cronId : Uuid) : Json :=
  let payload := request.payload.toDict
  let config := if truthy (payload.get? "config") then (payload.get? "config").getD .null else .obj []
  let configurable := (config.get? "configurable").getD (.obj [])
  payload.set "config" (config.set "configurable" (configurable.set "cron_id" (.str cronId.text)))

/-- The row that `Create` inserts. -/
def CreateCronRequest.row (request : CreateCronRequest) (cronId : Uuid) (assistantId : Option Uuid)
    (nextRunDate : Timestamp) : Cron where
  cronId := cronId
  assistantId := assistantId
  threadId := request.threadId
  userId := request.userId
  payload := request.storedPayload cronId
  schedule := request.schedule
  nextRunDate := some nextRunDate
  endTime := request.endTime
  metadata := request.metadataJson.getD (.obj [])
  onRunCompleted := (request.onRunCompleted.getD .delete).name
  enabled := request.enabled
  timezone := request.timezone

/-- Why a `Create` fails: the abort of the service, or a constraint of the table. -/
inductive CreateCronFailure
  /-- `INVALID_ARGUMENT`. -/
  | invalidArgument (details : String)
  | uniqueViolation
  | foreignKeyViolation
  deriving Repr, DecidableEq

/-- The value of the column `assistant_id`, which refers to a row of `assistant`; `none` is
a value that refers to no row. -/
def assistantReference (assistants : Table Assistant) : Option Json → Option (Option Uuid)
  | none | some .null => some none
  | some (.str text) => (assistants.rows.find? fun a => a.assistantId.text = text).map fun a =>
      some a.assistantId
  | some _ => none

/-- `Create`, with the uuid that it draws.  What `croniter` computes of a schedule is a
parameter. -/
def createCron (croniter : String → Timestamp → Option Timestamp) (request : CreateCronRequest)
    (freshId : Uuid) (now : Timestamp) (d : Database) : Except CreateCronFailure (Cron × Database) :=
  let cronId := request.cronId.getD freshId
  match croniter request.schedule now with
  | none => .error (.invalidArgument ("Invalid cron schedule: " ++ request.schedule))
  | some nextRunDate =>
    if (d.cron.get? cronId).isSome then .error .uniqueViolation
    else
      match assistantReference d.assistant (request.payload.toDict.get? "assistant_id") with
      | none => .error .foreignKeyViolation
      | some assistantId =>
        if request.threadId.all fun threadId => (d.thread.get? threadId).isSome then
          let row := request.row cronId assistantId nextRunDate
          .ok (row, { d with cron := d.cron.put row })
        else .error .foreignKeyViolation

/-- `Delete`. -/
def deleteCron (cronId : Uuid) (filters : List AuthFilter) (d : Database) : Database :=
  { d with cron := d.cron.deleteWhere fun c => c.cronId = cronId && admits filters c.metadata }

/-- A cron that is created has a thread or names none. -/
theorem createCron_ok {croniter : String → Timestamp → Option Timestamp}
    {request : CreateCronRequest} {freshId : Uuid} {now : Timestamp} {d d' : Database} {c : Cron}
    (h : createCron croniter request freshId now d = .ok (c, d')) :
    d' = { d with cron := d.cron.put c } ∧
      ∀ k, c.threadId = some k → ∃ t ∈ d.thread, t.threadId = k := by
  simp only [createCron] at h
  split at h
  · cases h
  · split at h
    · cases h
    · split at h
      · cases h
      · split at h
        · next hthread =>
          cases h
          refine ⟨rfl, fun k hk => ?_⟩
          have hk' : request.threadId = some k := hk
          rw [hk', Option.all_some] at hthread
          obtain ⟨t, ht⟩ := Option.isSome_iff_exists.mp hthread
          exact ⟨t, Table.get?_eq_some.mp ht⟩
        · cases h

/-- The constraints of the table admit the row that a `Create` inserts. -/
def CreateCronRequest.Admitted (request : CreateCronRequest) (freshId : Uuid) (d : Database) : Prop :=
  d.cron.get? (request.cronId.getD freshId) = none ∧
    (assistantReference d.assistant (request.payload.toDict.get? "assistant_id")).isSome = true ∧
    (request.threadId.all fun threadId => (d.thread.get? threadId).isSome) = true

/-- **When a cron is created**, and what its row is. -/
theorem createCron_eq_ok {croniter : String → Timestamp → Option Timestamp}
    {request : CreateCronRequest} {freshId : Uuid} {now : Timestamp} {d d' : Database} {c : Cron} :
    createCron croniter request freshId now d = .ok (c, d') ↔
      request.Admitted freshId d ∧ ∃ nextRunDate assistantId,
        croniter request.schedule now = some nextRunDate ∧
        assistantReference d.assistant (request.payload.toDict.get? "assistant_id") =
          some assistantId ∧
        c = request.row (request.cronId.getD freshId) assistantId nextRunDate ∧
        d' = { d with cron := d.cron.put c } := by
  simp only [createCron, CreateCronRequest.Admitted]
  cases croniter request.schedule now with
  | none => simp
  | some nextRunDate =>
    cases d.cron.get? (request.cronId.getD freshId) with
    | some old => simp
    | none =>
      cases assistantReference d.assistant (request.payload.toDict.get? "assistant_id") with
      | none => simp
      | some assistantId =>
        by_cases hthread : (request.threadId.all fun k => (d.thread.get? k).isSome) = true
        · simp only [hthread, Option.isSome_none, Bool.false_eq_true, if_false, if_true,
            Except.ok.injEq, Prod.mk.injEq, Option.isSome_some, and_self, true_and,
            Option.some.injEq]
          constructor
          · rintro ⟨rfl, rfl⟩
            exact ⟨nextRunDate, assistantId, rfl, rfl, rfl, rfl⟩
          · rintro ⟨_, _, rfl, rfl, rfl, rfl⟩
            exact ⟨rfl, rfl⟩
        · simp [hthread]

/-! ### Patch -/

/-- The dict of a payload with the cron that it is stored for in its configuration, as
`Create` and `Patch` store it. -/
def storedCronPayload (payload : Json) (cronId : Uuid) : Json :=
  let config := if truthy (payload.get? "config") then (payload.get? "config").getD .null else .obj []
  let configurable := (config.get? "configurable").getD (.obj [])
  payload.set "config" (config.set "configurable" (configurable.set "cron_id" (.str cronId.text)))

/-- A `PatchCronRequest`; what is `none` is not set. -/
structure PatchCronRequest where
  cronId : Uuid
  filters : List AuthFilter := []
  schedule : Option String := none
  endTime : Option Timestamp := none
  enabled : Option Bool := none
  onRunCompleted : Option CronOnRunCompleted := none
  payload : Option CronPayload := none
  metadataJson : Option Json := none
  timezone : Option String := none

/-- The `SET` clause of `Patch`: each column that the request sets, the others as they are. -/
def PatchCronRequest.update (request : PatchCronRequest) (c : Cron) : Cron :=
  { c with
    schedule := request.schedule.getD c.schedule
    endTime := request.endTime.or c.endTime
    enabled := request.enabled.getD c.enabled
    onRunCompleted := (request.onRunCompleted.map CronOnRunCompleted.name).getD c.onRunCompleted
    timezone := request.timezone.or c.timezone
    payload := (request.payload.map fun p => storedCronPayload p.toDict request.cronId).getD c.payload
    metadata := request.metadataJson.getD c.metadata }

/-- `Patch`; `none` is its abort with `NOT_FOUND`. -/
def patchCron (request : PatchCronRequest) (d : Database) : Option (Cron × Database) :=
  match d.cron.get? request.cronId with
  | some c =>
    if admits request.filters c.metadata then
      let row := request.update c
      some (row, { d with cron := d.cron.put row })
    else none
  | none => none

/-- **When a cron is patched**, and what its row is. -/
theorem patchCron_eq_some {request : PatchCronRequest} {d d' : Database} {c' : Cron} :
    patchCron request d = some (c', d') ↔
      ∃ c, d.cron.get? request.cronId = some c ∧ admits request.filters c.metadata = true ∧
        c' = request.update c ∧ d' = { d with cron := d.cron.put c' } := by
  unfold patchCron
  cases d.cron.get? request.cronId with
  | none => simp
  | some c =>
    by_cases hadmits : admits request.filters c.metadata = true
    · simp only [hadmits, if_true, Option.some.injEq, Prod.mk.injEq, exists_eq_left', true_and]
      constructor
      · rintro ⟨rfl, rfl⟩
        exact ⟨rfl, rfl⟩
      · rintro ⟨rfl, rfl⟩
        exact ⟨rfl, rfl⟩
    · simp [hadmits]

end NextRole
