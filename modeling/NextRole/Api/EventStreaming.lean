import NextRole.Agents.Auth
import NextRole.Python
import NextRole.Sql

/-!
# The thread commands of the event streaming service

`ThreadRunManager` of `api/event_streaming/service.py`: what `run.start` makes of its
parameters, the run that the connection is bound to and the state of the thread, and
which assistant a resume is for.

## Main definitions

* `EventStreamingSession`, `ThreadRunManager` — what a connection holds.
* `fetchCurrentRun`, `hasPendingInterrupts`, `isResume` — whether an input is a resume.
* `startPayload`, `createOrResumeRun` — the payload of the run that is created.
* `resolveResumeAssistantId` — the assistant of a resume.
-/

namespace NextRole

/-! ### Parameters -/

/-- `EVENT_STREAMING_V2_CONFIG_KEY`. -/
def eventStreamingV2ConfigKey : String := "__event_streaming_v2"

/-- `DEFAULT_RUN_STREAM_MODES`. -/
def defaultRunStreamModes : List String :=
  ["values", "updates", "messages", "tools", "lifecycle", "custom", "tasks", "checkpoints"]

/-- `VALID_MULTITASK_STRATEGIES`. -/
def validMultitaskStrategies : List String := ["reject", "rollback", "interrupt", "enqueue"]

/-- `DEFAULT_MULTITASK_STRATEGY`. -/
def defaultMultitaskStrategy : String := "enqueue"

/-- `params.get(key)`, where `None` is `none`. -/
def param (params : Json) (key : String) : Option Json :=
  match params.get? key with
  | some .null => none
  | value => value

/-- The fields of a record, and none of anything else. -/
def recordFields : Option Json → List (String × Json)
  | some (.obj kvs) => kvs
  | _ => []

/-- A value that may be `None`. -/
def orNull (value : Option Json) : Json := value.getD .null

/-- `_multitask_strategy_from_run_start`. -/
def multitaskStrategyFromRunStart (params : Json) : String :=
  match param params "multitaskStrategy" with
  | some (.str strategy) =>
    if strategy ∈ validMultitaskStrategies then strategy else defaultMultitaskStrategy
  | _ => defaultMultitaskStrategy

/-- The ways in which a start fails before it creates a run. -/
inductive StartError
  /-- `ProtocolV2UnsupportedError`. -/
  | unsupported
  /-- `ValueError`. -/
  | value (message : String)
  /-- `TypeError`. -/
  | type
  deriving Repr, DecidableEq

/-- The answer to a fork target that is no text or a blank one. -/
def blankCheckpointId : StartError :=
  .value "config.configurable.checkpoint_id must be a non-empty string."

/-- `_checkpoint_id_from_run_start_config`. -/
def checkpointIdFromRunStartConfig (params : Json) : Except StartError (Option String) :=
  match params.get? "config" with
  | some (.obj config) =>
    match config.lookup "configurable" with
    | some (.obj configurable) =>
      match configurable.lookup "checkpoint_id" with
      | none | some .null => .ok none
      | some (.str id) => if id.toList.all isSpace then .error blankCheckpointId else .ok (some id)
      | some _ => .error blankCheckpointId
    | _ => .ok none
  | _ => .ok none

/-! ### What a connection holds -/

/-- What is read of a session: the run it was opened for, and the interrupts that it
has seen, each with its namespace. -/
structure EventStreamingSession where
  initialRun : Run
  pendingInterrupts : List (String × List String) := []

/-- A connection to a thread: `caller` is the user of the request. -/
structure ThreadRunManager where
  threadId : Uuid
  caller : Caller := none
  session : Option EventStreamingSession := none
  currentRunId : Option Uuid := none

/-- A task of the state of a thread; `interrupts` is `none` where it is no list. -/
structure StateTask where
  interrupts : Option (List Json) := none

/-- `Runs.Get`. -/
def getRun (runId threadId : Uuid) (filters : List AuthFilter) (d : Database) : Option Run :=
  (d.run.get? runId).filter fun r =>
    r.threadId = threadId && threadOwnerClause filters d.thread r.threadId

/-- `_fetch_current_run`. -/
def fetchCurrentRun (manager : ThreadRunManager) (d : Database) : Option Run :=
  manager.currentRunId.bind fun runId =>
    getRun runId manager.threadId (authFilters manager.caller) d

/-- Whether some task of a state waits for an input. -/
def hasInterrupts (tasks : List StateTask) : Bool :=
  tasks.any fun t => t.interrupts.any fun interrupts => !interrupts.isEmpty

/-- `_has_pending_interrupts`, where `fetched` is what the fetch of the state of the
thread gives: `none` if it fails. -/
def hasPendingInterrupts (manager : ThreadRunManager) (fetched : Option (List StateTask)) : Bool :=
  manager.session.any (fun session => !session.pendingInterrupts.isEmpty) ||
    fetched.any hasInterrupts

/-! ### `_create_or_resume_run` -/

/-- Whether the input is taken for the answer to an interrupt. -/
def isResume (manager : ThreadRunManager) (d : Database) (fetched : Option (List StateTask))
    (params : Json) : Bool :=
  (param params "input").isSome &&
    ((fetchCurrentRun manager d).any (fun run => run.status = .interrupted) ||
      hasPendingInterrupts manager fetched)

/-- `run_config`; a `configurable` that is no record cannot be unpacked. -/
def runConfig (threadId : Uuid) (params : Json) : Except StartError Json :=
  let config := recordFields (param params "config")
  let withConfigurable configurable := Json.obj (Json.merge config [("configurable",
    .obj (Json.merge configurable
      [(eventStreamingV2ConfigKey, .bool true), ("thread_id", .str threadId.text)]))])
  match config.lookup "configurable" with
  | none => .ok (withConfigurable [])
  | some (.obj configurable) => .ok (withConfigurable configurable)
  | some _ => .error .type

/-- `run_payload`. -/
def startPayload (assistantId : String) (params config : Json) (checkpointId : Option String)
    (resume : Bool) : Json :=
  let input := orNull (param params "input")
  .obj [
    ("assistant_id", .str assistantId),
    ("input", if resume then .null else input),
    ("command", if resume then .obj [("resume", input)] else .null),
    ("config", config),
    ("metadata", orNull (param params "metadata")),
    ("checkpoint_id", orNull (checkpointId.map .str)),
    ("checkpoint", orNull (checkpointId.map fun id => .obj [("checkpoint_id", .str id)])),
    ("context", .null),
    ("webhook", .null),
    ("stream_mode", .arr (defaultRunStreamModes.map .str)),
    ("stream_subgraphs", .bool true),
    ("stream_resumable", .bool true),
    ("interrupt_before", .null),
    ("interrupt_after", .null),
    ("feedback_keys", .null),
    ("on_completion", .str "keep"),
    ("after_seconds", .num 0),
    ("if_not_exists", .str "create"),
    ("multitask_strategy", .str (multitaskStrategyFromRunStart params)),
    ("langsmith_tracer", .null),
    ("durability", .null)]

/-- `_create_or_resume_run` up to the payload that `create_valid_run` gets; `supported`
is whether the flag and the installed packages allow event streaming. -/
def createOrResumeRun (supported : Bool) (manager : ThreadRunManager) (d : Database)
    (fetched : Option (List StateTask)) (assistantId : String) (params : Json) :
    Except StartError Json :=
  if supported then
    (runConfig manager.threadId params).bind fun config =>
      (checkpointIdFromRunStartConfig params).map fun checkpointId =>
        startPayload assistantId params config checkpointId (isResume manager d fetched params)
  else .error .unsupported

/-! ### The assistant of a resume -/

/-- `_get_thread_assistant_id`, where `thread` is what the fetch of the thread gives. -/
def threadAssistantId (thread : Option Thread) : Option String :=
  thread.bind fun t =>
    match t.metadata.get? "assistant_id" with
    | some (.str id) => some id
    | _ => none

/-- `_resolve_resume_assistant_id`. -/
def resolveResumeAssistantId (manager : ThreadRunManager) (thread : Option Thread) :
    Option String :=
  (threadAssistantId thread).or (manager.session.map fun session => session.initialRun.assistantId.text)

end NextRole
