import Mathlib.Algebra.GroupWithZero.Nat
import Mathlib.Data.List.Dedup
import NextRole.Schema

/-!
# What leaves for the warehouse

`dlt_sources/transforms.py`: the rows of the runtime's tables are shaped into rows of
identities, statuses and counts.  A value is read as Python reads it: where a method does not
exist or a length is asked of what has none, the shaping raises, here `none`.

## Main definitions

* `shapeRun`, `shapeThread`, `shapeCheckpointMeta`.
* `shapeMessage`, `explodeMessages`.
-/

namespace NextRole

/-! ### Runs -/

/-- A row of `raw_app.run`. -/
structure WarehouseRun where
  runId : Uuid
  threadId : Uuid
  assistantId : Uuid
  createdAt : Timestamp
  updatedAt : Timestamp
  status : RunStatus
  multitaskStrategy : MultitaskStrategy
  owner : Json
  mainModelOverride : Option String
  subagentModelOverride : Option String
  deriving DecidableEq

/-- One of the slots of `extract_model_overrides`: a text that is not empty. -/
def modelOverride (configurable : Json) (key : String) : Option (Option String) :=
  (dictGet configurable key).map fun
    | .str s => if s ≠ "" then some s else none
    | _ => none

/-- `shape_run`. -/
def shapeRun (row : Run) : Option WarehouseRun := do
  let metadata := orElse row.metadata (.obj [])
  let kwargs := orElse row.kwargs (.obj [])
  let config := orElse (← dictGet kwargs "config") (.obj [])
  let configurable := orElse (← dictGet config "configurable") (.obj [])
  let mainModel ← modelOverride configurable "main_agent_model"
  let subagentModel ← modelOverride configurable "subagent_model"
  let owner ← dictGet metadata "owner"
  return {
    runId := row.runId
    threadId := row.threadId
    assistantId := row.assistantId
    createdAt := row.createdAt
    updatedAt := row.updatedAt
    status := row.status
    multitaskStrategy := row.multitaskStrategy
    owner := owner
    mainModelOverride := mainModel
    subagentModelOverride := subagentModel }

/-! ### Threads -/

/-- A row of `raw_app.thread`. -/
structure WarehouseThread where
  threadId : Uuid
  createdAt : Timestamp
  updatedAt : Timestamp
  status : ThreadStatus
  stateUpdatedAt : Option Timestamp
  owner : Json
  graphId : Json
  assistantId : Json
  messageCount : ℕ
  fileCount : ℕ
  todoCount : ℕ
  hasInterrupt : Bool
  deriving DecidableEq

/-- `shape_thread`. -/
def shapeThread (row : Thread) : Option WarehouseThread := do
  let metadata := orElse row.metadata (.obj [])
  let values := orElse (row.values.getD .null) (.obj [])
  let messages := orElse (← dictGet values "messages") (.arr [])
  let files := orElse (← dictGet values "files") (.obj [])
  let todos := orElse (← dictGet values "todos") (.arr [])
  return {
    threadId := row.threadId
    createdAt := row.createdAt
    updatedAt := row.updatedAt
    status := row.status
    stateUpdatedAt := row.stateUpdatedAt
    owner := ← dictGet metadata "owner"
    graphId := ← dictGet metadata "graph_id"
    assistantId := ← dictGet metadata "assistant_id"
    messageCount := ← pyLen messages
    fileCount := ← pyLen files
    todoCount := ← pyLen todos
    hasInterrupt := truthy (some row.interrupts) }

/-! ### Messages -/

/-- A row of `raw_app.message`, without the cursor column. -/
structure WarehouseMessage where
  threadId : Uuid
  messageIndex : ℕ
  messageId : Json
  type : Json
  name : Json
  modelName : Json
  modelProvider : Json
  finishReason : Json
  contentLength : ℕ
  toolCallCount : ℕ
  toolCallNames : Option String
  toolCallId : Json
  toolStatus : Json
  inputTokens : Json
  outputTokens : Json
  totalTokens : Json
  cacheCreationTokens : Json
  cacheReadTokens : Json
  reasoningTokens : Json
  deriving DecidableEq

/-- `_content_length`. -/
def contentLength : Json → ℕ
  | .str s => s.length
  | .arr parts => (parts.map fun
    | .str s => s.length
    | part =>
      match part.get? "text" with
      | some (.str s) => s.length
      | _ => 0).sum
  | _ => 0

/-- The names of the tool calls; a name that is no text cannot be joined. -/
def toolCallNames (toolCalls : List Json) : Option (List String) :=
  (toolCalls.filterMap fun
    | .obj kvs => (kvs.lookup "name").filter fun name => truthy (some name)
    | _ => none).mapM fun
    | .str name => some name
    | _ => none

/-- `shape_message`. -/
def shapeMessage (threadId : Uuid) (index : ℕ) (message : Json) : Option WarehouseMessage := do
  let usage := orElse (← dictGet message "usage_metadata") (.obj [])
  let inputDetails := orElse (← dictGet usage "input_token_details") (.obj [])
  let outputDetails := orElse (← dictGet usage "output_token_details") (.obj [])
  let responseMeta := orElse (← dictGet message "response_metadata") (.obj [])
  let toolCalls := orElse (← dictGet message "tool_calls") (.arr [])
  let names := (← toolCallNames (← iterate toolCalls)).dedup.mergeSort (· ≤ ·)
  let type ← dictGet message "type"
  let status ← dictGet message "status"
  return {
    threadId := threadId
    messageIndex := index
    messageId := ← dictGet message "id"
    type := type
    name := ← dictGet message "name"
    modelName := ← dictGet responseMeta "model_name"
    modelProvider := ← dictGet responseMeta "model_provider"
    finishReason := ← dictGet responseMeta "finish_reason"
    contentLength := contentLength (← dictGet message "content")
    toolCallCount := ← pyLen toolCalls
    toolCallNames := if names = [] then none else some (",".intercalate names)
    toolCallId := ← dictGet message "tool_call_id"
    toolStatus := if type = .str "tool" then status else .null
    inputTokens := ← dictGet usage "input_tokens"
    outputTokens := ← dictGet usage "output_tokens"
    totalTokens := ← dictGet usage "total_tokens"
    cacheCreationTokens := ← dictGet inputDetails "cache_creation"
    cacheReadTokens := ← dictGet inputDetails "cache_read"
    reasoningTokens := ← dictGet outputDetails "reasoning" }

/-- `explode_messages`: a row for each element that is a dictionary, under its index. -/
def explodeMessages (threadId : Uuid) (messages : Option Json) : Option (List WarehouseMessage) :=
  match messages with
  | some (.arr messages) =>
    (messages.zipIdx.filter fun m => (dictGet m.1 "type").isSome).mapM fun m =>
      shapeMessage threadId m.2 m.1
  | _ => some []

/-! ### Checkpoints -/

/-- A row of `raw_app.checkpoint_meta`. -/
structure WarehouseCheckpoint where
  threadId : Uuid
  checkpointNs : String
  checkpointId : Uuid
  runId : Option Uuid
  ts : Option String
  source : Json
  step : Json
  graphId : Json
  assistantId : Json
  owner : Json
  userId : Json
  deriving DecidableEq

/-- `shape_checkpoint_meta`, with the column `checkpoint->>'ts'`. -/
def shapeCheckpointMeta (row : Checkpoint) : Option WarehouseCheckpoint := do
  let metadata := orElse row.metadata (.obj [])
  return {
    threadId := row.threadId
    checkpointNs := row.checkpointNs
    checkpointId := row.checkpointId
    runId := row.runId
    ts := row.checkpoint.text? "ts"
    source := ← dictGet metadata "source"
    step := ← dictGet metadata "step"
    graphId := ← dictGet metadata "graph_id"
    assistantId := ← dictGet metadata "assistant_id"
    owner := ← dictGet metadata "owner"
    userId := ← dictGet metadata "user_id" }

end NextRole
