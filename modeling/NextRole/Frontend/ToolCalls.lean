import NextRole.Frontend.Approvals
import NextRole.Lib.Firsts

/-!
# The tool calls that a card shows

A message of a model carries its complete calls in `tool_calls`, and a call whose arguments still
stream as an entry of `tool_call_chunks`; the tools channel has a record of each call that was
started.  `SubagentCard` of `app/components/SubagentCard.tsx` merges the three by the id of the
call.  The texts that JavaScript makes of values are parameters.

## Main definitions

* `StreamMessage` — a message of a stream, with what it carries.
* `ShownCall` — a call as it is shown: `ToolCall` of `app/types/types.ts`.
* `AssembledToolCall`, `fromTools` — the tools channel.
* `nestedBatches` — the calls that a subagent's card shows, by the message that issued them.
-/

namespace NextRole

/-! ### Messages -/

/-- An entry of `tool_call_chunks`; what is missing is empty. -/
structure ToolCallChunk where
  id : String
  name : String
  args : String
  deriving DecidableEq

/-- What a message carries. -/
inductive MessageBody
  | ai (toolCalls : List ToolCall) (toolCallChunks : List ToolCallChunk)
  | tool (toolCallId : String)
  | human
  | other
  deriving DecidableEq

/-- A message of a stream, with the text that `message.text` gives; without an id it has the empty
one. -/
structure StreamMessage where
  id : String
  text : String := ""
  body : MessageBody
  deriving DecidableEq

/-- The texts that JavaScript makes of values, and the values that it reads from texts. -/
structure JsText where
  /-- `parsePartialJson`; what it cannot read is null. -/
  parsePartialJson : String → Json
  /-- `JSON.stringify(value, null, 2)`. -/
  stringify : Json → String
  /-- `String(value)`. -/
  toText : Json → String

/-! ### Calls -/

/-- The status of a call that is shown. -/
inductive ToolCallStatus
  | pending | completed | error | interrupted
  deriving DecidableEq, Repr

/-- A call as it is shown. -/
structure ShownCall extends ToolCall where
  status : ToolCallStatus
  result : Option String := none
  deriving DecidableEq

/-- `tc.args ?? {}`. -/
def argsOrEmpty (args : Json) : Json := if args = .null then .obj [] else args

/-- `parsePartialArgs`. -/
def parsePartialArgs (js : JsText) (raw : String) : Json :=
  if raw = "" then .obj []
  else
    match js.parsePartialJson raw with
    | .obj fields => .obj fields
    | _ => .obj []

/-! ### The tools channel -/

/-- The status of a call on the tools channel. -/
inductive AssembledStatus
  | running | finished | error
  deriving DecidableEq

/-- A call on the tools channel, with its output, which is null while there is none. -/
structure AssembledToolCall extends ToolCall where
  output : Json := .null
  status : AssembledStatus
  deriving DecidableEq

/-- The text of a block of a message's content. -/
def blockText (js : JsText) (block : Json) : String :=
  match block with
  | .str text => text
  | .obj fields =>
    match fields.lookup "text" with
    | none | some .null => ""
    | some (.str text) => text
    | some text => js.toText text
  | _ => ""

/-- `unwrapToolPayload`. -/
def unwrapToolPayload (js : JsText) (value : Json) : Json :=
  match value with
  | .obj fields =>
    match fields.lookup "type", fields.lookup "content" with
    | some (.str "tool"), some (.arr blocks) =>
      .str (String.join (blocks.map (blockText js)))
    | some (.str "tool"), some content => content
    | _, _ => value
  | _ => value

/-- `toResultString`. -/
def toResultString (js : JsText) (value : Json) : Option String :=
  match value with
  | .null => none
  | .str text => some text
  | _ => some (js.stringify value)

/-- A call of the tools channel as it is shown. -/
def AssembledToolCall.shown (js : JsText) (tc : AssembledToolCall) : ShownCall where
  id := tc.id
  name := tc.name
  args := argsOrEmpty tc.args
  result := toResultString js (unwrapToolPayload js tc.output)
  status := match tc.status with
    | .error => .error
    | .finished => .completed
    | .running => .pending

/-- `fromTools`: what the tools channel says of each call that is no task. -/
def fromTools (js : JsText) (assembled : List AssembledToolCall) : Dict String ShownCall :=
  Dict.setAll {} ((assembled.filter fun tc => tc.name ≠ "task").map fun tc => (tc.id, tc.shown js))

/-! ### The card of a subagent -/

/-- A call has an id and a name, and is no task. -/
def isNested (id name : String) : Bool := id ≠ "" && name ≠ "" && name ≠ "task"

/-- One pass of the loop over `tool_calls`. -/
def pushToolCall (entries : Dict String ShownCall) (state : List ShownCall × List String)
    (tc : ToolCall) : List ShownCall × List String :=
  if !isNested tc.id tc.name || state.2.contains tc.id then state
  else
    (state.1 ++ [(entries.get? tc.id).getD
        { id := tc.id, name := tc.name, args := argsOrEmpty tc.args, status := .pending }],
      state.2 ++ [tc.id])

/-- One pass of the loop over `tool_call_chunks`. -/
def pushChunk (js : JsText) (state : List ShownCall × List String) (chunk : ToolCallChunk) :
    List ShownCall × List String :=
  if !isNested chunk.id chunk.name || state.2.contains chunk.id then state
  else
    (state.1 ++ [
        { id := chunk.id, name := chunk.name, args := parsePartialArgs js chunk.args,
          status := .pending }],
      state.2 ++ [chunk.id])

/-- One pass of the loop over the messages: the batches, and the ids that were seen. -/
def pushBatch (js : JsText) (entries : Dict String ShownCall)
    (state : List (List ShownCall) × List String) (message : StreamMessage) :
    List (List ShownCall) × List String :=
  match message.body with
  | .ai toolCalls chunks =>
    let batch := chunks.foldl (pushChunk js) (toolCalls.foldl (pushToolCall entries) ([], state.2))
    (if batch.1.length > 0 then state.1 ++ [batch.1] else state.1, batch.2)
  | _ => state

/-- `nestedBatches`: the calls of each message, and then those of the tools channel that no message
carries. -/
def nestedBatches (js : JsText) (assembled : List AssembledToolCall)
    (messages : List StreamMessage) : List (List ShownCall) :=
  let entries := fromTools js assembled
  let state := messages.foldl (pushBatch js entries) ([], [])
  state.1 ++ (entries.entries.filter fun e => !state.2.contains e.1).map fun e => [e.2]

end NextRole
