import NextRole.Frontend.JavaScript
import NextRole.Frontend.ToolCalls
import NextRole.Lib.Gathering
import NextRole.Lib.Identity

/-!
# The tool calls of a transcript

`ChatInterface` of `app/components/ChatInterface.tsx` computes from the messages of a stream the
calls of each message, and groups the ones that are no cards.  What it made for earlier messages it
keeps in caches, and gives it again if its parts are the same objects.  An object is made here when
it is complete; each message and each call has an id, without which they have the empty one.

## Main definitions

* `Caches` — the caches, with the objects made so far.
* `processMessage` — one pass of the loop of `processedMessages`.
* `keepArrays` — the arrays of calls that are kept.
* `groupMessage`, `keepBatches` — the groups, and those that are kept.
* `render` — what is computed from messages, and the caches after it.
-/

namespace NextRole

/-! ### Objects and caches -/

/-- A call as an object. -/
abbrev ToolCallRef := Obj ShownCall

/-- An array of calls as an object. -/
abbrev ToolCallArray := Obj (List ToolCallRef)

/-- The batches of a group as an object. -/
abbrev ToolBatches := Obj (List ToolCallArray)

/-- An entry of `regularToolCallsCache`. -/
structure RegularCalls where
  source : ToolCallArray
  regular : ToolCallArray

/-- The caches, and the values of the objects made so far. -/
structure Caches where
  calls : List ShownCall := []
  arrays : List (List ToolCallRef) := []
  batches : List (List ToolCallArray) := []
  toolCallCache : Dict String ToolCallRef := {}
  toolCallArrayCache : Dict String ToolCallArray := {}
  regularToolCallsCache : Dict String RegularCalls := {}
  toolBatchesCache : Dict String ToolBatches := {}

/-- What a render reads. -/
structure Render where
  messages : List StreamMessage
  interruptedToolCallIds : List String := []

/-! ### The calls of the messages -/

/-- An entry of `messageMap`. -/
structure MessageEntry where
  message : StreamMessage
  toolCalls : List ToolCallRef

/-- What the loop over the messages changes. -/
structure Processing where
  calls : List ShownCall
  toolCallCache : Dict String ToolCallRef
  messageMap : Dict String MessageEntry := {}

def StreamMessage.isHuman (message : StreamMessage) : Bool :=
  match message.body with
  | .human => true
  | _ => false

/-- `statusFor`. -/
def statusFor (interruptedToolCallIds : List String) (id : String) : ToolCallStatus :=
  if id ≠ "" && interruptedToolCallIds.contains id then .interrupted else .pending

/-- The calls of a message before anything answers them. -/
def toolCallsWithStatus (js : JsText) (interruptedToolCallIds : List String)
    (toolCalls : List ToolCall) (chunks : List ToolCallChunk) : List ShownCall :=
  let done := toolCalls.filter fun tc => tc.name ≠ ""
  let doneIds := done.map ToolCall.id
  let streaming := chunks.filter fun c => c.id ≠ "" && c.name ≠ "" && !doneIds.contains c.id
  (done.map fun tc =>
      { id := tc.id, name := tc.name, args := argsOrEmpty tc.args,
        status := statusFor interruptedToolCallIds tc.id }) ++
    streaming.map fun c =>
      { id := c.id, name := c.name, args := parsePartialArgs js c.args,
        status := statusFor interruptedToolCallIds c.id }

/-- The first entry with a call, the index of the call in it, and the call. -/
def findToolCall (entries : List (String × MessageEntry)) (toolCallId : String) :
    Option ((String × MessageEntry) × ℕ × ToolCallRef) :=
  entries.findSome? fun e =>
    (e.2.toolCalls.findIdx? fun tc => tc.value.id = toolCallId).bind fun i =>
      e.2.toolCalls[i]?.map fun tc => (e, i, tc)

/-- `data.toolCalls[toolCallIndex] = next`. -/
def Processing.putToolCall (s : Processing) (e : String × MessageEntry) (toolCallIndex : ℕ)
    (next : ToolCallRef) : Processing :=
  { s with
    messageMap := s.messageMap.set e.1
      { e.2 with toolCalls := e.2.toolCalls.set toolCallIndex next } }

/-- A call has the result of a message. -/
def ShownCall.answered (call : ShownCall) (result : String) : ShownCall :=
  { call with status := .completed, result := some result }

/-- A cached call has the result of a message. -/
def ShownCall.hasResult (call : ShownCall) (result : String) : Bool :=
  call.status = .completed && call.result = some result

/-- The message of a tool answers a call. -/
def answerCall (s : Processing) (toolCallId result : String) : Processing :=
  match findToolCall s.messageMap.entries toolCallId with
  | none => s
  | some (e, i, tc) =>
    match (s.toolCallCache.get? toolCallId).filter fun cached => cached.value.hasResult result with
    | some cached => s.putToolCall e i cached
    | none =>
      let next := Obj.make s.calls (tc.value.answered result)
      { s with
        calls := next.2
        toolCallCache := s.toolCallCache.set toolCallId next.1 }.putToolCall e i next.1

/-- One pass of the loop over the messages. -/
def processMessage (js : JsText) (interruptedToolCallIds : List String) (s : Processing)
    (message : StreamMessage) : Processing :=
  match message.body with
  | .ai toolCalls chunks =>
    let made := Obj.makeAll s.calls (toolCallsWithStatus js interruptedToolCallIds toolCalls chunks)
    { s with
      calls := made.2
      messageMap := s.messageMap.set message.id ⟨message, made.1⟩ }
  | .tool toolCallId => if toolCallId = "" then s else answerCall s toolCallId message.text
  | .human => { s with messageMap := s.messageMap.set message.id ⟨message, []⟩ }
  | .other => s

/-! ### The arrays of calls -/

/-- An element of `processedMessages`. -/
structure ProcessedMessage where
  message : StreamMessage
  toolCalls : ToolCallArray
  showAvatar : Bool

/-- The arrays of the messages, and those made by then. -/
structure ArrayState where
  arrays : List (List ToolCallRef)
  arrayCache : Dict String ToolCallArray

/-- The array of a message: the cached one, if no entry of it has changed.  The cached one is set
again as it is. -/
def keepArray (s : ArrayState) (data : MessageEntry) : ToolCallArray × ArrayState :=
  if data.message.id = "" then
    let made := Obj.make s.arrays data.toolCalls
    (made.1, { s with arrays := made.2 })
  else
    let kept := Obj.keep (s.arrayCache.get? data.message.id) s.arrays data.toolCalls
    (kept.1, ⟨kept.2, s.arrayCache.set data.message.id kept.1⟩)

/-- The loop over `processedArray`; a message with the type of the previous one has no avatar. -/
def keepArrays (previous : Option Bool) (s : ArrayState) :
    List MessageEntry → List ProcessedMessage × ArrayState
  | [] => ([], s)
  | data :: processedArray =>
    let kept := keepArray s data
    let rest := keepArrays (some data.message.isHuman) kept.2 processedArray
    (⟨data.message, kept.1, previous ≠ some data.message.isHuman⟩ :: rest.1, rest.2)

/-! ### The groups -/

/-- `CARD_TOOL_NAMES`: what is rendered as its own card. -/
def cardToolNames : List String := ["task", "create_chart"]

/-- A call is none of the cards. -/
def ShownCall.isRegular (tc : ShownCall) : Bool := !cardToolNames.contains tc.name

/-- `!!tc.args["subagent_type"]`. -/
def ShownCall.hasSubagent (tc : ShownCall) : Bool := jsTruthy (tc.args.get? "subagent_type")

/-- A call spawns a subagent. -/
def ShownCall.spawns (tc : ShownCall) : Bool := tc.name = "task" && tc.hasSubagent

/-- A message has a text that can be seen. -/
def StreamMessage.isVisible (message : StreamMessage) : Bool := jsTrim message.text ≠ ""

/-- The calls of a message that are no cards: the cached ones, if the message has the cached array
or the calls are the same. -/
def regularCalls (cached : Option RegularCalls) (arrays : List (List ToolCallRef))
    (toolCalls : ToolCallArray) : ToolCallArray × List (List ToolCallRef) :=
  let regular := toolCalls.value.filter fun tc => tc.value.isRegular
  match cached with
  | some cached =>
    if cached.source.same toolCalls then (cached.regular, arrays)
    else Obj.keep (some cached.regular) arrays regular
  | none => Obj.keep none arrays regular

/-- What the loop over `processedMessages` changes. -/
structure GroupState where
  arrays : List (List ToolCallRef)
  regularCache : Dict String RegularCalls
  groups : Gathered String ToolCallArray := {}
  seenMessageIds : List String := []

/-- The groups after a message: prose stands above its own calls, and the card of a subagent below
them. -/
def groupRegular (groups : Gathered String ToolCallArray) (processed : ProcessedMessage)
    (regular : ToolCallArray) : Gathered String ToolCallArray :=
  let opened := if processed.message.isVisible then groups.cut else groups
  let filled :=
    if regular.value.length > 0 then opened.push processed.message.id regular else opened
  if processed.toolCalls.value.any fun tc => tc.value.spawns then filled.cut else filled

/-- One pass of the loop over `processedMessages`. -/
def groupMessage (s : GroupState) (processed : ProcessedMessage) : GroupState :=
  let messageId := processed.message.id
  if messageId = "" || processed.message.isHuman then { s with groups := s.groups.cut }
  else
    let regular := regularCalls (s.regularCache.get? messageId) s.arrays processed.toolCalls
    { arrays := regular.2
      -- what is kept is set again as it is
      regularCache := s.regularCache.set messageId ⟨processed.toolCalls, regular.1⟩
      groups := groupRegular s.groups processed regular.1
      seenMessageIds := s.seenMessageIds ++ [messageId] }

/-- The batches of the groups, and those made by then. -/
structure BatchState where
  batches : List (List ToolCallArray)
  batchesCache : Dict String ToolBatches

/-- The loop over `byHead`: the cached batches of a head, if none of them has changed. -/
def keepBatches (s : BatchState) :
    List (String × List ToolCallArray) → List (String × ToolBatches) × BatchState
  | [] => ([], s)
  | (headId, batches) :: byHead =>
    let kept := Obj.keep (s.batchesCache.get? headId) s.batches batches
    let rest := keepBatches ⟨kept.2, s.batchesCache.set headId kept.1⟩ byHead
    ((headId, kept.1) :: rest.1, rest.2)

/-! ### A render -/

/-- What is computed: the entries of `toolBatchesByHead` in their order. -/
structure Transcript where
  processedMessages : List ProcessedMessage
  toolBatchesByHead : List (String × ToolBatches)
  openEndedHeadId : Option String

/-- What is computed from messages, and the caches after it. -/
def render (js : JsText) (c : Caches) (r : Render) : Transcript × Caches :=
  let processing := r.messages.foldl (processMessage js r.interruptedToolCallIds)
    { calls := c.calls, toolCallCache := c.toolCallCache }
  let processedArray := processing.messageMap.values
  let kept := keepArrays none ⟨c.arrays, c.toolCallArrayCache⟩ processedArray
  let seenIds := (processedArray.map fun data => data.message.id).filter fun id => id ≠ ""
  let grouping := kept.1.foldl groupMessage
    { arrays := kept.2.arrays, regularCache := c.regularToolCallsCache }
  let byHead := grouping.groups.byHead
  let batches := keepBatches ⟨c.batches, c.toolBatchesCache⟩ byHead.entries
  ({ processedMessages := kept.1
     toolBatchesByHead := batches.1
     openEndedHeadId := grouping.groups.current.map Prod.fst },
    { calls := processing.calls
      arrays := grouping.arrays
      batches := batches.2.batches
      toolCallCache := processing.toolCallCache
      toolCallArrayCache := kept.2.arrayCache.filter fun id => seenIds.contains id
      regularToolCallsCache :=
        grouping.regularCache.filter fun id => grouping.seenMessageIds.contains id
      toolBatchesCache := batches.2.batchesCache.filter fun id => (byHead.get? id).isSome })

/-- The caches after a history of renders. -/
def renderAll (js : JsText) (history : List Render) : Caches :=
  history.foldl (fun c r => (render js c r).2) {}

end NextRole
