import NextRole.Api.EventStreaming
import NextRole.Api.ProtocolEvents
import NextRole.Lib.Dict
import NextRole.Lib.Transition

/-!
# From source events to protocol events

The normalizer of `event_streaming/session.py`: what a session makes of the source events
of its run, which ids it gives to the events that it pushes, and which namespaces it takes
for open.

A handler of a source event makes its calls of the methods that push whatever the state of
the session is, so it is the list of those calls.

## Main definitions

* `ProtocolSession` — the state of a session.
* `ProtocolSession.emit` — `_create_event` and `_push_event`.
* `ProtocolSession.registerNamespaces`, `emitNamespaceStarted`, `emitNamespaceLifecycle`,
  `emitChildNodeCompleted`, `completeStaleNamespaces` — the namespaces.
* `ProtocolSession.emitInputRequestedEvents`, `emitCheckpointEnvelope`.
* `SessionCall`, `dispatchSourceEvent` — the calls of a source event.
* `ProtocolSession.handleSourceEvent`, `start`, `emitTerminalLifecycle` — a run.
-/

namespace NextRole

/-! ### Payloads -/

/-- `_is_record`. -/
def isRecord : Json → Bool
  | .obj _ => true
  | _ => false

/-- A field that is text. -/
def textField (value : Json) (key : String) : Option String :=
  match value.get? key with
  | some (.str s) => some s
  | _ => none

/-- A name that is not empty. -/
def nonemptyName (name : Option String) : Option String := name.filter (· ≠ "")

/-- A list of texts. -/
def textList? : Json → Option (List String)
  | .arr values => values.mapM fun value =>
      match value with
      | .str s => some s
      | _ => none
  | _ => none

/-- A record without a field. -/
def dropField (key : String) : Json → Json
  | .obj kvs => .obj (kvs.filter fun kv => kv.1 ≠ key)
  | value => value

/-- A request for an input. -/
structure InputRequest where
  interruptId : String
  payload : Option Json := none
  deriving DecidableEq

/-- A request as it is on the wire. -/
def InputRequest.toJson (r : InputRequest) : Json :=
  .obj (("interrupt_id", .str r.interruptId) :: (r.payload.map fun p => ("payload", p)).toList)

/-- The request of an interrupt, where it has an id that is text. -/
def inputRequest (entry : Json) : Option InputRequest :=
  (textField entry "id").map fun id => ⟨id, entry.get? "value"⟩

/-- `_coerce_interrupt_requests`. -/
def coerceInterruptRequests (interrupts : List Json) : List InputRequest :=
  interrupts.filterMap inputRequest

/-- `_as_interrupt_array`. -/
def asInterruptArray : Json → List Json
  | .arr values => values
  | value =>
    match value.get? "__interrupt__" with
    | some (.arr values) => values
    | _ => []

/-- `normalize_input_requested_data`. -/
def normalizeInputRequestedData (value : Json) : List InputRequest :=
  (asInterruptArray value).filterMap inputRequest

/-- `strip_interrupts_from_values`. -/
def stripInterruptsFromValues (value : Json) : List InputRequest × Json :=
  (normalizeInputRequestedData value, dropField "__interrupt__" value)

/-- `_as_update_values`. -/
def asUpdateValues (value : Json) : Json :=
  if isRecord value then value else .obj [("value", value)]

/-- `normalize_updates_data`. -/
def normalizeUpdatesData : Json → Option String × Json
  | .obj [(node, values)] => (some node, asUpdateValues values)
  | value => (none, asUpdateValues value)

/-- `_has_state_payload`. -/
def hasStatePayload : Json → Bool
  | .obj [] => false
  | _ => true

/-- `_is_event_streaming_event`. -/
def isEventStreamingEvent (value : Json) : Bool :=
  value.get? "type" = some (.str "event") && (textField value "method").isSome &&
    (value.get? "params").any isRecord

/-- `parse_event_name`. -/
def parseEventName (event : String) : String × List String :=
  let parts := (event.toList.splitOn '|').map String.ofList
  (parts.headD "", parts.tail)

/-! ### State -/

/-- The statuses of a namespace. -/
inductive LifecycleStatus
  | started | running | completed | failed | interrupted
  deriving Repr, DecidableEq

namespace LifecycleStatus

/-- A status as events carry it. -/
def text : LifecycleStatus → String
  | started => "started"
  | running => "running"
  | completed => "completed"
  | failed => "failed"
  | interrupted => "interrupted"

/-- The statuses that end a namespace. -/
def terminal : LifecycleStatus → Bool
  | started | running => false
  | completed | failed | interrupted => true

end LifecycleStatus

/-- `to_lifecycle_status`. -/
def toLifecycleStatus : RunStatus → LifecycleStatus
  | .success => .completed
  | .error => .failed
  | .interrupted => .interrupted
  | _ => .running

/-- `NamespaceInfo`. -/
structure NamespaceInfo where
  ns : List String
  status : LifecycleStatus
  graphName : String

/-- What a session does not decide itself. -/
structure SessionEnv where
  runId : String
  /-- The timestamp of each event: the one of the upstream event where it has one, else the
  clock's. -/
  timestamp : ℕ → Timestamp := fun _ => 0
  /-- `normalize_event_streaming_state_payload`. -/
  normalizeState : Json → Json := id
  /-- `str` of a value. -/
  str : Json → String := Json.render
  /-- `orjson.dumps` of a value. -/
  dumps : Json → String := Json.render

/-- An `EventStreamingSession`, as it normalizes a run. -/
structure ProtocolSession where
  env : SessionEnv
  rootGraphName : String := "root"
  namespaces : Dict String NamespaceInfo := {}
  wireStartedEmitted : List String := []
  nextSeq : ℕ := 0
  terminalLifecycleEmitted : Bool := false
  pendingInterrupts : Dict String (List String) := {}
  emittedCheckpoints : List (String × String) := []
  streamIdCounts : Dict String ℕ := {}
  /-- `_CURRENT_STREAM_ID` and `_CURRENT_SOURCE_COUNTER`. -/
  scope : Option (String × ℕ) := none
  /-- All events passed to `_push_event`. -/
  pushed : List ProtocolEvent := []

/-- `_synth_event_id`. -/
def synthEventId (runId : String) (parts : List String) : String :=
  "synth:" ++ runId ++ ":" ++ String.ofList (Path.join '|' (parts.map String.toList))

/-- The name and the data of an event of a channel `custom:<name>`. -/
def customEvent (method : String) (data : Json) : String × Json :=
  let name := String.ofList (method.toList.drop "custom:".length)
  if "custom:".toList.isPrefixOf method.toList ∧ name ≠ "" then
    ("custom", .obj [("name", .str name), ("payload", data)])
  else (method, data)

/-- The method and the data of an event on the wire. -/
def wireEvent (env : SessionEnv) (method : String) (data : Json) : String × Json :=
  let (method, data) := customEvent method data
  (if method = "input" then "input.requested" else method,
    if method = "values" ∨ method = "updates" then env.normalizeState data else data)

namespace ProtocolSession

variable (s : ProtocolSession)

/-! ### Events -/

/-- `_assign_event_id`. -/
def assignEventId : String × ProtocolSession :=
  match s.scope with
  | some (upstream, idx) =>
    (if idx = 0 then upstream else upstream ++ "." ++ toString idx,
      { s with scope := some (upstream, idx + 1) })
  | none => (synthEventId s.env.runId [toString s.nextSeq], s)

/-- `_create_event`. -/
def createEvent (method : String) (ns : List String) (data : Json) (node eventId : Option String) :
    ProtocolEvent × ProtocolSession :=
  let s := { s with nextSeq := s.nextSeq + 1 }
  let (eventMethod, normalizedData) := wireEvent s.env method data
  let (resolvedEventId, s) :=
    match eventId with
    | some eventId => (eventId, s)
    | none => s.assignEventId
  ({ eventId := resolvedEventId, seq := s.nextSeq, method := eventMethod, ns := ns,
      timestamp := s.env.timestamp s.nextSeq, data := normalizedData, node := node }, s)

/-- `_push_event` of an event that `_create_event` makes. -/
def emit (method : String) (ns : List String) (data : Json) (node eventId : Option String) :
    ProtocolSession :=
  let (e, s) := s.createEvent method ns data node eventId
  { s with pushed := s.pushed ++ [e] }

/-- A synthetic id of the session. -/
def synthId (parts : List String) : String := synthEventId s.env.runId parts

/-! ### Namespaces -/

/-- The name that `_set_namespace_info` and `_emit_namespace_lifecycle` settle on. -/
def resolveGraphName (ns : List String) (graphName : Option String) : String :=
  let existing := (s.namespaces.get? (namespaceKey ns)).map NamespaceInfo.graphName
  ((nonemptyName graphName).or (nonemptyName existing)).getD
    (if ns = [] then s.rootGraphName else guessGraphName ns)

/-- `_set_namespace_info`. -/
def setNamespaceInfo (ns : List String) (status : LifecycleStatus) (graphName : Option String) :
    ProtocolSession :=
  let info : NamespaceInfo := ⟨ns, status, s.resolveGraphName ns graphName⟩
  { s with namespaces := s.namespaces.set (namespaceKey ns) info }

/-- A turn of the loop of `_register_namespaces`. -/
def registerNamespace (partialNs : List String) : ProtocolSession :=
  match s.namespaces.get? (namespaceKey partialNs) with
  | some info =>
    if info.status = .started then s
    else s.setNamespaceInfo partialNs .started (some info.graphName)
  | none => s.setNamespaceInfo partialNs .started (some (guessGraphName partialNs))

/-- `_register_namespaces`. -/
def registerNamespaces (ns : List String) : ProtocolSession :=
  ns.inits.tail.foldl registerNamespace s

/-- `_emit_namespace_started`. -/
def emitNamespaceStarted (ns : List String) (data : Json) : ProtocolSession :=
  let key := namespaceKey ns
  if ns = [] ∨ key ∈ s.wireStartedEmitted then s
  else
    let s := { s with wireStartedEmitted := s.wireStartedEmitted ++ [key] }
    (s.setNamespaceInfo ns .started (textField data "graph_name")).emit "lifecycle" ns data none none

/-- `lifecycle_data`. -/
def lifecycleData (status : LifecycleStatus) (graphName : String) (error cause : Option Json) :
    Json :=
  .obj ([("event", .str status.text), ("graph_name", .str graphName)] ++
    (error.map fun e => ("error", e)).toList ++ (cause.map fun c => ("cause", c)).toList)

/-- Whether a namespace has a status under a name already. -/
def hasStatus (ns : List String) (status : LifecycleStatus) (graphName : String) : Bool :=
  (s.namespaces.get? (namespaceKey ns)).any fun info =>
    info.status = status && info.graphName = graphName

/-- The namespace of a lifecycle event is registered where it is not known. -/
def registerUnknown (ns : List String) : ProtocolSession :=
  if ns ≠ [] ∧ (s.namespaces.get? (namespaceKey ns)).isNone = true then s.registerNamespaces ns
  else s

/-- `_emit_namespace_lifecycle`. -/
def emitNamespaceLifecycle (ns : List String) (status : LifecycleStatus)
    (graphName : Option String) (error cause : Option Json) : ProtocolSession :=
  let key := namespaceKey ns
  let s := s.registerUnknown ns
  let resolved := s.resolveGraphName ns graphName
  if s.hasStatus ns status resolved && error.isNone && cause.isNone then s
  else
    (s.setNamespaceInfo ns status (some resolved)).emit "lifecycle" ns
      (lifecycleData status resolved error cause) none (s.synthId ["lc", key, status.text])

/-- The oldest open child namespace of a node. -/
def openChild (parent : List String) (node : String) : Option NamespaceInfo :=
  s.namespaces.values.find? fun info =>
    info.ns.length = parent.length + 1 && info.status = .started &&
      info.ns.take parent.length = parent &&
        info.ns.getLast?.any fun last =>
          last = node || (node ++ ":").toList.isPrefixOf last.toList

/-- `_emit_child_node_completed`. -/
def emitChildNodeCompleted (parent : List String) (node : String) : ProtocolSession :=
  if node = "" ∨ "__".toList.isPrefixOf node.toList then s
  else
    match s.openChild parent node with
    | none => s
    | some info => s.emitNamespaceLifecycle info.ns .completed (some info.graphName) none none

/-- A turn of the loop of `_complete_stale_namespaces`. -/
def completeNamespace (info : NamespaceInfo) : ProtocolSession :=
  if (s.namespaces.get? (namespaceKey info.ns)).any fun info => info.status = .started then
    s.emitNamespaceLifecycle info.ns .completed (some info.graphName) none none
  else s

/-- The namespaces that execution has left, deepest first. -/
def staleNamespaces (current : List String) : List NamespaceInfo :=
  (s.namespaces.values.filter fun info =>
    info.status = .started && info.ns ≠ [] && !isPrefixMatch current info.ns).mergeSort
      fun info info' => info'.ns.length ≤ info.ns.length

/-- `_complete_stale_namespaces`. -/
def completeStaleNamespaces (current : List String) : ProtocolSession :=
  (s.staleNamespaces current).foldl completeNamespace s

/-! ### Input and checkpoints -/

/-- A turn of the loop of `_emit_input_requested_events`. -/
def requestInput (ns : List String) (r : InputRequest) : ProtocolSession :=
  if r.interruptId = "" ∨ (s.pendingInterrupts.get? r.interruptId).isSome then s
  else
    { s with pendingInterrupts := s.pendingInterrupts.set r.interruptId ns }.emit "input" ns
      r.toJson none (s.synthId ["input", namespaceKey ns, r.interruptId])

/-- Whether a request is for an interrupt that is not pending. -/
def isNewRequest (r : InputRequest) : Bool :=
  r.interruptId ≠ "" && (s.pendingInterrupts.get? r.interruptId).isNone

/-- `_emit_input_requested_events`. -/
def emitInputRequestedEvents (ns : List String) (requests : List InputRequest) : ProtocolSession :=
  let emittedAny := requests.any s.isNewRequest
  let s := requests.foldl (fun s r => s.requestInput ns r) s
  if emittedAny then
    { s.emitNamespaceLifecycle [] .interrupted (some s.rootGraphName) none none with
      terminalLifecycleEmitted := true }
  else s

/-- `clear_pending_interrupt`. -/
def clearPendingInterrupt (interruptId : String) : ProtocolSession :=
  { s with pendingInterrupts := s.pendingInterrupts.erase interruptId }

/-- `_emit_checkpoint_envelope`. -/
def emitCheckpointEnvelope (ns : List String) (envelope : Json) : ProtocolSession :=
  match textField envelope "id" with
  | none => s
  | some cpId =>
    let key := (namespaceKey ns, cpId)
    if key ∈ s.emittedCheckpoints then s
    else
      { s with emittedCheckpoints := s.emittedCheckpoints ++ [key] }.emit "checkpoints" ns envelope
        none (s.synthId ["checkpoint", namespaceKey ns, cpId])

end ProtocolSession

/-! ### The calls of a source event -/

/-- A call of a handler. -/
inductive SessionCall
  | register (ns : List String)
  | push (method : String) (ns : List String) (data : Json) (node : Option String)
  | started (ns : List String) (data : Json)
  | lifecycle (ns : List String) (status : LifecycleStatus) (graphName : Option String)
      (error cause : Option Json)
  | childCompleted (parent : List String) (node : String)
  | requested (ns : List String) (requests : List InputRequest)
  | checkpoint (ns : List String) (envelope : Json)

/-- What a call does. -/
def ProtocolSession.call (s : ProtocolSession) : SessionCall → ProtocolSession
  | .register ns => s.registerNamespaces ns
  | .push method ns data node => s.emit method ns data node none
  | .started ns data => s.emitNamespaceStarted ns data
  | .lifecycle ns status graphName error cause =>
    s.emitNamespaceLifecycle ns status graphName error cause
  | .childCompleted parent node => s.emitChildNodeCompleted parent node
  | .requested ns requests => s.emitInputRequestedEvents ns requests
  | .checkpoint ns envelope => s.emitCheckpointEnvelope ns envelope

/-- The statuses that `_handle_lifecycle_event` hands on. -/
def announcedStatus : String → Option LifecycleStatus
  | "running" => some .running
  | "completed" => some .completed
  | "failed" => some .failed
  | "interrupted" => some .interrupted
  | _ => none

/-- The namespace that a lifecycle payload announces, where it is the deeper one. -/
def announcedNamespace (ns : List String) (data : Json) : List String :=
  match (data.get? "namespace").bind textList? with
  | some dataNs => if ns.length < dataNs.length then dataNs else ns
  | none => ns

/-- `_handle_lifecycle_event`. -/
def handleLifecycleEvent (ns : List String) (data : Json) : List SessionCall :=
  match textField data "event" with
  | none => if ns = [] then [] else [.register ns]
  | some eventType =>
    let ns := announcedNamespace ns data
    if ns = [] then []
    else if eventType = "started" then [.started ns data]
    else
      match announcedStatus eventType with
      | some status =>
        [.lifecycle ns status (textField data "graph_name") ((textField data "error").map Json.str)
          ((data.get? "cause").filter isRecord)]
      | none => [.register ns]

section

variable (env : SessionEnv)

/-- `_stringify_tool_output_content`. -/
def stringifyToolOutputContent : Option Json → String
  | some (.str content) => content
  | none | some .null => ""
  | some content => env.dumps content

/-- A text block of a tool message. -/
def textBlock (event text : String) : Json :=
  .obj [("event", .str event), ("index", .num 0),
    ("content", .obj [("type", .str "text"), ("text", .str text)])]

/-- `_emit_tool_output_message` of a record. -/
def emitToolOutputMessage (ns : List String) (data : Json) : List SessionCall :=
  let output := (data.get? "output").getD .null
  let toolCallId := (textField data "tool_call_id").or (textField output "tool_call_id")
  let messageId := (nonemptyName (textField output "id")).or
    ((nonemptyName toolCallId).map fun id => "tool-" ++ id)
  if textField data "event" = some "tool-finished" ∧ isRecord output = true then
    match messageId with
    | none => []
    | some messageId =>
      let content := stringifyToolOutputContent env (output.get? "content")
      let start := Json.obj ([("event", .str "message-start"), ("role", .str "tool"),
        ("id", .str messageId)] ++ (toolCallId.map fun id => ("tool_call_id", .str id)).toList)
      let messageNs := ns ++ (toolCallId.map fun id => "tools:" ++ id).toList
      [start, textBlock "content-block-start" "", textBlock "content-block-delta" content,
        textBlock "content-block-finish" content,
        .obj [("event", .str "message-finish"), ("metadata", .obj [])]].map fun eventData =>
          .push "messages" messageNs eventData none
  else []

/-- The node of a `tools` event, and its data without it. -/
def takeNode (data : Json) : Option String × Json :=
  (nonemptyName (textField data "__node"), dropField "__node" data)

/-- The calls for the interrupts that a `values` event carries. -/
def valuesRequests (ns : List String) (params data : Json) : List SessionCall :=
  let interrupts :=
    match params.get? "interrupts" with
    | some (.arr interrupts) => coerceInterruptRequests interrupts
    | _ => []
  [.requested ns interrupts, .requested ns (stripInterruptsFromValues data).1]

/-- The node of a normalized event, and its data without an out-of-band one. -/
def producingNode (method : String) (params data : Json) : Option String × Json :=
  match nonemptyName (textField params "node") with
  | some node => (some node, data)
  | none =>
    if method = "updates" then (nonemptyName (textField data "node"), data)
    else if method = "tools" then takeNode data
    else (none, data)

/-- `_handle_normalized_event`. -/
def handleNormalizedEvent (methodFromName : String) (nsFromName : List String) (event : Json) :
    List SessionCall :=
  let params := (event.get? "params").getD (.obj [])
  let ns := ((params.get? "namespace").bind textList?).getD nsFromName
  let method := (nonemptyName (textField event "method")).getD methodFromName
  let data := (params.get? "data").getD .null
  if method = "checkpoints" then [.checkpoint ns data]
  else if method = "lifecycle" then handleLifecycleEvent ns data
  else
    let updateNode := (textField params "node").or (textField data "node")
    if method = "updates" ∧ updateNode = some "__interrupt__" then
      let interrupts := (data.get? "values").getD .null
      [.register ns, .requested ns (normalizeInputRequestedData interrupts)]
    else
      let requests := if method = "values" then valuesRequests ns params data else []
      let data := if method = "values" then (stripInterruptsFromValues data).2 else data
      let node := (producingNode method params data).1
      let data := (producingNode method params data).2
      let messages : List SessionCall :=
        if method = "tools" ∧ isRecord data = true then emitToolOutputMessage env ns data else []
      let completed : List SessionCall :=
        if method = "updates" then node.toList.map fun node => .childCompleted ns node else []
      .register ns :: requests ++ [.push method ns data node] ++ messages ++ completed

/-- `_dispatch_source_event`, and whether it raises after its last call. -/
def dispatchSourceEvent (method : String) (ns : List String) (data : Json) :
    List SessionCall × Bool :=
  if isEventStreamingEvent data then (handleNormalizedEvent env method ns data, false)
  else if method = "lifecycle" then (handleLifecycleEvent ns data, false)
  else if method = "values" then
    let (inputRequests, cleanedValues) := stripInterruptsFromValues data
    ([.register ns, .requested ns inputRequests] ++
      if hasStatePayload cleanedValues then [.push "values" ns cleanedValues none] else [], false)
  else if method = "messages" then
    (.register ns ::
      if (textField data "event").isSome then [.push "messages" ns data none] else [], false)
  else if method = "updates" then
    let (node, values) := normalizeUpdatesData data
    if node = some "__interrupt__" then
      ([.register ns, .requested ns (normalizeInputRequestedData data)], false)
    else
      let (inputRequests, cleanedValues) := stripInterruptsFromValues values
      ([.register ns, .requested ns inputRequests] ++
        (if hasStatePayload cleanedValues then [.push "updates" ns cleanedValues node] else []) ++
        node.toList.map fun node => .childCompleted ns node, false)
  else if method = "custom" then
    ([.register ns, .push "custom" ns (.obj [("payload", data)]) none], false)
  else if method = "tasks" then ([.register ns, .push "tasks" ns data none], false)
  else if method = "checkpoints" then ([.register ns, .checkpoint ns data], false)
  else if method = "tools" then
    let (node, data) := takeNode data
    -- the mirrored message is read off the data, whatever it is
    ([.register ns, .push "tools" ns data node] ++ emitToolOutputMessage env ns data,
      !isRecord data)
  else ([.register ns], false)

end

/-! ### Runs -/

/-- A tuple of the source: the message is `none` where it is no JSON, and has its text then. -/
structure SourceEvent where
  name : String
  message : Option Json := none
  text : String := ""
  streamId : Option String := none
  deriving DecidableEq

/-- `error_msg`; a message that is `null` is no message. -/
def SourceEvent.errorMessage (e : SourceEvent) (env : SessionEnv) : Option Json :=
  match e.message with
  | none => some (.str e.text)
  | some data =>
    match isRecord data, data.get? "message" with
    | true, some .null => none
    | true, some message => some message
    | _, _ => some (.str (env.str data))

namespace ProtocolSession

variable (s : ProtocolSession)

/-- The scope of the ids of a source event. -/
def openScope (streamId : Option String) : ProtocolSession :=
  { s with scope := (nonemptyName streamId).map fun id => (id, (s.streamIdCounts.get? id).getD 0) }

/-- The count of the stream id is kept for its next event. -/
def closeScope : ProtocolSession :=
  match s.scope with
  | some (id, count) => { s with streamIdCounts := s.streamIdCounts.set id count, scope := none }
  | none => s

/-- `_handle_source_event`, and whether it raises. -/
def handleSourceEvent (e : SourceEvent) : ProtocolSession × Bool :=
  if e.name = "metadata" then (s, false)
  else if e.name = "error" then
    ({ s with terminalLifecycleEmitted := true }.emitNamespaceLifecycle [] .failed
      s.rootGraphName (e.errorMessage s.env) none, false)
  else
    match e.message with
    | none => (s, true)
    | some data =>
      let (method, ns) := parseEventName e.name
      let (calls, raises) := dispatchSourceEvent s.env method ns data
      ((calls.foldl call (s.openScope e.streamId)).closeScope, raises)

/-- `start`, with the graph of the configuration and the assistant of the run. -/
def start (graphId assistantId : Option String) : ProtocolSession :=
  let rootGraphName := graphId.getD (assistantId.getD "root")
  let s := { s with rootGraphName := rootGraphName }
  (s.setNamespaceInfo [] .running (some rootGraphName)).emit "lifecycle" []
    (lifecycleData .running rootGraphName none none) none
    (s.synthId ["lc", namespaceKey [], LifecycleStatus.running.text])

/-- `_resolve_effective_status`, where `fetched` is what the fetch of the state of the thread
gives: `none` if there is none or it fails. -/
def resolveEffectiveStatus (run : RunStatus) (fetched : Option (List StateTask)) : LifecycleStatus :=
  let status := toLifecycleStatus run
  if status ≠ .completed then status
  else if fetched.any hasInterrupts then .interrupted
  else status

/-- `_emit_terminal_lifecycle`, with what `get_run` gives. -/
def emitTerminalLifecycle (run : Option RunStatus) (fetched : Option (List StateTask)) :
    ProtocolSession :=
  if s.terminalLifecycleEmitted then s
  else
    match run with
    | none => { s with terminalLifecycleEmitted := true }
    | some run =>
      let status := resolveEffectiveStatus run fetched
      if status = .running then s
      else
        let s := { s with terminalLifecycleEmitted := true }
        (s.completeStaleNamespaces []).emitNamespaceLifecycle [] status (some s.rootGraphName)
          none none

end ProtocolSession

/-- What happens to a session. -/
inductive SessionAction
  | source (e : SourceEvent)
  | clearInterrupt (id : String)
  | complete (run : Option RunStatus) (fetched : Option (List StateTask))

/-- A session that has started; it may carry on a sequence. -/
def ProtocolSession.Started (s : ProtocolSession) : Prop :=
  ∃ env nextSeq graphId assistantId,
    s = ({ env := env, nextSeq := nextSeq } : ProtocolSession).start graphId assistantId

/-- The session as a machine.  A source event that raises ends the source; a run may end
after any step. -/
def protocolSession : Machine ProtocolSession SessionAction where
  init := ProtocolSession.Started
  step s
    | .source e => some (s.handleSourceEvent e).1
    | .clearInterrupt id => some (s.clearPendingInterrupt id)
    | .complete run fetched => some (s.emitTerminalLifecycle run fetched)

/-- A session of the graph `agent`. -/
def agentSession : ProtocolSession :=
  ({ env := { runId := "r" } } : ProtocolSession).start (some "agent") none

theorem agentSession_started : agentSession.Started := ⟨_, _, _, _, rfl⟩

/-! ### What an operation does -/

@[simp] theorem wireEvent_lifecycle (env : SessionEnv) (data : Json) :
    wireEvent env "lifecycle" data = ("lifecycle", data) := by
  have h : customEvent "lifecycle" data = ("lifecycle", data) := by
    unfold customEvent
    exact if_neg (by decide)
  simp [wireEvent, h]

@[simp] theorem wireEvent_input (env : SessionEnv) (data : Json) :
    wireEvent env "input" data = ("input.requested", data) := by
  have h : customEvent "input" data = ("input", data) := by
    unfold customEvent
    exact if_neg (by decide)
  simp [wireEvent, h]

/-- Only an event of the method `lifecycle` is one on the wire. -/
theorem wireEvent_ne_lifecycle {method : String} (h : method ≠ "lifecycle") (env : SessionEnv)
    (data : Json) : (wireEvent env method data).1 ≠ "lifecycle" := by
  unfold wireEvent customEvent
  dsimp only
  split
  · simp
  · dsimp only
    split
    · simp
    · exact h

theorem ProtocolEvent.ne_lifecycle_of_wireEvent {e : ProtocolEvent} {method : String}
    {env : SessionEnv} {data : Json} (hwire : (e.method, e.data) = wireEvent env method data)
    (h : method ≠ "lifecycle") : e.method ≠ "lifecycle" := by
  have hmethod : e.method = (wireEvent env method data).1 := congrArg Prod.fst hwire
  rw [hmethod]
  exact wireEvent_ne_lifecycle h env data

namespace ProtocolSession

variable (s : ProtocolSession) (method : String) (ns : List String) (data : Json)
  (node : Option String)

theorem emit_some (eventId : String) : ∃ e : ProtocolEvent,
    (e.method, e.data) = wireEvent s.env method data ∧ e.ns = ns ∧ e.eventId = eventId ∧
      s.emit method ns data node (some eventId) =
        { s with nextSeq := s.nextSeq + 1, pushed := s.pushed ++ [e] } :=
  ⟨_, rfl, rfl, rfl, rfl⟩

/-- An event that gets its id from the stream, or from the sequence. -/
theorem emit_none : ∃ e : ProtocolEvent, ∃ scope,
    (e.method, e.data) = wireEvent s.env method data ∧ e.ns = ns ∧
      ((∃ id n, s.scope = some (id, n) ∧ scope = some (id, n + 1) ∧
          e.eventId = if n = 0 then id else id ++ "." ++ toString n) ∨
        (s.scope = none ∧ scope = none ∧
          e.eventId = synthEventId s.env.runId [toString (s.nextSeq + 1)])) ∧
      s.emit method ns data node none =
        { s with nextSeq := s.nextSeq + 1, scope := scope, pushed := s.pushed ++ [e] } := by
  refine ⟨(s.createEvent method ns data node none).1,
    (s.createEvent method ns data node none).2.scope, ?_⟩
  cases hscope : s.scope with
  | none => simp [emit, createEvent, assignEventId, hscope]
  | some upstream => simp [emit, createEvent, assignEventId, hscope]

theorem registerNamespace_cases :
    s.registerNamespace ns = s ∨ ∃ graphName, s.registerNamespace ns =
      { s with namespaces := s.namespaces.set (namespaceKey ns) ⟨ns, .started, graphName⟩ } := by
  unfold registerNamespace
  split
  · split
    · exact .inl rfl
    · exact .inr ⟨_, rfl⟩
  · exact .inr ⟨_, rfl⟩

/-- Registering changes the namespaces only. -/
theorem registerNamespaces_eq :
    ∃ namespaces, s.registerNamespaces ns = { s with namespaces := namespaces } := by
  unfold registerNamespaces
  generalize ns.inits.tail = parts
  induction parts generalizing s with
  | nil => exact ⟨s.namespaces, rfl⟩
  | cons part parts ih =>
    rw [List.foldl_cons]
    obtain ⟨namespaces, h⟩ := ih (s.registerNamespace part)
    rcases s.registerNamespace_cases part with heq | ⟨graphName, heq⟩
    · exact ⟨namespaces, by rw [h, heq]⟩
    · exact ⟨namespaces, by rw [h, heq]⟩

theorem mem_inits_tail {part : List String} :
    part ∈ ns.inits.tail ↔ part <+: ns ∧ part ≠ [] := by
  cases ns with
  | nil => simp
  | cons segment ns =>
    simp only [List.inits_cons, List.tail_cons, List.mem_map, List.mem_inits, List.prefix_cons_iff]
    grind

/-- What registering one namespace after the other keeps. -/
theorem registerNamespaces_invariant {P : ProtocolSession → Prop} (h : P s)
    (hstep : ∀ t part, part <+: ns → part ≠ [] → P t → P (t.registerNamespace part)) :
    P (s.registerNamespaces ns) := by
  have hall : ∀ part ∈ ns.inits.tail, part <+: ns ∧ part ≠ [] := fun part =>
    (mem_inits_tail ns).mp
  unfold registerNamespaces
  generalize ns.inits.tail = parts at hall
  induction parts generalizing s with
  | nil => exact h
  | cons part parts ih =>
    obtain ⟨hpart, hparts⟩ := List.forall_mem_cons.mp hall
    exact ih (s.registerNamespace part) (hstep s part hpart.1 hpart.2 h) hparts

@[simp] theorem textField_lifecycleData (status : LifecycleStatus) (graphName : String)
    (error cause : Option Json) :
    textField (lifecycleData status graphName error cause) "event" = some status.text := rfl

theorem registerUnknown_eq :
    ∃ namespaces, s.registerUnknown ns = { s with namespaces := namespaces } := by
  unfold registerUnknown
  split
  · exact s.registerNamespaces_eq ns
  · exact ⟨s.namespaces, rfl⟩

@[simp] theorem registerUnknown_nil : s.registerUnknown [] = s := if_neg fun h => h.1 rfl

theorem openChild_spec {parent : List String} {child : String} {info : NamespaceInfo}
    (h : s.openChild parent child = some info) :
    (∃ key, s.namespaces.get? key = some info) ∧ info.status = .started ∧ info.ns ≠ [] := by
  have hfound := List.find?_some h
  simp only [Bool.and_eq_true, decide_eq_true_eq] at hfound
  obtain ⟨⟨⟨hlength, hstarted⟩, -⟩, -⟩ := hfound
  obtain ⟨key, hkey⟩ := Dict.mem_values.mp (List.mem_of_find?_eq_some h)
  refine ⟨⟨key, Dict.get?_eq_some_iff.mpr hkey⟩, hstarted, fun hnil => ?_⟩
  rw [hnil] at hlength
  cases hlength

theorem mem_staleNamespaces_nil {info : NamespaceInfo} : info ∈ s.staleNamespaces [] ↔
    (∃ key, s.namespaces.get? key = some info) ∧ info.status = .started ∧ info.ns ≠ [] := by
  have hvalues : info ∈ s.namespaces.values ↔ ∃ key, s.namespaces.get? key = some info := by
    simp only [Dict.get?_eq_some_iff]
    exact Dict.mem_values
  rw [staleNamespaces, List.mem_mergeSort, List.mem_filter, hvalues]
  cases info.ns <;> simp [isPrefixMatch]

end ProtocolSession

/-- An event announces a status of a namespace. -/
def ProtocolEvent.Announces (e : ProtocolEvent) (ns : List String) (status : LifecycleStatus) : Prop :=
  e.method = "lifecycle" ∧ e.ns = ns ∧ textField e.data "event" = some status.text

instance (e : ProtocolEvent) (ns : List String) (status : LifecycleStatus) :
    Decidable (e.Announces ns status) :=
  inferInstanceAs (Decidable (_ ∧ _))

theorem LifecycleStatus.text_injective {status status' : LifecycleStatus}
    (h : status.text = status'.text) : status = status' := by
  cases status <;> cases status' <;> first | rfl | exact absurd h (by decide)

theorem ProtocolEvent.Announces.unique {e : ProtocolEvent} {ns ns' : List String}
    {status status' : LifecycleStatus} (h : e.Announces ns status) (h' : e.Announces ns' status') :
    ns = ns' ∧ status = status' := by
  obtain ⟨-, rfl, ht⟩ := h
  obtain ⟨-, rfl, ht'⟩ := h'
  exact ⟨rfl, LifecycleStatus.text_injective (Option.some.inj (ht.symm.trans ht'))⟩

namespace ProtocolSession

variable (s : ProtocolSession) (ns : List String)

/-- A lifecycle event is dropped where it says nothing new, and pushed otherwise. -/
theorem emitNamespaceLifecycle_cases (status : LifecycleStatus) (graphName : Option String)
    (error cause : Option Json) :
    let t := s.registerUnknown ns
    let dropped := t.hasStatus ns status (t.resolveGraphName ns graphName) = true ∧
      error = none ∧ cause = none
    (dropped ∧ s.emitNamespaceLifecycle ns status graphName error cause = t) ∨
      (¬ dropped ∧ ∃ (e : ProtocolEvent) (name : String), e.Announces ns status ∧
        e.eventId = synthEventId s.env.runId ["lc", namespaceKey ns, status.text] ∧
        s.emitNamespaceLifecycle ns status graphName error cause =
          { t with
            namespaces := t.namespaces.set (namespaceKey ns) ⟨ns, status, name⟩
            nextSeq := s.nextSeq + 1
            pushed := s.pushed ++ [e] }) := by
  obtain ⟨namespaces, ht⟩ := s.registerUnknown_eq ns
  simp only [emitNamespaceLifecycle, ht]
  split
  · next h =>
    simp only [Bool.and_eq_true, Option.isNone_iff_eq_none] at h
    exact .inl ⟨⟨h.1.1, h.1.2, h.2⟩, rfl⟩
  · next h =>
    simp only [Bool.and_eq_true, Option.isNone_iff_eq_none, and_assoc] at h
    obtain ⟨e, hwire, hns, hid, hemit⟩ := emit_some (setNamespaceInfo
      { s with namespaces := namespaces } ns status
      (some (resolveGraphName { s with namespaces := namespaces } ns graphName))) "lifecycle" ns
      (lifecycleData status (resolveGraphName { s with namespaces := namespaces } ns graphName)
        error cause) none (s.synthId ["lc", namespaceKey ns, status.text])
    rw [wireEvent_lifecycle, Prod.mk.injEq] at hwire
    refine .inr ⟨h, e, _, ⟨hwire.1, hns, ?_⟩, hid, hemit⟩
    rw [hwire.2, textField_lifecycleData]

/-- An open namespace ends. -/
theorem emitNamespaceLifecycle_of_open (status : LifecycleStatus) (hne : status ≠ .started)
    (hopen : (s.namespaces.get? (namespaceKey ns)).any (fun info => info.status = .started) = true)
    (graphName : Option String) (error cause : Option Json) :
    ∃ (e : ProtocolEvent) (name : String), e.Announces ns status ∧
      e.eventId = synthEventId s.env.runId ["lc", namespaceKey ns, status.text] ∧
      s.emitNamespaceLifecycle ns status graphName error cause =
        { s with
          namespaces := s.namespaces.set (namespaceKey ns) ⟨ns, status, name⟩
          nextSeq := s.nextSeq + 1
          pushed := s.pushed ++ [e] } := by
  obtain ⟨info, hinfo, hstarted⟩ := (Option.any_eq_true _ _).mp hopen
  have hknown : s.registerUnknown ns = s := by simp [registerUnknown, hinfo]
  have hcases := s.emitNamespaceLifecycle_cases ns status graphName error cause
  rw [hknown] at hcases
  rcases hcases with ⟨⟨hdrop, -⟩, -⟩ | ⟨-, e, name, he, hid, heq⟩
  · simp only [hasStatus, hinfo, Option.any_some, Bool.and_eq_true, decide_eq_true_eq] at hdrop
    exact absurd (hdrop.1.symm.trans (of_decide_eq_true hstarted)) hne
  · exact ⟨e, name, he, hid, heq⟩

/-- What no lifecycle event changes. -/
structure SameScope (s t : ProtocolSession) : Prop where
  latch : t.terminalLifecycleEmitted = s.terminalLifecycleEmitted
  scope : t.scope = s.scope

theorem sameScope_emitNamespaceLifecycle (status : LifecycleStatus) (graphName : Option String)
    (error cause : Option Json) :
    SameScope s (s.emitNamespaceLifecycle ns status graphName error cause) := by
  obtain ⟨namespaces, ht⟩ := s.registerUnknown_eq ns
  have hcases := s.emitNamespaceLifecycle_cases ns status graphName error cause
  rw [ht] at hcases
  rcases hcases with ⟨-, heq⟩ | ⟨-, e, name, -, -, heq⟩
  · rw [heq]
    exact ⟨rfl, rfl⟩
  · rw [heq]
    exact ⟨rfl, rfl⟩

theorem sameScope_completeStaleNamespaces (current : List String) :
    SameScope s (s.completeStaleNamespaces current) := by
  unfold completeStaleNamespaces
  generalize s.staleNamespaces current = infos
  induction infos generalizing s with
  | nil => exact ⟨rfl, rfl⟩
  | cons info infos ih =>
    have hturn : SameScope s (s.completeNamespace info) := by
      unfold completeNamespace
      split
      · exact sameScope_emitNamespaceLifecycle _ _ _ _ _ _
      · exact ⟨rfl, rfl⟩
    have hrest := ih (s.completeNamespace info)
    exact ⟨hrest.latch.trans hturn.latch, hrest.scope.trans hturn.scope⟩

/-- A session starts with a root that runs. -/
theorem start_eq (graphId assistantId : Option String) : ∃ (e : ProtocolEvent) (root name : String),
    e.Announces [] .running ∧
      e.eventId = synthEventId s.env.runId ["lc", namespaceKey [], LifecycleStatus.running.text] ∧
      s.start graphId assistantId =
        { s with
          rootGraphName := root
          namespaces := s.namespaces.set (namespaceKey []) ⟨[], .running, name⟩
          nextSeq := s.nextSeq + 1
          pushed := s.pushed ++ [e] } := by
  obtain ⟨e, hwire, hns, hid, hemit⟩ := emit_some (setNamespaceInfo
    { s with rootGraphName := graphId.getD (assistantId.getD "root") } [] .running
    (some (graphId.getD (assistantId.getD "root")))) "lifecycle" []
    (lifecycleData .running (graphId.getD (assistantId.getD "root")) none none) none
    (s.synthId ["lc", namespaceKey [], LifecycleStatus.running.text])
  rw [wireEvent_lifecycle, Prod.mk.injEq] at hwire
  refine ⟨e, _, _, ⟨hwire.1, hns, ?_⟩, hid, hemit⟩
  rw [hwire.2, textField_lifecycleData]

/-- The first `started` of a namespace is pushed. -/
theorem emitNamespaceStarted_cases (data : Json) :
    ((ns = [] ∨ namespaceKey ns ∈ s.wireStartedEmitted) ∧ s.emitNamespaceStarted ns data = s) ∨
      (ns ≠ [] ∧ namespaceKey ns ∉ s.wireStartedEmitted ∧ ∃ name,
        s.emitNamespaceStarted ns data =
          { s with
            wireStartedEmitted := s.wireStartedEmitted ++ [namespaceKey ns]
            namespaces := s.namespaces.set (namespaceKey ns) ⟨ns, .started, name⟩ }.emit
              "lifecycle" ns data none none) := by
  unfold emitNamespaceStarted
  dsimp only
  split
  · next h => exact .inl ⟨h, rfl⟩
  · next h =>
    rw [not_or] at h
    exact .inr ⟨h.1, h.2, _, rfl⟩

/-- A request is pushed where its interrupt is not pending. -/
theorem requestInput_cases (r : InputRequest) :
    (s.isNewRequest r = false ∧ s.requestInput ns r = s) ∨
      (s.isNewRequest r = true ∧ ∃ e : ProtocolEvent, e.method = "input.requested" ∧ e.ns = ns ∧
        e.data = r.toJson ∧
        e.eventId = synthEventId s.env.runId ["input", namespaceKey ns, r.interruptId] ∧
        s.requestInput ns r =
          { s with
            pendingInterrupts := s.pendingInterrupts.set r.interruptId ns
            nextSeq := s.nextSeq + 1
            pushed := s.pushed ++ [e] }) := by
  unfold requestInput
  split
  · next h =>
    refine .inl ⟨?_, rfl⟩
    rcases h with h | h
    · simp [isNewRequest, h]
    · simp [isNewRequest, h]
  · next h =>
    rw [not_or] at h
    obtain ⟨e, hwire, hns, hid, hemit⟩ := emit_some
      { s with pendingInterrupts := s.pendingInterrupts.set r.interruptId ns } "input" ns r.toJson
      none (s.synthId ["input", namespaceKey ns, r.interruptId])
    rw [wireEvent_input, Prod.mk.injEq] at hwire
    exact .inr ⟨by simpa [isNewRequest] using h, e, hwire.1, hns, hwire.2, hid, hemit⟩

/-- What requests push is no lifecycle event, and the namespaces stay. -/
theorem requestInputs_eq (requests : List InputRequest) :
    ∃ pending nextSeq events, (∀ e ∈ events, e.method = "input.requested") ∧
      requests.foldl (fun s r => s.requestInput ns r) s =
        { s with
          pendingInterrupts := pending
          nextSeq := nextSeq
          pushed := s.pushed ++ events } := by
  induction requests generalizing s with
  | nil => exact ⟨s.pendingInterrupts, s.nextSeq, [], by simp, by simp⟩
  | cons r requests ih =>
    obtain ⟨pending, nextSeq, events, hevents, heq⟩ := ih (s.requestInput ns r)
    rw [List.foldl_cons, heq]
    rcases s.requestInput_cases ns r with ⟨-, hr⟩ | ⟨-, e, hmethod, -, -, -, hr⟩
    · exact ⟨pending, nextSeq, events, hevents, by rw [hr]⟩
    · refine ⟨pending, nextSeq, e :: events, List.forall_mem_cons.mpr ⟨hmethod, hevents⟩, ?_⟩
      rw [hr, List.append_assoc, List.singleton_append]

/-- A checkpoint is pushed once. -/
theorem emitCheckpointEnvelope_cases (envelope : Json) :
    s.emitCheckpointEnvelope ns envelope = s ∨
      ∃ cpId, textField envelope "id" = some cpId ∧
        (namespaceKey ns, cpId) ∉ s.emittedCheckpoints ∧
        s.emitCheckpointEnvelope ns envelope =
          { s with emittedCheckpoints := s.emittedCheckpoints ++ [(namespaceKey ns, cpId)] }.emit
            "checkpoints" ns envelope none
            (some (synthEventId s.env.runId ["checkpoint", namespaceKey ns, cpId])) := by
  unfold emitCheckpointEnvelope
  split
  · exact .inl rfl
  · next cpId hid =>
    dsimp only
    split
    · exact .inl rfl
    · next h => exact .inr ⟨cpId, hid, h, rfl⟩

end ProtocolSession

/-- The close of a session makes its events outside of any scope that it finds. -/
theorem ProtocolSession.scope_emitTerminalLifecycle (s : ProtocolSession) (run : Option RunStatus)
    (fetched : Option (List StateTask)) : (s.emitTerminalLifecycle run fetched).scope = s.scope := by
  unfold emitTerminalLifecycle
  split
  · rfl
  · cases run with
    | none => rfl
    | some run =>
      dsimp only
      split
      · rfl
      · rw [(sameScope_emitNamespaceLifecycle _ _ _ _ _ _).scope,
          (sameScope_completeStaleNamespaces _ _).scope]

theorem terminal_resolveEffectiveStatus {run : RunStatus} {fetched : Option (List StateTask)}
    (h : ProtocolSession.resolveEffectiveStatus run fetched ≠ .running) :
    (ProtocolSession.resolveEffectiveStatus run fetched).terminal = true := by
  unfold ProtocolSession.resolveEffectiveStatus at h ⊢
  cases run <;> cases hf : fetched.any hasInterrupts <;>
    simp_all [toLifecycleStatus, LifecycleStatus.terminal]

theorem resolveEffectiveStatus_ne_running {run : RunStatus}
    (h : (toLifecycleStatus run).terminal = true) (fetched : Option (List StateTask)) :
    ProtocolSession.resolveEffectiveStatus run fetched ≠ .running := by
  have hne : toLifecycleStatus run ≠ .running := fun heq => by
    rw [heq] at h
    cases h
  unfold ProtocolSession.resolveEffectiveStatus
  dsimp only
  split
  · exact hne
  · split
    · exact LifecycleStatus.noConfusion
    · exact hne

/-! ### The calls that handlers make -/

/-- A plain event is no lifecycle event, `started` says so, and the other statuses are handed
on for namespaces below the root. -/
def SessionCall.Handed : SessionCall → Prop
  | .push method _ _ _ => method ≠ "lifecycle"
  | .started _ data => textField data "event" = some "started"
  | .lifecycle ns status _ _ _ => ns ≠ [] ∧ status ≠ .started
  | _ => True

section

variable (ns : List String)

@[simp] theorem handed_register : (SessionCall.register ns).Handed := trivial

@[simp] theorem handed_requested (requests : List InputRequest) :
    (SessionCall.requested ns requests).Handed := trivial

@[simp] theorem handed_checkpoint (envelope : Json) : (SessionCall.checkpoint ns envelope).Handed :=
  trivial

@[simp] theorem handed_childCompleted (node : String) :
    (SessionCall.childCompleted ns node).Handed := trivial

theorem handed_push {method : String} {data : Json} {node : Option String} :
    (SessionCall.push method ns data node).Handed ↔ method ≠ "lifecycle" := Iff.rfl

end

theorem ne_started_of_announcedStatus {eventType : String} {status : LifecycleStatus}
    (h : announcedStatus eventType = some status) : status ≠ .started := by
  rintro rfl
  unfold announcedStatus at h
  split at h <;> cases h

theorem handed_handleLifecycleEvent (ns : List String) (data : Json) :
    ∀ c ∈ handleLifecycleEvent ns data, c.Handed := by
  unfold handleLifecycleEvent
  split
  · split <;> simp [SessionCall.Handed]
  · next eventType htype =>
    dsimp only
    split
    · simp
    · next hns =>
      split
      · next hstarted => simpa [SessionCall.Handed, hstarted] using htype
      · split
        · next status hstatus =>
          simpa [SessionCall.Handed, hns] using ne_started_of_announcedStatus hstatus
        · simp

theorem handed_emitToolOutputMessage (env : SessionEnv) (ns : List String) (data : Json) :
    ∀ c ∈ emitToolOutputMessage env ns data, c.Handed := by
  unfold emitToolOutputMessage
  dsimp only
  split
  · split
    · simp
    · intro c hc
      obtain ⟨eventData, -, rfl⟩ := List.mem_map.mp hc
      exact (by decide : "messages" ≠ "lifecycle")
  · simp

theorem handed_handleNormalizedEvent (env : SessionEnv) (methodFromName : String)
    (nsFromName : List String) (event : Json) :
    ∀ c ∈ handleNormalizedEvent env methodFromName nsFromName event, c.Handed := by
  unfold handleNormalizedEvent
  dsimp only
  split
  · simp [SessionCall.Handed]
  · split
    · exact handed_handleLifecycleEvent _ _
    · next hne =>
      split
      · simp [SessionCall.Handed]
      · have hrequests : ∀ (p : Prop) [Decidable p] (ns : List String) (params data : Json),
            ∀ c ∈ (if p then valuesRequests ns params data else []), c.Handed := by
          intro p _ ns params data
          split <;> simp [valuesRequests, SessionCall.Handed]
        have hmessages : ∀ (p : Prop) [Decidable p] (ns : List String) (data : Json),
            ∀ c ∈ (if p then emitToolOutputMessage env ns data else []), c.Handed := by
          intro p _ ns data
          split
          · exact handed_emitToolOutputMessage env ns data
          · simp
        simp only [List.forall_mem_append, List.forall_mem_cons, List.cons_append]
        refine ⟨trivial, ⟨⟨hrequests _ _ _ _, hne, by simp⟩, hmessages _ _ _⟩, ?_⟩
        split
        · intro c hc
          obtain ⟨node, -, rfl⟩ := List.mem_map.mp hc
          trivial
        · simp

theorem handed_dispatchSourceEvent (env : SessionEnv) (method : String) (ns : List String)
    (data : Json) : ∀ c ∈ (dispatchSourceEvent env method ns data).1, c.Handed := by
  unfold dispatchSourceEvent
  split
  · exact handed_handleNormalizedEvent env method ns data
  · split
    · exact handed_handleLifecycleEvent ns data
    · have hmessages := handed_emitToolOutputMessage env ns (takeNode data).2
      dsimp only
      split_ifs <;>
        simp only [List.forall_mem_append, List.forall_mem_cons, List.cons_append, handed_register,
          handed_requested, handed_checkpoint, handed_childCompleted, handed_push,
          List.forall_mem_map, true_and]
      all_goals simp
      exact hmessages

/-! ### Conditions on the calls of a run -/

/-- Every call meets a condition in the state in which it is made. -/
def CallsMeet (Ok : ProtocolSession → SessionCall → Prop) :
    ProtocolSession → List SessionCall → Prop
  | _, [] => True
  | s, c :: calls => Ok s c ∧ CallsMeet Ok (s.call c) calls

instance CallsMeet.instDecidable {Ok : ProtocolSession → SessionCall → Prop}
    [∀ s c, Decidable (Ok s c)] :
    ∀ (s : ProtocolSession) (calls : List SessionCall), Decidable (CallsMeet Ok s calls)
  | _, [] => .isTrue trivial
  | s, c :: calls =>
    @instDecidableAnd _ _ _ (CallsMeet.instDecidable (s.call c) calls)

/-- The calls of a source event. -/
def ProtocolSession.callsOf (s : ProtocolSession) (e : SourceEvent) : List SessionCall :=
  match e.message with
  | none => []
  | some data =>
    (dispatchSourceEvent s.env (parseEventName e.name).1 (parseEventName e.name).2 data).1

namespace ProtocolSession

variable {s : ProtocolSession} {Ok : ProtocolSession → SessionCall → Prop}
  {P : ProtocolSession → Prop}

theorem foldl_call (hstep : ∀ t c, c.Handed → P t → Ok t c → P (t.call c))
    {calls : List SessionCall} (hcalls : ∀ c ∈ calls, c.Handed) (hok : CallsMeet Ok s calls)
    (h : P s) : P (calls.foldl call s) := by
  induction calls generalizing s with
  | nil => exact h
  | cons c calls ih =>
    obtain ⟨hc, hrest⟩ := List.forall_mem_cons.mp hcalls
    exact ih hrest hok.2 (hstep s c hc h hok.1)

/-- What a source event does: nothing, an error at the root, or calls in its scope. -/
theorem handleSourceEvent_cases (e : SourceEvent) :
    (s.handleSourceEvent e).1 = s ∨
      (e.name = "error" ∧ (s.handleSourceEvent e).1 =
        { s with terminalLifecycleEmitted := true }.emitNamespaceLifecycle [] .failed
          s.rootGraphName (e.errorMessage s.env) none) ∨
      (e.name ≠ "metadata" ∧ e.name ≠ "error" ∧ (s.handleSourceEvent e).1 =
        ((s.callsOf e).foldl call (s.openScope e.streamId)).closeScope) := by
  unfold handleSourceEvent callsOf
  split
  · exact .inl rfl
  · next hmeta =>
    split
    · next herror => exact .inr (.inl ⟨herror, rfl⟩)
    · next herror =>
      split
      · exact .inl rfl
      · next data hdata => exact .inr (.inr ⟨hmeta, herror, rfl⟩)

theorem handed_callsOf (s : ProtocolSession) (e : SourceEvent) :
    ∀ c ∈ s.callsOf e, c.Handed := by
  unfold callsOf
  split
  · simp
  · exact handed_dispatchSourceEvent _ _ _ _

end ProtocolSession

end NextRole
