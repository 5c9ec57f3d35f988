import NextRole.Api.EventStreaming
import NextRole.Api.Runs
import NextRole.Conversion.Config

/-!
# The configuration with which a run is created

`create_valid_run` of `api/models/run.py` on the dictionary of a payload: what it reads of it,
and the configuration that it puts together from the payload, the headers and the caller.

## Main definitions

* `User`, `AuthContext`, `RequestContext` — what surrounds a request.
* `givenConfig`, `createConfigurable` — the configuration of the payload, and the configurable
  that is sent.
* `createCall` — the call for a payload; `none` is a request that fails before the query.

## Main results

* `createCall_config` — the configuration that the query gets.
* `lookup_createConfigurable_user` — the caller's keys are set after those of the payload.
-/

namespace NextRole

/-! ### What surrounds a request -/

/-- A user, as `authenticate` of `agents/auth.py` returns it. -/
structure User where
  identity : String
  displayName : Option String := none
  email : Option String := none
  deriving Repr, DecidableEq

/-- `ProxyUser.dict`: the fields of the user over the defaults. -/
def User.toJson (user : User) : Json :=
  .obj (Json.merge
    [("identity", .str user.identity), ("is_authenticated", .bool true),
      ("display_name", .str (user.displayName.getD user.identity))]
    ([("identity", .str user.identity)] ++ field "display_name" (user.displayName.map .str) ++
      field "email" (user.email.map .str)))

/-- The context that `get_auth_ctx` gives; without a user it is an `UnauthenticatedUser`. -/
structure AuthContext where
  user : Option User
  permissions : List String := []

/-- The keys that the context sets. -/
def AuthContext.fields (ctx : AuthContext) : List (String × Json) := [
  ("langgraph_auth_user", orNull (ctx.user.map User.toJson)),
  ("langgraph_auth_user_id", .str ((ctx.user.map User.identity).getD "")),
  ("langgraph_auth_permissions", .arr (ctx.permissions.map .str))]

/-- What `create_valid_run` finds next to the payload. -/
structure RequestContext where
  auth : Option AuthContext := none
  /-- `get_configurable_headers`. -/
  headers : List (String × Json) := []
  traceparent : Option String := none
  tracestate : Option String := none
  ddTraceHeaders : Option Json := none
  requestId : Option String := none
  requestStartTime : Option Json := none
  env : CreateEnv

/-- The caller of a request. -/
def RequestContext.caller (context : RequestContext) : Caller :=
  (context.auth.bind AuthContext.user).map User.identity

/-- `inject_current_trace_context` and `inject_current_dd_trace_context`. -/
def RequestContext.traceFields (context : RequestContext) : List (String × Json) :=
  field "__otel_traceparent__" (context.traceparent.map .str) ++
  field "__otel_tracestate__" (context.tracestate.map .str) ++
  field "__dd_trace_headers__" context.ddTraceHeaders

/-- What the call relies on: `get_assistant_id` with the check of its result, the uuids that
`UUID` accepts, and the check of a webhook. -/
structure RunHost where
  assistantUuid : Json → Option Uuid
  parseUuid : String → Option Uuid
  webhookAllowed : Json → Bool

/-! ### The configuration -/

/-- The configuration, its configurable and the context of a payload. -/
structure GivenConfig where
  config : List (String × Json)
  configurable : List (String × Json)
  context : List (String × Json)

/-- The configuration and the context of a payload: where one of them or the configurable is no
dictionary, the call raises. -/
def givenConfig (payload : List (String × Json)) : Option GivenConfig := do
  let config ← asDict (orEmpty (payload.lookup "config"))
  let configurable ← asDict ((config.lookup "configurable").getD (.obj []))
  let context ← asDict (orEmpty (payload.lookup "context"))
  some ⟨config, configurable, context⟩

/-- The configurable and the context are kept in sync: the one that is given is both. -/
def GivenConfig.both (given : GivenConfig) : List (String × Json) :=
  if given.context.isEmpty then given.configurable else given.context

/-- An element of an argument of `dict.update` that is no dictionary. -/
def updatePair (v : Json) : Option (String × Json) :=
  match iterate v with
  | some [.str key, value] => some (key, value)
  | _ => none

/-- The entries of an argument of `dict.update`, of which the last one for a key counts. -/
def updateEntries : Json → Option (List (String × Json))
  | .obj kvs => some kvs
  | v => ((iterate v).bind fun items => items.mapM updatePair).map List.reverse

/-- The keys that a tracer sets. -/
def tracerFields (tracer : List (String × Json)) : List (String × Json) := [
  ("__langsmith_project__", orNull (tracer.lookup "project_name")),
  ("__langsmith_example_id__", orNull (tracer.lookup "example_id"))]

/-- The given configurable under the checkpoint, the headers, the traces and the caller. -/
def callerConfigurable (context : RequestContext) (given : GivenConfig) (checkpointId : Option Uuid)
    (checkpoint : List (String × Json)) : List (String × Json) :=
  let configurable := Json.merge given.both
    (field "checkpoint_id" (checkpointId.map fun id => .str id.text))
  let configurable := Json.merge configurable checkpoint
  let configurable := Json.merge configurable context.headers
  let configurable := Json.merge configurable context.traceFields
  Json.merge configurable ((context.auth.map AuthContext.fields).getD [])

/-- The keys of the server that are set last. -/
def withServerKeys (context : RequestContext) (payload tracer configurable : List (String × Json)) :
    List (String × Json) :=
  let configurable :=
    if truthy (configurable.lookup "langgraph_request_id") then configurable
    else Json.merge configurable [("langgraph_request_id", orNull (context.requestId.map .str))]
  let configurable := Json.merge configurable tracer
  let configurable := Json.merge configurable
    (field "__request_start_time_ms__" (truthyValue context.requestStartTime))
  Json.merge configurable [("__after_seconds__", (payload.lookup "after_seconds").getD (.num 0))]

/-- The configurable that is sent. -/
def createConfigurable (context : RequestContext) (payload : List (String × Json))
    (given : GivenConfig) (checkpointId : Option Uuid) : Option (List (String × Json)) := do
  let checkpoint ← convertedList updateEntries (truthyValue (payload.lookup "checkpoint"))
  let tracer ← convertedList (fun v => (asDict v).map tracerFields)
    (truthyValue (payload.lookup "langsmith_tracer"))
  some (withServerKeys context payload tracer
    (callerConfigurable context given checkpointId checkpoint))

/-! ### The call -/

/-- The strategy of a name. -/
def multitaskStrategyOf : Json → Option MultitaskStrategy
  | .str "reject" => some .reject
  | .str "interrupt" => some .interrupt
  | .str "rollback" => some .rollback
  | .str "enqueue" => some .enqueue
  | _ => none

/-- `stream_mode` as a list of names. -/
def streamModesGiven (payload : List (String × Json)) : Option (List String) :=
  match truthyValue (payload.lookup "stream_mode") with
  | none => some ["values"]
  | some (.arr modes) => modes.mapM asStr
  | some mode => (asStr mode).map fun mode => [mode]

/-- The command, which is read of a request without a thread alone. -/
def commandGiven (stateless : Bool) (payload : List (String × Json)) :
    Option (List (String × Json)) :=
  if stateless then convertedList asDict (truthyValue (payload.lookup "command")) else some []

/-- The durability of a payload. -/
def durabilityGiven (payload : List (String × Json)) : Json :=
  match nonNull (payload.lookup "durability") with
  | some durability => durability
  | none =>
    match nonNull (payload.lookup "checkpoint_during") with
    | none | some (.bool true) => .str "async"
    | some _ => .str "exit"

/-- The arguments of the run; `Runs.put` is given them with `temporary`. -/
def runKwargs (payload : List (String × Json)) (given : GivenConfig) (streamMode : List String)
    (configurable : List (String × Json)) : List (String × Json) := [
  ("input", orNull (payload.lookup "input")),
  ("command", orNull (payload.lookup "command")),
  ("config", .obj (Json.merge given.config [("configurable", .obj configurable)])),
  ("context", .obj given.both),
  ("stream_mode", .arr (streamMode.map .str)),
  ("interrupt_before", orNull (payload.lookup "interrupt_before")),
  ("interrupt_after", orNull (payload.lookup "interrupt_after")),
  ("webhook", orNull (payload.lookup "webhook")),
  ("feedback_keys", orNull (payload.lookup "feedback_keys")),
  ("subgraphs", (payload.lookup "stream_subgraphs").getD (.bool false)),
  ("resumable", (payload.lookup "stream_resumable").getD (.bool false)),
  ("checkpoint_during", (payload.lookup "checkpoint_during").getD (.bool true)),
  ("durability", durabilityGiven payload)]

/-- `create_valid_run` up to the checks of `validatePayload`: the call that a payload makes. -/
def createCall (host : RunHost) (context : RequestContext) (threadId : Option Uuid)
    (temporary : Bool) (payload : List (String × Json)) : Option CreateCall := do
  let assistantId ← (payload.lookup "assistant_id").bind host.assistantUuid
  let checkpointId ← converted (fun v => (asStr v).bind host.parseUuid)
    (truthyValue (payload.lookup "checkpoint_id"))
  let command ← commandGiven (threadId.isNone || temporary) payload
  let given ← givenConfig payload
  let streamMode ← streamModesGiven payload
  let strategy ← converted multitaskStrategyOf (truthyValue (payload.lookup "multitask_strategy"))
  let metadata ← converted asDict (truthyValue (payload.lookup "metadata"))
  let afterSeconds ← asInt32 ((payload.lookup "after_seconds").getD (.num 0))
  guard ((truthyValue (payload.lookup "webhook")).all host.webhookAllowed = true)
  let configurable ← createConfigurable context payload given checkpointId
  some {
    caller := context.caller
    threadId := threadId
    temporary := temporary
    env := context.env
    payload := {
      assistantId := assistantId
      metadata := metadata
      kwargs := runKwargs payload given streamMode configurable
      multitaskStrategy := strategy
      onCompletion :=
        if (payload.lookup "on_completion").getD (.str "delete") = .str "delete" then some .delete
        else some .keep
      afterSeconds := afterSeconds
      createIfNotExists := payload.lookup "if_not_exists" = some (.str "create")
      resume := truthy (command.lookup "resume")
      configurable := given.configurable
      context := given.context
      streamMode := streamMode } }

/-! ### What the query gets -/

theorem createCall_eq_some {host : RunHost} {context : RequestContext} {threadId : Option Uuid}
    {temporary : Bool} {payload : List (String × Json)} {call : CreateCall}
    (h : createCall host context threadId temporary payload = some call) :
    ∃ given checkpointId streamMode configurable, givenConfig payload = some given ∧
      createConfigurable context payload given checkpointId = some configurable ∧
      call.payload.kwargs = runKwargs payload given streamMode configurable ∧
      call.caller = context.caller ∧ call.threadId = threadId ∧ call.env = context.env := by
  simp only [createCall, Option.bind_eq_bind, Option.bind_eq_some_iff, Option.some.injEq] at h
  obtain ⟨assistantId, -, checkpointId, -, command, -, given, hgiven, streamMode, -, strategy, -,
    metadata, -, afterSeconds, -, _, -, configurable, hconf, rfl⟩ := h
  exact ⟨given, checkpointId, streamMode, configurable, hgiven, hconf, rfl, rfl, rfl, rfl⟩

/-- The configuration that the query gets. -/
theorem createCall_config {host : RunHost} {context : RequestContext} {threadId : Option Uuid}
    {temporary : Bool} {payload : List (String × Json)} {call : CreateCall}
    (h : createCall host context threadId temporary payload = some call) :
    ∃ given checkpointId configurable, givenConfig payload = some given ∧
      createConfigurable context payload given checkpointId = some configurable ∧
      call.params.config = .obj (Json.merge given.config [("configurable", .obj configurable)]) := by
  obtain ⟨given, checkpointId, streamMode, configurable, hgiven, hconf, hkwargs, -⟩ :=
    createCall_eq_some h
  refine ⟨given, checkpointId, configurable, hgiven, hconf, ?_⟩
  have hconfig : (createRequest call).kwargs.get? "config" =
      some (.obj (Json.merge given.config [("configurable", .obj configurable)])) := by
    rw [createRequest, Json.get?_set_of_ne _ _ (by decide), hkwargs]
    rfl
  rw [CreateCall.params, createParams, hconfig]
  cases hempty : Json.merge given.config [("configurable", Json.obj configurable)] with
  | nil => simp [Json.merge] at hempty
  | cons kv l => rfl

/-- The keys that `withServerKeys` sets. -/
def serverKeys : List String :=
  ["langgraph_request_id", "__langsmith_project__", "__langsmith_example_id__",
    "__request_start_time_ms__", "__after_seconds__"]

theorem lookup_withServerKeys {context : RequestContext}
    {payload tracer configurable : List (String × Json)} {k : String} (hk : k ∉ serverKeys)
    (htracer : tracer.lookup k = none) :
    (withServerKeys context payload tracer configurable).lookup k = configurable.lookup k := by
  simp only [serverKeys, List.mem_cons, List.not_mem_nil, or_false, not_or] at hk
  obtain ⟨hrequest, -, -, hstart, hafter⟩ := hk
  have hne : ∀ k', k ≠ k' → (k == k') = false := fun k' h => by simpa using h
  unfold withServerKeys
  split <;> simp [Json.lookup_merge, htracer, List.lookup_cons, hne _ hrequest, hne _ hafter, hstart]

theorem lookup_tracer {v : Option Json} {tracer : List (String × Json)} {k : String}
    (h : convertedList (fun v => (asDict v).map tracerFields) v = some tracer)
    (hk : k ∉ serverKeys) : tracer.lookup k = none := by
  simp only [serverKeys, List.mem_cons, List.not_mem_nil, or_false, not_or] at hk
  obtain ⟨-, hproject, hexample, -, -⟩ := hk
  obtain ⟨fields, hfields, rfl⟩ := Option.map_eq_some_iff.mp h
  rcases converted_eq_some.mp hfields with ⟨-, rfl⟩ | ⟨x, a, -, ha, rfl⟩
  · rfl
  · obtain ⟨t, -, rfl⟩ := Option.map_eq_some_iff.mp ha
    have hne : ∀ k', k ≠ k' → (k == k') = false := fun k' h => by simpa using h
    simp [tracerFields, List.lookup_cons, hne _ hproject, hne _ hexample]

/-- A key that the server does not set last. -/
theorem lookup_createConfigurable {context : RequestContext} {payload : List (String × Json)}
    {given : GivenConfig} {checkpointId : Option Uuid} {configurable : List (String × Json)}
    (h : createConfigurable context payload given checkpointId = some configurable) :
    ∃ checkpoint,
      convertedList updateEntries (truthyValue (payload.lookup "checkpoint")) = some checkpoint ∧
        ∀ k, k ∉ serverKeys → configurable.lookup k =
          (callerConfigurable context given checkpointId checkpoint).lookup k := by
  simp only [createConfigurable, Option.bind_eq_bind, Option.bind_eq_some_iff,
    Option.some.injEq] at h
  obtain ⟨checkpoint, hcheckpoint, tracer, htracer, rfl⟩ := h
  exact ⟨checkpoint, hcheckpoint, fun k hk =>
    lookup_withServerKeys hk (lookup_tracer htracer hk)⟩

theorem lookup_createConfigurable_user {context : RequestContext} {payload : List (String × Json)}
    {given : GivenConfig} {checkpointId : Option Uuid} {configurable : List (String × Json)}
    {ctx : AuthContext} (hctx : context.auth = some ctx)
    (h : createConfigurable context payload given checkpointId = some configurable) :
    configurable.lookup "langgraph_auth_user" = some (orNull (ctx.user.map User.toJson)) ∧
      configurable.lookup "langgraph_auth_user_id" =
        some (.str ((ctx.user.map User.identity).getD "")) := by
  obtain ⟨checkpoint, -, hlookup⟩ := lookup_createConfigurable h
  constructor <;>
    (rw [hlookup _ (by decide), callerConfigurable, Json.lookup_merge, hctx]; rfl)

/-! ### A small host -/

/-- A host that knows the graph `agent`. -/
def agentHost : RunHost where
  assistantUuid v := if v = .str "agent" then some 1 else none
  parseUuid _ := none
  webhookAllowed _ := true

/-- The user alice. -/
def alice : User := { identity := "alice", email := some "alice@example.org" }

/-- A request of alice for a run with an id. -/
def requestOfAlice (runId : Uuid) : RequestContext where
  auth := some { user := some alice }
  env := ⟨0, runId, 10⟩

/-- The payload of a run with a configuration. -/
def payloadWith (config : List (String × Json)) : List (String × Json) :=
  [("assistant_id", .str "agent"), ("config", .obj config)]

end NextRole
