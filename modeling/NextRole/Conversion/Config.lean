import Mathlib.Control.Basic
import Mathlib.Data.Option.Basic
import NextRole.Python

/-!
# The configuration of a run on the wire

`config_to_proto` and `config_from_proto` of `grpc_common/conversion/config.py`: a dictionary
is split over the typed fields and the maps of an `EngineRunnableConfig`, and put together
again.  What the maps carry is serialized and read back as it was.

## Main definitions

* `EngineRunnableConfig` — the message.
* `injectConfigurable`, `configToProto` — the encoder; `none` is an exception.
* `configurableFromProto`, `configFromProto` — the decoder.
* `kwargsConfig` — the configuration that a worker reads of the arguments of a row.

## Main results

* `lookup_configurableFromProto`, `lookup_configFromProto` — what is decoded under each key.
* `configToProto_eq_some` — what is encoded in each field.
-/

namespace NextRole

/-! ### The message -/

/-- How often a graph saves its checkpoints. -/
inductive Durability
  | async | sync | exit
  deriving Repr, DecidableEq

/-- The text of a durability. -/
def Durability.name : Durability → String
  | async => "async"
  | sync => "sync"
  | exit => "exit"

/-- `durability_to_proto`. -/
def durabilityToProto : Json → Option Durability
  | .str "async" => some .async
  | .str "sync" => some .sync
  | .str "exit" => some .exit
  | _ => none

/-- The names of the enumeration `StreamMode`. -/
def streamModeNames : List String :=
  ["unknown", "values", "updates", "checkpoints", "tasks", "debug", "messages", "custom", "events",
    "messages_tuple", "tools", "lifecycle"]

/-- An `EngineRunnableConfig`; the field `runtime` is left out: no JSON value has the
attribute `context` that the encoder reads. -/
structure EngineRunnableConfig where
  tags : List String := []
  metadataJson : List (String × Json) := []
  runName : Option String := none
  maxConcurrency : Option Int := none
  recursionLimit : Option Int := none
  runId : Option String := none
  extraConfigurableJson : List (String × Json) := []
  extraJson : List (String × Json) := []
  resuming : Option Bool := none
  taskId : Option String := none
  threadId : Option String := none
  checkpointMap : List (String × String) := []
  checkpointId : Option String := none
  checkpointNs : Option String := none
  durability : Option Durability := none
  resumeMap : List (String × Json) := []
  graphId : Option String := none
  rootStreamModes : List String := []
  runAttempt : Option Int := none
  serverRunId : Option String := none
  tracingProject : Option String := none
  tracingExampleId : Option String := none
  deriving DecidableEq

/-! ### The encoder -/

/-- `KNOWN_CONFIG_KEYS`. -/
def knownConfigKeys : List String :=
  ["metadata", "run_name", "run_id", "max_concurrency", "recursion_limit", "tags", "configurable",
    "callbacks"]

/-- `RESTRICTED_RESERVED_CONFIGURABLE_KEYS`. -/
def restrictedReservedConfigurableKeys : List String :=
  ["__pregel_send", "__pregel_read", "__pregel_scratchpad", "__pregel_call",
    "__pregel_checkpointer", "__pregel_stream", "__pregel_cache", "__pregel_runner_submit",
    "__pregel_root_stream_modes"]

/-- The keys of a configurable that the engine sets and that have a field of their own. -/
def engineConfigurableKeys : List String :=
  ["__pregel_resuming", "__pregel_task_id", "__pregel_resume_map", "__pregel_runtime",
    "__pregel_durability"]

/-- The other keys of a configurable that have a field of their own. -/
def typedConfigurableKeys : List String :=
  ["thread_id", "checkpoint_map", "checkpoint_id", "checkpoint_ns", "__langsmith_project__",
    "__langsmith_example_id__"]

/-- The keys of a configurable that the map does not carry. -/
def ownConfigurableKeys : List String :=
  engineConfigurableKeys ++ typedConfigurableKeys ++ restrictedReservedConfigurableKeys

/-- The two halves of an element of `for key, value in v`, which are texts. -/
def textPair (v : Json) : Option (String × String) :=
  match iterate v with
  | some [.str key, .str value] => some (key, value)
  | _ => none

/-- Of several values for a key the last one counts. -/
def lastPairs : List (String × String) → List (String × String)
  | [] => []
  | pair :: pairs =>
    if pairs.any fun p => p.1 = pair.1 then lastPairs pairs else pair :: lastPairs pairs

/-- `checkpoint_map.update(value)`. -/
def checkpointMapOf : Json → Option (List (String × String))
  | .obj kvs => kvs.mapM fun kv => (asStr kv.2).map (kv.1, ·)
  | v => do
    let items ← iterate v
    let pairs ← items.mapM textPair
    some (lastPairs pairs)

/-- `StreamMode.Value(mode) for mode in value`. -/
def streamModesOf (v : Json) : Option (List String) := do
  let items ← iterate v
  items.mapM fun item => (asStr item).filter fun mode => mode ∈ streamModeNames

/-- `_inject_configurable_into_proto`.  A dictionary has each key once, so that what the loop
assigns to a field is what the key of the field holds. -/
def injectConfigurable (str : Str) (configurable : List (String × Json))
    (proto : EngineRunnableConfig) : Option EngineRunnableConfig := do
  let value := fun key => nonNull (configurable.lookup key)
  let checkpointMap ← convertedList checkpointMapOf (value "checkpoint_map")
  let resumeMap ← convertedList asDict (value "__pregel_resume_map")
  let durability ← converted durabilityToProto (value "__pregel_durability")
  let rootStreamModes ← convertedList streamModesOf (value "__pregel_root_stream_modes")
  -- `runtime_to_proto` reads an attribute that no JSON value has
  guard (value "__pregel_runtime" = none)
  some { proto with
    resuming := (value "__pregel_resuming").map fun v => truthy (some v)
    taskId := (value "__pregel_task_id").map str.text
    threadId := (value "thread_id").map str.text
    checkpointMap := checkpointMap
    checkpointId := (value "checkpoint_id").map str.text
    checkpointNs := (value "checkpoint_ns").map str.text
    resumeMap := resumeMap
    durability := durability
    rootStreamModes := rootStreamModes
    tracingProject := (value "__langsmith_project__").map str.text
    tracingExampleId := (value "__langsmith_example_id__").map str.text
    extraConfigurableJson := configurable.filter fun kv => kv.1 ∉ ownConfigurableKeys }

/-- The run id of the tracer: the one of the configuration, or else that of its configurable. -/
def tracingRunId (str : Str) (config : List (String × Json)) : Option (Option String) :=
  match truthyValue (config.lookup "run_id") with
  | some v => some (some (str.text v))
  | none =>
    match config.lookup "configurable" with
    | none => some none
    | some configurable => (asDict configurable).map fun kvs =>
        (truthyValue (kvs.lookup "run_id")).map str.text

/-- `config_to_proto`: an empty configuration has no message. -/
def configToProto (str : Str) (config : List (String × Json)) :
    Option (Option EngineRunnableConfig) :=
  if config = [] then some none
  else do
    let metadata ← itemsOr (config.lookup "metadata")
    let runAttempt ← converted asInt32 (metadata.lookup "run_attempt")
    let runName ← converted asStr (truthyValue (config.lookup "run_name"))
    let runId ← tracingRunId str config
    let maxConcurrency ← converted asInt32 (truthyValue (config.lookup "max_concurrency"))
    let recursionLimit ← converted asInt32 (truthyValue (config.lookup "recursion_limit"))
    let tags ← convertedList (fun v => (iterate v).bind fun xs => xs.mapM asStr)
      (truthyValue (config.lookup "tags"))
    let configurable ← itemsOr (config.lookup "configurable")
    let proto ← injectConfigurable str configurable {
      metadataJson := metadata.filter fun kv => kv.1 ∉ ["run_attempt", "run_id"]
      runAttempt := runAttempt
      serverRunId := (metadata.lookup "run_id").map str.text
      runName := runName
      runId := runId
      maxConcurrency := maxConcurrency
      recursionLimit := recursionLimit
      tags := tags
      extraJson := config.filter fun kv => kv.1 ∉ knownConfigKeys }
    some (some proto)

/-! ### The decoder -/

/-- The field of a dictionary that is set to a value, if there is one. -/
def field (key : String) (value : Option Json) : List (String × Json) := (value.map (key, ·)).toList

/-- A dictionary that is left out when it is empty. -/
def nonEmptyDict (kvs : List (String × Json)) : Option Json :=
  if kvs.isEmpty then none else some (.obj kvs)

/-- The value of a list that is left out when it is empty. -/
def nonEmptyList {α : Type} (f : List α → Json) (xs : List α) : Option Json :=
  if xs.isEmpty then none else some (f xs)

/-- The fields of a configurable that the decoder sets before those of the map.  The stream of
the root's modes is an object of the engine and no JSON value. -/
def typedFromProto (proto : EngineRunnableConfig) : List (String × Json) :=
  field "__pregel_resuming" (proto.resuming.map .bool) ++
  field "__pregel_task_id" (proto.taskId.map .str) ++
  field "thread_id" (proto.threadId.map .str) ++
  field "checkpoint_id" ((proto.checkpointId.filter (· ≠ "")).map .str) ++
  field "checkpoint_ns" (proto.checkpointNs.map .str) ++
  field "__pregel_durability" (proto.durability.map fun durability => .str durability.name) ++
  field "graph_id" (proto.graphId.map .str) ++
  field "__pregel_root_stream_modes"
    (nonEmptyList (fun modes => .arr (modes.map .str)) proto.rootStreamModes) ++
  field "checkpoint_map"
    (nonEmptyList (fun l => .obj (l.map fun e => (e.1, .str e.2))) proto.checkpointMap) ++
  field "__pregel_resume_map" (nonEmptyList .obj proto.resumeMap)

/-- The fields of a configurable that the decoder sets after those of the map. -/
def tracingFromProto (proto : EngineRunnableConfig) : List (String × Json) :=
  field "run_id" ((proto.runId.filter (· ≠ "")).map .str) ++
  field "__langsmith_project__" ((proto.tracingProject.filter (· ≠ "")).map .str) ++
  field "__langsmith_example_id__" ((proto.tracingExampleId.filter (· ≠ "")).map .str)

/-- `_configurable_from_proto`. -/
def configurableFromProto (proto : EngineRunnableConfig) : List (String × Json) :=
  Json.merge (Json.merge (typedFromProto proto) proto.extraConfigurableJson)
    (tracingFromProto proto)

/-- The metadata that `config_from_proto` puts together. -/
def metadataFromProto (proto : EngineRunnableConfig) : List (String × Json) :=
  Json.merge proto.metadataJson
    (field "run_attempt" (proto.runAttempt.map intJson) ++
      field "run_id" (proto.serverRunId.map .str))

/-- The fields that `config_from_proto` sets before the extra ones. -/
def configFieldsFromProto (proto : EngineRunnableConfig) : List (String × Json) :=
  field "configurable" (nonEmptyDict (configurableFromProto proto)) ++
  field "tags" (nonEmptyList (fun tags => .arr (tags.map .str)) proto.tags) ++
  field "metadata" (nonEmptyDict (metadataFromProto proto)) ++
  field "run_name" (proto.runName.map .str) ++
  field "max_concurrency" (proto.maxConcurrency.map intJson) ++
  field "recursion_limit" (proto.recursionLimit.map intJson)

/-- `config_from_proto`. -/
def configFromProto : Option EngineRunnableConfig → List (String × Json)
  | none => []
  | some proto => Json.merge (configFieldsFromProto proto) proto.extraJson

/-! ### What is encoded and decoded -/

@[simp] theorem lookup_field (key k : String) (value : Option Json) :
    (field key value).lookup k = if k = key then value else none := by
  cases value with
  | none => simp [field]
  | some v =>
    by_cases h : k = key
    · simp [field, h]
    · have hne : (k == key) = false := by simpa using h
      simp [field, List.lookup_cons, hne, h]

theorem lookup_configurableFromProto (proto : EngineRunnableConfig) (k : String) :
    (configurableFromProto proto).lookup k = ((tracingFromProto proto).lookup k).or
      ((proto.extraConfigurableJson.lookup k).or ((typedFromProto proto).lookup k)) := by
  rw [configurableFromProto, Json.lookup_merge, Json.lookup_merge]

/-- The fields of a message for a configurable. -/
structure Injected (str : Str) (configurable : List (String × Json))
    (proto : EngineRunnableConfig) : Prop where
  resuming : proto.resuming =
    (nonNull (configurable.lookup "__pregel_resuming")).map fun v => truthy (some v)
  taskId : proto.taskId = (nonNull (configurable.lookup "__pregel_task_id")).map str.text
  threadId : proto.threadId = (nonNull (configurable.lookup "thread_id")).map str.text
  checkpointMap : convertedList checkpointMapOf (nonNull (configurable.lookup "checkpoint_map")) =
    some proto.checkpointMap
  checkpointId : proto.checkpointId =
    (nonNull (configurable.lookup "checkpoint_id")).map str.text
  checkpointNs : proto.checkpointNs =
    (nonNull (configurable.lookup "checkpoint_ns")).map str.text
  resumeMap : convertedList asDict (nonNull (configurable.lookup "__pregel_resume_map")) =
    some proto.resumeMap
  durability : converted durabilityToProto (nonNull (configurable.lookup "__pregel_durability")) =
    some proto.durability
  rootStreamModes :
    convertedList streamModesOf (nonNull (configurable.lookup "__pregel_root_stream_modes")) =
      some proto.rootStreamModes
  runtime : nonNull (configurable.lookup "__pregel_runtime") = none
  tracingProject : proto.tracingProject =
    (nonNull (configurable.lookup "__langsmith_project__")).map str.text
  tracingExampleId : proto.tracingExampleId =
    (nonNull (configurable.lookup "__langsmith_example_id__")).map str.text
  extraConfigurableJson : proto.extraConfigurableJson =
    configurable.filter fun kv => kv.1 ∉ ownConfigurableKeys

/-- The fields of a message for a configuration that is not empty. -/
structure Encodes (str : Str) (config : List (String × Json)) (proto : EngineRunnableConfig) :
    Prop where
  metadata : itemsOr (config.lookup "metadata") = some (fieldsOf (config.lookup "metadata"))
  metadataJson : proto.metadataJson =
    (fieldsOf (config.lookup "metadata")).filter fun kv => kv.1 ∉ ["run_attempt", "run_id"]
  runAttempt : converted asInt32 ((fieldsOf (config.lookup "metadata")).lookup "run_attempt") =
    some proto.runAttempt
  serverRunId : proto.serverRunId =
    ((fieldsOf (config.lookup "metadata")).lookup "run_id").map str.text
  runName : converted asStr (truthyValue (config.lookup "run_name")) = some proto.runName
  runId : tracingRunId str config = some proto.runId
  maxConcurrency : converted asInt32 (truthyValue (config.lookup "max_concurrency")) =
    some proto.maxConcurrency
  recursionLimit : converted asInt32 (truthyValue (config.lookup "recursion_limit")) =
    some proto.recursionLimit
  tags : convertedList (fun v => (iterate v).bind fun xs => xs.mapM asStr)
    (truthyValue (config.lookup "tags")) = some proto.tags
  extraJson : proto.extraJson = config.filter fun kv => kv.1 ∉ knownConfigKeys
  configurable : itemsOr (config.lookup "configurable") =
    some (fieldsOf (config.lookup "configurable"))
  injected : Injected str (fieldsOf (config.lookup "configurable")) proto
  graphId : proto.graphId = none

/-- The fields that the injection of a configurable leaves as they are. -/
def EngineRunnableConfig.withoutConfigurable (proto : EngineRunnableConfig) :
    EngineRunnableConfig :=
  { tags := proto.tags
    metadataJson := proto.metadataJson
    runName := proto.runName
    maxConcurrency := proto.maxConcurrency
    recursionLimit := proto.recursionLimit
    runId := proto.runId
    extraJson := proto.extraJson
    graphId := proto.graphId
    runAttempt := proto.runAttempt
    serverRunId := proto.serverRunId }

theorem injectConfigurable_eq_some {str : Str} {configurable : List (String × Json)}
    {proto proto' : EngineRunnableConfig} :
    injectConfigurable str configurable proto = some proto' ↔
      Injected str configurable proto' ∧
        proto'.withoutConfigurable = proto.withoutConfigurable := by
  constructor
  · intro h
    simp only [injectConfigurable, Option.bind_eq_bind, Option.bind_eq_some_iff,
      Option.some.injEq] at h
    obtain ⟨checkpointMap, hmap, resumeMap, hresume, durability, hdur, modes, hmodes, _, hguard,
      rfl⟩ := h
    have hruntime := (Option.guard_eq_some' _).mp hguard
    exact ⟨⟨rfl, rfl, rfl, hmap, rfl, rfl, hresume, hdur, hmodes, hruntime, rfl, rfl, rfl⟩, rfl⟩
  · rintro ⟨h, hrest⟩
    simp only [injectConfigurable, Option.bind_eq_bind, Option.bind_eq_some_iff, Option.some.injEq]
    refine ⟨_, h.checkpointMap, _, h.resumeMap, _, h.durability, _, h.rootStreamModes, (),
      (Option.guard_eq_some' _).mpr h.runtime, ?_⟩
    rw [← h.resuming, ← h.taskId, ← h.threadId, ← h.checkpointId, ← h.checkpointNs,
      ← h.tracingProject, ← h.tracingExampleId, ← h.extraConfigurableJson]
    cases proto
    cases proto'
    cases hrest
    rfl

/-- What is encoded in each field. -/
theorem configToProto_eq_some {str : Str} {config : List (String × Json)}
    {proto : EngineRunnableConfig} :
    configToProto str config = some (some proto) ↔ config ≠ [] ∧ Encodes str config proto := by
  constructor
  · intro h
    unfold configToProto at h
    split at h
    · cases h
    next hne =>
    simp only [Option.bind_eq_bind, Option.bind_eq_some_iff, Option.some.injEq] at h
    obtain ⟨metadata, hmetadata, runAttempt, hattempt, runName, hname, runId, hid, maxConcurrency,
      hmax, recursionLimit, hlimit, tags, htags, configurable, hconf, p, hinject, rfl⟩ := h
    obtain rfl := fieldsOf_of_itemsOr hmetadata
    obtain rfl := fieldsOf_of_itemsOr hconf
    obtain ⟨hinjected, hrest⟩ := injectConfigurable_eq_some.mp hinject
    cases p
    cases hrest
    exact ⟨hne, hmetadata, rfl, hattempt, rfl, hname, hid, hmax, hlimit, htags, rfl, hconf,
      hinjected, rfl⟩
  · rintro ⟨hne, h⟩
    unfold configToProto
    rw [if_neg hne]
    simp only [Option.bind_eq_bind, Option.bind_eq_some_iff, Option.some.injEq]
    refine ⟨_, h.metadata, _, h.runAttempt, _, h.runName, _, h.runId, _, h.maxConcurrency, _,
      h.recursionLimit, _, h.tags, _, h.configurable, proto, ?_, rfl⟩
    rw [injectConfigurable_eq_some, ← h.metadataJson, ← h.serverRunId, ← h.extraJson]
    refine ⟨h.injected, ?_⟩
    simp [EngineRunnableConfig.withoutConfigurable, h.graphId]

/-! ### The arguments of a run -/

/-- The configuration of the arguments of a row, as `kwargs_to_proto` encodes it: a value
without `get` raises, if it is not empty. -/
def kwargsConfigToProto (str : Str) (kwargs : Json) : Option (Option EngineRunnableConfig) :=
  match truthyValue (kwargs.get? "config") with
  | none => some none
  | some config => (asDict config).bind (configToProto str)

/-- The configuration that a worker reads of the arguments of a row: that of
`_proto_kwargs_to_dict`, where `none` is `None`. -/
def kwargsConfig (str : Str) (kwargs : Json) : Option (Option (List (String × Json))) :=
  (kwargsConfigToProto str kwargs).map fun proto => proto.map fun p => configFromProto (some p)

end NextRole
