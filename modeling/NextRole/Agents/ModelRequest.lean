import Mathlib.Data.List.Infix
import NextRole.Lib.Dict
import NextRole.Python

/-!
# The model of a request

`ModelOverrideMiddleware` of `agents/career_agent/middleware.py`: before each call of a model the
request gets the model that the run asks for, and what makes Claude stream the arguments of tools
and drop stale thinking blocks.  Models, tools and the dictionaries of request fields are objects:
`model_copy` and `dict` make new ones, an assignment to a key writes to a dictionary in place, and
`is` compares addresses.  What `init_chat_model` builds and what `lower` makes of a text is not
decided here.

## Main definitions

* `ChatModel`, `BaseTool`, `PyState` — models, tools, and the objects that there are.
* `withBeta`, `withDropBlock` — a beta flag and a thinking configuration that is opted in.
* `PyState.withThinkingDropBlock`, `PyState.fineGrainedOverrides` — the rewrites of a model and
  its tools.
* `maybeOverride` — the request that the model is called with.
-/

namespace NextRole

/-! ### Models and tools -/

/-- What every chat model has. -/
structure ChatSettings where
  disableStreaming : Json := .bool false
  others : List (String × Json) := []

structure ChatAnthropic extends ChatSettings where
  model : String
  thinking : Option (List (String × Json)) := none
  betas : Option (List Json) := none
  reasoningEffort : Option String := none

/-- `ChatBedrockConverse`, whose request fields are `additional_model_request_fields`, and
`ChatBedrock`, where they are `model_kwargs`. -/
structure ChatBedrock (φ : Type) extends ChatSettings where
  converse : Bool
  modelId : String
  baseModelId : Option String := none
  provider : Option String := none
  fields : Option φ := none

/-- A chat model, with its request fields or a reference to them. -/
inductive ChatModel (φ : Type)
  | anthropic (m : ChatAnthropic)
  | bedrock (m : ChatBedrock φ)
  | other (m : ChatSettings)

/-- The model with other request fields. -/
def ChatModel.map {φ ψ : Type} (f : φ → ψ) : ChatModel φ → ChatModel ψ
  | .anthropic m => .anthropic m
  | .bedrock m => .bedrock { m with fields := m.fields.map f }
  | .other m => .other m

/-- `model_copy(update={"disable_streaming": True})`. -/
def ChatModel.noStreaming {φ : Type} : ChatModel φ → ChatModel φ
  | .anthropic m => .anthropic { m with disableStreaming := .bool true }
  | .bedrock m => .bedrock { m with disableStreaming := .bool true }
  | .other m => .other { m with disableStreaming := .bool true }

structure BaseTool where
  name : String
  extras : Option (Dict String Json) := none
  others : List (String × Json) := []

def eagerInputStreaming : String := "eager_input_streaming"

/-- Whether the extras of a tool have the key. -/
def BaseTool.setsEager (t : BaseTool) : Bool :=
  ((t.extras.getD {}).get? eagerInputStreaming).isSome

/-- `model_copy(update={"extras": {**extras, "eager_input_streaming": True}})`. -/
def BaseTool.optIn (t : BaseTool) : BaseTool :=
  { t with extras := some ((t.extras.getD {}).set eagerInputStreaming (.bool true)) }

/-- A tool of a request: a tool of the provider, or a `BaseTool`. -/
inductive RequestTool (τ : Type)
  | dict (spec : Json)
  | base (tool : τ)

structure ModelRequest (μ τ : Type) where
  model : μ
  tools : List (RequestTool τ)
  others : List (String × Json) := []

/-! ### Beta flags and thinking -/

/-- The environment of the process, and what is not under its control. -/
structure ModelEnv where
  /-- `MODEL_OVERRIDE_ENABLED`. -/
  modelOverrideEnabled : Option String := none
  lower : String → String
  /-- `init_chat_model`, where it does not raise. -/
  initChatModel : String → Option (ChatModel (Dict String Json))

/-- `DISABLE_SUBAGENT_STREAMING`. -/
def disableSubagentStreaming : Json := .bool false

def fineGrainedToolStreamingBeta : String := "fine-grained-tool-streaming-2025-05-14"

def thinkingBindingBeta : String := "thinking-binding-controls-2026-08-01"

/-- `_PREFIX_BOUND_THINKING_MODELS`. -/
def prefixBoundThinkingModels : List String :=
  ["claude-fable-5-1", "claude-opus-5-5", "claude-sonnet-5-5", "claude-haiku-5-5"]

def dropBlockBinding : Json := .obj [("prefix_mismatch_behavior", .str "drop_block")]

/-- `part in text`. -/
def includes (text part : String) : Bool := decide (part.toList <:+: text.toList)

/-- The flags of a beta list, which may be one text. -/
def betaItems : Json → List Json
  | .str flag => [.str flag]
  | .arr flags => flags
  | _ => []

/-- `_with_beta`. -/
def withBeta (betas : Json) (flag : String) : Option (List Json) :=
  if .str flag ∈ betaItems betas then none else some (betaItems betas ++ [.str flag])

/-- Whether a value can be looked up in a set. -/
def hashable : Json → Bool
  | .arr _ | .obj _ => false
  | _ => true

/-- `thinking.get("type")`. -/
def thinkingType (fields : List (String × Json)) : Json := (fields.lookup "type").getD .null

/-- Whether a configuration is one that takes a binding, and sets none. -/
def takesBinding (fields : List (String × Json)) : Bool :=
  (thinkingType fields = .str "adaptive" ∨ thinkingType fields = .str "enabled") ∧
    (fields.lookup "block_binding").isNone

/-- `_with_drop_block`, which raises where the type cannot be looked up. -/
def withDropBlock (thinking : Json) (summarized : Bool) :
    Option (Option (List (String × Json))) :=
  match thinking with
  | .null =>
    some (some ([("type", .str "adaptive")] ++
      (if summarized then [("display", .str "summarized")] else []) ++
        [("block_binding", dropBlockBinding)]))
  | .obj fields =>
    if !hashable (thinkingType fields) then none
    else if takesBinding fields then some (some (fields ++ [("block_binding", dropBlockBinding)]))
    else some none
  | _ => some none

/-- `_binds_thinking_to_prefix`. -/
def bindsThinkingToPrefix (env : ModelEnv) (modelIds : String) : Bool :=
  prefixBoundThinkingModels.any fun name => includes (env.lower modelIds) name

section Bedrock

variable {φ : Type} (env : ModelEnv) (m : ChatBedrock φ)

/-- The two ids of a Bedrock model. -/
def ChatBedrock.ids : String := m.baseModelId.getD "" ++ " " ++ m.modelId

/-- `_serves_anthropic`. -/
def ChatBedrock.servesAnthropic : Bool :=
  m.provider.getD "" = "anthropic" || includes (env.lower m.ids) "anthropic"

end Bedrock

/-! ### Objects -/

/-- An object: a model with a reference to its request fields, a tool, or a dictionary. -/
inductive PyObject
  | model (m : ChatModel ℕ)
  | tool (t : BaseTool)
  | dict (d : Dict String Json)

/-- The objects by their addresses, and `_MODEL_CACHE`. -/
structure PyState where
  heap : List PyObject
  cache : Dict String ℕ := {}

namespace PyState

variable (env : ModelEnv) (s : PyState)

def modelAt (a : ℕ) : ChatModel ℕ :=
  match s.heap[a]? with
  | some (.model m) => m
  | _ => .other {}

def toolAt (a : ℕ) : BaseTool :=
  match s.heap[a]? with
  | some (.tool t) => t
  | _ => { name := "" }

def dictAt (a : ℕ) : Dict String Json :=
  match s.heap[a]? with
  | some (.dict d) => d
  | _ => {}

/-- A model with its request fields. -/
def modelValue (a : ℕ) : ChatModel (Dict String Json) := (s.modelAt a).map s.dictAt

/-- A tool as it is. -/
def toolValue : RequestTool ℕ → RequestTool BaseTool
  | .dict spec => .dict spec
  | .base a => .base (s.toolAt a)

/-- A request with its model and its tools. -/
def requestValue (request : ModelRequest ℕ ℕ) :
    ModelRequest (ChatModel (Dict String Json)) BaseTool where
  model := s.modelValue request.model
  tools := request.tools.map s.toolValue
  others := request.others

/-- A new object, at the next address. -/
def alloc (o : PyObject) : PyState := { s with heap := s.heap ++ [o] }

/-- `d[key] = value`. -/
def setItem (a : ℕ) (key : String) (value : Json) : PyState :=
  { s with heap := s.heap.set a (.dict ((s.dictAt a).set key value)) }

/-- `dict(fields or {})`. -/
def copyFields (fields : Option ℕ) : PyState := s.alloc (.dict (fields.elim {} s.dictAt))

/-- A model that `init_chat_model` has built. -/
def allocModel : ChatModel (Dict String Json) → ℕ × PyState
  | .anthropic m => (s.heap.length, s.alloc (.model (.anthropic m)))
  | .bedrock m =>
    match m.fields with
    | none => (s.heap.length, s.alloc (.model (.bedrock { m with fields := none })))
    | some d => (s.heap.length + 1,
        (s.alloc (.dict d)).alloc (.model (.bedrock { m with fields := some s.heap.length })))
  | .other m => (s.heap.length, s.alloc (.model (.other m)))

/-- `_resolve_model`; a name that cannot be a key of the cache raises, and `init_chat_model` raises
for every other name that is no text. -/
def resolveModel : Json → Option (Option ℕ × PyState)
  | .str name =>
    match s.cache.get? name with
    | some a => some (some a, s)
    | none =>
      match env.initChatModel name with
      | none => some (none, s)
      | some m =>
        let (a, s) := s.allocModel m
        some (some a, { s with cache := s.cache.set name a })
  | name => if hashable name then some (none, s) else none

/-- `_without_streaming`. -/
def withoutStreaming (a : ℕ) : ℕ × PyState :=
  (s.heap.length, s.alloc (.model (s.modelAt a).noStreaming))

/-- `_anthropic_with_drop_block`. -/
def anthropicWithDropBlock (a : ℕ) (m : ChatAnthropic) : Option (ℕ × PyState) :=
  if !bindsThinkingToPrefix env m.model then some (a, s)
  else
    match withDropBlock (m.thinking.elim .null .obj) (m.reasoningEffort.getD "" ≠ "") with
    | none => none
    | some none => some (a, s)
    | some (some thinking) =>
      let betas := (withBeta (m.betas.elim .null .arr) thinkingBindingBeta).or m.betas
      some (s.heap.length, s.alloc (.model (.anthropic
        { m with thinking := some thinking, betas := betas })))

/-- `_bedrock_with_drop_block`. -/
def bedrockWithDropBlock (a : ℕ) (m : ChatBedrock ℕ) : Option (ℕ × PyState) :=
  if !bindsThinkingToPrefix env m.ids then some (a, s)
  else
    let fields := s.heap.length
    let s := s.copyFields m.fields
    match withDropBlock (((s.dictAt fields).get? "thinking").getD .null) false with
    | none => none
    | some none => some (a, s)
    | some (some thinking) =>
      let s := s.setItem fields "thinking" (.obj thinking)
      let betas := ((s.dictAt fields).get? "anthropic_beta").getD .null
      let s := s.setItem fields "anthropic_beta"
        ((withBeta betas thinkingBindingBeta).elim betas .arr)
      some (s.heap.length, s.alloc (.model (.bedrock { m with fields := some fields })))

/-- `_with_thinking_drop_block`. -/
def withThinkingDropBlock (a : ℕ) : Option (ℕ × PyState) :=
  match s.modelAt a with
  | .anthropic m => s.anthropicWithDropBlock env a m
  | .bedrock m => if m.servesAnthropic env then s.bedrockWithDropBlock env a m else some (a, s)
  | .other _ => some (a, s)

/-- The loop of `_with_eager_tool_streaming`: the tools, and whether one of them is a copy. -/
def withEagerToolStreaming : List (RequestTool ℕ) → PyState → List (RequestTool ℕ) × Bool × PyState
  | [], s => ([], false, s)
  | .dict spec :: tools, s =>
    let (out, changed, s) := withEagerToolStreaming tools s
    (.dict spec :: out, changed, s)
  | .base a :: tools, s =>
    if (s.toolAt a).setsEager then
      let (out, changed, s) := withEagerToolStreaming tools s
      (.base a :: out, changed, s)
    else
      let copy := s.heap.length
      let (out, _, s) := withEagerToolStreaming tools (s.alloc (.tool (s.toolAt a).optIn))
      (.base copy :: out, true, s)

/-- `_with_bedrock_fine_grained_streaming`. -/
def withBedrockFineGrainedStreaming (a : ℕ) (m : ChatBedrock ℕ) : ℕ × PyState :=
  let fields := s.heap.length
  let s := s.copyFields m.fields
  match withBeta (((s.dictAt fields).get? "anthropic_beta").getD .null)
      fineGrainedToolStreamingBeta with
  | none => (a, s)
  | some betas =>
    let s := s.setItem fields "anthropic_beta" (.arr betas)
    (s.heap.length, s.alloc (.model (.bedrock { m with fields := some fields })))

/-- `_fine_grained_tool_streaming_overrides`: another model or other tools. -/
def fineGrainedOverrides (a : ℕ) (tools : List (RequestTool ℕ)) :
    Option ℕ × Option (List (RequestTool ℕ)) × PyState :=
  match s.modelAt a with
  | .anthropic _ =>
    let (out, changed, s) := withEagerToolStreaming tools s
    (none, if changed then some out else none, s)
  | .bedrock m =>
    if m.servesAnthropic env then
      let (copy, s) := s.withBedrockFineGrainedStreaming a m
      (if copy ≠ a then some copy else none, none, s)
    else (none, none, s)
  | .other _ => (none, none, s)

end PyState

/-! ### The middleware -/

/-- A `RunnableConfig`. -/
structure RunnableConfig where
  configurable : List (String × Json) := []
  metadata : List (String × Json) := []

/-- `model_override_enabled`. -/
def modelOverrideEnabled (env : ModelEnv) : Bool :=
  !(["false", "0", "no", "off"].contains
    (env.lower (strip (env.modelOverrideEnabled.getD "true"))))

/-- `_read_config`; outside of a run there is no configuration. -/
def readConfig (env : ModelEnv) : Option RunnableConfig → Bool × Option Json × Bool
  | none => (false, none, false)
  | some config =>
    let disableStreaming :=
      (nonNull (config.configurable.lookup "disable_subagent_streaming")).getD
        disableSubagentStreaming
    let isSubagent := truthy (config.metadata.lookup "lc_agent_name")
    if !modelOverrideEnabled env then (isSubagent, none, truthy (some disableStreaming))
    else
      let key := if isSubagent then "subagent_model" else "main_agent_model"
      (isSubagent, truthyValue (config.configurable.lookup key), truthy (some disableStreaming))

/-- The model that the run asks for, if it can be built. -/
def resolveNamed (env : ModelEnv) (s : PyState) : Option Json → Option (Option ℕ × PyState)
  | none => some (none, s)
  | some name => s.resolveModel env name

/-- `_maybe_override`. -/
def maybeOverride (env : ModelEnv) (config : Option RunnableConfig) (s : PyState)
    (request : ModelRequest ℕ ℕ) : Option (ModelRequest ℕ ℕ × PyState) :=
  let (isSubagent, name, disableStreaming) := readConfig env config
  (resolveNamed env s name).bind fun (model, s) =>
    let (override, s) :=
      if isSubagent && disableStreaming then
        let (copy, s) := s.withoutStreaming (model.getD request.model)
        (some copy, s)
      else (model, s)
    (s.withThinkingDropBlock env (override.getD request.model)).bind fun (effective, s) =>
      let (copy, tools, s) := s.fineGrainedOverrides env effective request.tools
      some ({ request with
        model := copy.getD effective
        tools := tools.getD request.tools }, s)

end NextRole
