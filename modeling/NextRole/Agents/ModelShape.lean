import NextRole.Agents.ModelRequest

/-!
# The middleware on values

The middleware works on objects, but none of what it writes to is older than the call: so it is a
function of the values, which is stated here, and what was there keeps its value.

## Main definitions

* `ModelRequest.shape` — the middleware on values.
* `PyState.Closed`, `PyState.Holds` — references lead to objects.
* `PyState.Yields` — a model at an address, in a state that has grown.

## Main results

* `PyState.modelValue_of_grown` — an object keeps its value while new objects are made.
* `maybeOverride_spec` — **the middleware on objects is the middleware on values**.
-/

namespace NextRole

open List

/-- The request fields of a model, as they are. -/
abbrev RequestFields := Dict String Json

/-! ### The middleware on values -/

def ChatAnthropic.dropBlock (env : ModelEnv) (m : ChatAnthropic) : Option ChatAnthropic :=
  if !bindsThinkingToPrefix env m.model then some m
  else
    (withDropBlock (m.thinking.elim .null .obj) (m.reasoningEffort.getD "" ≠ "")).map
      fun thinking => match thinking with
        | none => m
        | some thinking => { m with
            thinking := some thinking
            betas := (withBeta (m.betas.elim .null .arr) thinkingBindingBeta).or m.betas }

/-- The value of a request field; null stands for none. -/
def ChatBedrock.field (m : ChatBedrock RequestFields) (key : String) : Json :=
  ((m.fields.getD {}).get? key).getD .null

def ChatBedrock.dropBlock (env : ModelEnv) (m : ChatBedrock RequestFields) :
    Option (ChatBedrock RequestFields) :=
  if !bindsThinkingToPrefix env m.ids then some m
  else
    (withDropBlock (m.field "thinking") false).map fun thinking => match thinking with
      | none => m
      | some thinking => { m with
          fields := some (((m.fields.getD {}).set "thinking" (.obj thinking)).set "anthropic_beta"
            ((withBeta (m.field "anthropic_beta") thinkingBindingBeta).elim
              (m.field "anthropic_beta") .arr)) }

def ChatModel.dropBlock (env : ModelEnv) :
    ChatModel RequestFields → Option (ChatModel RequestFields)
  | .anthropic m => (m.dropBlock env).map .anthropic
  | .bedrock m =>
    if m.servesAnthropic env then (m.dropBlock env).map .bedrock else some (.bedrock m)
  | .other m => some (.other m)

def ChatBedrock.fineGrained (m : ChatBedrock RequestFields) : ChatBedrock RequestFields :=
  match withBeta (m.field "anthropic_beta") fineGrainedToolStreamingBeta with
  | none => m
  | some betas => { m with fields := some ((m.fields.getD {}).set "anthropic_beta" (.arr betas)) }

def ChatModel.fineGrained (env : ModelEnv) : ChatModel RequestFields → ChatModel RequestFields
  | .anthropic m => .anthropic m
  | .bedrock m => if m.servesAnthropic env then .bedrock m.fineGrained else .bedrock m
  | .other m => .other m

/-- Whether the tools of a call are opted in, and not its model. -/
def ChatModel.isAnthropic {φ : Type} : ChatModel φ → Bool
  | .anthropic _ => true
  | _ => false

def BaseTool.eager (t : BaseTool) : BaseTool := if t.setsEager then t else t.optIn

def RequestTool.eager : RequestTool BaseTool → RequestTool BaseTool
  | .dict spec => .dict spec
  | .base t => .base t.eager

/-- The request that is made of a request, for the model that the run asks for. -/
def ModelRequest.shape (env : ModelEnv) (resolved : Option (ChatModel RequestFields))
    (noStreaming : Bool) (r : ModelRequest (ChatModel RequestFields) BaseTool) :
    Option (ModelRequest (ChatModel RequestFields) BaseTool) :=
  let base := resolved.getD r.model
  ((if noStreaming then base.noStreaming else base).dropBlock env).map fun effective =>
    { r with
      model := effective.fineGrained env
      tools := if effective.isAnthropic then r.tools.map RequestTool.eager else r.tools }

/-! ### Objects -/

theorem rel_bind {α β γ δ : Type} {R : α → β → Prop} {S : γ → δ → Prop} {x : Option α}
    {y : Option β} {f : α → Option γ} {g : β → Option δ} (h : Option.Rel R x y)
    (hf : ∀ a b, R a b → Option.Rel S (f a) (g b)) : Option.Rel S (x.bind f) (y.bind g) := by
  cases h with
  | none => exact .none
  | some h => exact hf _ _ h

namespace PyState

/-- References lead to objects. -/
structure Closed (s : PyState) : Prop where
  fields : ∀ (a : ℕ) (m : ChatBedrock ℕ), s.heap[a]? = some (.model (.bedrock m)) →
    ∀ f ∈ m.fields, f < s.heap.length
  cache : ∀ name, ∀ a ∈ s.cache.get? name, a < s.heap.length

/-- The model and the tools of a request are objects. -/
structure Holds (s : PyState) (request : ModelRequest ℕ ℕ) : Prop where
  model : request.model < s.heap.length
  tools : ∀ a, .base a ∈ request.tools → a < s.heap.length

variable {env : ModelEnv} {s s' : PyState} {a : ℕ}

theorem getElem?_of_grown (h : s.heap <+: s'.heap) (ha : a < s.heap.length) :
    s'.heap[a]? = s.heap[a]? := by
  obtain ⟨new, hnew⟩ := h
  rw [← hnew, getElem?_append_left ha]

theorem toolAt_of_grown (h : s.heap <+: s'.heap) (ha : a < s.heap.length) :
    s'.toolAt a = s.toolAt a := by
  rw [toolAt, toolAt, getElem?_of_grown h ha]

theorem dictAt_of_grown (h : s.heap <+: s'.heap) (ha : a < s.heap.length) :
    s'.dictAt a = s.dictAt a := by
  rw [dictAt, dictAt, getElem?_of_grown h ha]

/-- **An object keeps its value** while new objects are made. -/
theorem modelValue_of_grown (hs : s.Closed) (h : s.heap <+: s'.heap) (ha : a < s.heap.length) :
    s'.modelValue a = s.modelValue a := by
  have hat : s'.modelAt a = s.modelAt a := by
    rw [modelAt, modelAt, getElem?_of_grown h ha]
  rw [modelValue, modelValue, hat]
  cases hm : s.modelAt a with
  | anthropic m => rfl
  | other m => rfl
  | bedrock m =>
    have hget : s.heap[a]? = some (.model (.bedrock m)) := by
      unfold modelAt at hm
      split at hm
      · next m' hget =>
        rw [hget, hm]
      · cases hm
    simp only [ChatModel.map, ChatModel.bedrock.injEq, ChatBedrock.mk.injEq, true_and]
    cases hf : m.fields with
    | none => rfl
    | some f => rw [Option.map_some, Option.map_some, dictAt_of_grown h (hs.fields a m hget f hf)]

theorem toolValue_of_grown {tools : List (RequestTool ℕ)} (h : s.heap <+: s'.heap)
    (ha : ∀ a, .base a ∈ tools → a < s.heap.length) :
    tools.map s'.toolValue = tools.map s.toolValue := by
  refine map_congr_left fun tool htool => ?_
  cases tool with
  | dict spec => rfl
  | base a =>
    rw [toolValue, toolValue, toolAt_of_grown h (ha a htool)]

theorem prefix_alloc (s : PyState) (o : PyObject) : s.heap <+: (s.alloc o).heap := prefix_append _ _

/-- A new object that refers to objects. -/
theorem Closed.alloc (hs : s.Closed) {o : PyObject}
    (ho : ∀ m, o = .model (.bedrock m) → ∀ f ∈ m.fields, f < s.heap.length) :
    (s.alloc o).Closed := by
  have hlength : (s.alloc o).heap.length = s.heap.length + 1 := by
    rw [PyState.alloc, length_append, length_singleton]
  refine ⟨fun a m hget f hf => ?_, fun name a hname => ?_⟩
  · rw [hlength]
    rcases Nat.lt_or_ge a s.heap.length with hlt | hge
    · rw [PyState.alloc, getElem?_append_left hlt] at hget
      exact Nat.lt_succ_of_lt (hs.fields a m hget f hf)
    · rw [PyState.alloc, getElem?_append_right hge] at hget
      obtain rfl := mem_singleton.mp (mem_of_getElem? hget)
      exact Nat.lt_succ_of_lt (ho m rfl f hf)
  · rw [hlength]
    exact Nat.lt_succ_of_lt (hs.cache name a hname)

@[simp] theorem getElem?_alloc (s : PyState) (o : PyObject) :
    (s.alloc o).heap[s.heap.length]? = some o := getElem?_concat_length

@[simp] theorem dictAt_alloc (s : PyState) (d : Dict String Json) :
    (s.alloc (.dict d)).dictAt s.heap.length = d := by
  rw [dictAt, getElem?_alloc]

/-- **What is written in place is new**: a key of a dictionary that was just made. -/
theorem setItem_alloc (s : PyState) (d : Dict String Json) (key : String) (value : Json) :
    (s.alloc (.dict d)).setItem s.heap.length key value = s.alloc (.dict (d.set key value)) := by
  rw [setItem, dictAt_alloc]
  simp [alloc]

theorem modelAt_alloc (s : PyState) (m : ChatModel ℕ) :
    (s.alloc (.model m)).modelAt s.heap.length = m := by
  rw [modelAt, getElem?_alloc]

/-- A model at an address, in a state that has grown. -/
structure Yields (s : PyState) (r : ℕ × PyState) (v : ChatModel RequestFields) : Prop where
  heap : s.heap <+: r.2.heap
  cache : r.2.cache = s.cache
  closed : r.2.Closed
  lt : r.1 < r.2.heap.length
  value : r.2.modelValue r.1 = v

theorem yields_self (hs : s.Closed) (ha : a < s.heap.length) : s.Yields (a, s) (s.modelValue a) :=
  ⟨prefix_rfl, rfl, hs, ha, rfl⟩

theorem yields_unused (hs : s.Closed) (ha : a < s.heap.length) (d : Dict String Json) :
    s.Yields (a, s.alloc (.dict d)) (s.modelValue a) := by
  refine ⟨prefix_alloc s _, rfl, hs.alloc (fun m hm => by cases hm), ?_, ?_⟩
  · exact lt_of_lt_of_le ha (prefix_alloc s _).length_le
  · exact modelValue_of_grown hs (prefix_alloc s _) ha

/-- A new model, with the request fields of an old one. -/
theorem yields_alloc (hs : s.Closed) (m : ChatModel ℕ)
    (hm : ∀ b, m = .bedrock b → ∀ f ∈ b.fields, f < s.heap.length) :
    s.Yields (s.heap.length, s.alloc (.model m)) (m.map s.dictAt) := by
  refine ⟨prefix_alloc s _, rfl, hs.alloc fun b hb => hm b (PyObject.model.inj hb), ?_, ?_⟩
  · simp [alloc]
  · rw [modelValue, modelAt_alloc]
    cases m with
    | anthropic m => rfl
    | other m => rfl
    | bedrock m =>
      simp only [ChatModel.map, ChatModel.bedrock.injEq, ChatBedrock.mk.injEq, true_and]
      cases hf : m.fields with
      | none => rfl
      | some f =>
        rw [Option.map_some, Option.map_some, dictAt_of_grown (prefix_alloc s _) (hm m rfl f hf)]

/-- A new model with new request fields. -/
theorem yields_fields (hs : s.Closed) (m : ChatBedrock ℕ) (d : Dict String Json) :
    s.Yields ((s.alloc (.dict d)).heap.length, (s.alloc (.dict d)).alloc
        (.model (.bedrock { m with fields := some s.heap.length })))
      (.bedrock { m with fields := some d }) := by
  have hdict : (s.alloc (.dict d)).Closed := hs.alloc fun m hm => by cases hm
  have hnew := yields_alloc hdict (.bedrock { m with fields := some s.heap.length })
    fun b hb f hf => by
      cases hb
      cases hf
      simp [alloc]
  refine ⟨(prefix_alloc s _).trans hnew.heap, hnew.cache, hnew.closed, hnew.lt, ?_⟩
  rw [hnew.value, ChatModel.map]
  simp only [Option.map_some, dictAt_alloc]

theorem fields_lt (hs : s.Closed) {m : ChatBedrock ℕ} (hm : s.modelAt a = .bedrock m) :
    ∀ f ∈ m.fields, f < s.heap.length := by
  unfold modelAt at hm
  split at hm
  · next m' hget =>
    rw [hm] at hget
    exact hs.fields a m hget
  · cases hm

/-! ### The rewrites of a model -/

theorem yields_withoutStreaming (hs : s.Closed) (a : ℕ) :
    s.Yields (s.withoutStreaming a) (s.modelValue a).noStreaming := by
  have hvalue : (s.modelValue a).noStreaming = (s.modelAt a).noStreaming.map s.dictAt := by
    rw [modelValue]
    cases s.modelAt a <;> rfl
  rw [hvalue]
  refine yields_alloc hs _ fun b hb f hf => ?_
  cases hm : s.modelAt a with
  | anthropic m => rw [hm] at hb; cases hb
  | other m => rw [hm] at hb; cases hb
  | bedrock m =>
    rw [hm] at hb
    cases hb
    exact fields_lt hs hm f hf

theorem yields_anthropicWithDropBlock (hs : s.Closed) (ha : a < s.heap.length) {m : ChatAnthropic}
    (hm : s.modelAt a = .anthropic m) :
    Option.Rel s.Yields (s.anthropicWithDropBlock env a m) ((m.dropBlock env).map .anthropic) := by
  have hself : s.Yields (a, s) (.anthropic m) := by
    have hvalue : s.modelValue a = .anthropic m := by rw [modelValue, hm, ChatModel.map]
    exact hvalue ▸ yields_self hs ha
  unfold anthropicWithDropBlock ChatAnthropic.dropBlock
  split
  · exact .some hself
  · split
    · next hraise =>
      rw [hraise]
      exact .none
    · next hkeep =>
      rw [hkeep]
      exact .some hself
    · next thinking hthinking =>
      rw [hthinking]
      exact .some (yields_alloc hs _ fun b hb => by cases hb)

theorem yields_bedrockWithDropBlock (hs : s.Closed) (ha : a < s.heap.length) {m : ChatBedrock ℕ}
    (hm : s.modelAt a = .bedrock m) : Option.Rel s.Yields (s.bedrockWithDropBlock env a m)
      ((ChatBedrock.dropBlock env { m with fields := m.fields.map s.dictAt }).map .bedrock) := by
  have hvalue : s.modelValue a = .bedrock { m with fields := m.fields.map s.dictAt } := by
    rw [modelValue, hm, ChatModel.map]
  have hfields : m.fields.elim {} s.dictAt = (m.fields.map s.dictAt).getD {} := by
    cases m.fields <;> rfl
  have hids : ChatBedrock.ids { m with fields := m.fields.map s.dictAt } = m.ids := rfl
  unfold bedrockWithDropBlock ChatBedrock.dropBlock
  rw [hids]
  split
  · exact .some (hvalue ▸ yields_self hs ha)
  · simp only [copyFields, dictAt_alloc, setItem_alloc, hfields]
    split
    · next hraise =>
      simp only [ChatBedrock.field, hraise]
      exact .none
    · next hkeep =>
      simp only [ChatBedrock.field, hkeep]
      exact .some (hvalue ▸ yields_unused hs ha _)
    · next thinking hthinking =>
      have hbeta : ∀ d : Dict String Json,
          (d.set "thinking" (.obj thinking)).get? "anthropic_beta" =
            d.get? "anthropic_beta" := fun d => Dict.get?_set_of_ne d _ (by decide)
      simp only [ChatBedrock.field, hthinking, hbeta]
      exact .some (yields_fields hs m _)

theorem yields_withThinkingDropBlock (hs : s.Closed) (ha : a < s.heap.length) :
    Option.Rel s.Yields (s.withThinkingDropBlock env a) ((s.modelValue a).dropBlock env) := by
  unfold withThinkingDropBlock
  split
  · next m hm =>
    rw [modelValue, hm]
    exact yields_anthropicWithDropBlock hs ha hm
  · next m hm =>
    have hserves : ChatBedrock.servesAnthropic env { m with fields := m.fields.map s.dictAt } =
        m.servesAnthropic env := rfl
    rw [modelValue, hm, ChatModel.map, ChatModel.dropBlock, hserves]
    split
    · exact yields_bedrockWithDropBlock hs ha hm
    · refine .some ?_
      have hself := yields_self hs ha
      rwa [modelValue, hm] at hself
  · next m hm =>
    have hself := yields_self hs ha
    rw [modelValue, hm] at hself ⊢
    exact .some hself

theorem yields_withBedrockFineGrainedStreaming (hs : s.Closed) (ha : a < s.heap.length)
    {m : ChatBedrock ℕ} (hm : s.modelAt a = .bedrock m) :
    s.Yields (s.withBedrockFineGrainedStreaming a m)
      (.bedrock (ChatBedrock.fineGrained { m with fields := m.fields.map s.dictAt })) := by
  have hvalue : s.modelValue a = .bedrock { m with fields := m.fields.map s.dictAt } := by
    rw [modelValue, hm, ChatModel.map]
  have hfields : m.fields.elim {} s.dictAt = (m.fields.map s.dictAt).getD {} := by
    cases m.fields <;> rfl
  unfold withBedrockFineGrainedStreaming ChatBedrock.fineGrained
  simp only [copyFields, dictAt_alloc, setItem_alloc, hfields, ChatBedrock.field]
  split
  · next hset =>
    rw [hset]
    exact hvalue ▸ yields_unused hs ha _
  · next betas hbetas =>
    rw [hbetas]
    exact yields_fields hs m _

/-! ### The tools -/

/-- Tools at addresses, in a state that has grown. -/
structure YieldsTools (s : PyState) (tools : List (RequestTool ℕ)) (s' : PyState)
    (v : List (RequestTool BaseTool)) : Prop where
  heap : s.heap <+: s'.heap
  cache : s'.cache = s.cache
  closed : s'.Closed
  lt : ∀ a, .base a ∈ tools → a < s'.heap.length
  value : tools.map s'.toolValue = v

/-- **The tools that are opted in**: each one at its place, and the same ones if none is a copy. -/
theorem yieldsTools_withEagerToolStreaming (tools : List (RequestTool ℕ)) {s : PyState}
    (hs : s.Closed) (ha : ∀ a, .base a ∈ tools → a < s.heap.length) :
    s.YieldsTools (withEagerToolStreaming tools s).1 (withEagerToolStreaming tools s).2.2
        ((tools.map s.toolValue).map RequestTool.eager) ∧
      ((withEagerToolStreaming tools s).2.1 = false →
        (withEagerToolStreaming tools s).1 = tools) := by
  induction tools generalizing s with
  | nil => exact ⟨⟨prefix_rfl, rfl, hs, (fun _ h => by cases h), rfl⟩, fun _ => rfl⟩
  | cons tool tools ih =>
    have hrest : ∀ a, .base a ∈ tools → a < s.heap.length := fun a h => ha a (mem_cons_of_mem _ h)
    cases tool with
    | dict spec =>
      obtain ⟨hyields, hsame⟩ := ih hs hrest
      rw [withEagerToolStreaming]
      refine ⟨⟨hyields.heap, hyields.cache, hyields.closed, fun a hmem => ?_, ?_⟩,
        fun hunchanged => ?_⟩
      · rcases mem_cons.mp hmem with heq | hmem
        · cases heq
        · exact hyields.lt a hmem
      · rw [map_cons, map_cons, map_cons, hyields.value]
        rfl
      · exact congrArg (RequestTool.dict spec :: ·) (hsame hunchanged)
    | base a =>
      have hlt := ha a mem_cons_self
      rw [withEagerToolStreaming]
      split
      · next hset =>
        obtain ⟨hyields, hsame⟩ := ih hs hrest
        have heager : (s.toolAt a).eager = s.toolAt a := if_pos hset
        refine ⟨⟨hyields.heap, hyields.cache, hyields.closed, fun b hmem => ?_, ?_⟩,
          fun hunchanged => ?_⟩
        · rcases mem_cons.mp hmem with heq | hmem
          · cases heq
            exact lt_of_lt_of_le hlt hyields.heap.length_le
          · exact hyields.lt b hmem
        · rw [map_cons, map_cons, map_cons, hyields.value, toolValue, toolValue, RequestTool.eager,
            toolAt_of_grown hyields.heap hlt, heager]
        · exact congrArg (RequestTool.base a :: ·) (hsame hunchanged)
      · next hunset =>
        have hnew := prefix_alloc s (.tool (s.toolAt a).optIn)
        have hcopy : s.heap.length < (s.alloc (.tool (s.toolAt a).optIn)).heap.length := by
          simp [alloc]
        obtain ⟨hyields, -⟩ := ih (hs.alloc fun m hm => by cases hm)
          fun b hb => lt_of_lt_of_le (hrest b hb) hnew.length_le
        have heager : (s.toolAt a).eager = (s.toolAt a).optIn := if_neg hunset
        refine ⟨⟨hnew.trans hyields.heap, hyields.cache, hyields.closed, fun b hmem => ?_, ?_⟩,
          fun hunchanged => by cases hunchanged⟩
        · rcases mem_cons.mp hmem with heq | hmem
          · cases heq
            exact lt_of_lt_of_le hcopy hyields.heap.length_le
          · exact hyields.lt b hmem
        · rw [map_cons, map_cons, map_cons, hyields.value, toolValue_of_grown hnew hrest,
            toolValue, toolValue, RequestTool.eager, heager, toolAt_of_grown hyields.heap hcopy]
          simp only [toolAt, getElem?_alloc]

/-! ### The request -/

theorem fineGrainedOverrides_spec (hs : s.Closed) (ha : a < s.heap.length)
    {tools : List (RequestTool ℕ)} (ht : ∀ a, .base a ∈ tools → a < s.heap.length) :
    ∃ copy tools' s', s.fineGrainedOverrides env a tools = (copy, tools', s') ∧
      s.Yields (copy.getD a, s') ((s.modelValue a).fineGrained env) ∧
        s.YieldsTools (tools'.getD tools) s' (if (s.modelValue a).isAnthropic then
          (tools.map s.toolValue).map RequestTool.eager else tools.map s.toolValue) := by
  have hself := yields_self hs ha
  unfold fineGrainedOverrides
  split
  · next m hm =>
    obtain ⟨hyields, hsame⟩ := yieldsTools_withEagerToolStreaming tools hs ht
    have hvalue : s.modelValue a = .anthropic m := by rw [modelValue, hm, ChatModel.map]
    refine ⟨none, if (withEagerToolStreaming tools s).2.1 then
      some (withEagerToolStreaming tools s).1 else none, (withEagerToolStreaming tools s).2.2,
        rfl, ?_, ?_⟩
    · refine ⟨hyields.heap, hyields.cache, hyields.closed, ?_, ?_⟩
      · exact lt_of_lt_of_le ha hyields.heap.length_le
      · show modelValue _ a = _
        rw [modelValue_of_grown hs hyields.heap ha, hvalue, ChatModel.fineGrained]
    · rw [hvalue, ChatModel.isAnthropic, if_pos rfl]
      cases hchanged : (withEagerToolStreaming tools s).2.1 with
      | true =>
        rw [if_pos rfl]
        exact hyields
      | false =>
        rw [if_neg Bool.false_ne_true]
        rw [hsame hchanged] at hyields
        exact hyields
  · next m hm =>
    have hvalue : s.modelValue a = .bedrock { m with fields := m.fields.map s.dictAt } := by
      rw [modelValue, hm, ChatModel.map]
    have hserves : ChatBedrock.servesAnthropic env { m with fields := m.fields.map s.dictAt } =
        m.servesAnthropic env := rfl
    have hnot : ¬ (ChatModel.bedrock { m with fields := m.fields.map s.dictAt }).isAnthropic =
        true := Bool.false_ne_true
    rw [hvalue, ChatModel.fineGrained, hserves, if_neg hnot]
    split
    · have hyields : s.Yields (s.withBedrockFineGrainedStreaming a m) _ :=
        yields_withBedrockFineGrainedStreaming hs ha hm
      refine ⟨if (s.withBedrockFineGrainedStreaming a m).1 ≠ a then
        some (s.withBedrockFineGrainedStreaming a m).1 else none, none,
          (s.withBedrockFineGrainedStreaming a m).2, rfl, ?_, ?_⟩
      · have hcopy : (if (s.withBedrockFineGrainedStreaming a m).1 ≠ a then
            some (s.withBedrockFineGrainedStreaming a m).1 else none).getD a =
              (s.withBedrockFineGrainedStreaming a m).1 := by
          split
          · rfl
          · next hsame => exact (not_not.mp hsame).symm
        rw [hcopy]
        exact hyields
      · exact ⟨hyields.heap, hyields.cache, hyields.closed,
          fun b hb => lt_of_lt_of_le (ht b hb) hyields.heap.length_le,
          toolValue_of_grown hyields.heap ht⟩
    · exact ⟨_, _, _, rfl, hvalue ▸ hself, ⟨prefix_rfl, rfl, hs, ht, rfl⟩⟩
  · next m hm =>
    have hvalue : s.modelValue a = .other m := by rw [modelValue, hm, ChatModel.map]
    rw [hvalue] at hself ⊢
    exact ⟨_, _, _, rfl, hself, ⟨prefix_rfl, rfl, hs, ht, rfl⟩⟩

/-- The model that the run asks for, as it is; a name may raise. -/
def resolvedValue (env : ModelEnv) (s : PyState) :
    Option Json → Option (Option (ChatModel RequestFields))
  | none => some none
  | some (.str name) =>
    match s.cache.get? name with
    | some a => some (some (s.modelValue a))
    | none => some (env.initChatModel name)
  | some name => if hashable name then some none else none

theorem resolvedValue_of_grown (hs : s.Closed) (h : s.heap <+: s'.heap)
    (hcache : s'.cache = s.cache) (name : Option Json) :
    s'.resolvedValue env name = s.resolvedValue env name := by
  unfold resolvedValue
  split
  · rfl
  · next name =>
    rw [hcache]
    split
    · next a hget => rw [modelValue_of_grown hs h (hs.cache name a hget)]
    · rfl
  · rfl

/-- A model that was built is a model of the heap. -/
theorem yields_allocModel (hs : s.Closed) (m : ChatModel RequestFields) :
    s.Yields (s.allocModel m) m := by
  unfold allocModel
  split
  · exact yields_alloc hs _ fun b hb => by cases hb
  · next m =>
    split
    · next hnone =>
      have hyields := yields_alloc hs (.bedrock { m with fields := none }) fun b hb f hf => by
        cases hb
        cases hf
      have hvalue : (ChatModel.bedrock { m with fields := none }).map s.dictAt = .bedrock m := by
        rw [ChatModel.map, Option.map_none, ← hnone]
      exact hvalue ▸ hyields
    · next d hsome =>
      have hyields := yields_fields hs { m with fields := none } d
      have hvalue : ({ m with fields := some d } : ChatBedrock RequestFields) = m := by
        rw [← hsome]
      rw [hvalue] at hyields
      have hlength : (s.alloc (.dict d)).heap.length = s.heap.length + 1 := by simp [alloc]
      rw [hlength] at hyields
      exact hyields
  · exact yields_alloc hs _ fun b hb => by cases hb

/-- What the name of a model gives, once and again. -/
structure YieldsNamed (env : ModelEnv) (s : PyState) (name : Option Json) (r : Option ℕ × PyState)
    (v : Option (ChatModel RequestFields)) : Prop where
  heap : s.heap <+: r.2.heap
  closed : r.2.Closed
  lt : ∀ a ∈ r.1, a < r.2.heap.length
  value : r.1.map r.2.modelValue = v
  again : r.2.resolvedValue env name = s.resolvedValue env name

theorem resolveNamed_spec (hs : s.Closed) (name : Option Json) :
    Option.Rel (s.YieldsNamed env name) (resolveNamed env s name) (s.resolvedValue env name) := by
  have hnone : ∀ name, s.YieldsNamed env name (none, s) none := fun name =>
    ⟨prefix_rfl, hs, (fun _ h => by cases h), rfl, rfl⟩
  cases name with
  | none => exact .some (hnone none)
  | some name =>
    cases name with
    | str name =>
      rw [resolveNamed, resolveModel]
      have hvalue : s.resolvedValue env (some (.str name)) = match s.cache.get? name with
        | some a => some (some (s.modelValue a))
        | none => some (env.initChatModel name) := rfl
      split
      · next a hget =>
        rw [hget] at hvalue
        rw [hvalue]
        refine .some ⟨prefix_rfl, hs, fun b hb => ?_, rfl, rfl⟩
        cases hb
        exact hs.cache name a hget
      · next hget =>
        rw [hget] at hvalue
        split
        · next hinit =>
          dsimp only at hvalue
          rw [hinit] at hvalue
          rw [hvalue]
          exact .some (hnone _)
        · next m hinit =>
          dsimp only at hvalue
          rw [hinit] at hvalue
          rw [hvalue]
          have hyields := yields_allocModel hs m
          refine .some ⟨hyields.heap, ⟨hyields.closed.fields, fun name' a hcached => ?_⟩,
            fun a ha => ?_, congrArg some hyields.value, ?_⟩
          · rw [Dict.get?_set] at hcached
            split at hcached
            · cases hcached
              exact hyields.lt
            · exact hyields.closed.cache name' a (hyields.cache ▸ hcached)
          · cases ha
            exact hyields.lt
          · rw [hvalue]
            simp only [resolvedValue, Dict.get?_set_self]
            exact congrArg (fun v => some (some v)) hyields.value
    | null => exact .some (hnone _)
    | bool b => exact .some (hnone _)
    | num q => exact .some (hnone _)
    | arr l => exact .none
    | obj l => exact .none

/-- A request of objects, in a state that has grown. -/
structure YieldsRequest (env : ModelEnv) (s : PyState) (name : Option Json)
    (r : ModelRequest ℕ ℕ × PyState) (v : ModelRequest (ChatModel RequestFields) BaseTool) :
    Prop where
  heap : s.heap <+: r.2.heap
  closed : r.2.Closed
  holds : r.2.Holds r.1
  value : r.2.requestValue r.1 = v
  again : r.2.resolvedValue env name = s.resolvedValue env name

end PyState

open PyState

/-- What `_read_config` says of the streaming of the call. -/
def noStreamingOf (env : ModelEnv) (config : Option RunnableConfig) : Bool :=
  (readConfig env config).1 && (readConfig env config).2.2

/-- The name of the model that the run asks for. -/
def nameOf (env : ModelEnv) (config : Option RunnableConfig) : Option Json :=
  (readConfig env config).2.1

/-- **The middleware on objects is the middleware on values.** -/
theorem maybeOverride_spec (env : ModelEnv) (config : Option RunnableConfig) {s : PyState}
    {request : ModelRequest ℕ ℕ} (hs : s.Closed) (hr : s.Holds request) :
    Option.Rel (s.YieldsRequest env (nameOf env config)) (maybeOverride env config s request)
      ((s.resolvedValue env (nameOf env config)).bind fun resolved =>
        (s.requestValue request).shape env resolved (noStreamingOf env config)) := by
  unfold maybeOverride
  simp only [nameOf, noStreamingOf]
  generalize readConfig env config = read
  obtain ⟨isSubagent, name, disableStreaming⟩ := read
  refine rel_bind (resolveNamed_spec hs name) fun named resolved hnamed => ?_
  obtain ⟨model, s₁⟩ := named
  -- the model that the call would use, with or without streaming
  have hmodel : model.getD request.model < s₁.heap.length := by
    cases hm : model with
    | none => exact lt_of_lt_of_le hr.model hnamed.heap.length_le
    | some a => exact hnamed.lt a hm
  have hbase : s₁.modelValue (model.getD request.model) =
      resolved.getD (s.modelValue request.model) := by
    rw [← hnamed.value]
    cases model with
    | none => exact modelValue_of_grown hs hnamed.heap hr.model
    | some a => rfl
  obtain ⟨override, s₂, heq, h₂⟩ : ∃ override s₂, (if isSubagent && disableStreaming then
      (some (s₁.withoutStreaming (model.getD request.model)).1,
        (s₁.withoutStreaming (model.getD request.model)).2) else (model, s₁)) = (override, s₂) ∧
      s₁.Yields (override.getD request.model, s₂) (if isSubagent && disableStreaming then
        (resolved.getD (s.modelValue request.model)).noStreaming
          else resolved.getD (s.modelValue request.model)) := by
    rw [← hbase]
    cases isSubagent && disableStreaming with
    | true => exact ⟨_, _, rfl, yields_withoutStreaming hnamed.closed _⟩
    | false => exact ⟨_, _, rfl, yields_self hnamed.closed hmodel⟩
  have hdrop := @yields_withThinkingDropBlock env _ _ h₂.closed h₂.lt
  rw [h₂.value] at hdrop
  simp only [heq]
  rw [ModelRequest.shape, Option.map_eq_bind]
  refine rel_bind hdrop fun r effective h₃ => ?_
  obtain ⟨a, s₃⟩ := r
  -- what is older than the call is still there
  have hheap : s₁.heap <+: s₃.heap := h₂.heap.trans h₃.heap
  have htools : ∀ a, .base a ∈ request.tools → a < s₃.heap.length := fun a ha =>
    lt_of_lt_of_le (hr.tools a ha) (hnamed.heap.trans hheap).length_le
  obtain ⟨copy, tools, s₄, heq₄, h₄, h₅⟩ :=
    @fineGrainedOverrides_spec env _ _ h₃.closed h₃.lt _ htools
  simp only [heq₄]
  have hcache : s₄.cache = s₁.cache := h₄.cache.trans (h₃.cache.trans h₂.cache)
  refine .some ⟨hnamed.heap.trans (hheap.trans h₄.heap), h₄.closed, ⟨h₄.lt, h₅.lt⟩, ?_, ?_⟩
  · rw [h₃.value] at h₄ h₅
    rw [requestValue, h₄.value, h₅.value,
      toolValue_of_grown (hnamed.heap.trans hheap) hr.tools]
    rfl
  · show s₄.resolvedValue env name = s.resolvedValue env name
    rw [resolvedValue_of_grown hnamed.closed (hheap.trans h₄.heap) hcache]
    exact hnamed.again

end NextRole
