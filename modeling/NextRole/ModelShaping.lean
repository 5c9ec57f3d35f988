import NextRole.Agents.ModelShape

/-!
# What the shaping of a request keeps

A request is shaped by the model that the call ends up with.  The middleware adds to what is set,
except where a beta list is neither a text nor a list; and it raises where the name of a model or
the type of a thinking configuration cannot be looked up.

## Main definitions

* `KeepsModel`, `KeepsTool` — what is set stays set.
* `ExactlyShaped` — a request that is shaped, once and for all, without loss and in new objects.
* `Shapeable` — the requests of which this holds.

## Main results

* `ModelRequest.shape_shape` — shaping twice is shaping once.
* `readConfig_of_locked` — while the lock is on, the names of models are not read.
* `exactlyShaped_iff` — **a request is exactly shaped iff it is shapeable**.
* `not_exactlyShaped` — a name that is a list.
-/

namespace NextRole

open List PyState

/-! ### Thinking and beta flags -/

/-- The fields that are set stay as they are. -/
def KeepsFields (before after : List (String × Json)) : Prop :=
  ∀ key value, before.lookup key = some value → after.lookup key = some value

theorem keepsFields_append (fields new : List (String × Json)) :
    KeepsFields fields (fields ++ new) := by
  intro key value h
  rw [lookup_append, h, Option.some_or]

theorem isSome_withDropBlock {thinking : Json} {summarized : Bool} :
    (withDropBlock thinking summarized).isSome = true ↔
      ∀ fields, thinking = .obj fields → hashable (thinkingType fields) = true := by
  cases thinking with
  | obj fields =>
    have hiff : (withDropBlock (.obj fields) summarized).isSome = true ↔
        hashable (thinkingType fields) = true := by
      rw [withDropBlock]
      cases hashable (thinkingType fields) with
      | true => cases takesBinding fields <;> simp
      | false => simp
    rw [hiff]
    exact ⟨fun h fields' heq => by cases heq; exact h, fun h => h fields rfl⟩
  | null => simp [withDropBlock]
  | bool b => simp [withDropBlock]
  | num q => simp [withDropBlock]
  | str s => simp [withDropBlock]
  | arr l => simp [withDropBlock]

/-- What is opted in: an adaptive configuration in the place of none, or one more field. -/
theorem withDropBlock_eq_some_some {thinking : Json} {summarized : Bool}
    {fields : List (String × Json)} (h : withDropBlock thinking summarized = some (some fields)) :
    (thinking = .null ∨ ∃ before, thinking = .obj before ∧ KeepsFields before fields) ∧
      ∀ summarized', withDropBlock (.obj fields) summarized' = some none := by
  have hagain : hashable (thinkingType fields) = true →
      (fields.lookup "block_binding").isSome = true →
        ∀ summarized', withDropBlock (.obj fields) summarized' = some none := by
    intro hhash hbound summarized'
    have hnot : takesBinding fields = false := by
      rw [Option.isSome_iff_exists] at hbound
      obtain ⟨binding, hbinding⟩ := hbound
      simp [takesBinding, hbinding]
    simp [withDropBlock, hhash, hnot]
  cases thinking with
  | null =>
    cases h
    refine ⟨.inl rfl, hagain ?_ ?_⟩
    · rfl
    · cases summarized <;> rfl
  | obj before =>
    rw [withDropBlock] at h
    split at h
    · cases h
    · next hhash =>
      split at h
      · cases h
        have htype : thinkingType (before ++ [("block_binding", dropBlockBinding)]) =
            thinkingType before := by
          simp [thinkingType, lookup_append, List.lookup_cons]
        refine ⟨.inr ⟨before, rfl, keepsFields_append before _⟩, hagain ?_ ?_⟩
        · rw [htype]
          simpa using hhash
        · rw [lookup_append, Option.isSome_or]
          exact Bool.or_true _
      · cases h
  | bool b => cases h
  | num q => cases h
  | str s => cases h
  | arr l => cases h

theorem mem_withBeta {betas : Json} {flag : String} {items : List Json}
    (h : withBeta betas flag = some items) :
    items = betaItems betas ++ [.str flag] ∧ .str flag ∉ betaItems betas := by
  rw [withBeta] at h
  split at h
  · cases h
  · next hnot => exact ⟨(Option.some.inj h).symm, hnot⟩

theorem withBeta_eq_none {betas : Json} {flag : String} :
    withBeta betas flag = none ↔ .str flag ∈ betaItems betas := by
  rw [withBeta]
  split
  · next hmem => simp [hmem]
  · next hnot => simp [hnot]

/-- A value of a beta list that is not lost: none, a text or a list. -/
def isBetas : Json → Bool
  | .null | .str _ | .arr _ => true
  | _ => false

/-- A beta list keeps its flags, and what is no beta list stays as it is. -/
def KeepsBetas (before after : Json) : Prop :=
  (∀ flag ∈ betaItems before, flag ∈ betaItems after) ∧ (isBetas before = false → after = before)

/-- A thinking configuration keeps its fields, and what is neither one nor null stays as it is. -/
def KeepsThinking (before after : Json) : Prop :=
  (∀ fields, before = .obj fields → ∃ fields', after = .obj fields' ∧ KeepsFields fields fields') ∧
    (before ≠ .null → (∀ fields, before ≠ .obj fields) → after = before)

/-- A model keeps what is set, apart from its streaming. -/
def KeepsModel : ChatModel RequestFields → ChatModel RequestFields → Prop
  | .anthropic m, .anthropic m' =>
    { m' with
        thinking := m.thinking, betas := m.betas, disableStreaming := m.disableStreaming } = m ∧
      KeepsBetas (m.betas.elim .null .arr) (m'.betas.elim .null .arr) ∧
        KeepsThinking (m.thinking.elim .null .obj) (m'.thinking.elim .null .obj)
  | .bedrock m, .bedrock m' =>
    { m' with fields := m.fields, disableStreaming := m.disableStreaming } = m ∧
      (∀ key, key ≠ "anthropic_beta" → key ≠ "thinking" →
        (m'.fields.getD {}).get? key = (m.fields.getD {}).get? key) ∧
      KeepsBetas (m.field "anthropic_beta") (m'.field "anthropic_beta") ∧
        KeepsThinking (m.field "thinking") (m'.field "thinking")
  | .other m, .other m' => { m' with disableStreaming := m.disableStreaming } = m
  | _, _ => False

/-- A tool keeps its extras, and all else. -/
def KeepsTool : RequestTool BaseTool → RequestTool BaseTool → Prop
  | .dict spec, .dict spec' => spec' = spec
  | .base t, .base t' => { t' with extras := t.extras } = t ∧
      ∀ key value, (t.extras.getD {}).get? key = some value →
        (t'.extras.getD {}).get? key = some value
  | _, _ => False

/-! ### Twice is once -/

namespace ChatBedrock

variable {env : ModelEnv} {m m' : ChatBedrock RequestFields}

theorem field_set (m : ChatBedrock RequestFields) (d : Dict String Json) (k key : String)
    (value : Json) :
    ({ m with fields := some (d.set k value) } : ChatBedrock RequestFields).field key =
      if key = k then value else (d.get? key).getD .null := by
  simp only [field, Option.getD_some, Dict.get?_set]
  split
  · rfl
  · rfl

/-- Whether there is nothing to do about thinking. -/
def Bound (env : ModelEnv) (m : ChatBedrock RequestFields) : Prop :=
  bindsThinkingToPrefix env m.ids = true → withDropBlock (m.field "thinking") false = some none

theorem Bound.dropBlock (h : m.Bound env) : m.dropBlock env = some m := by
  rw [ChatBedrock.dropBlock]
  cases hids : bindsThinkingToPrefix env m.ids with
  | false => rfl
  | true => simp [h hids]

/-- **What a model is made of that is opted in**: the model itself, or one with a binding. -/
theorem dropBlock_eq_some (h : m.dropBlock env = some m') : m'.Bound env ∧
    (m' = m ∨ ∃ fields, withDropBlock (m.field "thinking") false = some (some fields) ∧
      m' = { m with fields := some (((m.fields.getD {}).set "thinking" (.obj fields)).set
        "anthropic_beta" ((withBeta (m.field "anthropic_beta") thinkingBindingBeta).elim
          (m.field "anthropic_beta") .arr)) }) := by
  rw [ChatBedrock.dropBlock] at h
  cases hids : bindsThinkingToPrefix env m.ids with
  | false =>
    rw [hids] at h
    cases h
    refine ⟨fun hbinds => ?_, .inl rfl⟩
    rw [hids] at hbinds
    cases hbinds
  | true =>
    rw [hids] at h
    obtain ⟨thinking, hthinking, rfl⟩ := Option.map_eq_some_iff.mp h
    cases thinking with
    | none => exact ⟨fun _ => hthinking, .inl rfl⟩
    | some fields =>
      refine ⟨fun _ => ?_, .inr ⟨fields, hthinking, rfl⟩⟩
      rw [field_set, if_neg (by decide), Dict.get?_set_self]
      exact (withDropBlock_eq_some_some hthinking).2 false

theorem fineGrained_eq (m : ChatBedrock RequestFields) :
    (m.fineGrained = m ∧ .str fineGrainedToolStreamingBeta ∈ betaItems (m.field "anthropic_beta")) ∨
      m.fineGrained = { m with fields := some ((m.fields.getD {}).set "anthropic_beta"
        (.arr (betaItems (m.field "anthropic_beta") ++
          [.str fineGrainedToolStreamingBeta]))) } := by
  rw [fineGrained]
  split
  · next hset => exact .inl ⟨rfl, withBeta_eq_none.mp hset⟩
  · next items hitems =>
    rw [(mem_withBeta hitems).1]
    exact .inr rfl

theorem field_fineGrained (m : ChatBedrock RequestFields) {key : String}
    (h : key ≠ "anthropic_beta") : m.fineGrained.field key = m.field key := by
  rcases m.fineGrained_eq with ⟨heq, -⟩ | heq
  · rw [heq]
  · rw [heq, field_set, if_neg h]
    rfl

theorem mem_betaItems_fineGrained (m : ChatBedrock RequestFields) {flag : Json} :
    flag ∈ betaItems (m.fineGrained.field "anthropic_beta") ↔
      flag ∈ betaItems (m.field "anthropic_beta") ∨ flag = .str fineGrainedToolStreamingBeta := by
  rcases m.fineGrained_eq with ⟨heq, hmem⟩ | heq
  · rw [heq]
    exact ⟨.inl, fun h => h.elim id fun heq => heq ▸ hmem⟩
  · rw [heq, field_set, if_pos rfl, betaItems, mem_append, mem_singleton]

theorem fineGrained_fineGrained (m : ChatBedrock RequestFields) :
    m.fineGrained.fineGrained = m.fineGrained := by
  have hset : withBeta (m.fineGrained.field "anthropic_beta") fineGrainedToolStreamingBeta = none :=
    withBeta_eq_none.mpr (m.mem_betaItems_fineGrained.mpr (.inr rfl))
  conv_lhs => rw [fineGrained, hset]

theorem Bound.fineGrained (h : m.Bound env) : m.fineGrained.Bound env := by
  intro hids
  rw [field_fineGrained m (by decide)]
  apply h
  rcases m.fineGrained_eq with ⟨heq, -⟩ | heq
  · rwa [heq] at hids
  · rwa [heq] at hids

end ChatBedrock

namespace ChatAnthropic

variable {env : ModelEnv} {m m' : ChatAnthropic}

/-- Whether there is nothing to do about thinking. -/
def Bound (env : ModelEnv) (m : ChatAnthropic) : Prop :=
  bindsThinkingToPrefix env m.model = true →
    withDropBlock (m.thinking.elim .null .obj) (m.reasoningEffort.getD "" ≠ "") = some none

theorem Bound.dropBlock (h : m.Bound env) : m.dropBlock env = some m := by
  rw [ChatAnthropic.dropBlock]
  cases hmodel : bindsThinkingToPrefix env m.model with
  | false => rfl
  | true =>
    rw [if_neg (by decide), h hmodel]
    rfl

theorem dropBlock_eq_some (h : m.dropBlock env = some m') : m'.Bound env ∧
    (m' = m ∨ ∃ fields, withDropBlock (m.thinking.elim .null .obj)
        (m.reasoningEffort.getD "" ≠ "") = some (some fields) ∧
      m' = { m with
        thinking := some fields
        betas := (withBeta (m.betas.elim .null .arr) thinkingBindingBeta).or m.betas }) := by
  rw [ChatAnthropic.dropBlock] at h
  cases hmodel : bindsThinkingToPrefix env m.model with
  | false =>
    rw [hmodel] at h
    cases h
    refine ⟨fun hbinds => ?_, .inl rfl⟩
    rw [hmodel] at hbinds
    cases hbinds
  | true =>
    rw [hmodel] at h
    obtain ⟨thinking, hthinking, rfl⟩ := Option.map_eq_some_iff.mp h
    cases thinking with
    | none => exact ⟨fun _ => hthinking, .inl rfl⟩
    | some fields =>
      exact ⟨fun _ => (withDropBlock_eq_some_some hthinking).2 _, .inr ⟨fields, hthinking, rfl⟩⟩

end ChatAnthropic

namespace ChatModel

variable {env : ModelEnv} {m m' : ChatModel RequestFields}

/-- What a model has whatever its provider. -/
def settings {φ : Type} : ChatModel φ → ChatSettings
  | .anthropic m => m.toChatSettings
  | .bedrock m => m.toChatSettings
  | .other m => m

/-- Whether there is nothing to do. -/
def Settled (env : ModelEnv) : ChatModel RequestFields → Prop
  | .anthropic m => m.Bound env
  | .bedrock m => m.servesAnthropic env = true → m.Bound env ∧ m.fineGrained = m
  | .other _ => True

theorem Settled.dropBlock (h : m.Settled env) : m.dropBlock env = some m := by
  cases m with
  | anthropic m =>
    rw [ChatModel.dropBlock, ChatAnthropic.Bound.dropBlock h]
    rfl
  | other m => rfl
  | bedrock m =>
    rw [ChatModel.dropBlock]
    split
    · next hserves =>
      rw [(h hserves).1.dropBlock]
      rfl
    · rfl

theorem Settled.fineGrained (h : m.Settled env) : m.fineGrained env = m := by
  cases m with
  | anthropic m => rfl
  | other m => rfl
  | bedrock m =>
    rw [ChatModel.fineGrained]
    split
    · next hserves => rw [(h hserves).2]
    · rfl

/-- After both rewrites there is nothing to do. -/
theorem settled_fineGrained (h : m.dropBlock env = some m') : (m'.fineGrained env).Settled env := by
  cases m with
  | anthropic m =>
    obtain ⟨n, hn, rfl⟩ := Option.map_eq_some_iff.mp h
    exact (ChatAnthropic.dropBlock_eq_some hn).1
  | other m =>
    cases h
    trivial
  | bedrock m =>
    rw [ChatModel.dropBlock] at h
    split at h
    · obtain ⟨n, hn, rfl⟩ := Option.map_eq_some_iff.mp h
      rw [ChatModel.fineGrained]
      split
      · exact fun _ => ⟨(ChatBedrock.dropBlock_eq_some hn).1.fineGrained,
          n.fineGrained_fineGrained⟩
      · next hnot => exact fun hserves => absurd hserves hnot
    · next hnot =>
      cases h
      rw [ChatModel.fineGrained, if_neg hnot]
      exact fun hserves => absurd hserves hnot

theorem settings_fineGrained (m : ChatModel RequestFields) :
    (m.fineGrained env).settings = m.settings := by
  cases m with
  | anthropic m => rfl
  | other m => rfl
  | bedrock m =>
    rw [ChatModel.fineGrained]
    split
    · rcases m.fineGrained_eq with ⟨heq, -⟩ | heq
      · rw [heq]
      · rw [heq]
        rfl
    · rfl

theorem settings_dropBlock (h : m.dropBlock env = some m') : m'.settings = m.settings := by
  cases m with
  | anthropic m =>
    obtain ⟨n, hn, rfl⟩ := Option.map_eq_some_iff.mp h
    rcases (ChatAnthropic.dropBlock_eq_some hn).2 with rfl | ⟨fields, -, rfl⟩
    · rfl
    · rfl
  | other m =>
    cases h
    rfl
  | bedrock m =>
    rw [ChatModel.dropBlock] at h
    split at h
    · obtain ⟨n, hn, rfl⟩ := Option.map_eq_some_iff.mp h
      rcases (ChatBedrock.dropBlock_eq_some hn).2 with rfl | ⟨fields, -, rfl⟩
      · rfl
      · rfl
    · cases h
      rfl

theorem noStreaming_of_settings {φ : Type} {m : ChatModel φ}
    (h : m.settings.disableStreaming = .bool true) : m.noStreaming = m := by
  cases m with
  | anthropic m => exact congrArg ChatModel.anthropic (by rw [← h]; rfl)
  | bedrock m => exact congrArg ChatModel.bedrock (by rw [← h]; rfl)
  | other m => exact congrArg ChatModel.other (by rw [← h]; rfl)

theorem settings_noStreaming {φ : Type} (m : ChatModel φ) :
    m.noStreaming.settings.disableStreaming = .bool true := by
  cases m <;> rfl

theorem isAnthropic_fineGrained (m : ChatModel RequestFields) :
    (m.fineGrained env).isAnthropic = m.isAnthropic := by
  cases m with
  | anthropic m => rfl
  | other m => rfl
  | bedrock m =>
    rw [ChatModel.fineGrained]
    split
    · rfl
    · rfl

end ChatModel

theorem BaseTool.setsEager_optIn (t : BaseTool) : t.optIn.setsEager = true := by
  simp [optIn, setsEager]

theorem BaseTool.setsEager_eager (t : BaseTool) : t.eager.setsEager = true := by
  rw [eager]
  split
  · assumption
  · exact t.setsEager_optIn

theorem RequestTool.eager_eager (t : RequestTool BaseTool) : t.eager.eager = t.eager := by
  cases t with
  | dict spec => rfl
  | base t => exact congrArg RequestTool.base (if_pos t.setsEager_eager)

/-- **Shaping twice is shaping once.** -/
theorem ModelRequest.shape_shape {env : ModelEnv} {resolved : Option (ChatModel RequestFields)}
    {noStreaming : Bool} {r r' : ModelRequest (ChatModel RequestFields) BaseTool}
    (h : r.shape env resolved noStreaming = some r') :
    r'.shape env resolved noStreaming = some r' := by
  obtain ⟨effective, heffective, rfl⟩ := Option.map_eq_some_iff.mp h
  have htools : ∀ tools : List (RequestTool BaseTool),
      (tools.map RequestTool.eager).map RequestTool.eager = tools.map RequestTool.eager := by
    intro tools
    rw [map_map]
    exact map_congr_left fun t _ => t.eager_eager
  have hagain : ∀ tools : List (RequestTool BaseTool), (if effective.isAnthropic then
      (if effective.isAnthropic then tools.map RequestTool.eager else tools).map RequestTool.eager
      else (if effective.isAnthropic then tools.map RequestTool.eager else tools)) =
        if effective.isAnthropic then tools.map RequestTool.eager else tools := by
    intro tools
    split
    · exact htools tools
    · rfl
  rw [ModelRequest.shape]
  cases resolved with
  | some base =>
    dsimp only [Option.getD_some] at heffective ⊢
    rw [heffective, Option.map_some, hagain]
  | none =>
    -- the model is the one that the first time has made
    dsimp only [Option.getD_none] at heffective ⊢
    have hsettled := ChatModel.settled_fineGrained heffective
    have hstreaming : (if noStreaming then (effective.fineGrained env).noStreaming
        else effective.fineGrained env) = effective.fineGrained env := by
      cases noStreaming with
      | false => rfl
      | true =>
        rw [if_pos rfl] at heffective ⊢
        apply ChatModel.noStreaming_of_settings
        rw [ChatModel.settings_fineGrained, ChatModel.settings_dropBlock heffective,
          ChatModel.settings_noStreaming]
    rw [hstreaming, hsettled.dropBlock, Option.map_some, hsettled.fineGrained,
      ChatModel.isAnthropic_fineGrained, hagain]

/-! ### What is kept -/

theorem keepsFields_self (fields : List (String × Json)) : KeepsFields fields fields :=
  fun _ _ h => h

theorem keepsThinking_self (thinking : Json) : KeepsThinking thinking thinking :=
  ⟨fun fields heq => ⟨fields, heq, keepsFields_self fields⟩, fun _ _ => rfl⟩

theorem keepsBetas_self (betas : Json) : KeepsBetas betas betas := ⟨fun _ h => h, fun _ => rfl⟩

theorem keepsThinking_withDropBlock {thinking : Json} {summarized : Bool}
    {fields : List (String × Json)} (h : withDropBlock thinking summarized = some (some fields)) :
    KeepsThinking thinking (.obj fields) := by
  rcases (withDropBlock_eq_some_some h).1 with rfl | ⟨before, rfl, hkeeps⟩
  · exact ⟨fun _ heq => (by cases heq), fun hnull => absurd rfl hnull⟩
  · refine ⟨fun fields' heq => ?_, fun _ hnot => absurd rfl (hnot before)⟩
    cases heq
    exact ⟨fields, rfl, hkeeps⟩

theorem mem_betaItems_withBeta {betas item : Json} (flag : String) (h : item ∈ betaItems betas) :
    item ∈ betaItems ((withBeta betas flag).elim betas .arr) := by
  cases hwith : withBeta betas flag with
  | none => exact h
  | some items =>
    rw [Option.elim_some, (mem_withBeta hwith).1]
    exact mem_append_left _ h

theorem isBetas_withBeta {betas : Json} (flag : String) (h : isBetas betas = true) :
    isBetas ((withBeta betas flag).elim betas .arr) = true := by
  cases withBeta betas flag with
  | none => exact h
  | some items => rfl

theorem KeepsBetas.trans {a b c : Json} (h : KeepsBetas a b) (h' : KeepsBetas b c) :
    KeepsBetas a c := by
  refine ⟨fun flag hflag => h'.1 flag (h.1 flag hflag), fun hnot => ?_⟩
  obtain rfl := h.2 hnot
  exact h'.2 hnot

theorem KeepsThinking.trans {a b c : Json} (h : KeepsThinking a b) (h' : KeepsThinking b c) :
    KeepsThinking a c := by
  refine ⟨fun fields ha => ?_, fun hnull hnot => ?_⟩
  · obtain ⟨fields', hb, hkeeps⟩ := h.1 fields ha
    obtain ⟨fields'', hc, hkeeps'⟩ := h'.1 fields' hb
    exact ⟨fields'', hc, fun key value hset => hkeeps' key value (hkeeps key value hset)⟩
  · obtain rfl := h.2 hnull hnot
    exact h'.2 hnull hnot

/-- Whether the type of a thinking configuration can be looked up. -/
def HashableType (thinking : Json) : Prop :=
  ∀ fields, thinking = .obj fields → hashable (thinkingType fields) = true

namespace ChatBedrock

variable {env : ModelEnv} {m m' : ChatBedrock RequestFields}

theorem isSome_dropBlock : (m.dropBlock env).isSome = true ↔
    (bindsThinkingToPrefix env m.ids = true → HashableType (m.field "thinking")) := by
  rw [dropBlock]
  cases bindsThinkingToPrefix env m.ids with
  | false => simp
  | true =>
    rw [if_neg (by decide), Option.isSome_map, isSome_withDropBlock]
    simp [HashableType]

/-- **What is opted in keeps what is set**, where the betas are betas. -/
theorem keepsModel_dropBlock (h : m.dropBlock env = some m')
    (hbetas : isBetas (m.field "anthropic_beta") = true) :
    KeepsModel (.bedrock m) (.bedrock m') ∧ isBetas (m'.field "anthropic_beta") = true := by
  rcases (dropBlock_eq_some h).2 with rfl | ⟨fields, hfields, rfl⟩
  · exact ⟨⟨rfl, fun _ _ _ => rfl, keepsBetas_self _, keepsThinking_self _⟩, hbetas⟩
  · rw [field_set, if_pos rfl]
    refine ⟨⟨rfl, fun key hbeta hthinking => ?_, ⟨fun flag hflag => ?_, fun hnot => ?_⟩, ?_⟩, ?_⟩
    · rw [Option.getD_some, Dict.get?_set_of_ne _ _ hbeta, Dict.get?_set_of_ne _ _ hthinking]
    · rw [field_set, if_pos rfl]
      exact mem_betaItems_withBeta _ hflag
    · rw [hbetas] at hnot
      cases hnot
    · rw [field_set, if_neg (by decide), Dict.get?_set_self]
      exact keepsThinking_withDropBlock hfields
    · exact isBetas_withBeta _ hbetas

theorem keepsModel_fineGrained (hbetas : isBetas (m.field "anthropic_beta") = true) :
    KeepsModel (.bedrock m) (.bedrock m.fineGrained) := by
  have hflags : KeepsBetas (m.field "anthropic_beta") (m.fineGrained.field "anthropic_beta") := by
    refine ⟨fun flag hflag => m.mem_betaItems_fineGrained.mpr (.inl hflag), fun hnot => ?_⟩
    rw [hbetas] at hnot
    cases hnot
  have hthinking : KeepsThinking (m.field "thinking") (m.fineGrained.field "thinking") := by
    rw [field_fineGrained m (by decide)]
    exact keepsThinking_self _
  rcases m.fineGrained_eq with ⟨heq, -⟩ | heq
  · rw [heq] at hflags hthinking ⊢
    exact ⟨rfl, fun _ _ _ => rfl, hflags, hthinking⟩
  · rw [heq] at hflags hthinking ⊢
    refine ⟨rfl, fun key hbeta _ => ?_, hflags, hthinking⟩
    rw [Option.getD_some, Dict.get?_set_of_ne _ _ hbeta]

/-- A beta list that is none is lost. -/
theorem isBetas_of_keepsBetas
    (h : KeepsBetas (m.field "anthropic_beta") (m'.fineGrained.field "anthropic_beta")) :
    isBetas (m.field "anthropic_beta") = true := by
  by_contra hnot
  rw [Bool.not_eq_true] at hnot
  have hflag := m'.mem_betaItems_fineGrained.mpr (.inr rfl)
  rw [h.2 hnot] at hflag
  cases hbeta : m.field "anthropic_beta" with
  | bool b => rw [hbeta] at hflag; cases hflag
  | num q => rw [hbeta] at hflag; cases hflag
  | obj l => rw [hbeta] at hflag; cases hflag
  | null => rw [hbeta] at hnot; cases hnot
  | str s => rw [hbeta] at hnot; cases hnot
  | arr l => rw [hbeta] at hnot; cases hnot

end ChatBedrock

namespace ChatAnthropic

variable {env : ModelEnv} {m m' : ChatAnthropic}

theorem isSome_dropBlock : (m.dropBlock env).isSome = true ↔
    (bindsThinkingToPrefix env m.model = true → HashableType (m.thinking.elim .null .obj)) := by
  rw [dropBlock]
  cases bindsThinkingToPrefix env m.model with
  | false => simp
  | true =>
    rw [if_neg (by decide), Option.isSome_map, isSome_withDropBlock]
    simp [HashableType]

theorem keepsModel_dropBlock (h : m.dropBlock env = some m') :
    KeepsModel (.anthropic m) (.anthropic m') := by
  rcases (dropBlock_eq_some h).2 with rfl | ⟨fields, hfields, rfl⟩
  · exact ⟨rfl, keepsBetas_self _, keepsThinking_self _⟩
  · refine ⟨rfl, ⟨fun flag hflag => ?_, fun hnot => ?_⟩, keepsThinking_withDropBlock hfields⟩
    · have hmem := mem_betaItems_withBeta thinkingBindingBeta hflag
      cases hwith : withBeta (m.betas.elim .null .arr) thinkingBindingBeta with
      | none => exact hflag
      | some items =>
        rw [hwith] at hmem
        exact hmem
    · cases hm : m.betas with
      | none => rw [hm] at hnot; cases hnot
      | some items => rw [hm] at hnot; cases hnot

end ChatAnthropic

namespace ChatModel

variable {env : ModelEnv} {m m' : ChatModel RequestFields}

/-- The models that are shaped without loss: the type of their thinking can be looked up, and their
betas are a text or a list. -/
def Shapeable (env : ModelEnv) : ChatModel RequestFields → Prop
  | .anthropic m =>
    bindsThinkingToPrefix env m.model = true → HashableType (m.thinking.elim .null .obj)
  | .bedrock m => m.servesAnthropic env = true → isBetas (m.field "anthropic_beta") = true ∧
      (bindsThinkingToPrefix env m.ids = true → HashableType (m.field "thinking"))
  | .other _ => True

theorem servesAnthropic_dropBlock {m m' : ChatBedrock RequestFields}
    (h : m.dropBlock env = some m') : m'.servesAnthropic env = m.servesAnthropic env := by
  rcases (ChatBedrock.dropBlock_eq_some h).2 with rfl | ⟨fields, -, rfl⟩
  · rfl
  · rfl

/-- **A model is rewritten without loss iff it is shapeable.** -/
theorem keepsModel_iff : (∃ m', m.dropBlock env = some m' ∧ KeepsModel m (m'.fineGrained env)) ↔
    m.Shapeable env := by
  cases m with
  | other m => exact ⟨fun _ => trivial, fun _ => ⟨.other m, rfl, rfl⟩⟩
  | anthropic m =>
    rw [Shapeable, ← ChatAnthropic.isSome_dropBlock, Option.isSome_iff_exists]
    constructor
    · rintro ⟨m', h, -⟩
      obtain ⟨n, hn, -⟩ := Option.map_eq_some_iff.mp h
      exact ⟨n, hn⟩
    · rintro ⟨n, hn⟩
      exact ⟨.anthropic n, Option.map_eq_some_iff.mpr ⟨n, hn, rfl⟩,
        ChatAnthropic.keepsModel_dropBlock hn⟩
  | bedrock m =>
    rw [Shapeable, ← ChatBedrock.isSome_dropBlock, Option.isSome_iff_exists]
    cases hserves : m.servesAnthropic env with
    | false =>
      refine ⟨fun _ h => (by cases h), fun _ => ⟨.bedrock m, ?_, ?_⟩⟩
      · rw [dropBlock, hserves, if_neg Bool.false_ne_true]
      · rw [ChatModel.fineGrained, hserves, if_neg Bool.false_ne_true]
        exact ⟨rfl, fun _ _ _ => rfl, keepsBetas_self _, keepsThinking_self _⟩
    | true =>
      have hgrained : ∀ n, m.dropBlock env = some n →
          (ChatModel.bedrock n).fineGrained env = .bedrock n.fineGrained := by
        intro n hn
        rw [ChatModel.fineGrained, servesAnthropic_dropBlock hn, hserves, if_pos rfl]
      rw [dropBlock, hserves, if_pos rfl]
      constructor
      · rintro ⟨m', h, hkeeps⟩ -
        obtain ⟨n, hn, rfl⟩ := Option.map_eq_some_iff.mp h
        rw [hgrained n hn] at hkeeps
        exact ⟨ChatBedrock.isBetas_of_keepsBetas hkeeps.2.2.1, n, hn⟩
      · intro h
        obtain ⟨hbetas, n, hn⟩ := h rfl
        refine ⟨.bedrock n, Option.map_eq_some_iff.mpr ⟨n, hn, rfl⟩, ?_⟩
        rw [hgrained n hn]
        obtain ⟨hdrop, hbetas'⟩ := ChatBedrock.keepsModel_dropBlock hn hbetas
        have hgrain := ChatBedrock.keepsModel_fineGrained hbetas'
        refine ⟨?_, fun key hbeta hthinking => ?_, hdrop.2.2.1.trans hgrain.2.2.1,
          hdrop.2.2.2.trans hgrain.2.2.2⟩
        · calc ({ n.fineGrained with
                fields := m.fields, disableStreaming := m.disableStreaming } : ChatBedrock _)
              = { ({ n.fineGrained with
                    fields := n.fields, disableStreaming := n.disableStreaming } :
                  ChatBedrock _) with
                fields := m.fields, disableStreaming := m.disableStreaming } := rfl
            _ = { n with fields := m.fields, disableStreaming := m.disableStreaming } := by
              rw [hgrain.1]
            _ = m := hdrop.1
        · rw [hgrain.2.1 key hbeta hthinking, hdrop.2.1 key hbeta hthinking]

theorem keepsModel_noStreaming : KeepsModel m.noStreaming m' ↔ KeepsModel m m' := by
  cases m with
  | anthropic m =>
    obtain ⟨⟨disableStreaming, others⟩, model, thinking, betas, effort⟩ := m
    cases m' <;> simp [noStreaming, KeepsModel]
  | bedrock m =>
    obtain ⟨⟨disableStreaming, others⟩, converse, modelId, baseModelId, provider, fields⟩ := m
    cases m' <;> simp [noStreaming, KeepsModel, ChatBedrock.field]
  | other m =>
    obtain ⟨disableStreaming, others⟩ := m
    cases m' <;> simp [noStreaming, KeepsModel]

theorem shapeable_noStreaming : m.noStreaming.Shapeable env ↔ m.Shapeable env := by
  cases m <;> exact Iff.rfl

end ChatModel

theorem keepsTool_self (t : RequestTool BaseTool) : KeepsTool t t := by
  cases t with
  | dict spec => rfl
  | base t => exact ⟨rfl, fun _ _ h => h⟩

/-- A tool that is opted in sets one more key. -/
theorem keepsTool_eager (t : RequestTool BaseTool) : KeepsTool t t.eager := by
  cases t with
  | dict spec => rfl
  | base t =>
    rw [RequestTool.eager, BaseTool.eager]
    split
    · exact keepsTool_self (.base t)
    · next hunset =>
      refine ⟨rfl, fun key value hset => ?_⟩
      rw [BaseTool.optIn, Option.getD_some, Dict.get?_set]
      split
      · next heq =>
        rw [BaseTool.setsEager, ← heq, hset] at hunset
        exact absurd rfl hunset
      · exact hset

/-! ### The lock -/

/-- Two configurations that differ only in the names of models. -/
def SameButModels : Option RunnableConfig → Option RunnableConfig → Prop
  | none, none => True
  | some c, some c' => c'.metadata = c.metadata ∧
      ∀ key, key ≠ "main_agent_model" → key ≠ "subagent_model" →
        c'.configurable.lookup key = c.configurable.lookup key
  | _, _ => False

/-- **While the lock is on**, the configuration is read without the names of models. -/
theorem readConfig_of_locked {env : ModelEnv} {config config' : Option RunnableConfig}
    (hlocked : modelOverrideEnabled env = false) (h : SameButModels config config') :
    readConfig env config' = readConfig env config := by
  cases config with
  | none =>
    cases config' with
    | none => rfl
    | some c' => cases h
  | some c =>
    cases config' with
    | none => cases h
    | some c' =>
      obtain ⟨hmetadata, hlookup⟩ := h
      simp only [readConfig, hlocked, hmetadata,
        hlookup "disable_subagent_streaming" (by decide) (by decide)]
      rfl

/-! ### Exactly shaped -/

/-- What is older than a state is as it was. -/
def Unmodified (s s' : PyState) : Prop := ∀ a < s.heap.length, s'.heap[a]? = s.heap[a]?

/-- A request is shaped: nothing changes when it is shaped again, no object is modified, nothing
that is set is lost, and the names of models make no difference while the lock is on. -/
structure ExactlyShaped (env : ModelEnv) (config : Option RunnableConfig) (s : PyState)
    (request : ModelRequest ℕ ℕ) : Prop where
  shaped : ∃ result s' resolved again s'',
    maybeOverride env config s request = some (result, s') ∧
    s.resolvedValue env (nameOf env config) = some resolved ∧
    maybeOverride env config s' result = some (again, s'') ∧
    s''.requestValue again = s'.requestValue result ∧
    Unmodified s s' ∧ Unmodified s' s'' ∧
    KeepsModel (resolved.getD (s.modelValue request.model)) (s'.modelValue result.model) ∧
    Forall₂ KeepsTool (request.tools.map s.toolValue) (result.tools.map s'.toolValue) ∧
    result.others = request.others
  locked : modelOverrideEnabled env = false → ∀ config', SameButModels config config' →
    maybeOverride env config' s request = maybeOverride env config s request

/-- The requests whose model is shapeable: the one that is asked for if it can be looked up and
built, else their own. -/
def Shapeable (env : ModelEnv) (config : Option RunnableConfig) (s : PyState)
    (request : ModelRequest ℕ ℕ) : Prop :=
  ∃ resolved, s.resolvedValue env (nameOf env config) = some resolved ∧
    (resolved.getD (s.modelValue request.model)).Shapeable env

theorem forall₂_keepsTool (eager : Bool) (tools : List (RequestTool BaseTool)) :
    Forall₂ KeepsTool tools (if eager then tools.map RequestTool.eager else tools) := by
  cases eager with
  | true =>
    rw [if_pos rfl, forall₂_map_right_iff, forall₂_same]
    exact fun t _ => keepsTool_eager t
  | false =>
    rw [if_neg Bool.false_ne_true, forall₂_same]
    exact fun t _ => keepsTool_self t

theorem keepsModel_streaming_iff {env : ModelEnv} {base : ChatModel RequestFields}
    (noStreaming : Bool) :
    (∃ effective, (if noStreaming then base.noStreaming else base).dropBlock env = some effective ∧
      KeepsModel base (effective.fineGrained env)) ↔ base.Shapeable env := by
  cases noStreaming with
  | true =>
    rw [if_pos rfl, ← ChatModel.shapeable_noStreaming, ← ChatModel.keepsModel_iff]
    simp only [ChatModel.keepsModel_noStreaming]
  | false =>
    rw [if_neg Bool.false_ne_true]
    exact ChatModel.keepsModel_iff

theorem unmodified_of_grown {s s' : PyState} (h : s.heap <+: s'.heap) : Unmodified s s' :=
  fun _ ha => getElem?_of_grown h ha

/-- **A request is exactly shaped iff it is shapeable.** -/
theorem exactlyShaped_iff (env : ModelEnv) (config : Option RunnableConfig) (s : PyState)
    (request : ModelRequest ℕ ℕ) (hs : s.Closed) (hr : s.Holds request) :
    ExactlyShaped env config s request ↔ Shapeable env config s request := by
  have hspec := maybeOverride_spec env config hs hr
  constructor
  · rintro ⟨⟨result, s', resolved, again, s'', hfirst, hresolved, -, -, -, -, hkeeps, -, -⟩, -⟩
    refine ⟨resolved, hresolved, (keepsModel_streaming_iff (noStreamingOf env config)).mp ?_⟩
    rw [hfirst, hresolved, Option.bind_some, ModelRequest.shape] at hspec
    cases heffective : (if noStreamingOf env config then
        (resolved.getD (s.requestValue request).model).noStreaming
          else resolved.getD (s.requestValue request).model).dropBlock env with
    | none =>
      rw [heffective] at hspec
      cases hspec
    | some effective =>
      rw [heffective] at hspec
      obtain ⟨hyields⟩ := hspec
      refine ⟨effective, heffective, ?_⟩
      have hmodel : s'.modelValue result.model = effective.fineGrained env :=
        congrArg ModelRequest.model hyields.value
      exact hmodel ▸ hkeeps
  · rintro ⟨resolved, hresolved, hshapeable⟩
    obtain ⟨effective, heffective, hkeeps⟩ :=
      (keepsModel_streaming_iff (noStreamingOf env config)).mpr hshapeable
    have hshape : (s.requestValue request).shape env resolved (noStreamingOf env config) = some
        { s.requestValue request with
          model := effective.fineGrained env
          tools := if effective.isAnthropic then
            (s.requestValue request).tools.map RequestTool.eager
              else (s.requestValue request).tools } := by
      rw [ModelRequest.shape]
      exact Option.map_eq_some_iff.mpr ⟨effective, heffective, rfl⟩
    rw [hresolved, Option.bind_some, hshape] at hspec
    cases hfirst : maybeOverride env config s request with
    | none =>
      rw [hfirst] at hspec
      cases hspec
    | some first =>
      obtain ⟨result, s'⟩ := first
      rw [hfirst] at hspec
      obtain ⟨hyields⟩ := hspec
      -- the second time the same model is asked for, of a request that is shaped
      have hspec' := maybeOverride_spec env config hyields.closed hyields.holds
      rw [hyields.again, hresolved, Option.bind_some, hyields.value,
        ModelRequest.shape_shape hshape] at hspec'
      cases hsecond : maybeOverride env config s' result with
      | none =>
        rw [hsecond] at hspec'
        cases hspec'
      | some second =>
        obtain ⟨again, s''⟩ := second
        rw [hsecond] at hspec'
        obtain ⟨hyields'⟩ := hspec'
        refine ⟨⟨result, s', resolved, again, s'', hfirst, hresolved, hsecond, ?_,
          unmodified_of_grown hyields.heap, unmodified_of_grown hyields'.heap, ?_, ?_, ?_⟩, ?_⟩
        · exact hyields'.value.trans hyields.value.symm
        · have hmodel : s'.modelValue result.model = effective.fineGrained env :=
            congrArg ModelRequest.model hyields.value
          exact hmodel ▸ hkeeps
        · have htools : result.tools.map s'.toolValue = if effective.isAnthropic then
              (request.tools.map s.toolValue).map RequestTool.eager
                else request.tools.map s.toolValue := congrArg ModelRequest.tools hyields.value
          exact htools ▸ forall₂_keepsTool effective.isAnthropic _
        · have hothers := congrArg ModelRequest.others hyields.value
          exact hothers
        · intro hlocked config' hsame
          rw [maybeOverride, maybeOverride, readConfig_of_locked hlocked hsame]

/-- A Claude model on Bedrock that sets a beta, and a tool. -/
def sampleRequestState : PyState where
  heap := [.dict (Dict.set {} "anthropic_beta" (.arr [.str "context-1m"])),
    .model (.bedrock {
      converse := true, modelId := "anthropic.claude-sonnet-5-5", fields := some 0 }),
    .tool { name := "write_file" }]

def sampleModelRequest : ModelRequest ℕ ℕ := { model := 1, tools := [.base 2] }

def sampleModelEnv : ModelEnv := { lower := fun text => text, initChatModel := fun _ => none }

theorem closed_sampleRequestState : sampleRequestState.Closed := by
  refine ⟨fun a m hget f hf => ?_, fun name a hcached => by cases hcached⟩
  match a with
  | 0 => cases hget
  | 1 =>
    cases hget
    cases hf
    decide
  | 2 => cases hget
  | _ + 3 => cases hget

theorem holds_sampleModelRequest : sampleRequestState.Holds sampleModelRequest := by
  refine ⟨by decide, fun a ha => ?_⟩
  cases mem_singleton.mp ha
  decide

/-- The configuration of a subagent that shall not stream. -/
def sampleSubagentConfig : RunnableConfig where
  configurable := [("disable_subagent_streaming", .bool true)]
  metadata := [("lc_agent_name", .str "resume-tailor")]

theorem exactlyShaped_sampleModelRequest :
    sampleRequestState.Closed ∧ sampleRequestState.Holds sampleModelRequest ∧
      ExactlyShaped sampleModelEnv (some sampleSubagentConfig) sampleRequestState
        sampleModelRequest := by
  refine ⟨closed_sampleRequestState, holds_sampleModelRequest,
    (exactlyShaped_iff _ _ _ _ closed_sampleRequestState holds_sampleModelRequest).mpr
      ⟨none, by rfl, fun _ => ⟨by decide, fun _ fields heq => ?_⟩⟩⟩
  cases heq

/-- A configuration that asks for a list of models. -/
def sampleListConfig : RunnableConfig where
  configurable := [("main_agent_model", .arr [.str "openai:gpt-5"])]

/-- **A name that is a list raises**, before anything is built. -/
theorem not_exactlyShaped : ¬ ExactlyShaped sampleModelEnv (some sampleListConfig)
    sampleRequestState sampleModelRequest := by
  intro h
  obtain ⟨result, s', resolved, again, s'', hfirst, -⟩ := h.shaped
  have hraise : maybeOverride sampleModelEnv (some sampleListConfig) sampleRequestState
      sampleModelRequest = none := by rfl
  rw [hraise] at hfirst
  cases hfirst

end NextRole
