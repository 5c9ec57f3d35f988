import NextRole.ConfigRoundTrip
import NextRole.RunMerge

/-!
# The identity of a run

The ids of a run and its caller are in the configurable of its row, where the query and
`create_valid_run` set them last, and a worker reads them of the configuration that it decodes.
The encoder takes the run id of the tracer from the top level of the configuration first, which
the caller, the thread or the assistant may have set, and the decoder writes it over the run's.

## Main definitions

* `identityFields` — the six keys.
* `KeepsIdentity` — a row has them, and so has what a worker decodes of it.
* `AdmitsIdentity` — the stored configurations are dictionaries and no other run id is on top.

## Main results

* `lookup_runId_decoded` — the run id that a worker decodes.
* `keepsIdentity_iff` — the rows of a call keep the identity if the configurations admit it.
* `not_keepsIdentity` — a caller who names a run id.
-/

namespace NextRole

/-! ### What a worker decodes -/

section Decoded

variable {str : Str} {config : List (String × Json)} {proto : EngineRunnableConfig}

/-- The configurations that a worker decodes of the arguments of a row. -/
theorem kwargsConfig_eq_some {kwargs : Json} {decoded : List (String × Json)} :
    kwargsConfig str kwargs = some (some decoded) ↔
      ∃ config proto, kwargs.get? "config" = some (.obj config) ∧ config ≠ [] ∧
        Encodes str config proto ∧ configFromProto (some proto) = decoded := by
  constructor
  · intro h
    obtain ⟨message, hmessage, hdecoded⟩ := Option.map_eq_some_iff.mp h
    obtain ⟨proto, rfl, rfl⟩ := Option.map_eq_some_iff.mp hdecoded
    unfold kwargsConfigToProto at hmessage
    split at hmessage
    · cases hmessage
    · next v hv =>
      obtain ⟨hget, -⟩ := truthyValue_eq_some.mp hv
      obtain ⟨config, hconfig, hproto⟩ := Option.bind_eq_some_iff.mp hmessage
      cases v with
      | obj kvs =>
        obtain rfl := Option.some.inj hconfig
        obtain ⟨hne, hencodes⟩ := configToProto_eq_some.mp hproto
        exact ⟨kvs, proto, hget, hne, hencodes, rfl⟩
      | _ => cases hconfig
  · rintro ⟨config, proto, hget, hne, hencodes, rfl⟩
    exact kwargsConfig_eq hne (configToProto_eq_some.mpr ⟨hne, hencodes⟩) hget

theorem Encodes.lookup_decoded (h : Encodes str config proto) (k : String) :
    (fieldsOf ((configFromProto (some proto)).lookup "configurable")).lookup k =
      (configurableFromProto proto).lookup k := by
  obtain ⟨-, -, -, -, -, -, -, hconf⟩ := h.lookup_fields
  rw [hconf, fieldsOf_nonEmptyDict]

/-- The run id of the tracer counts: what is on top of the configuration, if it is set. -/
theorem lookup_runId_decoded (h : Encodes str config proto) {id : String}
    (hid : (fieldsOf (config.lookup "configurable")).lookup "run_id" = some (.str id)) :
    (configurableFromProto proto).lookup "run_id" =
      some (.str ((truthyValue (config.lookup "run_id")).elim id str.text)) := by
  have hrun := h.runId
  rw [h.lookup_runId, hid]
  unfold tracingRunId at hrun
  split at hrun
  · next v hv =>
    have hne : str.text v ≠ "" := by
      refine str.text_ne v fun heq => ?_
      have htrue := (truthyValue_eq_some.mp hv).2
      rw [heq] at htrue
      cases htrue
    rw [hv, ← Option.some.inj hrun, filter_ne_empty hne]
    rfl
  · next hnone =>
    rw [hnone]
    -- the run id of the configurable is used unless it is empty, and is then carried by the map
    match hconf : config.lookup "configurable" with
    | some (.obj kvs) =>
      rw [hconf] at hid hrun
      have hrun' : (truthyValue (kvs.lookup "run_id")).map str.text = proto.runId :=
        Option.some.inj hrun
      rw [show kvs.lookup "run_id" = some (.str id) from hid] at hrun'
      by_cases hempty : id = ""
      · subst hempty
        rw [← hrun']
        rfl
      · rw [← hrun', truthyValue_str hempty, Option.map_some, str.text_str,
          filter_ne_empty hempty]
        rfl
    | none | some .null | some (.bool _) | some (.num _) | some (.str _) | some (.arr _) =>
      rw [hconf] at hid
      cases hid

theorem lookup_threadId_decoded (h : Encodes str config proto) {id : String}
    (hid : (fieldsOf (config.lookup "configurable")).lookup "thread_id" = some (.str id)) :
    (configurableFromProto proto).lookup "thread_id" = some (.str id) := by
  rw [h.lookup_typed.1, h.injected.threadId, hid]
  simp [nonNull, str.text_str]

end Decoded

/-! ### The identity -/

/-- The identity of a run: its ids, those of its graph and its assistant, and its caller. -/
def identityFields (user : User) (assistant : Assistant) (run : Run) : List (String × Json) := [
  ("run_id", .str run.runId.text),
  ("thread_id", .str run.threadId.text),
  ("graph_id", .str assistant.graphId),
  ("assistant_id", .str run.assistantId.text),
  ("langgraph_auth_user_id", .str user.identity),
  ("langgraph_auth_user", user.toJson)]

/-- The row of a run has its identity, and so has what a worker decodes of the row. -/
def KeepsIdentity (str : Str) (user : User) (d : Database) (run : Run) : Prop :=
  ∃ assistant, d.assistant.get? run.assistantId = some assistant ∧
    (∀ kv ∈ identityFields user assistant run, run.configurable? kv.1 = some kv.2) ∧
    ∀ decoded, kwargsConfig str run.kwargs = some (some decoded) →
      ∀ kv ∈ identityFields user assistant run,
        (fieldsOf (decoded.lookup "configurable")).lookup kv.1 = some kv.2

/-- The run id on top of the configuration of a run. -/
def topRunId (p : CreateParams) (thread : Thread) (assistant : Assistant) : Option Json :=
  (p.config.get? "run_id").or ((thread.config.get? "run_id").or (assistant.config.get? "run_id"))

/-- The configurations of a run admit its identity: those of the database are dictionaries, and
where the encoder takes the whole no run id is on top but the run's own. -/
structure AdmitsIdentity (str : Str) (p : CreateParams) (thread : Thread) (assistant : Assistant) :
    Prop where
  stored : mergeable thread assistant = true
  runId : ((asDict (rowConfig p thread assistant)).bind (configToProto str)).isSome = true →
    ∀ v, truthyValue (topRunId p thread assistant) = some v → str.text v = p.runId.text

section Rows

variable {str : Str} {host : RunHost} {context : RequestContext} {threadId : Option Uuid}
  {temporary : Bool} {payload : List (String × Json)} {call : CreateCall} {user : User}
  {thread : Thread} {assistant : Assistant}

theorem configurableOf_user (huser : context.auth.bind AuthContext.user = some user)
    (hcall : createCall host context threadId temporary payload = some call) :
    (configurableOf call.params.config).get? "langgraph_auth_user_id" =
        some (.str user.identity) ∧
      (configurableOf call.params.config).get? "langgraph_auth_user" = some user.toJson := by
  obtain ⟨ctx, hctx, hctxUser⟩ := Option.bind_eq_some_iff.mp huser
  obtain ⟨given, checkpointId, configurable, -, hconf, hget⟩ := configurableOf_createCall hcall
  obtain ⟨hval, hid⟩ := lookup_createConfigurable_user hctx hconf
  rw [hget, Json.get?_obj, Json.get?_obj, hid, hval, hctxUser]
  exact ⟨rfl, rfl⟩

/-- A row has the identity exactly where the stored configurations are dictionaries. -/
theorem configurable?_identity (huser : context.auth.bind AuthContext.user = some user)
    (hcall : createCall host context threadId temporary payload = some call) :
    (∀ kv ∈ identityFields user assistant (insertRun call.params thread assistant),
        (insertRun call.params thread assistant).configurable? kv.1 = some kv.2) ↔
      mergeable thread assistant = true := by
  obtain ⟨hconfig, hconf⟩ := createCall_configurable hcall
  obtain ⟨hid, hval⟩ := configurableOf_user huser hcall
  constructor
  · intro h
    have hrun := h _ List.mem_cons_self
    rw [configurable?_insertRun call.isObj_kwargs hconfig hconf] at hrun
    by_contra hnot
    rw [if_neg hnot] at hrun
    cases hrun
  · intro hstored kv hkv
    rw [configurable?_insertRun call.isObj_kwargs hconfig hconf, if_pos hstored]
    simp only [identityFields, List.mem_cons, List.not_mem_nil, or_false] at hkv
    rcases hkv with rfl | rfl | rfl | rfl | rfl | rfl
    · rfl
    · rfl
    · rfl
    · rfl
    · rw [hid]
      rfl
    · rw [hval]
      rfl

theorem config?_topRunId (hcall : createCall host context threadId temporary payload = some call)
    (hstored : mergeable thread assistant = true) :
    (insertRun call.params thread assistant).config? "run_id" =
      topRunId call.params thread assistant := by
  obtain ⟨hobj, -⟩ := createCall_configurable hcall
  simp only [mergeable, Bool.and_eq_true] at hstored
  rw [get?_config_insertRun call.isObj_kwargs (by decide) (by decide), mergedConfig,
    get?_concat_of_isObj (by simp [hstored]) hobj,
    get?_concat_of_isObj hstored.1.1.1 hstored.1.1.2]
  rfl

theorem lookup_of_get?_config {run : Run} {config : List (String × Json)}
    (hget : run.kwargs.get? "config" = some (.obj config)) (k : String) :
    (fieldsOf (config.lookup "configurable")).lookup k = run.configurable? k := by
  rw [lookup_fieldsOf, Run.configurable?, Run.config?, hget]
  rfl

theorem exists_encodes_of_isSome {config : List (String × Json)} (hne : config ≠ [])
    (h : (configToProto str config).isSome = true) : ∃ proto, Encodes str config proto := by
  obtain ⟨message, hmessage⟩ := Option.isSome_iff_exists.mp h
  cases message with
  | none =>
    unfold configToProto at hmessage
    rw [if_neg hne] at hmessage
    simp [Option.bind_eq_some_iff] at hmessage
  | some proto => exact ⟨proto, (configToProto_eq_some.mp hmessage).2⟩

/-- What is decoded of a row has its identity where no other run id is on top. -/
theorem lookup_decoded_identity {run : Run} {config : List (String × Json)}
    {proto : EngineRunnableConfig} (hget : run.kwargs.get? "config" = some (.obj config))
    (hencodes : Encodes str config proto)
    (hrow : ∀ kv ∈ identityFields user assistant run, run.configurable? kv.1 = some kv.2)
    (htop : ∀ v, truthyValue (run.config? "run_id") = some v → str.text v = run.runId.text) :
    ∀ kv ∈ identityFields user assistant run,
      (fieldsOf ((configFromProto (some proto)).lookup "configurable")).lookup kv.1 = some kv.2 := by
  intro kv hkv
  have hvalue : (fieldsOf (config.lookup "configurable")).lookup kv.1 = some kv.2 :=
    (lookup_of_get?_config hget kv.1).trans (hrow kv hkv)
  have hconfig : run.config? "run_id" = config.lookup "run_id" := by
    rw [Run.config?, hget]
    rfl
  rw [hencodes.lookup_decoded]
  simp only [identityFields, List.mem_cons, List.not_mem_nil, or_false] at hkv
  rcases hkv with rfl | rfl | rfl | rfl | rfl | rfl
  · rw [lookup_runId_decoded hencodes hvalue, ← hconfig]
    cases hv : truthyValue (run.config? "run_id") with
    | none => rfl
    | some v => exact congrArg (fun id => some (Json.str id)) (htop v hv)
  · exact lookup_threadId_decoded hencodes hvalue
  all_goals
    dsimp only at hvalue ⊢
    exact (hencodes.lookup_other (by decide) (by decide)).trans hvalue

/-- A row keeps the identity of its run exactly where the configurations admit it. -/
theorem keepsIdentity_insertRun_iff (huser : context.auth.bind AuthContext.user = some user)
    (hcall : createCall host context threadId temporary payload = some call) {snap : Database}
    (hassistant : createAssistant call.params snap = some assistant) :
    KeepsIdentity str user snap (insertRun call.params thread assistant) ↔
      AdmitsIdentity str call.params thread assistant := by
  have hget : snap.assistant.get? assistant.assistantId = some assistant := by
    have hsome := (Option.filter_eq_some_iff.mp hassistant).1
    have hid := (Table.get?_eq_some.mp hsome).2
    rwa [show call.params.assistantId = assistant.assistantId from hid.symm] at hsome
  have hkwargs : (insertRun call.params thread assistant).kwargs.get? "config" =
      some (rowConfig call.params thread assistant) := get?_kwargs_insertRun call.isObj_kwargs
  constructor
  · rintro ⟨other, hother, hrow, hdecoded⟩
    obtain rfl : assistant = other := Option.some.inj (hget.symm.trans hother)
    have hstored := (configurable?_identity huser hcall).mp hrow
    refine ⟨hstored, fun hreads v hv => ?_⟩
    obtain ⟨message, hmessage⟩ := Option.isSome_iff_exists.mp hreads
    obtain ⟨config, hconfig, hproto⟩ := Option.bind_eq_some_iff.mp hmessage
    rw [asDict_eq_some.mp hconfig] at hkwargs
    have hvalue := (lookup_of_get?_config hkwargs "run_id").trans (hrow _ List.mem_cons_self)
    have hne : config ≠ [] := by
      rintro rfl
      cases hvalue
    obtain ⟨proto, hencodes⟩ := exists_encodes_of_isSome hne (by rw [hproto]; rfl)
    have hid := hdecoded _ (kwargsConfig_eq_some.mpr ⟨config, proto, hkwargs, hne, hencodes, rfl⟩)
      _ List.mem_cons_self
    have htop : config.lookup "run_id" = topRunId call.params thread assistant := by
      rw [← config?_topRunId hcall hstored, Run.config?, hkwargs]
      rfl
    rw [hencodes.lookup_decoded, lookup_runId_decoded hencodes hvalue, htop, hv] at hid
    exact Json.str.inj (Option.some.inj hid)
  · rintro ⟨hstored, htop⟩
    have hrow : ∀ kv ∈ identityFields user assistant (insertRun call.params thread assistant),
        (insertRun call.params thread assistant).configurable? kv.1 = some kv.2 :=
      (configurable?_identity huser hcall).mpr hstored
    refine ⟨assistant, hget, hrow, fun decoded hdecoded => ?_⟩
    obtain ⟨config, proto, hconfig, hne, hencodes, rfl⟩ := kwargsConfig_eq_some.mp hdecoded
    refine lookup_decoded_identity hconfig hencodes hrow fun v hv => ?_
    rw [config?_topRunId hcall hstored] at hv
    refine htop ?_ v hv
    rw [hkwargs] at hconfig
    rw [Option.some.inj hconfig]
    simp [asDict, configToProto_eq_some.mpr ⟨hne, hencodes⟩]

end Rows

/-- The rows of a call keep the identity exactly where the configurations admit it. -/
theorem keepsIdentity_iff (str : Str) (host : RunHost) (context : RequestContext)
    (threadId : Option Uuid) (temporary : Bool) (payload : List (String × Json))
    (call : CreateCall) (user : User) (snap cur : Database)
    (huser : context.auth.bind AuthContext.user = some user)
    (hcall : createCall host context threadId temporary payload = some call) :
    (∀ run ∈ insertedRun call.params snap cur, KeepsIdentity str user snap run) ↔
      ((call.params.prevent = true → inflightRuns call.params snap = []) →
        ∀ assistant, createAssistant call.params snap = some assistant →
          ∀ thread ∈ runThread call.params snap cur,
            AdmitsIdentity str call.params thread assistant) := by
  constructor
  · intro h hprevent assistant hassistant thread hthread
    rw [← keepsIdentity_insertRun_iff huser hcall hassistant]
    exact h _ (mem_insertedRun.mpr ⟨hprevent, thread, hthread, assistant, hassistant, rfl⟩)
  · intro h run hrun
    obtain ⟨hprevent, thread, hthread, assistant, hassistant, rfl⟩ := mem_insertedRun.mp hrun
    exact (keepsIdentity_insertRun_iff huser hcall hassistant).mpr
      (h hprevent assistant hassistant thread hthread)

/-! ### A run id on top -/

/-- A payload that names a run id in its configurable. -/
def namedPayload : List (String × Json) :=
  payloadWith [("configurable", .obj [("run_id", .str "forged")])]

theorem keepsIdentity_namedPayload :
    ∃ call, createCall agentHost (requestOfAlice 100) none false namedPayload = some call ∧
      insertedRun call.params oneAssistant oneAssistant ≠ [] ∧
      ∀ run ∈ insertedRun call.params oneAssistant oneAssistant,
        KeepsIdentity Str.render alice oneAssistant run := by
  let call := (createCall agentHost (requestOfAlice 100) none false namedPayload).get (by decide +kernel)
  let assistant : Assistant := { assistantId := 1, graphId := "agent" }
  have hcall : createCall agentHost (requestOfAlice 100) none false namedPayload = some call :=
    (Option.some_get _).symm
  have hone : createAssistant call.params oneAssistant = some assistant := by decide +kernel
  have hthreads : ∀ thread ∈ runThread call.params oneAssistant oneAssistant,
      mergeable thread assistant = true ∧
        truthyValue (topRunId call.params thread assistant) = none := by decide +kernel
  refine ⟨call, hcall, by decide +kernel, (keepsIdentity_iff Str.render agentHost
    (requestOfAlice 100) none false namedPayload call alice oneAssistant oneAssistant rfl hcall).mpr ?_⟩
  intro _ other hother thread hthread
  obtain rfl : assistant = other := Option.some.inj (hone.symm.trans hother)
  obtain ⟨hstored, htop⟩ := hthreads thread hthread
  refine ⟨hstored, fun _ v hv => ?_⟩
  rw [htop] at hv
  cases hv

/-- A payload that names a run id on top of its configuration. -/
def forgedPayload : List (String × Json) := payloadWith [("run_id", .str "forged")]

theorem not_keepsIdentity :
    ¬ ∀ (str : Str) (host : RunHost) (context : RequestContext) (threadId : Option Uuid)
      (temporary : Bool) (payload : List (String × Json)) (call : CreateCall) (user : User)
      (snap cur : Database), context.auth.bind AuthContext.user = some user →
      createCall host context threadId temporary payload = some call →
      ∀ run ∈ insertedRun call.params snap cur, KeepsIdentity str user snap run := by
  intro h
  let call := (createCall agentHost (requestOfAlice 100) none false forgedPayload).get (by decide +kernel)
  let assistant : Assistant := { assistantId := 1, graphId := "agent" }
  have hcall : createCall agentHost (requestOfAlice 100) none false forgedPayload = some call :=
    (Option.some_get _).symm
  have hassistant : createAssistant call.params oneAssistant = some assistant := by decide +kernel
  have hinserted : insertedThread call.params oneAssistant oneAssistant =
      some (insertThread call.params assistant) := by decide +kernel
  have hkeeps := h Str.render _ _ _ _ _ call alice oneAssistant oneAssistant rfl hcall _
    (mem_insertedRun.mpr ⟨fun hprevent => absurd hprevent (by decide +kernel),
      _, mem_runThread.mpr (.inr hinserted), assistant, hassistant, rfl⟩)
  -- the worker reads the run id on top, which is not that of the run
  have htext := ((keepsIdentity_insertRun_iff rfl hcall hassistant).mp hkeeps).runId
    (by decide +kernel) (.str "forged") (by decide +kernel)
  exact absurd htext (by decide +kernel)

end NextRole
