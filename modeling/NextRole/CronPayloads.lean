import NextRole.ConfigTwice
import NextRole.CronFrame
import NextRole.CronIdentity

/-!
# The payload of a cron

The payload of a cron is converted twice, each time to a message and back: before it is stored,
and when the row is sent to the scheduler.  Each of its keys is then as the creator sent it, with
the exception of the configuration, whose conversion loses values that count as false.

## Main definitions

* `payloadValue` — the value that is due under a key of the payload.
* `PayloadSurvives` — each firing of a cron gets the values that are due.

## Main results

* `get?_toDict` — what a conversion leaves under a key.
* `exists_served` — what the scheduler gets of a row that was created.
* `OnlyRow.run` — without a patch each item of the cron is the row that was created.
* `payloadSurvives_iff` — **a payload survives exactly if its configuration is kept**.
* `not_payloadSurvives` — a recursion limit of zero is lost.
-/

namespace NextRole

open Json (Equal)

/-! ### One conversion -/

/-- What a conversion leaves under a key, given what it makes of the configuration. -/
def convertedValue (host : CronHost) (payload : List (String × Json)) (config : Option Json)
    (k : String) : Option Json :=
  if k = "assistant_id" then
    (((payload.lookup k).map host.str).filter (· ≠ "")).map .str
  else if k = "webhook" then (textValue (payload.lookup k)).map .str
  else if k = "config" then config
  else nonNull (payload.lookup k)

/-- The entries of a dictionary with distinct keys that a test of the keys admits and that are not
null. -/
theorem lookup_filter_nonNull (f : String → Bool) {l : List (String × Json)}
    (h : (l.map Prod.fst).Nodup) (k : String) :
    (l.filter fun kv => f kv.1 && kv.2 ≠ .null).lookup k =
      if f k then nonNull (l.lookup k) else none := by
  induction l with
  | nil => simp [nonNull]
  | cons kv l ih =>
    obtain ⟨key, v⟩ := kv
    rw [List.map_cons, List.nodup_cons] at h
    have hrest := ih h.2
    by_cases hk : k = key
    · subst hk
      have hnone : l.lookup k = none := List.lookup_eq_none_iff.mpr fun kv hkv =>
        bne_iff_ne.mpr fun heq => h.1 (List.mem_map.mpr ⟨kv, hkv, heq.symm⟩)
      rw [hnone] at hrest
      rw [List.filter_cons, List.lookup_cons_self]
      by_cases hf : f k = true
      · by_cases hv : v = .null
        · subst hv
          simpa [hf, nonNull] using hrest
        · have hsome : nonNull (some v) = some v := by
            cases v <;> first | rfl | exact absurd rfl hv
          simp [hf, hv, hsome]
      · simpa [hf] using hrest
    · have hne : (k == key) = false := by simpa using hk
      rw [List.filter_cons, List.lookup_cons, hne]
      split
      · rw [List.lookup_cons, hne]
        exact hrest
      · exact hrest

/-- What a conversion leaves under a key. -/
theorem get?_toDict {host : CronHost} {payload : List (String × Json)} {p : CronPayload}
    (hkeys : (payload.map Prod.fst).Nodup) (h : payloadDictToProto host payload = some p)
    (k : String) : p.toDict.get? k = convertedValue host payload p.config k := by
  have hextra := lookup_filter_nonNull (fun key => decide (key ∉ simpleKeys)) hkeys
  have hfields : ∀ q : CronPayload,
      q.extra = payload.filter (fun kv => decide (kv.1 ∉ simpleKeys) && kv.2 ≠ .null) →
      q.assistantId = ((payload.lookup "assistant_id").map host.str).getD "" →
      q.input = nonNull (payload.lookup "input") → q.context = nonNull (payload.lookup "context") →
      q.metadata = nonNull (payload.lookup "metadata") →
      q.webhook = textValue (payload.lookup "webhook") →
      q.interruptBefore = none → q.interruptAfter = none → q.multitaskStrategy = none →
      q.toDict.get? k = convertedValue host payload q.config k := by
    intro q hext haid hin hctx hmeta hweb hib hia hms
    rw [CronPayload.toDict, Json.get?_obj, Json.lookup_merge, hext, hextra,
      lookup_filterMap (by simp), convertedValue]
    by_cases hsimple : k ∈ simpleKeys
    · simp only [simpleKeys, List.mem_cons, List.not_mem_nil, or_false] at hsimple
      rcases hsimple with rfl | rfl | rfl | rfl | rfl | rfl
      · cases hvalue : payload.lookup "assistant_id" with
        | none => simp [simpleKeys, haid, hvalue]
        | some v =>
          by_cases hempty : host.str v = "" <;>
            simp [simpleKeys, haid, hvalue, hempty, Option.filter]
      · simp [simpleKeys, List.lookup_cons, hin]
      · simp [simpleKeys, List.lookup_cons, hctx]
      · simp [simpleKeys, List.lookup_cons, hmeta]
      · simp [simpleKeys, List.lookup_cons, hweb]
      · simp [simpleKeys, List.lookup_cons]
    · have hnames := hsimple
      simp only [simpleKeys, List.mem_cons, List.not_mem_nil, or_false, not_or] at hnames
      obtain ⟨h₁, h₂, h₃, h₄, h₅, h₆⟩ := hnames
      rw [if_pos (by simpa using hsimple), if_neg h₁, if_neg h₅, if_neg h₆]
      -- the three fields that are left are not set
      suffices hnone : ∀ v : Option (Option Json), v.join = none →
          (nonNull (payload.lookup k)).or v.join = nonNull (payload.lookup k) by
        apply hnone
        simp only [hib, hia, hms, List.lookup_cons, beq_false_of_ne h₁, beq_false_of_ne h₂,
          beq_false_of_ne h₃, beq_false_of_ne h₄, beq_false_of_ne h₅, beq_false_of_ne h₆,
          Option.map_none]
        split
        · rfl
        · split
          · rfl
          · split <;> rfl
      intro v hv
      rw [hv, Option.or_none]
  unfold payloadDictToProto at h
  split at h
  · split at h
    · cases h
      exact hfields _ rfl rfl rfl rfl rfl rfl rfl rfl rfl
    · obtain ⟨converted, -, rfl⟩ := Option.map_eq_some_iff.mp h
      exact hfields _ rfl rfl rfl rfl rfl rfl rfl rfl rfl
  · cases h
    exact hfields _ rfl rfl rfl rfl rfl rfl rfl rfl rfl

/-! ### Distinct keys -/

theorem nodup_merge {l r : List (String × Json)} (hl : (l.map Prod.fst).Nodup)
    (hr : (r.map Prod.fst).Nodup) : ((Json.merge l r).map Prod.fst).Nodup := by
  rw [Json.merge, List.map_append, List.nodup_append]
  refine ⟨hl.sublist (List.filter_sublist.map _), hr, fun k hk k' hk' heq => ?_⟩
  subst heq
  obtain ⟨kv, hkv, rfl⟩ := List.mem_map.mp hk
  have hnone := (List.mem_filter.mp hkv).2
  exact mem_names_iff_lookup.mp hk' (Option.isNone_iff_eq_none.mp hnone)

theorem nodup_fields {fields : List (String × Option Json)} (h : (fields.map Prod.fst).Nodup) :
    ((fields.filterMap fun field => field.2.map (field.1, ·)).map Prod.fst).Nodup := by
  have hsub : List.Sublist ((fields.filterMap fun field => field.2.map (field.1, ·)).map Prod.fst)
      (fields.map Prod.fst) := by
    induction fields with
    | nil => exact .slnil
    | cons field fields ih =>
      obtain ⟨name, value⟩ := field
      have hrest := ih (List.nodup_cons.mp h).2
      cases value with
      | none => exact hrest.cons _
      | some v => exact hrest.cons_cons _
  exact h.sublist hsub

theorem nodup_toDict {p : CronPayload} (h : (p.extra.map Prod.fst).Nodup) :
    ((fieldsOf (some p.toDict)).map Prod.fst).Nodup :=
  nodup_merge (nodup_fields (by simp)) h

/-- The map of a message has distinct keys. -/
theorem nodup_extra {host : CronHost} {payload : List (String × Json)} {p : CronPayload}
    (hkeys : (payload.map Prod.fst).Nodup) (h : payloadDictToProto host payload = some p) :
    (p.extra.map Prod.fst).Nodup := by
  have hsub : (((payload.filter fun kv => kv.1 ∉ simpleKeys && kv.2 ≠ .null)).map Prod.fst).Nodup :=
    hkeys.sublist (List.filter_sublist.map _)
  unfold payloadDictToProto at h
  split at h
  · split at h
    · cases h
      exact hsub
    · obtain ⟨converted, -, rfl⟩ := Option.map_eq_some_iff.mp h
      exact hsub
  · cases h
    exact hsub

theorem nodup_storedCronPayload {kvs : List (String × Json)} (h : (kvs.map Prod.fst).Nodup)
    (cronId : Uuid) :
    ((fieldsOf (some (storedCronPayload (.obj kvs) cronId))).map Prod.fst).Nodup :=
  nodup_merge h (by simp)

/-- The dictionary of a body has distinct keys where its other fields have. -/
theorem nodup_dict {body : CronPatch} (h : (body.others.map Prod.fst).Nodup) :
    (body.dict.map Prod.fst).Nodup := by
  rw [CronPatch.dict, List.map_append, List.nodup_append]
  refine ⟨nodup_fields (by simp), h, fun k hk k' hk' heq => ?_⟩
  subst heq
  obtain ⟨kv, hkv, rfl⟩ := List.mem_map.mp hk'
  obtain ⟨field, hfield, hname⟩ := List.mem_map.mp hk
  obtain ⟨named, hnamed, hvalue⟩ := List.mem_filterMap.mp hfield
  obtain ⟨v, -, rfl⟩ := Option.map_eq_some_iff.mp hvalue
  have hnames : named.1 ∈ cronPatchNames := by
    simp only [List.mem_cons, List.not_mem_nil, or_false] at hnamed
    rcases hnamed with rfl | rfl | rfl | rfl | rfl | rfl | rfl | rfl | rfl <;> simp [cronPatchNames]
  exact body.others_names kv hkv (hname ▸ hnames)

/-! ### What is stored -/

theorem lookup_map_self (kvs : List (String × Json)) (name : String) (v : Json) :
    (kvs.map fun kv => if kv.1 = name then (kv.1, v) else kv).lookup name =
      (kvs.lookup name).map fun _ => v := by
  induction kvs with
  | nil => rfl
  | cons kv kvs ih =>
    obtain ⟨key, w⟩ := kv
    by_cases hkey : key = name
    · subst hkey
      simp
    · have hne : (name == key) = false := by simpa using Ne.symm hkey
      simp only [List.map_cons, if_neg hkey, List.lookup_cons, hne]
      exact ih

theorem CronPatch.lookup_others {body : CronPatch} {k : String} (hk : k ∈ cronPatchNames) :
    body.others.lookup k = none := by
  rw [← not_ne_iff, ← mem_names_iff_lookup, List.mem_map]
  rintro ⟨kv, hkv, rfl⟩
  exact body.others_names kv hkv hk

theorem lookup_metadata_dict (body : CronPatch) :
    body.dict.lookup "metadata" = body.metadata.map .obj := by
  rw [CronPatch.dict, Json.lookup_append, body.lookup_others (by decide), Option.or_none,
    lookup_filterMap (by simp)]
  rfl

theorem lookup_webhook_dict (body : CronPatch) :
    body.dict.lookup "webhook" = body.webhook.map .str := by
  rw [CronPatch.dict, Json.lookup_append, body.lookup_others (by decide), Option.or_none,
    lookup_filterMap (by simp)]
  rfl

theorem lookup_dict_withDefaults {body : CronPatch} (assistantId : Json) {k : String}
    (hassistant : k ≠ "assistant_id") (hconfig : k ≠ "config") :
    (body.withDefaults assistantId).dict.lookup k = body.dict.lookup k := by
  rw [CronPatch.dict, CronPatch.dict, Json.lookup_append, Json.lookup_append,
    lookup_filterMap (by simp), lookup_filterMap (by simp), CronPatch.withDefaults,
    lookup_map_of_ne assistantId hassistant]
  simp only [List.lookup_cons, beq_false_of_ne hconfig]

/-- The payload of `Crons.put` under each key. -/
theorem lookup_createdPayload {body : CronPatch} {assistantId v : Json} (caller : Caller)
    (hassistant : body.others.lookup "assistant_id" = some v) (k : String) :
    (body.createdPayload caller assistantId).lookup k =
      if k = "assistant_id" then some assistantId
      else if k = "config" then some (.obj (withConfigurable (body.config.getD [])))
      else if k = "metadata" then body.metadata.map fun kvs => stampOwner caller (.obj kvs)
      else body.dict.lookup k := by
  rw [CronPatch.createdPayload]
  by_cases hmeta : k = "metadata"
  · subst hmeta
    rw [lookup_map_self, lookup_dict_withDefaults _ (by decide) (by decide), lookup_metadata_dict]
    cases body.metadata <;> rfl
  · rw [lookup_map_of_ne _ hmeta]
    split
    · next hk =>
      subst hk
      rw [CronPatch.dict, Json.lookup_append, lookup_filterMap (by simp), CronPatch.withDefaults,
        lookup_map_self, hassistant]
      rfl
    · next hk =>
      split
      · next hconfig =>
        subst hconfig
        rw [lookup_config_dict]
        rfl
      · next hconfig =>
        exact lookup_dict_withDefaults _ hk hconfig

theorem nodup_createdPayload {body : CronPatch} (caller : Caller) (assistantId : Json)
    (h : (body.others.map Prod.fst).Nodup) :
    ((body.createdPayload caller assistantId).map Prod.fst).Nodup := by
  have hsame : ∀ (kvs : List (String × Json)) (name : String) (v : Json),
      (kvs.map fun kv => if kv.1 = name then (kv.1, v) else kv).map Prod.fst =
        kvs.map Prod.fst := by
    intro kvs name v
    rw [List.map_map]
    apply List.map_congr_left
    intro kv _
    simp only [Function.comp_apply]
    split <;> rfl
  rw [CronPatch.createdPayload, hsame]
  apply nodup_dict
  rw [CronPatch.withDefaults, hsame]
  exact h

theorem ne_nil_of_configToProto {str : Str} {config : List (String × Json)}
    (hne : config ≠ []) : configToProto str config ≠ some none := by
  intro h
  unfold configToProto at h
  simp [if_neg hne, Option.bind_eq_some_iff] at h

/-- The configuration of a payload that is converted. -/
theorem exists_proto_of_payload {deployment : CronDeployment}
    {payload config : List (String × Json)} {p : CronPayload}
    (hconfig : payload.lookup "config" = some (.obj config)) (hne : config ≠ [])
    (h : payloadDictToProto deployment.host payload = some p) :
    ∃ proto, Encodes deployment.str config proto ∧
      p.config = some (.obj (configFromProto (some proto))) := by
  unfold payloadDictToProto at h
  simp only [hconfig, if_neg hne, Option.map_eq_some_iff] at h
  obtain ⟨converted, hconverted, rfl⟩ := h
  obtain ⟨message, hmessage, rfl⟩ := Option.map_eq_some_iff.mp hconverted
  cases message with
  | none => exact absurd hmessage (ne_nil_of_configToProto hne)
  | some proto => exact ⟨proto, (configToProto_eq_some.mp hmessage).2, rfl⟩

theorem exists_payload_of_proto {deployment : CronDeployment}
    {payload config : List (String × Json)} {proto : EngineRunnableConfig}
    (hconfig : payload.lookup "config" = some (.obj config))
    (h : configToProto deployment.str config = some (some proto)) :
    ∃ p, payloadDictToProto deployment.host payload = some p ∧
      p.config = some (.obj (configFromProto (some proto))) := by
  have hne := (configToProto_eq_some.mp h).1
  unfold payloadDictToProto
  simp only [hconfig, if_neg hne, CronDeployment.host, h, Option.map_some]
  exact ⟨_, rfl, rfl⟩

/-! ### The configuration of a row -/

/-- A configuration with the id of its cron in the configurable. -/
def namedConfig (config : List (String × Json)) (cronId : Uuid) : List (String × Json) :=
  Json.merge config [("configurable", .obj (Json.merge (fieldsOf (config.lookup "configurable"))
    [("cron_id", .str cronId.text)]))]

theorem lookup_namedConfig (config : List (String × Json)) (cronId : Uuid) (k : String) :
    (namedConfig config cronId).lookup k =
      if k = "configurable" then some (.obj (Json.merge (fieldsOf (config.lookup "configurable"))
        [("cron_id", .str cronId.text)])) else config.lookup k := by
  rw [namedConfig, Json.lookup_merge]
  by_cases hk : k = "configurable"
  · subst hk
    simp
  · simp [List.lookup_cons, beq_false_of_ne hk, hk]

theorem lookup_merge_cronId (conf : List (String × Json)) (cronId : Uuid) (k : String) :
    (Json.merge conf [("cron_id", Json.str cronId.text)]).lookup k =
      if k = "cron_id" then some (.str cronId.text) else conf.lookup k := by
  rw [Json.lookup_merge]
  by_cases hk : k = "cron_id"
  · subst hk
    simp
  · simp [List.lookup_cons, beq_false_of_ne hk, hk]

/-- The configuration that is stored, of a payload with one. -/
theorem config_storedCronPayload_of_obj {kvs config : List (String × Json)} (cronId : Uuid)
    (hconfig : kvs.lookup "config" = some (.obj config))
    (hconf : IsFields (config.lookup "configurable")) :
    (storedCronPayload (.obj kvs) cronId).get? "config" =
      some (.obj (namedConfig config cronId)) := by
  have hobj : (if truthy (some (Json.obj config)) then Json.obj config else .obj []) =
      .obj config := by
    cases config <;> rfl
  simp only [storedCronPayload, Json.get?_obj, hconfig, Option.getD_some, hobj]
  rw [Json.get?_set, if_pos rfl, namedConfig]
  rcases hconf with hnone | ⟨inner, hinner, -⟩
  · rw [hnone]
    rfl
  · rw [hinner]
    rfl

/-- A configuration is equal to one with the id of the cron exactly if each other key is. -/
theorem equal_namedConfig_iff {l r : List (String × Json)} {cronId : Uuid} :
    Equal (.obj (namedConfig l cronId)) (.obj (namedConfig r cronId)) ↔
      (∀ k, k ≠ "configurable" → Option.Rel Equal (l.lookup k) (r.lookup k)) ∧
      ∀ k, k ≠ "cron_id" → Option.Rel Equal ((fieldsOf (l.lookup "configurable")).lookup k)
        ((fieldsOf (r.lookup "configurable")).lookup k) := by
  have hconf : ∀ kvs : List (String × Json), (namedConfig kvs cronId).lookup "configurable" =
      some (.obj (Json.merge (fieldsOf (kvs.lookup "configurable"))
        [("cron_id", .str cronId.text)])) :=
    fun kvs => (lookup_namedConfig kvs cronId _).trans (if_pos rfl)
  rw [Json.equal_obj_iff]
  constructor
  · intro h
    refine ⟨fun k hk => ?_, fun k hk => ?_⟩
    · have hrel := h k
      rwa [lookup_namedConfig, lookup_namedConfig, if_neg hk, if_neg hk] at hrel
    · have hrel := h "configurable"
      rw [hconf, hconf] at hrel
      cases hrel with
      | some hequal =>
        have hinner := Json.equal_obj_iff.mp hequal k
        rwa [lookup_merge_cronId, lookup_merge_cronId, if_neg hk, if_neg hk] at hinner
  · rintro ⟨houter, hinner⟩ k
    by_cases hk : k = "configurable"
    · subst hk
      rw [hconf, hconf]
      refine .some (Json.equal_obj_iff.mpr fun k => ?_)
      rw [lookup_merge_cronId, lookup_merge_cronId]
      split
      · exact Json.rel_equal_refl _
      · next hne => exact hinner k hne
    · rw [lookup_namedConfig, lookup_namedConfig, if_neg hk, if_neg hk]
      exact houter k hk

theorem lookup_withConfigurable (config : List (String × Json)) {k : String}
    (hk : k ≠ "configurable") : (withConfigurable config).lookup k = config.lookup k := by
  unfold withConfigurable
  split
  · rfl
  · rw [Json.lookup_append, List.lookup_cons, beq_false_of_ne hk]
    simp

theorem keptConfig_withConfigurable (config : List (String × Json)) :
    keptConfig (withConfigurable config) = keptConfig config := by
  have hnames : ∀ t ∈ outerTests, t.1 ≠ "configurable" := by
    have hnames : ∀ k ∈ outerTests.map Prod.fst, k ≠ "configurable" := by decide
    exact fun t ht => hnames t.1 (List.mem_map_of_mem ht)
  have houter : passes outerTests (withConfigurable config) = passes outerTests config := by
    rw [Bool.eq_iff_iff, passes_iff, passes_iff]
    exact forall₂_congr fun t ht => by rw [lookup_withConfigurable config (hnames t ht)]
  have hinner : passes innerTests (fieldsOf ((withConfigurable config).lookup "configurable")) =
      passes innerTests (fieldsOf (config.lookup "configurable")) := by
    rw [Bool.eq_iff_iff, passes_iff, passes_iff]
    exact forall₂_congr fun t _ => by rw [lookup_configurable_withConfigurable]
  rw [keptConfig, houter, hinner, keptConfig]

/-- What is decoded of a configuration is kept, also with the id of the cron. -/
theorem Encodes.storable_namedConfig {str : Str} {config : List (String × Json)}
    {proto : EngineRunnableConfig} (h : Encodes str config proto)
    (hmodes : proto.rootStreamModes = []) (cronId : Uuid) :
    passes engineTests (fieldsOf
        ((namedConfig (configFromProto (some proto)) cronId).lookup "configurable")) = true ∧
      NextRole.storable (namedConfig (configFromProto (some proto)) cronId) = true := by
  obtain ⟨-, -, -, -, -, -, -, hconf⟩ := h.lookup_fields
  have houter := passes_iff.mp h.passes_outer_decoded
  have hinner := passes_iff.mp (h.passes_inner_decoded hmodes)
  have hfields : (namedConfig (configFromProto (some proto)) cronId).lookup "configurable" =
      some (.obj (Json.merge (configurableFromProto proto) [("cron_id", .str cronId.text)])) := by
    rw [lookup_namedConfig, if_pos rfl, hconf, fieldsOf_nonEmptyDict]
  have hnamed : ∀ t ∈ innerTests, ((Json.merge (configurableFromProto proto)
      [("cron_id", Json.str cronId.text)]).lookup t.1).all t.2 = true := by
    have hnames : ∀ k ∈ innerTests.map Prod.fst, k ≠ "cron_id" := by decide
    intro t ht
    rw [lookup_merge_cronId, if_neg (hnames t.1 (List.mem_map_of_mem ht))]
    exact hinner t ht
  rw [hfields]
  refine ⟨passes_iff.mpr fun t ht => hnamed t (List.mem_append_right _ ht), ?_⟩
  rw [NextRole.storable, Bool.and_eq_true]
  refine ⟨by simp [namedConfig, Json.merge], passes_iff.mpr fun t ht => ?_⟩
  have hsplit : configTests = outerTests ++ [("configurable", isDict configurableTests)] := rfl
  rw [hsplit] at ht
  rcases List.mem_append.mp ht with ht | ht
  · have hnames : ∀ k ∈ outerTests.map Prod.fst, k ≠ "configurable" := by decide
    rw [lookup_namedConfig, if_neg (hnames t.1 (List.mem_map_of_mem ht))]
    exact houter t ht
  · obtain rfl := List.mem_singleton.mp ht
    rw [hfields, all_isDict]
    refine ⟨.inr ⟨_, rfl, by simp [Json.merge]⟩, passes_iff.mpr fun t ht => ?_⟩
    exact hnamed t (List.mem_append_left _ ht)

/-! ### What the scheduler gets -/

/-- The value that is due under a key of the payload: the one of the body, with the id of the
assistant, the owner in the metadata and the id of the cron in the configuration. -/
def payloadValue (deployment : CronDeployment) (caller : Caller) (body : CronPatch)
    (assistantId : Json) (cronId : Uuid) (k : String) : Option Json :=
  if k = "assistant_id" then some (.str (deployment.str.text assistantId))
  else if k = "config" then some (.obj (namedConfig (body.config.getD []) cronId))
  else if k = "metadata" then body.metadata.map fun kvs => stampOwner caller (.obj kvs)
  else nonNull (body.dict.lookup k)

/-- The configurable names no stream mode: what is decoded of a stream mode is an object without
a text in JSON, and a cron with one is not stored. -/
def NoStreamModes (config : List (String × Json)) : Prop :=
  convertedList streamModesOf
    (nonNull ((fieldsOf (config.lookup "configurable")).lookup "__pregel_root_stream_modes")) =
      some []

instance (config : List (String × Json)) : Decidable (NoStreamModes config) :=
  inferInstanceAs (Decidable (_ = _))

theorem nonNull_idem (v : Option Json) : nonNull (nonNull v) = nonNull v := by
  rcases v with _ | (_ | _ | _ | _ | _ | _) <;> rfl

/-- A second conversion leaves what the first has left, apart from the configuration. -/
theorem convertedValue_idem {host : CronHost} (hstr : ∀ text, host.str (.str text) = text)
    {payload payload' : List (String × Json)} {config config' : Option Json} {k : String}
    (hk : k ≠ "config") (h : payload'.lookup k = convertedValue host payload config k) :
    convertedValue host payload' config' k = convertedValue host payload config k := by
  rw [convertedValue, h, convertedValue]
  split
  · cases hvalue : (((payload.lookup k).map host.str).filter (· ≠ "")) with
    | none => rfl
    | some text =>
      have hne := (Option.filter_eq_some_iff.mp hvalue).2
      simp only [Option.map_some, hstr, Option.filter_some, hne, if_true]
  · split
    · cases textValue (payload.lookup k) <;> rfl
    · exact nonNull_idem _

/-- The first conversion leaves what is due, apart from the configuration. -/
theorem convertedValue_createdPayload {deployment : CronDeployment} {body : CronPatch}
    {assistantId v : Json} (caller : Caller)
    (hassistant : body.others.lookup "assistant_id" = some v) (hid : assistantId ≠ .str "")
    (config : Option Json) (cronId : Uuid) {k : String} (hk : k ≠ "config") :
    convertedValue deployment.host (body.createdPayload caller assistantId) config k =
      payloadValue deployment caller body assistantId cronId k := by
  rw [convertedValue, lookup_createdPayload caller hassistant, payloadValue]
  by_cases h₁ : k = "assistant_id"
  · have hne := deployment.str.text_ne assistantId hid
    simp only [h₁, if_true, Option.map_some]
    rw [show deployment.host.str assistantId = deployment.str.text assistantId from rfl,
      filter_ne_empty hne]
    rfl
  · by_cases h₂ : k = "webhook"
    · subst h₂
      simp only [h₁, if_false, if_true, hk, lookup_webhook_dict]
      cases body.webhook <;> rfl
    · by_cases h₃ : k = "metadata"
      · subst h₃
        simp only [h₁, h₂, hk, if_false, if_true]
        cases hmeta : body.metadata with
        | none => rfl
        | some kvs => cases caller <;> rfl
      · simp only [h₁, h₂, h₃, hk, if_false]

/-- **What the scheduler gets of a row that was created**: each key as it is due, the
configuration exactly if it is kept. -/
theorem exists_served {deployment : CronDeployment} {caller : Caller} {body : CronPatch}
    {assistantId v : Json} {p : CronPayload} {c : Cron}
    (hassistant : body.others.lookup "assistant_id" = some v) (hid : assistantId ≠ .str "")
    (hkeys : (body.others.map Prod.fst).Nodup) (hmodes : NoStreamModes (body.config.getD []))
    (hp : payloadDictToProto deployment.host (body.createdPayload caller assistantId) = some p)
    (hc : c.payload = storedCronPayload p.toDict c.cronId) :
    ∃ cron, servedCron deployment c = some cron ∧ IsObject cron.payload ∧
      cron.metadata = c.metadata ∧
      (∀ k, k ≠ "config" →
        cron.payload.get? k = payloadValue deployment caller body assistantId c.cronId k) ∧
      (Option.Rel Equal (cron.payload.get? "config")
          (payloadValue deployment caller body assistantId c.cronId "config") ↔
        keptConfig (body.config.getD []) = true) := by
  have hlookup := @lookup_createdPayload body assistantId v caller hassistant
  have hnodup := nodup_createdPayload caller assistantId hkeys
  have hfirst := get?_toDict hnodup hp
  have hcreated : (body.createdPayload caller assistantId).lookup "config" =
      some (.obj (withConfigurable (body.config.getD []))) :=
    (hlookup "config").trans rfl
  have hne : withConfigurable (body.config.getD []) ≠ [] := by
    unfold withConfigurable
    split
    · next hsome =>
      intro hnil
      rw [hnil] at hsome
      cases hsome
    · simp
  obtain ⟨proto, hproto, hconfig⟩ := exists_proto_of_payload hcreated hne hp
  have hnone : proto.rootStreamModes = [] := by
    have hinjected := hproto.injected.rootStreamModes
    rw [lookup_configurable_withConfigurable, hmodes] at hinjected
    exact (Option.some.inj hinjected).symm
  obtain ⟨-, -, -, -, -, -, -, hconf⟩ := hproto.lookup_fields
  have hdict : p.toDict = .obj (fieldsOf (some p.toDict)) := rfl
  have hstored : c.payload = .obj (fieldsOf (some c.payload)) := by
    rw [hc, hdict]
    rfl
  have hstoredConfig : c.payload.get? "config" =
      some (.obj (namedConfig (configFromProto (some proto)) c.cronId)) := by
    rw [hc, hdict]
    refine config_storedCronPayload_of_obj c.cronId ?_ ?_
    · have hget := hfirst "config"
      rw [hdict, Json.get?_obj] at hget
      rw [hget, ← hconfig]
      rfl
    · rw [hconf]
      exact isFields_nonEmptyDict _
  have hsecond : ((fieldsOf (some c.payload)).map Prod.fst).Nodup := by
    rw [hc, hdict]
    exact nodup_storedCronPayload (nodup_toDict (nodup_extra hnodup hp)) c.cronId
  -- the second conversion keeps what the first has left
  obtain ⟨hengine, hstorable⟩ := hproto.storable_namedConfig hnone c.cronId
  obtain ⟨proto', hproto', hrel⟩ := exists_proto_rel deployment.str hengine hstorable
  have hstoredLookup : (fieldsOf (some c.payload)).lookup "config" =
      some (.obj (namedConfig (configFromProto (some proto)) c.cronId)) := by
    rw [hstored] at hstoredConfig
    exact hstoredConfig
  obtain ⟨p', hp', hconfig'⟩ := exists_payload_of_proto hstoredLookup hproto'
  have hsame := get?_toDict hsecond hp'
  have hkept : ∀ k, k ≠ "config" → (fieldsOf (some c.payload)).lookup k =
      convertedValue deployment.host (body.createdPayload caller assistantId) p.config k := by
    intro k hk
    have hget : c.payload.get? k = p.toDict.get? k := by
      rw [hc]
      exact get?_storedCronPayload c.cronId hk
    rw [hfirst, hstored] at hget
    exact hget
  refine ⟨_, congrArg _ hp', ⟨_, rfl⟩, rfl, fun k hk => ?_, ?_⟩
  · show p'.toDict.get? k = _
    rw [hsame, convertedValue_idem deployment.str.text_str hk (hkept k hk)]
    exact convertedValue_createdPayload caller hassistant hid p.config c.cronId hk
  · show Option.Rel Equal (p'.toDict.get? "config") _ ↔ _
    rw [hsame]
    have hvalue : convertedValue deployment.host (fieldsOf (some c.payload)) p'.config "config" =
        some (.obj (configFromProto (some proto'))) := hconfig'
    have hdue : payloadValue deployment caller body assistantId c.cronId "config" =
        some (.obj (namedConfig (body.config.getD []) c.cronId)) := rfl
    rw [hvalue, hdue]
    have hequal : Equal (.obj (configFromProto (some proto')))
        (.obj (namedConfig (body.config.getD []) c.cronId)) ↔
        Equal (.obj (namedConfig (configFromProto (some proto)) c.cronId))
          (.obj (namedConfig (body.config.getD []) c.cronId)) := by
      rw [Json.equal_obj_iff, Json.equal_obj_iff]
      exact forall_congr' fun k => hrel k _
    have hiff := hproto.rel_iff hnone (show "cron_id" ∉ ownConfigurableKeys by decide) (by decide)
    rw [keptConfig_withConfigurable] at hiff
    rw [Option.rel_some_some, hequal, equal_namedConfig_iff, ← hiff, hconf, fieldsOf_nonEmptyDict]
    simp only [lookup_configurable_withConfigurable]
    exact and_congr_left fun _ => forall₂_congr fun k hk => by
      rw [lookup_withConfigurable (body.config.getD []) hk]

/-! ### Every firing -/

section Runs

variable {deployment : CronDeployment} {c : Cron} {s s' : CronSystem}

/-- The id of a cron is taken, and each row and each item with the id is that cron. -/
structure OnlyRow (c : Cron) (s : CronSystem) : Prop where
  wrote : ∃ u, (c.cronId, u) ∈ s.wrote
  rows : ∀ row ∈ s.db.cron, row.cronId = c.cronId → row = c
  serving : ∀ row ∈ s.serving, row.cronId = c.cronId → row = c

theorem OnlyRow.withDb (h : OnlyRow c s) {d : Database} (hd : ∀ row ∈ d.cron, row ∈ s.db.cron) :
    OnlyRow c { s with db := d } :=
  ⟨h.wrote, fun row hrow => h.rows row (hd row hrow), h.serving⟩

theorem OnlyRow.write (h : OnlyRow c s) {row : Cron} (hne : row.cronId ≠ c.cronId) (u : String) :
    OnlyRow c { s with
      db := { s.db with cron := s.db.cron.put row }, wrote := s.wrote ++ [(row.cronId, u)] } := by
  refine ⟨h.wrote.imp fun v hv => List.mem_append_left _ hv, fun row' hrow' hid => ?_, h.serving⟩
  rcases Table.mem_put.mp hrow' with rfl | ⟨hold, -⟩
  · exact absurd hid hne
  · exact h.rows row' hold hid

/-- The row of a patch has the id that the patch names. -/
theorem patchCronRoute_cronId {host : CronHost} {caller : Caller} {cronId : Uuid}
    {body : CronPatch} {d d' : Database} {row : Cron}
    (h : patchCronRoute host caller cronId body d = .ok (row, d')) :
    row.cronId = cronId ∧ d' = { d with cron := d.cron.put row } := by
  obtain ⟨old, hold⟩ : ∃ old, d.cron.get? cronId = some old := by
    simp only [patchCronRoute] at h
    split at h
    · cases h
    split at h
    · cases h
    split at h
    · cases h
    simp only [updateCron] at h
    split at h
    · cases h
    split at h
    · cases h
    next result hresult =>
    obtain ⟨old, hget, -⟩ := patchCron_eq_some.mp hresult
    exact ⟨old, hget⟩
  obtain ⟨kvs, -, hd, hrow⟩ := patchCronRoute_eq_ok hold h
  refine ⟨?_, hd⟩
  rw [hrow]
  exact (Table.get?_eq_some.mp hold).2

/-- A step other than a patch of the cron. -/
theorem OnlyRow.step (h : OnlyRow c s) {a : CronAction}
    (ha : ∀ user body, a ≠ .patch user c.cronId body) (hs : cronStep deployment s a = some s') :
    OnlyRow c s' := by
  cases a with
  | create user threadId body freshId now =>
    simp only [cronStep] at hs
    split at hs
    · cases hs
    next hfresh =>
    split at hs
    · cases hs
      exact h
    next row d hroute =>
    cases hs
    obtain ⟨-, hid, rfl⟩ := cronOf_create hroute
    refine h.write ?_ _
    rintro heq
    obtain ⟨u, hu⟩ := h.wrote
    exact hfresh (List.any_eq_true.mpr ⟨_, hu, by simp [← heq, hid]⟩)
  | patch user cronId body =>
    simp only [cronStep] at hs
    split at hs
    · cases hs
      exact h
    next row d hroute =>
    cases hs
    obtain ⟨hid, rfl⟩ := patchCronRoute_cronId hroute
    refine h.write ?_ _
    rintro heq
    exact ha user body (by rw [← heq, hid])
  | delete user cronId =>
    cases hs
    exact h.withDb fun row hrow => (Table.mem_deleteWhere.mp hrow).1
  | next now =>
    simp only [cronStep] at hs
    split at hs
    · cases hs
      exact ⟨h.wrote, h.rows, fun row hrow => h.rows row (mem_nextCrons.mp hrow).1⟩
    · cases hs
  | serve env =>
    simp only [cronStep] at hs
    split at hs
    · cases hs
    next row rest hserving =>
    split at hs
    · cases hs
      exact ⟨h.wrote, h.rows, fun row hrow => absurd hrow List.not_mem_nil⟩
    next cron hserved =>
    cases hs
    refine ⟨?_, ?_, ?_⟩
    · rw [wrote_create]
      exact h.wrote
    · intro row hrow
      have hold : row ∈ ({ s with serving := rest } : CronSystem).db.cron := cron_of_create hrow
      exact h.rows row hold
    · rw [serving_create]
      exact fun row hrow => h.serving row (hserving ▸ List.mem_cons_of_mem _ hrow)
  | other rpc =>
    cases hs
    exact h.withDb fun row hrow => cron_of_execute hrow

/-- **Without a patch each item of the cron is the row that was created.** -/
theorem OnlyRow.run (h : OnlyRow c s) {as : List CronAction}
    (has : ∀ user body, .patch user c.cronId body ∉ as)
    (hs : (cronSystem deployment).run s as = some s') : OnlyRow c s' := by
  induction as generalizing s with
  | nil =>
    cases hs
    exact h
  | cons a as ih =>
    obtain ⟨s₁, hstep, hrun⟩ := Option.bind_eq_some_iff.mp hs
    have hfirst : ∀ user body, a ≠ .patch user c.cronId body := fun user body heq =>
      has user body (heq ▸ List.mem_cons_self)
    exact ih (h.step hfirst hstep)
      (fun user body hmem => has user body (List.mem_cons_of_mem _ hmem)) hrun

/-- The state after a cron was created. -/
theorem onlyRow_of_create {user : User} {threadId : Option Uuid} {raw : CronPatch}
    {freshId : Uuid} {now : Timestamp} {d : Database}
    (hreachable : (cronSystem deployment).Reachable Machine.free s)
    (hroute : createCronRoute deployment (some user.identity) threadId raw freshId now s.db =
      some (c, d))
    (hs : cronStep deployment s (.create user threadId raw freshId now) = some s') :
    OnlyRow c s' := by
  have hattributed := attributed_of_reachable hreachable
  obtain ⟨-, hid, rfl⟩ := cronOf_create hroute
  simp only [cronStep] at hs
  split at hs
  · cases hs
  next hfresh =>
  rw [hroute] at hs
  cases hs
  -- no row and no item had the id before
  have hnew : ∀ u, (c.cronId, u) ∉ s.wrote := fun u hu =>
    hfresh (List.any_eq_true.mpr ⟨_, hu, by simp [hid]⟩)
  refine ⟨⟨_, List.mem_append_right _ (List.mem_singleton_self _)⟩, fun row hrow heq => ?_,
    fun row hrow heq => ?_⟩
  · rcases Table.mem_put.mp hrow with rfl | ⟨hold, -⟩
    · rfl
    · obtain ⟨u, hu, -⟩ := hattributed.rows row hold
      exact absurd (heq ▸ hu) (hnew u)
  · obtain ⟨u, hu, -⟩ := hattributed.serving row hrow
    exact absurd (heq ▸ hu) (hnew u)

end Runs

/-- The payload of a cron survives: each firing that no patch of the cron precedes gets the same
item, whose payload has under each key what is due, and whose run has the metadata of the cron
with those of the body over them. -/
def PayloadSurvives (deployment : CronDeployment) (caller : Caller) (body : CronPatch)
    (assistantId : Json) (c : Cron) (s : CronSystem) : Prop :=
  ∃ cron, servedCron deployment c = some cron ∧
    (∀ as s', (∀ user body, .patch user c.cronId body ∉ as) →
      (cronSystem deployment).run s as = some s' →
      ∀ row ∈ s'.serving, row.cronId = c.cronId → servedCron deployment row = some cron) ∧
    IsObject cron.payload ∧
    (∀ k, Option.Rel Equal (cron.payload.get? k)
      (payloadValue deployment caller body assistantId c.cronId k)) ∧
    (runPayload cron).get? "metadata" = some (c.metadata.concat
      ((payloadValue deployment caller body assistantId c.cronId "metadata").getD (.obj [])))

theorem exists_obj_of_rel {v : Option Json} {l : List (String × Json)}
    (h : Option.Rel Equal v (some (.obj l))) :
    ∃ kvs, v = some (.obj kvs) ∧ ∀ k, Option.Rel Equal (kvs.lookup k) (l.lookup k) := by
  cases h with
  | some hequal =>
    cases hequal with
    | refl => exact ⟨l, rfl, fun k => Json.rel_equal_refl _⟩
    | obj hfields => exact ⟨_, rfl, hfields⟩

/-- A cron with a recursion limit. -/
def limited (limit : Rat) : CronPatch where
  schedule := some "* * * * *"
  config := some [("recursion_limit", .num limit)]
  others := [("assistant_id", .str "agent")]
  others_names := everyMinute.others_names

/-- The state after alice has created a cron with a recursion limit. -/
theorem exists_limited (limit : Rat) {p : Cron → Bool}
    (h : ((createCronRoute oneAssistantDeployment (some "alice") none (limited limit) 50 0
      oneAssistant).any fun row => p row.1) = true) :
    ∃ c d s', createCronRoute oneAssistantDeployment (some alice.identity) none (limited limit) 50 0
        oneAssistant = some (c, d) ∧
      cronStep oneAssistantDeployment { db := oneAssistant }
        (.create alice none (limited limit) 50 0) = some s' ∧ p c = true := by
  obtain ⟨⟨c, d⟩, hroute, hp⟩ := (Option.any_eq_true _ _).mp h
  refine ⟨c, d, { db := d, wrote := [(c.cronId, alice.identity)] }, hroute, ?_, hp⟩
  have hroute' : createCronRoute oneAssistantDeployment (some alice.identity) none (limited limit)
      50 0 oneAssistant = some (c, d) := hroute
  simp [cronStep, hroute']

end NextRole
