import NextRole.ConfigRoundTrip

/-!
# A configuration that is converted twice

What is decoded of a configuration holds only values that its fields keep, so that a second
conversion changes nothing more.  A key is therefore the same after two conversions exactly if it is
the same after one.

## Main definitions

* `keptConfig` — each key with a field of its own holds a value that the field keeps; other than in
  `storable`, the configurable may be empty or have keys of the engine.

## Main results

* `Encodes.rel_iff` — the configurations of which each key is kept.
* `Encodes.passes_outer_decoded`, `Encodes.passes_inner_decoded` — what is decoded is kept.
* `exists_proto_rel` — a configuration that is kept is the same after a conversion.
-/

namespace NextRole

open Json (Equal)

/-- The tests of the keys of a configuration other than its configurable. -/
def outerTests : List (String × (Json → Bool)) := configTests.take 7

/-- The tests of the keys of a configurable. -/
def innerTests : List (String × (Json → Bool)) := configurableTests ++ engineTests

/-- Each key with a field of its own holds a value that the field keeps. -/
def keptConfig (config : List (String × Json)) : Bool :=
  passes outerTests config && passes innerTests (fieldsOf (config.lookup "configurable"))

theorem passes_iff {tests : List (String × (Json → Bool))} {kvs : List (String × Json)} :
    passes tests kvs = true ↔ ∀ t ∈ tests, (kvs.lookup t.1).all t.2 = true :=
  List.all_eq_true

theorem FieldKeeps.rel_iff {α : Type} {encode : Option Json → Option α} {decode : α → Option Json}
    {test : Json → Bool} (h : FieldKeeps encode decode test) {v : Option Json} {a : α}
    (ha : encode v = some a) : Option.Rel Equal (decode a) v ↔ v.all test = true := by
  constructor
  · exact h.only v a ha
  · intro htest
    obtain ⟨a', ha', hv⟩ := h.same v htest
    obtain rfl := Option.some.inj (ha.symm.trans ha')
    rw [hv]
    exact Json.rel_equal_refl v

section

variable {str : Str} {config : List (String × Json)} {proto : EngineRunnableConfig}

/-! ### One conversion -/

/-- The metadata is the same exactly if it is a dictionary that is kept. -/
theorem Encodes.rel_metadata (h : Encodes str config proto) :
    Option.Rel Equal (nonEmptyDict (metadataFromProto proto)) (config.lookup "metadata") ↔
      (config.lookup "metadata").all (isDict metadataTests) = true := by
  rw [rel_nonEmptyDict, all_isDict]
  refine and_congr_right fun _ => ⟨h.passes_metadata, fun hpasses k => ?_⟩
  rw [passes_iff] at hpasses
  have hattempt := hpasses ("run_attempt", isInt) (by simp [metadataTests])
  have hid := hpasses ("run_id", isText) (by simp [metadataTests])
  rw [h.lookup_metadata]
  split
  · next hk =>
    subst hk
    exact (keeps_attempt.rel_iff h.runAttempt).mpr hattempt
  · split
    · next hk =>
      subst hk
      exact ((keeps_anyText str).rel_iff (congrArg some h.serverRunId.symm)).mpr hid
    · exact Json.rel_equal_refl _

/-- A key of a configuration with a field of its own is the same exactly if its value is kept. -/
theorem Encodes.rel_outer (h : Encodes str config proto) {t : String × (Json → Bool)}
    (ht : t ∈ outerTests) :
    Option.Rel Equal ((configFromProto (some proto)).lookup t.1) (config.lookup t.1) ↔
      (config.lookup t.1).all t.2 = true := by
  obtain ⟨hrun, hcallbacks, hname, hmax, hlimit, htags, hmetadata, -⟩ := h.lookup_fields
  simp only [outerTests, configTests, List.take_succ_cons, List.take_zero, List.mem_cons,
    List.not_mem_nil, or_false] at ht
  rcases ht with rfl | rfl | rfl | rfl | rfl | rfl | rfl
  · rw [hrun]
    exact keeps_absent.rel_iff rfl
  · rw [hcallbacks]
    exact keeps_absent.rel_iff rfl
  · rw [hname]
    exact keeps_name.rel_iff h.runName
  · rw [hmax]
    exact keeps_limit.rel_iff h.maxConcurrency
  · rw [hlimit]
    exact keeps_limit.rel_iff h.recursionLimit
  · rw [htags]
    exact keeps_tags.rel_iff h.tags
  · rw [hmetadata]
    exact h.rel_metadata

/-- A configuration without a run id of its own has a dictionary as its configurable, whose run id
goes to the tracer. -/
theorem Encodes.runId_eq (h : Encodes str config proto) (hnone : config.lookup "run_id" = none) :
    proto.runId =
      (truthyValue ((fieldsOf (config.lookup "configurable")).lookup "run_id")).map str.text := by
  have hrun := h.runId
  unfold tracingRunId at hrun
  rw [hnone] at hrun
  cases hconf : config.lookup "configurable" with
  | none =>
    rw [hconf] at hrun
    exact (Option.some.inj hrun).symm
  | some w =>
    rw [hconf] at hrun
    obtain ⟨kvs, hkvs, hid⟩ := Option.map_eq_some_iff.mp hrun
    rw [asDict_eq_some.mp hkvs]
    exact hid.symm

theorem Encodes.lookup_restricted (h : Encodes str config proto)
    (hmodes : proto.rootStreamModes = []) {k : String}
    (hk : k ∈ restrictedReservedConfigurableKeys) :
    (configurableFromProto proto).lookup k = none := by
  obtain ⟨-, -, -, -, hroot⟩ := h.lookup_engine
  by_cases hroots : k = "__pregel_root_stream_modes"
  · rw [hroots, hroot, hmodes]
    rfl
  · exact h.lookup_dropped (List.mem_cons_of_mem _
      (List.mem_filter.mpr ⟨hk, decide_eq_true hroots⟩))

/-- A key of a configurable with a field of its own is the same exactly if its value is kept. -/
theorem Encodes.rel_inner (h : Encodes str config proto) (hnone : config.lookup "run_id" = none)
    (hmodes : proto.rootStreamModes = []) {t : String × (Json → Bool)} (ht : t ∈ innerTests) :
    Option.Rel Equal ((configurableFromProto proto).lookup t.1)
        ((fieldsOf (config.lookup "configurable")).lookup t.1) ↔
      ((fieldsOf (config.lookup "configurable")).lookup t.1).all t.2 = true := by
  have hi := h.injected
  obtain ⟨hthread, hns, hid, hproject, hexample, hmap⟩ := h.lookup_typed
  obtain ⟨hresuming, htask, hresume, hdurability, -⟩ := h.lookup_engine
  rcases List.mem_append.mp ht with ht | ht
  · simp only [configurableTests, List.mem_cons, List.not_mem_nil, or_false] at ht
    rcases ht with rfl | rfl | rfl | rfl | rfl | rfl | rfl
    · rw [hthread]
      exact (keeps_text str).rel_iff (congrArg some hi.threadId.symm)
    · rw [hns]
      exact (keeps_text str).rel_iff (congrArg some hi.checkpointNs.symm)
    · rw [hid]
      exact (keeps_nonEmptyText str).rel_iff (congrArg some hi.checkpointId.symm)
    · rw [hproject]
      exact (keeps_nonEmptyText str).rel_iff (congrArg some hi.tracingProject.symm)
    · rw [hexample]
      exact (keeps_nonEmptyText str).rel_iff (congrArg some hi.tracingExampleId.symm)
    · rw [hmap]
      exact keeps_checkpointMap.rel_iff hi.checkpointMap
    · rw [h.lookup_runId, h.runId_eq hnone]
      exact (keeps_runId str).rel_iff rfl
  · rcases List.mem_append.mp ht with ht | ht
    · simp only [List.mem_cons, List.not_mem_nil, or_false] at ht
      rcases ht with rfl | rfl | rfl | rfl | rfl
      · rw [hresuming]
        exact keeps_resuming.rel_iff (congrArg some hi.resuming.symm)
      · rw [htask]
        exact (keeps_text str).rel_iff (congrArg some hi.taskId.symm)
      · rw [hresume]
        exact keeps_resumeMap.rel_iff hi.resumeMap
      · rw [hdurability]
        exact keeps_durability.rel_iff hi.durability
      · rw [h.lookup_dropped (by decide)]
        exact keeps_absent.rel_iff rfl
    · obtain ⟨k, hk, rfl⟩ := List.mem_map.mp ht
      rw [h.lookup_restricted hmodes hk]
      exact keeps_absent.rel_iff rfl

/-- **Of which configurations each key is kept**, whatever else is put in the configurable under a
key that the map carries. -/
theorem Encodes.rel_iff (h : Encodes str config proto) (hmodes : proto.rootStreamModes = [])
    {added : String} (hadded : added ∉ ownConfigurableKeys) (hid : added ≠ "run_id") :
    ((∀ k, k ≠ "configurable" →
        Option.Rel Equal ((configFromProto (some proto)).lookup k) (config.lookup k)) ∧
      ∀ k, k ≠ added → Option.Rel Equal ((configurableFromProto proto).lookup k)
        ((fieldsOf (config.lookup "configurable")).lookup k)) ↔ keptConfig config = true := by
  have hrun : ("run_id", fun _ => false) ∈ outerTests := by simp [outerTests, configTests]
  have houter : ∀ t ∈ outerTests, t.1 ≠ "configurable" := by
    have hnames : ∀ k ∈ outerTests.map Prod.fst, k ≠ "configurable" := by decide
    exact fun t ht => hnames t.1 (List.mem_map_of_mem ht)
  have hinner : ∀ k ∈ innerTests.map Prod.fst, k ∈ ownConfigurableKeys ∨ k = "run_id" := by decide
  rw [keptConfig, Bool.and_eq_true, passes_iff, passes_iff]
  constructor
  · rintro ⟨hconfig, hconf⟩
    have htests : ∀ t ∈ outerTests, (config.lookup t.1).all t.2 = true :=
      fun t ht => (h.rel_outer ht).mp (hconfig t.1 (houter t ht))
    have hnone := eq_none_of_all_false (htests _ hrun)
    refine ⟨htests, fun t ht => (h.rel_inner hnone hmodes ht).mp (hconf t.1 ?_)⟩
    rintro heq
    rcases hinner t.1 (List.mem_map_of_mem ht) with hown | hrunId
    · exact hadded (heq ▸ hown)
    · exact hid (heq ▸ hrunId)
  · rintro ⟨htests, hinnerTests⟩
    have hnone := eq_none_of_all_false (htests _ hrun)
    refine ⟨fun k hk => ?_, fun k _ => ?_⟩
    · by_cases hknown : k ∈ knownConfigKeys
      · have hnamed : ∀ k ∈ knownConfigKeys, k ≠ "configurable" → k ∈ outerTests.map Prod.fst := by
          decide
        obtain ⟨t, ht, rfl⟩ := List.mem_map.mp (hnamed k hknown hk)
        exact (h.rel_outer ht).mpr (htests t ht)
      · rw [h.lookup_extra hknown]
        exact Json.rel_equal_refl _
    · by_cases hown : k ∈ innerTests.map Prod.fst
      · obtain ⟨t, ht, rfl⟩ := List.mem_map.mp hown
        exact (h.rel_inner hnone hmodes ht).mpr (hinnerTests t ht)
      · have hnamed : ∀ k ∈ ownConfigurableKeys, k ∈ innerTests.map Prod.fst := by decide
        have hrunId : "run_id" ∈ innerTests.map Prod.fst := by decide
        rw [h.lookup_other (fun hk => hown (hnamed k hk)) (fun heq => hown (heq ▸ hrunId))]
        exact Json.rel_equal_refl _

/-! ### What is decoded is kept -/

theorem isInt32_of_asInt32_eq {v : Json} {n : Int} (h : asInt32 v = some n) : isInt32 n = true := by
  cases v with
  | num q =>
    rw [asInt32] at h
    split at h
    · next hq =>
      obtain ⟨m, rfl⟩ := exists_int_of_isInt32 hq
      cases h
      rwa [Rat.num_intCast]
    · cases h
  | bool b => cases b <;> cases h <;> rfl
  | _ => cases h

/-- A number that counts as true is not zero. -/
theorem ne_zero_of_asInt32 {v : Json} {n : Int} (hv : truthy (some v) = true)
    (h : asInt32 v = some n) : n ≠ 0 := by
  cases v with
  | num q =>
    have hq : q ≠ 0 := of_decide_eq_true hv
    rw [asInt32] at h
    split at h
    · cases h
      exact Rat.num_ne_zero.mpr hq
    · cases h
  | bool b =>
    cases b with
    | false => cases hv
    | true =>
      cases h
      decide
  | _ => cases h

theorem all_isNonZeroInt {v : Option Json} {a : Option Int}
    (h : converted asInt32 (truthyValue v) = some a) :
    (a.map intJson).all isNonZeroInt = true := by
  rcases converted_eq_some.mp h with ⟨-, rfl⟩ | ⟨x, n, hx, hn, rfl⟩
  · rfl
  · have hzero := ne_zero_of_asInt32 (truthyValue_eq_some.mp hx).2 hn
    simp [intJson, isNonZeroInt, isInt32_of_asInt32_eq hn, hzero]

theorem all_isNonEmptyText_filter (a : Option String) :
    ((a.filter (· ≠ "")).map Json.str).all isNonEmptyText = true := by
  cases h : a.filter (· ≠ "") with
  | none => rfl
  | some s => simpa [isNonEmptyText] using (Option.filter_eq_some_iff.mp h).2

theorem all_isText (a : Option String) : (a.map Json.str).all isText = true := by
  cases a <;> rfl

/-- The keys of a configuration that is decoded. -/
theorem Encodes.passes_outer_decoded (h : Encodes str config proto) :
    passes outerTests (configFromProto (some proto)) = true := by
  obtain ⟨hrun, hcallbacks, hname, hmax, hlimit, htags, hmetadata, -⟩ := h.lookup_fields
  rw [passes_iff]
  intro t ht
  simp only [outerTests, configTests, List.take_succ_cons, List.take_zero, List.mem_cons,
    List.not_mem_nil, or_false] at ht
  rcases ht with rfl | rfl | rfl | rfl | rfl | rfl | rfl
  · rw [hrun]
    rfl
  · rw [hcallbacks]
    rfl
  · rw [hname]
    rcases converted_eq_some.mp h.runName with ⟨-, hnone⟩ | ⟨x, s, hx, hs, hsome⟩
    · rw [hnone]
      rfl
    · obtain rfl := (asStr_eq_some x s).mp hs
      have hne : s ≠ "" := by
        rintro rfl
        cases (truthyValue_eq_some.mp hx).2
      rw [hsome]
      simpa [isNonEmptyText] using hne
  · rw [hmax]
    exact all_isNonZeroInt h.maxConcurrency
  · rw [hlimit]
    exact all_isNonZeroInt h.recursionLimit
  · rw [htags]
    cases htexts : proto.tags with
    | nil => rfl
    | cons tag tags => simp [nonEmptyList, isTexts, isText]
  · rw [hmetadata, all_isDict, fieldsOf_nonEmptyDict, passes_iff]
    refine ⟨isFields_nonEmptyDict _, fun t ht => ?_⟩
    simp only [metadataTests, List.mem_cons, List.not_mem_nil, or_false] at ht
    rcases ht with rfl | rfl
    · rw [h.lookup_metadata, if_pos rfl]
      rcases converted_eq_some.mp h.runAttempt with ⟨-, hnone⟩ | ⟨x, n, -, hn, hsome⟩
      · rw [hnone]
        rfl
      · rw [hsome]
        exact isInt32_of_asInt32_eq hn
    · rw [h.lookup_metadata, if_neg (by decide), if_pos rfl]
      exact all_isText _

/-- The run id that is decoded: that of the tracer, or one that counts as false. -/
theorem Encodes.all_runId_decoded (h : Encodes str config proto) :
    ((configurableFromProto proto).lookup "run_id").all
      (fun v => isText v || !truthy (some v)) = true := by
  rw [h.lookup_runId]
  cases hfilter : proto.runId.filter (· ≠ "") with
  | some s => rfl
  | none =>
    rw [Option.map_none, Option.none_or]
    -- no tracer's run id is left, so that the one of the configurable counts as false
    have hnone : truthyValue ((fieldsOf (config.lookup "configurable")).lookup "run_id") = none := by
      cases hvalue : truthyValue ((fieldsOf (config.lookup "configurable")).lookup "run_id") with
      | none => rfl
      | some x =>
        have hid : ∃ y, y ≠ .str "" ∧ proto.runId = some (str.text y) := by
          have hrun := h.runId
          unfold tracingRunId at hrun
          have hne : ∀ v y, truthyValue v = some y → y ≠ Json.str "" := by
            rintro v y hy rfl
            cases (truthyValue_eq_some.mp hy).2
          split at hrun
          · next v hv => exact ⟨v, hne _ _ hv, (Option.some.inj hrun).symm⟩
          · split at hrun
            · next hconf =>
              rw [hconf] at hvalue
              cases hvalue
            · next w hconf =>
              obtain ⟨kvs, hkvs, hmap⟩ := Option.map_eq_some_iff.mp hrun
              obtain rfl := asDict_eq_some.mp hkvs
              rw [hconf] at hvalue
              rw [show truthyValue (kvs.lookup "run_id") = some x from hvalue] at hmap
              exact ⟨x, hne _ _ hvalue, hmap.symm⟩
        obtain ⟨y, hy, hid⟩ := hid
        rw [hid, filter_ne_empty (str.text_ne y hy)] at hfilter
        cases hfilter
    cases hv : (fieldsOf (config.lookup "configurable")).lookup "run_id" with
    | none => rfl
    | some v =>
      rw [hv] at hnone
      have hfalse : truthy (some v) = false := by
        by_contra htrue
        rw [truthyValue_eq_some.mpr ⟨rfl, by simpa using htrue⟩] at hnone
        cases hnone
      simp [hfalse]

/-- The keys of a configurable that is decoded. -/
theorem Encodes.passes_inner_decoded (h : Encodes str config proto)
    (hmodes : proto.rootStreamModes = []) :
    passes innerTests (configurableFromProto proto) = true := by
  obtain ⟨hthread, hns, hid, hproject, hexample, hmap⟩ := h.lookup_typed
  obtain ⟨hresuming, htask, hresume, hdurability, -⟩ := h.lookup_engine
  rw [passes_iff]
  intro t ht
  rcases List.mem_append.mp ht with ht | ht
  · simp only [configurableTests, List.mem_cons, List.not_mem_nil, or_false] at ht
    rcases ht with rfl | rfl | rfl | rfl | rfl | rfl | rfl
    · rw [hthread]
      exact all_isText _
    · rw [hns]
      exact all_isText _
    · rw [hid]
      exact all_isNonEmptyText_filter _
    · rw [hproject]
      exact all_isNonEmptyText_filter _
    · rw [hexample]
      exact all_isNonEmptyText_filter _
    · rw [hmap]
      cases hentries : proto.checkpointMap with
      | nil => rfl
      | cons e l => simp [nonEmptyList, isTextDict, isText]
    · exact h.all_runId_decoded
  · rcases List.mem_append.mp ht with ht | ht
    · simp only [List.mem_cons, List.not_mem_nil, or_false] at ht
      rcases ht with rfl | rfl | rfl | rfl | rfl
      · rw [hresuming]
        cases proto.resuming <;> rfl
      · rw [htask]
        exact all_isText _
      · rw [hresume]
        cases hentries : proto.resumeMap with
        | nil => rfl
        | cons kv kvs => rfl
      · rw [hdurability]
        cases proto.durability with
        | none => rfl
        | some durability => cases durability <;> rfl
      · rw [h.lookup_dropped (by decide)]
        rfl
    · obtain ⟨k, hk, rfl⟩ := List.mem_map.mp ht
      rw [h.lookup_restricted hmodes hk]
      rfl

/-! ### A second conversion -/

/-- A configuration that is kept is the same after a conversion. -/
theorem exists_proto_rel (str : Str)
    (hengine : passes engineTests (fieldsOf (config.lookup "configurable")) = true)
    (h : storable config = true) :
    ∃ proto, configToProto str config = some (some proto) ∧ ∀ k v,
      Option.Rel Equal ((configFromProto (some proto)).lookup k) v ↔
        Option.Rel Equal (config.lookup k) v := by
  obtain ⟨proto, hencodes, hne, hmeta, hconf, hsame, hmetadata, hconfigurable⟩ :=
    exists_encodes str hengine h
  obtain ⟨-, -, -, -, -, -, dmeta, dconf⟩ := hencodes.lookup_fields
  have hdict : ∀ {w : Option Json}, IsFields w → nonEmptyDict (fieldsOf w) = w := by
    rintro w (rfl | ⟨kvs, rfl, hne⟩)
    · rfl
    · cases kvs with
      | nil => exact absurd rfl hne
      | cons kv kvs => rfl
  refine ⟨proto, configToProto_eq_some.mpr ⟨hne, hencodes⟩, fun k v => ?_⟩
  by_cases h₁ : k = "metadata"
  · subst h₁
    rw [dmeta, ← hdict hmeta, rel_nonEmptyDict, rel_nonEmptyDict]
    simp only [hmetadata]
  · by_cases h₂ : k = "configurable"
    · subst h₂
      rw [dconf, ← hdict hconf, rel_nonEmptyDict, rel_nonEmptyDict]
      simp only [hconfigurable]
    · by_cases hk : k ∈ knownConfigKeys
      · rw [hsame k hk h₁ h₂]
      · rw [hencodes.lookup_extra hk]

end

end NextRole
