import Mathlib.Data.List.ReduceOption
import NextRole.Api.CronScheduler
import NextRole.Api.Crons

/-!
# What a patch of a cron keeps

The schema says that the metadata of a patch is merged with the metadata of the cron, and
every field of a patch is optional.  The route passes the whole body on as the payload and
the stamped metadata of the body as the metadata, and the service replaces both columns.

## Main definitions

* `Keeps` — what the body does not name keeps its value.
* `SameRun` — the run that the cron creates is the same except for the named fields.
* `NothingToLose` — there is nothing in the cron that the body does not name.

## Main results

* `keeps_iff` — when one patch keeps what its body does not name.
* `sameRun_of_keeps` — then the next run is the same except for the named fields.
* `patchCron_keeps_iff` — **a patch keeps what its body does not name exactly when there is
  nothing to lose**.
* `not_keeps_of_enabled` — disabling a cron loses its assistant and its input.
-/

namespace NextRole

/-! ### The frame of a patch -/

/-- A JSON object. -/
def IsObject (j : Json) : Prop := ∃ kvs, j = .obj kvs

/-- Every column, every key of the payload and every key of the metadata other than
`owner` that the body does not name is the same in both rows. -/
structure Keeps (body : CronPatch) (c c' : Cron) : Prop where
  cronId : c'.cronId = c.cronId
  assistantId : c'.assistantId = c.assistantId
  threadId : c'.threadId = c.threadId
  userId : c'.userId = c.userId
  nextRunDate : c'.nextRunDate = c.nextRunDate
  schedule : body.schedule = none → c'.schedule = c.schedule
  endTime : body.endTime = none → c'.endTime = c.endTime
  enabled : body.enabled = none → c'.enabled = c.enabled
  onRunCompleted : body.onRunCompleted = none → c'.onRunCompleted = c.onRunCompleted
  timezone : body.timezone = none → c'.timezone = c.timezone
  payload : ∀ k, k ∉ body.names → c'.payload.get? k = c.payload.get? k
  metadata : ∀ k, k ≠ "owner" → k ∉ body.metadataNames → c'.metadata.get? k = c.metadata.get? k

/-- The run that the scheduler asks for: the same thread and user, and the same fields
and metadata except for those that the body names, and for the field `on_completion` that
the scheduler makes of `on_run_completed`. -/
structure SameRun (body : CronPatch) (c c' : Cron) : Prop where
  threadId : (scheduledRun c').threadId = (scheduledRun c).threadId
  userId : (scheduledRun c').userId = (scheduledRun c).userId
  payload : IsObject c.payload → ∀ k, k ∉ body.names → k ≠ "metadata" →
    (k = "on_completion" → body.onRunCompleted = none) →
      (scheduledRun c').payload.get? k = (scheduledRun c).payload.get? k
  metadata : IsObject c.payload → IsObject c.metadata → "metadata" ∉ body.names → ∀ k, k ≠ "owner" →
    (((scheduledRun c').payload.get? "metadata").bind fun m => m.get? k) =
      ((scheduledRun c).payload.get? "metadata").bind fun m => m.get? k

/-- The configuration that a payload without one is stored with. -/
def bareConfig (cronId : Uuid) : Json :=
  .obj [("configurable", .obj [("cron_id", .str cronId.text)])]

/-- Nothing of the cron is left to lose: its payload has no keys but those that the body
names, apart from a bare configuration, and where the patch writes metadata the cron has
none but what the body names and an owner. -/
structure NothingToLose (caller : Caller) (body : CronPatch) (c : Cron) : Prop where
  payload : ∀ k, k ∉ body.names → k ≠ "config" → c.payload.get? k = none
  config : "config" ∉ body.names → c.payload.get? "config" = some (bareConfig c.cronId)
  metadata : (caller ≠ none ∨ body.sanitize.metadataNames ≠ []) →
    ∀ k, k ≠ "owner" → k ∉ body.metadataNames → c.metadata.get? k = none

/-! ### Names -/

theorem map_fst_filterMap (fields : List (String × Option Json)) :
    (fields.filterMap fun field => field.2.map (field.1, ·)).map Prod.fst =
      (fields.map fun field => field.2.map fun _ => field.1).reduceOption := by
  rw [List.map_filterMap, List.reduceOption, List.filterMap_map]
  apply List.filterMap_congr
  intro field _
  simp [Function.comp_def]

theorem names_sanitize (body : CronPatch) : body.sanitize.names = body.names := by
  obtain ⟨schedule, timezone, endTime, enabled, onRunCompleted, webhook, metadata, config, context,
    others, hothers⟩ := body
  have hkeys := CronPatch.map_fst_stripField "configurable" reservedConfigurableKeys others
  simp only [CronPatch.names, CronPatch.dict, CronPatch.sanitize, List.map_append, hkeys,
    map_fst_filterMap, List.map_cons, Option.map_map, Function.comp_def]

theorem metadataNames_sanitize {body : CronPatch} {k : String} (h : k ∉ body.metadataNames) :
    k ∉ body.sanitize.metadataNames := by
  simp only [CronPatch.metadataNames, CronPatch.sanitize] at h ⊢
  cases hmeta : body.metadata with
  | none => simp
  | some kvs =>
    rw [hmeta] at h
    exact fun hk => h ((List.filter_sublist.map _).subset hk)

theorem lookup_payload_eq_none {body : CronPatch} {metadata : Json} {k : String} (h : k ∉ body.names) :
    (body.dict.map fun kv => if kv.1 = "metadata" then (kv.1, metadata) else kv).lookup k = none := by
  rw [← not_ne_iff, ← mem_names_iff_lookup, List.map_map]
  have hkeys : body.dict.map (Prod.fst ∘ fun kv => if kv.1 = "metadata" then (kv.1, metadata) else kv) =
      body.names := by
    apply List.map_congr_left
    intro kv _
    simp only [Function.comp_apply]
    split <;> rfl
  rw [hkeys]
  exact h

/-! ### The row of a patched cron -/

/-- The metadata that a patch writes. -/
def patchedMetadata (caller : Caller) (body : CronPatch) : Json :=
  stampOwner caller (.obj (body.sanitize.metadata.getD []))

/-- The metadata is written unless it is empty. -/
theorem truthy_patchedMetadata (caller : Caller) (body : CronPatch) :
    truthy (some (patchedMetadata caller body)) = true ↔
      caller ≠ none ∨ body.sanitize.metadataNames ≠ [] := by
  unfold patchedMetadata CronPatch.metadataNames
  cases caller with
  | some identity =>
    have hset : ∀ kvs : List (String × Json),
        truthy (some (stampOwner (some identity) (.obj kvs))) = true := by
      intro kvs
      simp only [stampOwner, Json.set, Json.merge]
      generalize kvs.filter _ = l
      cases l <;> rfl
    simp [hset]
  | none =>
    cases body.sanitize.metadata.getD [] with
    | nil => simp [stampOwner, truthy]
    | cons kv kvs => simp [stampOwner, truthy]

theorem get?_patchedMetadata {caller : Caller} {body : CronPatch} {k : String} (howner : k ≠ "owner")
    (hk : k ∉ body.metadataNames) : (patchedMetadata caller body).get? k = none := by
  have hlookup : (body.sanitize.metadata.getD []).lookup k = none := by
    rw [← not_ne_iff, ← mem_names_iff_lookup]
    exact metadataNames_sanitize hk
  unfold patchedMetadata
  cases caller with
  | none => exact hlookup
  | some identity => rw [stampOwner, Json.get?_set, if_neg howner, hlookup]

theorem get?_storedCronPayload {payload : Json} (cronId : Uuid) {k : String} (hconfig : k ≠ "config") :
    (storedCronPayload payload cronId).get? k = payload.get? k :=
  Json.get?_set_of_ne _ _ hconfig

theorem config_storedCronPayload {kvs : List (String × Json)} (cronId : Uuid)
    (h : kvs.lookup "config" = none) :
    (storedCronPayload (.obj kvs) cronId).get? "config" = some (bareConfig cronId) := by
  have hget : (Json.obj kvs).get? "config" = none := h
  simp only [storedCronPayload, hget]
  rw [Json.get?_set, if_pos rfl]
  rfl

/-! ### When a patch keeps what it does not name -/

variable {host : CronHost} {caller : Caller} {cronId : Uuid} {body : CronPatch} {d d' : Database}
  {c c' : Cron}

/-- The columns of the row that a successful patch leaves, as functions of those before. -/
theorem patchCronRoute_eq_ok (hc : d.cron.get? cronId = some c)
    (h : patchCronRoute host caller cronId body d = .ok (c', d')) :
    ∃ kvs, (∀ k, k ∉ body.names → kvs.lookup k = none) ∧
      d' = { d with cron := d.cron.put c' } ∧
      c' = { c with
        schedule := body.schedule.getD c.schedule
        endTime := (body.endTime.map IsoTime.instant).or c.endTime
        enabled := body.enabled.getD c.enabled
        onRunCompleted := (body.onRunCompleted.map CronOnRunCompleted.name).getD c.onRunCompleted
        timezone := body.timezone.or c.timezone
        payload := storedCronPayload (.obj kvs) cronId
        metadata :=
          if truthy (some (patchedMetadata caller body)) then patchedMetadata caller body
          else c.metadata } := by
  simp only [patchCronRoute] at h
  split at h
  · cases h
  · next hdict =>
    split at h
    · cases h
    · split at h
      · cases h
      · obtain ⟨p, hp, hd, hrow⟩ := updateCron_eq_ok hc hdict h
        refine ⟨_, fun k hk => ?_, hd, hrow⟩
        have hlookup := get?_payloadDictToProto hp
          (lookup_payload_eq_none (names_sanitize body ▸ hk))
        exact hlookup

/-- **When one patch keeps what its body does not name.** -/
theorem keeps_iff (hc : d.cron.get? cronId = some c)
    (h : patchCronRoute host caller cronId body d = .ok (c', d')) :
    Keeps body c c' ↔ NothingToLose caller body c := by
  obtain ⟨kvs, hkvs, -, rfl⟩ := patchCronRoute_eq_ok hc h
  obtain ⟨-, rfl⟩ := Table.get?_eq_some.mp hc
  have hpayload : ∀ k, k ∉ body.names → k ≠ "config" →
      (storedCronPayload (.obj kvs) c.cronId).get? k = none := by
    intro k hk hconfig
    rw [get?_storedCronPayload _ hconfig]
    exact hkvs k hk
  constructor
  · intro hkeeps
    constructor
    · intro k hk hconfig
      rw [← hkeeps.payload k hk]
      exact hpayload k hk hconfig
    · intro hconfig
      rw [← hkeeps.payload "config" hconfig]
      exact config_storedCronPayload c.cronId (hkvs _ hconfig)
    · intro hwritten k howner hk
      have hkept := hkeeps.metadata k howner hk
      rw [if_pos ((truthy_patchedMetadata caller body).mpr hwritten)] at hkept
      rw [← hkept]
      exact get?_patchedMetadata howner hk
  · intro hnothing
    constructor
    · rfl
    · rfl
    · rfl
    · rfl
    · rfl
    · intro hnone
      simp [hnone]
    · intro hnone
      simp [hnone]
    · intro hnone
      simp [hnone]
    · intro hnone
      simp [hnone]
    · intro hnone
      simp [hnone]
    · intro k hk
      by_cases hconfig : k = "config"
      · subst hconfig
        rw [hnothing.config hk]
        exact config_storedCronPayload c.cronId (hkvs _ hk)
      · rw [hnothing.payload k hk hconfig]
        exact hpayload k hk hconfig
    · intro k howner hk
      show (if _ then _ else _ : Json).get? k = _
      split
      · next hwritten =>
        rw [hnothing.metadata ((truthy_patchedMetadata caller body).mp hwritten) k howner hk]
        exact get?_patchedMetadata howner hk
      · rfl

/-! ### The next run -/

/-- The fields of the run of a cron, apart from its metadata. -/
theorem get?_runPayload {c : Cron} (hobj : IsObject c.payload) {k : String} (hk : k ≠ "metadata") :
    (runPayload c).get? k =
      if k = "on_completion" ∧ c.onRunCompleted = "keep" ∧ (c.payload.get? "on_completion").isNone = true
      then some (.str "keep") else c.payload.get? k := by
  obtain ⟨kvs, hkvs⟩ := hobj
  simp only [runPayload]
  rw [Json.get?_set_of_ne _ _ hk]
  split
  · next hkeep =>
    simp only [hkeep.1, hkeep.2, and_true]
    rw [hkvs, Json.get?_set]
    rfl
  · next hkeep =>
    rw [if_neg fun h => hkeep h.2]

theorem metadata_runPayload {c : Cron} (hobj : IsObject c.payload) :
    (runPayload c).get? "metadata" =
      some (c.metadata.concat ((c.payload.get? "metadata").getD (.obj []))) := by
  obtain ⟨kvs, hkvs⟩ := hobj
  simp only [runPayload, getMetadataFromPayload]
  split
  · rw [Json.get?_set_of_ne _ _ (by decide : "metadata" ≠ "on_completion"), hkvs, Json.set,
      Json.get?_set, if_pos rfl]
  · rw [hkvs, Json.get?_set, if_pos rfl]

theorem metadataNames_eq_nil (h : "metadata" ∉ body.names) : body.metadataNames = [] := by
  cases hmeta : body.metadata with
  | none => simp [CronPatch.metadataNames, hmeta]
  | some kvs => exact absurd (by simp [CronPatch.names, CronPatch.dict, hmeta]) h

/-- **Then the next run is the same except for the named fields.** -/
theorem sameRun_of_keeps (hkeeps : Keeps body c c') (hpayload : IsObject c'.payload)
    (hmetadata : IsObject c.metadata → IsObject c'.metadata) : SameRun body c c' := by
  constructor
  · exact hkeeps.threadId
  · exact hkeeps.userId
  · intro hobj k hk hmeta hcompletion
    show (runPayload c').get? k = (runPayload c).get? k
    rw [get?_runPayload hpayload hmeta, get?_runPayload hobj hmeta, hkeeps.payload k hk]
    by_cases hkey : k = "on_completion"
    · subst hkey
      rw [hkeeps.payload _ hk, hkeeps.onRunCompleted (hcompletion rfl)]
    · simp only [hkey, false_and, if_false]
  · intro hobj hmeta hname k howner
    show ((runPayload c').get? "metadata").bind _ = ((runPayload c).get? "metadata").bind _
    obtain ⟨l, hl⟩ := hmeta
    obtain ⟨l', hl'⟩ := hmetadata ⟨l, hl⟩
    have hkept : l'.lookup k = l.lookup k := by
      have hget := hkeeps.metadata k howner (by rw [metadataNames_eq_nil hname]; exact List.not_mem_nil)
      rwa [hl, hl'] at hget
    rw [metadata_runPayload hpayload, metadata_runPayload hobj, hkeeps.payload _ hname, hl, hl']
    simp only [Option.bind_some]
    cases (c.payload.get? "metadata").getD (.obj []) with
    | obj r => rw [Json.get?_concat, Json.get?_concat, hkept]
    | _ => rfl

/-- **A patch keeps what its body does not name**, and so the next run is the same except
for the named fields, **exactly when there is nothing to lose**. -/
theorem patchCron_keeps_iff (hc : d.cron.get? cronId = some c)
    (h : patchCronRoute host caller cronId body d = .ok (c', d')) :
    (Keeps body c c' ∧ SameRun body c c') ↔ NothingToLose caller body c := by
  rw [← keeps_iff hc h]
  refine ⟨And.left, fun hkeeps => ⟨hkeeps, sameRun_of_keeps hkeeps ?_ ?_⟩⟩
  · obtain ⟨kvs, -, -, rfl⟩ := patchCronRoute_eq_ok hc h
    exact ⟨_, rfl⟩
  · rintro ⟨l, hl⟩
    obtain ⟨kvs, -, -, rfl⟩ := patchCronRoute_eq_ok hc h
    show IsObject (if _ then _ else _)
    split
    · unfold patchedMetadata
      cases caller <;> exact ⟨_, rfl⟩
    · exact ⟨l, hl⟩

/-! ### A cron that is disabled -/

/-- A host that knows no zone but UTC and refuses no webhook. -/
def plainHost : CronHost where
  isTimezone zone := zone = "UTC"
  webhookError _ := none
  str
    | .str text => text
    | j => j.render
  configThroughProto config := some (.obj config)

/-- A cron as the route creates it, and one that has been patched to its schedule alone. -/
def weekly : Cron where
  cronId := 5
  assistantId := some 1
  payload := .obj [("assistant_id", .str "1"), ("input", .obj [("topic", .str "jobs")]),
    ("schedule", .str "0 9 * * 1"), ("config", bareConfig 5)]
  schedule := "0 9 * * 1"
  metadata := .obj [("owner", .str "ann"), ("label", .str "search")]

def scheduleOnly : Cron :=
  { weekly with
    payload := .obj [("schedule", .str "0 9 * * 1"), ("config", bareConfig 5)]
    metadata := .obj [("owner", .str "ann")] }

/-- The database with one cron. -/
def storeWith (c : Cron) : Database := { Database.fresh .empty with cron := Table.empty.put c }

/-- A new schedule keeps what there is of a cron that has nothing else. -/
theorem keeps_scheduleOnly :
    ∃ c' d', patchCronRoute plainHost (some "ann") 5 { schedule := some "0 8 * * 1" }
        (storeWith scheduleOnly) = .ok (c', d') ∧
      Keeps { schedule := some "0 8 * * 1" } scheduleOnly c' ∧
        SameRun { schedule := some "0 8 * * 1" } scheduleOnly c' := by
  refine ⟨_, _, rfl, (@patchCron_keeps_iff plainHost (some "ann") 5 { schedule := some "0 8 * * 1" }
    (storeWith scheduleOnly) _ scheduleOnly _ rfl rfl).mpr ?_⟩
  constructor
  · intro k hk hconfig
    have hschedule : k ≠ "schedule" := by simpa [CronPatch.names, CronPatch.dict] using hk
    show List.lookup k _ = none
    rw [← not_ne_iff, ← mem_names_iff_lookup]
    simp [hconfig, hschedule]
  · intro _
    rfl
  · intro _ k howner _
    show List.lookup k _ = none
    rw [← not_ne_iff, ← mem_names_iff_lookup]
    simp [howner]

/-- Disabling a cron loses its assistant, its input and its label. -/
theorem not_keeps_of_enabled :
    ∃ c' d', patchCronRoute plainHost (some "ann") 5 { enabled := some false } (storeWith weekly) =
        .ok (c', d') ∧
      c'.payload.get? "assistant_id" = none ∧ c'.payload.get? "input" = none ∧
      c'.metadata.get? "label" = none ∧ ¬ Keeps { enabled := some false } weekly c' := by
  refine ⟨_, _, rfl, rfl, rfl, rfl, fun hkeeps => ?_⟩
  have hlabel := hkeeps.metadata "label" (by decide) (by decide)
  cases hlabel

end NextRole
