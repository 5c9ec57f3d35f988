import NextRole.Agents.Auth
import NextRole.Servicers.Crons

/-!
# Crons in the API

The route `PATCH /runs/crons/{id}` of `api/api/runs.py` with the call that it makes of
`Crons.update` in `api/grpc/ops/crons.py`, and `next_cron_date` of `api/utils`, by which
the API dates a cron.

## Main definitions

* `nextCronDate` — the next date of a schedule in a timezone.
* `CronPatch` — a body that the schema of the route accepts.
* `CronPatch.sanitize` — `sanitize_reserved_keys`.
* `payloadDictToProto` — `_payload_dict_to_proto`.
* `updateCron`, `patchCronRoute` — `Crons.update` and the route `patch_cron`.

## Main results

* `get?_payloadDictToProto` — a payload has no key that its dict has not.
* `updateCron_eq_ok` — what the row of a patched cron is.
-/

namespace NextRole

/-! ### Dates -/

/-- The zone in which a cron's schedule is read: an absent or empty timezone is UTC. -/
def cronZone : Option String → String
  | none | some "" => "UTC"
  | some timezone => timezone

/-- `next_cron_date`, over the `get_next` of a croniter that is given a schedule, the
zone of its base and the base. -/
def nextCronDate (getNext : String → String → Timestamp → Option Timestamp) (schedule : String)
    (baseTime : Timestamp) (timezone : Option String) : Option Timestamp :=
  getNext schedule (cronZone timezone) baseTime

/-- `_compute_next_run_date` of the Crons service, whose base is in UTC. -/
def computeNextRunDate (getNext : String → String → Timestamp → Option Timestamp) (schedule : String)
    (base : Timestamp) : Option Timestamp :=
  getNext schedule "UTC" base

/-! ### The body of a patch -/

/-- `RESERVED_CONFIGURABLE_KEYS`. -/
def reservedConfigurableKeys : List String :=
  ["langgraph_auth_user", "langgraph_auth_user_id", "langgraph_auth_permissions",
    "langgraph_request_id", "__langsmith_project__", "__langsmith_example_id__",
    "__request_start_time_ms__", "__after_seconds__", "__otel_traceparent__", "__otel_tracestate__",
    "__dd_trace_headers__", "__pregel_node_finished"]

/-- `RESERVED_METADATA_KEYS`. -/
def reservedMetadataKeys : List String := ["thread_id", "assistant_id", "run_id", "cron_id"]

/-- The fields of a patch that the route reads or whose type it relies on. -/
def cronPatchNames : List String :=
  ["schedule", "timezone", "end_time", "enabled", "on_run_completed", "webhook", "metadata", "config",
    "context"]

/-- An ISO text with the instant that it denotes. -/
structure IsoTime where
  text : String
  instant : Timestamp
  deriving Repr, DecidableEq

/-- A body that the schema `CronPatch` accepts: every field is optional, and the fields
that the schema does not name are kept. -/
structure CronPatch where
  schedule : Option String := none
  timezone : Option String := none
  endTime : Option IsoTime := none
  enabled : Option Bool := none
  onRunCompleted : Option CronOnRunCompleted := none
  webhook : Option String := none
  metadata : Option (List (String × Json)) := none
  config : Option (List (String × Json)) := none
  context : Option (List (String × Json)) := none
  /-- The fields that the route only stores. -/
  others : List (String × Json) := []
  others_names : ∀ kv ∈ others, kv.1 ∉ cronPatchNames := by decide

namespace CronPatch

/-- The dict of a body. -/
def dict (body : CronPatch) : List (String × Json) :=
  let fields := [
    ("schedule", body.schedule.map .str),
    ("timezone", body.timezone.map .str),
    ("end_time", body.endTime.map fun t => .str t.text),
    ("enabled", body.enabled.map .bool),
    ("on_run_completed", body.onRunCompleted.map fun o => .str o.name),
    ("webhook", body.webhook.map .str),
    ("metadata", body.metadata.map .obj),
    ("config", body.config.map .obj),
    ("context", body.context.map .obj)]
  fields.filterMap (fun field => field.2.map (field.1, ·)) ++ body.others

/-- The fields that a body names. -/
def names (body : CronPatch) : List String := body.dict.map Prod.fst

/-- The keys of the metadata that a body names. -/
def metadataNames (body : CronPatch) : List String := (body.metadata.getD []).map Prod.fst

/-- `_strip_reserved`. -/
def stripReserved (reserved : List String) (kvs : List (String × Json)) : List (String × Json) :=
  kvs.filter fun kv => kv.1 ∉ reserved

/-- The value of one field of a dict is stripped if it is a dict. -/
def stripField (name : String) (reserved : List String) (kvs : List (String × Json)) :
    List (String × Json) :=
  kvs.map fun kv =>
    match kv.2 with
    | .obj inner => if kv.1 = name then (kv.1, .obj (stripReserved reserved inner)) else kv
    | _ => kv

theorem map_fst_stripField (name : String) (reserved : List String) (kvs : List (String × Json)) :
    (stripField name reserved kvs).map Prod.fst = kvs.map Prod.fst := by
  rw [stripField, List.map_map]
  apply List.map_congr_left
  intro kv _
  simp only [Function.comp_apply]
  split
  · split <;> rfl
  · rfl

/-- `sanitize_reserved_keys`, on a body. -/
def sanitize (body : CronPatch) : CronPatch :=
  { body with
    metadata := body.metadata.map (stripReserved reservedMetadataKeys)
    config := body.config.map fun config =>
      stripField "configurable" reservedConfigurableKeys
        (stripField "metadata" reservedMetadataKeys config)
    context := body.context.map (stripReserved reservedConfigurableKeys)
    others := stripField "configurable" reservedConfigurableKeys body.others
    others_names := by
      intro kv hkv
      have hname : kv.1 ∈ (stripField "configurable" reservedConfigurableKeys body.others).map
          Prod.fst := List.mem_map_of_mem hkv
      rw [map_fst_stripField] at hname
      obtain ⟨kv', hkv', heq⟩ := List.mem_map.mp hname
      exact heq ▸ body.others_names kv' hkv' }

end CronPatch

/-! ### Crons.update and the route -/

/-- What the route relies on: the zones that `ZoneInfo` knows, the check of a webhook with
the text of its refusal, the text that `str` gives a value, and what a configuration is
after `config_to_proto` and `config_from_proto`, if they do not raise. -/
structure CronHost where
  isTimezone : String → Bool
  webhookError : String → Option String
  str : Json → String
  configThroughProto : List (String × Json) → Option Json

/-- A text. -/
def textValue : Option Json → Option String
  | some (.str text) => some text
  | _ => none

/-- The keys that `_payload_dict_to_proto` puts in fields of their own. -/
def simpleKeys : List String := ["assistant_id", "input", "context", "metadata", "webhook", "config"]

/-- `_payload_dict_to_proto`, with the texts parsed; `none` is a configuration that the
conversion does not take. -/
def payloadDictToProto (host : CronHost) (payload : List (String × Json)) : Option CronPayload :=
  let p : CronPayload :=
    { assistantId := ((payload.lookup "assistant_id").map host.str).getD ""
      input := nonNull (payload.lookup "input")
      context := nonNull (payload.lookup "context")
      metadata := nonNull (payload.lookup "metadata")
      webhook := textValue (payload.lookup "webhook")
      extra := payload.filter fun kv => kv.1 ∉ simpleKeys && kv.2 ≠ .null }
  match payload.lookup "config" with
  | some (.obj config) =>
    if config = [] then some p
    else (host.configThroughProto config).map fun converted => { p with config := some converted }
  | _ => some p

/-- Why the route refuses a patch. -/
inductive PatchCronFailure
  | badRequest (detail : String)
  | unprocessable (detail : String)
  | notFound (detail : String)
  /-- The conversion of the configuration raised. -/
  | internalError
  deriving Repr, DecidableEq

/-- `Crons.update`: the hook stamps the metadata of the request, which is also the
metadata of the payload if the body has one. -/
def updateCron (host : CronHost) (caller : Caller) (cronId : Uuid) (body : CronPatch) (d : Database) :
    Except PatchCronFailure (Cron × Database) :=
  let metadata := stampOwner caller (.obj (body.metadata.getD []))
  let payload := body.dict.map fun kv => if kv.1 = "metadata" then (kv.1, metadata) else kv
  match payloadDictToProto host payload with
  | none => .error .internalError
  | some p =>
    let request : PatchCronRequest :=
      { cronId := cronId
        filters := authFilters caller
        schedule := body.schedule
        endTime := body.endTime.map IsoTime.instant
        enabled := body.enabled
        onRunCompleted := body.onRunCompleted
        payload := if body.dict = [] then none else some p
        metadataJson := if truthy (some metadata) then some metadata else none
        timezone := body.timezone }
    match patchCron request d with
    | none => .error (.notFound ("Cron " ++ cronId.text ++ " not found"))
    | some result => .ok result

/-- The route `patch_cron`, on a body that the schema accepts. -/
def patchCronRoute (host : CronHost) (caller : Caller) (cronId : Uuid) (raw : CronPatch)
    (d : Database) : Except PatchCronFailure (Cron × Database) :=
  let body := raw.sanitize
  if body.dict = [] then .error (.badRequest "Request body cannot be empty")
  else if body.timezone.any fun timezone => !host.isTimezone timezone then
    .error (.unprocessable ("Invalid timezone: '" ++ body.timezone.getD "" ++
      "'. Use IANA timezone format (e.g. 'America/New_York')."))
  else
    match body.webhook.bind host.webhookError with
    | some detail => .error (.unprocessable detail)
    | none => updateCron host caller cronId body d

/-! ### What the row of a patched cron is -/

theorem mem_names_iff_lookup {kvs : List (String × Json)} {k : String} :
    k ∈ kvs.map Prod.fst ↔ kvs.lookup k ≠ none := by
  induction kvs with
  | nil => simp
  | cons kv kvs ih =>
    obtain ⟨k', v⟩ := kv
    rw [List.map_cons, List.mem_cons, ih, List.lookup_cons]
    by_cases h : k = k'
    · simp [h]
    · have hne : (k == k') = false := by simpa using h
      simp [h, hne]

theorem lookup_filterMap_eq_none {fields : List (String × Option Json)} {k : String}
    (h : ∀ field ∈ fields, field.1 = k → field.2 = none) :
    (fields.filterMap fun field => field.2.map (field.1, ·)).lookup k = none := by
  rw [← not_ne_iff, ← mem_names_iff_lookup, List.mem_map]
  rintro ⟨kv, hkv, hkey⟩
  obtain ⟨field, hmem, hfield⟩ := List.mem_filterMap.mp hkv
  obtain ⟨v, hv, rfl⟩ := Option.map_eq_some_iff.mp hfield
  rw [h field hmem hkey] at hv
  cases hv

/-- A payload has no key that its dict has not. -/
theorem get?_payloadDictToProto {host : CronHost} {payload : List (String × Json)} {p : CronPayload}
    {k : String} (h : payloadDictToProto host payload = some p) (hk : payload.lookup k = none) :
    p.toDict.get? k = none := by
  have hextra : (payload.filter fun kv => kv.1 ∉ simpleKeys && kv.2 ≠ .null).lookup k = none := by
    rw [← not_ne_iff, ← mem_names_iff_lookup] at hk ⊢
    exact fun hmem => hk ((List.filter_sublist.map _).subset hmem)
  -- the other fields of the message hold what the dict has under their own names
  have hfields : ∀ q : CronPayload,
      q.extra = payload.filter (fun kv => kv.1 ∉ simpleKeys && kv.2 ≠ .null) →
      q.assistantId = ((payload.lookup "assistant_id").map host.str).getD "" →
      q.input = nonNull (payload.lookup "input") → q.context = nonNull (payload.lookup "context") →
      q.metadata = nonNull (payload.lookup "metadata") →
      q.webhook = textValue (payload.lookup "webhook") →
      (payload.lookup "config" = none → q.config = none) →
      q.interruptBefore = none → q.interruptAfter = none → q.multitaskStrategy = none →
      q.toDict.get? k = none := by
    intro q hext haid hin hctx hmeta hweb hcfg hib hia hms
    rw [CronPayload.toDict, Json.get?_obj, Json.lookup_merge, hext, hextra, Option.none_or]
    apply lookup_filterMap_eq_none
    intro field hfield hkey
    subst hkey
    simp only [List.mem_cons, List.not_mem_nil, or_false] at hfield
    rcases hfield with rfl | rfl | rfl | rfl | rfl | rfl | rfl | rfl | rfl
    · simp [haid, hk]
    · simp [hin, hk, nonNull]
    · simp [hctx, hk, nonNull]
    · simp [hmeta, hk, nonNull]
    · simp [hweb, hk, textValue]
    · exact hcfg hk
    · simp [hib]
    · simp [hia]
    · simp [hms]
  unfold payloadDictToProto at h
  split at h
  · next config hconfig =>
    split at h
    · cases h
      exact hfields _ rfl rfl rfl rfl rfl rfl (fun _ => rfl) rfl rfl rfl
    · obtain ⟨converted, -, rfl⟩ := Option.map_eq_some_iff.mp h
      refine hfields _ rfl rfl rfl rfl rfl rfl ?_ rfl rfl rfl
      intro hnone
      rw [hnone] at hconfig
      cases hconfig
  · cases h
    exact hfields _ rfl rfl rfl rfl rfl rfl (fun _ => rfl) rfl rfl rfl

/-- The row of a patched cron: the columns that the request sets, with a payload made of
the body alone. -/
theorem updateCron_eq_ok {host : CronHost} {caller : Caller} {cronId : Uuid} {body : CronPatch}
    {d d' : Database} {c c' : Cron} (hc : d.cron.get? cronId = some c) (hbody : body.dict ≠ [])
    (h : updateCron host caller cronId body d = .ok (c', d')) :
    ∃ p, payloadDictToProto host
        (body.dict.map fun kv => if kv.1 = "metadata" then
          (kv.1, stampOwner caller (.obj (body.metadata.getD []))) else kv) = some p ∧
      d' = { d with cron := d.cron.put c' } ∧
      c' = { c with
        schedule := body.schedule.getD c.schedule
        endTime := (body.endTime.map IsoTime.instant).or c.endTime
        enabled := body.enabled.getD c.enabled
        onRunCompleted := (body.onRunCompleted.map CronOnRunCompleted.name).getD c.onRunCompleted
        timezone := body.timezone.or c.timezone
        payload := storedCronPayload p.toDict cronId
        metadata :=
          if truthy (some (stampOwner caller (.obj (body.metadata.getD [])))) then
            stampOwner caller (.obj (body.metadata.getD []))
          else c.metadata } := by
  simp only [updateCron] at h
  split at h
  · cases h
  · next p hp =>
    split at h
    · cases h
    · next result hresult =>
      cases h
      obtain ⟨old, hold, -, hrow, hd⟩ := patchCron_eq_some.mp hresult
      obtain rfl := Option.some.inj (hc.symm.trans hold)
      refine ⟨p, hp, hd, ?_⟩
      rw [hrow]
      simp only [PatchCronRequest.update, hbody, if_false, Option.map_some, Option.getD_some]
      split <;> rfl

end NextRole
