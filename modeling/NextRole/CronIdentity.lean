import NextRole.Api.CronAuth
import NextRole.ConfigRoundTrip

/-!
# A cron runs as its creator

The row of a cron has the identity of its creator in `user_id` and in the owner of its metadata,
and no patch of another user reaches it.  The routes strip the key of a user from the
configuration that is stored, so that the scheduler enters the context of `user_id`.  A message
has no `user_id` that is empty, and the scheduler then stays in the context that it is in.

## Main definitions

* `authUserKey` — the user that a payload names.
* `RunsAs` — a call of the scheduler is made as a user, on a thread of that user.
* `Attributed` — the invariant of the users, the rows and the calls.

## Main results

* `createCronRoute_eq_some` — the row of a cron that is created.
* `authUserKey_payloadDictToProto` — the conversion of a payload adds no user.
* `setAuthCtxForRun_of_none` — the context of a payload that names no user.
* `runsAs_of_createCall` — a call that is made as a user.
* `runsAs_creator_iff` — a call for a cron is made as the user who wrote the cron exactly if
  the user has a name.
* `not_runsAs_creator` — a creator without a name.
-/

namespace NextRole

/-! ### The user that a payload names -/

/-- The user that a payload names. -/
def authUserKey (payload : Json) : Option Json :=
  ((payload.get? "config").bind fun config => config.get? "configurable").bind fun configurable =>
    configurable.get? "langgraph_auth_user"

/-- What is set under a name, of fields with different names. -/
theorem lookup_filterMap {fields : List (String × Option Json)}
    (h : (fields.map Prod.fst).Nodup) (k : String) :
    (fields.filterMap fun field => field.2.map (field.1, ·)).lookup k = (fields.lookup k).join := by
  induction fields with
  | nil => rfl
  | cons field fields ih =>
    obtain ⟨name, value⟩ := field
    rw [List.map_cons, List.nodup_cons] at h
    by_cases hk : k = name
    · subst hk
      have hnone : fields.lookup k = none := List.lookup_eq_none_iff.mpr fun field hfield =>
        bne_iff_ne.mpr fun heq => h.1 (List.mem_map.mpr ⟨field, hfield, heq.symm⟩)
      cases value with
      | none =>
        rw [List.filterMap_cons_none (by rfl), ih h.2, List.lookup_cons_self, hnone]
        rfl
      | some v =>
        rw [List.filterMap_cons_some (by rfl), List.lookup_cons_self, List.lookup_cons_self]
        rfl
    · have hne : (k == name) = false := by simpa using hk
      cases value with
      | none => rw [List.filterMap_cons_none (by rfl), ih h.2, List.lookup_cons, hne]
      | some v =>
        rw [List.filterMap_cons_some (by rfl), List.lookup_cons, hne, ih h.2, List.lookup_cons, hne]

theorem lookup_config_dict (body : CronPatch) :
    body.dict.lookup "config" = body.config.map .obj := by
  have hothers : body.others.lookup "config" = none := by
    rw [← not_ne_iff, ← mem_names_iff_lookup, List.mem_map]
    rintro ⟨kv, hkv, hname⟩
    exact absurd (hname ▸ body.others_names kv hkv) (by decide)
  rw [CronPatch.dict, Json.lookup_append, hothers, Option.or_none, lookup_filterMap (by simp)]
  rfl

theorem get?_config_toDict {p : CronPayload} (h : p.extra.lookup "config" = none) :
    p.toDict.get? "config" = p.config := by
  rw [CronPayload.toDict, Json.get?_obj, Json.lookup_merge, h, Option.none_or,
    lookup_filterMap (by simp)]
  rfl

theorem authUserKey_configFromProto {str : Str} {config : List (String × Json)}
    {proto : EngineRunnableConfig} (h : Encodes str config proto)
    (hnone : (fieldsOf (config.lookup "configurable")).lookup "langgraph_auth_user" = none) :
    (fieldsOf ((configFromProto (some proto)).lookup "configurable")).lookup
      "langgraph_auth_user" = none := by
  obtain ⟨-, -, -, -, -, -, -, hconf⟩ := h.lookup_fields
  rw [hconf, fieldsOf_nonEmptyDict, h.lookup_other (by decide) (by decide), hnone]

theorem authUserKey_eq (payload : Json) : authUserKey payload =
    (fieldsOf ((fieldsOf (payload.get? "config")).lookup "configurable")).lookup
      "langgraph_auth_user" := by
  rw [lookup_fieldsOf, lookup_fieldsOf, authUserKey]

/-- The conversion of a payload adds no user. -/
theorem authUserKey_payloadDictToProto {deployment : CronDeployment}
    {payload : List (String × Json)} {p : CronPayload}
    (h : payloadDictToProto deployment.host payload = some p)
    (hnone : authUserKey (.obj payload) = none) : authUserKey p.toDict = none := by
  have hextra : (payload.filter fun kv => kv.1 ∉ simpleKeys && kv.2 ≠ .null).lookup "config" =
      none := by
    refine List.lookup_eq_none_iff.mpr fun kv hkv => bne_iff_ne.mpr fun heq => ?_
    have hkey := (List.mem_filter.mp hkv).2
    rw [← heq] at hkey
    simp [simpleKeys] at hkey
  unfold payloadDictToProto at h
  split at h
  · next config hconfig =>
    split at h
    · cases h
      rw [authUserKey, get?_config_toDict hextra]
      rfl
    · next hne =>
      obtain ⟨converted, hconverted, rfl⟩ := Option.map_eq_some_iff.mp h
      obtain ⟨message, hmessage, rfl⟩ := Option.map_eq_some_iff.mp hconverted
      rw [authUserKey_eq, get?_config_toDict hextra]
      cases message with
      | none => rfl
      | some proto =>
        rw [authUserKey_eq, Json.get?_obj, hconfig] at hnone
        exact authUserKey_configFromProto (configToProto_eq_some.mp hmessage).2 hnone
  · cases h
    rw [authUserKey, get?_config_toDict hextra]
    rfl

/-- What is stored for a cron names no user that its payload does not name. -/
theorem authUserKey_storedCronPayload {payload : List (String × Json)} (cronId : Uuid)
    (hnone : authUserKey (.obj payload) = none) :
    authUserKey (storedCronPayload (.obj payload) cronId) = none := by
  unfold storedCronPayload
  generalize hconfig : (if truthy ((Json.obj payload).get? "config") then
    ((Json.obj payload).get? "config").getD .null else .obj []) = config
  have hinner : ((config.get? "configurable").getD (.obj [])).get? "langgraph_auth_user" = none := by
    rw [authUserKey] at hnone
    split at hconfig
    · subst hconfig
      cases hget : (Json.obj payload).get? "config" with
      | none => rfl
      | some c =>
        rw [hget, Option.bind_some] at hnone
        cases hc : c.get? "configurable" with
        | none => simp [hc]
        | some inner => simpa [hc] using hnone
    · subst hconfig
      rfl
  rw [authUserKey, Json.get?_set, if_pos rfl, Option.bind_some]
  cases config with
  | obj kvs =>
    rw [Json.get?_set, if_pos rfl, Option.bind_some, Json.get?_set_of_ne _ _ (by decide)]
    exact hinner
  | _ => rfl

/-- What is stripped of a field is not there. -/
theorem lookup_stripField (name : String) {reserved : List String} (kvs : List (String × Json))
    {k : String} (hk : k ∈ reserved) :
    (fieldsOf ((CronPatch.stripField name reserved kvs).lookup name)).lookup k = none := by
  induction kvs with
  | nil => rfl
  | cons kv kvs ih =>
    obtain ⟨key, v⟩ := kv
    rw [CronPatch.stripField, List.map_cons]
    by_cases hname : key = name
    · subst hname
      cases v with
      | obj inner =>
        simp only [if_pos, List.lookup_cons_self, fieldsOf]
        rw [CronPatch.stripReserved, Json.lookup_filter fun key => decide (key ∉ reserved)]
        simp [hk]
      | _ =>
        simp only [List.lookup_cons_self, fieldsOf]
        rfl
    · have hne : (name == key) = false := by simpa using Ne.symm hname
      cases v with
      | obj inner =>
        simp only [if_neg hname, List.lookup_cons, hne]
        exact ih
      | _ =>
        simp only [List.lookup_cons, hne]
        exact ih

theorem lookup_configurable_sanitize (body : CronPatch) :
    (fieldsOf ((body.sanitize.config.getD []).lookup "configurable")).lookup
      "langgraph_auth_user" = none := by
  cases hconfig : body.config with
  | none =>
    simp only [CronPatch.sanitize, hconfig]
    rfl
  | some config =>
    simp only [CronPatch.sanitize, hconfig, Option.map_some, Option.getD_some]
    exact lookup_stripField _ _ (by decide)

theorem lookup_map_of_ne {kvs : List (String × Json)} {k name : String} (v : Json) (hne : k ≠ name) :
    (kvs.map fun kv => if kv.1 = name then (kv.1, v) else kv).lookup k = kvs.lookup k := by
  induction kvs with
  | nil => rfl
  | cons kv kvs ih =>
    obtain ⟨key, w⟩ := kv
    rw [List.map_cons, List.lookup_cons, ih, List.lookup_cons]
    by_cases hkey : key = name
    · have hk : (k == key) = false := by simpa [hkey] using hne
      simp [hkey ▸ hk, hkey]
    · simp [hkey]

theorem authUserKey_dict {body : CronPatch} (metadata : Json)
    (h : (fieldsOf ((body.config.getD []).lookup "configurable")).lookup "langgraph_auth_user" =
      none) :
    authUserKey (.obj (body.dict.map fun kv =>
      if kv.1 = "metadata" then (kv.1, metadata) else kv)) = none := by
  rw [authUserKey_eq, Json.get?_obj, lookup_map_of_ne metadata (by decide), lookup_config_dict]
  cases hconfig : body.config with
  | none => rfl
  | some config =>
    rw [hconfig] at h
    exact h

theorem lookup_configurable_withConfigurable (config : List (String × Json)) (k : String) :
    (fieldsOf ((withConfigurable config).lookup "configurable")).lookup k =
      (fieldsOf (config.lookup "configurable")).lookup k := by
  unfold withConfigurable
  cases h : config.lookup "configurable" with
  | some v => simp [h]
  | none =>
    simp only [Json.lookup_append, h]
    rfl

/-! ### The context of a run -/

/-- A payload that names no user runs under the user of its cron. -/
theorem setAuthCtxForRun_of_none (str : Str) {kwargs : List (String × Json)}
    (h : authUserKey (.obj kwargs) = none) (userId : Option String) :
    ∃ permissions, (setAuthCtxForRun str kwargs userId).1 =
      (simpleUser userId).map fun user => ⟨some user, permissions⟩ := by
  unfold setAuthCtxForRun
  cases hconf : runConfigurableOf kwargs with
  | none => exact ⟨[], rfl⟩
  | some configurable =>
    obtain ⟨config, hconfig, hconfigurable⟩ := Option.bind_eq_some_iff.mp hconf
    obtain ⟨v, hv, hdict⟩ := Option.bind_eq_some_iff.mp hconfig
    obtain ⟨w, hw, hdict'⟩ := Option.bind_eq_some_iff.mp hconfigurable
    obtain rfl := asDict_eq_some.mp hdict
    obtain rfl := asDict_eq_some.mp hdict'
    rw [authUserKey, Json.get?_obj, hv, Option.bind_some, Json.get?_obj, hw] at h
    have hnone : configurable.lookup "langgraph_auth_user" = none := h
    simp only [hnone]
    exact ⟨permissionsOf configurable, rfl⟩

theorem authUserKey_fieldsOf {j : Json} (h : authUserKey j = none) :
    authUserKey (.obj (fieldsOf (some j))) = none := by
  cases j with
  | obj kvs => exact h
  | _ => rfl

/-- The scheduler adds no user to a payload. -/
theorem authUserKey_runPayload {cron : Cron} (h : authUserKey cron.payload = none) :
    authUserKey (runPayload cron) = none := by
  have hset : ∀ (j : Json) (k : String) (v : Json), "config" ≠ k →
      authUserKey (j.set k v) = authUserKey j := by
    intro j k v hk
    rw [authUserKey, Json.get?_set_of_ne j v hk, authUserKey]
  unfold runPayload
  dsimp only
  rw [hset _ _ _ (by decide)]
  split
  · rw [hset _ _ _ (by decide)]
    exact h
  · exact h

/-! ### A call of a user -/

/-- A call of the scheduler is made as a user: in the context of the user, whom the gate of the
call charges, and every run of it has the user as its owner, as its thread has. -/
structure RunsAs (u : String) (e : ScheduledCall) : Prop where
  authorized : (e.auth.bind AuthContext.user).map User.identity = some u
  charged : e.call.caller = some u
  owned : ∀ run ∈ insertedRun e.call.params e.db e.db,
    run.metadata.get? "owner" = some (.str u) ∧
      ∃ thread ∈ runThread e.call.params e.db e.db, thread.threadId = run.threadId ∧
        thread.metadata.get? "owner" = some (.str u)

theorem get?_owner_of_admits {u : String} {column : Json}
    (h : admits (ownerFilter u) column = true) : column.get? "owner" = some (.str u) := by
  obtain ⟨w, hw, hcontains⟩ := (admits_owner u column).mp h
  cases w with
  | str s =>
    have hs : s = u := by simpa [Json.deepContains] using hcontains
    rw [hw, hs]
  | _ => simp [Json.deepContains] at hcontains

/-- A call in the context of a user is made as the user. -/
theorem runsAs_of_createCall {host : RunHost} {cron : Cron} {auth : Option AuthContext}
    {env : CreateEnv} {threadId : Option Uuid} {payload : List (String × Json)}
    {call : CreateCall} {u : String} (d : Database)
    (hauth : (auth.bind AuthContext.user).map User.identity = some u)
    (hcall : createCall host { auth := auth, env := env } threadId false payload = some call) :
    RunsAs u ⟨cron, auth, call, d⟩ := by
  obtain ⟨-, -, -, -, -, -, -, hcaller, -, -⟩ := createCall_eq_some hcall
  have hcaller' : call.caller = some u := hcaller.trans hauth
  have hmetadata := call.get?_owner hcaller'
  refine ⟨hauth, hcaller', fun run hrun => ?_⟩
  obtain ⟨-, thread, hthread, assistant, -, rfl⟩ := mem_insertedRun.mp hrun
  refine ⟨hmetadata, thread, hthread, rfl, ?_⟩
  rcases mem_runThread.mp hthread with ⟨-, -, hadmits⟩ | hinserted
  · have hfilters : call.params.threadFilters = ownerFilter u := by
      rw [CreateCall.params, createParams, createRequest, hcaller']
      rfl
    rw [hfilters] at hadmits
    exact get?_owner_of_admits hadmits
  · obtain ⟨-, -, a, -, rfl⟩ := insertedThread_eq_some.mp hinserted
    exact Json.get?_concat_right _ hmetadata

/-! ### The rows of crons -/

/-- A row is that of a user, and its payload names none. -/
structure CronOf (u : String) (c : Cron) : Prop where
  userId : c.userId = some u
  owner : c.metadata.get? "owner" = some (.str u)
  payload : authUserKey c.payload = none

theorem truthy_stampOwner (u : String) (kvs : List (String × Json)) :
    truthy (some (stampOwner (some u) (.obj kvs))) = true := by
  rw [stampOwner, Json.set, truthy_obj]
  simp [Json.merge]

/-- The payload of `Crons.put`. -/
def CronPatch.createdPayload (body : CronPatch) (caller : Caller) (assistantId : Json) :
    List (String × Json) :=
  (body.withDefaults assistantId).dict.map fun kv =>
    if kv.1 = "metadata" then (kv.1, stampOwner caller (.obj (body.metadata.getD []))) else kv

/-- The row of a cron that is created. -/
theorem createCronRoute_eq_some {deployment : CronDeployment} {caller : Caller}
    {threadId : Option Uuid} {raw : CronPatch} {freshId : Uuid} {now : Timestamp}
    {d d' : Database} {c : Cron}
    (h : createCronRoute deployment caller threadId raw freshId now d = some (c, d')) :
    ∃ assistantId p,
      (raw.sanitize.others.lookup "assistant_id").bind deployment.getAssistantId =
        some assistantId ∧
      payloadDictToProto deployment.host (raw.sanitize.createdPayload caller assistantId) =
        some p ∧
      c.cronId = freshId ∧ c.userId = caller ∧ c.payload = storedCronPayload p.toDict freshId ∧
      c.metadata = stampOwner caller (.obj (raw.sanitize.metadata.getD [])) ∧
      d' = { d with cron := d.cron.put c } := by
  simp only [createCronRoute] at h
  split at h
  · cases h
  split at h
  · cases h
  simp only [putCron, Option.bind_eq_bind, Option.bind_eq_some_iff] at h
  obtain ⟨assistantId, hassistant, schedule, -, p, hp, hcreate⟩ := h
  have hok : ∀ r : Except CreateCronFailure (Cron × Database), r.toOption = some (c, d') →
      r = .ok (c, d') := by
    rintro (e | r) hr
    · cases hr
    · exact congrArg Except.ok (Option.some.inj hr)
  obtain ⟨-, nextRunDate, reference, -, -, rfl, rfl⟩ := createCron_eq_ok.mp (hok _ hcreate)
  refine ⟨assistantId, p, Option.bind_eq_some_iff.mpr hassistant, hp, rfl, rfl, rfl, ?_, rfl⟩
  simp only [CreateCronRequest.row]
  split
  · rfl
  · next hfalse =>
    cases hstamp : stampOwner caller (.obj (raw.sanitize.metadata.getD [])) with
    | obj kvs =>
      rw [hstamp] at hfalse
      cases kvs with
      | nil => rfl
      | cons kv kvs => exact absurd rfl hfalse
    | _ =>
      rw [hstamp] at hfalse
      cases caller <;> cases hstamp

/-- The row of a cron that a user creates. -/
theorem cronOf_create {deployment : CronDeployment} {u : String} {threadId : Option Uuid}
    {body : CronPatch} {freshId : Uuid} {now : Timestamp} {d d' : Database} {c : Cron}
    (h : createCronRoute deployment (some u) threadId body freshId now d = some (c, d')) :
    CronOf u c ∧ c.cronId = freshId ∧ d' = { d with cron := d.cron.put c } := by
  obtain ⟨assistantId, p, -, hp, hid, huser, hpayload, hmetadata, hd⟩ := createCronRoute_eq_some h
  refine ⟨⟨huser, ?_, ?_⟩, hid, hd⟩
  · rw [hmetadata]
    exact get?_stampOwner u _
  · rw [hpayload]
    refine authUserKey_storedCronPayload freshId
      (authUserKey_payloadDictToProto hp (authUserKey_dict _ ?_))
    exact (lookup_configurable_withConfigurable _ _).trans (lookup_configurable_sanitize body)

/-- The row of a cron that a user patches was a row of that user. -/
theorem cronOf_patch {deployment : CronDeployment} {u : String} {body : CronPatch}
    {cronId : Uuid} {d d' : Database} {c' : Cron}
    (hrows : ∀ c ∈ d.cron, ∃ v, CronOf v c)
    (h : patchCronRoute deployment.host (some u) cronId body d = .ok (c', d')) :
    CronOf u c' ∧ (∃ c ∈ d.cron, CronOf u c ∧ c.cronId = c'.cronId) ∧
      d' = { d with cron := d.cron.put c' } := by
  simp only [patchCronRoute] at h
  split at h
  · cases h
  next hdict =>
  split at h
  · cases h
  split at h
  · cases h
  have hupdate := h
  simp only [updateCron] at hupdate
  split at hupdate
  · cases hupdate
  split at hupdate
  · cases hupdate
  next result hresult =>
  rw [Except.ok.inj hupdate] at hresult
  obtain ⟨c, hget, hadmits, -, -⟩ := patchCron_eq_some.mp hresult
  obtain ⟨p, hp, hd, hrow⟩ := updateCron_eq_ok hget hdict h
  have hmem := (Table.get?_eq_some.mp hget).1
  obtain ⟨v, hv⟩ := hrows c hmem
  have howner := get?_owner_of_admits hadmits
  obtain rfl : v = u := by simpa using hv.owner.symm.trans howner
  have hmetadata : c'.metadata = stampOwner (some v) (.obj (body.sanitize.metadata.getD [])) := by
    rw [hrow]
    exact if_pos (truthy_stampOwner v _)
  refine ⟨⟨by rw [hrow]; exact hv.userId, by rw [hmetadata]; exact get?_stampOwner _ _,
    ?_⟩, ⟨c, hmem, hv, by rw [hrow]⟩, hd⟩
  rw [hrow]
  exact authUserKey_storedCronPayload cronId
    (authUserKey_payloadDictToProto hp (authUserKey_dict _ (lookup_configurable_sanitize body)))

/-- A context that is entered or left is that of somebody with a name. -/
def Named (auth : Option AuthContext) : Prop :=
  (auth.bind AuthContext.user).map User.identity ≠ some ""

/-- The context of an item is that of its user, who has a name, or is not entered. -/
theorem setAuthCtxForRun_served {deployment : CronDeployment} {row cron : Cron} {u : String}
    (hrow : CronOf u row) (hserved : servedCron deployment row = some cron) :
    ∃ permissions, (setAuthCtxForRun deployment.str (fieldsOf (some (runPayload cron)))
      cron.userId).1 =
        if u = "" then none else some ⟨some { identity := u }, permissions⟩ := by
  obtain ⟨p, hp, rfl⟩ := Option.map_eq_some_iff.mp hserved
  have hpayload := authUserKey_payloadDictToProto hp (authUserKey_fieldsOf hrow.payload)
  have hkwargs : authUserKey (runPayload { row with
      payload := p.toDict, userId := row.userId.filter (· ≠ "") }) = none :=
    authUserKey_runPayload hpayload
  obtain ⟨permissions, hctx⟩ := setAuthCtxForRun_of_none deployment.str
    (authUserKey_fieldsOf hkwargs) (row.userId.filter (· ≠ ""))
  refine ⟨permissions, hctx.trans ?_⟩
  rw [hrow.userId]
  by_cases hu : u = ""
  · subst hu
    rfl
  · simp [hu, simpleUser]

/-- The call of an item is made as its user exactly if the user has a name. -/
theorem runsAs_create {deployment : CronDeployment} {row cron : Cron} {u : String}
    {s : CronSystem} {env : CreateEnv} (hrow : CronOf u row) (hnamed : Named s.auth)
    (hserved : servedCron deployment row = some cron) :
    Named (s.create deployment cron env).auth ∧
      ∀ e ∈ (s.create deployment cron env).calls,
        e ∈ s.calls ∨ (e.cron = cron ∧ (RunsAs u e ↔ u ≠ "")) := by
  obtain ⟨permissions, hctx⟩ := setAuthCtxForRun_served hrow hserved
  have hentered : Named ((setAuthCtxForRun deployment.str (fieldsOf (some (runPayload cron)))
      cron.userId).1.or s.auth) := by
    rw [hctx]
    split
    · exact hnamed
    · next hu => simpa [Named] using hu
  have hleft : Named (s.auth.or ((setAuthCtxForRun deployment.str
      (fieldsOf (some (runPayload cron))) cron.userId).1.or s.auth)) := by
    cases hauth : s.auth with
    | none =>
      rw [hauth] at hentered
      exact hentered
    | some ctx =>
      rw [hauth] at hnamed
      exact hnamed
  unfold CronSystem.create
  dsimp only
  split
  · exact ⟨hleft, fun e he => .inl he⟩
  · next call hcall =>
    refine ⟨hleft, fun e he => ?_⟩
    rcases List.mem_append.mp he with he | he
    · exact .inl he
    · obtain rfl := List.mem_singleton.mp he
      refine .inr ⟨rfl, fun hruns hu => hentered (hu ▸ hruns.authorized), fun hu => ?_⟩
      refine runsAs_of_createCall s.db ?_ hcall
      rw [hctx, if_neg hu]
      rfl

/-! ### Every run -/

/-- Who wrote which cron is settled: each row and each item is that of the one user who wrote its
cron, and each call is made as that user if the user has a name. -/
structure Attributed (s : CronSystem) : Prop where
  functional : ∀ id u v, (id, u) ∈ s.wrote → (id, v) ∈ s.wrote → u = v
  rows : ∀ c ∈ s.db.cron, ∃ u, (c.cronId, u) ∈ s.wrote ∧ CronOf u c
  serving : ∀ c ∈ s.serving, ∃ u, (c.cronId, u) ∈ s.wrote ∧ CronOf u c
  context : Named s.auth
  calls : ∀ e ∈ s.calls, ∃ u, (e.cron.cronId, u) ∈ s.wrote ∧ (RunsAs u e ↔ u ≠ "")

theorem cron_of_executeAll {rpcs : List Rpc} {d : Database} {c : Cron}
    (h : c ∈ (executeAll rpcs d).cron) : c ∈ d.cron := by
  induction rpcs generalizing d with
  | nil => exact h
  | cons rpc rpcs ih => exact cron_of_execute (ih h)

theorem cron_of_create {deployment : CronDeployment} {s : CronSystem} {cron c : Cron}
    {env : CreateEnv} (h : c ∈ (s.create deployment cron env).db.cron) : c ∈ s.db.cron := by
  unfold CronSystem.create at h
  dsimp only at h
  split at h
  · exact h
  · next call _ =>
    obtain ⟨rpcs, -, hdb⟩ := db_createValidRun call env.now s.db
    rw [hdb] at h
    exact cron_of_executeAll h

theorem wrote_create (deployment : CronDeployment) (s : CronSystem) (cron : Cron)
    (env : CreateEnv) : (s.create deployment cron env).wrote = s.wrote := by
  unfold CronSystem.create
  dsimp only
  split <;> rfl

theorem serving_create (deployment : CronDeployment) (s : CronSystem) (cron : Cron)
    (env : CreateEnv) : (s.create deployment cron env).serving = s.serving := by
  unfold CronSystem.create
  dsimp only
  split <;> rfl

section Steps

variable {deployment : CronDeployment} {s : CronSystem}

/-- A user who writes a cron of their own, or one that nobody wrote. -/
theorem Attributed.write (h : Attributed s) {u : String} {c : Cron} (hc : CronOf u c)
    (hwrote : ∀ v, (c.cronId, v) ∈ s.wrote → v = u) :
    Attributed { s with
      db := { s.db with cron := s.db.cron.put c }, wrote := s.wrote ++ [(c.cronId, u)] } := by
  have hmono : ∀ {id v}, (id, v) ∈ s.wrote → (id, v) ∈ s.wrote ++ [(c.cronId, u)] :=
    fun h => List.mem_append_left _ h
  refine ⟨fun id v w hv hw => ?_, fun c' hc' => ?_, fun c' hc' => ?_, h.context, fun e he => ?_⟩
  · simp only [List.mem_append, List.mem_singleton, Prod.mk.injEq] at hv hw
    rcases hv with hv | ⟨rfl, rfl⟩ <;> rcases hw with hw | ⟨hid, rfl⟩
    · exact h.functional id v w hv hw
    · exact hwrote v (hid ▸ hv)
    · exact (hwrote w hw).symm
    · rfl
  · rcases Table.mem_put.mp hc' with rfl | ⟨hold, -⟩
    · exact ⟨u, List.mem_append_right _ (List.mem_singleton_self _), hc⟩
    · obtain ⟨v, hv, hrow⟩ := h.rows c' hold
      exact ⟨v, hmono hv, hrow⟩
  · obtain ⟨v, hv, hrow⟩ := h.serving c' hc'
    exact ⟨v, hmono hv, hrow⟩
  · obtain ⟨v, hv, hruns⟩ := h.calls e he
    exact ⟨v, hmono hv, hruns⟩

theorem Attributed.withDb (h : Attributed s) {d : Database} (hd : ∀ c ∈ d.cron, c ∈ s.db.cron) :
    Attributed { s with db := d } :=
  ⟨h.functional, fun c hc => h.rows c (hd c hc), h.serving, h.context, h.calls⟩

/-- The item that is served is that of its user. -/
theorem Attributed.serve (h : Attributed s) {row cron : Cron} {rest : List Cron}
    (hserving : s.serving = row :: rest) (hserved : servedCron deployment row = some cron)
    (env : CreateEnv) : Attributed ({ s with serving := rest }.create deployment cron env) := by
  obtain ⟨u, hu, hrow⟩ := h.serving row (hserving ▸ List.mem_cons_self)
  have hcontext : Named ({ s with serving := rest } : CronSystem).auth := h.context
  obtain ⟨hnamed, hcalls⟩ := @runsAs_create deployment row cron u _ env hrow hcontext hserved
  refine ⟨?_, ?_, ?_, hnamed, ?_⟩
  · rw [wrote_create]
    exact h.functional
  · rw [wrote_create]
    intro c hc
    have hold : c ∈ ({ s with serving := rest } : CronSystem).db.cron := cron_of_create hc
    exact h.rows c hold
  · rw [wrote_create, serving_create]
    exact fun c hc => h.serving c (hserving ▸ List.mem_cons_of_mem _ hc)
  · rw [wrote_create]
    intro e he
    rcases hcalls e he with hold | ⟨hcron, hruns⟩
    · exact h.calls e hold
    · have hid : cron.cronId = row.cronId := by
        obtain ⟨p, -, rfl⟩ := Option.map_eq_some_iff.mp hserved
        rfl
      exact ⟨u, by rw [hcron, hid]; exact hu, hruns⟩

/-- A step of the users or of the scheduler. -/
theorem Attributed.step (h : Attributed s) {a : CronAction} {s' : CronSystem}
    (hs : cronStep deployment s a = some s') : Attributed s' := by
  cases a with
  | create user threadId body freshId now =>
    simp only [cronStep] at hs
    split at hs
    · cases hs
    next hfresh =>
    split at hs
    · cases hs
      exact h
    next c d hroute =>
    cases hs
    obtain ⟨hc, hid, rfl⟩ := cronOf_create hroute
    refine h.write hc fun v hv => absurd hv fun hmem => hfresh ?_
    exact List.any_eq_true.mpr ⟨_, hmem, by simp [hid]⟩
  | patch user cronId body =>
    simp only [cronStep] at hs
    split at hs
    · cases hs
      exact h
    next c d hroute =>
    cases hs
    have hrows : ∀ c ∈ s.db.cron, ∃ v, CronOf v c := fun c hc =>
      (h.rows c hc).imp fun v hv => hv.2
    obtain ⟨hc, ⟨old, hold, howned, hid⟩, rfl⟩ := cronOf_patch hrows hroute
    refine h.write hc fun v hv => ?_
    obtain ⟨w, hw, hrow⟩ := h.rows old hold
    have hwu : w = user.identity := by simpa using hrow.userId.symm.trans howned.userId
    rw [← hwu]
    exact h.functional _ _ _ (hid ▸ hv) hw
  | delete user cronId =>
    cases hs
    exact h.withDb fun c hc => (Table.mem_deleteWhere.mp hc).1
  | next now =>
    simp only [cronStep] at hs
    split at hs
    · cases hs
      exact ⟨h.functional, h.rows, fun c hc => h.rows c (mem_nextCrons.mp hc).1, h.context, h.calls⟩
    · cases hs
  | serve env =>
    simp only [cronStep] at hs
    split at hs
    · cases hs
    next row rest hserving =>
    split at hs
    · cases hs
      exact ⟨h.functional, h.rows, fun c hc => absurd hc List.not_mem_nil, h.context, h.calls⟩
    next cron hserved =>
    cases hs
    exact h.serve hserving hserved env
  | other rpc =>
    cases hs
    exact h.withDb fun c hc => cron_of_execute hc

theorem attributed_of_reachable {Ok : CronSystem → CronAction → Prop}
    (hs : (cronSystem deployment).Reachable Ok s) : Attributed s := by
  refine hs.invariant (fun s hinit => ?_) fun s a s' _ h _ hstep => h.step hstep
  obtain ⟨hcron, hserving, hauth, hwrote, hcalls⟩ := hinit
  refine ⟨?_, ?_, ?_, ?_, ?_⟩
  · rw [hwrote]
    exact nofun
  · rw [hcron]
    exact fun c hc => absurd hc List.not_mem_nil
  · rw [hserving]
    exact fun c hc => absurd hc List.not_mem_nil
  · rw [hauth]
    exact nofun
  · rw [hcalls]
    exact fun e he => absurd he List.not_mem_nil

end Steps

/-- **A cron runs as its creator** exactly if the creator has a name: of every run, each call of
the scheduler, and every user who created or patched its cron. -/
theorem runsAs_creator_iff (deployment : CronDeployment) {s : CronSystem}
    (hs : (cronSystem deployment).Reachable Machine.free s) {e : ScheduledCall} (he : e ∈ s.calls)
    {u : String} (hu : (e.cron.cronId, u) ∈ s.wrote) : RunsAs u e ↔ u ≠ "" := by
  have hattributed := attributed_of_reachable hs
  obtain ⟨v, hv, hruns⟩ := hattributed.calls e he
  rw [hattributed.functional _ _ _ hu hv]
  exact hruns

/-! ### A creator without a name -/

/-- A deployment with one assistant, whose crons are due after a microsecond. -/
def oneAssistantDeployment : CronDeployment where
  runs := { agentHost with assistantUuid := fun v => if v = .str "1" then some 1 else none }
  str := Str.render
  isTimezone _ := true
  webhookError _ := none
  getAssistantId _ := some (.str "1")
  croniter _ now := some (now + 1)

/-- A cron for each minute. -/
def everyMinute : CronPatch where
  schedule := some "* * * * *"
  others := [("assistant_id", .str "agent")]

/-- Two users create a cron each, and the scheduler serves both. -/
def twoCrons (first second : User) : List CronAction :=
  [.create first none everyMinute 50 0, .create second none everyMinute 51 1, .next 10,
    .serve ⟨10, 100, 20⟩, .serve ⟨10, 101, 21⟩]

theorem init_oneAssistant : (cronSystem oneAssistantDeployment).init { db := oneAssistant } :=
  ⟨rfl, rfl, rfl, rfl, rfl⟩

/-- The crons of two users are both served. -/
theorem runsAs_creator_iff_alice :
    ∃ s e, (cronSystem oneAssistantDeployment).Reachable Machine.free s ∧ e ∈ s.calls ∧
      (e.cron.cronId, "alice") ∈ s.wrote ∧ insertedRun e.call.params e.db e.db ≠ [] ∧
      RunsAs "alice" e := by
  obtain ⟨s, hs, hp⟩ := (cronSystem oneAssistantDeployment).exists_reachable
    (fun _ _ => True) init_oneAssistant (twoCrons { identity := "bob" } alice)
    (fun s => s.calls.any fun e =>
      decide ((e.cron.cronId, "alice") ∈ s.wrote) &&
        decide ((insertedRun e.call.params e.db e.db).length = 1)) (by decide +kernel)
  obtain ⟨e, he, hp⟩ := List.any_eq_true.mp hp
  simp only [Bool.and_eq_true, decide_eq_true_eq] at hp
  obtain ⟨hwrote, hinserted⟩ := hp
  refine ⟨s, e, hs, he, hwrote, fun hnil => by simp [hnil] at hinserted, ?_⟩
  exact (runsAs_creator_iff oneAssistantDeployment hs he hwrote).mpr (by decide)

/-- The run of the cron of a user without a name is made in the context of alice, whom it
charges. -/
theorem not_runsAs_creator :
    ¬ ∀ s, (cronSystem oneAssistantDeployment).Reachable Machine.free s → ∀ e ∈ s.calls, ∀ u,
      (e.cron.cronId, u) ∈ s.wrote → RunsAs u e := by
  intro hall
  obtain ⟨s, hs, hp⟩ := (cronSystem oneAssistantDeployment).exists_reachable
    (fun _ _ => True) init_oneAssistant (twoCrons alice { identity := "" })
    (fun s => s.calls.any fun e =>
      decide ((e.cron.cronId, "") ∈ s.wrote) && decide (e.call.caller = some "alice"))
    (by decide +kernel)
  obtain ⟨e, he, hp⟩ := List.any_eq_true.mp hp
  simp only [Bool.and_eq_true, decide_eq_true_eq] at hp
  have hcharged := (hall s hs e he "" hp.1).charged
  rw [hp.2] at hcharged
  exact absurd hcharged (by decide)

end NextRole
