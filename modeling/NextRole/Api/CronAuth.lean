import NextRole.Api.CronScheduler
import NextRole.Api.Crons
import NextRole.Api.RunConfig

/-!
# Whose runs a cron makes

The routes that create a cron, `set_auth_ctx_for_run` of `api/worker.py` and the part of the
scheduler's loop that creates a run under it.  What is sent of a row is made of the message that
`cron_to_proto` fills, in which a text that is empty is not set.

## Main definitions

* `CronDeployment` — what the routes, the scheduler and the service rely on.
* `putCron`, `createCronRoute` — `Crons.put` and the routes `create_cron`, `create_thread_cron`.
* `setAuthCtxForRun` — the context of a payload, and the payload with its user.
* `servedCron` — the dictionary that the scheduler gets of a row.
* `CronSystem`, `CronAction`, `cronSystem` — users with their crons, and the scheduler.
-/

namespace NextRole

/-- What the routes, the scheduler and the service rely on: next to the host of a run the zones
that `ZoneInfo` knows, the check of a webhook, `get_assistant_id` with the check of its argument,
and what `croniter` computes of a schedule. -/
structure CronDeployment where
  runs : RunHost
  str : Str
  isTimezone : String → Bool
  webhookError : String → Option String
  getAssistantId : Json → Option Json
  croniter : String → Timestamp → Option Timestamp

/-- The host of the routes, which converts a configuration with `config_to_proto` and
`config_from_proto`. -/
def CronDeployment.host (deployment : CronDeployment) : CronHost where
  isTimezone := deployment.isTimezone
  webhookError := deployment.webhookError
  str := deployment.str.text
  configThroughProto config :=
    (configToProto deployment.str config).map fun proto => .obj (configFromProto proto)

/-! ### The routes that create a cron -/

/-- `config.setdefault("configurable", {})`. -/
def withConfigurable (config : List (String × Json)) : List (String × Json) :=
  match config.lookup "configurable" with
  | some _ => config
  | none => config ++ [("configurable", .obj [])]

/-- The body with the defaults of `Crons.put` and the id of its assistant. -/
def CronPatch.withDefaults (body : CronPatch) (assistantId : Json) : CronPatch :=
  { body with
    config := some (withConfigurable (body.config.getD []))
    others := body.others.map fun kv =>
      if kv.1 = "assistant_id" then (kv.1, assistantId) else kv
    others_names := by
      intro kv hkv
      obtain ⟨kv', hkv', rfl⟩ := List.mem_map.mp hkv
      have hname := body.others_names kv' hkv'
      split <;> exact hname }

/-- `Crons.put`: the hook stamps the metadata, which is also the metadata of the payload if the
body has one.  The row gets the identity of the caller. -/
def putCron (deployment : CronDeployment) (caller : Caller) (threadId : Option Uuid)
    (body : CronPatch) (freshId : Uuid) (now : Timestamp) (d : Database) :
    Option (Cron × Database) := do
  let assistantId ← (body.others.lookup "assistant_id").bind deployment.getAssistantId
  let schedule ← body.schedule
  let metadata := stampOwner caller (.obj (body.metadata.getD []))
  let payload := (body.withDefaults assistantId).dict.map fun kv =>
    if kv.1 = "metadata" then (kv.1, metadata) else kv
  let p ← payloadDictToProto deployment.host payload
  let request : CreateCronRequest :=
    { payload := p
      schedule := schedule
      threadId := threadId
      userId := caller
      endTime := body.endTime.map IsoTime.instant
      metadataJson := if truthy (some metadata) then some metadata else none
      onRunCompleted := if threadId.isNone then some (body.onRunCompleted.getD .delete) else none
      enabled := body.enabled.getD true
      timezone := body.timezone }
  (createCron deployment.croniter request freshId now d).toOption

/-- The routes `create_cron` and `create_thread_cron`, on a body that their schema accepts; the
schemas name the fields of a patch and require a schedule and an assistant. -/
def createCronRoute (deployment : CronDeployment) (caller : Caller) (threadId : Option Uuid)
    (raw : CronPatch) (freshId : Uuid) (now : Timestamp) (d : Database) :
    Option (Cron × Database) :=
  let body := raw.sanitize
  if body.timezone.any fun timezone => !deployment.isTimezone timezone then none
  else
    match body.webhook.bind deployment.webhookError with
    | some _ => none
    | none => putCron deployment caller threadId body freshId now d

/-! ### The context of a run -/

/-- `normalize_user` of a JSON value; `none` raises. -/
def normalizeUser (str : Str) : Json → Option User
  | .str username => some { identity := username }
  | .obj kvs => (kvs.lookup "identity").map fun identity =>
      { identity := str.text identity
        displayName := (kvs.lookup "display_name").bind asStr
        email := (kvs.lookup "email").bind asStr }
  | _ => none

/-- `SimpleUser(user_id) if user_id is not None else None`. -/
def simpleUser (userId : Option String) : Option User := userId.map fun id => { identity := id }

/-- The permissions of a configurable. -/
def permissionsOf (configurable : List (String × Json)) : List String :=
  match truthyValue (configurable.lookup "langgraph_auth_permissions") with
  | some v => ((iterate v).bind fun items => items.mapM asStr).getD []
  | none => []

/-- `run_kwargs["config"]["configurable"]`, of dictionaries alone. -/
def runConfigurableOf (kwargs : List (String × Json)) : Option (List (String × Json)) :=
  ((kwargs.lookup "config").bind asDict).bind fun config =>
    (config.lookup "configurable").bind asDict

/-- `run_kwargs["config"]["configurable"]["langgraph_auth_user"] = user`. -/
def withAuthUser (kwargs : List (String × Json)) (user : Option User) : List (String × Json) :=
  Json.merge kwargs [("config", .obj (Json.merge (fieldsOf (kwargs.lookup "config"))
    [("configurable", .obj (Json.merge ((runConfigurableOf kwargs).getD [])
      [("langgraph_auth_user", orNull (user.map User.toJson))]))]))]

/-- `set_auth_ctx_for_run`: the context that it enters, if any, and the arguments of the run. -/
def setAuthCtxForRun (str : Str) (kwargs : List (String × Json)) (userId : Option String) :
    Option AuthContext × List (String × Json) :=
  let fallback := (simpleUser userId).map fun user => { user := some user }
  match runConfigurableOf kwargs with
  | none => (fallback, kwargs)
  | some configurable =>
    match truthyValue (configurable.lookup "langgraph_auth_user") with
    | none =>
      let user := simpleUser userId
      (user.map fun user => ⟨some user, permissionsOf configurable⟩, withAuthUser kwargs user)
    | some v =>
      match normalizeUser str v with
      | none => (fallback, kwargs)
      | some user => (some ⟨some user, permissionsOf configurable⟩, withAuthUser kwargs user)

/-! ### The scheduler -/

/-- What `proto_to_cron` makes of the message of `cron_to_proto` for a row; `none` is a payload
that the conversion does not take. -/
def servedCron (deployment : CronDeployment) (row : Cron) : Option Cron :=
  (payloadDictToProto deployment.host (fieldsOf (some row.payload))).map fun p =>
    { row with
      payload := p.toDict
      -- `if row.get("user_id")`
      userId := row.userId.filter (· ≠ "") }

/-- A call of `create_valid_run` that the scheduler makes: the cron, the context under which it
is made, and the database at that time. -/
structure ScheduledCall where
  cron : Cron
  auth : Option AuthContext
  call : CreateCall
  db : Database

/-- The users with their crons, and the scheduler: the items that it still has to serve, the
context of its task, who wrote which cron, and the calls that were made. -/
structure CronSystem where
  db : Database
  serving : List Cron := []
  auth : Option AuthContext := none
  wrote : List (Uuid × String) := []
  calls : List ScheduledCall := []

/-- A request of a user, a step of the scheduler, or a call of a service. -/
inductive CronAction
  | create (user : User) (threadId : Option Uuid) (body : CronPatch) (freshId : Uuid)
      (now : Timestamp)
  | patch (user : User) (cronId : Uuid) (body : CronPatch)
  | delete (user : User) (cronId : Uuid)
  | next (now : Timestamp)
  | serve (env : CreateEnv)
  | other (rpc : Rpc)

/-- The scheduler creates the run of an item.  `with_user` restores a context that was there
before, and leaves its own where there was none. -/
def CronSystem.create (deployment : CronDeployment) (s : CronSystem) (cron : Cron)
    (env : CreateEnv) : CronSystem :=
  let entered := setAuthCtxForRun deployment.str (fieldsOf (some (runPayload cron))) cron.userId
  let auth := entered.1.or s.auth
  match createCall deployment.runs { auth := auth, env := env } cron.threadId false entered.2 with
  | none => { s with auth := s.auth.or auth }
  | some call =>
    { s with
      auth := s.auth.or auth
      db := (createValidRun call {} env.now s.db).db
      calls := s.calls ++ [⟨cron, auth, call, s.db⟩] }

/-- One step; a uuid that is drawn was not drawn before. -/
def cronStep (deployment : CronDeployment) (s : CronSystem) : CronAction → Option CronSystem
  | .create user threadId body freshId now =>
    if s.wrote.any fun w => w.1 = freshId then none
    else
      match createCronRoute deployment (some user.identity) threadId body freshId now s.db with
      | none => some s
      | some (c, d) => some { s with db := d, wrote := s.wrote ++ [(c.cronId, user.identity)] }
  | .patch user cronId body =>
    match patchCronRoute deployment.host (some user.identity) cronId body s.db with
    | .error _ => some s
    | .ok (c, d) => some { s with db := d, wrote := s.wrote ++ [(c.cronId, user.identity)] }
  | .delete user cronId =>
    some { s with db := deleteCron cronId (authFilters (some user.identity)) s.db }
  | .next now =>
    if s.serving = [] then some { s with serving := nextCrons s.db.cron now } else none
  | .serve env =>
    match s.serving with
    | [] => none
    | row :: rest =>
      match servedCron deployment row with
      | none => some { s with serving := [] }
      | some cron => some ({ s with serving := rest }.create deployment cron env)
  | .other rpc => some { s with db := execute rpc s.db }

/-- The machine, started without crons and with an idle scheduler. -/
def cronSystem (deployment : CronDeployment) : Machine CronSystem CronAction where
  init s := s.db.cron = .empty ∧ s.serving = [] ∧ s.auth = none ∧ s.wrote = [] ∧ s.calls = []
  step := cronStep deployment

end NextRole
