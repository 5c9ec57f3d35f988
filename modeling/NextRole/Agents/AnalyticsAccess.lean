import NextRole.Api.CronAuth
import NextRole.Api.Threads
import NextRole.Runtime.Ingestion
import Mathlib.Logic.Relation

/-!
# Who reaches the warehouse

The gate of the analytics agent in `analytics_agent/access.py` and `middleware.py`, with the caller
of a run as `career_agent/scope.py` finds it, and the runs of the graphs.  The gate is a node of
the graph; a run starts at the entry of its graph when it has an input, and at the tasks that a
checkpoint schedules or its command names when it has none.

## Main definitions

* `AccessSettings`, `isAllowed` — the allowlist.
* `currentUser`, `currentIdentity`, `gate` — the gate on the configurable of a run.
* `GraphEngine`, `GraphEngine.Confined` — the graphs, and tasks that have the gate before them.
* `startTasks`, `startRun` — the graph and the tasks that a run starts with.
* `AgentSystem`, `agentSystem` — requests that create runs and update states, and the runs.
-/

namespace NextRole

/-! ### The allowlist -/

/-- `AccessSettings`, and whether the server runs with authentication. -/
structure AccessSettings where
  multiUser : Bool
  allowedUsers : String
  /-- `str.lower`. -/
  lower : String → String

/-- `AccessSettings.allowed`. -/
def AccessSettings.allowed (settings : AccessSettings) : List String :=
  let entries := (settings.allowedUsers.toList.splitOn ',').map String.ofList
  ((entries.map strip).filter (· ≠ "")).map settings.lower

/-- `is_allowed`. -/
def isAllowed (settings : AccessSettings) (identity email : Option String) : Bool :=
  if !settings.multiUser then true
  else if settings.allowed = [] then false
  else
    let candidates := ([identity, email].filterMap id).filter (· ≠ "")
    candidates.any fun value => settings.lower (strip value) ∈ settings.allowed

/-- The identity or the email of the user is on the list. -/
def AccessSettings.Lists (settings : AccessSettings) (user : User) : Prop :=
  settings.lower (strip user.identity) ∈ settings.allowed ∨
    ∃ email, user.email = some email ∧ settings.lower (strip email) ∈ settings.allowed

/-! ### The gate -/

/-- `current_user`: `set_auth_ctx_for_run` has put `normalize_user` of the value in its place, and
a value that it does not take has no attributes. -/
def currentUser (str : Str) (configurable : List (String × Json)) : Option User :=
  (truthyValue (configurable.lookup "langgraph_auth_user")).bind (normalizeUser str)

/-- `current_identity`. -/
def currentIdentity (str : Str) (configurable : List (String × Json)) : Option Json :=
  (truthyValue ((currentUser str configurable).map fun user => .str user.identity)).or
    (truthyValue (configurable.lookup "langgraph_auth_user_id"))

/-- `_gate`: whether the run proceeds.  It has no result where the identity is no text, and `strip`
raises. -/
def gate (settings : AccessSettings) (str : Str) (configurable : List (String × Json)) :
    Option Bool :=
  let email := (currentUser str configurable).bind User.email
  match currentIdentity str configurable with
  | none => some (isAllowed settings none email)
  | some (.str identity) => some (isAllowed settings (some identity) email)
  | some _ =>
    if settings.multiUser && settings.allowed ≠ [] then none
    else some (isAllowed settings none email)

/-! ### Graphs -/

/-- A task: a node, with the input that it was sent if there is one. -/
structure GraphTask where
  node : String
  input : Option Json := none
  deriving DecidableEq

/-- The graph engine with the graphs by their ids. -/
structure GraphEngine where
  /-- What an input schedules. -/
  entry : String → List GraphTask
  /-- Whether an output of the first task may schedule the second one. -/
  follows : String → GraphTask → GraphTask → Bool
  /-- The tools whose bodies a task may execute. -/
  bodies : String → GraphTask → List String
  /-- What the checkpoint schedules that a configurable names. -/
  scheduled : String → List (String × Json) → Database → List GraphTask

/-- The tools that `build_analytics_agent` adds. -/
def analyticsTools : List String := ["describe_data", "run_sql", "create_chart"]

/-- The id of the graph that `build_analytics_agent` makes. -/
def analyticsGraph : String := "analytics_agent"

/-- The node of the hook `AnalyticsAccessMiddleware.before_agent`. -/
def gateNode : String := "AnalyticsAccessMiddleware.before_agent"

/-- The node of the gate, which the analytics agent has alone. -/
def IsGate (graph : String) (t : GraphTask) : Prop := graph = analyticsGraph ∧ t.node = gateNode

instance (graph : String) (t : GraphTask) : Decidable (IsGate graph t) :=
  inferInstanceAs (Decidable (_ ∧ _))

/-- From a task the engine comes to the body of an analytics tool through the gate alone. -/
def GraphEngine.Confined (engine : GraphEngine) (graph : String) (t : GraphTask) : Prop :=
  ∀ t', Relation.ReflTransGen
      (fun a b => ¬ IsGate graph a ∧ engine.follows graph a b = true) t t' →
    IsGate graph t' ∨ ∀ tool ∈ engine.bodies graph t', tool ∉ analyticsTools

namespace GraphEngine

variable {engine : GraphEngine} {graph : String} {t t' : GraphTask}

theorem Confined.next (h : engine.Confined graph t) (hgate : ¬ IsGate graph t)
    (hfollows : engine.follows graph t t' = true) : engine.Confined graph t' := by
  intro t'' hpath
  exact h t'' (.head ⟨hgate, hfollows⟩ hpath)

theorem Confined.bodies (h : engine.Confined graph t) (hgate : ¬ IsGate graph t) :
    ∀ tool ∈ engine.bodies graph t, tool ∉ analyticsTools :=
  (h t .refl).resolve_left hgate

end GraphEngine

/-! ### How a run starts -/

/-- `it if isinstance(it, str) else Send(it["node"], it["input"])`. -/
def gotoTask : Json → Option GraphTask
  | .str node => some { node }
  | .obj kvs => do
    let node ← (kvs.lookup "node").bind asStr
    let input ← kvs.lookup "input"
    some { node, input := some input }
  | _ => none

/-- The tasks that `map_cmd` makes of the `goto` of a command. -/
def gotoTasks (command : Json) : Option (List GraphTask) :=
  match command.get? "goto" with
  | none | some .null => some []
  | some (.arr items) => items.mapM gotoTask
  | some item => [item].mapM gotoTask

/-- A run that a worker executes. -/
structure ActiveRun where
  run : Run
  graph : String
  configurable : List (String × Json)
  tasks : List GraphTask

/-- A run with a command or without an input continues from a checkpoint. -/
def continues (kwargs : Json) : Bool :=
  (truthyValue (kwargs.get? "command")).isSome || (nonNull (kwargs.get? "input")).isNone

/-- What a run starts with.  A temporary run has no checkpoint. -/
def startTasks (engine : GraphEngine) (graph : String) (configurable : List (String × Json))
    (kwargs : Json) (d : Database) : Option (List GraphTask) :=
  let saved :=
    if truthy (kwargs.get? "temporary") then [] else engine.scheduled graph configurable d
  match truthyValue (kwargs.get? "command") with
  | some command => (gotoTasks command).map (saved ++ ·)
  | none =>
    match nonNull (kwargs.get? "input") with
    | none => some saved
    | some _ => some (engine.entry graph)

theorem startTasks_of_input {engine : GraphEngine} {graph : String}
    {configurable : List (String × Json)} {kwargs : Json} (h : continues kwargs = false)
    (d : Database) : startTasks engine graph configurable kwargs d = some (engine.entry graph) := by
  obtain ⟨hcommand, hinput⟩ := Bool.or_eq_false_iff.mp h
  have hnone : truthyValue (kwargs.get? "command") = none := by simpa using hcommand
  rw [startTasks, hnone]
  cases hget : nonNull (kwargs.get? "input") with
  | none =>
    rw [hget] at hinput
    cases hinput
  | some v => rfl

/-- The beginning of `astream_state`, of the arguments that a worker decodes. -/
def startRun (engine : GraphEngine) (str : Str) (r : Run) (d : Database) : Option ActiveRun := do
  let config ← (kwargsConfig str r.kwargs).join
  let configurable ← (config.lookup "configurable").bind asDict
  let graph ← (configurable.lookup "graph_id").bind asStr
  let tasks ← startTasks engine graph configurable r.kwargs d
  some ⟨r, graph, configurable, tasks⟩

/-! ### The machine -/

/-- What the machine is given: the host of the requests, the engine, and how states are read. -/
structure AgentDeployment where
  host : RunHost
  engine : GraphEngine
  reader : StateReader
  str : Str
  settings : AccessSettings

/-- The database, the runs that are executed, and a record of who created which run and which
tools were executed in which run. -/
structure AgentSystem where
  db : Database
  active : List ActiveRun := []
  created : List (Uuid × Option User) := []
  executed : List (Uuid × String) := []

/-- A request, a call of a service, or a step of a worker. -/
inductive AgentAction
  /-- `create_valid_run`, called by a route or by the scheduler of crons in a user's context. -/
  | create (context : RequestContext) (threadId : Option Uuid) (temporary : Bool)
      (payload : List (String × Json))
  /-- `Threads.State.post` and `Threads.State.bulk`, with the nodes that the updates are made as. -/
  | update (u : StateUpdate) (asNodes : List GraphTask)
  | other (rpc : Rpc)
  | start (runId : Uuid)
  /-- A task of a run ends, having executed the bodies of tools and scheduled tasks. -/
  | execute (i j : ℕ) (tools : List String) (next : List GraphTask)
  /-- A run saves a row. -/
  | save (i : ℕ) (item : QueueItem)
  | stop (i : ℕ)

/-- Calls that create runs. -/
def Rpc.createsRun : Rpc → Bool
  | .createRun .. => true
  | _ => false

/-- The gate of the deployment on a run. -/
def AgentDeployment.admits (deployment : AgentDeployment) (h : ActiveRun) : Bool :=
  gate deployment.settings deployment.str h.configurable = some true

/-- A task of a run ends.  A refusal of the gate jumps to the end, and an exception ends the run. -/
def AgentDeployment.execute (deployment : AgentDeployment) (s : AgentSystem) (i j : ℕ)
    (tools : List String) (next : List GraphTask) : Option AgentSystem := do
  let h ← s.active[i]?
  let t ← h.tasks[j]?
  let s' := { s with
    active := s.active.set i { h with tasks := h.tasks.eraseIdx j ++ next }
    executed := s.executed ++ tools.map fun tool => (h.run.runId, tool) }
  if IsGate h.graph t ∧ deployment.admits h = false then
    if tools = [] ∧ next = [] then some s' else none
  else if (tools.all fun tool => tool ∈ deployment.engine.bodies h.graph t) &&
      next.all (deployment.engine.follows h.graph t) then some s'
  else none

/-- One step; the id of a run that is created was not drawn before, and rows that are saved are of
the thread. -/
def agentStep (deployment : AgentDeployment) (s : AgentSystem) : AgentAction → Option AgentSystem
  | .create context threadId temporary payload =>
    match createCall deployment.host context threadId temporary payload with
    | none => some s
    | some call =>
      if s.created.any fun e => e.1 = call.env.freshRunId then none
      else some { s with
        db := (createValidRun call {} call.env.now s.db).db
        created := s.created ++ [(call.env.freshRunId, context.auth.bind AuthContext.user)] }
  | .update u _ =>
    if u.saved.all fun x => x.checkpointThread = some u.threadId then
      match updateState deployment.reader u s.db with
      | .error _ => some s
      | .ok d => some { s with db := d }
    else none
  | .other rpc => if rpc.createsRun then none else some { s with db := execute rpc s.db }
  | .start runId =>
    ((s.db.run.get? runId).bind fun r => startRun deployment.engine deployment.str r s.db).map
      fun h => { s with active := s.active ++ [h] }
  | .execute i j tools next => deployment.execute s i j tools next
  | .save i item =>
    s.active[i]?.bind fun h =>
      if item.threadId = h.run.threadId then some { s with db := ingest s.db item } else none
  | .stop i => some { s with active := s.active.eraseIdx i }

/-- The machine, started without runs. -/
def agentSystem (deployment : AgentDeployment) : Machine AgentSystem AgentAction where
  init s := s.db.run = .empty ∧ s.active = [] ∧ s.created = [] ∧ s.executed = []
  step := agentStep deployment

end NextRole
