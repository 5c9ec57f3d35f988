import NextRole.Agents.AnalyticsAccess
import NextRole.Api.Worker
import NextRole.RunIdentity

/-!
# Only users on the list reach the warehouse

The gate refuses a user who is not on the list in every run, since the row of a run names the user
in whose context it was created.  But the gate is a node at the entry of the graph.  A run without
an input continues at the tasks that a checkpoint schedules, and who updates the state of a thread
as the model has the tools scheduled, with any call of a tool.

## Main definitions

* `OnlyListed` — the bodies of the analytics tools are executed for users on the list alone.
* `Run.Carries` — the row of a run names its user or nobody.
* `ContinuesBehindGate` — a run continues at tasks that have the gate ahead.
* `AgentSystem.Guarded` — the invariant.

## Main results

* `gate_eq_false` — the gate refuses a user who is not on the list.
* `onlyListed_of_continuesBehindGate`, and `not_onlyListed` without the condition.
-/

namespace NextRole

/-! ### A user who is not on the list -/

section Gate

variable {settings : AccessSettings} {str : Str} {user : User} {configurable : List (String × Json)}

theorem isAllowed_eq_false {identity email : Option String} (hmulti : settings.multiUser = true)
    (hidentity : ∀ v, identity = some v → v ≠ "" → settings.lower (strip v) ∉ settings.allowed)
    (hemail : ∀ v, email = some v → settings.lower (strip v) ∉ settings.allowed) :
    isAllowed settings identity email = false := by
  unfold isAllowed
  rw [hmulti, Bool.not_true, if_neg Bool.false_ne_true]
  split
  · rfl
  · rw [List.any_eq_false]
    intro v hv
    simp only [List.mem_filter, List.mem_filterMap, List.mem_cons, List.not_mem_nil, or_false,
      id_eq, decide_eq_true_eq] at hv
    obtain ⟨⟨_, rfl | rfl, hv⟩, hne⟩ := hv
    · simpa using hidentity v hv hne
    · simpa using hemail v hv

theorem normalizeUser_toJson (str : Str) (user : User) :
    ∃ user', normalizeUser str user.toJson = some user' ∧ user'.identity = user.identity ∧
      user'.email = user.email := by
  obtain ⟨identity, displayName, email⟩ := user
  refine ⟨⟨identity, some (displayName.getD identity), email⟩, ?_, rfl, rfl⟩
  cases displayName <;> cases email <;>
    simp [normalizeUser, User.toJson, field, Json.lookup_merge, List.lookup_cons, asStr,
      str.text_str]

theorem truthy_toJson (user : User) : truthy (some user.toJson) = true := by
  obtain ⟨identity, displayName, email⟩ := user
  cases displayName <;> cases email <;> simp [User.toJson, truthy_obj, field, Json.merge]

/-- The gate refuses a user who is not on the list. -/
theorem gate_eq_false (hmulti : settings.multiUser = true) (hnot : ¬ settings.Lists user)
    (huser : configurable.lookup "langgraph_auth_user" = none ∨
      configurable.lookup "langgraph_auth_user" = some user.toJson)
    (hid : configurable.lookup "langgraph_auth_user_id" = none ∨
      configurable.lookup "langgraph_auth_user_id" = some (.str user.identity)) :
    gate settings str configurable = some false := by
  obtain ⟨hidentity, hemail⟩ := not_or.mp hnot
  have hcurrent : currentUser str configurable = none ∨
      ∃ user', currentUser str configurable = some user' ∧ user'.identity = user.identity ∧
        user'.email = user.email := by
    rcases huser with hnone | hsome
    · exact .inl (by rw [currentUser, hnone]; rfl)
    · have htruthy : truthyValue (some user.toJson) = some user.toJson :=
        truthyValue_eq_some.mpr ⟨rfl, truthy_toJson user⟩
      obtain ⟨user', hnormal, hfields⟩ := normalizeUser_toJson str user
      exact .inr ⟨user', by rw [currentUser, hsome, htruthy]; exact hnormal, hfields⟩
  have hid' : truthyValue (configurable.lookup "langgraph_auth_user_id") = none ∨
      truthyValue (configurable.lookup "langgraph_auth_user_id") = some (.str user.identity) := by
    rcases hid with hnone | hsome
    · exact .inl (by rw [hnone]; rfl)
    · rw [hsome]
      by_cases hempty : user.identity = ""
      · rw [hempty]
        exact .inl rfl
      · exact .inr (truthyValue_str hempty)
  -- the identity that the gate finds is the user's or none
  have hfound : currentIdentity str configurable = none ∨
      currentIdentity str configurable = some (.str user.identity) := by
    unfold currentIdentity
    rcases hcurrent with hnone | ⟨user', hsome, hsame, -⟩
    · rw [hnone]
      exact hid'
    · rw [hsome, Option.map_some, hsame]
      by_cases hempty : user.identity = ""
      · rw [hempty] at hid' ⊢
        exact hid'
      · rw [truthyValue_str hempty]
        exact .inr rfl
  have hnotEmail : ∀ v, (currentUser str configurable).bind User.email = some v →
      settings.lower (strip v) ∉ settings.allowed := by
    intro v hv hin
    rcases hcurrent with hnone | ⟨user', hsome, -, hsame⟩
    · rw [hnone] at hv
      cases hv
    · rw [hsome, Option.bind_some, hsame] at hv
      exact hemail ⟨v, hv, hin⟩
  unfold gate
  rcases hfound with hnone | hsome
  · rw [hnone]
    exact congrArg some (isAllowed_eq_false hmulti nofun hnotEmail)
  · rw [hsome]
    refine congrArg some (isAllowed_eq_false hmulti (fun v hv _ => ?_) hnotEmail)
    rw [← Option.some.inj hv]
    exact hidentity

end Gate

/-! ### The rows of a user's runs -/

/-- The row names the user, or no user. -/
def Run.Carries (user : User) (r : Run) : Prop :=
  (r.configurable? "langgraph_auth_user" = none ∨
      r.configurable? "langgraph_auth_user" = some user.toJson) ∧
    (r.configurable? "langgraph_auth_user_id" = none ∨
      r.configurable? "langgraph_auth_user_id" = some (.str user.identity))

/-- The arguments of a run that a request of a user inserts. -/
theorem carries_of_insertedRun {host : RunHost} {context : RequestContext} {threadId : Option Uuid}
    {temporary : Bool} {payload : List (String × Json)} {call : CreateCall} {user : User}
    (huser : context.auth.bind AuthContext.user = some user)
    (hcall : createCall host context threadId temporary payload = some call) {snap cur : Database}
    {r : Run} (hr : r ∈ insertedRun call.params snap cur) : r.Carries user := by
  obtain ⟨-, thread, -, assistant, -, rfl⟩ := mem_insertedRun.mp hr
  obtain ⟨hconfig, hconf⟩ := createCall_configurable hcall
  obtain ⟨hid, hval⟩ := configurableOf_user huser hcall
  have hrow : ∀ k, (insertRun call.params thread assistant).configurable? k = _ :=
    configurable?_insertRun call.isObj_kwargs hconfig hconf
  constructor
  · rw [hrow]
    split
    · rw [hval]
      exact .inr rfl
    · exact .inl rfl
  · rw [hrow]
    split
    · rw [hid]
      exact .inr rfl
    · exact .inl rfl

/-- A run after some calls has the arguments of a run before them, or of one that they create. -/
theorem run_before_executeAll {rpcs : List Rpc} {d : Database} {r : Run}
    (h : r ∈ (executeAll rpcs d).run) :
    (∃ r₀ ∈ d.run, r₀.runId = r.runId ∧ r₀.kwargs = r.kwargs) ∨
      ∃ request env d', .createRun request env ∈ rpcs ∧
        ∃ r₀ ∈ insertedRun (createParams request env) d' d',
          r₀.runId = r.runId ∧ r₀.kwargs = r.kwargs := by
  induction rpcs generalizing d with
  | nil => exact .inl ⟨r, h, rfl, rfl⟩
  | cons rpc rpcs ih =>
    rcases ih h with ⟨r₁, hr₁, hid₁, hkwargs₁⟩ | ⟨request, env, d', hmem, hfound⟩
    · rcases run_before_execute hr₁ with ⟨r₀, hr₀, hid, -, hkwargs⟩ | ⟨request, env, rfl, hins⟩
      · exact .inl ⟨r₀, hr₀, hid.trans hid₁, hkwargs.trans hkwargs₁⟩
      · exact .inr ⟨request, env, d, List.mem_cons_self, r₁, hins, hid₁, hkwargs₁⟩
    · exact .inr ⟨request, env, d', List.mem_cons_of_mem _ hmem, hfound⟩

/-- A run after a request was there before, or the request has inserted it. -/
theorem run_before_createValidRun {call : CreateCall} {now : Timestamp} {d : Database} {r : Run}
    (h : r ∈ (createValidRun call {} now d).db.run) :
    (∃ r₀ ∈ d.run, r₀.runId = r.runId ∧ r₀.kwargs = r.kwargs) ∨
      ∃ d', ∃ r₀ ∈ insertedRun call.params d' d', r₀.runId = r.runId ∧ r₀.kwargs = r.kwargs := by
  obtain ⟨rpcs, hrpcs, hdb⟩ := db_createValidRun call now d
  rw [hdb] at h
  rcases run_before_executeAll h with hold | ⟨request, env, d', hmem, hfound⟩
  · exact .inl hold
  · rcases hrpcs _ hmem with heq | ⟨_, _, heq⟩
    · cases heq
      exact .inr ⟨d', hfound⟩
    · cases heq

theorem Run.Carries.congr {user : User} {r r' : Run} (h : r.Carries user)
    (hkwargs : r.kwargs = r'.kwargs) : r'.Carries user := by
  simp only [Run.Carries, Run.configurable?, Run.config?] at h ⊢
  rw [← hkwargs]
  exact h

/-! ### The start of a run -/

section Start

variable {engine : GraphEngine} {str : Str} {r : Run} {d : Database} {h : ActiveRun}

theorem startRun_eq_some (hs : startRun engine str r d = some h) :
    h.run = r ∧ startTasks engine h.graph h.configurable r.kwargs d = some h.tasks ∧
      ∃ config, kwargsConfig str r.kwargs = some (some config) ∧
        config.lookup "configurable" = some (.obj h.configurable) := by
  simp only [startRun, Option.bind_eq_bind, Option.bind_eq_some_iff] at hs
  obtain ⟨config, hconfig, configurable, ⟨v, hv, hdict⟩, graph, -, tasks, htasks, heq⟩ := hs
  obtain rfl := Option.some.inj heq
  obtain rfl := asDict_eq_some.mp hdict
  exact ⟨rfl, htasks, config, Option.join_eq_some_iff.mp hconfig, hv⟩

theorem lookup_of_startRun (hs : startRun engine str r d = some h) {k : String}
    (hk : k ∉ ownConfigurableKeys) (hid : k ≠ "run_id") :
    h.configurable.lookup k = r.configurable? k := by
  obtain ⟨-, -, decoded, hdecoded, hconf⟩ := startRun_eq_some hs
  obtain ⟨config, proto, hget, -, hencodes, rfl⟩ := kwargsConfig_eq_some.mp hdecoded
  have hlookup := hencodes.lookup_decoded k
  rw [hconf] at hlookup
  rw [← lookup_of_get?_config hget k, ← hencodes.lookup_other hk hid]
  exact hlookup

theorem admits_of_startRun {deployment : AgentDeployment} {user : User}
    (hs : startRun engine deployment.str r d = some h) (hcarries : r.Carries user)
    (hmulti : deployment.settings.multiUser = true) (hnot : ¬ deployment.settings.Lists user) :
    deployment.admits h = false := by
  have huser := lookup_of_startRun hs (k := "langgraph_auth_user") (by decide) (by decide)
  have hid := lookup_of_startRun hs (k := "langgraph_auth_user_id") (by decide) (by decide)
  have hgate : gate deployment.settings deployment.str h.configurable = some false :=
    gate_eq_false hmulti hnot (huser ▸ hcarries.1) (hid ▸ hcarries.2)
  rw [AgentDeployment.admits, hgate]
  rfl

end Start

/-! ### Every run of the system -/

/-- Only users on the list have the body of an analytics tool executed in their runs. -/
def OnlyListed (deployment : AgentDeployment) (s : AgentSystem) : Prop :=
  ∀ e ∈ s.executed, e.2 ∈ analyticsTools →
    ∀ user, (e.1, some user) ∈ s.created → deployment.settings.Lists user

/-- The hook of the gate is on every path from the entry of the analytics agent to its tools, and
the other graphs do not have these tools. -/
def GraphEngine.EntryGated (engine : GraphEngine) : Prop :=
  ∀ graph, ∀ t ∈ engine.entry graph, engine.Confined graph t

/-- A run of a user who is not on the list that continues from a checkpoint or at the nodes of its
command does so at tasks from which the tools are reached through the gate alone. -/
def ContinuesBehindGate (deployment : AgentDeployment) (s : AgentSystem) (a : AgentAction) : Prop :=
  ∀ runId, a = .start runId → ∀ user, (runId, some user) ∈ s.created →
    ¬ deployment.settings.Lists user → ∀ r, s.db.run.get? runId = some r →
      continues r.kwargs = true → ∀ h, startRun deployment.engine deployment.str r s.db = some h →
        ∀ t ∈ h.tasks, deployment.engine.Confined h.graph t

/-- A run of a user who is not on the list is refused by the gate, and has it ahead. -/
def ActiveRun.Guarded (deployment : AgentDeployment) (created : List (Uuid × Option User))
    (h : ActiveRun) : Prop :=
  ∀ user, (h.run.runId, some user) ∈ created → ¬ deployment.settings.Lists user →
    deployment.admits h = false ∧ ∀ t ∈ h.tasks, deployment.engine.Confined h.graph t

/-- The record knows the run. -/
def AgentSystem.Knows (s : AgentSystem) (runId : Uuid) : Prop := ∃ e ∈ s.created, e.1 = runId

structure AgentSystem.Guarded (deployment : AgentDeployment) (s : AgentSystem) : Prop where
  rows : ∀ r ∈ s.db.run, s.Knows r.runId ∧
    ∀ user, (r.runId, some user) ∈ s.created → r.Carries user
  active : ∀ h ∈ s.active, s.Knows h.run.runId ∧ h.Guarded deployment s.created
  executed : ∀ e ∈ s.executed, s.Knows e.1
  onlyListed : OnlyListed deployment s

section Steps

variable {deployment : AgentDeployment} {s s' : AgentSystem}

theorem AgentSystem.Knows.created {runId id : Uuid} {x y : Option User} (hk : s.Knows runId)
    (hfresh : ∀ e ∈ s.created, e.1 ≠ id) (h : (runId, x) ∈ s.created ++ [(id, y)]) :
    (runId, x) ∈ s.created := by
  rcases List.mem_append.mp h with h | h
  · exact h
  · obtain ⟨e, he, rfl⟩ := hk
    cases List.mem_singleton.mp h
    exact absurd rfl (hfresh e he)

theorem AgentSystem.Guarded.withDb (hg : s.Guarded deployment) {d : Database}
    (hd : ∀ r ∈ d.run, ∃ r₀ ∈ s.db.run, r₀.runId = r.runId ∧ r₀.kwargs = r.kwargs) :
    AgentSystem.Guarded deployment { s with db := d } := by
  refine ⟨fun r hr => ?_, hg.active, hg.executed, hg.onlyListed⟩
  obtain ⟨r₀, hr₀, hid, hkwargs⟩ := hd r hr
  obtain ⟨hknown, hcarries⟩ := hg.rows r₀ hr₀
  exact ⟨hid ▸ hknown, fun user huser => (hcarries user (hid ▸ huser)).congr hkwargs⟩

theorem AgentSystem.Guarded.sameRuns (hg : s.Guarded deployment) {d : Database}
    (hd : d.run = s.db.run) : AgentSystem.Guarded deployment { s with db := d } :=
  hg.withDb fun r hr => ⟨r, hd ▸ hr, rfl, rfl⟩

/-- A request creates a run under a new id. -/
theorem AgentSystem.Guarded.create (hg : s.Guarded deployment) {context : RequestContext}
    {threadId : Option Uuid} {temporary : Bool} {payload : List (String × Json)} {call : CreateCall}
    (hcall : createCall deployment.host context threadId temporary payload = some call)
    (hfresh : ∀ e ∈ s.created, e.1 ≠ call.env.freshRunId) :
    AgentSystem.Guarded deployment { s with
      db := (createValidRun call {} call.env.now s.db).db
      created := s.created ++ [(call.env.freshRunId, context.auth.bind AuthContext.user)] } := by
  have hkeep : ∀ {runId}, s.Knows runId →
      ∃ e ∈ s.created ++ [(call.env.freshRunId, context.auth.bind AuthContext.user)],
        e.1 = runId := by
    rintro runId ⟨e, he, hid⟩
    exact ⟨e, List.mem_append_left _ he, hid⟩
  constructor
  case rows =>
    intro r hr
    rcases run_before_createValidRun hr with ⟨r₀, hr₀, hid, hkwargs⟩ | ⟨d', r₀, hins, hid, hkwargs⟩
    · obtain ⟨hknown, hcarries⟩ := hg.rows r₀ hr₀
      rw [← hid]
      exact ⟨hkeep hknown, fun user huser =>
        (hcarries user (hknown.created hfresh huser)).congr hkwargs⟩
    · -- the row is that of the new id, which nobody else has drawn
      have hnew : r.runId = call.env.freshRunId := by
        obtain ⟨-, thread, -, assistant, -, rfl⟩ := mem_insertedRun.mp hins
        exact hid.symm
      rw [hnew]
      refine ⟨⟨_, List.mem_append_right _ List.mem_cons_self, rfl⟩, fun user huser => ?_⟩
      rcases List.mem_append.mp huser with hold | hlast
      · exact absurd rfl (hfresh _ hold)
      · obtain ⟨-, hauth⟩ := Prod.mk.inj (List.mem_singleton.mp hlast)
        exact (carries_of_insertedRun hauth.symm hcall hins).congr hkwargs
  case active =>
    intro h hh
    obtain ⟨hknown, hguarded⟩ := hg.active h hh
    exact ⟨hkeep hknown, fun user huser => hguarded user (hknown.created hfresh huser)⟩
  case executed => exact fun e he => hkeep (hg.executed e he)
  case onlyListed =>
    exact fun e he htool user huser =>
      hg.onlyListed e he htool user ((hg.executed e he).created hfresh huser)

/-- A worker starts a run. -/
theorem AgentSystem.Guarded.start (hg : s.Guarded deployment)
    (hmulti : deployment.settings.multiUser = true) (hentry : deployment.engine.EntryGated)
    {runId : Uuid} (hOk : ContinuesBehindGate deployment s (.start runId)) {r : Run}
    (hr : s.db.run.get? runId = some r) {h : ActiveRun}
    (hs : startRun deployment.engine deployment.str r s.db = some h) :
    AgentSystem.Guarded deployment { s with active := s.active ++ [h] } := by
  obtain ⟨hmem, rfl⟩ := Table.get?_eq_some.mp hr
  obtain ⟨hrun, htasks, -⟩ := startRun_eq_some hs
  obtain ⟨hknown, hcarries⟩ := hg.rows r hmem
  refine ⟨hg.rows, fun h' hh' => ?_, hg.executed, hg.onlyListed⟩
  rcases List.mem_append.mp hh' with hh' | hh'
  · exact hg.active h' hh'
  · rw [List.mem_singleton.mp hh', ActiveRun.Guarded, hrun]
    refine ⟨hknown, fun user huser hnot => ⟨?_, ?_⟩⟩
    · exact admits_of_startRun hs (hcarries user huser) hmulti hnot
    · cases hinput : continues r.kwargs with
      | true => exact hOk _ rfl user huser hnot r hr hinput h hs
      | false =>
        rw [startTasks_of_input hinput, Option.some_inj] at htasks
        exact htasks ▸ hentry h.graph

/-- A task of a run ends: the gate schedules nothing, and what is scheduled by another task is
behind the gate too. -/
theorem AgentSystem.Guarded.execute (hg : s.Guarded deployment) {i j : ℕ} {tools : List String}
    {next : List GraphTask} (hs : deployment.execute s i j tools next = some s') :
    s'.Guarded deployment := by
  simp only [AgentDeployment.execute, Option.bind_eq_bind, Option.bind_eq_some_iff] at hs
  obtain ⟨h, hi, t, hj, hs⟩ := hs
  have hmem : h ∈ s.active := List.mem_of_getElem? hi
  have ht : t ∈ h.tasks := List.mem_of_getElem? hj
  obtain ⟨hknown, hguarded⟩ := hg.active h hmem
  -- what the task may execute and schedule in a run that the gate refuses
  have hrefused : ∀ user, (h.run.runId, some user) ∈ s.created → ¬ deployment.settings.Lists user →
      (∀ tool ∈ tools, tool ∉ analyticsTools) ∧
        ∀ t' ∈ next, deployment.engine.Confined h.graph t' := by
    intro user huser hnot
    obtain ⟨hadmits, hconfined⟩ := hguarded user huser hnot
    by_cases hgate : IsGate h.graph t
    · rw [if_pos ⟨hgate, hadmits⟩] at hs
      split at hs
      · next hnone =>
        obtain ⟨rfl, rfl⟩ := hnone
        exact ⟨nofun, nofun⟩
      · cases hs
    · rw [if_neg fun hboth => hgate hboth.1] at hs
      split at hs
      · next hall =>
        simp only [Bool.and_eq_true, List.all_eq_true, decide_eq_true_eq] at hall
        have htask := hconfined t ht
        exact ⟨fun tool htool => htask.bodies hgate tool (hall.1 tool htool),
          fun t' ht' => htask.next hgate (hall.2 t' ht')⟩
      · cases hs
  have hs' : s' = { s with
      active := s.active.set i { h with tasks := h.tasks.eraseIdx j ++ next }
      executed := s.executed ++ tools.map fun tool => (h.run.runId, tool) } := by
    split at hs
    · split at hs
      · exact (Option.some.inj hs).symm
      · cases hs
    · split at hs
      · exact (Option.some.inj hs).symm
      · cases hs
  rw [hs']
  constructor
  case rows => exact hg.rows
  case active =>
    intro h' hh'
    rcases List.mem_or_eq_of_mem_set hh' with hh' | rfl
    · exact hg.active h' hh'
    · refine ⟨hknown, fun user huser hnot => ?_⟩
      obtain ⟨hadmits, hconfined⟩ := hguarded user huser hnot
      refine ⟨hadmits, fun t' ht' => ?_⟩
      rcases List.mem_append.mp ht' with ht' | ht'
      · exact hconfined t' (List.mem_of_mem_eraseIdx ht')
      · exact (hrefused user huser hnot).2 t' ht'
  case executed =>
    intro e he
    rcases List.mem_append.mp he with he | he
    · exact hg.executed e he
    · obtain ⟨tool, -, rfl⟩ := List.mem_map.mp he
      exact hknown
  case onlyListed =>
    intro e he htool user huser
    rcases List.mem_append.mp he with he | he
    · exact hg.onlyListed e he htool user huser
    · obtain ⟨tool, hin, rfl⟩ := List.mem_map.mp he
      by_contra hnot
      exact (hrefused user huser hnot).1 tool hin htool

/-- **One step** that meets the condition. -/
theorem AgentSystem.Guarded.step (hg : s.Guarded deployment)
    (hmulti : deployment.settings.multiUser = true) (hentry : deployment.engine.EntryGated)
    {a : AgentAction}
    (hOk : ContinuesBehindGate deployment s a) (hs : agentStep deployment s a = some s') :
    s'.Guarded deployment := by
  cases a with
  | create context threadId temporary payload =>
    simp only [agentStep] at hs
    split at hs
    · cases hs
      exact hg
    · next call hcall =>
      split at hs
      · cases hs
      · next hfresh =>
        cases hs
        refine hg.create hcall fun e he heq => hfresh ?_
        exact List.any_eq_true.mpr ⟨e, he, decide_eq_true heq⟩
  | update u asNodes =>
    simp only [agentStep] at hs
    split at hs
    · next hrows =>
      split at hs
      · cases hs
        exact hg
      · next d hd =>
        cases hs
        obtain ⟨-, -, rfl⟩ := updateState_eq_ok hd
        have hsaved : ∀ x ∈ u.saved, x.checkpointThread = some u.threadId :=
          fun x hx => of_decide_eq_true (List.all_eq_true.mp hrows x hx)
        exact hg.sameRuns ((run_setThreadStatus ..).trans (run_saveRows hsaved s.db))
    · cases hs
  | other rpc =>
    simp only [agentStep] at hs
    split at hs
    · cases hs
    · next hcreates =>
      cases hs
      refine hg.withDb fun r hr => ?_
      rcases run_before_execute hr with ⟨r₀, hr₀, hid, -, hkwargs⟩ | ⟨request, env, rfl, -⟩
      · exact ⟨r₀, hr₀, hid, hkwargs⟩
      · exact absurd rfl hcreates
  | start runId =>
    obtain ⟨h, hh, rfl⟩ := Option.map_eq_some_iff.mp hs
    obtain ⟨r, hr, hstart⟩ := Option.bind_eq_some_iff.mp hh
    exact hg.start hmulti hentry hOk hr hstart
  | execute i j tools next => exact hg.execute hs
  | save i item =>
    obtain ⟨h, -, hs⟩ := Option.bind_eq_some_iff.mp hs
    split at hs
    · cases hs
      refine hg.sameRuns ?_
      cases item <;> rfl
    · cases hs
  | stop i =>
    cases hs
    exact ⟨hg.rows, fun h hh => hg.active h (List.mem_of_mem_eraseIdx hh), hg.executed,
      hg.onlyListed⟩

end Steps

/-- **In every run** in which the runs of users who are not on the list continue behind the gate,
only users on the list reach the warehouse. -/
theorem onlyListed_of_continuesBehindGate (deployment : AgentDeployment)
    (hmulti : deployment.settings.multiUser = true) (hentry : deployment.engine.EntryGated)
    {s : AgentSystem}
    (h : (agentSystem deployment).Reachable (ContinuesBehindGate deployment) s) :
    OnlyListed deployment s := by
  have hinv : s.Guarded deployment := by
    refine h.invariant ?_ fun s a s' _ ih hOk hs => ih.step hmulti hentry hOk hs
    rintro s ⟨hrun, hactive, -, hexecuted⟩
    refine ⟨fun r hr => ?_, fun h hh => ?_, fun e he => ?_, fun e he => ?_⟩
    · rw [hrun] at hr
      cases hr
    · rw [hactive] at hh
      cases hh
    · rw [hexecuted] at he
      cases he
    · rw [hexecuted] at he
      cases he
  exact hinv.onlyListed

/-! ### A state update as the model -/

/-- The graph of a thread, for which its state is updated. -/
def threadGraph (d : Database) (threadId : Uuid) : Option String :=
  (getGraphId threadId d).or (((d.thread.get? threadId).bind fun t =>
    truthyValue (t.metadata.get? "graph_id")).bind asStr)

/-- What a state update leaves to do is what outputs of the nodes schedule that it is made as. -/
def UpdatesAsNodes (deployment : AgentDeployment) (s : AgentSystem) (a : AgentAction) : Prop :=
  ∀ u asNodes, a = .update u asNodes → ∀ d ∈ (updateState deployment.reader u s.db).toOption,
    ∀ graph ∈ threadGraph s.db u.threadId,
      ∀ t ∈ deployment.engine.scheduled graph [("thread_id", .str u.threadId.text)] d,
        ∃ n ∈ asNodes, deployment.engine.follows graph n t = true

instance (deployment : AgentDeployment) (s : AgentSystem) (a : AgentAction) :
    Decidable (UpdatesAsNodes deployment s a) :=
  match a with
  | .update u asNodes =>
    decidable_of_iff (∀ d ∈ (updateState deployment.reader u s.db).toOption,
      ∀ graph ∈ threadGraph s.db u.threadId,
        ∀ t ∈ deployment.engine.scheduled graph [("thread_id", .str u.threadId.text)] d,
          ∃ n ∈ asNodes, deployment.engine.follows graph n t = true)
      ⟨fun h u' n' heq => by cases heq; exact h, fun h => h u asNodes rfl⟩
  | .create .. | .other .. | .start .. | .execute .. | .save .. | .stop .. => isTrue nofun

/-- The runs that are started have an input. -/
def StartsWithInput (s : AgentSystem) (a : AgentAction) : Prop :=
  ∀ runId, a = .start runId → ∀ r ∈ s.db.run.get? runId, continues r.kwargs = false

instance (s : AgentSystem) (a : AgentAction) : Decidable (StartsWithInput s a) :=
  match a with
  | .start runId =>
    decidable_of_iff (∀ r ∈ s.db.run.get? runId, continues r.kwargs = false)
      ⟨fun h i heq => by cases heq; exact h, fun h => h runId rfl⟩
  | .create .. | .update .. | .other .. | .execute .. | .save .. | .stop .. => isTrue nofun

/-- The gate, the model and the tools, and checkpoints that list the nodes they schedule. -/
def threeNodes : GraphEngine where
  entry graph := if graph = analyticsGraph then [{ node := gateNode }] else []
  follows _ t t' := t.node = gateNode ∧ t'.node = "model" ∨ t.node = "model" ∧ t'.node = "tools" ∨
    t.node = "tools" ∧ t'.node = "model"
  bodies _ t := if t.node = "tools" then analyticsTools else []
  scheduled _ configurable d :=
    let saved := d.checkpoints.select fun c =>
      configurable.lookup "thread_id" = some (.str c.threadId.text)
    match saved.head?.bind fun c => c.checkpoint.get? "next" with
    | some (.arr nodes) => nodes.filterMap fun v => (asStr v).map fun node => { node }
    | _ => []

/-- A deployment whose list has bob. -/
def bobsWarehouse : AgentDeployment where
  host := agentHost
  engine := threeNodes
  reader := emptyReader
  str := Str.render
  settings := { multiUser := true, allowedUsers := "bob@example.org", lower := String.toLower }

theorem entryGated_threeNodes : threeNodes.EntryGated := by
  intro graph t ht t' hpath
  simp only [threeNodes] at ht
  split at ht
  · next hgraph =>
    rw [List.mem_singleton] at ht
    subst ht
    rcases Relation.ReflTransGen.cases_head hpath with rfl | ⟨_, ⟨hnot, -⟩, -⟩
    · exact .inl ⟨hgraph, rfl⟩
    · exact absurd ⟨hgraph, rfl⟩ hnot
  · cases ht

/-- A store with the analytics agent. -/
def analyticsStore : Database :=
  Database.fresh (Table.empty.put { assistantId := 1, graphId := analyticsGraph })

/-- A request of bob for a run with an id. -/
def requestOfBob (runId : Uuid) : RequestContext where
  auth := some { user := some { identity := "bob", email := some "bob@example.org" } }
  env := ⟨0, runId, 10⟩

/-- A run of the analytics agent by bob: the gate, a call of the model, and a query. -/
def queryOfBob : List AgentAction :=
  [.create (requestOfBob 100) none false [("assistant_id", .str "agent"), ("input", .obj [])],
    .start 100, .execute 0 0 [] [{ node := "model" }], .execute 0 0 [] [{ node := "tools" }],
    .execute 0 0 ["run_sql"] []]

/-- The checkpoint of an update as the model, with a call of a tool. -/
def scheduledTools : Checkpoint where
  threadId := 10
  checkpointId := 30
  checkpoint := .obj [("next", .arr [.str "tools"])]

def updateOfAlice : StateUpdate where
  caller := some "alice"
  threadId := 10
  saved := [.checkpoint scheduledTools]
  now := 1

/-- Alice makes a thread of the analytics agent, updates its state as the model, which has called a
tool, and runs the agent without an input. -/
def queryOfAlice : List AgentAction :=
  [.other (.createThread 10 (.obj [("owner", .str "alice"), ("graph_id", .str analyticsGraph)]) 0),
    .update updateOfAlice [{ node := "model" }],
    .create (requestOfAlice 100) (some 10) false [("assistant_id", .str "agent")],
    .start 100, .execute 0 0 ["run_sql"] []]

/-- Bob reaches the warehouse. -/
theorem onlyListed_queryOfBob :
    ∃ s, (agentSystem bobsWarehouse).Reachable (ContinuesBehindGate bobsWarehouse) s ∧
      OnlyListed bobsWarehouse s ∧ s.executed = [(100, "run_sql")] := by
  obtain ⟨s, hs, hp⟩ := Machine.exists_reachable (agentSystem bobsWarehouse) StartsWithInput
    (show (agentSystem bobsWarehouse).init { db := analyticsStore } from ⟨rfl, rfl, rfl, rfl⟩)
    queryOfBob (fun s => s.executed = [(100, "run_sql")]) (by decide +kernel)
  have hs' : (agentSystem bobsWarehouse).Reachable (ContinuesBehindGate bobsWarehouse) s := by
    refine hs.mono fun s a hinput runId ha _ _ _ r hr hcontinues => ?_
    rw [hinput runId ha r hr] at hcontinues
    cases hcontinues
  exact ⟨s, hs', onlyListed_of_continuesBehindGate bobsWarehouse rfl entryGated_threeNodes hs',
    of_decide_eq_true hp⟩

/-- Alice reaches the warehouse too. -/
theorem not_onlyListed : ¬ ∀ deployment : AgentDeployment, deployment.settings.multiUser = true →
    deployment.engine.EntryGated → ∀ s, (agentSystem deployment).Reachable
      (UpdatesAsNodes deployment) s → OnlyListed deployment s := by
  intro hall
  obtain ⟨s, hs, hp⟩ := Machine.exists_reachable (agentSystem bobsWarehouse)
    (UpdatesAsNodes bobsWarehouse)
    (show (agentSystem bobsWarehouse).init { db := analyticsStore } from ⟨rfl, rfl, rfl, rfl⟩)
    queryOfAlice (fun s => (100, "run_sql") ∈ s.executed ∧ (100, some alice) ∈ s.created)
    (by decide +kernel)
  obtain ⟨hexecuted, hcreated⟩ := of_decide_eq_true hp
  have hlists := hall bobsWarehouse rfl entryGated_threeNodes s hs _ hexecuted (by decide) alice
    hcreated
  rcases hlists with hin | ⟨email, hemail, hin⟩
  · exact absurd hin (by decide +kernel)
  · rw [← Option.some.inj hemail] at hin
    exact absurd hin (by decide +kernel)

end NextRole
