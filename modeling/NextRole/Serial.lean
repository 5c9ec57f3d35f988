import NextRole.Effects

/-!
# Calls executed one at a time

What each call leaves in the run and thread tables when nothing runs next to it.

## Main definitions

* `execute` — the database after one call.
* `oneByOne` — the services when every call runs alone.
* `createReply`, `cancel` — what `Runs.Create` and `Runs.Cancel` answer and send.

## Main results

* `reachable_of_oneByOne` — running alone is one of the interleavings.
* `mem_run_deleteRun`, `mem_run_setRunStatus`, `mem_thread_setJointStatus` and so on —
  the rows after each call.
-/

namespace NextRole

open ReadCommitted

/-- The database after a call that runs alone. -/
def execute (rpc : Rpc) (d : Database) : Database := serial statements rpc d

/-- The services when every call runs alone. -/
def oneByOne (init : Database → Prop) : Machine Database Rpc :=
  ⟨init, fun d rpc => some (execute rpc d)⟩

theorem execute_eq_or (rpc : Rpc) (d : Database) : execute rpc d = d ∨
    execute rpc d = applyAll d ((Txn.alone statements rpc d).writes statements) :=
  serial_eq_or rpc d

theorem reachable_of_oneByOne {init : Database → Prop} {Ok : Database → Rpc → Prop}
    {Ok' : ServiceState → Action Rpc → Prop}
    (hrest : ∀ s a, (∀ i rpc, a ≠ .begin i rpc) → Ok' s a)
    (hbegin : ∀ d rpc, Ok d rpc → Ok' ⟨d, .empty⟩ (.begin 0 rpc)) {d : Database}
    (h : (oneByOne init).Reachable Ok d) : (services init).Reachable Ok' ⟨d, .empty⟩ := by
  induction h with
  | init h => exact .init ⟨h, rfl⟩
  | step _ ha hs ih =>
    cases hs
    exact reachable_serial hrest ih (hbegin _ _ ha)

theorem execute_single {rpc : Rpc} {q : Statement} (h : statements rpc = [q]) (d : Database) :
    execute rpc d = applyAll d ((q d [] d).writes.getD []) :=
  serial_single h d

theorem assistant_execute (rpc : Rpc) (d : Database) : (execute rpc d).assistant = d.assistant := by
  rcases execute_eq_or rpc d with hsame | hws
  · rw [hsame]
  · rw [hws]
    exact applyAll_assistant _ _

/-! ### Where rows come from -/

/-- A run after a call was there before, or the call puts it. -/
theorem run_of_execute {rpc : Rpc} {d : Database} {r : Run} (h : r ∈ (execute rpc d).run) :
    r ∈ d.run ∨ RunWrite rpc d [] d r := by
  rcases execute_eq_or rpc d with hsame | hws
  · rw [hsame] at h
    exact Or.inl h
  · rw [hws] at h
    rcases run_of_applyAll h with hput | ⟨-, hold⟩
    · obtain ⟨ρ, rest, hdone, -, hwrite⟩ := Txn.runWrite hput
      have hρ : ρ ∈ (Txn.alone statements rpc d).done := hdone ▸ List.mem_cons_self
      obtain rfl := List.eq_of_mem_replicate hρ
      exact Or.inr hwrite
    · exact Or.inl hold

/-- A run after a call was there before, with the same thread and arguments, or the
call creates it. -/
theorem run_before_execute {rpc : Rpc} {d : Database} {r : Run} (h : r ∈ (execute rpc d).run) :
    (∃ r₀ ∈ d.run, r₀.runId = r.runId ∧ r₀.threadId = r.threadId ∧ r₀.kwargs = r.kwargs) ∨
      ∃ request env, rpc = .createRun request env ∧
        r ∈ insertedRun (createParams request env) d d := by
  rcases run_of_execute h with hold | hwrite
  · exact Or.inl ⟨r, hold, rfl, rfl, rfl⟩
  · cases hwrite with
    | createRun hins => exact Or.inr ⟨_, _, rfl, hins⟩
    | next hmem hr₀ hid₀ => exact Or.inl ⟨_, hr₀, rfl, rfl, rfl⟩
    | setRunStatus hr₀ hid₀ => exact Or.inl ⟨_, hr₀, rfl, rfl, rfl⟩
    | cancelRuns hr₀ hid₀ hp => exact Or.inl ⟨_, hr₀, rfl, rfl, rfl⟩
    | setJointStatus hr₀ hid₀ hne => exact Or.inl ⟨_, hr₀, rfl, rfl, rfl⟩

/-- A statement that puts a thread finds the threads as they were when its call began. -/
theorem thread_before_put {rpc : Rpc} {l : List (Reading Database RowKey)} {q : Statement}
    (hq : (statements rpc)[l.length]? = some q) {snap cur : Database} {held : List RowKey}
    {t : Thread} (hput : .put (.thread t) ∈ (q snap held cur).writes.getD []) (d : Database) :
    (applyAll d (writesOf (statements rpc) l [])).thread = d.thread := by
  have hnil : writesOf (statements rpc) ([] : List (Reading Database RowKey)) [] = [] := by
    cases statements rpc <;> rfl
  have hwrite := threadWrite_of_mem (List.mem_of_getElem? hq) hput
  cases l with
  | nil => rw [hnil, applyAll_nil]
  | cons ρ l =>
    refine applyAll_thread fun w hw k => ?_
    cases hwrite with
    | @setJointStatus request now _ _ _ t₀ ht₀ hid =>
      -- the statement before is about runs
      obtain rfl : l = [] := by
        cases l with
        | nil => rfl
        | cons ρ' l => simp [statements, setJointStatus] at hq
      obtain ⟨k', hkey⟩ := @key_setJointRun _ _ _ _ ρ.held w hw
      rw [hkey]
      simp
    | @copyThread threadId newId filters now _ _ _ t₀ ht₀ hnone =>
      cases l with
      | nil =>
        -- the statement before is the ownership check
        exact absurd hw (@not_mem_select1 _ _ _ ρ.held w)
      | cons ρ' l =>
        exfalso
        have hrest := @List.mem_of_getElem? _ _ l.length _
          (show [copyRows checkpointsTable _ _, copyRows checkpointBlobsTable _ _,
            copyRows checkpointWritesTable _ _][l.length]? = some q from hq)
        simp only [List.mem_cons, List.not_mem_nil, or_false] at hrest
        rcases hrest with rfl | rfl | rfl
        all_goals
          obtain ⟨a, heq⟩ := mem_copyRows hput
          cases heq
    | _ => simp [statements] at hq

/-- A thread after a call was there before, or the call puts it. -/
theorem thread_of_execute {rpc : Rpc} {d : Database} {t : Thread}
    (h : t ∈ (execute rpc d).thread) :
    t ∈ d.thread ∨ ∃ d', d'.thread = d.thread ∧ ThreadWrite rpc d' [] d' t := by
  rcases execute_eq_or rpc d with hsame | hws
  · rw [hsame] at h
    exact Or.inl h
  · rw [hws] at h
    rcases thread_of_applyAll h with hput | ⟨-, hold⟩
    · obtain ⟨l, ρ, rest, q, hdone, hq, hw⟩ := ReadCommitted.Txn.mem_writes statements hput
      have hρ : ρ ∈ (Txn.alone statements rpc d).done := by
        rw [hdone]
        exact List.mem_append_right _ List.mem_cons_self
      obtain rfl := List.eq_of_mem_replicate hρ
      exact Or.inr ⟨_, thread_before_put hq hw d, threadWrite_of_mem (List.mem_of_getElem? hq) hw⟩
    · exact Or.inl hold

/-! ### Runs.Delete, Runs.SetStatus and Runs.Cancel -/

theorem mem_run_deleteRun {request : DeleteRunRequest} {d : Database} {r : Run} :
    r ∈ (execute (.deleteRun request) d).run ↔ r ∈ d.run ∧
      ¬ (r.runId = request.runId ∧ r.threadId = request.threadId ∧
        threadOwnerClause request.filters d.thread r.threadId = true) := by
  have hq : statements (.deleteRun request) = [deleteRun request] := rfl
  rw [execute_single hq]
  refine runTable.mem_delete_alone.trans ?_
  simp [runTable]

theorem mem_run_setRunStatus {runId : Uuid} {status : RunStatus} {now : Timestamp} {d : Database}
    {r : Run} :
    r ∈ (execute (.setRunStatus runId status now) d).run ↔
      (r ∈ d.run ∧ r.runId ≠ runId) ∨
        ∃ r₀ ∈ d.run, r₀.runId = runId ∧ r = withStatus status now r₀ := by
  have hq : statements (.setRunStatus runId status now) = [setRunStatus runId status now] := rfl
  rw [execute_single hq]
  refine (runTable.mem_update_alone fun _ => rfl).trans ?_
  simp [runTable]

theorem mem_run_cancelRuns_rollback {runIds : List Uuid} {now : Timestamp} {d : Database}
    {r : Run} :
    r ∈ (execute (.cancelRuns runIds .rollback now) d).run ↔
      r ∈ d.run ∧ ¬ (r.runId ∈ runIds ∧ r.status = .pending) := by
  have hq : statements (.cancelRuns runIds .rollback now) = [cancelRuns runIds .rollback now] := rfl
  rw [execute_single hq]
  refine runTable.mem_delete_alone.trans ?_
  simp [runTable]

theorem mem_run_cancelRuns_interrupt {runIds : List Uuid} {now : Timestamp} {d : Database}
    {r : Run} :
    r ∈ (execute (.cancelRuns runIds .interrupt now) d).run ↔
      (r ∈ d.run ∧ ¬ (r.runId ∈ runIds ∧ r.status = .pending)) ∨
        ∃ r₀ ∈ d.run, (r₀.runId ∈ runIds ∧ r₀.status = .pending) ∧
          r = withStatus .interrupted now r₀ := by
  have hq : statements (.cancelRuns runIds .interrupt now) =
    [cancelRuns runIds .interrupt now] := rfl
  rw [execute_single hq]
  refine (runTable.mem_update_alone fun _ => rfl).trans ?_
  simp [runTable]

/-- A cancel leaves exactly the runs alone that are not pending or not among its
targets. -/
theorem mem_run_cancelRuns_iff {runIds : List Uuid} {action : CancelRunAction} {now : Timestamp}
    {d : Database} {r : Run} (hr : r ∈ d.run) :
    r ∈ (execute (.cancelRuns runIds action now) d).run ↔
      ¬ (r.runId ∈ runIds ∧ r.status = .pending) := by
  cases action with
  | rollback => simp [mem_run_cancelRuns_rollback, hr]
  | interrupt =>
    rw [mem_run_cancelRuns_interrupt]
    constructor
    · rintro (⟨-, hnot⟩ | ⟨r₀, -, -, rfl⟩)
      · exact hnot
      · intro h
        cases h.2
    · intro hnot
      exact Or.inl ⟨hr, hnot⟩

/-! ### Tables that a call leaves alone -/

/-- The calls whose statement is about runs only. -/
def Rpc.runsOnly : Rpc → Bool
  | .next .. | .deleteRun .. | .setRunStatus .. | .cancelRuns .. => true
  | _ => false

theorem thread_update_run (p : Database → Run → Bool) (f : Database → Run → Run) (d : Database) :
    (runAlone d (runTable.update p f)).thread = d.thread := by
  refine applyAll_thread fun w hw k => ?_
  obtain ⟨r, -, rfl⟩ := Relation.mem_update.mp hw
  simp [runTable]

theorem thread_delete_run (p : Database → Run → Bool) (d : Database) :
    (runAlone d (runTable.delete p)).thread = d.thread := by
  refine applyAll_thread fun w hw k => ?_
  obtain ⟨r, -, rfl⟩ := Relation.mem_delete.mp hw
  simp [runTable]

theorem run_update_thread (p : Database → Thread → Bool) (f : Database → Thread → Thread)
    (d : Database) : (runAlone d (threadTable.update p f)).run = d.run := by
  refine applyAll_run fun w hw k => ?_
  obtain ⟨t, -, rfl⟩ := Relation.mem_update.mp hw
  simp [threadTable]

/-- A call that is about runs only leaves the threads alone. -/
theorem thread_execute {rpc : Rpc} (h : rpc.runsOnly = true) (d : Database) :
    (execute rpc d).thread = d.thread := by
  cases rpc with
  | next limit now tie =>
    have hq : statements (.next limit now tie) = [claim (nextLimit limit) now tie] := rfl
    rw [execute_single hq]
    refine applyAll_thread fun w hw k => ?_
    obtain ⟨r, -, r₀, -, -, rfl⟩ := mem_claim hw
    simp
  | deleteRun request =>
    have hq : statements (.deleteRun request) = [deleteRun request] := rfl
    rw [execute_single hq]
    exact thread_delete_run _ d
  | setRunStatus runId status now =>
    have hq : statements (.setRunStatus runId status now) = [setRunStatus runId status now] := rfl
    rw [execute_single hq]
    exact thread_update_run _ _ d
  | cancelRuns runIds action now =>
    have hq : statements (.cancelRuns runIds action now) = [cancelRuns runIds action now] := rfl
    rw [execute_single hq]
    cases action with
    | rollback => exact thread_delete_run _ d
    | interrupt => exact thread_update_run _ _ d
  | _ => cases h

/-- The calls whose statements leave the runs alone. -/
def Rpc.noRuns : Rpc → Bool
  | .createThread .. | .patchThread .. | .setThreadStatus .. | .copyThread .. => true
  | _ => false

theorem key_ne_run_of_noRuns {rpc : Rpc} (hrpc : rpc.noRuns = true) {q : Statement}
    (hq : q ∈ statements rpc) {snap cur : Database} {held : List RowKey} {w : Write}
    (h : w ∈ (q snap held cur).writes.getD []) (k : Uuid) : RowWrite.key w ≠ .run k := by
  have hupdate : ∀ (p : Database → Thread → Bool) (f : Database → Thread → Thread),
      w ∈ (threadTable.update p f snap held cur).writes.getD [] → RowWrite.key w ≠ .run k := by
    intro p f hmem
    obtain ⟨t, -, rfl⟩ := Relation.mem_update.mp hmem
    simp [threadTable]
  cases rpc with
  | createThread threadId metadata now =>
    obtain rfl := List.mem_singleton.mp hq
    simp only [createThread, Option.getD_some] at h
    split at h
    · exact absurd h List.not_mem_nil
    · obtain rfl := List.mem_singleton.mp h
      simp
  | patchThread threadId metadata filters now =>
    obtain rfl := List.mem_singleton.mp hq
    exact hupdate _ _ h
  | setThreadStatus request now =>
    obtain rfl := List.mem_singleton.mp hq
    exact hupdate _ _ h
  | copyThread threadId newId filters now =>
    rcases mem_copyThread hq h with ⟨t₀, -, -, rfl⟩ | ⟨c, -, rfl⟩ | ⟨b, -, rfl⟩ | ⟨x, -, rfl⟩ <;>
      simp [Row.key]
  | _ => cases hrpc

theorem run_execute {rpc : Rpc} (h : rpc.noRuns = true) (d : Database) :
    (execute rpc d).run = d.run := by
  rcases execute_eq_or rpc d with hsame | hws
  · rw [hsame]
  · rw [hws]
    refine applyAll_run fun w hw k => ?_
    obtain ⟨l, ρ, rest, q, -, hq, hmem⟩ := ReadCommitted.Txn.mem_writes statements hw
    exact key_ne_run_of_noRuns h (List.mem_of_getElem? hq) hmem k

theorem checkpointRow_of_execute {rpc : Rpc} {d : Database} {x : Row} {k : Uuid}
    (hx : x.checkpointThread = some k) (h : RowStore.row (execute rpc d) x.key = some x) :
    RowStore.row d x.key = some x ∨ ∃ threadId filters now, rpc = .copyThread threadId k filters now := by
  rcases execute_eq_or rpc d with hsame | hws
  · rw [hsame] at h
    exact Or.inl h
  · rw [hws] at h
    rcases row_of_applyAll h with hput | ⟨-, hold⟩
    · obtain ⟨l, ρ, rest, q, -, hq, hw⟩ := ReadCommitted.Txn.mem_writes statements hput
      exact Or.inr (checkpointWrite_of_mem (List.mem_of_getElem? hq) hx hw)
    · exact Or.inl hold

/-- No call writes a cron, and only `Threads.Delete` removes one. -/
theorem cron_of_execute {rpc : Rpc} {d : Database} {c : Cron} (h : c ∈ (execute rpc d).cron) :
    c ∈ d.cron := by
  rcases execute_eq_or rpc d with hsame | hws
  · rwa [hsame] at h
  · rw [hws, mem_cron_iff_row] at h
    rcases @row_of_applyAll _ _ (.cron c) h with hput | ⟨-, hold⟩
    · obtain ⟨l, ρ, rest, q, -, hq, hw⟩ := ReadCommitted.Txn.mem_writes statements hput
      rcases put_of_mem (List.mem_of_getElem? hq) hw with ⟨r, heq⟩ | ⟨t, heq⟩ | ⟨_, _, _, _, -, hnone⟩
      · cases heq
      · cases heq
      · cases hnone
    · exact mem_cron_iff_row.mpr hold

/-! ### Rows that a call keeps -/

/-- Two databases have the same rows of a thread in the checkpoint tables. -/
def SameCheckpoints (threadId : Uuid) (d d' : Database) : Prop :=
  ∀ x : Row, x.checkpointThread = some threadId →
    (RowStore.row d x.key = some x ↔ RowStore.row d' x.key = some x)

theorem SameCheckpoints.refl (threadId : Uuid) (d : Database) : SameCheckpoints threadId d d :=
  fun _ _ => Iff.rfl

theorem SameCheckpoints.trans {threadId : Uuid} {d d' d'' : Database}
    (h : SameCheckpoints threadId d d') (h' : SameCheckpoints threadId d' d'') :
    SameCheckpoints threadId d d'' :=
  fun x hx => (h x hx).trans (h' x hx)

theorem SameCheckpoints.mem_checkpoints {threadId : Uuid} {d d' : Database}
    (h : SameCheckpoints threadId d d') {c : Checkpoint} (hid : c.threadId = threadId) :
    c ∈ d.checkpoints ↔ c ∈ d'.checkpoints := by
  rw [mem_checkpoints_iff_row, mem_checkpoints_iff_row]
  exact h (.checkpoint c) (congrArg some hid)

theorem checkpointThread_of_key {x y : Row} (h : x.key = y.key) :
    x.checkpointThread = y.checkpointThread := by
  cases x <;> cases y <;> simp_all [Row.key, Row.checkpointThread, Keyed.key]

theorem checkpointThread_run_ne {x : Row} {k runId : Uuid} (hx : x.checkpointThread = some k) :
    x.key ≠ .run runId := by
  cases x <;> simp_all [Row.key, Row.checkpointThread]

theorem checkpointThread_thread_ne {x : Row} {k threadId : Uuid} (hx : x.checkpointThread = some k) :
    x.key ≠ .thread threadId := by
  cases x <;> simp_all [Row.key, Row.checkpointThread]

theorem sameCheckpoints_puts {rows : List Row} {threadId k : Uuid} (hne : threadId ≠ k)
    (h : ∀ x ∈ rows, x.checkpointThread = some threadId) (d : Database) :
    SameCheckpoints k d (applyAll d (rows.map Write.put)) := by
  intro x hx
  have hkey : x.key ∉ keys (rows.map Write.put) := by
    simp only [keys, List.map_map, List.mem_map, not_exists, not_and]
    intro y hy hkey
    have heq := checkpointThread_of_key (show y.key = x.key from hkey)
    rw [h y hy, hx] at heq
    exact hne (Option.some.inj heq)
  rw [row_applyAll_of_not_mem hkey]

/-- A call that deletes no thread and does not copy to this one leaves its rows in the
checkpoint tables. -/
theorem sameCheckpoints_execute {rpc : Rpc} {k : Uuid}
    (hdelete : ∀ threadId filters, rpc ≠ .deleteThread threadId filters)
    (hcopy : ∀ threadId filters now, rpc ≠ .copyThread threadId k filters now) (d : Database) :
    SameCheckpoints k d (execute rpc d) := by
  intro x hx
  constructor
  · intro hold
    rcases execute_eq_or rpc d with hsame | hws
    · rw [hsame]
      exact hold
    · rw [hws]
      rcases row_applyAll d ((Txn.alone statements rpc d).writes statements) x.key with
        ⟨w, hw, hkey, -⟩ | ⟨-, hrow⟩
      · exfalso
        obtain ⟨l, ρ, rest, q, -, hq, hmem⟩ := ReadCommitted.Txn.mem_writes statements hw
        cases w with
        | put y =>
          have hy := (checkpointThread_of_key hkey).trans hx
          obtain ⟨src, filters, now, heq⟩ := checkpointWrite_of_mem (List.mem_of_getElem? hq) hy hmem
          exact hcopy src filters now heq
        | del k' =>
          rcases del_of_mem (List.mem_of_getElem? hq) hmem with ⟨src, filters, heq⟩ | ⟨runId, heq⟩
          · exact hdelete src filters heq
          · exact checkpointThread_run_ne hx (hkey.symm.trans heq)
      · rw [hrow]
        exact hold
  · intro hnew
    rcases checkpointRow_of_execute hx hnew with hold | ⟨src, filters, now, heq⟩
    · exact hold
    · exact absurd heq (hcopy src filters now)

/-! ### Runs.Next -/

/-- A claim that runs alone keeps every run or sets it running. -/
theorem mem_run_next {limit : ℕ} {now : Timestamp} {tie : Uuid → ℕ} {d : Database} {r : Run}
    (hr : r ∈ d.run) :
    r ∈ (execute (.next limit now tie) d).run ∨
      setRunning now r ∈ (execute (.next limit now tie) d).run := by
  have hq : statements (.next limit now tie) = [claim (nextLimit limit) now tie] := rfl
  rw [execute_single hq]
  rcases row_applyAll d ((claim (nextLimit limit) now tie d [] d).writes.getD []) (.run r.runId)
    with ⟨w, hw, hkey, hrow⟩ | ⟨-, hrow⟩
  · obtain ⟨r', -, r₀, hr₀, -, rfl⟩ := mem_claim hw
    obtain rfl : r₀ = r := Table.eq_of_key hr₀ hr (RowKey.run.inj hkey)
    exact Or.inr (mem_run_iff_row.mpr hrow)
  · rw [mem_run_iff_row.mp hr] at hrow
    exact Or.inl (mem_run_iff_row.mpr hrow)

/-! ### Runs.Create -/

theorem execute_createRun (request : CreateRunRequest) (env : CreateEnv) (d : Database) :
    execute (.createRun request env) d =
      applyAll d ((createRun (createParams request env) d [] d).writes.getD []) := by
  have hq : statements (.createRun request env) = [createRun (createParams request env)] := rfl
  rw [execute_single hq]

theorem execute_of_conflicts {request : CreateRunRequest} {env : CreateEnv} {d : Database}
    (h : createConflicts (createParams request env) d d = true) :
    execute (.createRun request env) d = d := by
  rw [execute_createRun]
  simp [createRun, h]

/-- The rows that a creation which runs alone returns, if its query does not fail. -/
def createReply (request : CreateRunRequest) (env : CreateEnv) (d : Database) : Option (List Run) :=
  if createConflicts (createParams request env) d d then none
  else some (createResponse (createParams request env) d d)

/-- A creation that runs alone keeps the runs. -/
theorem mem_run_createRun {request : CreateRunRequest} {env : CreateEnv} {d : Database} {r : Run}
    (hr : r ∈ d.run) : r ∈ (execute (.createRun request env) d).run := by
  rw [execute_createRun]
  rcases row_applyAll d ((createRun (createParams request env) d [] d).writes.getD [])
    (.run r.runId) with ⟨w, hw, hkey, hrow⟩ | ⟨-, hrow⟩
  · -- the key of the inserted run was free, or nothing is written
    exfalso
    rcases mem_createRun hw with ⟨t, -, rfl⟩ | ⟨r', hr', rfl⟩ | ⟨t, -, rfl⟩
    · cases hkey
    · have hid : r'.runId = r.runId := RowKey.run.inj hkey
      rw [runId_of_mem_insertedRun hr'] at hid
      rw [createRun_writes_of_taken hr' hr hid.symm] at hw
      exact absurd hw List.not_mem_nil
    · cases hkey
  · rw [mem_run_iff_row.mp hr] at hrow
    exact mem_run_iff_row.mpr hrow

/-- A creation that runs alone and writes anything leaves a run that it inserts. -/
theorem exists_insertedRun_createRun {request : CreateRunRequest} {env : CreateEnv} {d : Database}
    {w : Write} (hw : w ∈ (createRun (createParams request env) d [] d).writes.getD [])
    (hne : insertedRun (createParams request env) d d ≠ []) :
    ∃ r ∈ insertedRun (createParams request env) d d,
      r ∈ (execute (.createRun request env) d).run := by
  obtain ⟨r, hr⟩ := List.exists_mem_of_ne_nil _ hne
  rw [execute_createRun]
  rcases row_applyAll d ((createRun (createParams request env) d [] d).writes.getD [])
    (.run r.runId) with ⟨w', hw', hkey, hrow⟩ | ⟨hk, -⟩
  · rcases mem_createRun hw' with ⟨t, -, rfl⟩ | ⟨r', hr', rfl⟩ | ⟨t, -, rfl⟩
    · cases hkey
    · rw [← hkey] at hrow
      exact ⟨r', hr', mem_run_iff_row.mpr hrow⟩
    · cases hkey
  · exact absurd (List.mem_map.mpr ⟨_, put_insertedRun hw hr, rfl⟩) hk

/-! ### Threads.SetStatus and Threads.SetJointStatus -/

theorem run_setThreadStatus (request : SetThreadStatusRequest) (now : Timestamp) (d : Database) :
    (execute (.setThreadStatus request now) d).run = d.run := by
  have hq : statements (.setThreadStatus request now) = [setThreadStatus request now] := rfl
  rw [execute_single hq]
  exact run_update_thread _ _ d

theorem mem_thread_setThreadStatus {request : SetThreadStatusRequest} {now : Timestamp}
    {d : Database} {t : Thread} : t ∈ (execute (.setThreadStatus request now) d).thread ↔
      (t ∈ d.thread ∧ ¬ (t.threadId = request.threadId ∧
        (request.expectedStatus = [] ∨ t.status ∈ request.expectedStatus))) ∨
      ∃ t₀ ∈ d.thread, t₀.threadId = request.threadId ∧
        (request.expectedStatus = [] ∨ t₀.status ∈ request.expectedStatus) ∧
          t = statusThread request now d t₀ := by
  have hq : statements (.setThreadStatus request now) = [setThreadStatus request now] := rfl
  rw [execute_single hq]
  refine (threadTable.mem_update_alone fun _ => rfl).trans ?_
  simp [threadTable, and_assoc]

theorem execute_setJointStatus (request : SetJointStatusRequest) (now : Timestamp) (d : Database) :
    execute (.setJointStatus request now) d =
      runAlone (runAlone d (setJointRun request now)) (setJointThread request now) := by
  refine serial_eq_foldl (fun q hq d => ?_) d
  simp only [statements, setJointStatus, List.mem_cons, List.not_mem_nil, or_false] at hq
  rcases hq with rfl | rfl
  · unfold setJointRun
    split <;> rfl
  · rfl

theorem run_setJointStatus (request : SetJointStatusRequest) (now : Timestamp) (d : Database) :
    (execute (.setJointStatus request now) d).run =
      (runAlone d (setJointRun request now)).run := by
  rw [execute_setJointStatus]
  exact run_update_thread _ _ _

theorem mem_run_setJointStatus {request : SetJointStatusRequest} {now : Timestamp} {d : Database}
    (hne : request.runStatus ≠ .rollback) {r : Run} :
    r ∈ (execute (.setJointStatus request now) d).run ↔
      (r ∈ d.run ∧ r.runId ≠ request.runId) ∨
        ∃ r₀ ∈ d.run, r₀.runId = request.runId ∧ r = withStatus request.runStatus now r₀ := by
  rw [run_setJointStatus, setJointRun, if_neg hne]
  refine (runTable.mem_update_alone fun _ => rfl).trans ?_
  simp [runTable]

theorem mem_run_setJointStatus_rollback {request : SetJointStatusRequest} {now : Timestamp}
    {d : Database} (h : request.runStatus = .rollback) {r : Run} :
    r ∈ (execute (.setJointStatus request now) d).run ↔
      r ∈ d.run ∧ ¬ (r.runId = request.runId ∧ r.threadId = request.threadId) := by
  rw [run_setJointStatus, setJointRun, if_pos h]
  refine runTable.mem_delete_alone.trans ?_
  simp [runTable]

theorem thread_setJointRun (request : SetJointStatusRequest) (now : Timestamp) (d : Database) :
    (runAlone d (setJointRun request now)).thread = d.thread := by
  unfold setJointRun
  split
  · exact thread_delete_run _ d
  · exact thread_update_run _ _ d

/-- The status is computed from the runs that the transaction itself leaves. -/
theorem mem_thread_setJointStatus {request : SetJointStatusRequest} {now : Timestamp}
    {d : Database} {t : Thread} :
    t ∈ (execute (.setJointStatus request now) d).thread ↔
      (t ∈ d.thread ∧ t.threadId ≠ request.threadId) ∨
        ∃ t₀ ∈ d.thread, t₀.threadId = request.threadId ∧
          t = jointThread request now (execute (.setJointStatus request now) d) t₀ := by
  have hsnap : jointThread request now (execute (.setJointStatus request now) d) =
      jointThread request now (runAlone d (setJointRun request now)) := by
    unfold jointThread hasInflight
    rw [run_setJointStatus]
  rw [hsnap, execute_setJointStatus, ← thread_setJointRun request now d]
  refine (threadTable.mem_update_alone fun _ => rfl).trans ?_
  simp [threadTable]

/-! ### Threads.Delete -/

/-- The deletes of `Threads.Delete`, without its ownership check. -/
def threadDeletes (threadId : Uuid) : List Statement :=
  [ checkpointWritesTable.delete fun _ w => w.threadId = threadId,
    checkpointBlobsTable.delete fun _ b => b.threadId = threadId,
    checkpointsTable.delete fun _ c => c.threadId = threadId,
    runTable.delete fun _ r => r.threadId = threadId,
    cronTable.delete fun _ c => c.threadId = some threadId,
    threadTable.delete fun _ t => t.threadId = threadId ]

/-- The second database is the first one without a thread and the rows that belong
to it. -/
structure WithoutThread (threadId : Uuid) (d d' : Database) : Prop where
  thread : ∀ t, t ∈ d'.thread ↔ t ∈ d.thread ∧ t.threadId ≠ threadId
  run : ∀ r, r ∈ d'.run ↔ r ∈ d.run ∧ r.threadId ≠ threadId
  cron : ∀ c, c ∈ d'.cron ↔ c ∈ d.cron ∧ c.threadId ≠ some threadId
  checkpoints : ∀ c, c ∈ d'.checkpoints ↔ c ∈ d.checkpoints ∧ c.threadId ≠ threadId
  checkpointBlobs : ∀ b, b ∈ d'.checkpointBlobs ↔ b ∈ d.checkpointBlobs ∧ b.threadId ≠ threadId
  checkpointWrites : ∀ w, w ∈ d'.checkpointWrites ↔ w ∈ d.checkpointWrites ∧ w.threadId ≠ threadId

theorem withoutThread_threadDeletes (threadId : Uuid) (d : Database) :
    WithoutThread threadId d ((threadDeletes threadId).foldl runAlone d) := by
  simp only [threadDeletes, List.foldl_cons, List.foldl_nil]
  generalize h₁ : runAlone d (checkpointWritesTable.delete fun _ w => w.threadId = threadId) = d₁
  generalize h₂ : runAlone d₁ (checkpointBlobsTable.delete fun _ b => b.threadId = threadId) = d₂
  generalize h₃ : runAlone d₂ (checkpointsTable.delete fun _ c => c.threadId = threadId) = d₃
  generalize h₄ : runAlone d₃ (runTable.delete fun _ r => r.threadId = threadId) = d₄
  generalize h₅ : runAlone d₄ (cronTable.delete fun _ c => c.threadId = some threadId) = d₅
  generalize h₆ : runAlone d₅ (threadTable.delete fun _ t => t.threadId = threadId) = d₆
  constructor
  case thread =>
    intro t
    have hbefore : d₅.thread = d.thread :=
      ((((cronTable.table_delete_other threadTable (fun _ _ => rfl) h₅).trans
        (runTable.table_delete_other threadTable (fun _ _ => rfl) h₄)).trans
        (checkpointsTable.table_delete_other threadTable (fun _ _ => rfl) h₃)).trans
        (checkpointBlobsTable.table_delete_other threadTable (fun _ _ => rfl) h₂)).trans
        (checkpointWritesTable.table_delete_other threadTable (fun _ _ => rfl) h₁)
    rw [← hbefore]
    simpa using threadTable.mem_of_runAlone_delete h₆ t
  case run =>
    intro r
    have hbefore : d₃.run = d.run :=
      ((checkpointsTable.table_delete_other runTable (fun _ _ => rfl) h₃).trans
        (checkpointBlobsTable.table_delete_other runTable (fun _ _ => rfl) h₂)).trans
        (checkpointWritesTable.table_delete_other runTable (fun _ _ => rfl) h₁)
    have hafter : d₆.run = d₄.run :=
      (threadTable.table_delete_other runTable (fun _ _ => rfl) h₆).trans
        (cronTable.table_delete_other runTable (fun _ _ => rfl) h₅)
    rw [hafter, ← hbefore]
    simpa using runTable.mem_of_runAlone_delete h₄ r
  case cron =>
    intro c
    have hbefore : d₄.cron = d.cron :=
      (((runTable.table_delete_other cronTable (fun _ _ => rfl) h₄).trans
        (checkpointsTable.table_delete_other cronTable (fun _ _ => rfl) h₃)).trans
        (checkpointBlobsTable.table_delete_other cronTable (fun _ _ => rfl) h₂)).trans
        (checkpointWritesTable.table_delete_other cronTable (fun _ _ => rfl) h₁)
    have hafter : d₆.cron = d₅.cron :=
      threadTable.table_delete_other cronTable (fun _ _ => rfl) h₆
    rw [hafter, ← hbefore]
    simpa using cronTable.mem_of_runAlone_delete h₅ c
  case checkpoints =>
    intro c
    have hbefore : d₂.checkpoints = d.checkpoints :=
      (checkpointBlobsTable.table_delete_other checkpointsTable (fun _ _ => rfl) h₂).trans
        (checkpointWritesTable.table_delete_other checkpointsTable (fun _ _ => rfl) h₁)
    have hafter : d₆.checkpoints = d₃.checkpoints :=
      ((threadTable.table_delete_other checkpointsTable (fun _ _ => rfl) h₆).trans
        (cronTable.table_delete_other checkpointsTable (fun _ _ => rfl) h₅)).trans
        (runTable.table_delete_other checkpointsTable (fun _ _ => rfl) h₄)
    rw [hafter, ← hbefore]
    simpa using checkpointsTable.mem_of_runAlone_delete h₃ c
  case checkpointBlobs =>
    intro b
    have hbefore : d₁.checkpointBlobs = d.checkpointBlobs :=
      checkpointWritesTable.table_delete_other checkpointBlobsTable (fun _ _ => rfl) h₁
    have hafter : d₆.checkpointBlobs = d₂.checkpointBlobs :=
      (((threadTable.table_delete_other checkpointBlobsTable (fun _ _ => rfl) h₆).trans
        (cronTable.table_delete_other checkpointBlobsTable (fun _ _ => rfl) h₅)).trans
        (runTable.table_delete_other checkpointBlobsTable (fun _ _ => rfl) h₄)).trans
        (checkpointsTable.table_delete_other checkpointBlobsTable (fun _ _ => rfl) h₃)
    rw [hafter, ← hbefore]
    simpa using checkpointBlobsTable.mem_of_runAlone_delete h₂ b
  case checkpointWrites =>
    intro w
    have hafter : d₆.checkpointWrites = d₁.checkpointWrites :=
      ((((threadTable.table_delete_other checkpointWritesTable (fun _ _ => rfl) h₆).trans
        (cronTable.table_delete_other checkpointWritesTable (fun _ _ => rfl) h₅)).trans
        (runTable.table_delete_other checkpointWritesTable (fun _ _ => rfl) h₄)).trans
        (checkpointsTable.table_delete_other checkpointWritesTable (fun _ _ => rfl) h₃)).trans
        (checkpointBlobsTable.table_delete_other checkpointWritesTable (fun _ _ => rfl) h₂)
    rw [hafter]
    simpa using checkpointWritesTable.mem_of_runAlone_delete h₁ w

theorem isSome_delete {α κ : Type} [Keyed α κ] [DecidableEq κ] (T : Relation α)
    (p : Database → α → Bool) (d : Database) : (T.delete p d [] d).writes.isSome = true := rfl

theorem isSome_threadDeletes {threadId : Uuid} {q : Statement} (hq : q ∈ threadDeletes threadId)
    (d : Database) : (q d [] d).writes.isSome = true := by
  simp only [threadDeletes, List.mem_cons, List.not_mem_nil, or_false] at hq
  rcases hq with rfl | rfl | rfl | rfl | rfl | rfl <;> exact isSome_delete _ _ _

/-- Without filters, `Threads.Delete` removes the thread and all that belongs to it. -/
theorem withoutThread_deleteThread (threadId : Uuid) (d : Database) :
    WithoutThread threadId d (execute (.deleteThread threadId []) d) := by
  have hexec : execute (.deleteThread threadId []) d = (threadDeletes threadId).foldl runAlone d :=
    serial_eq_foldl (fun q hq d => isSome_threadDeletes hq d) d
  rw [hexec]
  exact withoutThread_threadDeletes threadId d

/-- `Threads.Delete` does nothing, or removes the thread and all that belongs to it. -/
theorem execute_deleteThread (threadId : Uuid) (filters : List AuthFilter) (d : Database) :
    execute (.deleteThread threadId filters) d = d ∨
      WithoutThread threadId d (execute (.deleteThread threadId filters) d) := by
  cases hf : filtersClause filters with
  | none =>
    right
    have hstmts : statements (.deleteThread threadId filters) = threadDeletes threadId := by
      simp [statements, deleteThread, hf, threadDeletes]
    have hexec : execute (.deleteThread threadId filters) d =
        (threadDeletes threadId).foldl runAlone d := by
      rw [← hstmts]
      exact serial_eq_foldl (fun q hq d => isSome_threadDeletes (hstmts ▸ hq) d) d
    rw [hexec]
    exact withoutThread_threadDeletes threadId d
  | some p =>
    let found : Database → Bool := fun d =>
      d.thread.rows.any fun t => t.threadId = threadId && p.holds t.metadata
    have hstmts : statements (.deleteThread threadId filters) =
        select1 found :: threadDeletes threadId := by
      simp [statements, deleteThread, hf, threadDeletes, found]
    have hexec : execute (.deleteThread threadId filters) d = applyAll d
        ((serialFrom d (select1 found :: threadDeletes threadId) []).getD []) := by
      rw [← hstmts]
      rfl
    rw [hexec, serialFrom, show (outcome (select1 found) [] ⟨d, [], d⟩).writes =
      if found d then some [] else none from rfl]
    cases found d with
    | false => exact Or.inl rfl
    | true =>
      right
      simp only [if_true, Option.bind_some, List.append_nil]
      rw [applyAll_serialFrom_of_total fun q hq d => isSome_threadDeletes hq d]
      exact withoutThread_threadDeletes threadId d

/-! ### Runs.Cancel with its reads -/

/-- The targets that a cancel keeps. -/
def keptTargets (request : CancelRunRequest) (d : Database) : List (Uuid × Uuid) :=
  ownedTargets request.filters (cancelTargets request.target d) d

theorem mem_of_mem_ownedTargets {filters : List AuthFilter} {targets : List (Uuid × Uuid)}
    {d : Database} {target : Uuid × Uuid} (h : target ∈ ownedTargets filters targets d) :
    target ∈ targets := by
  unfold ownedTargets at h
  split at h
  · exact h
  · exact (List.mem_filter.mp h).1

/-- A target whose thread exists and is admitted is kept. -/
theorem mem_ownedTargets_of_admits {filters : List AuthFilter} {targets : List (Uuid × Uuid)}
    {d : Database} {target : Uuid × Uuid} (h : target ∈ targets) {t : Thread} (ht : t ∈ d.thread)
    (hid : t.threadId = target.1) (hadm : admits filters t.metadata = true) :
    target ∈ ownedTargets filters targets d := by
  unfold admits at hadm
  unfold ownedTargets
  cases hf : filtersClause filters with
  | none => exact h
  | some p =>
    rw [hf] at hadm
    refine List.mem_filter.mpr ⟨h, List.any_eq_true.mpr ⟨t, ?_, decide_eq_true hid⟩⟩
    exact Table.mem_select.mpr ⟨ht, hadm⟩

/-- `Runs.Cancel`: the database and the control signals that it leaves. -/
def cancel (request : CancelRunRequest) (now : Timestamp) (d : Database) :
    Database × List ControlSignal :=
  (execute (.cancelRuns ((keptTargets request d).map Prod.snd) request.action now) d,
    controlSignals (keptTargets request d) request.action)

end NextRole
