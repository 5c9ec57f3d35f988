import NextRole.Api.Server
import NextRole.StuckBusy

/-!
# Stateless runs leave nothing behind

The thread of a stateless run is deleted by the worker when the run ends, and by
nothing else.  `Runs.Cancel` and `Runs.Delete` take a pending run away from the
workers and leave the thread, and a worker that puts a deleted run back leaves it too.
When none of this happens, a stateless run is gone with its thread as soon as no
worker holds it and it is not in flight, and no worker deletes a thread that a caller
has named.

## Main definitions

* `NothingLeft`, `LeavesNothing`, `SparesNamed` — what is to hold.
* `Drawn` — what drawing a uuid guarantees.
* `Spared` — the condition on a step.
* `Stateless`, `Known` — what is invariant of one stateless run and of all of them.

## Main results

* `leavesNothing_of_spared` — **runs of the server whose steps meet the condition leave
  nothing of a stateless run behind and delete no named thread**.
* `not_leavesNothing` — a pending stateless run that is cancelled.
-/

namespace NextRole

open ReadCommitted

/-- No thread row and no run of the thread. -/
def Gone (threadId : Uuid) (d : Database) : Prop :=
  (∀ t ∈ d.thread, t.threadId ≠ threadId) ∧ ∀ r ∈ d.run, r.threadId ≠ threadId

/-- No row of the checkpoint tables for the thread. -/
def NoCheckpoints (threadId : Uuid) (d : Database) : Prop :=
  (∀ c ∈ d.checkpoints, c.threadId ≠ threadId) ∧
    (∀ b ∈ d.checkpointBlobs, b.threadId ≠ threadId) ∧
      ∀ w ∈ d.checkpointWrites, w.threadId ≠ threadId

def NothingLeft (threadId : Uuid) (d : Database) : Prop := Gone threadId d ∧ NoCheckpoints threadId d

instance (threadId : Uuid) (d : Database) : Decidable (Gone threadId d) := by
  unfold Gone
  infer_instance

instance (threadId : Uuid) (d : Database) : Decidable (NoCheckpoints threadId d) := by
  unfold NoCheckpoints
  infer_instance

instance (threadId : Uuid) (d : Database) : Decidable (NothingLeft threadId d) := by
  unfold NothingLeft
  infer_instance

/-- Nothing is left of a run on a temporary thread that is not in flight and that no
worker holds. -/
def LeavesNothing (s : Server) : Prop :=
  ∀ p ∈ s.temporary, (∀ r ∈ s.db.run, r.runId = p.1 → r.status.inflight = false) →
    (∀ h ∈ s.held, h.runId ≠ p.1) → NothingLeft p.2 s.db

/-- No thread that a worker has deleted was named by a caller. -/
def SparesNamed (s : Server) : Prop := ∀ threadId ∈ s.cleaned, threadId ∉ s.named

instance : DecidablePred LeavesNothing := fun s => by
  unfold LeavesNothing
  infer_instance

instance : DecidablePred SparesNamed := fun s => by
  unfold SparesNamed
  infer_instance

/-! ### The condition -/

/-- Nothing in the state has the thread id. -/
def Unused (threadId : Uuid) (s : Server) : Prop :=
  threadId ∉ s.named ∧ (∀ p ∈ s.temporary, p.2 ≠ threadId) ∧
    (∀ h ∈ s.held, h.threadId ≠ threadId) ∧ NothingLeft threadId s.db

instance (threadId : Uuid) (s : Server) : Decidable (Unused threadId s) := by
  unfold Unused
  infer_instance

/-- The uuids that a step draws are new. -/
def Drawn (s : Server) : ServerAction → Prop
  | .create call => (∀ p ∈ s.temporary, p.1 ≠ call.env.freshRunId) ∧
      (∀ h ∈ s.held, h.runId ≠ call.env.freshRunId) ∧
        (call.names? = none → Unused call.params.threadId s)
  | .client (.copyThread _ newId _ _) => ∀ p ∈ s.temporary, p.2 ≠ newId
  | _ => True

/-- A step spares the stateless runs: no caller names a thread of one; no cancel takes
a pending one away, and a delete only one that a worker holds; and a worker puts one
back only if its row exists or all of it is gone. -/
def Spared (maxRetries : ℕ) (s : Server) : ServerAction → Prop
  | .create call => ∀ p ∈ s.temporary, call.names? ≠ some p.2
  | .client rpc => (∀ p ∈ s.temporary, rpc.names? ≠ some p.2) ∧
      ∀ p ∈ s.temporary, ∀ r ∈ s.db.run, r.runId = p.1 → rpc.takesAway s.db r = true →
        (∃ h ∈ s.held, h.runId = p.1) ∧ r.status ≠ .pending
  | .finish run attempt report _ => (report.ofAttempt maxRetries attempt run).ended = .retriable →
      ∀ p ∈ s.temporary, p.1 = run.runId →
        (∃ r ∈ s.db.run, r.runId = run.runId) ∨ Gone p.2 s.db
  | _ => True

instance (s : Server) : DecidablePred (Drawn s) := fun a => by
  unfold Drawn
  split <;> infer_instance

instance (maxRetries : ℕ) (s : Server) : DecidablePred (Spared maxRetries s) := fun a => by
  unfold Spared
  split <;> infer_instance

/-! ### One call and one stateless run -/

/-- What the rows of the database say of a stateless run: it is the only run of its
thread, it is in flight as long as it exists, and its thread has no checkpoints. -/
structure Rows (runId threadId : Uuid) (d : Database) : Prop where
  onThread : ∀ r ∈ d.run, r.threadId = threadId → r.runId = runId
  ofRun : ∀ r ∈ d.run, r.runId = runId →
    r.threadId = threadId ∧ r.temporary = true ∧ r.status.inflight = true
  noCheckpoint : ∀ x : Row, x.checkpointThread = some threadId → RowStore.row d x.key ≠ some x

/-- A call that does not touch a stateless run: it neither draws nor names its run and
thread, does not end it by a status, and cancels it only while it is running. -/
def Harmless (runId threadId : Uuid) (d : Database) : Rpc → Prop
  | .createRun request env =>
    (createParams request env).runId ≠ runId ∧ (createParams request env).threadId ≠ threadId
  | .setRunStatus runId' status _ => runId' = runId → status.inflight = true
  | .cancelRuns runIds _ _ => ∀ r ∈ d.run, r.runId = runId → ¬ (runId ∈ runIds ∧ r.status = .pending)
  | .setJointStatus request _ => request.runId ≠ runId
  | .createThread threadId' _ _ => threadId' ≠ threadId
  | .copyThread _ newId _ _ => newId ≠ threadId
  | _ => True

section

variable {runId threadId : Uuid} {d : Database} {rpc : Rpc}

theorem run_before_harmless (hh : Harmless runId threadId d rpc) {r : Run}
    (hr : r ∈ (execute rpc d).run) (hid : r.runId = runId ∨ r.threadId = threadId) :
    ∃ r₀ ∈ d.run, r₀.runId = r.runId ∧ r₀.threadId = r.threadId ∧ r₀.kwargs = r.kwargs := by
  rcases run_before_execute hr with hold | ⟨request, env, rfl, hins⟩
  · exact hold
  · rcases hid with hid | hid
    · exact absurd ((runId_of_mem_insertedRun hins).symm.trans hid) hh.1
    · exact absurd ((threadId_of_mem_insertedRun hins).symm.trans hid) hh.2

/-- A harmless call leaves the run in flight. -/
theorem inflight_harmless (hh : Harmless runId threadId d rpc) (h : Rows runId threadId d) {r : Run}
    (hr : r ∈ (execute rpc d).run) (hid : r.runId = runId) : r.status.inflight = true := by
  rcases run_of_execute hr with hold | hwrite
  · exact (h.ofRun r hold hid).2.2
  · cases hwrite with
    | createRun hins => exact absurd ((runId_of_mem_insertedRun hins).symm.trans hid) hh.1
    | next hmem hr₀ hid₀ => rfl
    | setRunStatus hr₀ hid₀ => exact hh (hid₀.symm.trans hid)
    | @cancelRuns runIds now _ _ _ r₀ hr₀ hid₀ hp =>
      have hid' : r₀.runId = runId := hid
      exact absurd ⟨hid' ▸ hid₀, hp⟩ (hh r₀ hr₀ hid')
    | setJointStatus hr₀ hid₀ hne => exact absurd (hid₀.symm.trans hid) hh

theorem Rows.execute (hh : Harmless runId threadId d rpc) (h : Rows runId threadId d) :
    Rows runId threadId (NextRole.execute rpc d) := by
  refine ⟨fun r hr htid => ?_, fun r hr hid => ?_, fun x hx hrow => ?_⟩
  · obtain ⟨r₀, hr₀, hid₀, htid₀, -⟩ := run_before_harmless hh hr (Or.inr htid)
    exact hid₀.symm.trans (h.onThread r₀ hr₀ (htid₀.trans htid))
  · obtain ⟨r₀, hr₀, hid₀, htid₀, hkwargs⟩ := run_before_harmless hh hr (Or.inl hid)
    obtain ⟨htid, htemp, -⟩ := h.ofRun r₀ hr₀ (hid₀.trans hid)
    rw [Run.temporary_congr hkwargs] at htemp
    exact ⟨htid₀.symm.trans htid, htemp, inflight_harmless hh h hr hid⟩
  · rcases checkpointRow_of_execute hx hrow with hold | ⟨src, filters, now, rfl⟩
    · exact h.noCheckpoint x hx hold
    · exact hh rfl

theorem Gone.execute (hh : Harmless runId threadId d rpc) (h : Gone threadId d) :
    Gone threadId (NextRole.execute rpc d) := by
  refine ⟨fun t ht hid => ?_, fun r hr hid => ?_⟩
  · rcases thread_of_execute ht with hold | ⟨d', hsame, hwrite⟩
    · exact h.1 t hold hid
    · have hnone : ∀ t ∈ d'.thread, t.threadId ≠ threadId := hsame.symm ▸ h.1
      cases hwrite with
      | insert hins =>
        obtain ⟨-, -, a, -, rfl⟩ := insertedThread_eq_some.mp hins
        exact hh.2 hid
      | refresh hmem =>
        obtain ⟨t₀, ht₀, a, -, rfl⟩ := mem_updatedThread.mp hmem
        exact hnone t₀ (Relation.mem_rechecked.mp ht₀).1 hid
      | createThread hget => exact hh hid
      | patchThread ht₀ hid₀ hadm => exact hnone _ ht₀ hid
      | setThreadStatus ht₀ hid₀ => exact hnone _ ht₀ hid
      | setJointStatus ht₀ hid₀ => exact hnone _ ht₀ hid
      | copyThread ht₀ hget => exact hh hid
  · obtain ⟨r₀, hr₀, -, htid₀, -⟩ := run_before_harmless hh hr (Or.inr hid)
    exact h.2 r₀ hr₀ (htid₀.trans hid)

/-- The row of the run stays, unless `Runs.Delete` takes it or its thread is deleted. -/
theorem exists_run_or_gone (hh : Harmless runId threadId d rpc) (h : Rows runId threadId d)
    {r : Run} (hr : r ∈ d.run) (hid : r.runId = runId)
    (hdel : ∀ request, rpc = .deleteRun request → rpc.takesAway d r = false) :
    (∃ r' ∈ (NextRole.execute rpc d).run, r'.runId = runId) ∨ Gone threadId (NextRole.execute rpc d) := by
  cases rpc with
  | createRun request env => exact Or.inl ⟨r, mem_run_createRun hr, hid⟩
  | next limit now tie =>
    rcases mem_run_next hr with hmem | hmem
    · exact Or.inl ⟨r, hmem, hid⟩
    · exact Or.inl ⟨setRunning now r, hmem, hid⟩
  | deleteRun request =>
    refine Or.inl ⟨r, mem_run_deleteRun.mpr ⟨hr, ?_⟩, hid⟩
    simpa [Rpc.takesAway, and_assoc] using hdel request rfl
  | setRunStatus runId' status now =>
    by_cases hid' : r.runId = runId'
    · exact Or.inl ⟨withStatus status now r, mem_run_setRunStatus.mpr (Or.inr ⟨r, hr, hid', rfl⟩), hid⟩
    · exact Or.inl ⟨r, mem_run_setRunStatus.mpr (Or.inl ⟨hr, hid'⟩), hid⟩
  | cancelRuns runIds action now =>
    refine Or.inl ⟨r, (mem_run_cancelRuns_iff hr).mpr ?_, hid⟩
    rw [hid]
    exact hh r hr hid
  | setJointStatus request now =>
    have hne : r.runId ≠ request.runId := fun heq => hh (heq.symm.trans hid)
    by_cases hroll : request.runStatus = .rollback
    · exact Or.inl ⟨r, (mem_run_setJointStatus_rollback hroll).mpr ⟨hr, fun hsel => hne hsel.1⟩, hid⟩
    · exact Or.inl ⟨r, (mem_run_setJointStatus hroll).mpr (Or.inl ⟨hr, hne⟩), hid⟩
  | deleteThread threadId' filters =>
    rcases execute_deleteThread threadId' filters d with hsame | hwithout
    · rw [hsame]
      exact Or.inl ⟨r, hr, hid⟩
    · by_cases htid : threadId' = threadId
      · subst htid
        exact Or.inr ⟨fun t ht => ((hwithout.thread t).mp ht).2, fun r hr => ((hwithout.run r).mp hr).2⟩
      · refine Or.inl ⟨r, (hwithout.run r).mpr ⟨hr, ?_⟩, hid⟩
        rw [(h.ofRun r hr hid).1]
        exact Ne.symm htid
  | _ =>
    left
    rw [run_execute rfl]
    exact ⟨r, hr, hid⟩

end

theorem noCheckpoints_of_rows {threadId : Uuid} {d : Database}
    (h : ∀ x : Row, x.checkpointThread = some threadId → RowStore.row d x.key ≠ some x) :
    NoCheckpoints threadId d := by
  refine ⟨fun c hc hid => ?_, fun b hb hid => ?_, fun w hw hid => ?_⟩
  · exact h (.checkpoint c) (congrArg some hid) (mem_checkpoints_iff_row.mp hc)
  · exact h (.blob b) (congrArg some hid) (mem_checkpointBlobs_iff_row.mp hb)
  · exact h (.write w) (congrArg some hid) (mem_checkpointWrites_iff_row.mp hw)

theorem NoCheckpoints.rows {threadId : Uuid} {d : Database} (h : NoCheckpoints threadId d) {x : Row}
    (hx : x.checkpointThread = some threadId) : RowStore.row d x.key ≠ some x := by
  intro hrow
  cases x with
  | checkpoint c => exact h.1 c (mem_checkpoints_iff_row.mpr hrow) (Option.some.inj hx)
  | blob b => exact h.2.1 b (mem_checkpointBlobs_iff_row.mpr hrow) (Option.some.inj hx)
  | write w => exact h.2.2 w (mem_checkpointWrites_iff_row.mpr hrow) (Option.some.inj hx)
  | _ => cases hx

/-! ### One step and one stateless run -/

/-- What is invariant of a stateless run: what the rows say of it and the workers agree,
nobody has named its thread, and there is a row, a worker or nothing left. -/
structure Stateless (runId threadId : Uuid) (s : Server) : Prop where
  rows : Rows runId threadId s.db
  heldThread : ∀ h ∈ s.held, h.threadId = threadId → h.runId = runId
  heldRun : ∀ h ∈ s.held, h.runId = runId → h.threadId = threadId ∧ h.temporary = true
  unnamed : threadId ∉ s.named
  alive : (∃ r ∈ s.db.run, r.runId = runId) ∨ (∃ h ∈ s.held, h.runId = runId) ∨ Gone threadId s.db

/-- What is invariant of the state: every run on a temporary thread is known to be one,
and only threads of such runs have been deleted. -/
structure Known (s : Server) : Prop where
  stateless : ∀ p ∈ s.temporary, Stateless p.1 p.2 s
  ofRun : ∀ r ∈ s.db.run, r.temporary = true → (r.runId, r.threadId) ∈ s.temporary
  ofHeld : ∀ h ∈ s.held, h.temporary = true → (h.runId, h.threadId) ∈ s.temporary
  cleaned : ∀ threadId ∈ s.cleaned, ∃ p ∈ s.temporary, p.2 = threadId

theorem Stateless.run_or_gone {runId threadId : Uuid} {s : Server} {rpc : Rpc}
    (h : Stateless runId threadId s) (hh : Harmless runId threadId s.db rpc)
    (halive : (∃ r ∈ s.db.run, r.runId = runId ∧
      ∀ request, rpc = .deleteRun request → rpc.takesAway s.db r = false) ∨ Gone threadId s.db) :
    (∃ r ∈ (execute rpc s.db).run, r.runId = runId) ∨ Gone threadId (execute rpc s.db) := by
  rcases halive with ⟨r, hr, hid, hdel⟩ | hgone
  · exact exists_run_or_gone hh h.rows hr hid hdel
  · exact Or.inr (hgone.execute hh)

/-- A step that executes a harmless call and holds the runs that were held. -/
theorem Stateless.harmless {runId threadId : Uuid} {s s' : Server} {rpc : Rpc}
    (h : Stateless runId threadId s) (hh : Harmless runId threadId s.db rpc)
    (hdb : s'.db = execute rpc s.db) (hheld : s'.held = s.held) (hnamed : threadId ∉ s'.named)
    (hdel : ∀ request, rpc = .deleteRun request → ∀ r ∈ s.db.run, r.runId = runId →
      rpc.takesAway s.db r = true → ∃ h ∈ s.held, h.runId = runId) :
    Stateless runId threadId s' where
  rows := hdb ▸ h.rows.execute hh
  heldThread := hheld ▸ h.heldThread
  heldRun := hheld ▸ h.heldRun
  unnamed := hnamed
  alive := by
    rw [hdb, hheld]
    by_cases hold : ∃ h ∈ s.held, h.runId = runId
    · exact Or.inr (Or.inl hold)
    · have halive : (∃ r ∈ s.db.run, r.runId = runId ∧
          ∀ request, rpc = .deleteRun request → rpc.takesAway s.db r = false) ∨ Gone threadId s.db := by
        rcases h.alive with ⟨r, hr, hid⟩ | hheld' | hgone
        · refine Or.inl ⟨r, hr, hid, fun request hrpc => ?_⟩
          rw [Bool.eq_false_iff]
          exact fun htakes => hold (hdel request hrpc r hr hid htakes)
        · exact absurd hheld' hold
        · exact Or.inr hgone
      rcases h.run_or_gone hh halive with hrun | hgone
      · exact Or.inl hrun
      · exact Or.inr (Or.inr hgone)

/-! ### The steps -/

section

variable {maxRetries : ℕ} {s : Server}

/-- A creation on other threads does not touch a stateless run. -/
theorem harmless_create {call : CreateCall} (hd : Drawn s (.create call))
    (hsp : Spared maxRetries s (.create call)) {p : Uuid × Uuid} (hp : p ∈ s.temporary) :
    Harmless p.1 p.2 s.db (.createRun (createRequest call) call.env) := by
  obtain ⟨hrun, -, hthread⟩ := hd
  refine ⟨fun hid => hrun p hp hid.symm, fun hid => ?_⟩
  cases hnames : call.names? with
  | none => exact (hthread hnames).2.1 p hp hid.symm
  | some threadId =>
    have hcall : call.threadId = some threadId := by
      unfold CreateCall.names? at hnames
      split at hnames
      · cases hnames
      · exact hnames
    have hparams : call.params.threadId = threadId := by
      simp [CreateCall.params, createParams, createRequest, hcall]
    exact hsp p hp (hnames.trans (congrArg some (hparams.symm.trans hid)))

/-- The run of a call that inserts on a drawn thread is a stateless one. -/
theorem stateless_created {call : CreateCall} (hd : Drawn s (.create call))
    (htemp : call.isTemporary = true) (hins : Inserts call s.db) {s' : Server}
    (hdb : s'.db = execute (.createRun (createRequest call) call.env) s.db)
    (hheld : s'.held = s.held) (hnamed : s'.named = s.named) :
    Stateless call.env.freshRunId call.params.threadId s' := by
  obtain ⟨-, hheldRun, hthread⟩ := hd
  obtain ⟨hunnamed, -, hheldThread, ⟨hthreads, hruns⟩, hcheckpoints⟩ :=
    hthread (CreateCall.names?_of_isTemporary htemp)
  obtain ⟨r, hsingle, hrid⟩ := hins.singleton
  have hr : r ∈ insertedRun call.params s.db s.db := hsingle ▸ List.mem_cons_self
  -- a run of the new state was there before, or it is the inserted one
  have hnew : ∀ r' ∈ s'.db.run, (∃ r₀ ∈ s.db.run, r₀.runId = r'.runId ∧
      r₀.threadId = r'.threadId) ∨ r' ∈ insertedRun call.params s.db s.db := by
    intro r' hr'
    rw [hdb] at hr'
    rcases run_before_execute hr' with ⟨r₀, hr₀, hid, htid, -⟩ | ⟨request, env, heq, hmem⟩
    · exact Or.inl ⟨r₀, hr₀, hid, htid⟩
    · cases heq
      exact Or.inr hmem
  have hrow : ∃ r' ∈ s'.db.run, r'.runId = call.env.freshRunId := by
    have hput : .put (.run r) ∈ (createRun call.params s.db [] s.db).writes.getD [] := by
      simp only [createRun]
      rw [if_neg (by simp [hins.noConflict])]
      simp [hr]
    obtain ⟨r', hr', hmem⟩ := exists_insertedRun_createRun hput hins.inserted
    exact ⟨r', hdb ▸ hmem, runId_of_mem_insertedRun hr'⟩
  refine ⟨⟨fun r' hr' htid => ?_, fun r' hr' hid => ?_, fun x hx hrow => ?_⟩,
    ?_, ?_, hnamed ▸ hunnamed, Or.inl hrow⟩
  · rcases hnew r' hr' with ⟨r₀, hr₀, -, htid₀⟩ | hmem
    · exact absurd (htid₀.trans htid) (hruns r₀ hr₀)
    · exact runId_of_mem_insertedRun hmem
  · rcases hnew r' hr' with ⟨r₀, hr₀, hid₀, -⟩ | hmem
    · exact absurd (hid₀.trans hid) (hins.runId_ne hr₀)
    · refine ⟨threadId_of_mem_insertedRun hmem, ?_, ?_⟩
      · rw [CreateCall.temporary_of_mem hmem, htemp]
      · rw [status_of_mem_insertedRun hmem]
        rfl
  · rw [hdb] at hrow
    rcases checkpointRow_of_execute hx hrow with hold | ⟨src, filters, now, heq⟩
    · exact hcheckpoints.rows hx hold
    · cases heq
  · rw [hheld]
    exact fun h hh htid => absurd htid (hheldThread h hh)
  · rw [hheld]
    exact fun h hh hid => absurd hid (hheldRun h hh)

/-- A run that a call creates on a temporary thread is recorded. -/
theorem mem_temporary_created {call : CreateCall} (hvalid : validatePayload call = none) {r : Run}
    (hr : r ∈ (execute (.createRun (createRequest call) call.env) s.db).run)
    (hins : r ∈ insertedRun call.params s.db s.db) : Inserts call s.db ∨ r ∈ s.db.run := by
  rw [execute_createRun] at hr
  cases hconf : createConflicts call.params s.db s.db with
  | false => exact Or.inl ⟨hvalid, hconf, List.ne_nil_of_mem hins⟩
  | true =>
    right
    have hnone : (createRun call.params s.db [] s.db).writes = none := by simp [createRun, hconf]
    have hsame : createParams (createRequest call) call.env = call.params := rfl
    rw [hsame, hnone] at hr
    exact hr

theorem Known.create {call : CreateCall} (h : Known s) (hd : Drawn s (.create call))
    (hsp : Spared maxRetries s (.create call)) {s' : Server}
    (hs : serverStep maxRetries s (.create call) = some s') : Known s' := by
  simp only [serverStep] at hs
  split at hs
  · cases hs
    exact h
  · next hvalid =>
    have hvalid : validatePayload call = none := by simpa using hvalid
    generalize htemps : (if call.isTemporary && decide (Inserts call s.db) then
      (call.env.freshRunId, call.params.threadId) :: s.temporary else s.temporary) = temps at hs
    -- a recorded run is the created one, or it was recorded before
    have hmem : ∀ p, p ∈ temps ↔ p ∈ s.temporary ∨ call.isTemporary = true ∧ Inserts call s.db ∧
        p = (call.env.freshRunId, call.params.threadId) := by
      intro p
      rw [← htemps]
      by_cases hc : call.isTemporary = true ∧ Inserts call s.db
      · simp [hc, or_comm]
      · have hne : (call.isTemporary && decide (Inserts call s.db)) = false := by
          simpa [Bool.and_eq_false_iff, not_and] using hc
        rw [if_neg (by simp [hne])]
        constructor
        · exact Or.inl
        · rintro (hp | ⟨htemp, hins, -⟩)
          · exact hp
          · exact absurd ⟨htemp, hins⟩ hc
    cases hs
    constructor
    case stateless =>
      intro p hp
      rcases (hmem p).mp hp with hp | ⟨htemp, hins, rfl⟩
      · refine (h.stateless p hp).harmless (harmless_create hd hsp hp) rfl rfl ?_ (by simp)
        rw [List.mem_append, Option.mem_toList]
        rintro (hname | hname)
        · exact hsp p hp hname
        · exact (h.stateless p hp).unnamed hname
      · refine stateless_created hd htemp hins rfl rfl ?_
        rw [CreateCall.names?_of_isTemporary htemp]
        rfl
    case ofRun =>
      intro r hr htemp
      refine (hmem _).mpr ?_
      rcases run_before_execute hr with ⟨r₀, hr₀, hid, htid, hkwargs⟩ | ⟨request, env, heq, hins⟩
      · left
        have hold := h.ofRun r₀ hr₀ ((Run.temporary_congr hkwargs).trans htemp)
        rw [hid, htid] at hold
        exact hold
      · cases heq
        rcases mem_temporary_created hvalid hr hins with hinserts | hold
        · refine Or.inr ⟨(CreateCall.temporary_of_mem hins).symm.trans htemp, hinserts, ?_⟩
          rw [Prod.mk.injEq]
          exact ⟨runId_of_mem_insertedRun hins, threadId_of_mem_insertedRun hins⟩
        · exact Or.inl (h.ofRun r hold htemp)
    case ofHeld =>
      intro r hr htemp
      exact (hmem _).mpr (Or.inl (h.ofHeld r hr htemp))
    case cleaned =>
      intro threadId hid
      obtain ⟨p, hp, hthread⟩ := h.cleaned threadId hid
      exact ⟨p, (hmem p).mpr (Or.inl hp), hthread⟩

/-- The calls of clients do not touch a stateless run. -/
theorem harmless_client {rpc : Rpc} (hclients : rpc.byClients = true) (hd : Drawn s (.client rpc))
    (hsp : Spared maxRetries s (.client rpc)) {p : Uuid × Uuid} (hp : p ∈ s.temporary) :
    Harmless p.1 p.2 s.db rpc := by
  obtain ⟨hnames, htakes⟩ := hsp
  cases rpc with
  | createThread threadId metadata now => exact fun hid => hnames p hp (congrArg some hid)
  | copyThread threadId newId filters now => exact fun hid => hd p hp hid.symm
  | cancelRuns runIds action now =>
    intro r hr hid hcancel
    have htake : (Rpc.cancelRuns runIds action now).takesAway s.db r = true := by
      simp [Rpc.takesAway, hid, hcancel.1, hcancel.2]
    exact (htakes p hp r hr hid htake).2 hcancel.2
  | createRun => cases hclients
  | setRunStatus => cases hclients
  | setJointStatus => cases hclients
  | _ => trivial

theorem Known.ofRun_execute (h : Known s) {rpc : Rpc}
    (hrpc : ∀ request env, rpc ≠ .createRun request env) :
    ∀ r ∈ (execute rpc s.db).run, r.temporary = true → (r.runId, r.threadId) ∈ s.temporary := by
  intro r hr htemp
  rcases run_before_execute hr with ⟨r₀, hr₀, hid, htid, hkwargs⟩ | ⟨request, env, heq, -⟩
  · have hold := h.ofRun r₀ hr₀ ((Run.temporary_congr hkwargs).trans htemp)
    rw [hid, htid] at hold
    exact hold
  · exact absurd heq (hrpc request env)

theorem Known.client {rpc : Rpc} (h : Known s) (hd : Drawn s (.client rpc))
    (hsp : Spared maxRetries s (.client rpc)) {s' : Server}
    (hs : serverStep maxRetries s (.client rpc) = some s') : Known s' := by
  simp only [serverStep] at hs
  split at hs
  · next hclients =>
    cases hs
    constructor
    case stateless =>
      intro p hp
      refine (h.stateless p hp).harmless (harmless_client hclients hd hsp hp) rfl rfl ?_ ?_
      · rw [List.mem_append, Option.mem_toList]
        rintro (hname | hname)
        · exact hsp.1 p hp hname
        · exact (h.stateless p hp).unnamed hname
      · exact fun request _ r hr hid htakes => (hsp.2 p hp r hr hid htakes).1
    case ofRun =>
      refine h.ofRun_execute fun request env heq => ?_
      rw [heq] at hclients
      cases hclients
    case ofHeld => exact h.ofHeld
    case cleaned => exact h.cleaned
  · cases hs

/-- A claimed row is that of a run that was there. -/
theorem Known.claim {limit : ℕ} {now : Timestamp} {tie : Uuid → ℕ} (h : Known s) {s' : Server}
    (hs : serverStep maxRetries s (.claim limit now tie) = some s') : Known s' := by
  cases hs
  constructor
  case stateless =>
    intro p hp
    have hst := h.stateless p hp
    have hh : Harmless p.1 p.2 s.db (.next limit now tie) := trivial
    constructor
    case rows => exact hst.rows.execute hh
    case heldThread =>
      intro r hr htid
      rcases List.mem_append.mp hr with hclaimed | hheld
      · obtain ⟨r₀, hr₀, -, rfl⟩ := mem_claimResponse hclaimed
        exact hst.rows.onThread r₀ hr₀ htid
      · exact hst.heldThread r hheld htid
    case heldRun =>
      intro r hr hid
      rcases List.mem_append.mp hr with hclaimed | hheld
      · obtain ⟨r₀, hr₀, -, rfl⟩ := mem_claimResponse hclaimed
        obtain ⟨htid, htemp, -⟩ := hst.rows.ofRun r₀ hr₀ hid
        exact ⟨htid, htemp⟩
      · exact hst.heldRun r hheld hid
    case unnamed => exact hst.unnamed
    case alive =>
      rcases hst.alive with ⟨r, hr, hid⟩ | ⟨r, hheld, hid⟩ | hgone
      · have hnot : ∀ request, Rpc.next limit now tie ≠ .deleteRun request := by simp
        rcases hst.run_or_gone hh (Or.inl ⟨r, hr, hid, fun request heq => absurd heq (hnot request)⟩)
          with hrun | hgone
        · exact Or.inl hrun
        · exact Or.inr (Or.inr hgone)
      · exact Or.inr (Or.inl ⟨r, List.mem_append_right _ hheld, hid⟩)
      · exact Or.inr (Or.inr (hgone.execute hh))
  case ofRun => exact h.ofRun_execute (by simp)
  case ofHeld =>
    intro r hr htemp
    rcases List.mem_append.mp hr with hclaimed | hheld
    · obtain ⟨r₀, hr₀, -, rfl⟩ := mem_claimResponse hclaimed
      exact h.ofRun r₀ hr₀ htemp
    · exact h.ofHeld r hheld htemp
  case cleaned => exact h.cleaned

theorem Known.save {run : Run} {row : Row} (h : Known s) {s' : Server}
    (hs : serverStep maxRetries s (.save run row) = some s') : Known s' := by
  simp only [serverStep] at hs
  split at hs
  · next hsave =>
    obtain ⟨hheld, hnot, hrow⟩ := hsave
    cases hs
    -- a row of a checkpoint table leaves the runs and threads
    have hrun : (RowStore.apply s.db (.put row)).run = s.db.run := by
      cases row <;> first | cases hrow | rfl
    have hthread : (RowStore.apply s.db (.put row)).thread = s.db.thread := by
      cases row <;> first | cases hrow | rfl
    constructor
    case stateless =>
      intro p hp
      have hst := h.stateless p hp
      have hne : run.threadId ≠ p.2 := by
        intro hid
        have htemp := (hst.heldRun run hheld (hst.heldThread run hheld hid)).2
        rw [hnot] at htemp
        cases htemp
      constructor
      case rows =>
        refine ⟨hrun ▸ hst.rows.onThread, hrun ▸ hst.rows.ofRun, fun x hx hrow' => ?_⟩
        rw [RowStore.row_apply] at hrow'
        split at hrow'
        · obtain rfl := Option.some.inj hrow'
          exact hne (Option.some.inj (hrow.symm.trans hx))
        · exact hst.rows.noCheckpoint x hx hrow'
      case heldThread => exact hst.heldThread
      case heldRun => exact hst.heldRun
      case unnamed => exact hst.unnamed
      case alive =>
        unfold Gone
        rw [hrun, hthread]
        exact hst.alive
    case ofRun => exact hrun ▸ h.ofRun
    case ofHeld => exact h.ofHeld
    case cleaned => exact h.cleaned
  · cases hs

theorem endCall_ne_deleteRun (run : Run) (report : RunReport) (now : Timestamp)
    (request : DeleteRunRequest) : endCall run report now ≠ .deleteRun request := by
  unfold endCall
  split
  · nofun
  · split <;> nofun

theorem endCall_ne_createRun (run : Run) (report : RunReport) (now : Timestamp)
    (request : CreateRunRequest) (env : CreateEnv) :
    endCall run report now ≠ .createRun request env := by
  unfold endCall
  split
  · nofun
  · split <;> nofun

theorem harmless_endCall {run : Run} (report : RunReport) (now : Timestamp) (hheld : run ∈ s.held)
    {p : Uuid × Uuid} (hst : Stateless p.1 p.2 s) :
    Harmless p.1 p.2 s.db (endCall run report now) := by
  unfold endCall
  split
  · exact fun _ => rfl
  · split
    · trivial
    · next hnot =>
      have hne : run.runId ≠ p.1 := fun hid => hnot (hst.heldRun run hheld hid).2
      simpa [Harmless] using hne

theorem gone_endCall {run : Run} {report : RunReport} (now : Timestamp)
    (hended : report.ended ≠ .retriable) (htemp : run.temporary = true) (d : Database) :
    Gone run.threadId (execute (endCall run report now) d) := by
  have hcall : endCall run report now = .deleteThread run.threadId [] := by
    rw [endCall, if_neg hended, if_pos htemp]
  rw [hcall]
  have hwithout := withoutThread_deleteThread run.threadId d
  exact ⟨fun t ht => ((hwithout.thread t).mp ht).2, fun r hr => ((hwithout.run r).mp hr).2⟩

/-- After the end of a run, a stateless run has a row, another holder, or nothing left. -/
theorem Stateless.alive_finish {run : Run} {attempt : ℕ} {report : RunReport} {now : Timestamp}
    (hsp : Spared maxRetries s (.finish run attempt report now)) {p : Uuid × Uuid}
    (hp : p ∈ s.temporary) (hst : Stateless p.1 p.2 s) (hheld : run ∈ s.held) :
    let d := execute (endCall run (report.ofAttempt maxRetries attempt run) now) s.db
    (∃ r ∈ d.run, r.runId = p.1) ∨ (∃ h ∈ s.held.erase run, h.runId = p.1) ∨ Gone p.2 d := by
  intro d
  let report' := report.ofAttempt maxRetries attempt run
  have hh : Harmless p.1 p.2 s.db (endCall run report' now) := harmless_endCall report' now hheld hst
  have hrow : (∃ r ∈ s.db.run, r.runId = p.1) ∨ Gone p.2 s.db →
      (∃ r ∈ d.run, r.runId = p.1) ∨ Gone p.2 d := by
    intro halive
    refine hst.run_or_gone hh (halive.imp_left ?_)
    rintro ⟨r, hr, hid⟩
    exact ⟨r, hr, hid, fun request heq => absurd heq (endCall_ne_deleteRun _ _ _ _)⟩
  by_cases hid : run.runId = p.1
  · by_cases hended : report'.ended = .retriable
    · -- the run is put back
      have halive := hsp hended p hp hid.symm
      rw [hid] at halive
      rcases hrow halive with hrun | hgone
      · exact Or.inl hrun
      · exact Or.inr (Or.inr hgone)
    · obtain ⟨htid, htemp⟩ := hst.heldRun run hheld hid
      have hgone := gone_endCall now hended htemp s.db
      rw [htid] at hgone
      exact Or.inr (Or.inr hgone)
  · rcases hst.alive with hrun | ⟨r, hr, hrid⟩ | hgone
    · rcases hrow (Or.inl hrun) with hrun | hgone
      · exact Or.inl hrun
      · exact Or.inr (Or.inr hgone)
    · have hne : r ≠ run := by
        rintro rfl
        exact hid hrid
      exact Or.inr (Or.inl ⟨r, (List.mem_erase_of_ne hne).mpr hr, hrid⟩)
    · exact Or.inr (Or.inr (hgone.execute hh))

theorem Known.finish {run : Run} {attempt : ℕ} {report : RunReport} {now : Timestamp} (h : Known s)
    (hsp : Spared maxRetries s (.finish run attempt report now)) {s' : Server}
    (hs : serverStep maxRetries s (.finish run attempt report now) = some s') : Known s' := by
  simp only [serverStep] at hs
  split at hs
  · next hheld =>
    cases hs
    constructor
    case stateless =>
      intro p hp
      have hst := h.stateless p hp
      constructor
      case rows => exact hst.rows.execute (harmless_endCall _ _ hheld hst)
      case heldThread => exact fun r hr htid => hst.heldThread r (List.mem_of_mem_erase hr) htid
      case heldRun => exact fun r hr hid => hst.heldRun r (List.mem_of_mem_erase hr) hid
      case unnamed => exact hst.unnamed
      case alive => exact Stateless.alive_finish hsp hp hst hheld
    case ofRun => exact h.ofRun_execute (endCall_ne_createRun _ _ _)
    case ofHeld => exact fun r hr htemp => h.ofHeld r (List.mem_of_mem_erase hr) htemp
    case cleaned =>
      intro threadId hid
      by_cases hcleaned : run.temporary && (report.ofAttempt maxRetries attempt run).ended ≠ .retriable
      · rw [if_pos hcleaned] at hid
        rcases List.mem_cons.mp hid with rfl | hid
        · exact ⟨_, h.ofHeld run hheld (Bool.and_eq_true_iff.mp hcleaned).1, rfl⟩
        · exact h.cleaned threadId hid
      · rw [if_neg hcleaned] at hid
        exact h.cleaned threadId hid
  · cases hs

theorem Known.step {a : ServerAction} (h : Known s) (hd : Drawn s a) (hsp : Spared maxRetries s a)
    {s' : Server} (hs : serverStep maxRetries s a = some s') : Known s' := by
  cases a with
  | create call => exact h.create hd hsp hs
  | client rpc => exact h.client hd hsp hs
  | claim limit now tie => exact h.claim hs
  | save run row => exact h.save hs
  | finish run attempt report now => exact h.finish hsp hs

theorem Known.leavesNothing (h : Known s) : LeavesNothing s := by
  intro p hp hflight hnotHeld
  have hst := h.stateless p hp
  refine ⟨?_, noCheckpoints_of_rows hst.rows.noCheckpoint⟩
  rcases hst.alive with ⟨r, hr, hid⟩ | ⟨r, hr, hid⟩ | hgone
  · have hin := (hst.rows.ofRun r hr hid).2.2
    rw [hflight r hr hid] at hin
    cases hin
  · exact absurd hid (hnotHeld r hr)
  · exact hgone

theorem Known.sparesNamed (h : Known s) : SparesNamed s := by
  intro threadId hid
  obtain ⟨p, hp, rfl⟩ := h.cleaned threadId hid
  exact (h.stateless p hp).unnamed

end

theorem known_of_reachable {maxRetries : ℕ} {s : Server}
    (hs : (server maxRetries).Reachable (fun s a => Drawn s a ∧ Spared maxRetries s a) s) :
    Known s := by
  refine hs.invariant (fun s hinit => ?_) fun s a s' _ hI hOk hstep => hI.step hOk.1 hOk.2 hstep
  obtain ⟨⟨hthread, hrun⟩, hheld, htemporary, hnamed, hcleaned⟩ := hinit
  constructor
  case stateless => simp [htemporary]
  case ofRun =>
    intro r hr
    rw [hrun] at hr
    exact absurd hr (Table.not_mem_empty r)
  case ofHeld => simp [hheld]
  case cleaned => simp [hcleaned]

/-- **Runs whose steps spare the stateless runs leave nothing of one behind** and
delete no thread that a caller has named. -/
theorem leavesNothing_of_spared {maxRetries : ℕ} {s : Server}
    (hs : (server maxRetries).Reachable (fun s a => Drawn s a ∧ Spared maxRetries s a) s) :
    LeavesNothing s ∧ SparesNamed s :=
  ⟨(known_of_reachable hs).leavesNothing, (known_of_reachable hs).sparesNamed⟩

/-- A call for a stateless run. -/
def statelessCall : CreateCall where
  payload := { assistantId := 1 }
  env := ⟨0, 100, 50⟩

/-- The run of that call, as a worker holds it. -/
def claimedRun : Run :=
  setRunning 5 (insertRun statelessCall.params
    (insertThread statelessCall.params { assistantId := 1, graphId := "agent" })
    { assistantId := 1, graphId := "agent" })

/-- A server with one assistant and nothing else. -/
def newServer : Server := { db := oneAssistant }

theorem init_newServer (maxRetries : ℕ) : (server maxRetries).init newServer :=
  ⟨⟨rfl, rfl⟩, rfl, rfl, rfl, rfl⟩

/-- A stateless run is put back once and then succeeds. -/
theorem leavesNothing_of_spared_witness :
    ∃ s, (server 3).Reachable (fun s a => Drawn s a ∧ Spared 3 s a) s ∧
      (LeavesNothing s ∧ SparesNamed s) ∧ s.temporary = [(100, 50)] ∧ s.cleaned = [50] := by
  obtain ⟨s, hs, hp⟩ := (server 3).exists_reachable (fun s a => Drawn s a ∧ Spared 3 s a)
    (init_newServer 3)
    [.create statelessCall, .claim 1 5 id, .finish claimedRun 1 { ended := .retriable } 6,
      .claim 1 5 id, .finish claimedRun 2 { ended := .success } 7]
    (fun s => s.temporary = [(100, 50)] ∧ s.cleaned = [50]) (by decide +kernel)
  exact ⟨s, hs, leavesNothing_of_spared hs, of_decide_eq_true hp⟩

/-- A pending stateless run is cancelled, and its thread stays. -/
theorem not_leavesNothing :
    ¬ ∀ s, (server 3).Reachable Drawn s → LeavesNothing s ∧ SparesNamed s := by
  intro h
  obtain ⟨s, hs, hp⟩ := (server 3).exists_reachable Drawn (init_newServer 3)
    [.create statelessCall, .client (.cancelRuns [100] .interrupt 6)]
    (fun s => ¬ LeavesNothing s) (by decide +kernel)
  exact of_decide_eq_true hp (h s hs).1

end NextRole
