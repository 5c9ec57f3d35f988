import NextRole.RunThreads
import NextRole.Serial

/-!
# Threads that stay busy

The status `busy` is written when a run is created and is taken back by the two status
writes of the Threads service only.  The other calls that take a run out of flight,
`Runs.Delete`, `Runs.Cancel` and `Runs.SetStatus`, do not touch the thread, and
`SetJointStatus` writes one thread and ends a run by its id, whichever thread that
one belongs to.  A thread stays busy without a run exactly through these.

## Main definitions

* `BusyHasRun` — every busy thread has a run in flight.
* `Rpc.takesAway` — the runs that a call takes out of flight without computing the
  status of their threads.
* `Kept` — no busy thread loses its last run, and none is made busy without one.

## Main results

* `busyHasRun_of_kept` — **calls that take no last run away leave no thread stuck**.
* `not_busyHasRun` — a creation and a cancel leave one.
-/

namespace NextRole

open ReadCommitted

/-- Every busy thread has a run in flight. -/
def BusyHasRun (d : Database) : Prop :=
  ∀ t ∈ d.thread, t.status = .busy →
    ∃ r ∈ d.run, r.threadId = t.threadId ∧ r.status.inflight = true

instance : DecidablePred BusyHasRun := fun d => by
  unfold BusyHasRun
  infer_instance

/-- The calls on runs and the two status writes of the Threads service. -/
def Rpc.ofRuns : Rpc → Bool
  | .createRun .. | .next .. | .cancelRuns .. | .deleteRun .. | .setRunStatus .. => true
  | .setThreadStatus .. | .setJointStatus .. => true
  | _ => false

/-- Whether a call takes a run out of flight, on a thread whose status it does not
compute. -/
def Rpc.takesAway (rpc : Rpc) (d : Database) (r : Run) : Bool :=
  match rpc with
  | .deleteRun request => r.runId = request.runId && r.threadId = request.threadId &&
      threadOwnerClause request.filters d.thread r.threadId
  | .cancelRuns runIds _ _ => r.runId ∈ runIds && r.status = .pending
  | .setRunStatus runId status _ => r.runId = runId && !status.inflight
  -- the run is ended by its id, and the status of another thread is computed
  | .setJointStatus request _ => r.runId = request.runId && r.threadId ≠ request.threadId &&
      !request.runStatus.inflight && request.runStatus ≠ .rollback
  | _ => false

/-- Whether a thread that a call makes busy has a run in flight then. -/
def Rpc.backsBusy (rpc : Rpc) (d : Database) : Bool :=
  match rpc with
  | .createRun request env => (createParams request env).status.inflight ||
      hasInflight d (createParams request env).threadId
  | .setJointStatus request _ => !request.runStatus.inflight ||
      d.run.rows.any fun r => r.threadId = request.threadId &&
        (r.runId = request.runId || r.status.inflight)
  | _ => true

/-- A busy thread from which the call takes a run away keeps another one, and every
thread that the call makes busy has one. -/
def Kept (d : Database) (rpc : Rpc) : Prop :=
  (∀ t ∈ d.thread, t.status = .busy → ∀ r ∈ d.run, r.threadId = t.threadId →
    r.status.inflight = true → rpc.takesAway d r = true →
      ∃ r' ∈ d.run, r'.threadId = t.threadId ∧ r'.status.inflight = true ∧
        rpc.takesAway d r' = false) ∧ rpc.backsBusy d = true

instance (d : Database) (rpc : Rpc) : Decidable (Kept d rpc) := by
  unfold Kept
  infer_instance

/-! ### One call -/

/-- A call keeps in flight the runs that it does not take away. -/
theorem inflight_execute {rpc : Rpc} (hrpc : rpc.ofRuns = true) {d : Database} {r : Run}
    (hr : r ∈ d.run) (hfl : r.status.inflight = true) (hkeep : rpc.takesAway d r = false)
    (hother : ∀ request now, rpc = .setJointStatus request now → r.threadId ≠ request.threadId) :
    ∃ r' ∈ (execute rpc d).run, r'.threadId = r.threadId ∧ r'.status.inflight = true := by
  cases rpc with
  | createRun request env => exact ⟨r, mem_run_createRun hr, rfl, hfl⟩
  | next limit now tie =>
    rcases mem_run_next hr with hmem | hmem
    · exact ⟨r, hmem, rfl, hfl⟩
    · exact ⟨setRunning now r, hmem, rfl, rfl⟩
  | deleteRun request =>
    refine ⟨r, mem_run_deleteRun.mpr ⟨hr, ?_⟩, rfl, hfl⟩
    simpa [Rpc.takesAway, and_assoc] using hkeep
  | setRunStatus runId status now =>
    by_cases hid : r.runId = runId
    · have hst : status.inflight = true := by simpa [Rpc.takesAway, hid] using hkeep
      exact ⟨withStatus status now r, mem_run_setRunStatus.mpr (Or.inr ⟨r, hr, hid, rfl⟩), rfl, hst⟩
    · exact ⟨r, mem_run_setRunStatus.mpr (Or.inl ⟨hr, hid⟩), rfl, hfl⟩
  | cancelRuns runIds action now =>
    refine ⟨r, (mem_run_cancelRuns_iff hr).mpr ?_, rfl, hfl⟩
    simpa [Rpc.takesAway] using hkeep
  | setThreadStatus request now =>
    rw [run_setThreadStatus]
    exact ⟨r, hr, rfl, hfl⟩
  | setJointStatus request now =>
    have htid := hother request now rfl
    by_cases hroll : request.runStatus = .rollback
    · refine ⟨r, (mem_run_setJointStatus_rollback hroll).mpr ⟨hr, ?_⟩, rfl, hfl⟩
      exact fun h => htid h.2
    · by_cases hid : r.runId = request.runId
      · have hst : request.runStatus.inflight = true := by
          simpa [Rpc.takesAway, hid, htid, hroll] using hkeep
        exact ⟨withStatus request.runStatus now r,
          (mem_run_setJointStatus hroll).mpr (Or.inr ⟨r, hr, hid, rfl⟩), rfl, hst⟩
      · exact ⟨r, (mem_run_setJointStatus hroll).mpr (Or.inl ⟨hr, hid⟩), rfl, hfl⟩
  | _ => cases hrpc

/-- The run of a thread that a creation makes busy, inserted or there before. -/
theorem inflight_createRun {request : CreateRunRequest} {env : CreateEnv} {d : Database}
    (hT : HasThreads d) (hback : Rpc.backsBusy (.createRun request env) d = true) {t : Thread}
    (hput : .put (.thread t) ∈ (createRun (createParams request env) d [] d).writes.getD []) :
    ∃ r ∈ (execute (.createRun request env) d).run,
      r.threadId = t.threadId ∧ r.status.inflight = true := by
  obtain ⟨htid, hne⟩ : t.threadId = (createParams request env).threadId ∧
      insertedRun (createParams request env) d d ≠ [] := by
    rcases mem_createRun hput with ⟨t', hins, heq⟩ | ⟨r, -, heq⟩ | ⟨t', hupd, heq⟩
    · cases heq
      obtain ⟨-, hnone, a, ha, -⟩ := insertedThread_eq_some.mp hins
      have hmem : t ∈ runThread (createParams request env) d d := mem_runThread.mpr (Or.inr hins)
      -- the thread is new, so no run of it is pending
      have hpending : inflightRuns (createParams request env) d = [] := by
        refine List.eq_nil_iff_forall_not_mem.mpr fun r hr => ?_
        obtain ⟨hrun, hrid, -⟩ := mem_inflightRuns.mp hr
        obtain ⟨t₀, ht₀, hid⟩ := hT r hrun
        exact Table.get?_eq_none.mp hnone t₀ ht₀ (hid.trans hrid)
      exact ⟨threadId_of_mem_runThread hmem,
        List.ne_nil_of_mem (mem_insertedRun.mpr ⟨fun _ => hpending, t, hmem, a, ha, rfl⟩)⟩
    · cases heq
    · cases heq
      obtain ⟨t₀, ht₀, a, -, rfl⟩ := mem_updatedThread.mp hupd
      obtain ⟨-, hp, -⟩ := Relation.mem_rechecked.mp ht₀
      rw [Bool.and_eq_true, List.any_eq_true] at hp
      obtain ⟨⟨r, hr, hid⟩, -⟩ := hp
      refine ⟨?_, List.ne_nil_of_mem hr⟩
      rw [refreshThread_threadId, ← of_decide_eq_true hid]
      exact threadId_of_mem_insertedRun hr
  rw [Rpc.backsBusy, Bool.or_eq_true] at hback
  rcases hback with hst | hflight
  · obtain ⟨r, hr, hmem⟩ := exists_insertedRun_createRun hput hne
    refine ⟨r, hmem, (threadId_of_mem_insertedRun hr).trans htid.symm, ?_⟩
    rw [status_of_mem_insertedRun hr]
    exact hst
  · obtain ⟨r, hr, hrid, hfl⟩ := hasInflight_iff.mp hflight
    exact ⟨r, mem_run_createRun hr, hrid.trans htid.symm, hfl⟩

/-- The run of a thread that `SetJointStatus` makes busy. -/
theorem inflight_setJointStatus {request : SetJointStatusRequest} {now : Timestamp} {d : Database}
    (hback : Rpc.backsBusy (.setJointStatus request now) d = true) {t : Thread}
    (hbusy : (jointThread request now (execute (.setJointStatus request now) d) t).status = .busy) :
    ∃ r ∈ (execute (.setJointStatus request now) d).run,
      r.threadId = request.threadId ∧ r.status.inflight = true := by
  rcases jointThread_busy.mp hbusy with hst | hflight
  · have hroll : request.runStatus ≠ .rollback := by
      intro h
      rw [h] at hst
      cases hst
    simp only [Rpc.backsBusy, hst, Bool.not_true, Bool.false_or, List.any_eq_true, Bool.and_eq_true,
      Bool.or_eq_true, decide_eq_true_eq] at hback
    obtain ⟨r, hr, htid, hown⟩ := hback
    by_cases hid : r.runId = request.runId
    · exact ⟨withStatus request.runStatus now r,
        (mem_run_setJointStatus hroll).mpr (Or.inr ⟨r, hr, hid, rfl⟩), htid, hst⟩
    · exact ⟨r, (mem_run_setJointStatus hroll).mpr (Or.inl ⟨hr, hid⟩), htid,
        hown.resolve_left hid⟩
  · exact hasInflight_iff.mp hflight

/-- A call that keeps a run for every busy thread leaves no thread stuck. -/
theorem BusyHasRun.execute {rpc : Rpc} (hrpc : rpc.ofRuns = true) {d : Database}
    (hT : HasThreads d) (h : BusyHasRun d) (hkept : Kept d rpc) :
    BusyHasRun (NextRole.execute rpc d) := by
  obtain ⟨hkeep, hback⟩ := hkept
  -- a thread that the call leaves alone has the run that is kept for it
  have hold : ∀ t ∈ d.thread, t.status = .busy →
      (∀ request now, rpc = .setJointStatus request now → t.threadId ≠ request.threadId) →
        ∃ r ∈ (NextRole.execute rpc d).run, r.threadId = t.threadId ∧ r.status.inflight = true := by
    intro t ht hbusy hother
    obtain ⟨r, hr, htid, hfl, htake⟩ : ∃ r ∈ d.run, r.threadId = t.threadId ∧
        r.status.inflight = true ∧ rpc.takesAway d r = false := by
      obtain ⟨r, hr, htid, hfl⟩ := h t ht hbusy
      cases htake : rpc.takesAway d r with
      | true => exact hkeep t ht hbusy r hr htid hfl htake
      | false => exact ⟨r, hr, htid, hfl, htake⟩
    obtain ⟨r', hr', htid', hfl'⟩ := inflight_execute hrpc hr hfl htake fun request now heq =>
      htid.symm ▸ hother request now heq
    exact ⟨r', hr', htid'.trans htid, hfl'⟩
  intro t ht hbusy
  cases rpc with
  | createRun request env =>
    rw [execute_createRun] at ht
    rcases thread_of_applyAll ht with hput | ⟨-, hmem⟩
    · exact inflight_createRun hT hback hput
    · exact hold t hmem hbusy (by simp)
  | setThreadStatus request now =>
    rcases mem_thread_setThreadStatus.mp ht with ⟨hmem, -⟩ | ⟨t₀, -, hid, -, rfl⟩
    · exact hold t hmem hbusy (by simp)
    · rw [run_setThreadStatus, show (statusThread request now d t₀).threadId = request.threadId
        from hid]
      exact hasInflight_iff.mp (statusThread_busy.mp hbusy)
  | setJointStatus request now =>
    rcases mem_thread_setJointStatus.mp ht with ⟨hmem, hne⟩ | ⟨t₀, -, hid, rfl⟩
    · refine hold t hmem hbusy fun request' now' heq => ?_
      cases heq
      exact hne
    · obtain ⟨r, hr, htid, hfl⟩ := inflight_setJointStatus hback hbusy
      exact ⟨r, hr, htid.trans hid.symm, hfl⟩
  | next limit now tie =>
    rw [thread_execute rfl] at ht
    exact hold t ht hbusy (by simp)
  | deleteRun request =>
    rw [thread_execute rfl] at ht
    exact hold t ht hbusy (by simp)
  | setRunStatus runId status now =>
    rw [thread_execute rfl] at ht
    exact hold t ht hbusy (by simp)
  | cancelRuns runIds action now =>
    rw [thread_execute rfl] at ht
    exact hold t ht hbusy (by simp)
  | _ => cases hrpc

/-! ### Sequences of calls -/

/-- The guard that only these calls are made and each of them keeps a run for every
busy thread. -/
def OnlyKept (d : Database) (rpc : Rpc) : Prop := rpc.ofRuns = true ∧ Kept d rpc

instance (d : Database) (rpc : Rpc) : Decidable (OnlyKept d rpc) := by
  unfold OnlyKept
  infer_instance

theorem runsAndStatus_of_ofRuns {rpc : Rpc} (h : rpc.ofRuns = true) : rpc.runsAndStatus = true := by
  cases rpc <;> first | rfl | cases h

theorem hasThreads_of_oneByOne {d : Database} (h : (oneByOne EmptyStore).Reachable OnlyKept d) :
    HasThreads d := by
  have hs : (services EmptyStore).Reachable OnlyRunsAndStatus ⟨d, .empty⟩ := by
    refine reachable_of_oneByOne (fun s a hnot => ?_) (fun d rpc hrpc => ?_) h
    · cases a with
      | begin i rpc => exact absurd rfl (hnot i rpc)
      | _ => trivial
    · exact runsAndStatus_of_ofRuns hrpc.1
  exact hasThreads_of_reachable (reachable_mono_init (fun _ hd => hd.2) hs)

/-- **No thread is stuck busy when no call takes a last run away**: after every finite
sequence of the calls on runs, executed one at a time from an empty store, in which a
call that takes a run of a busy thread out of flight leaves another one there, every
busy thread has a run in flight. -/
theorem busyHasRun_of_kept {d : Database} (h : (oneByOne EmptyStore).Reachable OnlyKept d) :
    BusyHasRun d := by
  refine h.invariant (fun d hd t ht => ?_) fun d rpc d' hr hI hOk hs => ?_
  · rw [hd.1] at ht
    exact absurd ht (Table.not_mem_empty t)
  · cases hs
    exact hI.execute hOk.1 (hasThreads_of_oneByOne hr) hOk.2

theorem busyHasRun_of_kept_witness :
    ∃ d, (oneByOne EmptyStore).Reachable OnlyKept d ∧ BusyHasRun d ∧
      d.thread.rows.map Thread.status = [.busy] ∧
        d.run.rows.map Run.status = [.running, .interrupted] := by
  obtain ⟨d, hd, hp⟩ := (oneByOne EmptyStore).exists_reachable OnlyKept
    (show (oneByOne EmptyStore).init oneAssistant from ⟨rfl, rfl⟩)
    [createOn 100, .next 1 5 id, createOn 101, .cancelRuns [101] .interrupt 6]
    (fun d => d.thread.rows.map Thread.status = [.busy] ∧
      d.run.rows.map Run.status = [.running, .interrupted]) (by decide +kernel)
  exact ⟨d, hd, busyHasRun_of_kept hd, of_decide_eq_true hp⟩

/-- A pending run is cancelled, and its thread stays busy. -/
theorem not_busyHasRun :
    ¬ ∀ d, (oneByOne EmptyStore).Reachable (fun _ rpc => rpc.ofRuns = true) d → BusyHasRun d := by
  intro h
  obtain ⟨d, hd, hp⟩ := (oneByOne EmptyStore).exists_reachable (fun _ rpc => rpc.ofRuns = true)
    (show (oneByOne EmptyStore).init oneAssistant from ⟨rfl, rfl⟩)
    [createOn 100, .cancelRuns [100] .interrupt 6] (fun d => ¬ BusyHasRun d) (by decide +kernel)
  exact of_decide_eq_true hp (h d hd)

end NextRole
