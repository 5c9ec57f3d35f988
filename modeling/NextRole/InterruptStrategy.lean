import NextRole.Api.Runs
import NextRole.CancelIsolation
import NextRole.RunThreads

/-!
# Which runs the strategies `interrupt` and `rollback` reach

A creation with one of these strategies gets the runs of the thread back that are in
its way and cancels them.  The rows that come back are the pending ones; a running run
is not among them, so it gets no signal and goes on.  The pending ones are reached
whatever happens between the insertion and the return: each is signalled, unless its
thread has been deleted and the run with it.

## Main definitions

* `Reaches` — every run in flight at the insertion has ended or got its signal when
  the call returns.
* `OtherCall` — the calls that may happen next to it.
* `Tracked` — a run, as long as it exists, is on an owned thread.

## Main results

* `reaches_iff` — **every run in flight is reached exactly when none is running**.
* `not_reaches` — a running run that is not interrupted.
-/

namespace NextRole

open ReadCommitted

/-- Every run of the thread that is in flight when the run is inserted is not in
flight any more when the call returns, or has been sent the signal of the strategy. -/
def Reaches (call : CreateCall) (others : Meanwhile) (now : Timestamp) (d : Database) : Prop :=
  ∀ r ∈ d.run, r.threadId = call.params.threadId → r.status.inflight = true →
    (∀ r' ∈ (createValidRun call others now d).db.run, r'.runId = r.runId →
      r'.status.inflight = false) ∨
    ∃ action, (assignDefaults call.payload).1.action? = some action ∧
      ⟨call.params.threadId, r.runId, action⟩ ∈ (createValidRun call others now d).signals

/-- The calls that may happen next to a call: creations draw run ids that are not in
use, and with authentication every patch is stamped with its caller. -/
def OtherCall (caller : Caller) (d : Database) : Rpc → Prop
  | .createRun request env => ∀ r ∈ d.run, r.runId ≠ (createParams request env).runId
  | .patchThread _ metadata filters _ => caller.isSome = true →
      ∃ identity, filters = ownerFilter identity ∧ metadata.get? "owner" = some (.str identity)
  | _ => True

/-! ### Owned threads -/

/-- A thread that is written keeps its owner. -/
theorem admits_threadWrite {identity : String} {rpc : Rpc} {d d₀ : Database}
    (hother : OtherCall (some identity) d₀ rpc) {t t' : Thread} (ht : t ∈ d.thread)
    (hadm : admits (ownerFilter identity) t.metadata = true)
    (hwrite : ThreadWrite rpc d [] d t') (hid : t'.threadId = t.threadId) :
    admits (ownerFilter identity) t'.metadata = true := by
  -- a thread that was there is the one that the statement replaces
  have hsame : ∀ t₀ ∈ d.thread, t₀.threadId = t'.threadId → t₀ = t :=
    fun t₀ ht₀ h => Table.eq_of_key ht₀ ht (h.trans hid)
  have htaken : ∀ k, d.thread.get? k = none → t'.threadId ≠ k := by
    intro k hnone hk
    exact Table.get?_eq_none.mp hnone t ht (hid.symm.trans hk)
  cases hwrite with
  | insert hins =>
    obtain ⟨-, hnone, a, -, rfl⟩ := insertedThread_eq_some.mp hins
    exact absurd rfl (htaken _ hnone)
  | refresh hmem =>
    obtain ⟨t₀, ht₀, a, -, rfl⟩ := mem_updatedThread.mp hmem
    obtain rfl := hsame t₀ (Relation.mem_rechecked.mp ht₀).1 rfl
    rw [refreshThread, admits_owner_set identity _ _ (by decide),
      admits_owner_set identity _ _ (by decide)]
    exact hadm
  | createThread hnone => exact absurd rfl (htaken _ hnone)
  | patchThread ht₀ hid₀ hadm₀ =>
    obtain rfl := hsame _ ht₀ rfl
    obtain ⟨identity', rfl, howner⟩ := hother rfl
    obtain rfl := owner_unique hadm hadm₀
    obtain ⟨w, hw, -⟩ := (admits_owner identity _).mp hadm
    exact admits_owner_of_get? (Json.get?_concat_of_get? hw howner)
  | setThreadStatus ht₀ hid₀ =>
    obtain rfl := hsame _ ht₀ rfl
    exact hadm
  | setJointStatus ht₀ hid₀ =>
    obtain rfl := hsame _ ht₀ rfl
    rw [jointThread, admits_owner_set identity _ _ (by decide)]
    exact hadm
  | copyThread ht₀ hnone => exact absurd rfl (htaken _ hnone)

/-- As long as the run exists, it is on the thread, which exists and has the owner. -/
def Tracked (identity : String) (threadId runId : Uuid) (d : Database) : Prop :=
  ∀ r ∈ d.run, r.runId = runId → r.threadId = threadId ∧
    ∃ t ∈ d.thread, t.threadId = threadId ∧ admits (ownerFilter identity) t.metadata = true

theorem run_before {caller : Caller} {rpc : Rpc} {d₀ d : Database}
    (hother : OtherCall caller d₀ rpc) {r₀ : Run} (hr₀ : r₀ ∈ d₀.run) {r : Run}
    (hr : r ∈ (execute rpc d).run) (hid : r.runId = r₀.runId) :
    ∃ r' ∈ d.run, r'.runId = r.runId ∧ r'.threadId = r.threadId := by
  rcases run_before_execute hr with ⟨r', hr', hid', htid, -⟩ | ⟨request, env, rfl, hins⟩
  · exact ⟨r', hr', hid', htid⟩
  · rw [runId_of_mem_insertedRun hins] at hid
    exact absurd hid.symm (hother r₀ hr₀)

theorem Tracked.execute {identity : String} {threadId : Uuid} {rpc : Rpc} {d₀ d : Database}
    (hother : OtherCall (some identity) d₀ rpc) {r₀ : Run} (hr₀ : r₀ ∈ d₀.run)
    (h : Tracked identity threadId r₀.runId d) :
    Tracked identity threadId r₀.runId (NextRole.execute rpc d) := by
  intro r hr hid
  obtain ⟨r', hr', hid', htid⟩ := run_before hother hr₀ hr hid
  obtain ⟨htid', t, ht, htt, hadm⟩ := h r' hr' (hid'.trans hid)
  have hown : r.threadId = threadId := htid.symm.trans htid'
  refine ⟨hown, ?_⟩
  by_cases hdel : ∃ k filters, rpc = .deleteThread k filters
  · obtain ⟨k, filters, rfl⟩ := hdel
    rcases execute_deleteThread k filters d with hsame | hgone
    · rw [hsame]
      exact ⟨t, ht, htt, hadm⟩
    · -- the run is still there, so it was another thread that was deleted
      have hk := ((hgone.run r).mp hr).2
      exact ⟨t, (hgone.thread t).mpr ⟨ht, by rw [htt, ← hown]; exact hk⟩, htt, hadm⟩
  · obtain ⟨t', ht', hid''⟩ := exists_thread_execute (fun k f heq => hdel ⟨k, f, heq⟩) ⟨t, ht, rfl⟩
    refine ⟨t', ht', hid''.trans htt, ?_⟩
    rcases thread_of_execute ht' with hold | ⟨d', hsame, hwrite⟩
    · rwa [Table.eq_of_key hold ht hid'']
    · exact admits_threadWrite hother (hsame.symm ▸ ht) hadm hwrite hid''

theorem Tracked.executeAll {identity : String} {threadId : Uuid} {rpcs : List Rpc} {d₀ d : Database}
    (hothers : ∀ rpc ∈ rpcs, OtherCall (some identity) d₀ rpc) {r₀ : Run} (hr₀ : r₀ ∈ d₀.run)
    (h : Tracked identity threadId r₀.runId d) :
    Tracked identity threadId r₀.runId (NextRole.executeAll rpcs d) := by
  induction rpcs generalizing d with
  | nil => exact h
  | cons rpc rpcs ih =>
    obtain ⟨hother, hothers⟩ := List.forall_mem_cons.mp hothers
    exact ih hothers (h.execute hother hr₀)

theorem gone_execute (caller : Caller) (rpc : Rpc) {d₀ d : Database}
    (hother : OtherCall caller d₀ rpc) {r₀ : Run} (hr₀ : r₀ ∈ d₀.run)
    (h : ∀ r ∈ d.run, r.runId ≠ r₀.runId) : ∀ r ∈ (execute rpc d).run, r.runId ≠ r₀.runId := by
  intro r hr hid
  obtain ⟨r', hr', hid', -⟩ := run_before hother hr₀ hr hid
  exact h r' hr' (hid'.trans hid)

theorem gone_executeAll (caller : Caller) {rpcs : List Rpc} {d₀ d : Database}
    (hothers : ∀ rpc ∈ rpcs, OtherCall caller d₀ rpc) {r₀ : Run} (hr₀ : r₀ ∈ d₀.run)
    (h : ∀ r ∈ d.run, r.runId ≠ r₀.runId) :
    ∀ r ∈ (executeAll rpcs d).run, r.runId ≠ r₀.runId := by
  induction rpcs generalizing d with
  | nil => exact h
  | cons rpc rpcs ih =>
    obtain ⟨hother, hothers⟩ := List.forall_mem_cons.mp hothers
    exact ih hothers (gone_execute caller rpc hother hr₀ h)

/-! ### The insertion -/

theorem Inserts.otherCall {call : CreateCall} {d : Database} (h : Inserts call d) (caller : Caller) :
    OtherCall caller d (.createRun (createRequest call) call.env) :=
  fun _ hr => h.runId_ne hr

/-- The run is inserted on a thread of the caller, so the runs of this thread are
tracked. -/
theorem tracked_inserted {call : CreateCall} {d : Database} (h : Inserts call d) {identity : String}
    (hcaller : call.caller = some identity) {r : Run} (hr : r ∈ d.run)
    (htid : r.threadId = call.params.threadId) :
    Tracked identity call.params.threadId r.runId
      (execute (.createRun (createRequest call) call.env) d) := by
  obtain ⟨r₀, hr₀⟩ := List.exists_mem_of_ne_nil _ h.inserted
  obtain ⟨-, t, ht, -⟩ := mem_insertedRun.mp hr₀
  have hfilters : call.params.threadFilters = ownerFilter identity := by
    simp [CreateCall.params, createParams, createRequest, hcaller, authFilters]
  rcases mem_runThread.mp ht with ⟨hmem, hid, hadm⟩ | hins
  · -- the thread was there, so the run was tracked before
    rw [hfilters] at hadm
    refine Tracked.execute (h.otherCall _) hr fun r' hr' hid' => ?_
    obtain rfl := Table.eq_of_key hr' hr hid'
    exact ⟨htid, t, hmem, hid, hadm⟩
  · -- the thread is inserted with the caller's stamp
    obtain ⟨-, hnone, a, -, rfl⟩ := insertedThread_eq_some.mp hins
    have hput : .put (.thread (insertThread call.params a)) ∈
        (createRun call.params d [] d).writes.getD [] := by
      have hconf : createConflicts call.params d d = false := h.noConflict
      simp [createRun, hconf, hins]
    obtain ⟨t', ht', hid'⟩ : ∃ t' ∈ (execute (.createRun (createRequest call) call.env) d).thread,
        t'.threadId = call.params.threadId := by
      rw [execute_createRun]
      refine exists_thread_applyAll (fun k hdel => ?_) (Or.inl (List.mem_map.mpr ⟨_, hput, rfl⟩))
      rcases mem_createRun hdel with ⟨t, -, heq⟩ | ⟨r, -, heq⟩ | ⟨t, -, heq⟩ <;> cases heq
    intro r' hr' hid''
    obtain ⟨r'', hr'', hid₂, htid₂⟩ := run_before (h.otherCall none) hr hr' hid''
    obtain rfl := Table.eq_of_key hr'' hr (hid₂.trans hid'')
    refine ⟨htid₂.symm.trans htid, t', ht', hid', ?_⟩
    rcases thread_of_execute ht' with hold | ⟨d', hsame, hwrite⟩
    · exact absurd hid' (Table.get?_eq_none.mp hnone t' hold)
    · cases hwrite with
      | insert hins' =>
        obtain ⟨-, -, a', -, rfl⟩ := insertedThread_eq_some.mp hins'
        exact admits_owner_of_get? (Json.get?_concat_right _ (call.get?_owner hcaller))
      | refresh hmem =>
        obtain ⟨t₀, ht₀, a', -, rfl⟩ := mem_updatedThread.mp hmem
        have hcur : t₀ ∈ d.thread := hsame ▸ (Relation.mem_rechecked.mp ht₀).1
        exact absurd hid' (Table.get?_eq_none.mp hnone t₀ hcur)

/-! ### Who is reached -/

theorem cancelInflight_eq_some {call : CreateCall} {inflight : List Run} {request : CancelRunRequest}
    (h : cancelInflight call inflight = some request) :
    ∃ action threadId, (assignDefaults call.payload).1.action? = some action ∧
      call.threadId = some threadId ∧
        request = ⟨.runIds threadId (inflight.map Run.runId), action, authFilters call.caller⟩ := by
  unfold cancelInflight at h
  split at h
  · next action threadId haction hthread =>
    split at h
    · cases h
    · cases h
      exact ⟨action, threadId, haction, hthread, rfl⟩
  · cases h

theorem pending_of_signal {call : CreateCall} {d gate : Database} {request : CancelRunRequest}
    (hrequest : cancelInflight call (inflightRuns call.params d) = some request) {signal : ControlSignal}
    (h : signal ∈ controlSignals (keptTargets request gate) request.action) :
    ∃ r ∈ d.run, r.runId = signal.runId ∧ r.status = .pending := by
  obtain ⟨target, htarget, rfl⟩ := List.mem_map.mp h
  obtain ⟨action, threadId, -, -, rfl⟩ := cancelInflight_eq_some hrequest
  obtain ⟨runId, hmem, rfl⟩ := List.mem_map.mp (mem_of_mem_ownedTargets htarget)
  obtain ⟨r, hr, rfl⟩ := List.mem_map.mp hmem
  obtain ⟨hrun, -, hst⟩ := mem_inflightRuns.mp hr
  exact ⟨r, hrun, rfl, hst⟩

/-- With nothing next to the call, a running run is left running without a signal. -/
theorem not_reaches_of_running {call : CreateCall} {d : Database} (h : Inserts call d)
    (now : Timestamp) {r : Run} (hr : r ∈ d.run) (htid : r.threadId = call.params.threadId)
    (hrunning : r.status = .running) : ¬ Reaches call {} now d := by
  intro hreach
  have hfl : r.status.inflight = true := by
    rw [hrunning]
    rfl
  have hins : r ∈ (execute (.createRun (createRequest call) call.env) d).run := mem_run_createRun hr
  obtain ⟨first, hend⟩ := h.createValidRun {} now
  rcases hreach r hr htid hfl with hsettled | ⟨action, -, hsignal⟩
  · -- the run is still there, and running
    rw [hend] at hsettled
    have hstays : r ∈ (createValidRun call {} now d).db.run := by
      rw [hend]
      cases cancelInflight call (inflightRuns call.params d) with
      | none => exact hins
      | some request =>
        refine (mem_run_cancelRuns_iff hins).mpr ?_
        rw [hrunning]
        simp
    rw [hend] at hstays
    rw [hsettled r hstays rfl] at hfl
    cases hfl
  · rw [hend] at hsignal
    cases hrequest : cancelInflight call (inflightRuns call.params d) with
    | none =>
      rw [hrequest] at hsignal
      exact absurd hsignal List.not_mem_nil
    | some request =>
      rw [hrequest] at hsignal
      obtain ⟨r', hr', hid, hst⟩ := pending_of_signal hrequest hsignal
      obtain rfl := Table.eq_of_key hr' hr hid
      rw [hst] at hrunning
      cases hrunning

/-- A run that a cancel names is kept as a target, or it is gone with its thread. -/
theorem kept_or_gone {caller : Caller} {threadId : Uuid} {runIds : List Uuid}
    {action : CancelRunAction} {gate : Database} {runId : Uuid} (hmem : runId ∈ runIds)
    (htracked : ∀ identity, caller = some identity → Tracked identity threadId runId gate) :
    (threadId, runId) ∈ keptTargets ⟨.runIds threadId runIds, action, authFilters caller⟩ gate ∨
      ∀ r ∈ gate.run, r.runId ≠ runId := by
  have htarget : (threadId, runId) ∈ cancelTargets (.runIds threadId runIds) gate :=
    List.mem_map.mpr ⟨runId, hmem, rfl⟩
  cases caller with
  | none =>
    -- without authentication every target is kept
    exact Or.inl htarget
  | some identity =>
    by_cases hexists : ∃ r ∈ gate.run, r.runId = runId
    · obtain ⟨r, hr, hid⟩ := hexists
      obtain ⟨-, t, ht, htid, hadm⟩ := htracked identity rfl r hr hid
      exact Or.inl (mem_ownedTargets_of_admits htarget ht htid hadm)
    · exact Or.inr fun r hr hid => hexists ⟨r, hr, hid⟩

/-- Whatever happens next to the call, a pending run is sent the signal, or it is gone
with its thread when the cancel looks at the owner. -/
theorem reaches_pending {call : CreateCall} {d : Database} (h : Inserts call d)
    {action : CancelRunAction} (haction : (assignDefaults call.payload).1.action? = some action)
    {threadId : Uuid} (hthread : call.threadId = some threadId) {others : Meanwhile}
    (hothers : ∀ rpc ∈ others.all, OtherCall call.caller d rpc) (now : Timestamp) {r : Run}
    (hr : r ∈ d.run) (htid : r.threadId = call.params.threadId) (hst : r.status = .pending) :
    (∀ r' ∈ (createValidRun call others now d).db.run, r'.runId ≠ r.runId) ∨
      ⟨call.params.threadId, r.runId, action⟩ ∈ (createValidRun call others now d).signals := by
  have hown : call.params.threadId = threadId := by
    simp [CreateCall.params, createParams, createRequest, hthread]
  have hmem : r ∈ inflightRuns call.params d := mem_inflightRuns.mpr ⟨hr, htid, hst⟩
  have hsome : cancelInflight call (inflightRuns call.params d) = some
      ⟨.runIds threadId ((inflightRuns call.params d).map Run.runId), action,
        authFilters call.caller⟩ := by
    have hne : (inflightRuns call.params d).isEmpty = false :=
      List.isEmpty_eq_false_iff.mpr (List.ne_nil_of_mem hmem)
    simp [cancelInflight, haction, hthread, hne]
  have hbefore : ∀ rpc ∈ others.beforeGate, OtherCall call.caller d rpc :=
    fun rpc hrpc => hothers rpc (by simp [Meanwhile.all, hrpc])
  have hwrite : ∀ rpc ∈ others.beforeWrite, OtherCall call.caller d rpc :=
    fun rpc hrpc => hothers rpc (by simp [Meanwhile.all, hrpc])
  have hreturn : ∀ rpc ∈ others.beforeReturn, OtherCall call.caller d rpc :=
    fun rpc hrpc => hothers rpc (by simp [Meanwhile.all, hrpc])
  obtain ⟨first, hend⟩ := h.createValidRun others now
  rw [hend, hsome]
  have htracked : ∀ identity, call.caller = some identity → Tracked identity threadId r.runId
      (executeAll others.beforeGate (execute (.createRun (createRequest call) call.env) d)) := by
    intro identity hcaller
    rw [← hown]
    exact Tracked.executeAll (hcaller ▸ hbefore) hr (tracked_inserted h hcaller hr htid)
  rcases kept_or_gone (List.mem_map.mpr ⟨r, hmem, rfl⟩) htracked with hkept | hgone
  · right
    rw [hown]
    exact List.mem_map.mpr ⟨_, hkept, rfl⟩
  · left
    refine gone_executeAll call.caller hreturn hr (gone_execute call.caller (.cancelRuns _ _ now)
      trivial hr ?_)
    exact gone_executeAll call.caller hwrite hr hgone

/-- **Every run in flight is reached exactly when none is running**: for every database
and every call with the strategy `interrupt` or `rollback` that inserts its run, all
runs of the thread that are in flight then have ended or got their signal when the call
returns, whatever happens next to it, iff none of them is running at the insertion. -/
theorem reaches_iff {call : CreateCall} {d : Database} (h : Inserts call d)
    {action : CancelRunAction} (haction : (assignDefaults call.payload).1.action? = some action)
    (hfresh : call.threadId = none → ∀ r ∈ d.run, r.threadId ≠ call.env.freshThreadId)
    (now : Timestamp) :
    (∀ others : Meanwhile, (∀ rpc ∈ others.all, OtherCall call.caller d rpc) →
      Reaches call others now d) ↔
      ∀ r ∈ d.run, r.threadId = call.params.threadId → r.status ≠ .running := by
  constructor
  · intro hreach r hr htid hrunning
    refine not_reaches_of_running h now hr htid hrunning (hreach {} fun rpc hrpc => ?_)
    exact absurd hrpc List.not_mem_nil
  · intro hnone others hothers r hr htid hfl
    have hst : r.status = .pending := by
      cases hst : r.status with
      | pending => rfl
      | running => exact absurd hst (hnone r hr htid)
      | _ =>
        rw [hst] at hfl
        cases hfl
    cases hthread : call.threadId with
    | none =>
      have hdrawn : call.params.threadId = call.env.freshThreadId := by
        simp [CreateCall.params, createParams, createRequest, hthread]
      exact absurd (htid.trans hdrawn) (hfresh hthread r hr)
    | some threadId =>
      rcases reaches_pending h haction hthread hothers now hr htid hst with hgone | hsignal
      · exact Or.inl fun r' hr' hid => absurd hid (hgone r' hr')
      · exact Or.inr ⟨action, haction, hsignal⟩

/-! ### A run that is running -/

/-- A call without authentication that interrupts what is on thread `10`. -/
def interrupting : CreateCall where
  threadId := some 10
  payload := { assistantId := 1, multitaskStrategy := some .interrupt }
  env := ⟨7, 102, 0⟩

/-- A pending run is reached, also when it is claimed before the cancel. -/
theorem reaches_iff_witness :
    (executeAll [enqueue 100] oneThread).run.rows.map Run.status = [.pending] ∧
      Reaches interrupting { beforeGate := [.next 1 7 id] } 8 (executeAll [enqueue 100] oneThread) := by
  refine ⟨by decide +kernel, ?_⟩
  have h : Inserts interrupting (executeAll [enqueue 100] oneThread) := by decide +kernel
  refine (reaches_iff h rfl (fun hnone => by cases hnone) 8).mpr (by decide +kernel) _ fun rpc hrpc => ?_
  obtain rfl := List.mem_singleton.mp hrpc
  trivial

/-- A run that is running when another one is created with `interrupt` goes on. -/
theorem not_reaches : ¬ ∀ d, (oneByOne EmptyStore).Reachable Machine.free d → ∀ call action now,
    Inserts call d → (assignDefaults call.payload).1.action? = some action →
      Reaches call {} now d := by
  intro h
  obtain ⟨d, hd, hp⟩ := (oneByOne EmptyStore).exists_reachable Machine.free
    (show (oneByOne EmptyStore).init oneAssistant from ⟨rfl, rfl⟩) [createOn 100, .next 1 5 id]
    (fun d => Inserts interrupting d ∧ ∃ r ∈ d.run, r.threadId = 10 ∧ r.status = .running)
    (by decide +kernel)
  obtain ⟨hins, r, hr, htid, hst⟩ := of_decide_eq_true hp
  exact not_reaches_of_running hins 8 hr htid hst (h d hd interrupting .interrupt 8 hins rfl)

end NextRole
