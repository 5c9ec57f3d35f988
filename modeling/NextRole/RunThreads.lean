import NextRole.Serial

/-!
# The threads of runs

The run table has no foreign key to the thread table.  As long as only runs are
deleted, every run has a thread nevertheless: a creation inserts its run on a thread
that it has seen or that it inserts, and no call removes one.

## Main definitions

* `Rpc.runsAndStatus` — the calls on runs and on the status of threads.
* `HasThreads` — the thread of every run exists.

## Main results

* `hasThreads_of_reachable` — **so it is in every reachable database**.
* `HasThreads.execute` — one call that deletes no thread.
-/

namespace NextRole

open ReadCommitted

/-- The calls on runs, and the calls that create threads and write their status. -/
def Rpc.runsAndStatus : Rpc → Bool
  | .createRun .. | .next .. | .cancelRuns .. | .deleteRun .. | .setRunStatus .. => true
  | .createThread .. | .setThreadStatus .. | .setJointStatus .. => true
  | .patchThread .. | .deleteThread .. | .copyThread .. => false

/-- The guard that only these calls are made. -/
def OnlyRunsAndStatus (_ : ServiceState) : Action Rpc → Prop
  | .begin _ rpc => rpc.runsAndStatus = true
  | _ => True

instance (s : ServiceState) : DecidablePred (OnlyRunsAndStatus s)
  | .begin _ rpc => inferInstanceAs (Decidable (rpc.runsAndStatus = true))
  | .snapshot _ | .exec _ | .commit _ | .abort _ => inferInstanceAs (Decidable True)

/-! ### Every run has its thread -/

/-- The thread of every run exists. -/
def HasThreads (d : Database) : Prop := ∀ r ∈ d.run, ∃ th ∈ d.thread, th.threadId = r.threadId

/-- The threads of one database exist in another. -/
def ThreadsPersist (d d' : Database) : Prop :=
  ∀ th ∈ d.thread, ∃ th' ∈ d'.thread, th'.threadId = th.threadId

/-- After writes that remove no thread, the threads that were there and those that
the writes touch exist. -/
theorem exists_thread_applyAll {d : Database} {ws : List Write} {k : Uuid}
    (hdel : ∀ k, .del (.thread k) ∉ ws)
    (h : RowKey.thread k ∈ keys ws ∨ ∃ th ∈ d.thread, th.threadId = k) :
    ∃ th ∈ (applyAll d ws).thread, th.threadId = k := by
  rcases row_applyAll d ws (.thread k) with ⟨w, hw, hkey, hrow⟩ | ⟨hk, hrow⟩
  · cases w with
    | put r =>
      cases r with
      | thread th =>
        obtain rfl : th.threadId = k := RowKey.thread.inj hkey
        exact ⟨th, mem_thread_iff_row.mpr hrow, rfl⟩
      | _ => cases hkey
    | del k' =>
      cases hkey
      exact absurd hw (hdel _)
  · rcases h with hmem | ⟨th, hth, rfl⟩
    · exact absurd hmem hk
    · rw [mem_thread_iff_row.mp hth] at hrow
      exact ⟨th, mem_thread_iff_row.mpr hrow, rfl⟩

theorem not_del_thread {t : Txn Rpc Database RowKey} (hrpc : t.rpc.runsAndStatus = true) (k : Uuid) :
    .del (.thread k) ∉ t.writes statements := by
  intro h
  obtain ⟨l, ρ, rest, q, -, hq, hw⟩ := ReadCommitted.Txn.mem_writes statements h
  obtain ⟨threadId, filters, heq⟩ := delThread_of_mem (List.mem_of_getElem? hq) hw
  rw [heq] at hrpc
  cases hrpc

section

variable {s : ServiceState} (hs : (services NoRuns).Reachable OnlyRunsAndStatus s)

include hs

theorem runsAndStatus_of_reachable : ∀ t ∈ s.txns, t.rpc.runsAndStatus = true :=
  @rpc_of_reachable _ _ _ _ _ _ _ _ statements NoRuns OnlyRunsAndStatus (fun rpc => rpc.runsAndStatus = true)
    (fun _ _ _ h => h) s hs

theorem threadsPersist_of_reachable : History ThreadsPersist s := by
  refine history_of_reachable (fun d th hth => ⟨th, hth, rfl⟩) (fun a b c hab hbc th hth => ?_)
    (fun s hs t ht _ _ th hth => ?_) hs
  · obtain ⟨th', hth', hid⟩ := hab th hth
    obtain ⟨th'', hth'', hid'⟩ := hbc th' hth'
    exact ⟨th'', hth'', hid'.trans hid⟩
  · exact exists_thread_applyAll (not_del_thread (runsAndStatus_of_reachable hs t ht))
      (Or.inr ⟨th, hth, rfl⟩)

/-- A run that an open transaction puts has a thread, which exists already or which
the transaction inserts. -/
theorem hasThread_of_put (hI : HasThreads s.db) {t : Txn Rpc Database RowKey} (ht : t ∈ s.txns)
    {r : Run} (hr : .put (.run r) ∈ t.writes statements) :
    ∃ th ∈ (applyAll s.db (t.writes statements)).thread, th.threadId = r.threadId := by
  have hdel := not_del_thread (runsAndStatus_of_reachable hs t ht)
  obtain ⟨ρ, rest, hdone, hwrite, hcur⟩ := Txn.runWrite_stable hs ht hr
  -- a run that replaces another one has the thread of that one
  have hreplaced : ∀ r₀ ∈ ρ.cur.run, r₀.runId = r.runId → r₀.threadId = r.threadId →
      ∃ th ∈ (applyAll s.db (t.writes statements)).thread, th.threadId = r.threadId := by
    intro r₀ hr₀ hid htid
    obtain ⟨th, hth, hthid⟩ := hI r₀ ((hcur r₀ hid).mp hr₀)
    exact exists_thread_applyAll hdel (Or.inr ⟨th, hth, hthid.trans htid⟩)
  generalize hrpc : t.rpc = rpc at hwrite
  cases hwrite with
  | @createRun request env _ _ _ _ hins =>
    obtain ⟨-, th, hth, a, -, rfl⟩ := mem_insertedRun.mp hins
    rcases mem_runThread.mp hth with ⟨hsnap, -, -⟩ | hinsert
    · have hseen := (threadsPersist_of_reachable hs t ht).2 ρ (hdone ▸ List.mem_cons_self)
      obtain ⟨th₁, hth₁, hid₁⟩ := hseen.1 th hsnap
      obtain ⟨th₂, hth₂, hid₂⟩ := hseen.2 th₁ hth₁
      exact exists_thread_applyAll hdel (Or.inr ⟨th₂, hth₂, hid₂.trans hid₁⟩)
    · have hq : statements t.rpc = [createRun (createParams request env)] := by
        rw [hrpc]
        rfl
      have hput : .put (.thread th) ∈ t.writes statements := by
        rw [Txn.writes_single statements hq hdone] at hr ⊢
        exact put_insertedThread hr hinsert
      exact exists_thread_applyAll hdel (Or.inl (List.mem_map.mpr ⟨_, hput, rfl⟩))
  | next hmem hr₀ hid => exact hreplaced _ hr₀ rfl rfl
  | setRunStatus hr₀ hid => exact hreplaced _ hr₀ rfl rfl
  | cancelRuns hr₀ hid hp => exact hreplaced _ hr₀ rfl rfl
  | setJointStatus hr₀ hid hne => exact hreplaced _ hr₀ rfl rfl

theorem hasThreads_of_reachable : HasThreads s.db := by
  refine db_of_reachable (fun d hd r hr => ?_) (fun s hs hI t ht _ _ r hr => ?_) hs
  · rw [hd] at hr
    exact absurd hr (Table.not_mem_empty r)
  · rcases run_of_applyAll hr with hput | ⟨-, hold⟩
    · exact hasThread_of_put hs hI ht hput
    · exact exists_thread_applyAll (not_del_thread (runsAndStatus_of_reachable hs t ht))
        (Or.inr (hI r hold))

end

/-! ### One call -/

theorem exists_insertedThread_execute {request : CreateRunRequest} {env : CreateEnv} {d : Database}
    (hconf : createConflicts (createParams request env) d d = false) {t : Thread}
    (ht : insertedThread (createParams request env) d d = some t) :
    ∃ t' ∈ (execute (.createRun request env) d).thread, t'.threadId = t.threadId := by
  have hput : .put (.thread t) ∈ (createRun (createParams request env) d [] d).writes.getD [] := by
    simp [createRun, hconf, ht]
  rw [execute_createRun]
  refine exists_thread_applyAll (fun k hdel => ?_) (Or.inl (List.mem_map.mpr ⟨_, hput, rfl⟩))
  rcases mem_createRun hdel with ⟨u, -, heq⟩ | ⟨r, -, heq⟩ | ⟨u, -, heq⟩ <;> cases heq

section

variable {rpc : Rpc} (hrpc : ∀ threadId filters, rpc ≠ .deleteThread threadId filters) {d : Database}

include hrpc

theorem exists_thread_execute {k : Uuid} (h : ∃ t ∈ d.thread, t.threadId = k) :
    ∃ t ∈ (execute rpc d).thread, t.threadId = k := by
  rcases execute_eq_or rpc d with hsame | hws
  · rw [hsame]
    exact h
  · rw [hws]
    refine exists_thread_applyAll (fun k' hmem => ?_) (Or.inr h)
    obtain ⟨l, ρ, rest, q, -, hq, hw⟩ := ReadCommitted.Txn.mem_writes statements hmem
    obtain ⟨threadId, filters, heq⟩ := delThread_of_mem (List.mem_of_getElem? hq) hw
    exact hrpc threadId filters heq

/-- A call that deletes no thread keeps a thread for every run. -/
theorem HasThreads.execute (h : HasThreads d) : HasThreads (NextRole.execute rpc d) := by
  intro r hr
  rcases run_before_execute hr with ⟨r₀, hr₀, -, htid, -⟩ | ⟨request, env, rfl, hins⟩
  · exact exists_thread_execute hrpc (htid ▸ h r₀ hr₀)
  · obtain ⟨-, t, ht, a, -, rfl⟩ := mem_insertedRun.mp hins
    rcases mem_runThread.mp ht with ⟨hmem, -, -⟩ | hinsert
    · exact exists_thread_execute hrpc ⟨t, hmem, rfl⟩
    · rw [insertRun_threadId]
      rw [execute_createRun] at hr ⊢
      rcases run_of_applyAll hr with hput | ⟨-, hold⟩
      · have hthread := put_insertedThread hput hinsert
        refine exists_thread_applyAll (fun k' hmem => ?_) (Or.inl (List.mem_map.mpr ⟨_, hthread, rfl⟩))
        rcases mem_createRun hmem with ⟨t', -, heq⟩ | ⟨r', -, heq⟩ | ⟨t', -, heq⟩ <;> cases heq
      · obtain ⟨t', ht', hid⟩ := h _ hold
        have hkeep := exists_thread_execute hrpc ⟨t', ht', hid⟩
        rw [execute_createRun] at hkeep
        exact hkeep

end

end NextRole
