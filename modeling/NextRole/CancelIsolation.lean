import NextRole.Serial

/-!
# Whose runs a cancel reaches

`Runs.Cancel` checks the owner of the thread that the request names, and then
changes runs by their ids alone.  A run of somebody else's thread is reached exactly
when the request lists it under a thread of the caller.

## Main definitions

* `CancelIsolated` — the runs on threads that the caller's filters do not admit are
  left alone and get no signal.
* `Mispaired` — the request lists a pending run of such a thread under a thread that
  the filters admit.

## Main results

* `cancelIsolated_iff` — **a cancel is isolated exactly when it is not mispaired**.
* `not_cancelIsolated` — one request that interrupts another owner's run.
-/

namespace NextRole

/-- Every run whose own thread does not satisfy the filters of the request is left
as it is, and no signal is sent on its own control channel. -/
def CancelIsolated (request : CancelRunRequest) (now : Timestamp) (d : Database) : Prop :=
  ∀ r ∈ d.run, ∀ t ∈ d.thread, t.threadId = r.threadId →
    admits request.filters t.metadata = false →
      r ∈ (cancel request now d).1.run ∧
        ∀ signal ∈ (cancel request now d).2,
          ¬ (signal.threadId = r.threadId ∧ signal.runId = r.runId)

instance (request : CancelRunRequest) (now : Timestamp) (d : Database) :
    Decidable (CancelIsolated request now d) := by
  unfold CancelIsolated
  infer_instance

/-- The request lists, under a thread that the filters admit, a pending run whose own
thread they do not admit. -/
def Mispaired (request : CancelRunRequest) (d : Database) : Prop :=
  ∃ threadId runIds, request.target = .runIds threadId runIds ∧
    (∃ t ∈ d.thread, t.threadId = threadId ∧ admits request.filters t.metadata = true) ∧
      ∃ r ∈ d.run, r.runId ∈ runIds ∧ r.status = .pending ∧
        ∃ t ∈ d.thread, t.threadId = r.threadId ∧ admits request.filters t.metadata = false

/-! ### The gate -/

theorem mem_ownedTargets {filters : List AuthFilter} {targets : List (Uuid × Uuid)}
    {d : Database} {u : Thread} (hu : admits filters u.metadata = false) {target : Uuid × Uuid} :
    target ∈ ownedTargets filters targets d ↔ target ∈ targets ∧
      ∃ t ∈ d.thread, t.threadId = target.1 ∧ admits filters t.metadata = true := by
  unfold ownedTargets admits
  cases hf : filtersClause filters with
  | none => simp [admits, hf] at hu
  | some p => simp [and_comm, and_left_comm]

theorem threadId_of_cancelTargets_status {st : CancelRunStatus} {d : Database} {threadId : Uuid}
    {r : Run} (hr : r ∈ d.run) (h : (threadId, r.runId) ∈ cancelTargets (.status st) d) :
    threadId = r.threadId := by
  simp only [cancelTargets, List.mem_map, Table.mem_select, Prod.mk.injEq] at h
  obtain ⟨r', ⟨hr', -⟩, htid, hid⟩ := h
  rw [← htid, Table.eq_of_key hr' hr hid]

/-! ### Isolation -/

/-- A pending run of a thread that the filters do not admit is among the targets only
of a mispaired request. -/
theorem mispaired_of_mem_keptTargets {request : CancelRunRequest} {d : Database} {r : Run}
    {t : Thread} (hr : r ∈ d.run) (ht : t ∈ d.thread) (htid : t.threadId = r.threadId)
    (hnot : admits request.filters t.metadata = false) (hp : r.status = .pending)
    (hmem : r.runId ∈ (keptTargets request d).map Prod.snd) : Mispaired request d := by
  obtain ⟨⟨threadId, runId⟩, hkept, rfl⟩ := List.mem_map.mp hmem
  obtain ⟨htarget, u, hu, huid, hadm⟩ := (mem_ownedTargets hnot).mp hkept
  cases hreq : request.target with
  | runIds threadId' runIds =>
    rw [hreq] at htarget
    obtain ⟨runId', hrunId, heq⟩ := List.mem_map.mp htarget
    cases heq
    exact ⟨threadId, runIds, hreq, ⟨u, hu, huid, hadm⟩, r, hr, hrunId, hp, t, ht, htid, hnot⟩
  | status st =>
    -- a selector pairs every run with its own thread, which the filters do not admit
    rw [hreq] at htarget
    have hown : threadId = r.threadId := threadId_of_cancelTargets_status hr htarget
    have hut : u = t := Table.eq_of_key hu ht (huid.trans (hown.trans htid.symm))
    rw [hut, hnot] at hadm
    cases hadm
  | unset =>
    rw [hreq] at htarget
    exact absurd htarget List.not_mem_nil

theorem not_signalled {request : CancelRunRequest} {now : Timestamp} {d : Database} {r : Run}
    {t : Thread} (ht : t ∈ d.thread) (htid : t.threadId = r.threadId)
    (hnot : admits request.filters t.metadata = false) :
    ∀ signal ∈ (cancel request now d).2,
      ¬ (signal.threadId = r.threadId ∧ signal.runId = r.runId) := by
  intro signal hsignal hown
  obtain ⟨target, hkept, rfl⟩ := List.mem_map.mp hsignal
  obtain ⟨-, u, hu, huid, hadm⟩ := (mem_ownedTargets hnot).mp hkept
  have hut : u = t := Table.eq_of_key hu ht (huid.trans (hown.1.trans htid.symm))
  rw [hut, hnot] at hadm
  cases hadm

/-- **A cancel is isolated exactly when it is not mispaired**: for every database and
every request, the runs of threads that the caller's filters do not admit are left
alone iff the request does not list a pending one of them under an admitted thread. -/
theorem cancelIsolated_iff (request : CancelRunRequest) (now : Timestamp) (d : Database) :
    CancelIsolated request now d ↔ ¬ Mispaired request d := by
  constructor
  · rintro hiso ⟨threadId, runIds, htarget, ⟨u, hu, huid, hadm⟩, r, hr, hmem, hp, t, ht, htid, hnot⟩
    obtain ⟨hstays, -⟩ := hiso r hr t ht htid hnot
    refine (mem_run_cancelRuns_iff hr).mp hstays ⟨?_, hp⟩
    refine List.mem_map.mpr ⟨(threadId, r.runId), (mem_ownedTargets hnot).mpr ⟨?_, u, hu, huid, hadm⟩,
      rfl⟩
    rw [htarget]
    exact List.mem_map.mpr ⟨r.runId, hmem, rfl⟩
  · intro hpaired r hr t ht htid hnot
    refine ⟨(mem_run_cancelRuns_iff hr).mpr ?_, not_signalled ht htid hnot⟩
    rintro ⟨hmem, hp⟩
    exact hpaired (mispaired_of_mem_keptTargets hr ht htid hnot hp hmem)

/-! ### Another owner's run -/

/-- Alice's thread `10`, and Bob's thread `20` with a pending run. -/
def twoOwners : Database :=
  { Database.fresh Table.empty with
    thread := (Table.empty.put {
        threadId := 10, metadata := .obj [("owner", .str "alice")] }).put {
          threadId := 20, metadata := .obj [("owner", .str "bob")] }
    run := Table.empty.put { runId := 200, threadId := 20, assistantId := 1 } }

/-- Alice's cancel of Bob's run, listed under her own thread. -/
def cancelAcross : CancelRunRequest where
  target := .runIds 10 [200]
  filters := ownerFilter "alice"

/-- Alice's request interrupts Bob's pending run. -/
theorem not_cancelIsolated : ¬ ∀ request now d, CancelIsolated request now d := by
  intro h
  exact absurd (h cancelAcross 0 twoOwners) (by decide +kernel)

end NextRole
