import NextRole.RunThreads

/-!
# Threads with runs in flight are busy

A creation marks its thread busy only when it reads another status; the statement
that ends a run computes the status from the runs that its snapshot shows.  Neither
holds a lock that the other waits for, so a thread with a run in flight can lose its
status `busy`: when a creation commits after another transaction has taken the
status it relied on away, or when a status is computed from a snapshot older than a
run that has come in flight.  When neither happens, the status is right.

## Main definitions

* `BusySafe` — every thread with a run in flight is busy.
* `BusyOrWritten`, `NoneEntered` — the two conditions on a commit.

## Main results

* `busySafe_of_commits` — **if every commit meets the two conditions, every reachable
  database is safe**.
* `not_busySafe` — a creation and the end of a run that break it.
-/

namespace NextRole

open ReadCommitted

/-- Every thread that has a run in flight is busy. -/
def BusySafe (d : Database) : Prop :=
  ∀ r ∈ d.run, r.status.inflight = true → ∀ t ∈ d.thread, t.threadId = r.threadId →
    t.status = .busy

instance : DecidablePred BusySafe := fun d => by
  unfold BusySafe
  infer_instance

/-- Every run that a creation or a status write puts in flight is on a thread that
the same transaction writes, or that is busy when it commits. -/
def BusyOrWritten (s : ServiceState) (t : Txn Rpc Database RowKey) : Prop :=
  ∀ r ∈ (t.writes statements).filterMap Write.run?, r.status.inflight = true →
    RowKey.thread r.threadId ∈ keys (t.writes statements) ∨
      ∀ th ∈ s.db.thread, th.threadId = r.threadId → th.status = .busy

/-- No run of a thread to which a status other than busy is given has come in flight
since the snapshot from which the status was computed. -/
def NoneEntered (s : ServiceState) (t : Txn Rpc Database RowKey) : Prop :=
  ∀ th ∈ (t.writes statements).filterMap Write.thread?, th.status ≠ .busy →
    ∀ ρ ∈ t.done.getLast?, ¬ EnteredFlight th.threadId ρ.snap s.db

/-- The calls that put runs in flight which were not in flight before. -/
def Rpc.putsInFlight : Rpc → Bool
  | .createRun .. | .setRunStatus .. | .setJointStatus .. => true
  | _ => false

/-- The calls that compute a thread's status from its runs. -/
def Rpc.computesStatus : Rpc → Bool
  | .setThreadStatus .. | .setJointStatus .. => true
  | _ => false

/-- The conditions on the commit of transaction `i`, for the calls they are about. -/
def CommitSafe (s : ServiceState) (i : ℕ) : Prop :=
  ∀ t ∈ s.txns, t.id = i → (t.rpc.putsInFlight = true → BusyOrWritten s t) ∧
    (t.rpc.computesStatus = true → NoneEntered s t)

/-- The guard that only these calls are made and every commit is safe. -/
def OnlySafe (s : ServiceState) : Action Rpc → Prop
  | .begin _ rpc => rpc.runsAndStatus = true
  | .commit i => CommitSafe s i
  | _ => True

instance (s : ServiceState) (t : Txn Rpc Database RowKey) : Decidable (BusyOrWritten s t) := by
  unfold BusyOrWritten
  infer_instance

instance (s : ServiceState) (t : Txn Rpc Database RowKey) : Decidable (NoneEntered s t) := by
  unfold NoneEntered
  infer_instance

instance (s : ServiceState) (i : ℕ) : Decidable (CommitSafe s i) := by
  unfold CommitSafe
  infer_instance

instance (s : ServiceState) : DecidablePred (OnlySafe s)
  | .begin _ rpc => inferInstanceAs (Decidable (rpc.runsAndStatus = true))
  | .commit i => inferInstanceAs (Decidable (CommitSafe s i))
  | .snapshot _ | .exec _ | .abort _ => inferInstanceAs (Decidable True)

/-! ### What a commit does to a safe database -/

theorem OnlySafe.calls {s : ServiceState} {a : Action Rpc} (h : OnlySafe s a) :
    OnlyRunsAndStatus s a := by
  cases a with
  | begin i rpc => exact h
  | _ => trivial

section

variable {s : ServiceState} (hs : (services NoRuns).Reachable OnlySafe s)

include hs

/-- A run that a transaction puts in flight is on a thread that is busy, unless the
transaction writes that thread too. -/
theorem busy_of_put_run (hI : BusySafe s.db) {t : Txn Rpc Database RowKey} (ht : t ∈ s.txns)
    (hsafe : t.rpc.putsInFlight = true → BusyOrWritten s t) {r : Run}
    (hr : .put (.run r) ∈ t.writes statements) (hfl : r.status.inflight = true) {th : Thread}
    (hth : th ∈ s.db.thread) (hid : th.threadId = r.threadId)
    (hkey : RowKey.thread th.threadId ∉ keys (t.writes statements)) : th.status = .busy := by
  have hwritten : t.rpc.putsInFlight = true → th.status = .busy := by
    intro hputs
    rcases hsafe hputs r (mem_filterMap_run?.mpr hr) hfl with hmem | hbusy
    · rw [← hid] at hmem
      exact absurd hmem hkey
    · exact hbusy th hth hid
  obtain ⟨ρ, rest, hdone, hwrite, hcur⟩ := Txn.runWrite_stable hs ht hr
  generalize hrpc : t.rpc = rpc at hwrite hwritten
  cases hwrite with
  | createRun hins => exact hwritten rfl
  | @next limit now tie _ _ _ r' r₀ hmem hr₀ hid₀ =>
    -- the claimed run was pending until now
    obtain ⟨-, -, -, r₁, hr₁, hid₁, hdue⟩ := mem_claimable.mp (mem_claimed.mp hmem).1
    obtain rfl : r₁ = r₀ := Table.eq_of_key hr₁ hr₀ (hid₁.trans hid₀.symm)
    have hpending : r₁.status = .pending := by
      rw [due, Bool.and_eq_true, decide_eq_true_iff] at hdue
      exact hdue.1
    refine hI r₁ ((hcur r₁ rfl).mp hr₀) ?_ th hth hid
    rw [hpending]
    rfl
  | setRunStatus hr₀ hid => exact hwritten rfl
  | cancelRuns hr₀ hid hp => cases hfl
  | setJointStatus hr₀ hid hne => exact hwritten rfl

omit hs in
/-- A run in flight that the transaction does not touch, and that has not come in
flight since the last snapshot, is seen in flight by the last statement. -/
theorem hasInflight_of_not_entered {t : Txn Rpc Database RowKey} {l : List (Reading Database RowKey)}
    {ρ : Reading Database RowKey} (hdone : t.done = l ++ [ρ]) {k : Uuid} {r : Run}
    (hr : r ∈ s.db.run) (hk : RowKey.run r.runId ∉ keys (t.writes statements))
    (htid : r.threadId = k) (hfl : r.status.inflight = true)
    (hentered : ¬ EnteredFlight k ρ.snap s.db) :
    hasInflight (applyAll ρ.snap (writesOf (statements t.rpc) l [])) k = true := by
  obtain ⟨r₀, hr₀, hid₀, htid₀, hfl₀⟩ : ∃ r₀ ∈ ρ.snap.run, r₀.runId = r.runId ∧
      r₀.threadId = k ∧ r₀.status.inflight = true := by
    by_contra hno
    refine hentered ⟨r, hr, htid, hfl, fun r₀ hr₀ hid₀ htid₀ => ?_⟩
    by_contra hfl₀
    exact hno ⟨r₀, hr₀, hid₀, htid₀, by simpa using hfl₀⟩
  have hfirst : writesOf (statements t.rpc) l [] <+: t.writes statements := by
    rw [Txn.writes, hdone]
    exact writesOf_append_prefix (statements t.rpc) l [ρ] []
  refine hasInflight_iff.mpr ⟨r₀, ?_, htid₀, hfl₀⟩
  refine (mem_run_applyAll_of_not_mem fun hmem => hk ?_).mpr hr₀
  rw [← hid₀]
  exact (hfirst.map RowWrite.key).subset hmem

/-- A thread that a transaction puts is busy if it has a run in flight after the commit. -/
theorem busy_of_put_thread (hT : HasThreads s.db) {t : Txn Rpc Database RowKey} (ht : t ∈ s.txns)
    (hc : t.complete statements = true)
    (hsafe : t.rpc.computesStatus = true → NoneEntered s t) {th : Thread}
    (hth : .put (.thread th) ∈ t.writes statements) {r : Run}
    (hr : r ∈ (applyAll s.db (t.writes statements)).run) (hfl : r.status.inflight = true)
    (hid : th.threadId = r.threadId) : th.status = .busy := by
  have hcall := runsAndStatus_of_reachable (hs.mono fun _ _ => OnlySafe.calls) t ht
  have hlast : t.rpc.threadLast = true := by
    cases h : t.rpc with
    | copyThread threadId newId filters now =>
      rw [h] at hcall
      cases hcall
    | _ => rfl
  obtain ⟨l, ρ, hdone, hwrite⟩ := Txn.threadWrite hc hlast hth
  have hnone : t.rpc.computesStatus = true → th.status ≠ .busy →
      ¬ EnteredFlight th.threadId ρ.snap s.db := by
    intro hcomp hne
    exact hsafe hcomp th (mem_filterMap_thread?.mpr hth) hne ρ (by simp [hdone])
  -- the run is one of the transaction, or it is seen by the statement that computes a status
  have hruns : (∃ ρ rest, t.done = ρ :: rest ∧ RunWrite t.rpc ρ.snap ρ.held ρ.cur r) ∨ r ∈ s.db.run ∧
      (t.rpc.computesStatus = true → th.status ≠ .busy →
        hasInflight (applyAll ρ.snap (writesOf (statements t.rpc) l [])) th.threadId = true) := by
    rcases run_of_applyAll hr with hput | ⟨hk, hold⟩
    · obtain ⟨ρ, rest, hdone, -, hwrite⟩ := Txn.runWrite hput
      exact Or.inl ⟨ρ, rest, hdone, hwrite⟩
    · exact Or.inr ⟨hold, fun hcomp hne =>
        hasInflight_of_not_entered hdone hold hk hid.symm hfl (hnone hcomp hne)⟩
  have hcur := stable_of_reachable hs t ht l ρ [] hdone (.thread th.threadId)
    (List.mem_map.mpr ⟨_, by rwa [← hdone], rfl⟩)
  have hlen : t.done.length = (statements t.rpc).length := by
    simpa [ReadCommitted.Txn.complete] using hc
  rw [hdone, List.length_append, List.length_singleton] at hlen
  clear hnone hsafe hr hth
  generalize t.rpc = rpc at hwrite hruns hcall hlen
  cases hwrite with
  | insert hins =>
    obtain ⟨-, -, a, -, rfl⟩ := insertedThread_eq_some.mp hins
    rfl
  | refresh hmem =>
    obtain ⟨t₀, -, a, -, rfl⟩ := mem_updatedThread.mp hmem
    rfl
  | @createThread threadId metadata now _ _ _ hnone =>
    -- a run of this thread would already have its thread
    exfalso
    obtain rfl : l = [] := List.length_eq_zero_iff.mp (by simpa [statements] using hlen)
    rcases hruns with ⟨ρ', -, -, hwrite⟩ | ⟨hold, -⟩
    · cases hwrite
    · obtain ⟨th', hth', hid'⟩ := hT r hold
      have hrow := mem_thread_iff_row.mp hth'
      rw [hid', ← hid, ← hcur] at hrow
      have hget : ρ.cur.thread.get? threadId = none := hnone
      simp [RowStore.row, Database.row, newThread, hget] at hrow
  | patchThread => cases hcall
  | @setThreadStatus request now _ _ _ t₀ ht₀ hid₀ =>
    rcases hruns with ⟨ρ', -, -, hwrite⟩ | ⟨-, hseen⟩
    · cases hwrite
    · by_contra hne
      have hbusy := hseen rfl hne
      rw [show (statusThread request now _ t₀).threadId = request.threadId from hid₀] at hbusy
      exact hne (by simp [statusThread, hbusy])
  | @setJointStatus request now _ _ _ t₀ ht₀ hid₀ =>
    rcases hruns with ⟨ρ', -, -, hwrite⟩ | ⟨-, hseen⟩
    · cases hwrite with
      | setJointStatus hr₀ hid hne =>
        rw [withStatus_status] at hfl
        simp [jointThread, hfl]
    · by_contra hne
      have hbusy := hseen rfl hne
      rw [show (jointThread request now _ t₀).threadId = request.threadId from hid₀] at hbusy
      exact hne (by simp [jointThread, hbusy])
  | copyThread => cases hcall

end

/-! ### The main result -/

/-- **Busy is safe when every commit is**: from an empty run table, through any
interleaving of the calls on runs and threads in which every commit of a run meets a
thread that is still busy and every status written is newer than the runs in flight,
a thread with a run in flight is busy. -/
theorem busySafe_of_commits {s : ServiceState} (h : (services NoRuns).Reachable OnlySafe s) :
    BusySafe s.db := by
  refine db_of_reachable (fun d hd r hr => ?_) (fun s hs hI t ht hc hOk r hr hfl th hth hid => ?_) h
  · rw [hd] at hr
    exact absurd hr (Table.not_mem_empty r)
  · obtain ⟨hputs, hcomputes⟩ := hOk t ht rfl
    rcases thread_of_applyAll hth with hput | ⟨hkey, hold⟩
    · exact busy_of_put_thread hs (hasThreads_of_reachable (hs.mono fun _ _ => OnlySafe.calls)) ht hc hcomputes hput hr hfl hid
    · rcases run_of_applyAll hr with hrput | ⟨-, hrold⟩
      · exact busy_of_put_run hs hI ht hputs hrput hfl hold hid hkey
      · exact hI r hrold hfl th hold hid

theorem busySafe_of_commits_witness :
    ∃ s, (services NoRuns).Reachable OnlySafe s ∧ BusySafe s.db ∧
      s.db.run.rows.map Run.status = [.pending, .success] := by
  obtain ⟨s, hs, hp⟩ := (services NoRuns).exists_reachable OnlySafe
    (show (services NoRuns).init ⟨oneThread, .empty⟩ from ⟨rfl, rfl⟩)
    (atOnce (enqueue 100) ++ atOnce (.next 1 5 id) ++ atOnce (enqueue 101) ++
      [.begin 0 (finish 100), .snapshot 0, .exec 0, .snapshot 0, .exec 0, .commit 0])
    (fun s => s.db.run.rows.map Run.status = [.pending, .success]) (by decide +kernel)
  exact ⟨s, hs, busySafe_of_commits hs, of_decide_eq_true hp⟩

/-- A creation reads the thread busy and commits after the end of the only other run
has made it idle. -/
theorem not_busySafe :
    ¬ ∀ s, (services NoRuns).Reachable OnlyRunsAndStatus s → BusySafe s.db := by
  intro h
  obtain ⟨s, hs, hp⟩ := (services NoRuns).exists_reachable OnlyRunsAndStatus
    (show (services NoRuns).init ⟨oneThread, .empty⟩ from ⟨rfl, rfl⟩)
    (atOnce (enqueue 100) ++ atOnce (.next 1 5 id) ++
      [.begin 1 (enqueue 101), .snapshot 1, .exec 1,
       .begin 0 (finish 100), .snapshot 0, .exec 0, .snapshot 0, .exec 0, .commit 0, .commit 1])
    (fun s => ¬ BusySafe s.db) (by decide +kernel)
  exact of_decide_eq_true hp (h s hs)

end NextRole
