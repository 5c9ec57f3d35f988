import NextRole.Effects
import NextRole.Lib.Rank

/-!
# One running run per thread

The claim of `Runs.Next` looks at pending runs only and takes several of them at
once.  Nothing in it keeps two runs of one thread apart, so a thread gets two
running runs whenever a claim starts a run while another of the thread is running,
or starts two runs of the thread together.  When no claim does that, every thread
has at most one running run.

## Main definitions

* `OneRunning` — at most one run of each thread is running.
* `Rpc.byWorkers` — the calls that clients and workers make in the course of runs.
* `started`, `aboutToStart` — the runs that are running, also in open transactions,
  and those that a claim under way will set running.

## Main results

* `oneRunning_of_claimsApart` — **one running run per thread, when no claim starts
  a run next to another one of its thread**.
* `not_oneRunning` — two creations and one claim break it.
-/

namespace NextRole

open ReadCommitted

/-- At most one run of each thread is running. -/
def OneRunning (d : Database) : Prop :=
  ∀ r ∈ d.run.rows, ∀ r' ∈ d.run.rows, r.status = .running → r'.status = .running →
    r.threadId = r'.threadId → r = r'

instance : DecidablePred OneRunning := fun d => by
  unfold OneRunning
  infer_instance

/-- The calls made in the course of runs: creations of pending runs, claims,
cancels, and status writes by workers, which never write `running`. -/
def Rpc.byWorkers : Rpc → Bool
  | .createRun request _ => request.status.getD .pending = .pending
  | .next .. => true
  | .setRunStatus _ status _ => status ≠ .running
  | .setJointStatus request _ => request.runStatus ≠ .running
  | .cancelRuns .. => true
  | _ => false

/-- The guard that only these calls are made. -/
def OnlyWorkers (_ : ServiceState) : Action Rpc → Prop
  | .begin _ rpc => rpc.byWorkers = true
  | _ => True

instance (s : ServiceState) : DecidablePred (OnlyWorkers s) := fun a => by
  cases a <;> simp only [OnlyWorkers] <;> infer_instance

/-- The runs that are running, or that an open transaction has set running. -/
def started (s : ServiceState) : List Run :=
  s.db.run.select (fun r => r.status = .running) ++
    s.txns.rows.flatMap fun t =>
      ((t.writes statements).filterMap Write.run?).filter fun r => r.status = .running

/-- The runs that the claim under way in transaction `i` will set running when it
finishes now: due, not held by another transaction, and with fewer than `limit`
such runs before them. -/
def aboutToStart (s : ServiceState) (i : ℕ) : List Run :=
  match s.txns.get? i with
  | none => []
  | some t =>
    match t.rpc, t.snap with
    | .next limit now tie, some σ =>
      let ready := claimable now σ (s.held statements i) s.db
      s.db.run.select fun r => ready.any fun r' =>
        r'.runId = r.runId && ready.numBefore (claimBefore tie) r' < nextLimit limit
    | _, _ => []

/-- No run that a claim is about to start belongs to the thread of another run that
is running or that it is about to start too. -/
def ClaimsApart (s : ServiceState) (i : ℕ) : Prop :=
  ∀ r ∈ aboutToStart s i, ∀ r' ∈ started s ++ aboutToStart s i,
    r.threadId = r'.threadId → r.runId = r'.runId

instance (s : ServiceState) (i : ℕ) : Decidable (ClaimsApart s i) := by
  unfold ClaimsApart
  infer_instance

/-- The guard that only the calls of workers and clients are made and every claim
finishes with its runs apart from the others of their threads. -/
def OnlyApart (s : ServiceState) : Action Rpc → Prop
  | .begin _ rpc => rpc.byWorkers = true
  | .exec i => ClaimsApart s i
  | _ => True

instance (s : ServiceState) : DecidablePred (OnlyApart s) := fun a => by
  cases a <;> simp only [OnlyApart] <;> infer_instance

/-! ### The runs that are about to start -/

theorem mem_started {s : ServiceState} {r : Run} :
    r ∈ started s ↔ r.status = .running ∧
      (r ∈ s.db.run ∨ ∃ t ∈ s.txns, .put (.run r) ∈ t.writes statements) := by
  simp only [started, List.mem_append, Table.mem_select, decide_eq_true_eq, List.mem_flatMap,
    List.mem_filter, mem_filterMap_run?]
  constructor
  · rintro (⟨hr, h⟩ | ⟨t, ht, hw, h⟩)
    · exact ⟨h, Or.inl hr⟩
    · exact ⟨h, Or.inr ⟨t, ht, hw⟩⟩
  · rintro ⟨h, hr | ⟨t, ht, hw⟩⟩
    · exact Or.inl ⟨hr, h⟩
    · exact Or.inr ⟨t, ht, hw, h⟩

theorem mem_aboutToStart {s : ServiceState} {t : Txn Rpc Database RowKey} (ht : t ∈ s.txns)
    {limit : ℕ} {now : Timestamp} {tie : Uuid → ℕ} {σ : Database}
    (hrpc : t.rpc = .next limit now tie) (hσ : t.snap = some σ) {r r' : Run}
    (hr : r ∈ s.db.run)
    (hr' : r' ∈ claimed (nextLimit limit) now tie σ (s.held statements t.id) s.db)
    (hid : r.runId = r'.runId) : r ∈ aboutToStart s t.id := by
  obtain ⟨hready, hlt⟩ := mem_claimed.mp hr'
  have hget : s.txns.get? t.id = some t := Table.mem_iff_get?.mp ht
  simp only [aboutToStart, hget, hrpc, hσ, Table.mem_select, List.any_eq_true, Bool.and_eq_true,
    decide_eq_true_eq]
  exact ⟨hr, r', hready, hid.symm, hlt⟩

/-! ### The invariant -/

/-- The runs that are running, also in open transactions, are on different threads,
and only the calls of workers and clients are open. -/
structure Apart (s : ServiceState) : Prop where
  started : ∀ r ∈ started s, ∀ r' ∈ started s, r.threadId = r'.threadId → r.runId = r'.runId
  byWorkers : ∀ t ∈ s.txns, t.rpc.byWorkers = true

theorem Apart.of_subset {s s' : ServiceState} (h : Apart s)
    (hsub : ∀ r ∈ NextRole.started s', r ∈ NextRole.started s)
    (htxns : ∀ t ∈ s'.txns, t.rpc.byWorkers = true) : Apart s' :=
  ⟨fun r hr r' hr' => h.started r (hsub r hr) r' (hsub r' hr'), htxns⟩

theorem Apart.erase {s : ServiceState} (h : Apart s) (i : ℕ) :
    Apart { s with txns := s.txns.erase i } := by
  refine h.of_subset (fun r hr => ?_) fun t ht => h.byWorkers t (Table.mem_erase.mp ht).1
  obtain ⟨hrun, hr⟩ := mem_started.mp hr
  refine mem_started.mpr ⟨hrun, hr.imp_right ?_⟩
  rintro ⟨t, ht, hw⟩
  exact ⟨t, (Table.mem_erase.mp ht).1, hw⟩

/-- The only write of the calls of workers and clients that sets a run running is
the one of a claim. -/
theorem runWrite_running {rpc : Rpc} {snap cur : Database} {held : List RowKey} {r : Run}
    (h : RunWrite rpc snap held cur r) (hrpc : rpc.byWorkers = true) (hr : r.status = .running) :
    ∃ limit now tie r' r₀, rpc = .next limit now tie ∧
      r' ∈ claimed (nextLimit limit) now tie snap held cur ∧ r₀ ∈ cur.run ∧
      r₀.runId = r'.runId ∧ r = setRunning now r₀ := by
  cases h with
  | @createRun request env _ _ _ _ hins =>
    rw [status_of_mem_insertedRun hins] at hr
    have hpending : (createParams request env).status = .pending := of_decide_eq_true hrpc
    rw [hpending] at hr
    cases hr
  | next hr' hr₀ hid => exact ⟨_, _, _, _, _, rfl, hr', hr₀, hid, rfl⟩
  | setRunStatus hr₀ hid =>
    rw [withStatus_status] at hr
    exact absurd hr (by simpa [Rpc.byWorkers] using hrpc)
  | cancelRuns hr₀ hid hp => cases hr
  | setJointStatus hr₀ hid hne =>
    rw [withStatus_status] at hr
    exact absurd hr (by simpa [Rpc.byWorkers] using hrpc)

/-- What the finishing statement of a transaction sets running was about to start. -/
theorem aboutToStart_of_exec {s : ServiceState} {t : Txn Rpc Database RowKey} (ht : t ∈ s.txns)
    (hrpc : t.rpc.byWorkers = true) {σ : Database} {q : Statement} {ws : List Write}
    (hσ : t.snap = some σ) (hq : (statements t.rpc)[t.done.length]? = some q)
    (hws : (outcome q (t.writes statements) (s.reading statements t.id σ)).writes = some ws)
    {r : Run} (hr : .put (.run r) ∈ ws) (hrun : r.status = .running) :
    ∃ r₀ ∈ aboutToStart s t.id, r₀.runId = r.runId ∧ r₀.threadId = r.threadId := by
  have hw : .put (.run r) ∈
      (outcome q (t.writes statements) (s.reading statements t.id σ)).writes.getD [] := by
    rw [hws]
    exact hr
  obtain ⟨limit, now, tie, r', r₀, hnext, hr', hr₀, hid, rfl⟩ :=
    runWrite_running (runWrite_of_mem (List.mem_of_getElem? hq) hw) hrpc hrun
  -- a claim has one statement, so nothing has been written before it
  have hdone : t.done = [] := by
    rw [hnext] at hq
    cases hd : t.done with
    | nil => rfl
    | cons ρ ρs => simp [hd, statements] at hq
  have hwrites : t.writes statements = [] := by
    rw [Txn.writes, hdone, hnext]
    rfl
  rw [hwrites] at hr' hr₀
  exact ⟨r₀, mem_aboutToStart ht hnext hσ hr₀ hr' hid, rfl, rfl⟩

theorem Apart.step {s s' : ServiceState} {a : Action Rpc} (h : Apart s) (ha : OnlyApart s a)
    (hs : Step statements s a s') : Apart s' := by
  cases hs with
  | @begin i rpc hi =>
    refine h.of_subset (fun r hr => ?_) fun t ht => ?_
    · obtain ⟨hrun, hr⟩ := mem_started.mp hr
      refine mem_started.mpr ⟨hrun, hr.imp_right ?_⟩
      rintro ⟨t, ht, hw⟩
      rcases Table.mem_put.mp ht with rfl | ⟨ht, -⟩
      · obtain ⟨l, ρ, rest, q, hdone, -⟩ := Txn.mem_writes statements hw
        simp at hdone
      · exact ⟨t, ht, hw⟩
    · rcases Table.mem_put.mp ht with rfl | ⟨ht, -⟩
      · exact ha
      · exact h.byWorkers t ht
  | @snapshot t ht hn =>
    refine h.of_subset (fun r hr => ?_) fun u hu => ?_
    · obtain ⟨hrun, hr⟩ := mem_started.mp hr
      refine mem_started.mpr ⟨hrun, hr.imp_right ?_⟩
      rintro ⟨u, hu, hw⟩
      rcases Table.mem_put.mp hu with rfl | ⟨hu, -⟩
      · exact ⟨t, ht, hw⟩
      · exact ⟨u, hu, hw⟩
    · rcases Table.mem_put.mp hu with rfl | ⟨hu, -⟩
      · exact h.byWorkers t ht
      · exact h.byWorkers u hu
  | @exec t σ q ws ht hσ hq hws hfree =>
    have hby := h.byWorkers t ht
    -- a run that has started now had started before, or was about to start
    have hold : ∀ r ∈ NextRole.started { s with txns := s.txns.put { t with
          done := t.done ++ [s.reading statements t.id σ], snap := none } },
        ∃ r₀ ∈ NextRole.started s ++ aboutToStart s t.id,
          r₀.runId = r.runId ∧ r₀.threadId = r.threadId := by
      intro r hr
      obtain ⟨hrun, hr | ⟨u, hu, hw⟩⟩ := mem_started.mp hr
      · exact ⟨r, List.mem_append_left _ (mem_started.mpr ⟨hrun, Or.inl hr⟩), rfl, rfl⟩
      · rcases Table.mem_put.mp hu with rfl | ⟨hu, -⟩
        · rw [Txn.writes_exec statements hq hws, List.mem_append] at hw
          rcases hw with hw | hw
          · exact ⟨r, List.mem_append_left _ (mem_started.mpr ⟨hrun, Or.inr ⟨t, ht, hw⟩⟩), rfl, rfl⟩
          · obtain ⟨r₀, hr₀, hid, htid⟩ := aboutToStart_of_exec ht hby hσ hq hws hw hrun
            exact ⟨r₀, List.mem_append_right _ hr₀, hid, htid⟩
        · exact ⟨r, List.mem_append_left _ (mem_started.mpr ⟨hrun, Or.inr ⟨u, hu, hw⟩⟩), rfl, rfl⟩
    refine ⟨fun r hr r' hr' heq => ?_, fun u hu => ?_⟩
    · obtain ⟨r₀, hr₀, hid, htid⟩ := hold r hr
      obtain ⟨r₁, hr₁, hid', htid'⟩ := hold r' hr'
      have heq' : r₀.threadId = r₁.threadId := by rw [htid, htid', heq]
      rw [← hid, ← hid']
      rcases List.mem_append.mp hr₀ with hst | hab
      · rcases List.mem_append.mp hr₁ with hst' | hab'
        · exact h.started r₀ hst r₁ hst' heq'
        · exact (ha r₁ hab' r₀ hr₀ heq'.symm).symm
      · exact ha r₀ hab r₁ hr₁ heq'
    · rcases Table.mem_put.mp hu with rfl | ⟨hu, -⟩
      · exact hby
      · exact h.byWorkers u hu
  | fail ht => exact h.erase _
  | @commit t ht hc =>
    refine h.of_subset (fun r hr => ?_) fun u hu => h.byWorkers u (Table.mem_erase.mp hu).1
    obtain ⟨hrun, hr | ⟨u, hu, hw⟩⟩ := mem_started.mp hr
    · rcases run_of_applyAll hr with hw | ⟨-, hr⟩
      · exact mem_started.mpr ⟨hrun, Or.inr ⟨t, ht, hw⟩⟩
      · exact mem_started.mpr ⟨hrun, Or.inl hr⟩
    · exact mem_started.mpr ⟨hrun, Or.inr ⟨u, (Table.mem_erase.mp hu).1, hw⟩⟩
  | abort => exact h.erase _

theorem apart_init {s : ServiceState} (h : (services NoRuns).init s) : Apart s := by
  obtain ⟨hdb, htxns⟩ := h
  refine ⟨fun r hr => ?_, fun t ht => ?_⟩
  · rcases mem_started.mp hr with ⟨-, hr | ⟨t, ht, -⟩⟩
    · rw [hdb] at hr
      exact absurd hr (Table.not_mem_empty r)
    · rw [htxns] at ht
      exact absurd ht (Table.not_mem_empty t)
  · rw [htxns] at ht
    exact absurd ht (Table.not_mem_empty t)

/-- **One running run per thread**: from an empty run table, through any
interleaving of the calls of clients and workers in which no claim starts a run next
to another run of its thread, at most one run of each thread is running. -/
theorem oneRunning_of_claimsApart {s : ServiceState}
    (h : (services NoRuns).Reachable OnlyApart s) : OneRunning s.db := by
  have hI : Apart s := h.invariant (fun _ => apart_init)
    fun s a s' _ hI ha hs => hI.step ha (step_sound statements hs)
  intro r hr r' hr' hrun hrun' heq
  have hid : r.runId = r'.runId := hI.started r (mem_started.mpr ⟨hrun, Or.inl hr⟩)
    r' (mem_started.mpr ⟨hrun', Or.inl hr'⟩) heq
  exact Table.eq_of_key hr hr' hid

/-! ### Two runs of one thread -/

theorem oneRunning_of_claimsApart_witness :
    ∃ s, (services NoRuns).Reachable OnlyApart s ∧ OneRunning s.db ∧
      s.db.run.rows.map Run.status = [.running] := by
  obtain ⟨s, hs, hp⟩ := (services NoRuns).exists_reachable OnlyApart
    (show (services NoRuns).init ⟨oneThread, .empty⟩ from ⟨rfl, rfl⟩)
    (atOnce (enqueue 100) ++ atOnce (.next 1 5 id))
    (fun s => s.db.run.rows.map Run.status = [.running]) (by decide +kernel)
  exact ⟨s, hs, oneRunning_of_claimsApart hs, of_decide_eq_true hp⟩

/-- Two runs created on one thread are both claimed by the next claim of two. -/
theorem not_oneRunning :
    ¬ ∀ s, (services NoRuns).Reachable OnlyWorkers s → OneRunning s.db := by
  intro h
  obtain ⟨s, hs, hp⟩ := (services NoRuns).exists_reachable OnlyWorkers
    (show (services NoRuns).init ⟨oneThread, .empty⟩ from ⟨rfl, rfl⟩)
    (atOnce (enqueue 100) ++ atOnce (enqueue 101) ++ atOnce (.next 2 5 id))
    (fun s => ¬ OneRunning s.db) (by decide +kernel)
  exact of_decide_eq_true hp (h s hs)

end NextRole
