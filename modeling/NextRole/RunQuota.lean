import NextRole.Agents.QuotaGate

/-!
# The limits on the runs of an owner

The transactions that gate the runs of one owner count and insert one after the other,
in whatever order they started.  So when one inserts its row, what it counted is what is
committed, and the row that it adds is within the limits.

## Main definitions

* `Counts` — what a transaction knows of the runs in its windows.
* `WithinRunLimits` — the limits hold with each row that is inserted.

## Main results

* `counts_of_reachable` — what a transaction has counted stays true to its end.
* `withinRunLimits_of_reachable` — **every insertion keeps the limits of the day and of
  the week**.
-/

namespace NextRole

open Machine

/-- What a transaction knows, when its owner has `day` and `week` runs in its windows. -/
def CheckPhase.Counts (settings : QuotaSettings) (day week : ℕ) : CheckPhase → Prop
  | begun | locked => True
  | own stats | shared stats | counted stats => stats.runsDay = day ∧ stats.runsWeek = week
  | decided verdict => verdict.allowed = true →
      (0 < settings.runsPerDay → (day : ℤ) < settings.runsPerDay) ∧
        (0 < settings.runsPerWeek → (week : ℤ) < settings.runsPerWeek)

/-- What a transaction knows of the runs in its windows. -/
def Check.Counts (settings : QuotaSettings) (ledger : List LedgerRow) (c : Check) : Prop :=
  c.phase.Counts settings (runsSince ledger c.owner c.start .day)
    (runsSince ledger c.owner c.start .week)

/-- With each row that is inserted and not committed yet, its owner has no more runs in
the windows of the insertion than the limits allow. -/
def WithinRunLimits (settings : QuotaSettings) (s : QuotaState) : Prop :=
  ∀ c ∈ s.checks, c.phase.inserted = true →
    (runsSince s.ledger c.owner c.start .day + 1 : ℤ) ≤ settings.runsPerDay ∧
      (runsSince s.ledger c.owner c.start .week + 1 : ℤ) ≤ settings.runsPerWeek

variable {settings : QuotaSettings} {hashtext : String → ℤ} {init : Database → Prop}
  {Ok : QuotaState → QuotaAction → Prop} {s s' : QuotaState}

/-- A transaction that goes on knows what it has read. -/
theorem Check.Counts.next {c : Check} {phase : CheckPhase} (h : c.Counts settings s.ledger)
    (hnext : c.next settings hashtext s = some phase) :
    ({ c with phase := phase } : Check).Counts settings s.ledger := by
  unfold Check.next at hnext
  unfold Check.Counts at h ⊢
  split at hnext
  · split at hnext
    · cases hnext
      trivial
    · cases hnext
  · cases hnext
    exact ⟨rfl, rfl⟩
  · next stats hphase =>
    cases hnext
    rw [hphase] at h
    exact h
  · next stats hphase =>
    cases hnext
    rw [hphase] at h
    exact h
  · next stats hphase =>
    cases hnext
    rw [hphase] at h
    -- a verdict in favour means that both counts were below their limits
    intro hallowed
    rw [← h.1, ← h.2]
    exact ⟨runsDay_lt_of_allowed hallowed, runsWeek_lt_of_allowed hallowed⟩
  · cases hnext

theorem Check.Counts.append {c : Check} {row : LedgerRow} (h : c.Counts settings s.ledger)
    (hrow : row.owner ≠ c.owner ∨ row.kind ≠ .run) : c.Counts settings (s.ledger ++ [row]) := by
  rw [Check.Counts, runsSince_append_of_ne hrow, runsSince_append_of_ne hrow]
  exact h

theorem Check.Counts.of_not_holdsLock {c : Check} {ledger : List LedgerRow}
    (h : c.phase.holdsLock = false) : c.Counts settings ledger := by
  unfold Check.Counts
  cases hphase : c.phase with
  | begun => trivial
  | _ =>
    rw [hphase] at h
    cases h

/-- The commit of one transaction leaves what another one has counted. -/
theorem Check.Counts.commit {c c₀ : Check} {verdict : Verdict} (hs : LockExclusive hashtext s)
    (hc : c ∈ s.checks) (hne : c.id ≠ c₀.id) (hc₀ : c₀ ∈ s.checks)
    (hphase : c₀.phase = .decided verdict) (h : c.Counts settings s.ledger) :
    c.Counts settings (s.commit c₀ verdict).ledger := by
  simp only [QuotaState.commit]
  split
  · by_cases hholds : c.phase.holdsLock = true
    · -- the lock makes the row one of another owner
      refine h.append (Or.inl fun howner => hne ?_)
      have hholds₀ : c₀.phase.holdsLock = true := by
        rw [hphase]
        rfl
      rw [hs.eq_of_owner hc hc₀ hholds hholds₀ howner.symm]
    · exact .of_not_holdsLock (by simpa using hholds)
  · exact h

/-- **What a transaction has counted stays true to its end.** -/
theorem counts_of_reachable (h : (quota settings hashtext init).Reachable Ok s) :
    ∀ c ∈ s.checks, c.Counts settings s.ledger := by
  refine h.invariant (I := fun s => ∀ c ∈ s.checks, c.Counts settings s.ledger) ?_ ?_
  · rintro s ⟨-, hchecks, -, -⟩ c hc
    rw [hchecks] at hc
    exact absurd hc (Table.not_mem_empty c)
  · intro s a s' hr ih hOk hs c hc
    cases quotaStep_sound hs with
    | begin hid =>
      rcases Table.mem_put.mp hc with rfl | ⟨hc, -⟩
      · exact .of_not_holdsLock rfl
      · exact ih c hc
    | proceed hc₀ hnext =>
      rcases Table.mem_put.mp hc with rfl | ⟨hc, -⟩
      · exact (ih _ hc₀).next hnext
      · exact ih c hc
    | commit hc₀ hphase =>
      obtain ⟨hc, hne⟩ := Table.mem_erase.mp hc
      exact (ih c hc).commit (lockExclusive_of_reachable hr) hc hne hc₀ hphase
    | abort => exact ih c (Table.mem_erase.mp hc).1
    | meter => exact (ih c hc).append (Or.inr (by simp))
    | _ => exact ih c hc

/-- **The limits on runs**: with every row that a transaction of the gate inserts, the
runs of its owner in the day and in the week that the transaction looks at are within
the limits. -/
theorem withinRunLimits_of_reachable (hday : 0 < settings.runsPerDay)
    (hweek : 0 < settings.runsPerWeek) (h : (quota settings hashtext init).Reachable free s) :
    WithinRunLimits settings s := by
  intro c hc hinserted
  have hcounts := counts_of_reachable h c hc
  unfold Check.Counts at hcounts
  cases hphase : c.phase with
  | decided verdict =>
    rw [hphase] at hcounts hinserted
    obtain ⟨hd, hw⟩ := hcounts hinserted
    have hlt := hd hday
    have hlt' := hw hweek
    constructor <;> omega
  | _ =>
    rw [hphase] at hinserted
    cases hinserted

/-- Two runs of one owner in a day, next to one of another: the transaction that started
first counts second. -/
def secondRun : List QuotaAction :=
  [.begin 1 "alice" none, .tick 5, .begin 2 "alice" (some "7"), .begin 3 "bob" none] ++
    List.replicate 5 (.proceed 2) ++ [.commit 2, .tick 9] ++ List.replicate 5 (.proceed 1)

theorem withinRunLimits_of_reachable_witness :
    ∃ s, (quota { runsPerDay := 2, runsPerWeek := 5 } (fun _ => 0) NoRuns).Reachable free s ∧
      (∃ c ∈ s.checks, c.phase.inserted = true ∧ c.start = 0 ∧
        runsSince s.ledger c.owner c.start .day = 1) ∧
      WithinRunLimits { runsPerDay := 2, runsPerWeek := 5 } s := by
  obtain ⟨s, hs, hrows⟩ := Machine.exists_reachable
    (quota { runsPerDay := 2, runsPerWeek := 5 } (fun _ => 0) NoRuns) free
    (s := ⟨0, [], Database.fresh .empty, .empty, []⟩) ⟨rfl, rfl, rfl, rfl⟩ secondRun
    (fun s => s.checks.rows.any fun c =>
      c.phase.inserted && c.start = 0 && runsSince s.ledger c.owner c.start .day = 1)
    (by decide +kernel)
  obtain ⟨c, hc, hcond⟩ := List.any_eq_true.mp hrows
  simp only [Bool.and_eq_true, decide_eq_true_eq] at hcond
  exact ⟨s, hs, ⟨c, hc, hcond.1.1, hcond.1.2, hcond.2⟩,
    withinRunLimits_of_reachable (by decide) (by decide) hs⟩

end NextRole
