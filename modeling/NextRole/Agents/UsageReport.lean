import NextRole.Agents.Usage

/-!
# The report of an owner's usage

`usage_report` of `agents/usage.py` computes from the aggregates that the gate of a run computes
from, without the runs in flight.  So the report blocks what the gate refuses for another reason
than a run in progress, and the runs that it counts as left are those that the gate still admits.

## Main definitions

* `runsLeftToday`, `usageReport` — the report.
* `checkAll` — calls of the gate one after the other.
* `SpendWithin` — no limit on costs is reached.
* `ReportAgrees` — the report agrees with the gate.

## Main results

* `loadStats_append_chargeRow` — the aggregates after a run is counted.
* `checkAll_of_room` — the gate admits as many runs as there is room for, and no more.
* `agrees_usageReport` — **the report agrees with the gate**.
-/

namespace NextRole

/-! ### The report -/

/-- `runs_left_today`; `none` where no limit on runs is set. -/
def runsLeftToday (stats : UsageStats) (s : QuotaSettings) : Option Int :=
  let limits : List (Int × ℕ) := [(s.runsPerDay, stats.runsDay), (s.runsPerWeek, stats.runsWeek)]
  let left := (limits.filter fun l => 0 < l.1).map fun l => l.1 - (l.2 : Int)
  left.min?.map fun n => max n 0

/-- What `GET /usage` answers where quotas are enabled. -/
structure UsageReport where
  blocked : Bool
  reason : Option QuotaReason
  message : Option String
  resetsAt : Option Timestamp
  runsLeftToday : Option Int
  runsPerDay : Int
  runsPerWeek : Int
  deriving Repr, DecidableEq

/-- `usage_report`; `none` where quotas are not enabled. -/
def usageReport (s : QuotaSettings) (ledger : List LedgerRow) (run : Table Run) (owner : String)
    (now : Timestamp) : Option UsageReport :=
  if s.enabled then
    let stats := loadStats ledger run owner now false
    let verdict := evaluate stats s false
    some {
      blocked := !verdict.allowed
      reason := verdict.reason
      message := verdict.message
      resetsAt := verdict.resetsAt
      runsLeftToday := NextRole.runsLeftToday stats s
      runsPerDay := s.runsPerDay
      runsPerWeek := s.runsPerWeek }
  else none

/-! ### Calls of the gate -/

/-- Calls of the gate by an owner one after the other, each with the runs that it finds. -/
def checkAll (s : QuotaSettings) (owner : String) (now : Timestamp) :
    List (Table Run × Option String) → List LedgerRow → List Verdict
  | [], _ => []
  | (run, runId) :: calls, ledger =>
    let ended := checkAndRecordRun s ledger run owner runId now
    ended.1 :: checkAll s owner now calls ended.2

/-- A limit on costs. -/
def QuotaReason.ofSpend (reason : QuotaReason) : Bool := reason ∈ [usdDay, usdWeek, globalUsdDay]

/-- No limit on costs is reached. -/
def SpendWithin (stats : UsageStats) (s : QuotaSettings) : Prop :=
  ∀ c ∈ quotaChecks stats s, c.reason.ofSpend = true → c.exceeded = false

instance (stats : UsageStats) (s : QuotaSettings) : Decidable (SpendWithin stats s) :=
  inferInstanceAs (Decidable (∀ c ∈ quotaChecks stats s, _ → _))

/-- The report agrees with the gate: it blocks what the gate refuses for another reason than a
run in progress, for the same reason, and as long as costs do not count it tells how many runs
the gate admits. -/
structure ReportAgrees (s : QuotaSettings) (ledger : List LedgerRow) (run : Table Run) (owner : String)
    (now : Timestamp) : Prop where
  blocked : ∀ runId reason, (∃ report ∈ usageReport s ledger run owner now,
      report.blocked = true ∧ report.reason = some reason) ↔
    (checkAndRecordRun s ledger run owner runId now).1.allowed = false ∧
      (checkAndRecordRun s ledger run owner runId now).1.reason = some reason ∧
        reason ≠ .concurrent
  reasoned : ∀ report ∈ usageReport s ledger run owner now,
    report.blocked = true → report.reason.isSome = true
  left : ∀ report ∈ usageReport s ledger run owner now, ∀ n, report.runsLeftToday = some n →
    SpendWithin (loadStats ledger run owner now false) s → s.maxConcurrentRuns ≤ 0 →
      ∀ calls : List (Table Run × Option String), (calls.length : Int) = n + 1 →
        (checkAll s owner now calls ledger).map Verdict.allowed =
          List.replicate n.toNat true ++ [false]

/-! ### The verdict and its reason -/

section Verdict

variable {stats : UsageStats} {s : QuotaSettings}

theorem quotaChecks_activeRuns (active : ℕ) :
    quotaChecks { stats with activeRuns := active } s = quotaChecks stats s := rfl

theorem reason_of_mem_quotaChecks {c : QuotaCheck} (h : c ∈ quotaChecks stats s) :
    c.reason ≠ .concurrent := by
  intro hreason
  simp only [quotaChecks, List.mem_cons, List.not_mem_nil, or_false] at h
  rcases h with rfl | rfl | rfl | rfl | rfl <;> cases hreason

/-- A verdict for a reason other than a run in progress is the one of the first check that is
exceeded. -/
theorem evaluate_reason_iff {checkActive : Bool} {reason : QuotaReason} :
    ((evaluate stats s checkActive).allowed = false ∧
        (evaluate stats s checkActive).reason = some reason ∧ reason ≠ .concurrent) ↔
      ∃ c, (quotaChecks stats s).find? QuotaCheck.exceeded = some c ∧ c.reason = reason := by
  unfold evaluate
  split
  · next c hfind =>
    rw [hfind]
    constructor
    · rintro ⟨-, hreason, -⟩
      exact ⟨c, rfl, Option.some.inj hreason⟩
    · rintro ⟨c', hc', rfl⟩
      obtain rfl := Option.some.inj hc'
      exact ⟨rfl, rfl, reason_of_mem_quotaChecks (List.mem_of_find?_eq_some hfind)⟩
  · next hfind =>
    rw [hfind]
    refine iff_of_false ?_ (by rintro ⟨c, hc, -⟩; cases hc)
    rintro ⟨hallowed, hreason, hne⟩
    split at hallowed
    · next hactive =>
      rw [if_pos hactive] at hreason
      exact hne (Option.some.inj hreason).symm
    · cases hallowed

theorem reason_of_not_allowed (h : (evaluate stats s false).allowed = false) :
    ∃ reason, (evaluate stats s false).reason = some reason ∧ reason ≠ .concurrent := by
  cases hfind : (quotaChecks stats s).find? QuotaCheck.exceeded with
  | none => simp [evaluate, hfind] at h
  | some c =>
    obtain ⟨-, hreason, hne⟩ := evaluate_reason_iff.mpr ⟨c, hfind, rfl⟩
    exact ⟨c.reason, hreason, hne⟩

end Verdict

/-! ### A run that is counted -/

section Charge

variable (ledger : List LedgerRow) (run : Table Run) (owner : String) (runId : Option String)
  (now : Timestamp)

theorem ownRows_append_chargeRow {window : Timestamp} (hwindow : 0 < window) :
    ownRows (ledger ++ [chargeRow owner runId now]) owner now window =
      ownRows ledger owner now window ++ [chargeRow owner runId now] := by
  have hin : now - window < now := Int.sub_lt_self now hwindow
  simp [ownRows, List.filter_append, chargeRow, hin]

theorem runsSince_append_chargeRow {window : Timestamp} (hwindow : 0 < window) :
    runsSince (ledger ++ [chargeRow owner runId now]) owner now window =
      runsSince ledger owner now window + 1 := by
  rw [runsSince, ownRows_append_chargeRow ledger owner runId now hwindow]
  simp [runsSince, ofKind, List.filter_append, chargeRow]

theorem costOf_append_chargeRow (rows : List LedgerRow) :
    costOf (rows ++ [chargeRow owner runId now]) = costOf rows := by
  simp [costOf, chargeRow]

/-- The aggregates after a run is counted: one more run in each window, at the same costs. -/
theorem loadStats_append_chargeRow (active : Bool) :
    let before := loadStats ledger run owner now active
    let after := loadStats (ledger ++ [chargeRow owner runId now]) run owner now active
    after.runsDay = before.runsDay + 1 ∧ after.runsWeek = before.runsWeek + 1 ∧
      after.usdDay = before.usdDay ∧ after.usdWeek = before.usdWeek ∧
        after.globalUsdDay = before.globalUsdDay := by
  have hday : (0 : Timestamp) < .day := by decide
  have hweek : (0 : Timestamp) < .week := by decide
  have hllm : ofKind .llm (ledger ++ [chargeRow owner runId now]) = ofKind .llm ledger := by
    simp [ofKind, List.filter_append, chargeRow]
  refine ⟨runsSince_append_chargeRow ledger owner runId now hday,
    runsSince_append_chargeRow ledger owner runId now hweek, ?_, ?_, ?_⟩
  · change costOf (ownRows _ _ _ _) = costOf (ownRows _ _ _ _)
    rw [ownRows_append_chargeRow ledger owner runId now hday, costOf_append_chargeRow]
  · change costOf (ownRows _ _ _ _) = costOf (ownRows _ _ _ _)
    rw [ownRows_append_chargeRow ledger owner runId now hweek, costOf_append_chargeRow]
  · change costOf (List.filter _ (ofKind _ _)) = costOf (List.filter _ (ofKind _ _))
    rw [hllm]

end Charge

/-! ### The runs that are left -/

/-- The limits on runs leave room for a number of runs. -/
def Room (stats : UsageStats) (s : QuotaSettings) (n : Int) : Prop :=
  (0 < s.runsPerDay → stats.runsDay + n ≤ s.runsPerDay) ∧
    (0 < s.runsPerWeek → stats.runsWeek + n ≤ s.runsPerWeek)

/-- What `runs_left_today` tells: there is room for so many runs, or for none, and for no
more. -/
theorem runsLeftToday_eq_some {stats : UsageStats} {s : QuotaSettings} {n : Int}
    (h : runsLeftToday stats s = some n) :
    0 ≤ n ∧ (0 < n → Room stats s n) ∧ ¬ Room stats s (n + 1) := by
  unfold runsLeftToday at h
  obtain ⟨m, hm, rfl⟩ := Option.map_eq_some_iff.mp h
  by_cases hday : 0 < s.runsPerDay <;> by_cases hweek : 0 < s.runsPerWeek <;>
    simp only [List.filter_cons, List.filter_nil, hday, hweek, decide_true, decide_false, if_true,
      List.map_cons, List.map_nil, List.min?_cons, List.min?_nil, Option.elim, Bool.false_eq_true,
      if_false, Option.some.injEq, reduceCtorEq] at hm <;>
    subst hm <;> simp only [Room] <;> omega

/-- With costs and runs in flight out of the way, the gate admits a run exactly if there is room
for one. -/
theorem evaluate_allowed_iff_room {stats : UsageStats} {s : QuotaSettings}
    (hspend : SpendWithin stats s) (hactive : s.maxConcurrentRuns ≤ 0) (checkActive : Bool) :
    (evaluate stats s checkActive).allowed = true ↔ Room stats s 1 := by
  have hcheck : ∀ limit : Int, ∀ used : ℕ, ∀ reason oldest window,
      (⟨reason, limit, used, oldest, window⟩ : QuotaCheck).exceeded = false ↔
        (0 < limit → (used : Int) + 1 ≤ limit) := by
    intro limit used reason oldest window
    simp only [QuotaCheck.exceeded, Bool.and_eq_false_iff, decide_eq_false_iff_not, not_lt, not_le]
    constructor
    · rintro (hunset | hlt) hpos
      · exact absurd (by exact_mod_cast hpos) (not_lt.mpr hunset)
      · have hlt' : (used : Int) < limit := by exact_mod_cast hlt
        omega
    · intro h
      by_cases hpos : 0 < limit
      · exact .inr (by exact_mod_cast Int.lt_of_add_one_le (h hpos))
      · exact .inl (by exact_mod_cast not_lt.mp hpos)
  rw [evaluate_allowed_iff]
  constructor
  · rintro ⟨hall, -⟩
    exact ⟨(hcheck _ _ _ _ _).mp (hall
        ⟨.runsDay, s.runsPerDay, stats.runsDay, stats.runsDayOldest, .day⟩ (by simp [quotaChecks])),
      (hcheck _ _ _ _ _).mp (hall
        ⟨.runsWeek, s.runsPerWeek, stats.runsWeek, stats.runsWeekOldest, .week⟩
        (by simp [quotaChecks]))⟩
  · rintro ⟨hday, hweek⟩
    refine ⟨fun c hc => ?_, fun _ hpos => absurd hpos (by omega)⟩
    by_cases hreason : c.reason.ofSpend = true
    · exact hspend c hc hreason
    · simp only [quotaChecks, List.mem_cons, List.not_mem_nil, or_false] at hc
      rcases hc with rfl | rfl | rfl | rfl | rfl
      · exact absurd rfl hreason
      · exact (hcheck _ _ _ _ _).mpr hday
      · exact (hcheck _ _ _ _ _).mpr hweek
      · exact absurd rfl hreason
      · exact absurd rfl hreason

section Calls

variable {s : QuotaSettings} {owner : String} {now : Timestamp}

/-- The costs after a run is counted, and with other runs in flight. -/
theorem SpendWithin.congr {stats stats' : UsageStats} (h : SpendWithin stats s)
    (hday : stats'.usdDay = stats.usdDay) (hweek : stats'.usdWeek = stats.usdWeek)
    (hglobal : stats'.globalUsdDay = stats.globalUsdDay) : SpendWithin stats' s := by
  intro c hc hreason
  -- whether a limit is exceeded does not depend on the oldest row
  have hfrom : ∀ reason limit used oldest oldest' window,
      (⟨reason, limit, used, oldest, window⟩ : QuotaCheck).exceeded = false →
        (⟨reason, limit, used, oldest', window⟩ : QuotaCheck).exceeded = false :=
    fun _ _ _ _ _ _ h => h
  simp only [quotaChecks, List.mem_cons, List.not_mem_nil, or_false] at hc
  rcases hc with rfl | rfl | rfl | rfl | rfl
  · rw [hglobal]
    exact hfrom _ _ _ stats.globalUsdDayOldest _ _ (h _ (by simp [quotaChecks]) rfl)
  · cases hreason
  · cases hreason
  · rw [hday]
    exact hfrom _ _ _ stats.usdDayOldest _ _ (h _ (by simp [quotaChecks]) rfl)
  · rw [hweek]
    exact hfrom _ _ _ stats.usdWeekOldest _ _ (h _ (by simp [quotaChecks]) rfl)

theorem Room.mono {stats : UsageStats} {m n : Int} (h : Room stats s n) (hle : m ≤ n) :
    Room stats s m := by
  refine ⟨fun hpos => ?_, fun hpos => ?_⟩
  · have := h.1 hpos
    omega
  · have := h.2 hpos
    omega

/-- **The gate admits as many runs as there is room for, and no more.** -/
theorem checkAll_of_room (henabled : s.enabled = true) (hactive : s.maxConcurrentRuns ≤ 0)
    {n : ℕ} {calls : List (Table Run × Option String)} (hlen : calls.length = n + 1) :
    ∀ {ledger : List LedgerRow} {run : Table Run},
      SpendWithin (loadStats ledger run owner now false) s →
        (0 < n → Room (loadStats ledger run owner now false) s n) →
          ¬ Room (loadStats ledger run owner now false) s (n + 1) →
            (checkAll s owner now calls ledger).map Verdict.allowed =
              List.replicate n true ++ [false] := by
  induction calls generalizing n with
  | nil => cases hlen
  | cons call calls ih =>
    intro ledger run hspend hroom hfull
    obtain ⟨found, runId⟩ := call
    -- the runs that a call finds do not count
    have hallowed : (checkAndRecordRun s ledger found owner runId now).1.allowed = true ↔
        Room (loadStats ledger run owner now false) s 1 := by
      have hfound : SpendWithin (loadStats ledger found owner now (0 < s.maxConcurrentRuns)) s :=
        hspend.congr rfl rfl rfl
      rw [checkAndRecordRun, if_pos henabled]
      exact evaluate_allowed_iff_room hfound hactive true
    rw [checkAll, List.map_cons]
    cases n with
    | zero =>
      obtain rfl : calls = [] := List.length_eq_zero_iff.mp (by simpa using hlen)
      have hrefused : (checkAndRecordRun s ledger found owner runId now).1.allowed = false :=
        Bool.eq_false_iff.mpr fun h => hfull (by simpa using hallowed.mp h)
      rw [hrefused]
      rfl
    | succ n =>
      have hroom' := hroom n.succ_pos
      have hadmitted := hallowed.mpr (hroom'.mono (by push_cast; omega))
      have hledger : (checkAndRecordRun s ledger found owner runId now).2 =
          ledger ++ [chargeRow owner runId now] := by
        simp only [checkAndRecordRun, if_pos henabled] at hadmitted ⊢
        rw [if_pos hadmitted]
      obtain ⟨hday, hweek, husdDay, husdWeek, hglobal⟩ :=
        loadStats_append_chargeRow ledger run owner runId now false
      have hshift : ∀ m : Int,
          Room (loadStats (ledger ++ [chargeRow owner runId now]) run owner now false) s m ↔
            Room (loadStats ledger run owner now false) s (m + 1) := by
        intro m
        simp only [Room, hday, hweek]
        push_cast
        constructor
        · rintro ⟨h₁, h₂⟩
          exact ⟨fun hpos => by have := h₁ hpos; omega, fun hpos => by have := h₂ hpos; omega⟩
        · rintro ⟨h₁, h₂⟩
          exact ⟨fun hpos => by have := h₁ hpos; omega, fun hpos => by have := h₂ hpos; omega⟩
      rw [hadmitted, hledger, List.replicate_succ, List.cons_append]
      congr 1
      refine @ih n (by simpa using hlen) _ run (hspend.congr husdDay husdWeek hglobal)
        (fun _ => (hshift n).mpr (by exact_mod_cast hroom')) fun h => hfull ?_
      exact_mod_cast (hshift (n + 1)).mp h

end Calls

/-- **The report agrees with the gate.** -/
theorem agrees_usageReport (s : QuotaSettings) (ledger : List LedgerRow) (run : Table Run)
    (owner : String) (now : Timestamp) : ReportAgrees s ledger run owner now := by
  by_cases henabled : s.enabled = true
  · refine ⟨fun runId reason => ?_, fun report h hblocked => ?_, fun report h n hn hspend hactive => ?_⟩
    · simp only [checkAndRecordRun, if_pos henabled]
      rw [evaluate_reason_iff]
      have hchecks : quotaChecks (loadStats ledger run owner now (0 < s.maxConcurrentRuns)) s =
          quotaChecks (loadStats ledger run owner now false) s := quotaChecks_activeRuns _
      rw [hchecks, ← @evaluate_reason_iff _ _ false]
      constructor
      · rintro ⟨report, h, hblocked, hreason⟩
        rw [usageReport, if_pos henabled] at h
        cases h
        have hnot : (evaluate (loadStats ledger run owner now false) s false).allowed = false := by
          simpa using hblocked
        obtain ⟨reason', hreason', hne⟩ := reason_of_not_allowed hnot
        refine ⟨hnot, hreason, fun heq => hne ?_⟩
        rw [← heq]
        exact Option.some.inj (hreason'.symm.trans hreason)
      · rintro ⟨hnot, hreason, -⟩
        have h : ∃ report, usageReport s ledger run owner now = some report ∧
            report.blocked = true ∧ report.reason = some reason := by
          rw [usageReport, if_pos henabled]
          exact ⟨_, rfl, by simp [hnot], hreason⟩
        exact h
    · rw [usageReport, if_pos henabled] at h
      cases h
      obtain ⟨reason, hreason, -⟩ := reason_of_not_allowed (by simpa using hblocked)
      rw [hreason]
      rfl
    · rw [usageReport, if_pos henabled] at h
      cases h
      intro calls hlen
      obtain ⟨hnonneg, hroom, hfull⟩ := runsLeftToday_eq_some hn
      lift n to ℕ using hnonneg
      refine checkAll_of_room henabled hactive (by omega) hspend (fun hpos => ?_) hfull
      exact hroom (by exact_mod_cast hpos)
  · refine ⟨fun runId reason => ?_, fun report h => ?_, fun report h => ?_⟩
    · simp [usageReport, checkAndRecordRun, henabled]
    · rw [usageReport, if_neg henabled] at h
      cases h
    · rw [usageReport, if_neg henabled] at h
      cases h

end NextRole
