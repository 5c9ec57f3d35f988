import NextRole.Schema
import Mathlib.Algebra.Order.Ring.Rat
import Mathlib.Data.Rat.Floor

/-!
# The usage ledger

`agents/usage.py`: the limits of the deployment, the aggregates of an owner over the
rows of the ledger, and the verdict on a new run.  Costs are rational numbers.

## Main definitions

* `QuotaSettings`, `LedgerRow`, `UsageStats`, `Verdict`.
* `ownStats`, `globalStats`, `activeRuns` — the three queries.
* `evaluate` — the limits applied to the aggregates.
* `checkAndRecordRun` — the gate of a new run, run alone.

## Main results

* `evaluate_allowed_iff` — what a verdict in favour says about every limit.
-/

namespace NextRole

/-! ### Intervals and the text of a time -/

def Timestamp.hour : Timestamp := 3600 * 1000000
def Timestamp.day : Timestamp := 24 * hour
def Timestamp.week : Timestamp := 7 * day

/-- Two digits of a number. -/
def twoDigits (n : Int) : String := (if n < 10 then "0" else "") ++ toString n

/-- `%H:%M` in UTC. -/
def Timestamp.clock (t : Timestamp) : String :=
  let minutes := t % day / (60 * 1000000)
  twoDigits (minutes / 60) ++ ":" ++ twoDigits (minutes % 60)

/-- Month and day of the month of a day since the epoch, counted in years that begin
in March. -/
def monthDay (days : Int) : Int × Int :=
  let doe := (days + 719468) % 146097
  let yoe := (doe - doe / 1460 + doe / 36524 - doe / 146096) / 365
  let doy := doe - (365 * yoe + yoe / 4 - yoe / 100)
  let mp := (5 * doy + 2) / 153
  (if mp < 10 then mp + 3 else mp - 9, doy - (153 * mp + 2) / 5 + 1)

/-- The abbreviations of the months. -/
def monthNames : List String :=
  ["Jan", "Feb", "Mar", "Apr", "May", "Jun", "Jul", "Aug", "Sep", "Oct", "Nov", "Dec"]

/-- `%b %d` in UTC. -/
def Timestamp.date (t : Timestamp) : String :=
  let md := monthDay (t / day)
  monthNames.getD (md.1 - 1).toNat "" ++ " " ++ twoDigits md.2

example : (Timestamp.date 951782400000000, Timestamp.clock 951784260000000) =
    ("Feb 29", "00:31") := by decide +kernel

/-! ### Settings and rows -/

/-- `QuotaSettings`; a limit of zero or less is not set. -/
structure QuotaSettings where
  runsPerDay : Int := 0
  runsPerWeek : Int := 0
  usdPerDay : ℚ := 0
  usdPerWeek : ℚ := 0
  globalUsdPerDay : ℚ := 0
  maxConcurrentRuns : Int := 0

/-- Whether any limit is set. -/
def QuotaSettings.enabled (s : QuotaSettings) : Bool :=
  0 < s.runsPerDay || 0 < s.runsPerWeek || 0 < s.usdPerDay || 0 < s.usdPerWeek ||
    0 < s.globalUsdPerDay || 0 < s.maxConcurrentRuns

/-- The values of `usage_ledger.kind`. -/
inductive LedgerKind
  | run | llm
  deriving Repr, DecidableEq

/-- What the queries read of a row of `usage_ledger`. -/
structure LedgerRow where
  owner : String
  kind : LedgerKind
  runId : Option String := none
  costUsd : ℚ := 0
  createdAt : Timestamp
  deriving DecidableEq

/-! ### The aggregates -/

structure UsageStats where
  runsDay : ℕ := 0
  runsWeek : ℕ := 0
  usdDay : ℚ := 0
  usdWeek : ℚ := 0
  globalUsdDay : ℚ := 0
  runsDayOldest : Option Timestamp := none
  runsWeekOldest : Option Timestamp := none
  usdDayOldest : Option Timestamp := none
  usdWeekOldest : Option Timestamp := none
  globalUsdDayOldest : Option Timestamp := none
  activeRuns : ℕ := 0

/-- The rows of an owner that are younger than an interval. -/
def ownRows (ledger : List LedgerRow) (owner : String) (now window : Timestamp) : List LedgerRow :=
  ledger.filter fun row => row.owner = owner && now - window < row.createdAt

/-- The rows of a kind. -/
def ofKind (kind : LedgerKind) (rows : List LedgerRow) : List LedgerRow :=
  rows.filter fun row => row.kind = kind

/-- `coalesce(sum(cost_usd), 0)`. -/
def costOf (rows : List LedgerRow) : ℚ := (rows.map LedgerRow.costUsd).sum

/-- `min(created_at)`. -/
def oldestOf (rows : List LedgerRow) : Option Timestamp := (rows.map LedgerRow.createdAt).min?

/-- `_STATS_SQL`. -/
def ownStats (ledger : List LedgerRow) (owner : String) (now : Timestamp) : UsageStats :=
  let inDay := ownRows ledger owner now .day
  let inWeek := ownRows ledger owner now .week
  { runsDay := (ofKind .run inDay).length
    runsWeek := (ofKind .run inWeek).length
    usdDay := costOf inDay
    usdWeek := costOf inWeek
    runsDayOldest := oldestOf (ofKind .run inDay)
    runsWeekOldest := oldestOf (ofKind .run inWeek)
    usdDayOldest := oldestOf (ofKind .llm inDay)
    usdWeekOldest := oldestOf (ofKind .llm inWeek) }

/-- `_GLOBAL_SQL`. -/
def globalStats (ledger : List LedgerRow) (now : Timestamp) (stats : UsageStats) : UsageStats :=
  let rows := (ofKind .llm ledger).filter fun row => now - .day < row.createdAt
  { stats with globalUsdDay := costOf rows, globalUsdDayOldest := oldestOf rows }

/-- Whether `_ACTIVE_SQL` counts a run. -/
def Run.activeFor (owner : String) (now : Timestamp) (r : Run) : Bool :=
  r.status.inflight && r.metadata.text? "owner" = some owner && now - .hour < r.createdAt

/-- `_ACTIVE_SQL`. -/
def activeRuns (run : Table Run) (owner : String) (now : Timestamp) : ℕ :=
  (run.select (Run.activeFor owner now)).length

/-- `_load_stats`, with all queries on one state of the tables. -/
def loadStats (ledger : List LedgerRow) (run : Table Run) (owner : String) (now : Timestamp)
    (active : Bool) : UsageStats :=
  { globalStats ledger now (ownStats ledger owner now) with
    activeRuns := if active then activeRuns run owner now else 0 }

/-! ### The verdict -/

inductive QuotaReason
  | globalUsdDay | runsDay | runsWeek | usdDay | usdWeek | concurrent
  deriving Repr, DecidableEq

structure Verdict where
  allowed : Bool
  reason : Option QuotaReason := none
  message : Option String := none
  resetsAt : Option Timestamp := none
  deriving Repr, DecidableEq

/-- `_REASON_MESSAGES`, with the limit in its place. -/
def QuotaReason.message (limit : String) : QuotaReason → String
  | runsDay => "You've used all " ++ limit ++ " runs for the last 24 hours."
  | runsWeek => "You've used all " ++ limit ++ " runs for the last 7 days."
  | usdDay => "You've used your usage allowance for the last 24 hours."
  | usdWeek => "You've used your usage allowance for the last 7 days."
  | globalUsdDay => "NextRole has reached its shared daily capacity."
  | concurrent => "Another run is still in progress. Wait for it to finish, then try again."

/-- `_blocked`. -/
def blocked (reason : QuotaReason) (limit : ℚ) (oldest : Option Timestamp) (window : Timestamp) :
    Verdict :=
  let resetsAt := oldest.map (· + window)
  let message := reason.message (toString ⌊limit⌋)
  { allowed := false
    reason := some reason
    message := some (match resetsAt with
      | some t => message ++ " You can start a new run after " ++ t.clock ++ " UTC on " ++ t.date ++ "."
      | none => message)
    resetsAt }

/-- One of the checks of `evaluate`. -/
structure QuotaCheck where
  reason : QuotaReason
  limit : ℚ
  used : ℚ
  oldest : Option Timestamp
  window : Timestamp

/-- The checks, in their order. -/
def quotaChecks (stats : UsageStats) (s : QuotaSettings) : List QuotaCheck :=
  [⟨.globalUsdDay, s.globalUsdPerDay, stats.globalUsdDay, stats.globalUsdDayOldest, .day⟩,
    ⟨.runsDay, s.runsPerDay, stats.runsDay, stats.runsDayOldest, .day⟩,
    ⟨.runsWeek, s.runsPerWeek, stats.runsWeek, stats.runsWeekOldest, .week⟩,
    ⟨.usdDay, s.usdPerDay, stats.usdDay, stats.usdDayOldest, .day⟩,
    ⟨.usdWeek, s.usdPerWeek, stats.usdWeek, stats.usdWeekOldest, .week⟩]

/-- A limit that is set and used up. -/
def QuotaCheck.exceeded (c : QuotaCheck) : Bool := 0 < c.limit && c.limit ≤ c.used

/-- `evaluate`. -/
def evaluate (stats : UsageStats) (s : QuotaSettings) (checkActive : Bool) : Verdict :=
  match (quotaChecks stats s).find? QuotaCheck.exceeded with
  | some c => blocked c.reason c.limit c.oldest c.window
  | none =>
    if checkActive && 0 < s.maxConcurrentRuns && s.maxConcurrentRuns ≤ stats.activeRuns then
      { allowed := false, reason := some .concurrent,
        message := some (QuotaReason.message "" .concurrent) }
    else { allowed := true }

/-- A verdict in favour: no limit is used up. -/
theorem evaluate_allowed_iff {stats : UsageStats} {s : QuotaSettings} {checkActive : Bool} :
    (evaluate stats s checkActive).allowed = true ↔
      (∀ c ∈ quotaChecks stats s, c.exceeded = false) ∧
        (checkActive = true → 0 < s.maxConcurrentRuns → (stats.activeRuns : Int) < s.maxConcurrentRuns) := by
  unfold evaluate
  split
  · next c hfind =>
    -- the first check that is exceeded blocks
    have hmem := List.mem_of_find?_eq_some hfind
    have hexc := List.find?_some hfind
    refine iff_of_false (by simp [blocked]) fun h => ?_
    rw [h.1 c hmem] at hexc
    cases hexc
  · next hfind =>
    have hnone : ∀ c ∈ quotaChecks stats s, c.exceeded = false := by
      intro c hc
      simpa using List.find?_eq_none.mp hfind c hc
    split
    · next hactive =>
      simp only [Bool.and_eq_true, decide_eq_true_eq] at hactive
      refine iff_of_false (by simp) fun h => ?_
      have := h.2 hactive.1.1 hactive.1.2
      omega
    · next hactive =>
      simp only [Bool.and_eq_true, decide_eq_true_eq] at hactive
      refine iff_of_true rfl ⟨hnone, fun hcheck hpos => ?_⟩
      by_contra hle
      exact hactive ⟨⟨hcheck, hpos⟩, by omega⟩

theorem runsDay_lt_of_allowed {stats : UsageStats} {s : QuotaSettings} {checkActive : Bool}
    (h : (evaluate stats s checkActive).allowed = true) (hpos : 0 < s.runsPerDay) :
    (stats.runsDay : Int) < s.runsPerDay := by
  have hcheck := (evaluate_allowed_iff.mp h).1
    ⟨.runsDay, s.runsPerDay, stats.runsDay, stats.runsDayOldest, .day⟩ (by simp [quotaChecks])
  simp only [QuotaCheck.exceeded, Bool.and_eq_false_iff, decide_eq_false_iff_not] at hcheck
  rcases hcheck with hcheck | hcheck
  · exact absurd (by exact_mod_cast hpos) hcheck
  · rw [not_le] at hcheck
    exact_mod_cast hcheck

theorem runsWeek_lt_of_allowed {stats : UsageStats} {s : QuotaSettings} {checkActive : Bool}
    (h : (evaluate stats s checkActive).allowed = true) (hpos : 0 < s.runsPerWeek) :
    (stats.runsWeek : Int) < s.runsPerWeek := by
  have hcheck := (evaluate_allowed_iff.mp h).1
    ⟨.runsWeek, s.runsPerWeek, stats.runsWeek, stats.runsWeekOldest, .week⟩ (by simp [quotaChecks])
  simp only [QuotaCheck.exceeded, Bool.and_eq_false_iff, decide_eq_false_iff_not] at hcheck
  rcases hcheck with hcheck | hcheck
  · exact absurd (by exact_mod_cast hpos) hcheck
  · rw [not_le] at hcheck
    exact_mod_cast hcheck

/-! ### The gate -/

/-- The row that counts a run. -/
def chargeRow (owner : String) (runId : Option String) (now : Timestamp) : LedgerRow where
  owner := owner
  kind := .run
  runId := runId
  createdAt := now

/-- The number of runs of an owner within an interval. -/
def runsSince (ledger : List LedgerRow) (owner : String) (now window : Timestamp) : ℕ :=
  (ofKind .run (ownRows ledger owner now window)).length

@[simp] theorem runsDay_ownStats (ledger : List LedgerRow) (owner : String) (now : Timestamp) :
    (ownStats ledger owner now).runsDay = runsSince ledger owner now .day := rfl

@[simp] theorem runsWeek_ownStats (ledger : List LedgerRow) (owner : String) (now : Timestamp) :
    (ownStats ledger owner now).runsWeek = runsSince ledger owner now .week := rfl

@[simp] theorem runsDay_globalStats (ledger : List LedgerRow) (now : Timestamp) (stats : UsageStats) :
    (globalStats ledger now stats).runsDay = stats.runsDay := rfl

@[simp] theorem runsWeek_globalStats (ledger : List LedgerRow) (now : Timestamp) (stats : UsageStats) :
    (globalStats ledger now stats).runsWeek = stats.runsWeek := rfl

/-- A new row that is not one of the owner's runs is not counted. -/
theorem runsSince_append_of_ne {ledger : List LedgerRow} {row : LedgerRow} {owner : String}
    (h : row.owner ≠ owner ∨ row.kind ≠ .run) (now window : Timestamp) :
    runsSince (ledger ++ [row]) owner now window = runsSince ledger owner now window := by
  have hnil : ofKind .run (ownRows [row] owner now window) = [] := by
    rw [ofKind, ownRows, List.filter_filter, List.filter_eq_nil_iff]
    intro a ha
    obtain rfl := List.mem_singleton.mp ha
    rcases h with howner | hkind
    · simp [howner]
    · simp [hkind]
  rw [ofKind, ownRows] at hnil
  rw [runsSince, ofKind, ownRows, List.filter_append, List.filter_append, hnil, List.append_nil]
  rfl

/-- `check_and_record_run`, when nothing happens next to it: the verdict and the ledger. -/
def checkAndRecordRun (s : QuotaSettings) (ledger : List LedgerRow) (run : Table Run)
    (owner : String) (runId : Option String) (now : Timestamp) : Verdict × List LedgerRow :=
  if s.enabled then
    let verdict := evaluate (loadStats ledger run owner now (0 < s.maxConcurrentRuns)) s true
    (verdict, if verdict.allowed then ledger ++ [chargeRow owner runId now] else ledger)
  else ({ allowed := true }, ledger)

end NextRole
