import Mathlib.Order.Bounds.Basic
import NextRole.Lib.Transition
import NextRole.Api.Crons
import NextRole.Rpc

/-!
# The next run of a cron

`next_cron_date` reads a schedule in the timezone of its cron, and the Crons service does
not use it: `Create` reads every schedule in UTC, and `Patch` leaves the date as it is
when it changes the schedule or the timezone that the date should follow.

## Main definitions

* `FirstMatch` — the first instant after another that matches a schedule in a zone.
* `FollowsSchedule` — the date of a cron is the first match of its schedule.
* `CronCall` — the calls that write crons, and `CronCall.serve` what they do.
* `DatesFollow` — every cron that a call of a run returns follows its schedule.

## Main results

* `followsSchedule_iff_nextCronDate` — what `FollowsSchedule` says of `next_cron_date`.
* `followsSchedule_call` — when the cron that one call returns follows its schedule.
* `datesFollow_iff` — **the crons of a run follow their schedules exactly when each zone
  agrees with UTC on creation and each patch finds the date already right**.
* `not_datesFollow` — a cron in the zone of Tokyo, and one that is moved there.
-/

namespace NextRole

/-! ### Schedules -/

variable (Matches : String → String → Timestamp → Prop)

/-- The first instant after `now` that matches the schedule in the zone. -/
def FirstMatch (schedule zone : String) (now date : Timestamp) : Prop :=
  IsLeast {t | now < t ∧ Matches schedule zone t} date

/-- The date of a cron is the first instant after `now` that matches its schedule in its
timezone. -/
def FollowsSchedule (now : Timestamp) (c : Cron) : Prop :=
  ∃ date, c.nextRunDate = some date ∧ FirstMatch Matches c.schedule (cronZone c.timezone) now date

variable (getNext : String → String → Timestamp → Option Timestamp)

/-- `get_next` of a croniter returns the first match after its base, in the zone of its
base. -/
def Croniter : Prop :=
  ∀ schedule zone base date, getNext schedule zone base = some date ↔
    FirstMatch Matches schedule zone base date

/-! ### Calls -/

/-- A call that writes a cron, with the time at which it is served. -/
inductive CronCall
  | create (request : CreateCronRequest) (freshId : Uuid) (now : Timestamp)
  | patch (request : PatchCronRequest) (now : Timestamp)
  | setNextRunDate (cronId : Uuid) (date : Option Timestamp) (now : Timestamp)

namespace CronCall

/-- The time at which a call is served. -/
def now : CronCall → Timestamp
  | create _ _ now => now
  | patch _ now => now
  | setNextRunDate _ _ now => now

/-- The cron that a call returns and the database after it.  A call that fails returns
none and changes nothing. -/
def serve (d : Database) : CronCall → Option Cron × Database
  | create request freshId now =>
    match createCron (computeNextRunDate getNext) request freshId now d with
    | .ok (c, d') => (some c, d')
    | .error _ => (none, d)
  | patch request _ =>
    match patchCron request d with
    | some (c, d') => (some c, d')
    | none => (none, d)
  | setNextRunDate cronId date _ =>
    (none, { d with cron := NextRole.setNextRunDate d.cron cronId date })

/-- The database after a call. -/
def after (d : Database) (call : CronCall) : Database := (call.serve getNext d).2

/-- What makes the date right: a creation whose schedule has its first match in UTC where
it has it in the timezone of the cron, and a patch of a cron whose date is already the
first match of the schedule and the timezone that the cron will have. -/
def Dated (d : Database) : CronCall → Prop
  | create request freshId now =>
    request.Admitted freshId d → ∀ date, FirstMatch Matches request.schedule "UTC" now date →
      FirstMatch Matches request.schedule (cronZone request.timezone) now date
  | patch request now =>
    ∀ c, d.cron.get? request.cronId = some c → admits request.filters c.metadata = true →
      ∃ date, c.nextRunDate = some date ∧
        FirstMatch Matches (request.schedule.getD c.schedule)
          (cronZone (request.timezone.or c.timezone)) now date
  | setNextRunDate _ _ _ => True

end CronCall

/-- Whenever a call of the run returns a cron, the cron follows its schedule. -/
def DatesFollow (d : Database) (calls : List CronCall) : Prop :=
  ∀ pre call, pre ++ [call] <+: calls → ∀ c,
    (call.serve getNext (pre.foldl (CronCall.after getNext) d)).1 = some c →
      FollowsSchedule Matches call.now c

variable {Matches getNext}

/-- Then its date is what `next_cron_date` computes. -/
theorem followsSchedule_iff_nextCronDate (hcroniter : Croniter Matches getNext) {now : Timestamp}
    {c : Cron} :
    FollowsSchedule Matches now c ↔
      ∃ date, c.nextRunDate = some date ∧ nextCronDate getNext c.schedule now c.timezone = some date :=
  exists_congr fun date => and_congr_right fun _ => (hcroniter _ _ _ date).symm

theorem dated_create_of_utc {request : CreateCronRequest} (h : cronZone request.timezone = "UTC")
    (freshId : Uuid) (now : Timestamp) (d : Database) :
    CronCall.Dated Matches d (.create request freshId now) := by
  intro _ date hdate
  rw [h]
  exact hdate

/-- **When the cron that one call returns follows its schedule.** -/
theorem followsSchedule_call (hcroniter : Croniter Matches getNext) (d : Database) (call : CronCall) :
    (∀ c, (call.serve getNext d).1 = some c → FollowsSchedule Matches call.now c) ↔
      call.Dated Matches d := by
  cases call with
  | create request freshId now =>
    constructor
    · intro h hadmitted date hdate
      obtain ⟨assistantId, hassistant⟩ := Option.isSome_iff_exists.mp hadmitted.2.1
      have hnext : computeNextRunDate getNext request.schedule now = some date :=
        (hcroniter _ _ _ date).mpr hdate
      have hok := createCron_eq_ok.mpr ⟨hadmitted, date, assistantId, hnext, hassistant, rfl, rfl⟩
      have hserve : ((CronCall.create request freshId now).serve getNext d).1 =
          some (request.row (request.cronId.getD freshId) assistantId date) := by
        simp only [CronCall.serve, hok]
      obtain ⟨date', hrow, hfirst⟩ := h _ hserve
      cases hrow
      exact hfirst
    · intro h c hc
      simp only [CronCall.serve] at hc
      split at hc
      · next c' d' hok =>
        cases hc
        obtain ⟨hadmitted, date, assistantId, hnext, -, rfl, -⟩ := createCron_eq_ok.mp hok
        exact ⟨date, rfl, h hadmitted date ((hcroniter _ _ _ date).mp hnext)⟩
      · cases hc
  | patch request now =>
    constructor
    · intro h c hget hadmits
      have hok := patchCron_eq_some.mpr ⟨c, hget, hadmits, rfl, rfl⟩
      have hserve : ((CronCall.patch request now).serve getNext d).1 = some (request.update c) := by
        simp only [CronCall.serve, hok]
      exact h _ hserve
    · intro h c' hc'
      simp only [CronCall.serve] at hc'
      split at hc'
      · next row d' hok =>
        cases hc'
        obtain ⟨c, hget, hadmits, rfl, -⟩ := patchCron_eq_some.mp hok
        exact h c hget hadmits
      · cases hc'
  | setNextRunDate cronId date now =>
    exact iff_of_true (fun c hc => by cases hc) trivial

/-- **The crons of a run follow their schedules exactly when** each zone agrees with UTC on
creation, and each patch finds the date already right. -/
theorem datesFollow_iff (hcroniter : Croniter Matches getNext) (d : Database) (calls : List CronCall) :
    DatesFollow Matches getNext d calls ↔
      ∀ pre call, pre ++ [call] <+: calls →
        call.Dated Matches (pre.foldl (CronCall.after getNext) d) :=
  forall_congr' fun pre => forall_congr' fun call =>
    imp_congr_right fun _ => followsSchedule_call hcroniter (pre.foldl (CronCall.after getNext) d) call

/-! ### Nine o'clock every day -/

/-- How far the clocks of a zone are ahead of UTC. -/
def zoneOffset (zone : String) : Timestamp := if zone = "Asia/Tokyo" then 32400000000 else 0

/-- The instants of the schedule `0 9 * * *`. -/
def NineOClock (schedule zone : String) (t : Timestamp) : Prop :=
  schedule = "0 9 * * *" ∧ (t + zoneOffset zone) % 86400000000 = 32400000000

/-- The next of them. -/
def nextNineOClock (schedule zone : String) (base : Timestamp) : Option Timestamp :=
  if schedule = "0 9 * * *" then
    some (base + 1 + (32400000000 - zoneOffset zone - base - 1) % 86400000000)
  else none

/-- The next time after `base` at which a clock that is `offset` ahead shows the ninth hour. -/
theorem isLeast_nineOClock (base offset : Int) :
    IsLeast {t | base < t ∧ (t + offset) % 86400000000 = 32400000000}
      (base + 1 + (32400000000 - offset - base - 1) % 86400000000) := by
  constructor
  · constructor <;> omega
  · rintro t ⟨hlt, hmod⟩
    omega

theorem croniter_nineOClock : Croniter NineOClock nextNineOClock := by
  intro schedule zone base date
  unfold nextNineOClock FirstMatch
  by_cases hs : schedule = "0 9 * * *"
  · have hleast : IsLeast {t | base < t ∧ NineOClock schedule zone t}
        (base + 1 + (32400000000 - zoneOffset zone - base - 1) % 86400000000) := by
      obtain ⟨⟨hlt, hmod⟩, hleast⟩ := isLeast_nineOClock base (zoneOffset zone)
      exact ⟨⟨hlt, hs, hmod⟩, fun t ht => hleast ⟨ht.1, ht.2.2⟩⟩
    rw [if_pos hs, Option.some.injEq]
    exact ⟨fun h => h ▸ hleast, fun h => hleast.unique h⟩
  · rw [if_neg hs]
    constructor
    · intro h
      cases h
    · intro h
      exact absurd h.1.2.1 hs

/-- A cron that is created in a timezone, and one that is moved to it. -/
def createAtNine (timezone : Option String) : CronCall :=
  .create { payload := { assistantId := "1" }, schedule := "0 9 * * *", enabled := true, timezone } 1 0

def moveTo (timezone : String) : CronCall := .patch { cronId := 1, timezone } 0

/-- Crons in UTC follow their schedules. -/
theorem datesFollow_utc : DatesFollow NineOClock nextNineOClock oneAssistant [createAtNine none] := by
  rw [datesFollow_iff croniter_nineOClock]
  intro pre call hprefix
  obtain ⟨rfl, rfl⟩ : pre = [] ∧ call = createAtNine none := by
    cases pre with
    | nil => exact ⟨rfl, (List.cons_prefix_cons.mp hprefix).1⟩
    | cons a pre =>
      have := hprefix.length_le
      simp at this
  exact dated_create_of_utc rfl _ _ _

/-- A cron that is created in the zone of Tokyo is dated for UTC, and a cron that is moved
there keeps its date. -/
theorem not_datesFollow :
    ¬ DatesFollow NineOClock nextNineOClock oneAssistant [createAtNine (some "Asia/Tokyo")] ∧
      ¬ DatesFollow NineOClock nextNineOClock oneAssistant [createAtNine none, moveTo "Asia/Tokyo"] := by
  constructor
  · intro h
    obtain ⟨date, hdate, hfirst⟩ := h [] _ (List.prefix_rfl) _ rfl
    cases hdate
    exact absurd hfirst.1.2.2 (by decide)
  · intro h
    obtain ⟨date, hdate, hfirst⟩ := h [createAtNine none] _ (List.prefix_rfl) _ rfl
    cases hdate
    exact absurd hfirst.1.2.2 (by decide)

end NextRole
