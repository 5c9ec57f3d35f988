import NextRole.Api.CronScheduler

/-!
# How often a cron fires for one occurrence

`Crons.Next` only reads, and on this backend the scheduler leaves the date of a
cron alone, so every call after the date is due returns the cron again.  A cron
fires once for its date exactly when only one call is made while it is due.

## Main definitions

* `FiresOnce` — no occurrence was returned twice, and none has got two runs.
* `callTimes` — the times of the calls of `Crons.Next` in a run.

## Main results

* `count_returned` — how often an occurrence was returned.
* `firesOnce_iff` — **each occurrence fires once exactly when every cron is due at no
  more than one call**.
* `not_firesOnce` — one loop creates two runs for one occurrence in two iterations.
-/

namespace NextRole

/-- No occurrence was returned by two calls, and none has got two runs. -/
def FiresOnce (s : SchedulerState) : Prop :=
  s.returned.Nodup ∧ (s.created.map ScheduledRun.occurrence).Nodup

instance : DecidablePred FiresOnce := fun s => by
  unfold FiresOnce
  infer_instance

/-- The times of the calls of `Crons.Next`. -/
def callTimes (as : List SchedulerAction) : List Timestamp :=
  as.filterMap fun
    | .next _ now => some now
    | _ => none

/-! ### Counting occurrences -/

/-- A call returns the occurrence of each cron of the table once if the cron is due. -/
theorem count_nextCrons {crons : Table Cron} {c : Cron} (hc : c ∈ crons) (now : Timestamp) :
    ((nextCrons crons now).map Cron.occurrence).count c.occurrence =
      if c.dueAt now then 1 else 0 := by
  -- crons of one table are told apart by their occurrences already
  have hinj : ∀ a ∈ nextCrons crons now, a.occurrence = c.occurrence → a = c := by
    intro a ha heq
    exact Table.eq_of_key (mem_nextCrons.mp ha).1 hc (congrArg Prod.fst heq)
  have hnodup : ((nextCrons crons now).map Cron.occurrence).Nodup := by
    refine (nodup_nextCrons crons now).map_on ?_
    intro a ha b hb heq
    exact Table.eq_of_key (mem_nextCrons.mp ha).1 (mem_nextCrons.mp hb).1 (congrArg Prod.fst heq)
  rw [hnodup.count]
  have hiff : c.occurrence ∈ (nextCrons crons now).map Cron.occurrence ↔ c.dueAt now = true := by
    rw [List.mem_map]
    constructor
    · rintro ⟨a, ha, heq⟩
      rw [← hinj a ha heq]
      exact (mem_nextCrons.mp ha).2
    · intro hdue
      exact ⟨c, mem_nextCrons.mpr ⟨hc, hdue⟩, rfl⟩
  simp only [hiff]

variable {nextCronDate : String → Timestamp → Option String → Option Timestamp}

/-- What the calls of a run return, over a table that does not change. -/
def returnedBy (crons : Table Cron) (as : List SchedulerAction) : List Occurrence :=
  (callTimes as).flatMap fun now => (nextCrons crons now).map Cron.occurrence

/-- **How often an occurrence was returned**: once for each call at which its cron
was due. -/
theorem count_returnedBy {crons : Table Cron} {c : Cron} (hc : c ∈ crons)
    (as : List SchedulerAction) :
    (returnedBy crons as).count c.occurrence = (callTimes as).countP fun now => c.dueAt now := by
  unfold returnedBy
  induction callTimes as with
  | nil => rfl
  | cons now times ih =>
    rw [List.flatMap_cons, List.count_append, count_nextCrons hc, ih, List.countP_cons]
    exact Nat.add_comm _ _

/-- The scheduler of this backend does not change the cron table. -/
theorem run_returned {s s' : SchedulerState} {as : List SchedulerAction}
    (h : (scheduler true nextCronDate).run s as = some s') :
    s'.cron = s.cron ∧ s'.returned = s.returned ++ returnedBy s.cron as := by
  induction as generalizing s with
  | nil =>
    cases h
    exact ⟨rfl, by simp [returnedBy, callTimes]⟩
  | cons a as ih =>
    rw [Machine.run, Option.bind_eq_some_iff] at h
    obtain ⟨t, ht, h⟩ := h
    obtain ⟨hcron, hret⟩ := ih h
    cases a with
    | next i now =>
      simp only [scheduler, schedulerStep] at ht
      split at ht
      · cases ht
        refine ⟨hcron, ?_⟩
        rw [hret, List.append_assoc]
        rfl
      · cases ht
    | create i created =>
      simp only [scheduler, schedulerStep] at ht
      split at ht
      · cases ht
        exact ⟨hcron, hret⟩
      · cases ht
    | abort i =>
      simp only [scheduler, schedulerStep] at ht
      split at ht
      · cases ht
        exact ⟨hcron, hret⟩
      · cases ht

/-! ### Runs come from what was returned -/

/-- Replacing one entry of a list of lists. -/
theorem count_flatten_set {α : Type*} [BEq α] {L : List (List α)} {i : ℕ} {old : List α}
    (h : L[i]? = some old) (new : List α) (x : α) :
    (L.set i new).flatten.count x + old.count x = L.flatten.count x + new.count x := by
  induction L generalizing i with
  | nil => cases h
  | cons l L ih =>
    cases i with
    | zero =>
      obtain rfl : l = old := by simpa using h
      simp only [List.set_cons_zero, List.flatten_cons, List.count_append]
      omega
    | succ i =>
      have hi : L[i]? = some old := by simpa using h
      have hcount := ih hi
      simp only [List.set_cons_succ, List.flatten_cons, List.count_append]
      omega

/-- The occurrences that each loop still has to serve. -/
def servingOccurrences (s : SchedulerState) : List (List Occurrence) :=
  s.serving.map (List.map fun item => item.cron.occurrence)

/-- Every run and every item still to be served goes back to its own return by
`Crons.Next`. -/
def Accounted (s : SchedulerState) : Prop :=
  ∀ x, (s.created.map ScheduledRun.occurrence).count x + (servingOccurrences s).flatten.count x ≤
    s.returned.count x

theorem Accounted.step {s s' : SchedulerState} {a : SchedulerAction} (h : Accounted s)
    (hs : (scheduler true nextCronDate).step s a = some s') : Accounted s' := by
  intro x
  have hx := h x
  cases a with
  | next i now =>
    simp only [scheduler, schedulerStep] at hs
    split at hs
    · next hen =>
      cases hs
      have hold : (servingOccurrences s)[i]? = some [] := by
        rw [servingOccurrences, List.getElem?_map, hen.1]
        rfl
      have hset := count_flatten_set hold ((nextCrons s.cron now).map Cron.occurrence) x
      have hserving : servingOccurrences { s with
          clock := now
          serving := s.serving.set i ((nextCrons s.cron now).map fun c => ⟨c, now⟩)
          returned := s.returned ++ (nextCrons s.cron now).map Cron.occurrence } =
          (servingOccurrences s).set i ((nextCrons s.cron now).map Cron.occurrence) := by
        rw [servingOccurrences, List.map_set, List.map_map]
        rfl
      rw [hserving, List.count_append]
      rw [List.count_nil] at hset
      dsimp only
      omega
    · cases hs
  | create i created =>
    simp only [scheduler, schedulerStep] at hs
    split at hs
    · next item rest hi =>
      cases hs
      have hold : (servingOccurrences s)[i]? =
          some ((item :: rest).map fun item => item.cron.occurrence) := by
        rw [servingOccurrences, List.getElem?_map, hi]
        rfl
      have hset := count_flatten_set hold (rest.map fun item => item.cron.occurrence) x
      rw [List.map_cons, List.count_cons] at hset
      rw [servingOccurrences, List.map_set]
      change _ + ((servingOccurrences s).set i _).flatten.count x ≤ _
      cases created with
      | false =>
        simp only [Bool.false_eq_true, if_false]
        omega
      | true =>
        simp only [if_true, List.map_append, List.map_singleton, List.count_append,
          List.count_singleton, scheduledRun]
        omega
    · cases hs
  | abort i =>
    simp only [scheduler, schedulerStep] at hs
    split at hs
    · next hi =>
      cases hs
      obtain ⟨items, hitems⟩ : ∃ items, s.serving[i]? = some items :=
        ⟨s.serving[i], List.getElem?_eq_getElem hi⟩
      have hold : (servingOccurrences s)[i]? =
          some (items.map fun item => item.cron.occurrence) := by
        rw [servingOccurrences, List.getElem?_map, hitems]
        rfl
      have hset := count_flatten_set hold [] x
      rw [servingOccurrences, List.map_set]
      change _ + ((servingOccurrences s).set i []).flatten.count x ≤ _
      rw [List.count_nil] at hset
      dsimp only
      omega
    · cases hs

theorem Accounted.run {s s' : SchedulerState} {as : List SchedulerAction} (h : Accounted s)
    (hs : (scheduler true nextCronDate).run s as = some s') : Accounted s' := by
  induction as generalizing s with
  | nil =>
    cases hs
    exact h
  | cons a as ih =>
    rw [Machine.run, Option.bind_eq_some_iff] at hs
    obtain ⟨t, ht, hs⟩ := hs
    exact ih (h.step ht) hs

theorem accounted_init {s : SchedulerState} (h : (scheduler true nextCronDate).init s) :
    Accounted s := by
  obtain ⟨⟨n, hserving⟩, -, hcreated⟩ := h
  intro x
  have hnil : (servingOccurrences s).flatten = [] := by
    rw [servingOccurrences, hserving, List.map_replicate]
    simp
  simp [hcreated, hnil]

/-! ### Firing once -/

/-- **A cron fires once per occurrence exactly when it is due at no more than one
call**: for every cron table, every number of loops and every interleaving of their
iterations, no occurrence is returned twice or gets two runs iff every cron of the
table is due at the time of at most one call of `Crons.Next`. -/
theorem firesOnce_iff {s s' : SchedulerState} {as : List SchedulerAction}
    (hinit : (scheduler true nextCronDate).init s)
    (h : (scheduler true nextCronDate).run s as = some s') :
    FiresOnce s' ↔ ∀ c ∈ s.cron, ((callTimes as).countP fun now => c.dueAt now) ≤ 1 := by
  have hret : s'.returned = returnedBy s.cron as := by
    rw [(run_returned h).2, hinit.2.1, List.nil_append]
  constructor
  · intro honce c hc
    rw [← count_returnedBy hc, ← hret]
    exact List.nodup_iff_count_le_one.mp honce.1 _
  · intro hdue
    have hnodup : s'.returned.Nodup := by
      rw [List.nodup_iff_count_le_one]
      intro x
      by_cases hx : x ∈ s'.returned
      · -- what was returned is the occurrence of a cron of the table
        rw [hret, returnedBy, List.mem_flatMap] at hx
        obtain ⟨now, -, hx⟩ := hx
        obtain ⟨c, hc, rfl⟩ := List.mem_map.mp hx
        rw [hret, count_returnedBy (mem_nextCrons.mp hc).1]
        exact hdue c (mem_nextCrons.mp hc).1
      · rw [List.count_eq_zero_of_not_mem hx]
        exact Nat.zero_le 1
    refine ⟨hnodup, List.nodup_iff_count_le_one.mpr fun x => ?_⟩
    have hacc := (accounted_init hinit).run h x
    have hone := List.nodup_iff_count_le_one.mp hnodup x
    omega

/-! ### One occurrence, two runs -/

/-- One idle loop over a table with one cron, due at the time `3`. -/
def oneCron : SchedulerState where
  cron := Table.empty.put { cronId := 7, schedule := "0 9 * * *", nextRunDate := some 3 }
  clock := 0
  serving := [[]]

theorem oneCron_init : (scheduler true fun _ _ _ => none).init oneCron := ⟨⟨1, rfl⟩, rfl, rfl⟩

theorem firesOnce_iff_witness :
    ∃ s', (scheduler true fun _ _ _ => none).run oneCron [.next 0 5, .create 0 true] = some s' ∧
      FiresOnce s' := by
  obtain ⟨s', hs'⟩ : ∃ s', (scheduler true fun _ _ _ => none).run oneCron
      [.next 0 5, .create 0 true] = some s' := ⟨_, rfl⟩
  exact ⟨s', hs', (firesOnce_iff oneCron_init hs').mpr (by decide +kernel)⟩

/-- A loop that is awake twice after the date creates two runs for it. -/
theorem not_firesOnce :
    ¬ ∀ s s' as, (scheduler true fun _ _ _ => none).init s →
      (scheduler true fun _ _ _ => none).run s as = some s' → FiresOnce s' := by
  intro h
  have honce := h oneCron _ [.next 0 5, .create 0 true, .next 0 6, .create 0 true] oneCron_init rfl
  exact absurd honce (by decide +kernel)

end NextRole
