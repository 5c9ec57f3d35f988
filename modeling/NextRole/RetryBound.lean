import NextRole.Api.Attempts

/-!
# How often the body of a run is executed

The worker trusts the attempt number that `Runs.Next` hands out, and that number lives in
a key that is gone a minute after the last claim.  While every further claim of a run
finds its key and Redis answers, the numbers count the claims and the body is executed
at most so often as the limit says; attempts that take longer start the count again.

## Main definitions

* `BoundedRetries` — the bound.
* `OnTime`, `KeyFound` — the guards.
* `CountKept` — the key counts the claims, and what may be executed is counted.

## Main results

* `boundedRetries_of_keyFound` — **the bound, in every guarded run**.
* `not_boundedRetries` — four attempts of more than a minute.
-/

namespace NextRole

open Machine

/-- The body of no run is executed more often than the limit says. -/
def BoundedRetries (maxRetries : ℕ) (s : AttemptState) : Prop :=
  ∀ runId, s.executed runId ≤ maxRetries

/-- The guard that time does not run backwards. -/
def OnTime (s : AttemptState) : AttemptAction → Prop
  | .tick now => s.clock ≤ now
  | _ => True

instance (s : AttemptState) : DecidablePred (OnTime s) := fun a => by
  cases a <;> simp only [OnTime] <;> infer_instance

/-- The guard: the calls of Redis succeed, and whenever a run is counted that was counted
before, its key is still there. -/
def KeyFound (s : AttemptState) : AttemptAction → Prop
  | .incrby i reply => reply = .ok ∧ ∀ job ∈ s.jobs[i]?,
      s.counted job.run.runId = 0 ∨ (Expiring.read s.clock (s.keys job.run.runId)).isSome = true
  | .expire _ reply => reply = .ok
  | _ => True

instance (s : AttemptState) : DecidablePred (KeyFound s) := fun a => by
  cases a <;> simp only [KeyFound] <;> infer_instance

/-! ### The count -/

/-- A claimed run whose body is still to be executed. -/
def Job.mayExecute (maxRetries : ℕ) (runId : Uuid) (job : Job) : Bool :=
  job.run.runId = runId && match job.stage with
    | .counted attempt | .handed attempt => attempt ≤ maxRetries
    | _ => false

/-- The key of a run counts its claims, and there are no more executions, past and still
to come, than claims and than the limit says. -/
structure CountKept (maxRetries : ℕ) (s : AttemptState) (runId : Uuid) : Prop where
  key : ∀ k, s.keys runId = some k → k.value = s.counted runId
  bound : s.executed runId + s.jobs.countP (Job.mayExecute maxRetries runId) ≤
    min (s.counted runId) maxRetries

variable {maxRetries : ℕ} {s s' : AttemptState} {runId : Uuid}

/-- The value after `INCRBY` is the number of claims. -/
theorem value_incrby {run : Run} (h : CountKept maxRetries s run.runId)
    (hfound : s.counted run.runId = 0 ∨
      (Expiring.read s.clock (s.keys run.runId)).isSome = true) :
    (incrby s.clock (s.keys run.runId)).value = s.counted run.runId + 1 := by
  unfold incrby
  split
  · next k hk =>
    rw [h.key k (Option.filter_eq_some_iff.mp hk).1]
  · next hnone =>
    rcases hfound with hzero | hsome
    · rw [hzero]
    · simp [Expiring.read, hnone] at hsome

/-- A claimed run in the hands of a step, before and after it. -/
theorem countP_set_job {i : ℕ} {job : Job} (h : s.jobs[i]? = some job) (job' : Job) :
    (s.jobs.set i job').countP (Job.mayExecute maxRetries runId) +
        (if job.mayExecute maxRetries runId then 1 else 0) =
      s.jobs.countP (Job.mayExecute maxRetries runId) +
        (if job'.mayExecute maxRetries runId then 1 else 0) := by
  obtain ⟨hi, rfl⟩ := List.getElem?_eq_some_iff.mp h
  have hset := @List.countP_set _ (Job.mayExecute maxRetries runId) s.jobs i job' hi
  have hle : (if (s.jobs[i]).mayExecute maxRetries runId then 1 else 0) ≤
      s.jobs.countP (Job.mayExecute maxRetries runId) := by
    split
    · next hmay => exact List.countP_pos_iff.mpr ⟨_, List.getElem_mem hi, hmay⟩
    · exact Nat.zero_le _
  omega

theorem countP_set_job_same {i : ℕ} {job job' : Job} (h : s.jobs[i]? = some job)
    (hsame : job.mayExecute maxRetries runId = job'.mayExecute maxRetries runId) :
    (s.jobs.set i job').countP (Job.mayExecute maxRetries runId) =
      s.jobs.countP (Job.mayExecute maxRetries runId) := by
  have hset := @countP_set_job maxRetries s runId i _ h job'
  rw [hsame] at hset
  omega

theorem CountKept.incrby {i : ℕ} {run : Run} (h : CountKept maxRetries s runId)
    (hjob : s.jobs[i]? = some ⟨run, .claimed⟩)
    (hfound : s.counted run.runId = 0 ∨
      (Expiring.read s.clock (s.keys run.runId)).isSome = true) :
    CountKept maxRetries (s.incrby i run .ok) runId := by
  by_cases hid : runId = run.runId
  · subst hid
    -- the key holds the count, or nothing was counted yet
    have hvalue := value_incrby h hfound
    have hset := @countP_set_job maxRetries s run.runId i _ hjob
      ⟨run, .counted (s.counted run.runId + 1)⟩
    have hbound := h.bound
    constructor
    · intro k hk
      simp only [AttemptState.incrby, RedisReply.applied, if_true, Function.update_self] at hk ⊢
      rw [← Option.some.inj hk, hvalue]
    · simp only [AttemptState.incrby, RedisReply.applied, if_true, Function.update_self, hvalue]
      simp only [Job.mayExecute, decide_true, Bool.true_and, Bool.false_eq_true, if_false,
        decide_eq_true_eq] at hset
      split at hset <;> omega
  · have hset := @countP_set_job maxRetries s runId i _ hjob
      ⟨run, .counted (NextRole.incrby s.clock (s.keys run.runId)).value⟩
    have hne : ¬ run.runId = runId := fun heq => hid heq.symm
    simp only [Job.mayExecute, hne, decide_false, Bool.false_and, Bool.false_eq_true, if_false] at hset
    have hbound := h.bound
    constructor
    · intro k hk
      simp only [AttemptState.incrby, RedisReply.applied, if_true, Function.update_of_ne hid] at hk ⊢
      exact h.key k hk
    · simp only [AttemptState.incrby, RedisReply.applied, if_true, Function.update_of_ne hid]
      omega

theorem CountKept.expire {i : ℕ} {run : Run} {attempt : ℕ} (h : CountKept maxRetries s runId)
    (hjob : s.jobs[i]? = some ⟨run, .counted attempt⟩) :
    CountKept maxRetries (s.expire i run attempt .ok) runId := by
  constructor
  · intro k hk
    simp only [AttemptState.expire, RedisReply.applied, if_true] at hk ⊢
    by_cases hid : runId = run.runId
    · subst hid
      rw [Function.update_self] at hk
      obtain ⟨k₀, hk₀, rfl⟩ := Option.map_eq_some_iff.mp hk
      exact h.key k₀ (Option.filter_eq_some_iff.mp hk₀).1
    · rw [Function.update_of_ne hid] at hk
      exact h.key k hk
  · have hsame : (⟨run, .counted attempt⟩ : Job).mayExecute maxRetries runId =
        (⟨run, .handed attempt⟩ : Job).mayExecute maxRetries runId := rfl
    show s.executed runId + (s.jobs.set i ⟨run, .handed attempt⟩).countP _ ≤ min (s.counted runId) _
    rw [countP_set_job_same hjob hsame]
    exact h.bound

theorem CountKept.start {i : ℕ} {run : Run} {attempt : ℕ} (h : CountKept maxRetries s runId)
    (hjob : s.jobs[i]? = some ⟨run, .handed attempt⟩) :
    CountKept maxRetries (s.start maxRetries i run attempt) runId := by
  have hbound := h.bound
  refine ⟨h.key, ?_⟩
  by_cases hmay : run.runId = runId ∧ attempt ≤ maxRetries
  · obtain ⟨rfl, hle⟩ := hmay
    -- the attempt leaves those that may execute for those that have
    have hset := @countP_set_job maxRetries s run.runId i _ hjob ⟨run, .started attempt⟩
    simp only [Job.mayExecute, decide_true, Bool.true_and, hle, Bool.and_false, Bool.false_eq_true,
      if_true, if_false] at hset
    simp only [AttemptState.start]
    rw [if_neg (by omega), Function.update_self]
    omega
  · -- another run, or a run over the limit
    have hnot : (⟨run, .handed attempt⟩ : Job).mayExecute maxRetries runId =
        (⟨run, .started attempt⟩ : Job).mayExecute maxRetries runId := by
      simpa [Job.mayExecute] using hmay
    have hsame : (s.start maxRetries i run attempt).executed runId = s.executed runId := by
      simp only [AttemptState.start]
      split
      · rfl
      · next hle => exact Function.update_of_ne (fun hid => hmay ⟨hid.symm, by omega⟩) _ _
    rw [hsame]
    show s.executed runId + (s.jobs.set i ⟨run, .started attempt⟩).countP _ ≤ min (s.counted runId) _
    rw [countP_set_job_same hjob hnot]
    exact hbound

theorem CountKept.eraseIdx (h : CountKept maxRetries s runId) (i : ℕ) (d : Database) :
    CountKept maxRetries { s with db := d, jobs := s.jobs.eraseIdx i } runId := by
  have hle := (List.eraseIdx_sublist s.jobs i).countP_le (p := Job.mayExecute maxRetries runId)
  have hbound := h.bound
  refine ⟨h.key, ?_⟩
  show s.executed runId + (s.jobs.eraseIdx i).countP _ ≤ min (s.counted runId) _
  omega

theorem CountKept.next (h : CountKept maxRetries s runId) (rows : List Run) (d : Database) :
    CountKept maxRetries { s with db := d, jobs := s.jobs ++ rows.map (⟨·, .claimed⟩) } runId := by
  have hzero : (rows.map fun r => (⟨r, .claimed⟩ : Job)).countP (Job.mayExecute maxRetries runId) = 0 := by
    rw [List.countP_eq_zero]
    intro job hjob
    obtain ⟨r, -, rfl⟩ := List.mem_map.mp hjob
    simp [Job.mayExecute]
  refine ⟨h.key, ?_⟩
  show s.executed runId + (s.jobs ++ _).countP _ ≤ _
  rw [List.countP_append, hzero, Nat.add_zero]
  exact h.bound

/-- **The retry bound**: the body of a run is executed at most `maxRetries` times in every
run of the machine in which Redis answers and every further claim of a run finds its key. -/
theorem boundedRetries_of_keyFound {init : Database → Prop}
    (h : (attempts maxRetries init).Reachable KeyFound s) : BoundedRetries maxRetries s := by
  intro runId
  have hkept : CountKept maxRetries s runId := by
    refine h.invariant (I := fun s => ∀ runId, CountKept maxRetries s runId) ?_ ?_ runId
    · rintro s ⟨-, hs⟩ runId
      rw [hs]
      refine ⟨fun k hk => ?_, Nat.zero_le _⟩
      cases hk
    · intro s a s' hr ih hOk hs runId
      cases attemptStep_sound hs with
      | tick => exact ⟨(ih runId).key, (ih runId).bound⟩
      | next => exact (ih runId).next _ _
      | incrby hjob =>
        obtain ⟨rfl, hfound⟩ := hOk
        exact (ih runId).incrby hjob (hfound _ hjob)
      | expire hjob =>
        obtain rfl := hOk
        exact (ih runId).expire hjob
      | start hjob => exact (ih runId).start hjob
      | finish hjob => exact (ih runId).eraseIdx _ _
      | crash => exact (ih runId).eraseIdx _ _
      | service => exact ⟨(ih runId).key, (ih runId).bound⟩
  have hbound := hkept.bound
  omega

/-- A pending run of `oneThread`. -/
def onePending : Database := execute (enqueue 7) oneThread

/-- Claim number `n`, and an attempt that fails with a retriable error; `gap` separates
the claims. -/
def retriedAttempt (gap : Timestamp) (n : ℕ) : List AttemptAction :=
  [.tick ((n + 1) * gap), .next 1 id, .incrby 0 .ok, .expire 0 .ok, .start 0,
    .finish 0 { ended := .retriable }]

/-- Four attempts in four minutes but one second: the fourth is over the limit. -/
theorem boundedRetries_of_keyFound_witness :
    ∃ s, (attempts 3 fun d => d = onePending).Reachable KeyFound s ∧ s.counted 7 = 4 ∧
      s.executed 7 = 3 ∧ BoundedRetries 3 s := by
  obtain ⟨s, hs, hcount⟩ := Machine.exists_reachable (attempts 3 fun d => d = onePending) KeyFound
    (s := { clock := 0, db := onePending }) ⟨rfl, rfl⟩
    ((List.range 4).flatMap (retriedAttempt 59000000))
    (fun s => s.counted 7 = 4 && s.executed 7 = 3) (by decide +kernel)
  simp only [Bool.and_eq_true, decide_eq_true_eq] at hcount
  exact ⟨s, hs, hcount.1, hcount.2, boundedRetries_of_keyFound hs⟩

/-- Four attempts in four minutes and a second: each is the first one. -/
theorem not_boundedRetries :
    ¬ ∀ s, (attempts 3 fun d => d = onePending).Reachable OnTime s → BoundedRetries 3 s := by
  intro h
  obtain ⟨s, hs, hcount⟩ := Machine.exists_reachable (attempts 3 fun d => d = onePending) OnTime
    (s := { clock := 0, db := onePending }) ⟨rfl, rfl⟩
    ((List.range 4).flatMap (retriedAttempt 61000000))
    (fun s => s.executed 7 = 4) (by decide +kernel)
  rw [decide_eq_true_eq] at hcount
  have hle := h s hs 7
  omega

end NextRole
