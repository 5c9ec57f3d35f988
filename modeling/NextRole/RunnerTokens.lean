import NextRole.Runtime.RunnerQueue

/-!
# No runner is lost

Every runner is in one place: in the queue, among the expired ones, with a worker, with the loop, or
with a call that was handed to the event loop.  Runners are only added to the queue while the loop
waits for an answer, so an answer within the limit finds a runner for each of its runs.

## Main definitions

* `RunnerQueue.tokens` — the runners, by where they are.
* `TokensKept` — the invariant of the loop.

## Main results

* `TokensKept.releaseRunner` — a runner is put back.
* `TokensKept.step` — every action keeps the runners.
* `tokens_of_reachable` — the number of runners, and of workers.
* `not_tokens` — a runner that is handed to the event loop is in no other place.
-/

namespace NextRole

/-- The runners, by where they are. -/
def RunnerQueue.tokens (s : RunnerQueue) : List ℕ :=
  s.runners ++ s.expired ++ s.ready ++ s.workers.map QueueWorker.runner ++ s.phase.held

/-- How many runners the loop still takes for the answer that it has or waits for. -/
def QueuePhase.demand : QueuePhase → ℕ
  | .fetching limit => limit
  | .iterating runs => runs.length
  | .resolving _ _ runs => runs.length
  | _ => 0

/-- Every runner is in one place, and there are enough in the queue for the runs of the answer. -/
structure TokensKept (s : RunnerQueue) : Prop where
  perm : s.tokens.Perm (List.range s.concurrency)
  demand : s.phase.demand ≤ s.runners.length
  shared : s.isolated = false → s.ready = []
  filled : s.emptied = false

section Steps

variable {s s' : RunnerQueue}

theorem tokensKept_init {n : ℕ} {isolated : Bool} :
    TokensKept { concurrency := n, isolated := isolated, runners := List.range n } where
  perm := by simp [RunnerQueue.tokens, QueuePhase.held]
  demand := Nat.zero_le _
  shared _ := rfl
  filled := rfl

theorem putNowait_eq_some {runner : ℕ}
    (h : (s.tokens ++ [runner]).Perm (List.range s.concurrency)) :
    s.putNowait runner = some { s with runners := s.runners ++ [runner] } := by
  have hlen := h.length_eq
  rw [RunnerQueue.tokens] at hlen
  simp only [List.length_append, List.length_singleton, List.length_range] at hlen
  refine if_neg fun hfull => ?_
  omega

/-- **A runner is put back.** -/
theorem TokensKept.releaseRunner {runner : ℕ}
    (hperm : (s.tokens ++ [runner]).Perm (List.range s.concurrency))
    (hdemand : s.phase.demand ≤ s.runners.length) (hshared : s.isolated = false → s.ready = [])
    (hfilled : s.emptied = false) : TokensKept (s.releaseRunner runner) := by
  rw [RunnerQueue.releaseRunner]
  split
  · next hisolated =>
    split
    · exact {
        perm := by
          refine List.Perm.trans ?_ hperm
          simp only [RunnerQueue.tokens, List.perm_iff_count, List.count_append]
          intro a
          omega
        demand := hdemand
        shared := hshared
        filled := hfilled }
    · exact {
        perm := by
          refine List.Perm.trans ?_ hperm
          simp only [RunnerQueue.tokens, List.perm_iff_count, List.count_append]
          intro a
          omega
        demand := hdemand
        shared := fun hnot => absurd (hisolated.symm.trans hnot) (by decide)
        filled := hfilled }
  · rw [putNowait_eq_some hperm, Option.getD_some]
    exact {
      perm := by
        refine List.Perm.trans ?_ hperm
        simp only [RunnerQueue.tokens, List.perm_iff_count, List.count_append]
        intro a
        omega
      demand := hdemand.trans (by simp)
      shared := hshared
      filled := hfilled }

/-- The loop goes on. -/
theorem TokensKept.advance (h : TokensKept s) (hs : s.advance = some s') : TokensKept s' := by
  obtain ⟨hperm, hdemand, hshared, hfilled⟩ := h
  rw [RunnerQueue.advance] at hs
  split at hs
  · next hphase =>
    obtain rfl := Option.some.inj hs
    refine ⟨?_, ?_, hshared, hfilled⟩
    · rw [RunnerQueue.tokens, hphase] at hperm
      rw [RunnerQueue.tokens]
      split <;> exact hperm
    · dsimp only
      split <;> exact Nat.zero_le _
  · next hphase =>
    rw [RunnerQueue.tokens, hphase] at hperm
    split at hs
    · obtain rfl := Option.some.inj hs
      refine ⟨List.Perm.trans ?_ hperm, Nat.zero_le _, hshared, hfilled⟩
      simp [RunnerQueue.tokens, QueuePhase.held]
    · cases hs
  · next hphase =>
    rw [RunnerQueue.tokens, hphase] at hperm
    split at hs
    · cases hs
    · obtain rfl := Option.some.inj hs
      exact ⟨hperm, le_refl _, hshared, hfilled⟩
  · cases hs
  · next hphase =>
    obtain rfl := Option.some.inj hs
    rw [RunnerQueue.tokens, hphase] at hperm
    exact ⟨hperm, Nat.zero_le _, hshared, hfilled⟩
  · next run runs hphase =>
    rw [RunnerQueue.tokens, hphase] at hperm
    rw [hphase] at hdemand
    split at hs
    · -- there is a runner for each run that is left
      next hnone =>
      rw [hnone] at hdemand
      exact absurd hdemand (Nat.not_succ_le_zero _)
    · next runner runners hrunners =>
      obtain rfl := Option.some.inj hs
      rw [hrunners] at hperm hdemand
      refine ⟨List.Perm.trans ?_ hperm, Nat.le_of_succ_le_succ hdemand, hshared, hfilled⟩
      simp only [RunnerQueue.tokens, QueuePhase.held, List.perm_iff_count, List.count_append,
        List.count_cons, List.count_nil]
      intro a
      omega
  · next run runner runs hphase =>
    rw [RunnerQueue.tokens, hphase] at hperm
    rw [hphase] at hdemand
    split at hs
    · obtain rfl := Option.some.inj hs
      refine TokensKept.releaseRunner ?_ hdemand hshared hfilled
      simpa only [RunnerQueue.tokens, QueuePhase.held, List.append_nil] using hperm
    · obtain rfl := Option.some.inj hs
      refine ⟨List.Perm.trans ?_ hperm, hdemand, hshared, hfilled⟩
      simp [RunnerQueue.tokens, QueuePhase.held]
  · cases hs

/-- Something raises in the loop. -/
theorem TokensKept.raise (h : TokensKept s) (hs : s.raise = some s') : TokensKept s' := by
  obtain ⟨hperm, hdemand, hshared, hfilled⟩ := h
  rw [RunnerQueue.raise] at hs
  split at hs
  · next hphase =>
    obtain rfl := Option.some.inj hs
    rw [RunnerQueue.tokens, hphase] at hperm
    exact ⟨hperm, Nat.zero_le _, hshared, hfilled⟩
  · next hphase =>
    obtain rfl := Option.some.inj hs
    rw [RunnerQueue.tokens, hphase] at hperm
    exact ⟨hperm, Nat.zero_le _, hshared, hfilled⟩
  · next run runner runs hphase =>
    obtain rfl := Option.some.inj hs
    rw [RunnerQueue.tokens, hphase] at hperm
    refine TokensKept.releaseRunner ?_ (Nat.zero_le _) hshared hfilled
    simpa only [RunnerQueue.tokens, QueuePhase.held, List.append_nil] using hperm
  · cases hs

/-- A worker that is done keeps its runner until its callback runs. -/
theorem map_runner_set {workers : List QueueWorker} {i : ℕ} {w : QueueWorker}
    (hw : workers[i]? = some w) (running : Bool) :
    (workers.set i { w with running := running }).map QueueWorker.runner =
      workers.map QueueWorker.runner := by
  obtain ⟨hi, rfl⟩ := List.getElem?_eq_some_iff.mp hw
  refine List.ext_getElem? fun j => ?_
  rw [List.map_set, List.getElem?_set]
  split
  · next heq =>
    subst heq
    simp [hi]
  · rfl

theorem map_runner_eraseIdx {workers : List QueueWorker} {i : ℕ} {w : QueueWorker}
    (hw : workers[i]? = some w) :
    ((workers.eraseIdx i).map QueueWorker.runner ++ [w.runner]).Perm
      (workers.map QueueWorker.runner) := by
  obtain ⟨hi, rfl⟩ := List.getElem?_eq_some_iff.mp hw
  exact (List.perm_append_singleton _ _).trans
    ((List.getElem_cons_eraseIdx_perm hi).map QueueWorker.runner)

theorem held_ended (phase : QueuePhase) :
    (QueuePhase.ended phase.held.head?).held = phase.held := by
  cases phase with
  | ended runner => cases runner <;> rfl
  | _ => rfl

/-- **Every action keeps the runners.** -/
theorem TokensKept.step (h : TokensKept s) {a : QueueAction} (ha : RespondsWithinLimit s a)
    (hs : runnerQueue.step s a = some s') : TokensKept s' := by
  cases a with
  | advance => exact h.advance hs
  | raise => exact h.raise hs
  | respond runs =>
    obtain ⟨hperm, hdemand, hshared, hfilled⟩ := h
    simp only [runnerQueue] at hs
    split at hs
    · next limit hphase =>
      obtain rfl := Option.some.inj hs
      rw [RunnerQueue.tokens, hphase] at hperm
      rw [hphase] at hdemand
      exact ⟨hperm, (ha limit runs hphase rfl).trans hdemand, hshared, hfilled⟩
    · cases hs
  | finish worker =>
    obtain ⟨hperm, hdemand, hshared, hfilled⟩ := h
    obtain ⟨w, hw, hs⟩ := Option.bind_eq_some_iff.mp hs
    split at hs
    · obtain rfl := Option.some.inj hs
      refine ⟨List.Perm.trans (List.Perm.of_eq ?_) hperm, hdemand, hshared, hfilled⟩
      simp only [RunnerQueue.tokens, map_runner_set hw]
    · cases hs
  | cleanup worker =>
    obtain ⟨hperm, hdemand, hshared, hfilled⟩ := h
    obtain ⟨w, hw, hs⟩ := Option.bind_eq_some_iff.mp hs
    split at hs
    · cases hs
    · obtain rfl := Option.some.inj hs
      refine TokensKept.releaseRunner (List.Perm.trans ?_ hperm) hdemand hshared hfilled
      have hworkers := map_runner_eraseIdx hw
      rw [List.perm_iff_count] at hworkers
      simp only [RunnerQueue.tokens, List.perm_iff_count, List.count_append] at hworkers ⊢
      intro a
      have hcount := hworkers a
      omega
  | callback =>
    obtain ⟨hperm, hdemand, hshared, hfilled⟩ := h
    simp only [runnerQueue] at hs
    split at hs
    · cases hs
    · next runner ready hready =>
      split at hs
      · cases hs
      · have hroom : (({ s with ready := ready } : RunnerQueue).tokens ++ [runner]).Perm
            (List.range s.concurrency) := by
          refine List.Perm.trans ?_ hperm
          simp only [RunnerQueue.tokens, hready, List.perm_iff_count, List.count_append,
            List.count_cons, List.count_nil]
          intro a
          omega
        rw [putNowait_eq_some hroom, Option.getD_some] at hs
        obtain rfl := Option.some.inj hs
        refine ⟨List.Perm.trans ?_ hroom, hdemand.trans (by simp), fun hnot => ?_, hfilled⟩
        · simp only [RunnerQueue.tokens, List.perm_iff_count, List.count_append]
          intro a
          omega
        · have hnil := hshared hnot
          rw [hready] at hnil
          cases hnil
  | cancel =>
    obtain ⟨hperm, hdemand, hshared, hfilled⟩ := h
    simp only [runnerQueue] at hs
    split at hs
    · cases hs
    · next hphase =>
      obtain rfl := Option.some.inj hs
      refine ⟨List.Perm.trans (List.Perm.of_eq ?_) hperm, Nat.zero_le _, hshared, hfilled⟩
      simp only [RunnerQueue.tokens, held_ended]
  | close =>
    obtain ⟨hperm, hdemand, hshared, hfilled⟩ := h
    simp only [runnerQueue] at hs
    split at hs
    · obtain rfl := Option.some.inj hs
      exact ⟨hperm, hdemand, hshared, hfilled⟩
    · cases hs

end Steps

/-! ### The number of runners -/

/-- **No runner is lost**: those in the queue, the expired ones, one for each worker that was
dispatched, the one that the loop holds and those handed to the event loop are all of them; without
isolated loops none is handed to the event loop; the queue is never empty when a runner is taken;
and no more workers run than there are runners. -/
theorem tokens_of_reachable {s : RunnerQueue} (hs : runnerQueue.Reachable RespondsWithinLimit s) :
    s.runners.length + s.expired.length + s.workers.length + s.phase.held.length + s.ready.length =
        s.concurrency ∧
      (s.isolated = false → s.ready = []) ∧ s.emptied = false ∧
        (s.workers.filter QueueWorker.running).length ≤ s.concurrency := by
  have hkept : TokensKept s := by
    refine hs.invariant ?_ fun s a s' _ h ha hstep => h.step ha hstep
    rintro _ ⟨n, isolated, rfl⟩
    exact tokensKept_init
  have hlen := hkept.perm.length_eq
  simp only [RunnerQueue.tokens, List.length_append, List.length_map, List.length_range] at hlen
  refine ⟨by omega, hkept.shared, hkept.filled, ?_⟩
  have hfilter := List.length_filter_le QueueWorker.running s.workers
  omega

/-- The runs of an answer. -/
def runWithGraph : Run where
  runId := 1
  threadId := 1
  assistantId := 1
  kwargs := .obj [("config", .obj [("configurable", .obj [("graph_id", .str "agent")])])]

/-- Two runs are dispatched, and one of the workers completes on its own loop. -/
def dispatchTwo : List QueueAction :=
  [.advance, .advance, .respond [runWithGraph, runWithGraph], .advance, .advance, .advance,
    .advance, .finish 0, .cleanup 0]

instance (s : RunnerQueue) (a : QueueAction) : Decidable (RespondsWithinLimit s a) :=
  match hphase : s.phase, a with
  | .fetching limit, .respond runs =>
    decidable_of_iff (runs.length ≤ limit) ⟨fun h limit' runs' hlimit hruns => by
      rw [hphase] at hlimit
      cases hlimit
      cases hruns
      exact h, fun h => h limit runs hphase rfl⟩
  | .fetching _, .advance | .fetching _, .raise | .fetching _, .finish _ | .fetching _, .cleanup _
  | .fetching _, .callback | .fetching _, .cancel | .fetching _, .close =>
    isTrue fun _ _ _ hruns => nomatch hruns
  | .top, _ | .restoring, _ | .waiting, _ | .iterating _, _ | .resolving _ _ _, _ | .ended _, _ =>
    isTrue fun _ _ hlimit _ => nomatch hphase.symm.trans hlimit

/-- With isolated loops: the runner of the worker that is done is with the event loop, and the other
worker runs. -/
theorem tokens_dispatchTwo : ∃ s, runnerQueue.Reachable RespondsWithinLimit s ∧
    s.ready = [0] ∧ s.workers = [⟨1, true⟩] ∧
      s.runners.length + s.expired.length + s.workers.length + s.phase.held.length +
        s.ready.length = s.concurrency := by
  obtain ⟨s, hs, hlog⟩ := runnerQueue.exists_reachable RespondsWithinLimit ⟨2, true, rfl⟩
    dispatchTwo (fun s => decide (s.ready = [0] ∧ s.workers = [⟨1, true⟩])) (by decide +kernel)
  obtain ⟨hready, hworkers⟩ := of_decide_eq_true hlog
  exact ⟨s, hs, hready, hworkers, (tokens_of_reachable hs).1⟩

/-- The runner that is handed to the event loop is not in the queue, not expired, not with a worker
and not with the loop. -/
theorem not_tokens : ¬ ∀ s, runnerQueue.Reachable RespondsWithinLimit s →
    s.runners.length + s.expired.length + s.workers.length + s.phase.held.length =
      s.concurrency := by
  intro h
  obtain ⟨s, hs, hlog⟩ := runnerQueue.exists_reachable RespondsWithinLimit ⟨2, true, rfl⟩
    dispatchTwo (fun s => decide (s.runners.length + s.expired.length + s.workers.length +
      s.phase.held.length < s.concurrency)) (by decide +kernel)
  exact absurd (h s hs) (Nat.ne_of_lt (of_decide_eq_true hlog))

end NextRole
