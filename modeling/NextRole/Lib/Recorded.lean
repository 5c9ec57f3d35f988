import NextRole.Lib.Transition

/-!
# Machines that record what happened

A machine whose steps also write a log.  The log is no part of the state that the
steps read, so the recorded machine has the runs of the plain one; it lets a
property speak of what happened on the way to a state.

## Main definitions

* `Recorded` — a state with a log.
* `Machine.recorded` — the machine that adds `emit s a` to the log at the step `a` from `s`.

## Main results

* `Reachable.of_recorded` — its states are reachable without the log.
* `Reachable.forall_mem_log` — what holds of every entry when it is made and is kept by
  every step holds of the whole log.
-/

/-- A state with a log of what happened on the way to it. -/
structure Recorded (σ β : Type*) where
  state : σ
  log : List β

namespace Machine

variable {σ α β : Type*}

/-- The machine with a log. -/
def recorded (M : Machine σ α) (emit : σ → α → List β) : Machine (Recorded σ β) α where
  init s := M.init s.state ∧ s.log = []
  step s a := (M.step s.state a).map fun s' => ⟨s', s.log ++ emit s.state a⟩

variable {M : Machine σ α} {emit : σ → α → List β} {Ok : σ → α → Prop} {s : Recorded σ β}

theorem Reachable.of_recorded (h : (M.recorded emit).Reachable (fun s a => Ok s.state a) s) :
    M.Reachable Ok s.state := by
  induction h with
  | init h => exact .init h.1
  | step _ ha hs ih =>
    obtain ⟨t, ht, rfl⟩ := Option.map_eq_some_iff.mp hs
    exact .step ih ha ht

/-- **The rule for logs**: a property of the entries, relative to the state, that holds
when an entry is made and that every step keeps holds of every entry of the log. -/
theorem Reachable.forall_mem_log {Q : σ → β → Prop}
    (hemit : ∀ s a s', M.Reachable Ok s → Ok s a → M.step s a = some s' → ∀ b ∈ emit s a, Q s' b)
    (hkeep : ∀ s a s', M.Reachable Ok s → Ok s a → M.step s a = some s' → ∀ b, Q s b → Q s' b)
    (h : (M.recorded emit).Reachable (fun s a => Ok s.state a) s) : ∀ b ∈ s.log, Q s.state b := by
  induction h with
  | init h =>
    intro b hb
    rw [h.2] at hb
    exact absurd hb List.not_mem_nil
  | @step s _ a hr ha hs ih =>
    obtain ⟨t, ht, rfl⟩ := Option.map_eq_some_iff.mp hs
    intro b hb
    rcases List.mem_append.mp hb with hb | hb
    · exact hkeep s.state a t hr.of_recorded ha ht b (ih b hb)
    · exact hemit s.state a t hr.of_recorded ha ht b hb

end Machine
