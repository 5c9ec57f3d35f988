import Mathlib.Data.Option.Basic
import Mathlib.Data.List.Induction

/-!
# Transition systems and their invariants

A machine has initial states and a partial step function over actions.  A state
is reachable under a guard when some run leads to it all of whose steps satisfy
the guard; the guard `fun _ _ => True` gives all runs.

## Main definitions

* `Machine` — initial states and a step function.
* `Machine.run` — the state after a list of actions.
* `Machine.Reachable` — the states that guarded runs reach.

## Main results

* `Machine.Reachable.invariant` — what every guarded step preserves holds of
  every state that guarded runs reach.
* `Machine.exists_reachable` — a concrete guarded run as an existence proof.
* `Machine.Reachable.exists_end` — an end is reached where a measure decreases.
* `Machine.Reachable.run` — a run of admitted actions ends in a reachable state.
* `forall_prefix_iff` — a condition on the steps of a run for what holds of all its states.
-/

/-- A transition system over states `σ` and actions `α`. -/
structure Machine (σ α : Type*) where
  init : σ → Prop
  step : σ → α → Option σ

namespace Machine

variable {σ α : Type*} (M : Machine σ α)

/-- The state after the actions `as`, if every one of them is enabled. -/
def run (s : σ) : List α → Option σ
  | [] => some s
  | a :: as => (M.step s a).bind fun s' => run s' as

/-- The states reached by runs whose steps all satisfy the guard `Ok`. -/
inductive Reachable (Ok : σ → α → Prop) : σ → Prop
  | init {s : σ} (h : M.init s) : Reachable Ok s
  | step {s s' : σ} {a : α} (h : Reachable Ok s) (ha : Ok s a) (hs : M.step s a = some s') :
      Reachable Ok s'

/-- The guard that admits every step. -/
abbrev free : σ → α → Prop := fun _ _ => True

variable {M} {Ok Ok' : σ → α → Prop} {s s' : σ}

/-- **The invariant rule**: a property of the initial states that every guarded
step from a reachable state preserves holds of every reachable state. -/
theorem Reachable.invariant {I : σ → Prop} (hinit : ∀ s, M.init s → I s)
    (hstep : ∀ s a s', M.Reachable Ok s → I s → Ok s a → M.step s a = some s' → I s')
    (h : M.Reachable Ok s) : I s := by
  induction h with
  | init h => exact hinit _ h
  | step h ha hs ih => exact hstep _ _ _ h ih ha hs

theorem Reachable.mono (hOk : ∀ s a, Ok s a → Ok' s a) (h : M.Reachable Ok s) :
    M.Reachable Ok' s := by
  induction h with
  | init h => exact .init h
  | step _ ha hs ih => exact .step ih (hOk _ _ ha) hs

/-- The state after the actions `as`, if every one of them is enabled and admitted. -/
def runGuarded (M : Machine σ α) (Ok : σ → α → Prop) [∀ s a, Decidable (Ok s a)] (s : σ) :
    List α → Option σ
  | [] => some s
  | a :: as => if Ok s a then (M.step s a).bind fun s' => runGuarded M Ok s' as else none

theorem Reachable.runGuarded [∀ s a, Decidable (Ok s a)] (h : M.Reachable Ok s) {as : List α}
    (hr : M.runGuarded Ok s as = some s') : M.Reachable Ok s' := by
  induction as generalizing s with
  | nil =>
    cases hr
    exact h
  | cons a as ih =>
    rw [Machine.runGuarded] at hr
    split at hr
    · next ha =>
      rw [Option.bind_eq_some_iff] at hr
      obtain ⟨t, ht, hr⟩ := hr
      exact ih (h.step ha ht) hr
    · cases hr

theorem exists_reachable (M : Machine σ α) (Ok : σ → α → Prop) [∀ s a, Decidable (Ok s a)]
    {s : σ} (hs : M.init s) (as : List α) (p : σ → Bool)
    (hr : (M.runGuarded Ok s as).any p = true) : ∃ s', M.Reachable Ok s' ∧ p s' = true := by
  cases hrun : M.runGuarded Ok s as with
  | none => simp [hrun] at hr
  | some s' =>
    rw [hrun, Option.any_some] at hr
    exact ⟨s', (Reachable.init hs).runGuarded hrun, hr⟩

/-- **The termination rule**: where every reachable state is an end or has a step to a state with a
smaller measure, an end is reached. -/
theorem Reachable.exists_end {F : σ → Prop} (measure : σ → ℕ)
    (hstep : ∀ s, M.Reachable Ok s →
      F s ∨ ∃ a s', Ok s a ∧ M.step s a = some s' ∧ measure s' < measure s)
    (h : M.Reachable Ok s) : ∃ s', M.Reachable Ok s' ∧ F s' := by
  induction hn : measure s using Nat.strongRecOn generalizing s with
  | ind n ih =>
    obtain hend | ⟨a, s', ha, hs, hlt⟩ := hstep s h
    · exact ⟨s, h, hend⟩
    · exact ih _ (hn ▸ hlt) (h.step ha hs) rfl

theorem run_append (as bs : List α) (s : σ) :
    M.run s (as ++ bs) = (M.run s as).bind fun s' => M.run s' bs := by
  induction as generalizing s with
  | nil => rfl
  | cons a as ih =>
    rw [List.cons_append, run, run, Option.bind_assoc]
    exact congrArg _ (funext ih)

theorem Reachable.run (h : M.Reachable Ok s) {as : List α} (hOk : ∀ a ∈ as, ∀ t, Ok t a)
    (hr : M.run s as = some s') : M.Reachable Ok s' := by
  induction as generalizing s with
  | nil =>
    cases hr
    exact h
  | cons a as ih =>
    rw [Machine.run, Option.bind_eq_some_iff] at hr
    obtain ⟨t, ht, hr⟩ := hr
    obtain ⟨ha, has⟩ := List.forall_mem_cons.mp hOk
    exact ih (h.step (ha s) ht) has hr

end Machine

/-! ### Runs of a total step function -/

section

variable {σ α : Type*} (step : σ → α → σ) {s : σ}

theorem foldl_invariant {B : σ → Prop} (hinit : B s) (hstep : ∀ s a, B s → B (step s a))
    (as : List α) : B (as.foldl step s) := by
  induction as generalizing s with
  | nil => exact hinit
  | cons a as ih => exact ih (hstep s a hinit)

/-- **The rule for conditions on the steps**: where a step keeps `P` and does `Q` iff it
satisfies `C`, a run has `P` in all its states and `Q` at all its steps iff all its steps
satisfy `C`.  The invariant `B` is kept by every step. -/
theorem forall_prefix_iff {B P : σ → Prop} {Q C : σ → α → Prop} (hB : B s) (hP : P s)
    (hkeep : ∀ s a, B s → B (step s a))
    (hstep : ∀ s a, B s → P s → (P (step s a) ∧ Q s a ↔ C s a)) (as : List α) :
    ((∀ pre, pre <+: as → P (pre.foldl step s)) ∧
        ∀ pre a, pre ++ [a] <+: as → Q (pre.foldl step s) a) ↔
      ∀ pre a, pre ++ [a] <+: as → C (pre.foldl step s) a := by
  have hB' : ∀ pre : List α, B (pre.foldl step s) := foldl_invariant step hB hkeep
  have hnext : ∀ (pre : List α) (a : α), (pre ++ [a]).foldl step s = step (pre.foldl step s) a :=
    fun pre a => by rw [List.foldl_append, List.foldl_cons, List.foldl_nil]
  have hshorter : ∀ {pre : List α} {a : α}, pre ++ [a] <+: as → pre <+: as :=
    fun h => (List.prefix_append _ _).trans h
  constructor
  · rintro ⟨hall, hsteps⟩ pre a ha
    refine (hstep _ a (hB' pre) (hall pre (hshorter ha))).mp ⟨?_, hsteps pre a ha⟩
    exact hnext pre a ▸ hall _ ha
  · intro hC
    have hall : ∀ pre, pre <+: as → P (pre.foldl step s) := by
      intro pre
      induction pre using List.reverseRecOn with
      | nil => exact fun _ => hP
      | append_singleton pre a ih =>
        intro ha
        rw [hnext]
        exact ((hstep _ a (hB' pre) (ih (hshorter ha))).mpr (hC pre a ha)).1
    exact ⟨hall, fun pre a ha =>
      ((hstep _ a (hB' pre) (hall pre (hshorter ha))).mpr (hC pre a ha)).2⟩

end
