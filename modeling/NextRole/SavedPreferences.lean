import NextRole.Agents.Preferences
import NextRole.Lib.Transition

/-!
# Saved preferences

The hook takes any error of its read for the absence of the file, and some time passes between its
read and its write.  What users and agents have saved is lost to a hook whose read failed, and to
one that read before the first text was saved.

## Main definitions

* `PreferencesKept` — what was saved last is in the file.
* `NothingToOverwrite`, `Undisturbed` — the steps that put nothing at risk.

## Main results

* `preferencesKept_iff` — **when the hooks overwrite nothing**, and `not_preferencesKept`.
-/

namespace NextRole

variable {ι : Type} [DecidableEq ι]

/-- At every point of a run the file holds what users and agents have saved last. -/
def PreferencesKept (actions : List (PreferencesAction ι)) : Prop :=
  ∀ pre, pre <+: actions → ∀ text, lastSaved pre = some text →
    (preferencesAfter pre).file = some text

/-- Nothing is saved that differs from the scaffold. -/
def NothingToOverwrite (saved : Option String) : Prop :=
  saved = none ∨ saved = some preferencesScaffold

/-- A read does not fail with an error where something is saved, and nothing is saved while a hook is
between its read and its write. -/
def Undisturbed (s : PreferencesStore ι) (saved : Option String) : PreferencesAction ι → Prop
  | .probe _ (.error _) => NothingToOverwrite saved
  | .save text => s.pending = [] ∨ NothingToOverwrite (some text)
  | _ => True

/-! ### One step -/

/-- The store with what was saved last: the file holds it, and no hook that goes on to its write
would replace it. -/
structure NoneAtRisk (s : PreferencesStore ι × Option String) : Prop where
  kept : ∀ text, s.2 = some text → s.1.file = some text
  pending : s.1.pending ≠ [] → NothingToOverwrite s.2

/-- A step of the store and of the record. -/
def recordedStep (s : PreferencesStore ι × Option String) (a : PreferencesAction ι) :
    PreferencesStore ι × Option String :=
  (s.1.step a, a.leaves s.2)

theorem foldl_recordedStep (actions : List (PreferencesAction ι)) :
    actions.foldl recordedStep ({}, none) = (preferencesAfter actions, lastSaved actions) := by
  induction actions using List.reverseRecOn with
  | nil => rfl
  | append_singleton actions a ih =>
    simp only [preferencesAfter, lastSaved, List.foldl_append, List.foldl_cons, List.foldl_nil] at ih ⊢
    rw [ih, recordedStep]

omit [DecidableEq ι] in
theorem nothingToOverwrite_of_absent {s : PreferencesStore ι × Option String} (h : NoneAtRisk s)
    (habsent : s.1.file = none) : NothingToOverwrite s.2 := by
  refine .inl (Option.eq_none_iff_forall_ne_some.mpr fun text htext => ?_)
  have hfile := h.kept text htext
  rw [habsent] at hfile
  cases hfile

omit [DecidableEq ι] in
theorem noneAtRisk_probe {s : PreferencesStore ι × Option String} (h : NoneAtRisk s) (hook : ι) :
    NoneAtRisk ({ s.1 with pending := hook :: s.1.pending }, s.2) ↔ NothingToOverwrite s.2 :=
  ⟨fun h' => h'.pending (List.cons_ne_nil _ _), fun hnothing => ⟨h.kept, fun _ => hnothing⟩⟩

/-- **What a step puts at risk.** -/
theorem noneAtRisk_step {s : PreferencesStore ι × Option String} (h : NoneAtRisk s)
    (a : PreferencesAction ι) : NoneAtRisk (recordedStep s a) ↔ Undisturbed s.1 s.2 a := by
  cases a with
  | probe hook fault =>
    cases fault with
    | none =>
      refine iff_of_true ?_ trivial
      cases hfile : s.1.file with
      | none =>
        have hstep : recordedStep s (.probe hook .none) =
            ({ s.1 with pending := hook :: s.1.pending }, s.2) := by
          simp [recordedStep, PreferencesStore.step, PreferencesAction.leaves, seeds, readError, hfile]
        rw [hstep, noneAtRisk_probe h]
        exact nothingToOverwrite_of_absent h hfile
      | some text =>
        have hstep : recordedStep s (.probe hook .none) = s := by
          simp [recordedStep, PreferencesStore.step, PreferencesAction.leaves, seeds, readError, hfile]
        rwa [hstep]
    | error message => exact noneAtRisk_probe h hook
    | raised => exact iff_of_true h trivial
  | seed hook fails =>
    refine iff_of_true ?_ trivial
    rw [recordedStep, PreferencesStore.step]
    split
    · next hmem =>
      have hnothing := h.pending (List.ne_nil_of_mem hmem)
      refine ⟨fun text htext => ?_, fun _ => hnothing⟩
      have hsaved : s.2 = some text := htext
      cases fails with
      | true => exact h.kept text hsaved
      | false =>
        rcases hnothing with hnone | hscaffold
        · rw [hnone] at hsaved
          cases hsaved
        · exact hscaffold.symm.trans hsaved
    · exact h
  | save text =>
    constructor
    · intro h'
      by_cases hpending : s.1.pending = []
      · exact .inl hpending
      · exact .inr (h'.pending hpending)
    · intro hok
      refine ⟨fun _ htext => htext, fun hpending => ?_⟩
      exact hok.resolve_left hpending
  | delete => exact iff_of_true ⟨nofun, fun _ => .inl rfl⟩ trivial

/-! ### Runs -/

theorem preferencesKept_append_seed {pre : List (PreferencesAction ι)} (hkept : PreferencesKept pre)
    (hook : ι) : PreferencesKept (pre ++ [.seed hook false]) ↔
      (hook ∈ (preferencesAfter pre).pending → NothingToOverwrite (lastSaved pre)) := by
  have hsaved : lastSaved (pre ++ [.seed hook false]) = lastSaved pre := by
    rw [lastSaved, List.foldl_append]
    rfl
  have hstore : preferencesAfter (pre ++ [.seed hook false]) =
      (preferencesAfter pre).step (.seed hook false) := by
    rw [preferencesAfter, List.foldl_append]
    rfl
  have hfile : (preferencesAfter (pre ++ [.seed hook false])).file =
      if hook ∈ (preferencesAfter pre).pending then some preferencesScaffold
      else (preferencesAfter pre).file := by
    rw [hstore, PreferencesStore.step]
    split <;> rfl
  constructor
  · intro h hmem
    rw [NothingToOverwrite, or_iff_not_imp_left]
    intro hne
    obtain ⟨text, htext⟩ := Option.ne_none_iff_exists'.mp hne
    have hnow := h _ List.prefix_rfl text (hsaved.trans htext)
    rw [hfile, if_pos hmem] at hnow
    rw [htext, ← hnow]
  · intro hrisk pre' hpre' text htext
    rcases List.prefix_concat_iff.mp hpre' with rfl | hpre'
    · rw [hsaved] at htext
      rw [hfile]
      split
      · next hmem =>
        rcases hrisk hmem with hnone | hscaffold
        · rw [hnone] at htext
          cases htext
        · exact hscaffold.symm.trans htext
      · exact hkept _ List.prefix_rfl text htext
    · exact hkept pre' hpre' text htext

/-- Whichever hook writes next, nothing is lost, exactly if nothing is at risk. -/
theorem forall_noneAtRisk_iff (actions : List (PreferencesAction ι)) :
    (PreferencesKept actions ∧
        ∀ pre, pre <+: actions → ∀ hook, PreferencesKept (pre ++ [.seed hook false])) ↔
      ∀ pre, pre <+: actions → NoneAtRisk (preferencesAfter pre, lastSaved pre) := by
  constructor
  · rintro ⟨hkept, hnext⟩ pre hpre
    refine ⟨fun text htext => hkept pre hpre text htext, fun hpending => ?_⟩
    obtain ⟨hook, hhook⟩ := List.exists_mem_of_ne_nil _ hpending
    have hbefore : PreferencesKept pre := fun pre' hpre' => hkept pre' (hpre'.trans hpre)
    exact (preferencesKept_append_seed hbefore hook).mp (hnext pre hpre hook) hhook
  · intro h
    have hkept : PreferencesKept actions := fun pre hpre text htext => (h pre hpre).kept text htext
    refine ⟨hkept, fun pre hpre hook => ?_⟩
    have hbefore : PreferencesKept pre := fun pre' hpre' => hkept pre' (hpre'.trans hpre)
    rw [preferencesKept_append_seed hbefore]
    exact fun hmem => (h pre hpre).pending (List.ne_nil_of_mem hmem)

/-- **When the hooks overwrite nothing**: in every state of a run, whichever hook writes next, what
was saved last is in the file, exactly if all its steps are undisturbed. -/
theorem preferencesKept_iff (actions : List (PreferencesAction ι)) :
    (PreferencesKept actions ∧
        ∀ pre, pre <+: actions → ∀ hook, PreferencesKept (pre ++ [.seed hook false])) ↔
      ∀ pre a, pre ++ [a] <+: actions → Undisturbed (preferencesAfter pre) (lastSaved pre) a := by
  have hrule := forall_prefix_iff (B := fun _ => True) (P := NoneAtRisk) (Q := fun _ _ => True)
    (C := fun s a => Undisturbed s.1 s.2 a) recordedStep (s := ({}, none)) trivial
    ⟨nofun, fun hpending => absurd rfl hpending⟩ (fun _ _ _ => trivial)
    (fun s a _ h => by rw [and_true, noneAtRisk_step h a]) actions
  simp only [foldl_recordedStep, implies_true, and_true] at hrule
  rw [forall_noneAtRisk_iff, hrule]

/-- A read that fails after preferences were saved, and the write that follows. -/
theorem not_preferencesKept : ¬ ∀ actions : List (PreferencesAction ℕ), PreferencesKept actions := by
  intro h
  have hfile := h [.save "- Prefer concise bullets", .probe 0 (.error "Error reading"), .seed 0 false]
    _ List.prefix_rfl "- Prefer concise bullets" rfl
  revert hfile
  decide

end NextRole
