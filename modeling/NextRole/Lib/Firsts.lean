import Mathlib.Data.List.Nodup

/-!
# First occurrences

A loop that keeps an element unless it has seen its key before keeps the first element of each key.

## Main definitions

* `List.firsts key seen l` — the elements of `l` that are the first ones of their keys, without
  those whose keys were seen before.
* `List.firstsStep` — one pass of such a loop, which gathers what it keeps.

## Main results

* `List.mem_firsts_iff` — what is kept.
* `List.nodup_firsts`, `List.mem_map_firsts` — each key is kept once.
* `List.firsts_append` — two loops with one set of keys.
* `List.mem_firsts_flatMap_iff` — what is kept of many lists.
* `List.map_firsts` — what is kept of mapped elements.
* `List.foldl_firstsStep` — the loop computes the first elements.
-/

namespace List

variable {α κ : Type*} [DecidableEq κ] {key : α → κ}

/-- The first elements of their keys, without those whose keys were seen before. -/
def firsts (key : α → κ) : List κ → List α → List α
  | _, [] => []
  | seen, a :: l =>
    if key a ∈ seen then firsts key seen l else a :: firsts key (seen ++ [key a]) l

@[simp] theorem firsts_nil (seen : List κ) : firsts key seen [] = [] := rfl

theorem firsts_cons_of_mem {seen : List κ} {a : α} (h : key a ∈ seen) (l : List α) :
    firsts key seen (a :: l) = firsts key seen l := if_pos h

theorem firsts_cons_of_notMem {seen : List κ} {a : α} (h : key a ∉ seen) (l : List α) :
    firsts key seen (a :: l) = a :: firsts key (seen ++ [key a]) l := if_neg h

/-- **What is kept**: the elements before which their key was not seen. -/
theorem mem_firsts_iff {seen : List κ} {l : List α} {a : α} : a ∈ firsts key seen l ↔
    key a ∉ seen ∧ ∃ before after, l = before ++ a :: after ∧ key a ∉ before.map key := by
  induction l generalizing seen with
  | nil =>
    rw [firsts_nil]
    refine ⟨nofun, ?_⟩
    rintro ⟨-, before, after, h, -⟩
    cases before <;> cases h
  | cons b l ih =>
    by_cases hb : key b ∈ seen
    · rw [firsts_cons_of_mem hb, ih]
      refine and_congr_right fun ha => ?_
      constructor
      · rintro ⟨before, after, rfl, hbefore⟩
        refine ⟨b :: before, after, rfl, ?_⟩
        rw [map_cons, mem_cons, not_or]
        exact ⟨fun heq => ha (heq ▸ hb), hbefore⟩
      · rintro ⟨before, after, hl, hbefore⟩
        cases before with
        | nil =>
          cases hl
          exact absurd hb ha
        | cons c before =>
          cases hl
          exact ⟨before, after, rfl, fun h => hbefore (mem_cons_of_mem _ h)⟩
    · rw [firsts_cons_of_notMem hb, mem_cons, ih, mem_append, mem_singleton, not_or]
      constructor
      · rintro (rfl | ⟨⟨ha, hne⟩, before, after, rfl, hbefore⟩)
        · exact ⟨hb, [], l, rfl, nofun⟩
        · refine ⟨ha, b :: before, after, rfl, ?_⟩
          rw [map_cons, mem_cons, not_or]
          exact ⟨hne, hbefore⟩
      · rintro ⟨ha, before, after, hl, hbefore⟩
        cases before with
        | nil =>
          cases hl
          exact .inl rfl
        | cons c before =>
          cases hl
          rw [map_cons, mem_cons, not_or] at hbefore
          exact .inr ⟨⟨ha, hbefore.1⟩, before, after, rfl, hbefore.2⟩

theorem mem_of_mem_firsts {seen : List κ} {l : List α} {a : α} (h : a ∈ firsts key seen l) :
    a ∈ l := by
  obtain ⟨-, before, after, rfl, -⟩ := mem_firsts_iff.mp h
  exact mem_append_right _ mem_cons_self

/-- The keys that are kept. -/
theorem mem_map_firsts {seen : List κ} {l : List α} {k : κ} :
    k ∈ (firsts key seen l).map key ↔ k ∉ seen ∧ k ∈ l.map key := by
  induction l generalizing seen with
  | nil => simp
  | cons a l ih =>
    by_cases ha : key a ∈ seen
    · rw [firsts_cons_of_mem ha, ih, map_cons, mem_cons]
      refine and_congr_right fun hk => ⟨.inr, ?_⟩
      rintro (rfl | h)
      · exact absurd ha hk
      · exact h
    · rw [firsts_cons_of_notMem ha, map_cons, map_cons, mem_cons, mem_cons, ih, mem_append,
        mem_singleton]
      by_cases hk : k = key a
      · subst hk
        simp [ha]
      · simp [hk]

theorem nodup_firsts (seen : List κ) (l : List α) : ((firsts key seen l).map key).Nodup := by
  induction l generalizing seen with
  | nil => exact nodup_nil
  | cons a l ih =>
    by_cases ha : key a ∈ seen
    · rw [firsts_cons_of_mem ha]
      exact ih seen
    · rw [firsts_cons_of_notMem ha, map_cons, nodup_cons]
      refine ⟨fun hmem => ?_, ih _⟩
      exact (mem_map_firsts.mp hmem).1 (mem_append_right _ (mem_singleton_self _))

/-- **Two loops with one set of keys.** -/
theorem firsts_append (seen : List κ) (l l' : List α) :
    firsts key seen (l ++ l') =
      firsts key seen l ++ firsts key (seen ++ (firsts key seen l).map key) l' := by
  induction l generalizing seen with
  | nil => simp
  | cons a l ih =>
    by_cases ha : key a ∈ seen
    · rw [cons_append, firsts_cons_of_mem ha, firsts_cons_of_mem ha, ih]
    · rw [cons_append, firsts_cons_of_notMem ha, firsts_cons_of_notMem ha, ih, cons_append,
        map_cons, append_assoc, singleton_append]

/-- What is kept of two lists. -/
theorem mem_firsts_append_iff {seen : List κ} {l l' : List α} {a : α} :
    a ∈ firsts key seen (l ++ l') ↔
      a ∈ firsts key seen l ∨ a ∈ firsts key seen l' ∧ key a ∉ l.map key := by
  have hseen : ∀ k, k ∈ seen ++ (firsts key seen l).map key ↔ k ∈ seen ∨ k ∈ l.map key := by
    intro k
    rw [mem_append, mem_map_firsts]
    by_cases hk : k ∈ seen <;> simp [hk]
  rw [firsts_append, mem_append]
  refine or_congr_right ?_
  rw [mem_firsts_iff, mem_firsts_iff, hseen, not_or]
  constructor
  · rintro ⟨⟨hnot, hl⟩, hfirst⟩
    exact ⟨⟨hnot, hfirst⟩, hl⟩
  · rintro ⟨⟨hnot, hfirst⟩, hl⟩
    exact ⟨⟨hnot, hl⟩, hfirst⟩

/-- **What is kept of many lists**: the part of one list that no list before it has the key of. -/
theorem mem_firsts_flatMap_iff {β : Type*} {f : β → List α} {seen : List κ} {xs : List β} {a : α} :
    a ∈ firsts key seen (xs.flatMap f) ↔ ∃ before x after, xs = before ++ x :: after ∧
      (∀ y ∈ before, key a ∉ (f y).map key) ∧ a ∈ firsts key seen (f x) := by
  induction xs with
  | nil =>
    rw [flatMap_nil, firsts_nil]
    refine ⟨nofun, ?_⟩
    rintro ⟨before, x, after, h, -⟩
    cases before <;> cases h
  | cons x xs ih =>
    rw [flatMap_cons, mem_firsts_append_iff, ih]
    constructor
    · rintro (ha | ⟨⟨before, y, after, rfl, hbefore, ha⟩, hx⟩)
      · exact ⟨[], x, xs, rfl, nofun, ha⟩
      · exact ⟨x :: before, y, after, rfl, forall_mem_cons.mpr ⟨hx, hbefore⟩, ha⟩
    · rintro ⟨before, y, after, hxs, hbefore, ha⟩
      cases before with
      | nil =>
        cases hxs
        exact .inl ha
      | cons z before =>
        cases hxs
        obtain ⟨hz, hbefore⟩ := forall_mem_cons.mp hbefore
        exact .inr ⟨⟨before, y, after, rfl, hbefore, ha⟩, hz⟩

/-- Where no key is given twice, only what was seen before is left out. -/
theorem firsts_of_nodup {l : List α} (h : (l.map key).Nodup) (seen : List κ) :
    firsts key seen l = l.filter fun a => key a ∉ seen := by
  induction l generalizing seen with
  | nil => rfl
  | cons a l ih =>
    obtain ⟨ha, hl⟩ := nodup_cons.mp h
    by_cases hseen : key a ∈ seen
    · rw [firsts_cons_of_mem hseen, ih hl, filter_cons_of_neg (by simpa using hseen)]
    · rw [firsts_cons_of_notMem hseen, ih hl, filter_cons_of_pos (by simpa using hseen)]
      refine congrArg _ (filter_congr fun b hb => ?_)
      have hne : key b ≠ key a := fun heq => ha (heq ▸ mem_map_of_mem hb)
      simp [hne]

theorem map_firsts {β : Type*} (f : β → α) (seen : List κ) (l : List β) :
    (firsts (key ∘ f) seen l).map f = firsts key seen (l.map f) := by
  induction l generalizing seen with
  | nil => rfl
  | cons b l ih =>
    rw [map_cons]
    by_cases hb : key (f b) ∈ seen
    · rw [firsts_cons_of_mem hb, firsts_cons_of_mem (show (key ∘ f) b ∈ seen from hb), ih]
    · rw [firsts_cons_of_notMem hb, firsts_cons_of_notMem (show (key ∘ f) b ∉ seen from hb),
        map_cons, ih]
      rfl

/-- One pass of a loop that keeps the first elements of their keys, with the keys that it has
seen. -/
def firstsStep (key : α → κ) (state : List α × List κ) (a : α) : List α × List κ :=
  if key a ∈ state.2 then state else (state.1 ++ [a], state.2 ++ [key a])

/-- **The loop computes the first elements.** -/
theorem foldl_firstsStep (l kept : List α) (seen : List κ) :
    l.foldl (firstsStep key) (kept, seen) =
      (kept ++ firsts key seen l, seen ++ (firsts key seen l).map key) := by
  induction l generalizing kept seen with
  | nil => simp
  | cons a l ih =>
    rw [foldl_cons]
    by_cases ha : key a ∈ seen
    · rw [firstsStep, if_pos ha, ih, firsts_cons_of_mem ha]
    · rw [firstsStep, if_neg ha, ih, firsts_cons_of_notMem ha]
      simp

end List
