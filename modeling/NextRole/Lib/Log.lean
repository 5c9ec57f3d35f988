import Mathlib.Data.List.Basic
import Mathlib.Order.Lattice

/-!
# Increasing logs, read by a cursor

A log is a list of entries with increasing keys.  A reader keeps the key of the last
entry it has read and asks for the entries after it.

## Main definitions

* `Log.Increasing` — the keys increase, from above a floor.
* `Log.after` — the entries after a cursor.
* `Log.cursor` — the cursor of a reader that has read a list of entries.

## Main results

* `Log.Increasing.concat` — a new last entry.
* `Log.Increasing.after_cursor` — what follows the cursor is what has not been read.
-/

namespace Log

variable {α ι : Type*} {key : α → ι} {floor : ι} {log read rest : List α} {e : α}

/-- The cursor of a reader: the key of the last entry it has read. -/
def cursor (key : α → ι) (floor : ι) (read : List α) : ι := (read.getLast?.map key).getD floor

@[simp] theorem cursor_nil : cursor key floor [] = floor := rfl

@[simp] theorem cursor_concat : cursor key floor (read ++ [e]) = key e := by
  simp [cursor]

variable [LinearOrder ι]

/-- The keys are above `floor` and increase. -/
structure Increasing (key : α → ι) (floor : ι) (log : List α) : Prop where
  above : ∀ e ∈ log, floor < key e
  pairwise : log.Pairwise fun e f => key e < key f

theorem Increasing.nil : Increasing key floor [] :=
  ⟨by simp, List.Pairwise.nil⟩

/-- A new last entry. -/
theorem Increasing.concat (h : Increasing key floor log) (hf : floor < key e)
    (hlt : ∀ x ∈ log, key x < key e) : Increasing key floor (log ++ [e]) where
  above x hx := by
    rcases List.mem_append.mp hx with hx | hx
    · exact h.above x hx
    · rw [List.mem_singleton] at hx
      rw [hx]
      exact hf
  pairwise := by
    rw [List.pairwise_append]
    refine ⟨h.pairwise, List.pairwise_singleton .., fun x hx y hy => ?_⟩
    rw [List.mem_singleton] at hy
    rw [hy]
    exact hlt x hx

theorem Increasing.sublist (h : Increasing key floor log) (hs : rest.Sublist log) :
    Increasing key floor rest :=
  ⟨fun e he => h.above e (hs.subset he), h.pairwise.sublist hs⟩

/-! ### What follows a cursor -/

/-- The entries after a cursor. -/
def after (key : α → ι) (cursor : ι) (log : List α) : List α :=
  log.filter fun e => cursor < key e

@[simp] theorem mem_after {cursor : ι} : e ∈ after key cursor log ↔ e ∈ log ∧ cursor < key e := by
  simp [after]

theorem after_sublist (cursor : ι) : (after key cursor log).Sublist log := List.filter_sublist

theorem Increasing.le_cursor (h : Increasing key floor read) (he : e ∈ read) :
    key e ≤ cursor key floor read := by
  rcases List.eq_nil_or_concat read with rfl | ⟨init, last, rfl⟩
  · cases he
  · rw [List.concat_eq_append] at h he ⊢
    rw [cursor_concat]
    rcases List.mem_append.mp he with he | he
    · have hp := (List.pairwise_append.mp h.pairwise).2.2
      exact (hp e he last (List.mem_singleton_self _)).le
    · rw [List.mem_singleton] at he
      rw [he]

theorem Increasing.cursor_lt (h : Increasing key floor (read ++ rest)) (he : e ∈ rest) :
    cursor key floor read < key e := by
  rcases List.eq_nil_or_concat read with rfl | ⟨init, last, rfl⟩
  · exact h.above e (by simpa using he)
  · rw [List.concat_eq_append] at h ⊢
    rw [cursor_concat]
    have hp := (List.pairwise_append.mp h.pairwise).2.2
    exact hp last (by simp) e he

/-- **What follows the cursor is what has not been read.** -/
theorem Increasing.after_cursor (h : Increasing key floor (read ++ rest)) :
    after key (cursor key floor read) (read ++ rest) = rest := by
  have hread : ∀ e ∈ read, ¬ cursor key floor read < key e := by
    intro e he
    exact not_lt.mpr ((h.sublist (List.sublist_append_left ..)).le_cursor he)
  have hrest : ∀ e ∈ rest, cursor key floor read < key e := fun e he => h.cursor_lt he
  rw [after, List.filter_append, List.filter_eq_nil_iff.mpr (by simpa using hread),
    List.filter_eq_self.mpr (by simpa using hrest), List.nil_append]

end Log
