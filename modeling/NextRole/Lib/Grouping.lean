import Mathlib.Data.List.Induction
import Mathlib.Data.List.Perm.Basic
import NextRole.Lib.Dict

/-!
# Items grouped by a key

A loop over items that appends each one to the list of its key splits the items: every item is in
one group, the group of its key, and there as often as it came.

## Main definitions

* `Dict.mapValues` — a dictionary with other values for its keys.
* `Dict.push`, `Dict.groupBy` — an item in its group, and all items in theirs.

## Main results

* `Dict.mapValues_set` — a value that is changed before or after it is set.
* `Dict.perm_flatten_groupBy` — **no item is lost or doubled**.
* `Dict.key_of_mem_groupBy` — a group has the items of its key.
-/

namespace Dict

variable {α κ ν ν' : Type*} [DecidableEq κ] {k : κ}

/-! ### Other values -/

/-- The dictionary with other values for its keys. -/
def mapValues (f : ν → ν') (d : Dict κ ν) : Dict κ ν' where
  entries := d.entries.map fun e => (e.1, f e.2)
  nodup := by
    rw [List.map_map]
    exact d.nodup

omit [DecidableEq κ] in
@[simp] theorem entries_mapValues (f : ν → ν') (d : Dict κ ν) :
    (d.mapValues f).entries = d.entries.map fun e => (e.1, f e.2) := rfl

omit [DecidableEq κ] in
theorem ext_entries {d d' : Dict κ ν} (h : d.entries = d'.entries) : d = d' := by
  cases d
  cases d'
  cases h
  rfl

theorem get?_mapValues (f : ν → ν') (d : Dict κ ν) (k : κ) :
    (d.mapValues f).get? k = (d.get? k).map f := by
  simp only [get?, entries_mapValues]
  induction d.entries with
  | nil => rfl
  | cons e l ih =>
    rw [List.map_cons, List.lookup_cons, List.lookup_cons]
    split
    · next h => rfl
    · next h => exact ih

theorem setEntries_map (f : ν → ν') (k : κ) (v : ν) (l : List (κ × ν)) :
    setEntries k (f v) (l.map fun e => (e.1, f e.2)) =
      (setEntries k v l).map fun e => (e.1, f e.2) := by
  induction l with
  | nil => rfl
  | cons e l ih =>
    rw [List.map_cons, setEntries, setEntries]
    split
    · rfl
    · rw [ih, List.map_cons]

theorem mapValues_set (f : ν → ν') (d : Dict κ ν) (k : κ) (v : ν) :
    (d.set k v).mapValues f = (d.mapValues f).set k (f v) :=
  ext_entries (setEntries_map f k v d.entries).symm

/-! ### Groups -/

/-- An item at the end of the group of a key. -/
def push (k : κ) (a : α) (d : Dict κ (List α)) : Dict κ (List α) :=
  d.set k ((d.get? k).getD [] ++ [a])

/-- The items in the groups of their keys. -/
def groupBy (f : α → κ) (xs : List α) : Dict κ (List α) :=
  xs.foldl (fun d a => d.push (f a) a) {}

@[simp] theorem groupBy_nil (f : α → κ) : groupBy f [] = {} := rfl

@[simp] theorem groupBy_append_singleton (f : α → κ) (xs : List α) (a : α) :
    groupBy f (xs ++ [a]) = (groupBy f xs).push (f a) a := by
  rw [groupBy, List.foldl_append]
  rfl

theorem perm_flatten_setEntries (a : α) (l : List (κ × List α)) :
    (((setEntries k ((l.lookup k).getD [] ++ [a]) l).map Prod.snd).flatten).Perm
      ((l.map Prod.snd).flatten ++ [a]) := by
  induction l with
  | nil => simp [setEntries]
  | cons e l ih =>
    obtain ⟨k₀, group⟩ := e
    rw [setEntries, List.lookup_cons]
    split
    · next h =>
      obtain rfl : k₀ = k := h
      rw [beq_self_eq_true, List.map_cons, List.map_cons, List.flatten_cons, List.flatten_cons]
      simp only [Option.getD_some, List.append_assoc]
      exact List.Perm.append_left _ List.perm_append_comm
    · next h =>
      rw [beq_false_of_ne (Ne.symm h), List.map_cons, List.map_cons, List.flatten_cons,
        List.flatten_cons, List.append_assoc]
      exact ih.append_left _

theorem perm_flatten_groupBy (f : α → κ) (xs : List α) :
    (groupBy f xs).values.flatten.Perm xs := by
  induction xs using List.reverseRecOn with
  | nil => exact .nil
  | append_singleton xs a ih =>
    rw [groupBy_append_singleton]
    exact (perm_flatten_setEntries a _).trans (ih.append_right _)

/-- A group has the items of its key. -/
theorem key_of_mem_groupBy {f : α → κ} {xs : List α} {group : List α}
    (h : (k, group) ∈ (groupBy f xs).entries) {a : α} (ha : a ∈ group) : f a = k := by
  induction xs using List.reverseRecOn generalizing k group with
  | nil => cases h
  | append_singleton xs b ih =>
    rw [groupBy_append_singleton] at h
    rcases mem_set.mp h with ⟨rfl, rfl⟩ | ⟨-, hold⟩
    · rcases List.mem_append.mp ha with ha | ha
      · cases hget : (groupBy f xs).get? (f b) with
        | none =>
          rw [hget] at ha
          cases ha
        | some old =>
          rw [hget] at ha
          exact ih (get?_eq_some_iff.mp hget) ha
      · rw [List.mem_singleton.mp ha]
    · exact ih hold ha

theorem ne_nil_of_mem_groupBy {f : α → κ} {xs : List α} {group : List α}
    (h : (k, group) ∈ (groupBy f xs).entries) : group ≠ [] := by
  induction xs using List.reverseRecOn generalizing k group with
  | nil => cases h
  | append_singleton xs b ih =>
    rw [groupBy_append_singleton] at h
    rcases mem_set.mp h with ⟨-, rfl⟩ | ⟨-, hold⟩
    · exact List.append_ne_nil_of_right_ne_nil _ (List.cons_ne_nil _ _)
    · exact ih hold

end Dict
