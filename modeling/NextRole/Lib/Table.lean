import Mathlib.Data.List.Nodup
import Mathlib.Data.List.Perm.Subperm

/-!
# Tables of rows with a primary key

A table is a list of rows no two of which have the same key, so that a row is
determined by its key.  A write replaces one row or removes one.

## Main definitions

* `Keyed` — row types with a primary key.
* `Table` — rows with distinct keys.
* `Table.get?`, `Table.put`, `Table.erase`, `Table.insertNew` — reading and writing one row.
* `Table.select`, `Table.deleteWhere` — the rows that satisfy a condition, and the others.
* `Table.map` — the rows read through a function.
-/

/-- Row types `α` whose primary key has type `κ`. -/
class Keyed (α : Type*) (κ : outParam (Type*)) where
  /-- The primary key of a row. -/
  key : α → κ

/-- Rows no two of which share their primary key. -/
structure Table (α : Type*) {κ : Type*} [Keyed α κ] where
  rows : List α
  nodup : (rows.map Keyed.key).Nodup

namespace Table

variable {α κ : Type*} [Keyed α κ]

@[ext] theorem ext {t t' : Table α} (h : t.rows = t'.rows) : t = t' := by
  cases t
  cases t'
  congr

instance [DecidableEq α] : DecidableEq (Table α) := fun t t' =>
  decidable_of_iff (t.rows = t'.rows) ⟨ext, fun h => by rw [h]⟩

instance : Membership α (Table α) := ⟨fun t a => a ∈ t.rows⟩

theorem mem_def {t : Table α} {a : α} : a ∈ t ↔ a ∈ t.rows := Iff.rfl

instance [DecidableEq α] (t : Table α) (a : α) : Decidable (a ∈ t) :=
  inferInstanceAs (Decidable (a ∈ t.rows))

instance (t : Table α) (p : α → Prop) [DecidablePred p] : Decidable (∀ a ∈ t, p a) :=
  inferInstanceAs (Decidable (∀ a ∈ t.rows, p a))

instance (t : Table α) (p : α → Prop) [DecidablePred p] : Decidable (∃ a ∈ t, p a) :=
  inferInstanceAs (Decidable (∃ a ∈ t.rows, p a))

/-- The table without rows. -/
def empty : Table α := ⟨[], by simp⟩

instance : Inhabited (Table α) := ⟨empty⟩

@[simp] theorem not_mem_empty (a : α) : a ∉ (empty : Table α) := by
  simp [mem_def, empty]

theorem eq_of_key {t : Table α} {a b : α} (ha : a ∈ t) (hb : b ∈ t)
    (h : Keyed.key a = Keyed.key b) : a = b :=
  List.inj_on_of_nodup_map t.nodup ha hb h

/-- The rows that satisfy `p`, in the order of the table. -/
def select (t : Table α) (p : α → Bool) : List α := t.rows.filter p

@[simp] theorem mem_select {t : Table α} {p : α → Bool} {a : α} :
    a ∈ t.select p ↔ a ∈ t ∧ p a = true := by
  simp [select, mem_def]

@[simp] theorem select_empty (p : α → Bool) : (empty : Table α).select p = [] := rfl

theorem nodup_rows (t : Table α) : t.rows.Nodup := t.nodup.of_map

theorem nodup_select (t : Table α) (p : α → Bool) : (t.select p).Nodup :=
  t.nodup_rows.filter p

theorem length_select_le {t : Table α} {p : α → Bool} {ks : List κ}
    (h : ∀ a ∈ t, p a = true → Keyed.key a ∈ ks) : (t.select p).length ≤ ks.length := by
  have hnodup : ((t.select p).map Keyed.key).Nodup :=
    t.nodup.sublist (List.filter_sublist.map _)
  have hsub : (t.select p).map Keyed.key ⊆ ks := by
    intro k hk
    obtain ⟨a, ha, rfl⟩ := List.mem_map.mp hk
    obtain ⟨hmem, hp⟩ := mem_select.mp ha
    exact h a hmem hp
  have hle := (List.subperm_of_subset hnodup hsub).length_le
  rwa [List.length_map] at hle

/-- Remove the rows that satisfy `p`. -/
def deleteWhere (t : Table α) (p : α → Bool) : Table α where
  rows := t.rows.filter fun a => !p a
  nodup := t.nodup.sublist (List.filter_sublist.map _)

@[simp] theorem mem_deleteWhere {t : Table α} {p : α → Bool} {a : α} :
    a ∈ t.deleteWhere p ↔ a ∈ t ∧ p a = false := by
  simp [deleteWhere, mem_def]

/-- The rows read through a function that keeps the keys. -/
def map {β : Type*} [Keyed β κ] (t : Table α) (f : α → β) (hf : ∀ a, Keyed.key (f a) = Keyed.key a) :
    Table β where
  rows := t.rows.map f
  nodup := by
    have hkeys : (t.rows.map f).map Keyed.key = t.rows.map Keyed.key := by
      rw [List.map_map]
      exact List.map_congr_left fun a _ => hf a
    rw [hkeys]
    exact t.nodup

variable [DecidableEq κ]

/-! ### Reading and writing one row -/

/-- The row of key `k`. -/
def get? (t : Table α) (k : κ) : Option α := t.rows.find? (fun a => Keyed.key a = k)

/-- Remove the row of key `k`, if there is one. -/
def erase (t : Table α) (k : κ) : Table α where
  rows := t.rows.filter (fun a => Keyed.key a ≠ k)
  nodup := t.nodup.sublist (List.filter_sublist.map _)

/-- Write the row `a`, in place of the row with its key if there is one. -/
def put (t : Table α) (a : α) : Table α where
  rows := (t.erase (Keyed.key a)).rows ++ [a]
  nodup := by
    rw [List.map_append, List.map_singleton, List.nodup_append]
    refine ⟨(t.erase _).nodup, by simp, ?_⟩
    intro x hx y hy
    obtain ⟨b, hb, rfl⟩ := List.mem_map.mp hx
    rw [List.mem_singleton] at hy
    subst hy
    simpa using (List.mem_filter.mp hb).2

@[simp] theorem mem_erase {t : Table α} {k : κ} {a : α} :
    a ∈ t.erase k ↔ a ∈ t ∧ Keyed.key a ≠ k := by
  simp [erase, mem_def]

@[simp] theorem mem_put {t : Table α} {a b : α} :
    a ∈ t.put b ↔ a = b ∨ a ∈ t ∧ Keyed.key a ≠ Keyed.key b := by
  simp [put, erase, mem_def, or_comm]

theorem get?_eq_some {t : Table α} {k : κ} {a : α} :
    t.get? k = some a ↔ a ∈ t ∧ Keyed.key a = k := by
  constructor
  · intro h
    exact ⟨List.mem_of_find?_eq_some h, by simpa using List.find?_some h⟩
  · rintro ⟨ha, rfl⟩
    cases hf : t.get? (Keyed.key a) with
    | none => simpa using List.find?_eq_none.mp hf a ha
    | some b =>
      have hb : b ∈ t := List.mem_of_find?_eq_some hf
      have hk : Keyed.key b = Keyed.key a := by simpa using List.find?_some hf
      rw [eq_of_key hb ha hk]

theorem mem_iff_get? {t : Table α} {a : α} : a ∈ t ↔ t.get? (Keyed.key a) = some a := by
  simp [get?_eq_some]

theorem get?_eq_none {t : Table α} {k : κ} :
    t.get? k = none ↔ ∀ a ∈ t, Keyed.key a ≠ k := by
  simp [get?, mem_def]

theorem get?_eq_map {t t' : Table α} {f : α → α} {k k' : κ}
    (h : ∀ a', a' ∈ t' ∧ Keyed.key a' = k' ↔ ∃ a ∈ t, Keyed.key a = k ∧ f a = a') :
    t'.get? k' = (t.get? k).map f := by
  ext a'
  rw [get?_eq_some, h, Option.map_eq_some_iff]
  simp only [get?_eq_some, and_assoc]

@[simp] theorem get?_empty (k : κ) : (empty : Table α).get? k = none := rfl

theorem get?_erase (t : Table α) (k k' : κ) :
    (t.erase k).get? k' = if k' = k then none else t.get? k' := by
  ext a
  split
  · next h => simp [get?_eq_some, h]
  · next h =>
    simp only [get?_eq_some, mem_erase, and_assoc]
    exact and_congr_right fun _ => ⟨And.right, fun hk => ⟨hk ▸ h, hk⟩⟩

theorem get?_put (t : Table α) (a : α) (k : κ) :
    (t.put a).get? k = if k = Keyed.key a then some a else t.get? k := by
  ext b
  split
  · next h =>
    simp only [get?_eq_some, mem_put, Option.some.injEq]
    constructor
    · rintro ⟨rfl | ⟨-, hne⟩, hk⟩
      · rfl
      · exact absurd (hk.trans h) hne
    · rintro rfl
      exact ⟨Or.inl rfl, h.symm⟩
  · next h =>
    simp only [get?_eq_some, mem_put]
    constructor
    · rintro ⟨rfl | ⟨hb, -⟩, hk⟩
      · exact absurd hk.symm h
      · exact ⟨hb, hk⟩
    · rintro ⟨hb, hk⟩
      exact ⟨Or.inr ⟨hb, hk ▸ h⟩, hk⟩

theorem map_get?_put {β : Type*} (f : α → β) (t : Table α) (a : α) (k : κ) :
    ((t.put a).get? k).map f = if k = Keyed.key a then some (f a) else (t.get? k).map f := by
  rw [get?_put]
  split <;> rfl

theorem map_get?_erase {β : Type*} (f : α → β) (t : Table α) (k k' : κ) :
    ((t.erase k).get? k').map f = if k' = k then none else (t.get? k').map f := by
  rw [get?_erase]
  split <;> rfl

theorem erase_put (t : Table α) (a : α) : (t.put a).erase (Keyed.key a) = t.erase (Keyed.key a) := by
  apply ext
  simp [put, erase]

theorem put_put {t : Table α} {a b : α} (h : Keyed.key b = Keyed.key a) :
    (t.put a).put b = t.put b := by
  have hself : ((t.put a).erase (Keyed.key b)).rows = (t.erase (Keyed.key b)).rows := by
    rw [h, erase_put]
  apply ext
  exact congrArg (· ++ [b]) hself

/-- Write the row `a` if its key is free. -/
def insertNew (t : Table α) (a : α) : Table α := if (t.get? (Keyed.key a)).isSome then t else t.put a

@[simp] theorem mem_insertNew {t : Table α} {a b : α} :
    a ∈ t.insertNew b ↔ a ∈ t ∨ a = b ∧ t.get? (Keyed.key b) = none := by
  unfold insertNew
  cases hget : t.get? (Keyed.key b) with
  | some c => simp
  | none =>
    simp only [Option.isSome_none, Bool.false_eq_true, if_false, mem_put, and_true]
    constructor
    · rintro (rfl | ⟨ha, -⟩)
      · exact Or.inr rfl
      · exact Or.inl ha
    · rintro (ha | rfl)
      · exact Or.inr ⟨ha, get?_eq_none.mp hget a ha⟩
      · exact Or.inl rfl

theorem exists_mem_insertNew (t : Table α) (a : α) :
    ∃ b ∈ t.insertNew a, Keyed.key b = Keyed.key a := by
  cases hget : t.get? (Keyed.key a) with
  | none => exact ⟨a, mem_insertNew.mpr (Or.inr ⟨rfl, hget⟩), rfl⟩
  | some b =>
    obtain ⟨hb, hkey⟩ := get?_eq_some.mp hget
    exact ⟨b, mem_insertNew.mpr (Or.inl hb), hkey⟩

/-! ### Writing several rows -/

/-- Rows with distinct keys, written one after the other, replace those with their keys. -/
theorem mem_foldl_put {t : Table α} {as : List α} (h : (as.map Keyed.key).Nodup) {a : α} :
    a ∈ as.foldl put t ↔ a ∈ as ∨ a ∈ t ∧ Keyed.key a ∉ as.map Keyed.key := by
  induction as generalizing t with
  | nil => simp
  | cons b as ih =>
    obtain ⟨hb, h⟩ := List.nodup_cons.mp h
    rw [List.foldl_cons, ih h, mem_put, List.mem_cons, List.map_cons, List.mem_cons, not_or]
    constructor
    · rintro (ha | ⟨rfl | ⟨ha, hne⟩, hnot⟩)
      · exact Or.inl (Or.inr ha)
      · exact Or.inl (Or.inl rfl)
      · exact Or.inr ⟨ha, hne, hnot⟩
    · rintro ((rfl | ha) | ⟨ha, hne, hnot⟩)
      · exact Or.inr ⟨Or.inl rfl, hb⟩
      · exact Or.inl ha
      · exact Or.inr ⟨Or.inr ⟨ha, hne⟩, hnot⟩

theorem mem_foldl_erase {t : Table α} {ks : List κ} {a : α} :
    a ∈ ks.foldl erase t ↔ a ∈ t ∧ Keyed.key a ∉ ks := by
  induction ks generalizing t with
  | nil => simp
  | cons k ks ih =>
    rw [List.foldl_cons, ih, mem_erase, List.mem_cons, not_or, and_assoc]

end Table
