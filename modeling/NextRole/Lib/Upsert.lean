import Mathlib.Data.List.Induction
import NextRole.Lib.Table

/-!
# Upserts with a condition

An upsert that replaces a row only by a row of its class.  The first row of a key decides the class,
and the last row of that class is what stays; the last row of the key stays exactly if it is of the
class.

## Main definitions

* `Table.upsertSame` — the upsert.
* `Table.firstOf`, `Table.lastOf`, `Table.lastSame` — rows of a key among those that are written.

## Main results

* `Table.get?_upserts` — **what stays of a key**.
* `Table.lastSame_eq_lastOf_iff` — when the last row of a key stays.
-/

namespace Table

variable {α κ γ : Type*} [Keyed α κ] [DecidableEq κ] [DecidableEq γ] (cls : α → γ)

/-- A row is inserted, or replaces the row of its key if that is of its class. -/
def upsertSame (t : Table α) (a : α) : Table α :=
  match t.get? (Keyed.key a) with
  | none => t.put a
  | some b => if cls b = cls a then t.put a else t

/-- The first row of a key. -/
def firstOf (rows : List α) (k : κ) : Option α := rows.find? fun a => Keyed.key a = k

/-- The last row of a key. -/
def lastOf (rows : List α) (k : κ) : Option α := (rows.filter fun a => Keyed.key a = k).getLast?

/-- The last row of a key that is of the class of the first one. -/
def lastSame (rows : List α) (k : κ) : Option α :=
  (firstOf rows k).bind fun b => lastOf (rows.filter fun a => cls a = cls b) k

theorem firstOf_cons (a : α) (rows : List α) (k : κ) :
    firstOf (a :: rows) k = if Keyed.key a = k then some a else firstOf rows k := by
  rw [firstOf, List.find?_cons, firstOf]
  by_cases h : Keyed.key a = k <;> simp [h]

theorem firstOf_eq_none {rows : List α} {k : κ} :
    firstOf rows k = none ↔ ∀ a ∈ rows, Keyed.key a ≠ k := by
  simp [firstOf]

theorem firstOf_eq_some {rows : List α} {k : κ} {a : α} (h : firstOf rows k = some a) :
    a ∈ rows ∧ Keyed.key a = k :=
  ⟨List.mem_of_find?_eq_some h, by simpa using List.find?_some h⟩

theorem lastOf_eq_some {rows : List α} {k : κ} {a : α} (h : lastOf rows k = some a) :
    a ∈ rows ∧ Keyed.key a = k := by
  have hmem := List.mem_of_getLast? h
  rw [List.mem_filter, decide_eq_true_eq] at hmem
  exact hmem

theorem isSome_lastOf {rows : List α} {k : κ} :
    (lastOf rows k).isSome = true ↔ ∃ a ∈ rows, Keyed.key a = k := by
  rw [lastOf, List.getLast?_isSome, ← List.length_pos_iff, List.length_pos_iff_exists_mem]
  simp

/-! ### One more row -/

theorem firstOf_concat (rows : List α) (a : α) (k : κ) :
    firstOf (rows ++ [a]) k =
      (firstOf rows k).or (if Keyed.key a = k then some a else none) := by
  rw [firstOf, List.find?_append, firstOf, List.find?_singleton]
  simp

theorem lastOf_concat (rows : List α) (a : α) (k : κ) :
    lastOf (rows ++ [a]) k = if Keyed.key a = k then some a else lastOf rows k := by
  rw [lastOf, List.filter_append, lastOf]
  by_cases h : Keyed.key a = k <;> simp [h]

theorem lastOf_filter_concat (p : α → Bool) (rows : List α) (a : α) (k : κ) :
    lastOf ((rows ++ [a]).filter p) k =
      if p a = true ∧ Keyed.key a = k then some a else lastOf (rows.filter p) k := by
  rw [List.filter_append]
  by_cases hp : p a = true
  · rw [List.filter_cons_of_pos hp, List.filter_nil, lastOf_concat]
    simp only [hp, true_and]
  · rw [List.filter_cons_of_neg hp, List.filter_nil, List.append_nil, if_neg fun h => hp h.1]

/-- The row that stays after one more. -/
theorem lastSame_concat (rows : List α) (a : α) (k : κ) :
    lastSame cls (rows ++ [a]) k =
      if Keyed.key a = k then
        if ∀ b, firstOf rows k = some b → cls a = cls b then some a else lastSame cls rows k
      else lastSame cls rows k := by
  rw [lastSame, firstOf_concat, lastSame]
  by_cases hkey : Keyed.key a = k
  · cases firstOf rows k with
    | none =>
      rw [if_pos hkey, if_pos hkey, if_pos nofun, Option.none_or, Option.bind_some,
        lastOf_filter_concat, if_pos ⟨decide_eq_true rfl, hkey⟩]
    | some b =>
      rw [if_pos hkey, if_pos hkey, Option.some_or, Option.bind_some, lastOf_filter_concat]
      simp only [decide_eq_true_eq, hkey, and_true, Option.some.injEq, forall_eq', Option.bind_some]
  · rw [if_neg hkey, if_neg hkey, Option.or_none]
    cases firstOf rows k with
    | none => rfl
    | some b =>
      rw [Option.bind_some, lastOf_filter_concat, if_neg fun h => hkey h.2]
      rfl

/-- The last row of a key stays the last one among rows that include it. -/
theorem lastOf_filter {p : α → Bool} {rows : List α} {k : κ}
    (h : ∀ a, lastOf rows k = some a → p a = true) : lastOf (rows.filter p) k = lastOf rows k := by
  induction rows using List.reverseRecOn with
  | nil => rfl
  | append_singleton rows a ih =>
    rw [lastOf_filter_concat, lastOf_concat]
    rw [lastOf_concat] at h
    by_cases hkey : Keyed.key a = k
    · rw [if_pos hkey] at h
      rw [if_pos ⟨h a rfl, hkey⟩, if_pos hkey]
    · rw [if_neg hkey] at h
      rw [if_neg fun h => hkey h.2, if_neg hkey]
      exact ih h

/-! ### What stays -/

theorem lastSame_eq_some {rows : List α} {k : κ} {a : α} (h : lastSame cls rows k = some a) :
    (a ∈ rows ∧ Keyed.key a = k) ∧ ∃ b, firstOf rows k = some b ∧ cls a = cls b := by
  obtain ⟨b, hb, hlast⟩ := Option.bind_eq_some_iff.mp h
  obtain ⟨hmem, hkey⟩ := lastOf_eq_some hlast
  rw [List.mem_filter, decide_eq_true_eq] at hmem
  exact ⟨⟨hmem.1, hkey⟩, b, hb, hmem.2⟩

theorem lastSame_eq_none {rows : List α} {k : κ} :
    lastSame cls rows k = none ↔ firstOf rows k = none := by
  constructor
  · intro h
    rw [lastSame, Option.bind_eq_none_iff] at h
    by_contra hne
    obtain ⟨b, hb⟩ := Option.ne_none_iff_exists'.mp hne
    obtain ⟨hmem, hkey⟩ := firstOf_eq_some hb
    have hsome : (lastOf (rows.filter fun a => cls a = cls b) k).isSome = true :=
      isSome_lastOf.mpr ⟨b, by simp [hmem], hkey⟩
    rw [h b hb] at hsome
    cases hsome
  · intro h
    rw [lastSame, h, Option.bind_none]

theorem isSome_lastSame {rows : List α} {k : κ} :
    (lastSame cls rows k).isSome = true ↔ ∃ a ∈ rows, Keyed.key a = k := by
  rw [Option.isSome_iff_ne_none, ne_eq, lastSame_eq_none, firstOf_eq_none]
  simp

/-- **What stays of a key**: of the rows that are written to an empty table, the last one of the
class of the first. -/
theorem get?_upserts (rows : List α) (k : κ) :
    (rows.foldl (upsertSame cls) empty).get? k = lastSame cls rows k := by
  induction rows using List.reverseRecOn with
  | nil => rfl
  | append_singleton rows a ih =>
    have hstep : (upsertSame cls (rows.foldl (upsertSame cls) empty) a).get? k =
        if Keyed.key a = k then
          if ∀ b, firstOf rows k = some b → cls a = cls b then some a else lastSame cls rows k
        else lastSame cls rows k := by
      by_cases hkey : Keyed.key a = k
      · rw [if_pos hkey, upsertSame, hkey, ih]
        cases hlast : lastSame cls rows k with
        | none =>
          have hfirst := (lastSame_eq_none cls).mp hlast
          rw [hfirst, if_pos nofun]
          simp only
          rw [get?_put, if_pos hkey.symm]
        | some c =>
          -- what stays is of the class of the first row, so the row is compared with that
          obtain ⟨-, b, hb, hcls⟩ := lastSame_eq_some cls hlast
          simp only [hb, Option.some.injEq, forall_eq', hcls, eq_comm (a := cls a)]
          split
          · rw [get?_put, if_pos hkey.symm]
          · rw [ih, hlast]
      · rw [if_neg hkey, upsertSame]
        split
        · rw [get?_put, if_neg (Ne.symm hkey), ih]
        · split
          · rw [get?_put, if_neg (Ne.symm hkey), ih]
          · exact ih
    rw [List.foldl_append, List.foldl_cons, List.foldl_nil, hstep, lastSame_concat]

/-- The last row of a key stays exactly if it is of the class of the first. -/
theorem lastSame_eq_lastOf_iff {rows : List α} {k : κ} :
    lastSame cls rows k = lastOf rows k ↔
      ∀ b a, firstOf rows k = some b → lastOf rows k = some a → cls a = cls b := by
  constructor
  · intro h b a hb ha
    obtain ⟨-, b', hb', hcls⟩ := lastSame_eq_some cls (h.trans ha)
    rw [hb] at hb'
    cases hb'
    exact hcls
  · intro h
    cases hfirst : firstOf rows k with
    | none =>
      rw [(lastSame_eq_none cls).mpr hfirst]
      cases hlast : lastOf rows k with
      | none => rfl
      | some a =>
        obtain ⟨hmem, hkey⟩ := lastOf_eq_some hlast
        exact absurd hkey (firstOf_eq_none.mp hfirst a hmem)
    | some b =>
      rw [lastSame, hfirst, Option.bind_some]
      exact lastOf_filter fun a ha => decide_eq_true (h b a hfirst ha)

/-! ### Rows made of others -/

variable {β : Type*} [Keyed β κ] {f : β → α}

theorem firstOf_map (hf : ∀ b, Keyed.key (f b) = Keyed.key b) (rows : List β) (k : κ) :
    firstOf (rows.map f) k = (firstOf rows k).map f := by
  rw [firstOf, List.find?_map, firstOf]
  simp only [Function.comp_def, hf]

theorem lastOf_map (hf : ∀ b, Keyed.key (f b) = Keyed.key b) (rows : List β) (k : κ) :
    lastOf (rows.map f) k = (lastOf rows k).map f := by
  rw [lastOf, List.filter_map, List.getLast?_map, lastOf]
  simp only [Function.comp_def, hf]

theorem lastSame_map (hf : ∀ b, Keyed.key (f b) = Keyed.key b) (rows : List β) (k : κ) :
    lastSame cls (rows.map f) k = (lastSame (fun b => cls (f b)) rows k).map f := by
  rw [lastSame, firstOf_map hf, lastSame]
  cases firstOf rows k with
  | none => rfl
  | some b =>
    rw [Option.map_some, Option.bind_some, Option.bind_some, List.filter_map, lastOf_map hf]
    rfl

end Table
