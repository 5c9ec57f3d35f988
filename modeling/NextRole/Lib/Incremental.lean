import NextRole.Lib.Dict
import NextRole.Lib.Table
import Mathlib.Order.Lattice

/-!
# Incremental extraction by a cursor

The rows of a source table are read into a warehouse by loads.  A load reads the rows whose
cursor is not below the greatest cursor that loads have seen before, shapes each of them into
rows of the warehouse, and writes these over those with the same keys.  A load that meets a
row which cannot be shaped changes nothing.

A row is safe as long as the next load reads it or the warehouse has it as it is.  Loads keep
that, and so does a change of the source whose new rows the next load reads.

## Main definitions

* `Extractor` — the cursor of a row, and its rows in the warehouse.
* `Extractor.ofRows` — one row of the warehouse for each row of the source.
* `Extracted`, `Extractor.load` — a warehouse, and a load into it.
* `Extractor.Synced` — every row is safe.

## Main results

* `Extractor.stored_of_load` — a load stores every row of a source whose rows are safe.
* `Extractor.get?_load_of_mem`, `Extractor.get?_load_of_notMem` — what a load leaves under the
  keys of a row.
* `Extractor.Synced.load`, `Extractor.Synced.change` — what keeps the rows safe.
-/

/-- How the rows of a source are extracted: their cursors, and the rows of the warehouse that
they are shaped into.  A row without cursor or shape makes the load fail. -/
structure Extractor (ρ κ ω ι : Type*) where
  cursor : ρ → Option ι
  shape : ρ → Option (List (κ × ω))

/-- What the loads have left: the greatest cursor they have seen, and the warehouse. -/
structure Extracted (κ ω ι : Type*) where
  seen : Option ι := none
  warehouse : Dict κ ω := {}

namespace Extractor

variable {ρ κ ω ι : Type*}

/-! ### Rows of the warehouse -/

section Rows

variable (E : Extractor ρ κ ω ι)

/-- A row that is read: its cursor, and its rows in the warehouse. -/
def yield (r : ρ) : Option (ι × List (κ × ω)) :=
  (E.cursor r).bind fun t => (E.shape r).map fun l => (t, l)

/-- The row can be read. -/
def Readable (r : ρ) : Prop := (E.yield r).isSome = true

instance (r : ρ) : Decidable (E.Readable r) := inferInstanceAs (Decidable (_ = true))

/-- The keys in the warehouse belong to the rows of the source: `owner` tells to which. -/
structure Owned {κs : Type*} [Keyed ρ κs] (owner : κ → κs) : Prop where
  owner_eq : ∀ r l, E.shape r = some l → ∀ e ∈ l, owner e.1 = Keyed.key r
  nodup : ∀ r l, E.shape r = some l → (l.map Prod.fst).Nodup

variable {E}

/-- Where all rows that are read can be read, the load has one yield for each. -/
theorem exists_yields {rows : List ρ} (h : ∀ r ∈ rows, E.Readable r) :
    ∃ ys, rows.mapM E.yield = some ys ∧ ys.map Prod.snd = rows.map fun r => (E.shape r).getD [] := by
  induction rows with
  | nil => exact ⟨[], rfl, rfl⟩
  | cons r rows ih =>
    obtain ⟨hr, hrows⟩ := List.forall_mem_cons.mp h
    obtain ⟨ys, hys, hmap⟩ := ih hrows
    obtain ⟨y, hy⟩ := Option.isSome_iff_exists.mp hr
    refine ⟨y :: ys, ?_, ?_⟩
    · rw [List.mapM_cons, hy, hys]
      rfl
    · obtain ⟨t, -, hl⟩ := Option.bind_eq_some_iff.mp hy
      obtain ⟨l, hshape, rfl⟩ := Option.map_eq_some_iff.mp hl
      rw [List.map_cons, List.map_cons, hmap, hshape, Option.getD_some]

/-- The rows of a load that does not fail can be read. -/
theorem isSome_yield_of_mapM {rows : List ρ} {ys : List (ι × List (κ × ω))}
    (h : rows.mapM E.yield = some ys) : ∀ r ∈ rows, E.Readable r := by
  induction rows generalizing ys with
  | nil => exact fun r hr => absurd hr List.not_mem_nil
  | cons r rows ih =>
    rw [List.mapM_cons, Option.bind_eq_bind, Option.bind_eq_some_iff] at h
    obtain ⟨y, hy, h⟩ := h
    rw [Option.bind_eq_bind, Option.bind_eq_some_iff] at h
    obtain ⟨ys', hys', -⟩ := h
    refine List.forall_mem_cons.mpr ⟨?_, ih hys'⟩
    rw [Readable, hy]
    rfl

variable {κs : Type*} [Keyed ρ κs] {owner : κ → κs}

theorem Owned.owner_of_mem (h : E.Owned owner) {r : ρ} {e : κ × ω}
    (he : e ∈ (E.shape r).getD []) : owner e.1 = Keyed.key r := by
  cases hr : E.shape r with
  | none =>
    rw [hr] at he
    cases he
  | some l =>
    rw [hr] at he
    exact h.owner_eq r l hr e he

/-- The rows of the warehouse that come from rows of the source with distinct keys have
distinct keys. -/
theorem Owned.nodup_flatMap (h : E.Owned owner) {rows : List ρ}
    (hrows : (rows.map Keyed.key).Nodup) :
    ((rows.flatMap fun r => (E.shape r).getD []).map Prod.fst).Nodup := by
  induction rows with
  | nil => exact List.nodup_nil
  | cons r rows ih =>
    rw [List.map_cons, List.nodup_cons] at hrows
    rw [List.flatMap_cons, List.map_append, List.nodup_append']
    refine ⟨?_, ih hrows.2, ?_⟩
    · cases hr : E.shape r with
      | none => exact List.nodup_nil
      | some l => exact h.nodup r l hr
    · intro k hk hk'
      obtain ⟨e, he, rfl⟩ := List.mem_map.mp hk
      obtain ⟨e', he', hkey⟩ := List.mem_map.mp hk'
      obtain ⟨r', hr', he'⟩ := List.mem_flatMap.mp he'
      -- both rows own the key
      have howner : Keyed.key r' = Keyed.key r := by
        rw [← h.owner_of_mem he', hkey, h.owner_of_mem he]
      exact hrows.1 (List.mem_map.mpr ⟨r', hr', howner⟩)

/-- Rows that are shaped into one row under their own key. -/
def ofRows {ω : Type*} (cursor : ρ → Option ι) (shape : ρ → Option ω) : Extractor ρ κs ω ι where
  cursor := cursor
  shape r := (shape r).map fun w => [(Keyed.key r, w)]

theorem ofRows_owned {ω : Type*} (cursor : ρ → Option ι) (shape : ρ → Option ω) :
    (ofRows cursor shape : Extractor ρ κs ω ι).Owned id where
  owner_eq r l hl e he := by
    obtain ⟨w, -, rfl⟩ := Option.map_eq_some_iff.mp hl
    rw [List.mem_singleton.mp he]
    rfl
  nodup r l hl := by
    obtain ⟨w, -, rfl⟩ := Option.map_eq_some_iff.mp hl
    exact List.nodup_singleton _

end Rows

/-! ### Loads -/

section Loads

variable [LinearOrder ι] [DecidableEq κ] (E : Extractor ρ κ ω ι)

/-- A load reads the row: nothing was seen, or nothing above its cursor. -/
def Reads (seen : Option ι) (r : ρ) : Prop :=
  ∀ c ∈ seen, ∃ t ∈ E.cursor r, c ≤ t

instance (seen : Option ι) (r : ρ) : Decidable (E.Reads seen r) :=
  match seen, h : E.cursor r with
  | none, _ => isTrue nofun
  | some c, none => isFalse fun hr => by
    obtain ⟨t, ht, -⟩ := hr c rfl
    rw [h] at ht
    cases ht
  | some c, some t => decidable_of_iff (c ≤ t) (by simp [Reads, h])

/-- The greatest cursor after a row is read; a row without rows in the warehouse has none. -/
def greatest (seen : Option ι) (y : ι × List (κ × ω)) : Option ι :=
  if y.2 = [] then seen else some (seen.elim y.1 (max y.1))

/-- A load of the rows of a source. -/
def load (rows : List ρ) (s : Extracted κ ω ι) : Extracted κ ω ι :=
  match (rows.filter fun r => E.Reads s.seen r).mapM E.yield with
  | none => s
  | some ys =>
    { seen := ys.foldl greatest s.seen
      warehouse := s.warehouse.setAll (ys.flatMap Prod.snd) }

/-- The warehouse has the row as it is. -/
def Stored (d : Dict κ ω) (r : ρ) : Prop :=
  ∃ l, E.shape r = some l ∧ ∀ k w, (k, w) ∈ l → d.get? k = some w

/-- Every row can be read, and the next load reads it or the warehouse has it as it is. -/
def Synced {κs : Type*} [Keyed ρ κs] (t : Table ρ) (s : Extracted κ ω ι) : Prop :=
  ∀ r ∈ t, E.Readable r ∧ (E.Reads s.seen r ∨ E.Stored s.warehouse r)

/-- The rows that a change brings can be read, and the next load reads them. -/
def Brings {κs : Type*} [Keyed ρ κs] (old new : Table ρ) (seen : Option ι) : Prop :=
  ∀ r ∈ new, r ∉ old → E.Readable r ∧ E.Reads seen r

instance {κs : Type*} [Keyed ρ κs] [DecidableEq ρ] (old new : Table ρ) (seen : Option ι) :
    Decidable (E.Brings old new seen) :=
  inferInstanceAs (Decidable (∀ r ∈ new, _))

variable {E} {κs : Type*} [Keyed ρ κs] {owner : κ → κs} {t t' : Table ρ} {s : Extracted κ ω ι}

theorem Synced.change (h : E.Synced t s) (hnew : E.Brings t t' s.seen) : E.Synced t' s := by
  intro r hr
  by_cases hold : r ∈ t
  · exact h r hold
  · exact ⟨(hnew r hr hold).1, .inl (hnew r hr hold).2⟩

/-- Every row that a load reads can be read. -/
def Loadable (E : Extractor ρ κ ω ι) (rows : List ρ) (seen : Option ι) : Prop :=
  ∀ r ∈ rows, E.Reads seen r → E.Readable r

instance (rows : List ρ) (seen : Option ι) : Decidable (E.Loadable rows seen) :=
  inferInstanceAs (Decidable (∀ r ∈ rows, _ → _))

/-- The rows of the warehouse that a load writes. -/
def written (E : Extractor ρ κ ω ι) (rows : List ρ) (seen : Option ι) : List (κ × ω) :=
  (rows.filter fun r => E.Reads seen r).flatMap fun r => (E.shape r).getD []

omit [DecidableEq κ] in
theorem mem_written {rows : List ρ} {seen : Option ι} {e : κ × ω} :
    e ∈ E.written rows seen ↔ ∃ r ∈ rows, E.Reads seen r ∧ e ∈ (E.shape r).getD [] := by
  simp [written, and_assoc]

theorem warehouse_load {rows : List ρ} (h : E.Loadable rows s.seen) :
    (E.load rows s).warehouse = s.warehouse.setAll (E.written rows s.seen) := by
  have hread : ∀ r ∈ rows.filter fun r => E.Reads s.seen r, E.Readable r := by
    intro r hr
    obtain ⟨hr, hreads⟩ := List.mem_filter.mp hr
    exact h r hr (of_decide_eq_true hreads)
  obtain ⟨ys, hys, hshapes⟩ := exists_yields hread
  have hrows : ys.flatMap Prod.snd = E.written rows s.seen := by
    rw [List.flatMap_def, hshapes, ← List.flatMap_def, written]
  rw [load, hys, ← hrows]

theorem load_of_not_loadable {rows : List ρ} (h : ¬ E.Loadable rows s.seen) :
    E.load rows s = s := by
  have hnone : ((rows.filter fun r => E.Reads s.seen r).mapM E.yield) = none := by
    by_contra hsome
    obtain ⟨ys, hys⟩ := Option.ne_none_iff_exists'.mp hsome
    refine h fun r hr hreads => ?_
    have hmem : r ∈ rows.filter fun r => E.Reads s.seen r :=
      List.mem_filter.mpr ⟨hr, decide_eq_true hreads⟩
    exact isSome_yield_of_mapM hys r hmem
  rw [load, hnone]

/-- The keys in the warehouse after a load. -/
theorem isSome_get?_load {rows : List ρ} (h : E.Loadable rows s.seen) (k : κ) :
    ((E.load rows s).warehouse.get? k).isSome = true ↔
      (∃ r ∈ rows, E.Reads s.seen r ∧ k ∈ ((E.shape r).getD []).map Prod.fst) ∨
        (s.warehouse.get? k).isSome = true := by
  rw [warehouse_load h, Dict.isSome_get?_setAll]
  refine or_congr ?_ Iff.rfl
  constructor
  · intro hk
    obtain ⟨e, he, rfl⟩ := List.mem_map.mp hk
    obtain ⟨r, hr, hreads, he⟩ := mem_written.mp he
    exact ⟨r, hr, hreads, List.mem_map.mpr ⟨e, he, rfl⟩⟩
  · rintro ⟨r, hr, hreads, hk⟩
    obtain ⟨e, he, rfl⟩ := List.mem_map.mp hk
    exact List.mem_map.mpr ⟨e, mem_written.mpr ⟨r, hr, hreads, he⟩, rfl⟩

theorem get?_load_of_mem (h : E.Owned owner) (hload : E.Loadable t.rows s.seen) {r : ρ}
    (hr : r ∈ t) (hreads : E.Reads s.seen r) {k : κ} {w : ω} (hkw : (k, w) ∈ (E.shape r).getD []) :
    (E.load t.rows s).warehouse.get? k = some w := by
  have hkeys : ((E.written t.rows s.seen).map Prod.fst).Nodup :=
    h.nodup_flatMap (t.nodup.sublist (List.filter_sublist.map _))
  rw [warehouse_load hload]
  exact Dict.get?_setAll_of_mem hkeys (mem_written.mpr ⟨r, hr, hreads, hkw⟩) _

theorem get?_load_of_notMem (h : E.Owned owner) (hload : E.Loadable t.rows s.seen) {r : ρ}
    (hr : r ∈ t) {k : κ} (hk : owner k = Keyed.key r)
    (hnot : E.Reads s.seen r → k ∉ ((E.shape r).getD []).map Prod.fst) :
    (E.load t.rows s).warehouse.get? k = s.warehouse.get? k := by
  rw [warehouse_load hload]
  refine Dict.get?_setAll_of_notMem (fun hmem => ?_) _
  obtain ⟨e, he, rfl⟩ := List.mem_map.mp hmem
  obtain ⟨r', hr', hreads, he⟩ := mem_written.mp he
  -- the key belongs to this row alone
  obtain rfl := Table.eq_of_key hr' hr ((h.owner_of_mem he).symm.trans hk)
  exact hnot hreads (List.mem_map.mpr ⟨e, he, rfl⟩)

/-- A load writes every row that it reads and keeps the others. -/
theorem stored_of_load (h : E.Owned owner) (hs : E.Synced t s) :
    ∀ r ∈ t, E.Stored (E.load t.rows s).warehouse r := by
  have hload : E.Loadable t.rows s.seen := fun r hr _ => (hs r hr).1
  intro r hr
  by_cases hreads : E.Reads s.seen r
  · -- the load reads the row
    obtain ⟨y, hy⟩ := Option.isSome_iff_exists.mp (hs r hr).1
    obtain ⟨c, -, hy⟩ := Option.bind_eq_some_iff.mp hy
    obtain ⟨l, hl, -⟩ := Option.map_eq_some_iff.mp hy
    refine ⟨l, hl, fun k w hkw => get?_load_of_mem h hload hr hreads ?_⟩
    rw [hl]
    exact hkw
  · obtain ⟨l, hl, hstored⟩ := (hs r hr).2.resolve_left hreads
    refine ⟨l, hl, fun k w hkw => ?_⟩
    rw [get?_load_of_notMem h hload hr (h.owner_eq r l hl (k, w) hkw) fun hr => absurd hr hreads]
    exact hstored k w hkw

theorem Synced.load (hs : E.Synced t s) (h : E.Owned owner) : E.Synced t (E.load t.rows s) :=
  fun r hr => ⟨(hs r hr).1, .inr (stored_of_load h hs r hr)⟩

end Loads

end Extractor
