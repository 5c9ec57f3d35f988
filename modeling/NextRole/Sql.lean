import NextRole.Filters

/-!
# SQL statements on one table

The forms of `UPDATE` and `DELETE` that the services use, under READ COMMITTED: a
statement picks the rows that its snapshot shows, waits for those that other
transactions hold, and checks its condition again on their current versions.  A
subquery in the condition or in a new value reads the snapshot.

## Main definitions

* `Relation` — a table of the database with its place in `Row`.
* `Relation.update`, `Relation.delete` — the statements.
* `select1` — `SELECT 1 … ` followed by an abort when no row comes back.

## Main results

* `Relation.mem_update`, `Relation.mem_delete` — what the statements write.
-/

namespace NextRole

open ReadCommitted

/-- A statement of the services. -/
abbrev Statement := Stmt Database RowKey Write

/-- A table of the database, with the constructor of its rows. -/
structure Relation (α : Type) {κ : Type} [Keyed α κ] [DecidableEq κ] where
  table : Database → Table α
  row : α → Row
  table_put : ∀ d a, table (RowStore.apply d (.put (row a))) = (table d).put a
  table_del : ∀ d a, table (RowStore.apply d (.del (row a).key)) = (table d).erase (Keyed.key a)

/-- The table `thread`. -/
def threadTable : Relation Thread := ⟨Database.thread, .thread, fun _ _ => rfl, fun _ _ => rfl⟩

/-- The table `run`. -/
def runTable : Relation Run := ⟨Database.run, .run, fun _ _ => rfl, fun _ _ => rfl⟩

/-- The table `cron`. -/
def cronTable : Relation Cron := ⟨Database.cron, .cron, fun _ _ => rfl, fun _ _ => rfl⟩

/-- The table `checkpoints`. -/
def checkpointsTable : Relation Checkpoint :=
  ⟨Database.checkpoints, .checkpoint, fun _ _ => rfl, fun _ _ => rfl⟩

/-- The table `checkpoint_blobs`. -/
def checkpointBlobsTable : Relation CheckpointBlob :=
  ⟨Database.checkpointBlobs, .blob, fun _ _ => rfl, fun _ _ => rfl⟩

/-- The table `checkpoint_writes`. -/
def checkpointWritesTable : Relation CheckpointWrite :=
  ⟨Database.checkpointWrites, .write, fun _ _ => rfl, fun _ _ => rfl⟩

@[simp] theorem threadTable_table (d : Database) : threadTable.table d = d.thread := rfl
@[simp] theorem runTable_table (d : Database) : runTable.table d = d.run := rfl
@[simp] theorem cronTable_table (d : Database) : cronTable.table d = d.cron := rfl
@[simp] theorem checkpointsTable_table (d : Database) :
    checkpointsTable.table d = d.checkpoints := rfl
@[simp] theorem checkpointBlobsTable_table (d : Database) :
    checkpointBlobsTable.table d = d.checkpointBlobs := rfl
@[simp] theorem checkpointWritesTable_table (d : Database) :
    checkpointWritesTable.table d = d.checkpointWrites := rfl

namespace Relation

variable {α κ : Type} [Keyed α κ] [DecidableEq κ]

/-- The rows that a statement with condition `p` changes: those its snapshot shows
to satisfy `p`, in their current version if that still satisfies it. -/
def rechecked (T : Relation α) (p : Database → α → Bool) (snap cur : Database) : List α :=
  ((T.table snap).select (p snap)).filterMap fun a =>
    ((T.table cur).get? (Keyed.key a)).filter (p snap)

/-- `UPDATE T SET f WHERE p`. -/
def update (T : Relation α) (p : Database → α → Bool) (f : Database → α → α) : Statement :=
  fun snap _ cur => {
    waits := ((T.table snap).select (p snap)).map fun a => (T.row a).key
    writes := some ((T.rechecked p snap cur).map fun a => .put (T.row (f snap a))) }

/-- `DELETE FROM T WHERE p`. -/
def delete (T : Relation α) (p : Database → α → Bool) : Statement :=
  fun snap _ cur => {
    waits := ((T.table snap).select (p snap)).map fun a => (T.row a).key
    writes := some ((T.rechecked p snap cur).map fun a => .del (T.row a).key) }

theorem mem_rechecked {T : Relation α} {p : Database → α → Bool} {snap cur : Database} {a : α} :
    a ∈ T.rechecked p snap cur ↔
      a ∈ T.table cur ∧ p snap a = true ∧
        ∃ b ∈ T.table snap, p snap b = true ∧ Keyed.key b = Keyed.key a := by
  simp only [rechecked, List.mem_filterMap, Table.mem_select, Option.filter_eq_some_iff,
    Table.get?_eq_some]
  constructor
  · rintro ⟨b, ⟨hb, hpb⟩, ⟨ha, hk⟩, hpa⟩
    exact ⟨ha, hpa, b, hb, hpb, hk.symm⟩
  · rintro ⟨ha, hpa, b, hb, hpb, hk⟩
    exact ⟨b, ⟨hb, hpb⟩, ⟨ha, hk.symm⟩, hpa⟩

theorem mem_update {T : Relation α} {p : Database → α → Bool} {f : Database → α → α}
    {snap cur : Database} {held : List RowKey} {w : Write} :
    w ∈ (T.update p f snap held cur).writes.getD [] ↔
      ∃ a ∈ T.rechecked p snap cur, w = .put (T.row (f snap a)) := by
  simp [update, eq_comm]

theorem mem_delete {T : Relation α} {p : Database → α → Bool}
    {snap cur : Database} {held : List RowKey} {w : Write} :
    w ∈ (T.delete p snap held cur).writes.getD [] ↔
      ∃ a ∈ T.rechecked p snap cur, w = .del (T.row a).key := by
  simp [delete, eq_comm]

/-! ### Statements that run alone -/

theorem rechecked_self (T : Relation α) (p : Database → α → Bool) (d : Database) :
    T.rechecked p d d = (T.table d).select (p d) := by
  have hsome : ∀ a ∈ (T.table d).select (p d),
      ((T.table d).get? (Keyed.key a)).filter (p d) = some a := by
    intro a ha
    obtain ⟨ha, hp⟩ := Table.mem_select.mp ha
    rw [Table.mem_iff_get?.mp ha, Option.filter_some, if_pos hp]
  rw [rechecked, List.filterMap_congr hsome, List.filterMap_some]

theorem table_applyAll_put (T : Relation α) (d : Database) (as : List α) :
    T.table (applyAll d (as.map fun a => .put (T.row a))) = as.foldl Table.put (T.table d) := by
  induction as generalizing d with
  | nil => rfl
  | cons a as ih =>
    rw [List.map_cons, applyAll_cons, ih, List.foldl_cons, T.table_put]

theorem table_applyAll_del (T : Relation α) (d : Database) (as : List α) :
    T.table (applyAll d (as.map fun a => .del (T.row a).key)) =
      (as.map Keyed.key).foldl Table.erase (T.table d) := by
  induction as generalizing d with
  | nil => rfl
  | cons a as ih =>
    rw [List.map_cons, applyAll_cons, ih, List.map_cons, List.foldl_cons, T.table_del]

/-- The rows after an update that runs alone and keeps the keys. -/
theorem mem_update_alone (T : Relation α) {p : Database → α → Bool} {f : Database → α → α}
    {d : Database} (hf : ∀ a, Keyed.key (f d a) = Keyed.key a) {held : List RowKey} {a : α} :
    a ∈ T.table (applyAll d ((T.update p f d held d).writes.getD [])) ↔
      (a ∈ T.table d ∧ p d a = false) ∨ ∃ b ∈ T.table d, p d b = true ∧ a = f d b := by
  have hw : (T.update p f d held d).writes.getD [] =
      (((T.table d).select (p d)).map (f d)).map fun a => .put (T.row a) := by
    rw [update, Option.getD_some, rechecked_self, List.map_map]
    rfl
  have hkeys : (((T.table d).select (p d)).map (f d)).map Keyed.key =
      ((T.table d).select (p d)).map Keyed.key := by
    rw [List.map_map]
    exact List.map_congr_left fun a _ => hf a
  have hnodup : ((((T.table d).select (p d)).map (f d)).map Keyed.key).Nodup := by
    rw [hkeys]
    exact (T.table d).nodup.sublist (List.filter_sublist.map _)
  rw [hw, table_applyAll_put, Table.mem_foldl_put hnodup, hkeys, List.mem_map, List.mem_map]
  constructor
  · rintro (⟨b, hb, rfl⟩ | ⟨ha, hnot⟩)
    · obtain ⟨hb, hp⟩ := Table.mem_select.mp hb
      exact Or.inr ⟨b, hb, hp, rfl⟩
    · refine Or.inl ⟨ha, ?_⟩
      by_contra hp
      exact hnot ⟨a, Table.mem_select.mpr ⟨ha, by simpa using hp⟩, rfl⟩
  · rintro (⟨ha, hp⟩ | ⟨b, hb, hp, rfl⟩)
    · refine Or.inr ⟨ha, ?_⟩
      rintro ⟨b, hb, hk⟩
      obtain ⟨hb, hpb⟩ := Table.mem_select.mp hb
      rw [Table.eq_of_key hb ha hk, hp] at hpb
      cases hpb
    · exact Or.inl ⟨b, Table.mem_select.mpr ⟨hb, hp⟩, rfl⟩

/-- The rows after a delete that runs alone. -/
theorem mem_delete_alone (T : Relation α) {p : Database → α → Bool} {d : Database}
    {held : List RowKey} {a : α} :
    a ∈ T.table (applyAll d ((T.delete p d held d).writes.getD [])) ↔
      a ∈ T.table d ∧ p d a = false := by
  have hw : (T.delete p d held d).writes.getD [] =
      ((T.table d).select (p d)).map fun a => .del (T.row a).key := by
    rw [delete, Option.getD_some, rechecked_self]
  rw [hw, table_applyAll_del, Table.mem_foldl_erase, List.mem_map]
  refine and_congr_right fun ha => ⟨fun hnot => ?_, ?_⟩
  · by_contra hp
    exact hnot ⟨a, Table.mem_select.mpr ⟨ha, by simpa using hp⟩, rfl⟩
  · rintro hp ⟨b, hb, hk⟩
    obtain ⟨hb, hpb⟩ := Table.mem_select.mp hb
    rw [Table.eq_of_key hb ha hk, hp] at hpb
    cases hpb

theorem mem_of_runAlone_delete (T : Relation α) {p : Database → α → Bool} {d d' : Database}
    (h : runAlone d (T.delete p) = d') (a : α) :
    a ∈ T.table d' ↔ a ∈ T.table d ∧ p d a = false := by
  subst h
  exact T.mem_delete_alone

/-- A delete from one table leaves another one alone. -/
theorem table_delete_other (T : Relation α) {β κ' : Type} [Keyed β κ'] [DecidableEq κ']
    (U : Relation β)
    (hother : ∀ d a, U.table (RowStore.apply d (.del (T.row a).key)) = U.table d)
    {p : Database → α → Bool} {d d' : Database} (h : runAlone d (T.delete p) = d') :
    U.table d' = U.table d := by
  subst h
  have hall : ∀ (as : List α) (d : Database),
      U.table (applyAll d (as.map fun a => .del (T.row a).key)) = U.table d := by
    intro as
    induction as with
    | nil => exact fun d => rfl
    | cons a as ih =>
      intro d
      rw [List.map_cons, applyAll_cons, ih, hother]
  exact hall (T.rechecked p d d) d

end Relation

/-- `SELECT 1 …`, with the transaction aborted when no row comes back. -/
def select1 (found : Database → Bool) : Statement := fun snap _ _ =>
  { waits := [], writes := if found snap then some [] else none }

end NextRole
