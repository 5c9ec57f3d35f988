import NextRole.Lib.Recorded
import NextRole.ReferentialIntegrity
import NextRole.Runtime.IngestBatch

/-!
# A deleted thread leaves no rows

`Threads.Delete` removes the rows of a thread table by table, each from a snapshot of its own, and
locks nothing that a creation of a run or a batch of checkpoints waits for.  A row that is committed
after the snapshot of its table stays, and nothing removes it when the thread is gone.  `Runs.Next`
and `SetJointStatus` change only rows that are committed.

## Main definitions

* `Row.ofThread`, `RowKey.cascadeIndex` — the rows that go with a thread, and their order.
* `threadCalls` — the calls on a thread, interleaved, with the deletions that committed.
* `Passed` — a deletion has taken the snapshot of a table.
* `SparesDeleted` — the condition: no row is inserted into a table after that.

## Main results

* `mem_deleteThread` — the deletion removes each row that its snapshot shows.
* `exists_row_of_put` — the claims and the status writes insert no row.
* `DeletionCovers.commit` — a commit that meets the condition keeps the deletion complete.
* `deleteFinal_of_spared` — where every commit meets it, a deleted thread leaves no rows.
* `not_deleteFinal` — a run and a checkpoint that stay.
-/

namespace NextRole

open ReadCommitted

/-! ### Statement -/

/-- The rows that `Threads.Delete` removes with a thread. -/
def Row.ofThread (threadId : Uuid) : Row → Bool
  | .thread _ => false
  | .run r => r.threadId = threadId
  | .cron c => c.threadId = some threadId
  | .checkpoint c => c.threadId = threadId
  | .blob b => b.threadId = threadId
  | .write w => w.threadId = threadId

/-- The place of a table in the order in which `Threads.Delete` empties them. -/
def RowKey.cascadeIndex : RowKey → ℕ
  | .write _ => 0
  | .blob _ => 1
  | .checkpoint _ => 2
  | .run _ => 3
  | .cron _ => 4
  | .thread _ => 5

theorem RowKey.cascadeIndex_lt (k : RowKey) : k.cascadeIndex < 6 := by
  cases k <;> simp [cascadeIndex]

/-- The number of the statement that empties the table of a key. -/
def deletionIndex (filters : List AuthFilter) (k : RowKey) : ℕ :=
  (filtersClause filters).toList.length + k.cascadeIndex

/-- No run, checkpoint, blob, write or cron names the thread. -/
def LeavesNoRows (threadId : Uuid) (d : Database) : Prop :=
  NoRowsOf threadId d ∧ ∀ c ∈ d.cron, c.threadId ≠ some threadId

/-- A transaction of a service, or of a batch. -/
abbrev ThreadTxn := Txn ThreadCall Database RowKey

/-- The filters of a deletion of the thread. -/
def ThreadCall.deletes (threadId : Uuid) : ThreadCall → Option (List AuthFilter)
  | .rpc (.deleteThread id filters) => if id = threadId then some filters else none
  | _ => none

/-- The transaction deletes the thread, and has taken the snapshot of the statement that empties the
table of the key. -/
def Passed (threadId : Uuid) (k : RowKey) (t : ThreadTxn) : Bool :=
  (t.rpc.deletes threadId).any fun filters =>
    deletionIndex filters k < t.done.length + t.snap.toList.length

section

variable (storable : QueueItem → Bool) (threadId : Uuid)

/-- A commit of a deletion is recorded. -/
def committedDeletion (s : State ThreadCall Database RowKey) :
    Action ThreadCall → List (List AuthFilter)
  | .commit i => ((s.txns.get? i).bind fun t => t.rpc.deletes threadId).toList
  | _ => []

/-- The calls on any threads, interleaved, over any database, with the deletions of the thread that
committed. -/
def threadCalls :
    Machine (Recorded (State ThreadCall Database RowKey) (List AuthFilter)) (Action ThreadCall) :=
  (machine (threadStatements storable) fun _ => True).recorded (committedDeletion threadId)

/-- `Runs.Create`, `Runs.Next`, `SetJointStatus`, batches, and deletions of the thread. -/
def ThreadCall.races : ThreadCall → Bool
  | .rpc (.createRun _ _) | .rpc (.next _ _ _) | .rpc (.setJointStatus _ _) | .ingest _ => true
  | call => (call.deletes threadId).isSome

/-- The calls that insert rows. -/
def ThreadCall.inserts : ThreadCall → Bool
  | .rpc (.createRun _ _) | .ingest _ => true
  | _ => false

/-- Only these calls begin. -/
def OnlyRacing : Action ThreadCall → Prop
  | .begin _ call => call.races threadId = true
  | _ => True

/-- A row of the thread replaces one that is committed, or no deletion of the thread has committed
or taken the snapshot of its table. -/
def SparedRow (s : Recorded (State ThreadCall Database RowKey) (List AuthFilter)) (x : Row) :
    Prop :=
  x.ofThread threadId = true →
    (RowStore.row s.state.db x.key).any (Row.ofThread threadId) = true ∨
      s.log = [] ∧ ∀ u ∈ s.state.txns, Passed threadId x.key u = false

/-- Only these calls begin, and the rows that creations and batches commit are spared. -/
def SparesDeleted (s : Recorded (State ThreadCall Database RowKey) (List AuthFilter))
    (a : Action ThreadCall) : Prop :=
  OnlyRacing threadId a ∧
    match a with
    | .commit i => ∀ t ∈ s.state.txns, t.id = i → t.rpc.inserts = true →
        ∀ x, .put x ∈ t.writes (threadStatements storable) → SparedRow threadId s x
    | _ => True

end

/-! ### The statements of a deletion -/

theorem ThreadCall.deletes_eq_some {threadId : Uuid} {call : ThreadCall}
    {filters : List AuthFilter} :
    call.deletes threadId = some filters ↔ call = .rpc (.deleteThread threadId filters) := by
  constructor
  · intro h
    unfold deletes at h
    split at h
    · split at h
      · next hid =>
        cases h
        rw [hid]
      · cases h
    · cases h
  · rintro rfl
    exact if_pos rfl

theorem key_of_row {d : Database} {k : RowKey} {x : Row} (h : RowStore.row d k = some x) :
    x.key = k := by
  cases k <;>
    · obtain ⟨a, hget, rfl⟩ := Option.map_eq_some_iff.mp h
      obtain ⟨-, hkey⟩ := Table.get?_eq_some.mp hget
      rw [← hkey]
      rfl

section

variable {threadId : Uuid} {filters : List AuthFilter} {snap cur : Database} {held : List RowKey}

/-- A deletion from one table removes each row that its snapshot shows. -/
theorem mem_delete_of_row {α κ : Type} [Keyed α κ] [DecidableEq κ] {T : Relation α}
    (hrow : ∀ d a, RowStore.row d (T.row a).key = ((T.table d).get? (Keyed.key a)).map T.row)
    (hinj : Function.Injective T.row) {p : α → Bool}
    (hp : ∀ a, (T.row a).ofThread threadId = p a) {a : α}
    (ha : (T.row a).ofThread threadId = true)
    (hcur : RowStore.row cur (T.row a).key = some (T.row a))
    (hsnap : (RowStore.row snap (T.row a).key).any (Row.ofThread threadId) = true) :
    .del (T.row a).key ∈ ((T.delete fun _ => p) snap held cur).writes.getD [] := by
  rw [hrow] at hcur hsnap
  obtain ⟨a', hget, heq⟩ := Option.map_eq_some_iff.mp hcur
  obtain rfl := hinj heq
  rw [Option.any_map, Option.any_eq_true_iff_get] at hsnap
  obtain ⟨hsome, hb⟩ := hsnap
  obtain ⟨hmem, hkey⟩ := Table.get?_eq_some.mp (Option.some_get hsome).symm
  have hmem' := (Table.get?_eq_some.mp hget).1
  exact Relation.mem_delete.mpr ⟨a', Relation.mem_rechecked.mpr
    ⟨hmem', hp a' ▸ ha, _, hmem, (hp _).symm.trans hb, hkey⟩, rfl⟩

/-- **The deletion of a thread removes each row that its snapshot shows.** -/
theorem mem_deleteThread {x : Row} (hx : x.ofThread threadId = true)
    (hcur : RowStore.row cur x.key = some x)
    (hsnap : (RowStore.row snap x.key).any (Row.ofThread threadId) = true) :
    ∃ q, (deleteThread threadId filters)[deletionIndex filters x.key]? = some q ∧
      .del x.key ∈ (q snap held cur).writes.getD [] := by
  have hindex : ∀ j, (deleteThread threadId filters)[(filtersClause filters).toList.length + j]? =
      (deleteThread threadId [])[j]? := by
    intro j
    rw [deleteThread]
    cases filtersClause filters with
    | none => rw [Option.toList_none, List.length_nil, Nat.zero_add]; rfl
    | some p => exact List.getElem?_append_right (Nat.le_add_right 1 j) |>.trans (by simp; rfl)
  rw [deletionIndex, hindex]
  cases x with
  | thread t => cases hx
  | run r => exact ⟨_, rfl, mem_delete_of_row (T := runTable) (fun _ _ => rfl)
      (fun _ _ h => Row.run.inj h) (fun _ => rfl) hx hcur hsnap⟩
  | cron c => exact ⟨_, rfl, mem_delete_of_row (T := cronTable) (fun _ _ => rfl)
      (fun _ _ h => Row.cron.inj h) (fun _ => rfl) hx hcur hsnap⟩
  | checkpoint c => exact ⟨_, rfl, mem_delete_of_row (T := checkpointsTable) (fun _ _ => rfl)
      (fun _ _ h => Row.checkpoint.inj h) (fun _ => rfl) hx hcur hsnap⟩
  | blob b => exact ⟨_, rfl, mem_delete_of_row (T := checkpointBlobsTable) (fun _ _ => rfl)
      (fun _ _ h => Row.blob.inj h) (fun _ => rfl) hx hcur hsnap⟩
  | write w => exact ⟨_, rfl, mem_delete_of_row (T := checkpointWritesTable) (fun _ _ => rfl)
      (fun _ _ h => Row.write.inj h) (fun _ => rfl) hx hcur hsnap⟩

end

/-! ### Calls that insert no row -/

section

variable {storable : QueueItem → Bool} {threadId : Uuid}
  {s : State ThreadCall Database RowKey} {t : ThreadTxn}

theorem not_put_of_deletes {filters : List AuthFilter}
    (hrpc : t.rpc = .rpc (.deleteThread threadId filters)) (x : Row) :
    .put x ∉ t.writes (threadStatements storable) := by
  intro h
  obtain ⟨l, ρ, r, q, -, hq, hw⟩ := ReadCommitted.Txn.mem_writes _ h
  rw [hrpc] at hq
  exact not_put_deleteThread (List.mem_of_getElem? hq) hw

/-- A call that puts a run in place of another one finds it committed. -/
theorem exists_run_of_put (hstable : Stable (threadStatements storable) s) (ht : t ∈ s.txns)
    {rpc : Rpc} (hrpc : t.rpc = .rpc rpc) {r : Run}
    (hput : .put (.run r) ∈ t.writes (threadStatements storable))
    (hwrite : ∀ {snap held cur}, RunWrite rpc snap held cur r →
      ∃ r₀ ∈ cur.run, r₀.runId = r.runId ∧ r₀.threadId = r.threadId) :
    ∃ r₀ ∈ s.db.run, r₀.runId = r.runId ∧ r₀.threadId = r.threadId := by
  have hput' : .put (.run r) ∈ (⟨t.id, rpc, t.done, t.snap⟩ : Txn Rpc Database RowKey).writes
      statements := by
    rw [ReadCommitted.Txn.writes, hrpc] at hput
    exact hput
  obtain ⟨ρ, rest, hdone, hw, hrun⟩ := Txn.runWrite hput'
  obtain ⟨r₀, hr₀, hid, hthread⟩ := hwrite hrun
  refine ⟨r₀, ?_, hid, hthread⟩
  have hkey : RowKey.run r.runId ∈
      keys (writesOf (threadStatements storable t.rpc) ([] ++ [ρ]) []) := by
    rw [hrpc]
    exact List.mem_map.mpr ⟨_, hw, rfl⟩
  have hrow := hstable t ht [] ρ rest hdone _ hkey
  rw [mem_run_iff_row, hid] at hr₀ ⊢
  exact hrow ▸ hr₀

/-- **The claims and the status writes insert no row**: what they put replaces a row of the same
thread. -/
theorem exists_row_of_put (hstable : Stable (threadStatements storable) s) (ht : t ∈ s.txns)
    (hraces : t.rpc.races threadId = true) (hinserts : t.rpc.inserts = false) {x : Row}
    (hput : .put x ∈ t.writes (threadStatements storable)) (hx : x.ofThread threadId = true) :
    (RowStore.row s.db x.key).any (Row.ofThread threadId) = true := by
  have hrun : ∀ rpc, t.rpc = .rpc rpc →
      (∀ threadId newId filters now, rpc ≠ .copyThread threadId newId filters now) →
      (∀ r snap held cur, RunWrite rpc snap held cur r →
        ∃ r₀ ∈ cur.run, r₀.runId = r.runId ∧ r₀.threadId = r.threadId) →
      (RowStore.row s.db x.key).any (Row.ofThread threadId) = true := by
    intro rpc hrpc hcopy hwrite
    obtain ⟨l, ρ, r, q, -, hq, hw⟩ := ReadCommitted.Txn.mem_writes _ hput
    rw [hrpc] at hq
    obtain ⟨r, rfl⟩ | ⟨th, rfl⟩ | ⟨_, _, _, _, heq, -⟩ := put_of_mem (List.mem_of_getElem? hq) hw
    · obtain ⟨r₀, hr₀, hid, hthread⟩ := exists_run_of_put hstable ht hrpc hput (hwrite r _ _ _)
      rw [mem_run_iff_row, hid] at hr₀
      rw [Row.key_run, hr₀, Option.any_some]
      rw [Row.ofThread] at hx ⊢
      rwa [hthread]
    · cases hx
    · exact absurd heq (hcopy _ _ _ _)
  generalize hcall : t.rpc = call at hraces hinserts
  cases call with
  | ingest batch => cases hinserts
  | rpc rpc =>
    cases rpc with
    | createRun request env => cases hinserts
    | next limit now tie =>
      refine hrun _ hcall (fun _ _ _ _ => nofun) fun r snap held cur h => ?_
      cases h with
      | next hr hr₀ hid => exact ⟨_, hr₀, rfl, rfl⟩
    | setJointStatus request now =>
      refine hrun _ hcall (fun _ _ _ _ => nofun) fun r snap held cur h => ?_
      cases h with
      | setJointStatus hr₀ hid hne => exact ⟨_, hr₀, rfl, rfl⟩
    | deleteThread id filters =>
      exact absurd hput (not_put_of_deletes hcall x)
    | _ => cases hraces

end

/-! ### What a deletion covers -/

section

variable {storable : QueueItem → Bool} {threadId : Uuid}

/-- A deletion of the thread has removed every row of the tables behind it, and the snapshot of the
table at hand shows every row of it. -/
structure Covers (storable : QueueItem → Bool) (threadId : Uuid) (d : Database) (u : ThreadTxn)
    (filters : List AuthFilter) : Prop where
  removed : ∀ x, RowStore.row d x.key = some x → x.ofThread threadId = true →
    deletionIndex filters x.key < u.done.length →
      .del x.key ∈ u.writes (threadStatements storable)
  shown : ∀ x, RowStore.row d x.key = some x → x.ofThread threadId = true →
    deletionIndex filters x.key = u.done.length → ∀ σ, u.snap = some σ →
      (RowStore.row σ x.key).any (Row.ofThread threadId) = true

/-- Every open deletion of the thread covers its rows, and none are left after a committed one. -/
structure DeletionCovers (storable : QueueItem → Bool) (threadId : Uuid)
    (s : Recorded (State ThreadCall Database RowKey) (List AuthFilter)) : Prop where
  covers : ∀ u ∈ s.state.txns, ∀ filters, u.rpc = .rpc (.deleteThread threadId filters) →
    Covers storable threadId s.state.db u filters
  final : s.log ≠ [] → ∀ x, RowStore.row s.state.db x.key = some x → x.ofThread threadId = false

/-- The statement of a deletion that finishes removes the rows of its table. -/
theorem Covers.exec {d : Database} {u : ThreadTxn} {filters : List AuthFilter} {σ : Database}
    {q : Statement} {ws : List Write} {held : List RowKey}
    (h : Covers storable threadId d u filters)
    (hrpc : u.rpc = .rpc (.deleteThread threadId filters)) (hσ : u.snap = some σ)
    (hq : (threadStatements storable u.rpc)[u.done.length]? = some q)
    (hws : (outcome q (u.writes (threadStatements storable)) ⟨σ, held, d⟩).writes = some ws) :
    Covers storable threadId d
      { u with done := u.done ++ [⟨σ, held, d⟩], snap := none } filters where
  removed x hrow hx hindex := by
    rw [ReadCommitted.Txn.writes_exec _ hq hws, List.mem_append]
    rw [List.length_append, List.length_singleton, Nat.lt_succ_iff_lt_or_eq] at hindex
    rcases hindex with hlt | heq
    · exact .inl (h.removed x hrow hx hlt)
    · by_cases hkey : x.key ∈ keys (u.writes (threadStatements storable))
      · -- what a deletion writes are removals
        left
        obtain ⟨w, hw, hwkey⟩ := List.mem_map.mp hkey
        cases w with
        | put y => exact absurd hw (not_put_of_deletes hrpc y)
        | del k =>
          obtain rfl : k = x.key := hwkey
          exact hw
      · right
        have hsnap := h.shown x hrow hx heq σ hσ
        rw [← row_applyAll_of_not_mem hkey σ] at hsnap
        rw [← row_applyAll_of_not_mem hkey d] at hrow
        obtain ⟨q', hq', hdel⟩ : ∃ q',
            (deleteThread threadId filters)[deletionIndex filters x.key]? = some q' ∧
              .del x.key ∈ (q' _ held _).writes.getD [] := mem_deleteThread hx hrow hsnap
        rw [hrpc, ← heq] at hq
        obtain rfl := Option.some.inj (hq'.symm.trans hq)
        rw [outcome] at hws
        rw [hws] at hdel
        exact hdel
  shown _ _ _ _ _ hσ := nomatch hσ

/-- A commit of another transaction whose rows are spared. -/
theorem Covers.commit {s : Recorded (State ThreadCall Database RowKey) (List AuthFilter)}
    {u : ThreadTxn} {filters : List AuthFilter} {ws : List Write} (hu : u ∈ s.state.txns)
    (hrpc : u.rpc = .rpc (.deleteThread threadId filters))
    (h : Covers storable threadId s.state.db u filters)
    (hws : ∀ x, .put x ∈ ws → SparedRow threadId s x) :
    Covers storable threadId (applyAll s.state.db ws) u filters := by
  -- a row of the thread that is committed now was one before, or no deletion is past its table
  have hbefore : ∀ x, RowStore.row (applyAll s.state.db ws) x.key = some x →
      x.ofThread threadId = true →
        (∃ y, y.key = x.key ∧ RowStore.row s.state.db y.key = some y ∧ y.ofThread threadId = true) ∨
          Passed threadId x.key u = false := by
    intro x hrow hx
    rcases row_of_applyAll hrow with hput | ⟨-, hold⟩
    · refine (hws x hput hx).imp (fun hany => ?_) fun hnone => hnone.2 u hu
      obtain ⟨y, hy, hyx⟩ := (Option.any_eq_true _ _).mp hany
      exact ⟨y, key_of_row hy, (key_of_row hy).symm ▸ hy, hyx⟩
    · exact .inl ⟨x, rfl, hold, hx⟩
  have hpassed : ∀ k, deletionIndex filters k < u.done.length + u.snap.toList.length →
      Passed threadId k u = true := by
    intro k hk
    rw [Passed, ThreadCall.deletes_eq_some.mpr hrpc, Option.any_some]
    exact decide_eq_true hk
  constructor
  case removed =>
    intro x hrow hx hindex
    rcases hbefore x hrow hx with ⟨y, hkey, hy, hyx⟩ | hnot
    · rw [← hkey] at hindex ⊢
      exact h.removed y hy hyx hindex
    · have hp := hpassed x.key (by omega)
      exact absurd hp (hnot ▸ Bool.false_ne_true)
  case shown =>
    intro x hrow hx hindex σ hσ
    rcases hbefore x hrow hx with ⟨y, hkey, hy, hyx⟩ | hnot
    · rw [← hkey] at hindex ⊢
      exact h.shown y hy hyx hindex σ hσ
    · have hp := hpassed x.key (by rw [hσ, Option.toList_some, List.length_singleton]; omega)
      exact absurd hp (hnot ▸ Bool.false_ne_true)

/-- A deletion that commits leaves no rows. -/
theorem Covers.final {d : Database} {u : ThreadTxn} {filters : List AuthFilter}
    (hrpc : u.rpc = .rpc (.deleteThread threadId filters))
    (h : Covers storable threadId d u filters)
    (hcomplete : u.complete (threadStatements storable) = true) (x : Row)
    (hrow : RowStore.row (applyAll d (u.writes (threadStatements storable))) x.key = some x) :
    x.ofThread threadId = false := by
  rcases row_of_applyAll hrow with hput | ⟨hkey, hold⟩
  · exact absurd hput (not_put_of_deletes hrpc x)
  · refine Bool.eq_false_iff.mpr fun hx => hkey ?_
    have hlen : (deleteThread threadId filters).length =
        (filtersClause filters).toList.length + 6 := by
      rw [deleteThread, List.length_append]
      cases filtersClause filters <;> rfl
    have hindex : deletionIndex filters x.key < u.done.length := by
      rw [ReadCommitted.Txn.complete, hrpc, beq_iff_eq] at hcomplete
      rw [hcomplete, deletionIndex]
      change _ < (deleteThread threadId filters).length
      rw [hlen]
      exact Nat.add_lt_add_left x.key.cascadeIndex_lt _
    exact List.mem_map.mpr ⟨_, h.removed x hold hx hindex, rfl⟩

/-- **A commit that meets the condition.** -/
theorem DeletionCovers.commit
    {s : Recorded (State ThreadCall Database RowKey) (List AuthFilter)} {t : ThreadTxn}
    (h : DeletionCovers storable threadId s) (ht : t ∈ s.state.txns)
    (hcomplete : t.complete (threadStatements storable) = true)
    (hws : ∀ x, .put x ∈ t.writes (threadStatements storable) → SparedRow threadId s x)
    (db : Database) (hdb : db = applyAll s.state.db (t.writes (threadStatements storable))) :
    DeletionCovers storable threadId
      ⟨⟨db, s.state.txns.erase t.id⟩, s.log ++ (t.rpc.deletes threadId).toList⟩ := by
  subst hdb
  constructor
  case covers =>
    intro u hu filters hrpc
    obtain ⟨hu, -⟩ := Table.mem_erase.mp hu
    exact Covers.commit hu hrpc (h.covers u hu filters hrpc) hws
  case final =>
    intro hlog x hrow
    cases hdeletes : t.rpc.deletes threadId with
    | some filters =>
      have hrpc := ThreadCall.deletes_eq_some.mp hdeletes
      exact (h.covers t ht filters hrpc).final hrpc hcomplete x hrow
    | none =>
      rw [hdeletes, Option.toList_none, List.append_nil] at hlog
      refine Bool.eq_false_iff.mpr fun hx => ?_
      rcases row_of_applyAll hrow with hput | ⟨-, hold⟩
      · rcases hws x hput hx with hany | ⟨hnil, -⟩
        · obtain ⟨y, hy, hyx⟩ := (Option.any_eq_true _ _).mp hany
          have hnone := h.final hlog y ((key_of_row hy).symm ▸ hy)
          exact absurd hyx (hnone ▸ Bool.false_ne_true)
        · exact hlog hnil
      · exact absurd hx (h.final hlog x hold ▸ Bool.false_ne_true)

theorem DeletionCovers.put {s : Recorded (State ThreadCall Database RowKey) (List AuthFilter)}
    (h : DeletionCovers storable threadId s) {t : ThreadTxn}
    (ht : ∀ filters, t.rpc = .rpc (.deleteThread threadId filters) →
      Covers storable threadId s.state.db t filters) :
    DeletionCovers storable threadId ⟨{ s.state with txns := s.state.txns.put t }, s.log⟩ where
  covers u hu filters hrpc := by
    rcases Table.mem_put.mp hu with rfl | ⟨hu, -⟩
    · exact ht filters hrpc
    · exact h.covers u hu filters hrpc
  final := h.final

theorem DeletionCovers.erase {s : Recorded (State ThreadCall Database RowKey) (List AuthFilter)}
    (h : DeletionCovers storable threadId s) (i : ℕ) :
    DeletionCovers storable threadId ⟨{ s.state with txns := s.state.txns.erase i }, s.log⟩ where
  covers u hu := h.covers u (Table.mem_erase.mp hu).1
  final := h.final

theorem racing_of_reachable {s : Recorded (State ThreadCall Database RowKey) (List AuthFilter)}
    (hs : (threadCalls storable threadId).Reachable (SparesDeleted storable threadId) s) :
    (machine (threadStatements storable) fun _ => True).Reachable (fun _ => OnlyRacing threadId)
      s.state := by
  refine Machine.Reachable.of_recorded (?_ : (threadCalls storable threadId).Reachable
    (fun _ a => OnlyRacing threadId a) s)
  exact hs.mono fun _ _ h => h.1

/-- **Every step of a guarded run keeps the deletions complete.** -/
theorem deletionCovers_of_reachable
    {s : Recorded (State ThreadCall Database RowKey) (List AuthFilter)}
    (hs : (threadCalls storable threadId).Reachable (SparesDeleted storable threadId) s) :
    DeletionCovers storable threadId s := by
  refine hs.invariant (fun s hinit => ?_) fun s a s' hr h hOk hstep => ?_
  · obtain ⟨⟨-, hempty⟩, hlog⟩ := hinit
    refine ⟨fun u hu => ?_, fun hne => absurd hlog hne⟩
    rw [hempty] at hu
    exact absurd hu (Table.not_mem_empty u)
  have hracing := racing_of_reachable hr
  obtain ⟨s'', hstate, rfl⟩ := Option.map_eq_some_iff.mp hstep
  cases step_sound (threadStatements storable) hstate with
  | begin hi =>
    simp only [committedDeletion, List.append_nil]
    exact h.put fun filters _ =>
      ⟨fun _ _ _ hindex => absurd hindex (Nat.not_lt_zero _), fun _ _ _ _ _ hσ => nomatch hσ⟩
  | @snapshot t ht hn =>
    simp only [committedDeletion, List.append_nil]
    refine h.put fun filters hrpc => ⟨(h.covers t ht filters hrpc).removed, ?_⟩
    intro x hrow hx _ σ hσ
    obtain rfl := Option.some.inj hσ
    rw [hrow, Option.any_some, hx]
  | exec ht hσ hq hws hfree =>
    simp only [committedDeletion, List.append_nil]
    exact h.put fun filters hrpc => (h.covers _ ht filters hrpc).exec hrpc hσ hq hws
  | fail ht =>
    simp only [committedDeletion, List.append_nil]
    exact h.erase _
  | @commit t ht hcomplete =>
    have hget : s.state.txns.get? t.id = some t := Table.get?_eq_some.mpr ⟨ht, rfl⟩
    rw [committedDeletion, hget, Option.bind_some]
    refine h.commit ht hcomplete (fun x hput => ?_) _ rfl
    cases hinserts : t.rpc.inserts with
    | true => exact hOk.2 t ht rfl hinserts x hput
    | false =>
      have hraces := rpc_of_reachable (C := fun call => call.races threadId = true)
        (fun _ _ _ h => h) hracing t ht
      exact fun hx => .inl
        (exists_row_of_put (stable_of_reachable hracing) ht hraces hinserts hput hx)
  | abort =>
    simp only [committedDeletion, List.append_nil]
    exact h.erase _

end

/-! ### Deletions are final -/

/-- **A deleted thread leaves no rows** in any run in which no creation and no batch commits a new
row of the thread after a deletion of the thread has taken the snapshot of its table. -/
theorem deleteFinal_of_spared {storable : QueueItem → Bool} {threadId : Uuid}
    {s : Recorded (State ThreadCall Database RowKey) (List AuthFilter)}
    (hs : (threadCalls storable threadId).Reachable (SparesDeleted storable threadId) s)
    (hdeleted : s.log ≠ []) : LeavesNoRows threadId s.state.db := by
  have hfinal := (deletionCovers_of_reachable hs).final hdeleted
  have hnone : ∀ x, RowStore.row s.state.db x.key = some x → ¬ x.ofThread threadId = true :=
    fun x hrow hx => absurd hx (hfinal x hrow ▸ Bool.false_ne_true)
  refine ⟨⟨fun r hr hid => ?_, fun c hc hid => ?_, fun b hb hid => ?_, fun w hw hid => ?_⟩,
    fun c hc hid => ?_⟩
  · exact hnone (.run r) (mem_run_iff_row.mp hr) (decide_eq_true hid)
  · exact hnone (.checkpoint c) (mem_checkpoints_iff_row.mp hc) (decide_eq_true hid)
  · exact hnone (.blob b) (mem_checkpointBlobs_iff_row.mp hb) (decide_eq_true hid)
  · exact hnone (.write w) (mem_checkpointWrites_iff_row.mp hw) (decide_eq_true hid)
  · exact hnone (.cron c) (mem_cron_iff_row.mp hc) (decide_eq_true hid)

/-! ### Examples -/

instance (threadId : Uuid) (s : Recorded (State ThreadCall Database RowKey) (List AuthFilter))
    (x : Row) : Decidable (SparedRow threadId s x) := by
  unfold SparedRow
  infer_instance

instance (threadId : Uuid) (a : Action ThreadCall) : Decidable (OnlyRacing threadId a) := by
  unfold OnlyRacing
  split <;> infer_instance

instance (threadId : Uuid) (s : Recorded (State ThreadCall Database RowKey) (List AuthFilter))
    (ws : List Write) : Decidable (∀ x, .put x ∈ ws → SparedRow threadId s x) :=
  decidable_of_iff (∀ x ∈ ws.filterMap (RowWrite.val : Write → Option Row), SparedRow threadId s x)
    (forall_congr' fun _ => imp_congr_left (List.mem_filterMap.trans
      ⟨fun ⟨_, hw, hval⟩ => eq_put_of_val hval ▸ hw, fun hput => ⟨_, hput, rfl⟩⟩))

instance (storable : QueueItem → Bool) (threadId : Uuid)
    (s : Recorded (State ThreadCall Database RowKey) (List AuthFilter)) (a : Action ThreadCall) :
    Decidable (SparesDeleted storable threadId s a) := by
  unfold SparesDeleted
  cases a <;> infer_instance

/-- A transaction that has begun runs its next statements. -/
def statementsOf (i n : ℕ) : List (Action ThreadCall) :=
  (List.replicate n [Action.snapshot i, Action.exec i]).flatten

/-- A batch with one checkpoint of thread `10`. -/
def oneCheckpoint : ThreadCall :=
  .ingest [⟨[.put { threadId := 10, checkpointId := 30, checkpoint := .null }]⟩]

/-- A creation and a batch commit before the deletion begins. -/
def savedBefore : List (Action ThreadCall) :=
  [.begin 0 (.rpc (enqueue 20)), .snapshot 0, .exec 0, .commit 0, .begin 0 oneCheckpoint,
    .snapshot 0, .exec 0, .commit 0, .begin 1 (.rpc (.deleteThread 10 []))] ++
  statementsOf 1 6 ++ [.commit 1]

/-- A creation commits after the deletion has looked for runs. -/
def createdMeanwhile : List (Action ThreadCall) :=
  [.begin 0 (.rpc (enqueue 20)), .snapshot 0, .exec 0, .begin 1 (.rpc (.deleteThread 10 []))] ++
  statementsOf 1 5 ++ [.commit 0] ++ statementsOf 1 1 ++ [.commit 1]

/-- A batch commits after the deletion has looked for checkpoints. -/
def savedMeanwhile : List (Action ThreadCall) :=
  [.begin 1 (.rpc (.deleteThread 10 []))] ++ statementsOf 1 3 ++
  [.begin 0 oneCheckpoint, .snapshot 0, .exec 0, .commit 0] ++ statementsOf 1 3 ++ [.commit 1]

theorem deleteFinal_savedBefore : ∃ s,
    (threadCalls (fun _ => true) 10).Reachable (SparesDeleted (fun _ => true) 10) s ∧
      s.log ≠ [] ∧ LeavesNoRows 10 s.state.db := by
  obtain ⟨s, hs, hlog⟩ := (threadCalls (fun _ => true) 10).exists_reachable
    (SparesDeleted (fun _ => true) 10) (s := ⟨⟨oneThread, .empty⟩, []⟩) ⟨⟨trivial, rfl⟩, rfl⟩
    savedBefore (fun s => !s.log.isEmpty) (by decide +kernel)
  have hne : s.log ≠ [] := by
    intro hnil
    rw [hnil] at hlog
    cases hlog
  exact ⟨s, hs, hne, deleteFinal_of_spared hs hne⟩

/-- All calls have finished, the thread is gone, and a run of it is left, or a checkpoint. -/
theorem not_deleteFinal :
    (¬ ∀ s, (threadCalls (fun _ => true) 10).Reachable (fun _ => OnlyRacing 10) s → s.log ≠ [] →
      s.state.txns = .empty → (∀ t ∈ s.state.db.thread, t.threadId ≠ 10) →
        LeavesNoRows 10 s.state.db) ∧
    ∃ s, (threadCalls (fun _ => true) 10).Reachable (fun _ => OnlyRacing 10) s ∧ s.log ≠ [] ∧
      s.state.txns = .empty ∧ (∀ t ∈ s.state.db.thread, t.threadId ≠ 10) ∧
        ∃ c ∈ s.state.db.checkpoints, c.threadId = 10 := by
  have hinit : (threadCalls (fun _ => true) 10).init ⟨⟨oneThread, .empty⟩, []⟩ :=
    ⟨⟨trivial, rfl⟩, rfl⟩
  constructor
  · intro h
    obtain ⟨s, hs, hend⟩ := (threadCalls (fun _ => true) 10).exists_reachable
      (fun _ => OnlyRacing 10) hinit createdMeanwhile (fun s => decide (s.log.isEmpty = false ∧
        s.state.txns.rows.isEmpty ∧ (∀ t ∈ s.state.db.thread, t.threadId ≠ 10) ∧
        ∃ r ∈ s.state.db.run, r.threadId = 10)) (by decide +kernel)
    obtain ⟨hlog, htxns, hthread, r, hr, hid⟩ := of_decide_eq_true hend
    have hleft := h s hs (List.isEmpty_eq_false_iff.mp hlog)
      (Table.ext (List.isEmpty_iff.mp htxns)) hthread
    exact hleft.1.run r hr hid
  · obtain ⟨s, hs, hend⟩ := (threadCalls (fun _ => true) 10).exists_reachable
      (fun _ => OnlyRacing 10) hinit savedMeanwhile (fun s => decide (s.log.isEmpty = false ∧
        s.state.txns.rows.isEmpty ∧ (∀ t ∈ s.state.db.thread, t.threadId ≠ 10) ∧
        ∃ c ∈ s.state.db.checkpoints, c.threadId = 10)) (by decide +kernel)
    obtain ⟨hlog, htxns, hthread, hcheckpoint⟩ := of_decide_eq_true hend
    exact ⟨s, hs, List.isEmpty_eq_false_iff.mp hlog, Table.ext (List.isEmpty_iff.mp htxns),
      hthread, hcheckpoint⟩

end NextRole
