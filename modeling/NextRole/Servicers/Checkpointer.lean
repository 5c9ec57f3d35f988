import NextRole.ThreadCopy

/-!
# The checkpointer service

The management calls of `servicers/checkpointer.py`, which work on the checkpoint tables
directly.  `DeleteForRuns` and the strategy `KEEP_LATEST` of `Prune` delete some
checkpoints, and before them the writes of these; no call but the deletion of whole
threads deletes blobs.

## Main definitions

* `CheckpointerRpc`, `executeCheckpointer` — the calls, executed alone.
* `WithoutCheckpoints` — a database without some checkpoints and their writes.

## Main results

* `withoutCheckpoints_deleteForRuns`, `withoutCheckpoints_prune` — what two calls leave.
-/

namespace NextRole

open ReadCommitted

inductive PruneStrategy
  | unspecified | keepLatest | deleteAll
  deriving Repr, DecidableEq

inductive CheckpointerRpc
  | deleteThread (threadId : Uuid)
  | deleteForRuns (runIds : List Uuid)
  | copyThread (fromThreadId toThreadId : Uuid)
  | prune (threadIds : List Uuid) (strategy : PruneStrategy)

/-- The checkpoint of a write. -/
def CheckpointWrite.belongsTo (w : CheckpointWrite) (c : Checkpoint) : Bool :=
  w.threadId = c.threadId && w.checkpointNs = c.checkpointNs && w.checkpointId = c.checkpointId

/-- `DELETE FROM checkpoint_writes cw USING checkpoints c` where `c` satisfies a
condition, and then `DELETE FROM checkpoints` with the same condition. -/
def deleteWithWrites (p : Table Checkpoint → Checkpoint → Bool) : List Statement :=
  [ checkpointWritesTable.delete fun d w =>
      d.checkpoints.rows.any fun c => w.belongsTo c && p d.checkpoints c,
    checkpointsTable.delete fun d c => p d.checkpoints c ]

/-- The rows of some threads, from all the tables of `_CKPT_TABLES`. -/
def deleteRowsOf (threadIds : List Uuid) : List Statement :=
  [ checkpointWritesTable.delete fun _ w => w.threadId ∈ threadIds,
    checkpointBlobsTable.delete fun _ b => b.threadId ∈ threadIds,
    checkpointsTable.delete fun _ c => c.threadId ∈ threadIds ]

/-- `run_id = ANY(run_ids)`. -/
def ofRuns (runIds : List Uuid) (c : Checkpoint) : Bool := c.runId.any fun runId => runId ∈ runIds

/-- `max(checkpoint_id)` of the checkpoints of a thread, whatever their namespaces. -/
def keptId (checkpoints : Table Checkpoint) (threadId : Uuid) : Option Uuid :=
  ((checkpoints.select fun c => c.threadId = threadId).map Checkpoint.checkpointId).max?

/-- The checkpoint is of one of the threads and not the one that `Prune` keeps. -/
def outdated (threadIds : List Uuid) (checkpoints : Table Checkpoint) (c : Checkpoint) : Bool :=
  c.threadId ∈ threadIds && keptId checkpoints c.threadId ≠ some c.checkpointId

/-- The statements of a call. -/
def CheckpointerRpc.statements : CheckpointerRpc → List Statement
  | .deleteThread threadId => deleteRowsOf [threadId]
  | .deleteForRuns runIds =>
    if runIds = [] then [] else deleteWithWrites fun _ c => ofRuns runIds c
  | .copyThread fromThreadId toThreadId => copyRowsOf fromThreadId toThreadId
  | .prune threadIds strategy =>
    if threadIds = [] then []
    else if strategy = .deleteAll then deleteRowsOf threadIds
    else deleteWithWrites (outdated threadIds)

/-- The database after a call that runs alone. -/
def executeCheckpointer (rpc : CheckpointerRpc) (d : Database) : Database :=
  serial CheckpointerRpc.statements rpc d

/-- No statement of these calls can fail. -/
theorem executeCheckpointer_eq_foldl (rpc : CheckpointerRpc) (d : Database) :
    executeCheckpointer rpc d = rpc.statements.foldl runAlone d := by
  refine serial_eq_foldl (fun q hq d => ?_) d
  have hrows : ∀ threadIds, q ∈ deleteRowsOf threadIds → (q d [] d).writes.isSome = true := by
    intro threadIds hq
    simp only [deleteRowsOf, List.mem_cons, List.not_mem_nil, or_false] at hq
    rcases hq with rfl | rfl | rfl <;> exact isSome_delete _ _ _
  have hdelete : ∀ p, q ∈ deleteWithWrites p → (q d [] d).writes.isSome = true := by
    intro p hq
    simp only [deleteWithWrites, List.mem_cons, List.not_mem_nil, or_false] at hq
    rcases hq with rfl | rfl <;> exact isSome_delete _ _ _
  cases rpc with
  | deleteThread threadId => exact hrows _ hq
  | deleteForRuns runIds =>
    by_cases hnil : runIds = []
    · simp [CheckpointerRpc.statements, hnil] at hq
    · rw [CheckpointerRpc.statements, if_neg hnil] at hq
      exact hdelete _ hq
  | copyThread fromThreadId toThreadId =>
    simp only [CheckpointerRpc.statements, copyRowsOf, List.mem_cons, List.not_mem_nil, or_false] at hq
    rcases hq with rfl | rfl | rfl <;> rfl
  | prune threadIds strategy =>
    by_cases hnil : threadIds = []
    · simp [CheckpointerRpc.statements, hnil] at hq
    · rw [CheckpointerRpc.statements, if_neg hnil] at hq
      by_cases hall : strategy = .deleteAll
      · rw [if_pos hall] at hq
        exact hrows _ hq
      · rw [if_neg hall] at hq
        exact hdelete _ hq

/-! ### What the calls leave -/

/-- The second database is the first one without the checkpoints that satisfy a
condition and the writes of these. -/
structure WithoutCheckpoints (p : Checkpoint → Bool) (d d' : Database) : Prop where
  thread : d'.thread = d.thread
  run : d'.run = d.run
  checkpoints : ∀ c, c ∈ d'.checkpoints ↔ c ∈ d.checkpoints ∧ p c = false
  checkpointBlobs : d'.checkpointBlobs = d.checkpointBlobs
  checkpointWrites : ∀ w, w ∈ d'.checkpointWrites ↔ w ∈ d.checkpointWrites ∧
    ∀ c ∈ d.checkpoints, w.belongsTo c = true → p c = false

theorem withoutCheckpoints_deleteWithWrites (p : Table Checkpoint → Checkpoint → Bool)
    (d : Database) :
    WithoutCheckpoints (p d.checkpoints) d ((deleteWithWrites p).foldl runAlone d) := by
  simp only [deleteWithWrites, List.foldl_cons, List.foldl_nil]
  generalize h₁ : runAlone d (checkpointWritesTable.delete fun d w =>
    d.checkpoints.rows.any fun c => w.belongsTo c && p d.checkpoints c) = d₁
  generalize h₂ : runAlone d₁ (checkpointsTable.delete fun d c => p d.checkpoints c) = d₂
  have hcheckpoints : d₁.checkpoints = d.checkpoints :=
    checkpointWritesTable.table_delete_other checkpointsTable (fun _ _ => rfl) h₁
  constructor
  case thread =>
    exact (checkpointsTable.table_delete_other threadTable (fun _ _ => rfl) h₂).trans
      (checkpointWritesTable.table_delete_other threadTable (fun _ _ => rfl) h₁)
  case run =>
    exact (checkpointsTable.table_delete_other runTable (fun _ _ => rfl) h₂).trans
      (checkpointWritesTable.table_delete_other runTable (fun _ _ => rfl) h₁)
  case checkpoints =>
    intro c
    have hmem := checkpointsTable.mem_of_runAlone_delete h₂ c
    rwa [checkpointsTable_table, checkpointsTable_table, hcheckpoints] at hmem
  case checkpointBlobs =>
    exact (checkpointsTable.table_delete_other checkpointBlobsTable (fun _ _ => rfl) h₂).trans
      (checkpointWritesTable.table_delete_other checkpointBlobsTable (fun _ _ => rfl) h₁)
  case checkpointWrites =>
    intro w
    have hafter : d₂.checkpointWrites = d₁.checkpointWrites :=
      checkpointsTable.table_delete_other checkpointWritesTable (fun _ _ => rfl) h₂
    have hmem := checkpointWritesTable.mem_of_runAlone_delete h₁ w
    rw [hafter]
    refine hmem.trans (and_congr_right fun _ => ?_)
    simp only [List.any_eq_false, Bool.and_eq_true, not_and, Bool.not_eq_true]
    exact Iff.rfl

/-- `CopyThread` copies the rows of the checkpoint tables. -/
theorem copiedRows_copyThread (fromThreadId toThreadId : Uuid) (d : Database) :
    CopiedRows fromThreadId toThreadId d
      (executeCheckpointer (.copyThread fromThreadId toThreadId) d) := by
  rw [executeCheckpointer_eq_foldl]
  exact copiedRows_copyRowsOf fromThreadId toThreadId d

/-- **`DeleteForRuns`** removes the checkpoints of the runs, wherever they are. -/
theorem withoutCheckpoints_deleteForRuns (runIds : List Uuid) (d : Database) :
    WithoutCheckpoints (ofRuns runIds) d (executeCheckpointer (.deleteForRuns runIds) d) := by
  rw [executeCheckpointer_eq_foldl, CheckpointerRpc.statements]
  split
  · next hnil =>
    subst hnil
    have hnone : ∀ c, ofRuns [] c = false := fun c => by simp [ofRuns]
    exact ⟨rfl, rfl, fun c => by simp [hnone], rfl, fun w => by simp [hnone]⟩
  · exact withoutCheckpoints_deleteWithWrites (fun _ => ofRuns runIds) d

/-- **`Prune`** removes what is outdated, unless it is to delete everything. -/
theorem withoutCheckpoints_prune {strategy : PruneStrategy} (hkeep : strategy ≠ .deleteAll)
    (threadIds : List Uuid) (d : Database) :
    WithoutCheckpoints (outdated threadIds d.checkpoints) d
      (executeCheckpointer (.prune threadIds strategy) d) := by
  rw [executeCheckpointer_eq_foldl, CheckpointerRpc.statements]
  split
  · next hnil =>
    subst hnil
    have hnone : ∀ c, outdated [] d.checkpoints c = false := fun c => by simp [outdated]
    exact ⟨rfl, rfl, fun c => by simp [hnone], rfl, fun w => by simp [hnone]⟩
  · exact withoutCheckpoints_deleteWithWrites (outdated threadIds) d

end NextRole
