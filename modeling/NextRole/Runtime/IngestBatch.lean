import NextRole.Rpc
import NextRole.Runtime.Ingestion

/-!
# A batch of checkpoints as a transaction

The transaction of `_ingest_batch` in `runtime_postgres/checkpoint.py`, statement by statement, so
that it can be interleaved with the calls of the services: one `COPY` for the blobs, one for the
checkpoints, and an upsert for each write.

## Main definitions

* `copyInto`, `upsertCheckpointWrite` — the statements.
* `ingestStatements` — the transaction of a batch.
* `ThreadCall`, `threadStatements` — the calls of the services, and batches.

## Main results

* `serial_ingest` — alone, the statements do what `ingestBatch` computes.
-/

namespace NextRole

open ReadCommitted

/-- `COPY … FROM STDIN`. -/
def copyInto {α κ : Type} [Keyed α κ] [DecidableEq κ] (T : Relation α) (storable : α → Bool)
    (rows : List α) : Statement := fun _ _ cur => {
  waits := rows.map fun a => (T.row a).key
  writes := (copyFrom storable (T.table cur) rows).map fun _ => rows.map fun a => .put (T.row a) }

/-- `INSERT INTO checkpoint_writes … ON CONFLICT … DO UPDATE`. -/
def upsertCheckpointWrite (storable : CheckpointWrite → Bool) (w : CheckpointWrite) : Statement :=
  fun _ _ cur => {
    waits := [(Row.write w).key]
    writes :=
      if storable w then some ((upsertedWrite cur w).toList.map fun w => .put (.write w))
      else none }

section

variable (storable : QueueItem → Bool)

/-- The statements of `_ingest_batch`; a table without rows has none. -/
def ingestStatements (batch : List CheckpointQueueItem) : List Statement :=
  let blobs := batch.flatMap CheckpointQueueItem.blobs
  let checkpoints := batch.flatMap CheckpointQueueItem.checkpoints
  let writes := batch.flatMap CheckpointQueueItem.writes
  (if blobs = [] then [] else
    [copyInto checkpointBlobsTable (fun b => storable (.blob b)) blobs]) ++
  (if checkpoints = [] then [] else
    [copyInto checkpointsTable (fun c => storable (.put c)) checkpoints]) ++
  writes.map (upsertCheckpointWrite fun w => storable (.write w))

/-- A call of a service, or a batch. -/
inductive ThreadCall
  | rpc (rpc : Rpc)
  | ingest (batch : List CheckpointQueueItem)

/-- The statements of a call's transaction. -/
def threadStatements : ThreadCall → List Statement
  | .rpc rpc => statements rpc
  | .ingest batch => ingestStatements storable batch

/-! ### A batch alone -/

/-- The database after a statement that runs alone, if it does not fail. -/
def stepAlone (d : Database) (q : Statement) : Option Database :=
  (q d [] d).writes.map (applyAll d)

theorem map_serialFrom (qs : List Statement) (d : Database) (ws : List Write) :
    (serialFrom d qs ws).map (applyAll d) = qs.foldlM stepAlone (applyAll d ws) := by
  induction qs generalizing ws with
  | nil => rfl
  | cons q qs ih =>
    rw [serialFrom, List.foldlM_cons, stepAlone, Option.map_bind, Option.bind_eq_bind,
      Option.bind_map]
    refine congrArg _ (funext fun ws' => ?_)
    rw [Function.comp_apply, ih, applyAll_append]
    rfl

variable {storable}

theorem copyFrom_eq_foldl {α κ : Type} [Keyed α κ] [DecidableEq κ] {storable : α → Bool}
    {t t' : Table α} {rows : List α} (h : copyFrom storable t rows = some t') :
    t' = rows.foldl Table.put t := by
  induction rows generalizing t with
  | nil =>
    cases h
    rfl
  | cons a rows ih =>
    obtain ⟨t₁, hstep, hrest⟩ := Option.bind_eq_some_iff.mp h
    simp only at hstep
    split at hstep
    · rw [List.foldl_cons, Option.some.inj hstep]
      exact ih hrest
    · cases hstep

/-- A `COPY` that runs alone, or none where there are no rows. -/
theorem foldlM_copyInto {α κ : Type} [Keyed α κ] [DecidableEq κ] {T : Relation α}
    {storable : α → Bool} {rows : List α} {d : Database} (f : Table α → Database)
    (hf : applyAll d (rows.map fun a => .put (T.row a)) = f (rows.foldl Table.put (T.table d))) :
    (if rows = [] then [] else [copyInto T storable rows]).foldlM stepAlone d =
      (copyFrom storable (T.table d) rows).map f := by
  split
  · next hnil =>
    subst hnil
    exact congrArg some hf
  · rw [List.foldlM_cons, stepAlone, copyInto, Option.map_map]
    cases hcopy : copyFrom storable (T.table d) rows with
    | none => rfl
    | some t =>
      rw [copyFrom_eq_foldl hcopy, Option.map_some, Option.map_some, ← hf]
      rfl

theorem applyAll_put_blobs (bs : List CheckpointBlob) (d : Database) :
    applyAll d (bs.map fun b => Write.put (.blob b)) =
      { d with checkpointBlobs := bs.foldl Table.put d.checkpointBlobs } := by
  induction bs generalizing d with
  | nil => rfl
  | cons b bs ih =>
    rw [List.map_cons, applyAll_cons, ih]
    rfl

theorem applyAll_put_checkpoints (cs : List Checkpoint) (d : Database) :
    applyAll d (cs.map fun c => Write.put (.checkpoint c)) =
      { d with checkpoints := cs.foldl Table.put d.checkpoints } := by
  induction cs generalizing d with
  | nil => rfl
  | cons c cs ih =>
    rw [List.map_cons, applyAll_cons, ih]
    rfl

theorem stepAlone_upsert (storable : CheckpointWrite → Bool) (w : CheckpointWrite) (d : Database) :
    stepAlone d (upsertCheckpointWrite storable w) =
      if storable w then
        some { d with checkpointWrites := upsertWrite d.checkpointWrites w } else none := by
  rw [stepAlone, upsertCheckpointWrite]
  split
  · rw [Option.map_some, ← ingest_write, ingest]
    cases upsertedWrite d w <;> rfl
  · rfl

theorem foldlM_upsert (storable : CheckpointWrite → Bool) (ws : List CheckpointWrite)
    (d : Database) :
    (ws.map (upsertCheckpointWrite storable)).foldlM stepAlone d =
      (upsertAll storable d.checkpointWrites ws).map fun t => { d with checkpointWrites := t } := by
  induction ws generalizing d with
  | nil => rfl
  | cons w ws ih =>
    rw [List.map_cons, List.foldlM_cons, stepAlone_upsert, upsertAll, List.foldlM_cons]
    split
    · exact ih _
    · rfl

/-- **Alone, the statements of a batch do what `ingestBatch` computes**, or nothing where one of
them fails. -/
theorem serial_ingest (batch : List CheckpointQueueItem) (d : Database) :
    serial (threadStatements storable) (.ingest batch) d =
      (ingestBatch storable batch d).getD d := by
  have hserial : serial (threadStatements storable) (.ingest batch) d =
      ((serialFrom d (ingestStatements storable batch) []).map (applyAll d)).getD d := by
    rw [serial, threadStatements]
    cases serialFrom d (ingestStatements storable batch) [] <;> rfl
  have hwrites : (fun d : Database => ((batch.flatMap CheckpointQueueItem.writes).map
      (upsertCheckpointWrite fun w => storable (.write w))).foldlM stepAlone d) = _ :=
    funext fun d => foldlM_upsert _ _ d
  rw [hserial, map_serialFrom, applyAll_nil, ingestBatch, executePuts, ingestStatements,
    List.foldlM_append, List.foldlM_append,
    foldlM_copyInto (fun t => { d with checkpointBlobs := t }) (applyAll_put_blobs _ d),
    checkpointBlobsTable_table, hwrites]
  simp only [Option.bind_eq_bind]
  cases copyFrom (fun b => storable (.blob b)) d.checkpointBlobs
      (batch.flatMap CheckpointQueueItem.blobs) with
  | none => rfl
  | some blobTable =>
    rw [Option.map_some, Option.bind_some, Option.bind_some,
      foldlM_copyInto (fun t => { d with checkpointBlobs := blobTable, checkpoints := t })
        (applyAll_put_checkpoints _ _), checkpointsTable_table]
    cases copyFrom (fun c => storable (.put c)) d.checkpoints
        (batch.flatMap CheckpointQueueItem.checkpoints) with
    | none => rfl
    | some checkpointTable =>
      rw [Option.map_some, Option.bind_some, Option.bind_some]
      cases upsertAll (fun w => storable (.write w)) d.checkpointWrites
        (batch.flatMap CheckpointQueueItem.writes) <;> rfl

end

end NextRole
