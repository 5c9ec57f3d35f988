import NextRole.Runtime.Checkpoint

/-!
# Saving checkpoints

What the checkpointer of `runtime_postgres/checkpoint.py` writes.  `aput` and
`aput_writes` put their rows into a queue, from which batches are ingested: new
checkpoints and blobs with `COPY`, which fails on a key that is taken, and writes with an
upsert.  A batch that does not fail does what its items do one after the other.

## Main definitions

* `QueueItem`, `ingest` — a row of the queue and its ingestion.
* `copyFrom`, `upsertAll`, `executePuts` — the statements that save rows, which may fail.
* `CheckpointQueueItem`, `executePutsDirect`, `ingestBatch` — an item alone, and a batch.

## Main results

* `ingestBatch_eq` — **a batch does what its items do alone, one after the other**.
-/

namespace NextRole

/-- A row that a graph saves. -/
inductive QueueItem
  | put (c : Checkpoint)
  | blob (b : CheckpointBlob)
  | write (w : CheckpointWrite)
  deriving Repr, DecidableEq

def QueueItem.threadId : QueueItem → Uuid
  | put c => c.threadId
  | blob b => b.threadId
  | write w => w.threadId

/-- `aput` takes the run of a checkpoint from the configuration of the run that saves it. -/
def QueueItem.ofRun (runId : Option Uuid) : QueueItem → QueueItem
  | put c => put { c with runId := runId }
  | item => item

/-- The row that an upsert of a write leaves, or `none` if its condition fails: a row of
the same key is written only if it has the same channel and type. -/
def upsertedWrite (d : Database) (w : CheckpointWrite) : Option CheckpointWrite :=
  match d.checkpointWrites.get? (Keyed.key w) with
  | none => some w
  | some w₀ => if w₀.channel = w.channel ∧ w₀.type = w.type then some { w₀ with blob := w.blob } else none

/-- The database after one item. -/
def ingest (d : Database) : QueueItem → Database
  | .put c => { d with checkpoints := d.checkpoints.insertNew c }
  | .blob b => { d with checkpointBlobs := d.checkpointBlobs.insertNew b }
  | .write w => { d with checkpointWrites :=
      (upsertedWrite d w).elim d.checkpointWrites d.checkpointWrites.put }

theorem key_upsertedWrite {d : Database} {w w' : CheckpointWrite} (h : upsertedWrite d w = some w') :
    Keyed.key w' = Keyed.key w := by
  unfold upsertedWrite at h
  cases hget : d.checkpointWrites.get? (Keyed.key w) with
  | none =>
    rw [hget, Option.some.injEq] at h
    rw [h]
  | some w₀ =>
    simp only [hget] at h
    split at h
    · rw [← (Table.get?_eq_some.mp hget).2, ← Option.some.inj h]
      rfl
    · cases h

/-- The checkpoints after an item: those of before, and a new one at a free key. -/
theorem mem_checkpoints_ingest {d : Database} {item : QueueItem} {c : Checkpoint} :
    c ∈ (ingest d item).checkpoints ↔
      c ∈ d.checkpoints ∨ item = .put c ∧ d.checkpoints.get? (Keyed.key c) = none := by
  cases item with
  | put c₀ =>
    have hmem : c ∈ (ingest d (.put c₀)).checkpoints ↔ _ := Table.mem_insertNew
    rw [hmem, QueueItem.put.injEq]
    refine or_congr_right ⟨?_, ?_⟩
    · rintro ⟨rfl, hnone⟩
      exact ⟨rfl, hnone⟩
    · rintro ⟨rfl, hnone⟩
      exact ⟨rfl, hnone⟩
  | blob b => simp [ingest]
  | write w => simp [ingest]

/-! ### Statements that may fail -/

/-- `COPY … FROM STDIN`: it fails at a row that the database does not store, or whose key
is taken. -/
def copyFrom {α κ : Type} [Keyed α κ] [DecidableEq κ] (storable : α → Bool) (t : Table α)
    (rows : List α) : Option (Table α) :=
  rows.foldlM (fun t a => if storable a && (t.get? (Keyed.key a)).isNone then some (t.put a) else none) t

/-- The upsert of a write, as a function of its table. -/
def upsertWrite (t : Table CheckpointWrite) (w : CheckpointWrite) : Table CheckpointWrite :=
  match t.get? (Keyed.key w) with
  | none => t.put w
  | some w₀ => if w₀.channel = w.channel ∧ w₀.type = w.type then t.put { w₀ with blob := w.blob } else t

theorem ingest_write (d : Database) (w : CheckpointWrite) :
    ingest d (.write w) = { d with checkpointWrites := upsertWrite d.checkpointWrites w } := by
  simp only [ingest, upsertedWrite, upsertWrite]
  split
  · rfl
  · split <;> rfl

/-- `executemany` of the upsert. -/
def upsertAll (storable : CheckpointWrite → Bool) (t : Table CheckpointWrite)
    (writes : List CheckpointWrite) : Option (Table CheckpointWrite) :=
  writes.foldlM (fun t w => if storable w then some (upsertWrite t w) else none) t

theorem copyFrom_append {α κ : Type} [Keyed α κ] [DecidableEq κ] (storable : α → Bool) (t : Table α)
    (rows rows' : List α) :
    copyFrom storable t (rows ++ rows') =
      (copyFrom storable t rows).bind fun t' => copyFrom storable t' rows' :=
  List.foldlM_append

theorem upsertAll_append (storable : CheckpointWrite → Bool) (t : Table CheckpointWrite)
    (ws ws' : List CheckpointWrite) :
    upsertAll storable t (ws ++ ws') =
      (upsertAll storable t ws).bind fun t' => upsertAll storable t' ws' :=
  List.foldlM_append

theorem upsertAll_eq_some {storable : CheckpointWrite → Bool} {t t' : Table CheckpointWrite}
    {ws : List CheckpointWrite} (h : upsertAll storable t ws = some t') :
    t' = ws.foldl upsertWrite t := by
  induction ws generalizing t with
  | nil =>
    cases h
    rfl
  | cons w ws ih =>
    obtain ⟨t₁, hstep, hrest⟩ := Option.bind_eq_some_iff.mp h
    simp only at hstep
    split at hstep
    · rw [List.foldl_cons, Option.some.inj hstep]
      exact ih hrest
    · cases hstep

/-- An item of the queue: the rows of one put. -/
structure CheckpointQueueItem where
  items : List QueueItem
  deriving Repr, DecidableEq

def CheckpointQueueItem.blobs (item : CheckpointQueueItem) : List CheckpointBlob :=
  item.items.filterMap fun | .blob b => some b | _ => none

def CheckpointQueueItem.checkpoints (item : CheckpointQueueItem) : List Checkpoint :=
  item.items.filterMap fun | .put c => some c | _ => none

def CheckpointQueueItem.writes (item : CheckpointQueueItem) : List CheckpointWrite :=
  item.items.filterMap fun | .write w => some w | _ => none

section

-- the rows that the database stores, whose texts have no zero byte for example
variable (storable : QueueItem → Bool)

/-- The statements for some rows, which fail together: blobs, then checkpoints, then
writes. -/
def executePuts (blobs : List CheckpointBlob) (checkpoints : List Checkpoint)
    (writes : List CheckpointWrite) (d : Database) : Option Database := do
  let blobTable ← copyFrom (fun b => storable (.blob b)) d.checkpointBlobs blobs
  let checkpointTable ← copyFrom (fun c => storable (.put c)) d.checkpoints checkpoints
  let writeTable ← upsertAll (fun w => storable (.write w)) d.checkpointWrites writes
  return { d with
    checkpointBlobs := blobTable
    checkpoints := checkpointTable
    checkpointWrites := writeTable }

/-- `_execute_puts_direct`, with the rows of one item. -/
def executePutsDirect (d : Database) (item : CheckpointQueueItem) : Option Database :=
  executePuts storable item.blobs item.checkpoints item.writes d

/-- The transaction of `_ingest_batch`: the rows of all items, table by table. -/
def ingestBatch (batch : List CheckpointQueueItem) (d : Database) : Option Database :=
  executePuts storable (batch.flatMap CheckpointQueueItem.blobs)
    (batch.flatMap CheckpointQueueItem.checkpoints) (batch.flatMap CheckpointQueueItem.writes) d

variable {storable}

/-- Saving some rows after others is saving them together. -/
theorem executePuts_append (bs bs' : List CheckpointBlob) (cs cs' : List Checkpoint)
    (ws ws' : List CheckpointWrite) (d : Database) :
    executePuts storable (bs ++ bs') (cs ++ cs') (ws ++ ws') d =
      (executePuts storable bs cs ws d).bind (executePuts storable bs' cs' ws') := by
  simp only [executePuts, copyFrom_append, upsertAll_append, Option.bind_eq_bind]
  -- no table depends on another, so it does not matter which of them fails first
  cases copyFrom (fun b => storable (.blob b)) d.checkpointBlobs bs with
  | none => rfl
  | some blobTable =>
    cases copyFrom (fun c => storable (.put c)) d.checkpoints cs with
    | none => simp
    | some checkpointTable =>
      cases upsertAll (fun w => storable (.write w)) d.checkpointWrites ws with
      | none => simp
      | some writeTable => rfl

/-- **A batch does what its items do alone, one after the other.** -/
theorem ingestBatch_eq (batch : List CheckpointQueueItem) (d : Database) :
    ingestBatch storable batch d = batch.foldlM (executePutsDirect storable) d := by
  induction batch generalizing d with
  | nil => rfl
  | cons item batch ih =>
    rw [ingestBatch, List.flatMap_cons, List.flatMap_cons, List.flatMap_cons, executePuts_append,
      List.foldlM_cons, ← executePutsDirect]
    exact congrArg _ (funext ih)

end

end NextRole
