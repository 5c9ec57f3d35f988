import Mathlib.Algebra.GroupWithZero.Nat
import NextRole.Lib.Transition
import NextRole.Runtime.Ingestion

/-!
# The ingestion of checkpoints in batches

The loop of `runtime_postgres/checkpoint.py` takes items from the queue, saves the rows of
all of them in one transaction, and tells all their futures what became of it.  A batch is
kept or lost as a whole, so an item fails with the others of its batch although it would be
saved alone.  When the loop is cancelled it fails the batch under way, which may have been
committed, and saves what is left in the queue as a last batch.

## Main definitions

* `IngestionLoop`, `IngestionAction`, `ingestion` — the loop and its steps.
* `Untimely` — a cancellation after a commit and before the futures are told.
* `succeeded`, `aloneResults` — the futures that succeed, and what would succeed alone.

## Main results

* `ingestionInvariant_of_reachable` — the rows of the items that succeed are saved.
* `ingestion_of_reachable` — **the items of a batch succeed together, exactly when each of
  them would after those before it, and the rows of the items that succeed are saved as if
  each had been alone**.
* `not_aloneResults` — an item that fails with another thread's item.
-/

namespace NextRole

/-! ### The loop -/

/-- The loop: the queue, the items of the batch under way, whether their transaction is
committed, and what the futures have been told, in order. -/
structure IngestionLoop where
  db : Database
  queue : List CheckpointQueueItem := []
  batch : List CheckpointQueueItem := []
  committed : Bool := false
  /-- The loop was cancelled: the batch is the last one. -/
  draining : Bool := false
  stopped : Bool := false
  results : List (CheckpointQueueItem × Bool) := []
  /-- The database at the start, and the items whose rows were committed since. -/
  start : Database := db
  kept : List CheckpointQueueItem := []

inductive IngestionAction
  /-- `put_nowait` of the checkpointer. -/
  | put (item : CheckpointQueueItem)
  /-- The loop takes the first item of the queue into the batch. -/
  | take
  /-- The transaction of the batch, to its commit or its failure. -/
  | transact
  /-- The futures of a committed batch get their results. -/
  | report
  /-- Another exception before the commit: no connection, a timeout. -/
  | raise
  /-- The loop is cancelled. -/
  | cancel
  deriving Repr, DecidableEq

/-- All futures of the batch get one outcome. -/
def IngestionLoop.tell (s : IngestionLoop) (outcome : Bool) : IngestionLoop :=
  { s with
    batch := []
    committed := false
    stopped := s.draining
    results := s.results ++ s.batch.map (·, outcome) }

/-- `total_items`. -/
def IngestionLoop.totalItems (s : IngestionLoop) : ℕ := (s.batch.map fun item => item.items.length).sum

/-- One step.  A window of any length ends a batch that is not empty at any time. -/
def ingestionStep (storable : QueueItem → Bool) (maxBatchSize : Option ℕ) (s : IngestionLoop) :
    IngestionAction → Option IngestionLoop
  | .put item => some { s with queue := s.queue ++ [item] }
  | .take =>
    match s.queue with
    | [] => none
    | item :: queue =>
      if s.stopped = false ∧ s.committed = false ∧
          (s.draining = true ∨ maxBatchSize.all (s.totalItems < ·) = true) then
        some { s with queue := queue, batch := s.batch ++ [item] }
      else none
  | .transact =>
    if s.batch ≠ [] ∧ s.committed = false ∧ (s.draining = true → s.queue = []) then
      match ingestBatch storable s.batch s.db with
      | some d => some { s with db := d, committed := true, kept := s.kept ++ s.batch }
      | none => some (s.tell false)
    else none
  | .report => if s.committed then some (s.tell true) else none
  | .raise => if s.batch ≠ [] ∧ s.committed = false then some (s.tell false) else none
  | .cancel =>
    if s.draining = false then some { s.tell false with draining := true } else none

/-- The loop, started on any database. -/
def ingestion (storable : QueueItem → Bool) (maxBatchSize : Option ℕ) :
    Machine IngestionLoop IngestionAction where
  init s := s = { db := s.db }
  step := ingestionStep storable maxBatchSize

/-- The loop is cancelled after a commit and before the futures are told. -/
def Untimely (s : IngestionLoop) (a : IngestionAction) : Prop := a = .cancel ∧ s.committed = true

instance (s : IngestionLoop) : DecidablePred (Untimely s) := fun a => by
  unfold Untimely
  infer_instance

/-- The items whose futures have succeeded, in order. -/
def succeeded (results : List (CheckpointQueueItem × Bool)) : List CheckpointQueueItem :=
  (results.filter Prod.snd).map Prod.fst

/-- What would become of some items alone, each on what those before it that succeed
leave. -/
def aloneResults (storable : QueueItem → Bool) (d : Database) : List CheckpointQueueItem → List Bool
  | [] => []
  | item :: items =>
    match executePutsDirect storable d item with
    | some d' => true :: aloneResults storable d' items
    | none => false :: aloneResults storable d items

/-! ### What is saved -/

variable {storable : QueueItem → Bool} {maxBatchSize : Option ℕ} {s s' : IngestionLoop}

theorem succeeded_append (results results' : List (CheckpointQueueItem × Bool)) :
    succeeded (results ++ results') = succeeded results ++ succeeded results' := by
  simp [succeeded]

theorem succeeded_batch (batch : List CheckpointQueueItem) (outcome : Bool) :
    succeeded (batch.map (·, outcome)) = if outcome then batch else [] := by
  induction batch with
  | nil => cases outcome <;> rfl
  | cons item batch ih =>
    cases outcome with
    | true => exact congrArg (item :: ·) ih
    | false => exact ih

theorem succeeded_tell (s : IngestionLoop) (outcome : Bool) :
    succeeded (s.tell outcome).results = succeeded s.results ++ if outcome then s.batch else [] := by
  rw [IngestionLoop.tell, succeeded_append, succeeded_batch]

/-- The rows that are committed are those of the items that have succeeded, and of a
committed batch; the database is what these items leave alone. -/
structure IngestionInvariant (storable : QueueItem → Bool) (s : IngestionLoop) : Prop where
  db : s.kept.foldlM (executePutsDirect storable) s.start = some s.db
  kept : s.kept = succeeded s.results ++ if s.committed then s.batch else []

theorem IngestionInvariant.tell (h : IngestionInvariant storable s) {outcome : Bool}
    (houtcome : s.committed = outcome) : IngestionInvariant storable (s.tell outcome) where
  db := h.db
  kept := by
    rw [succeeded_tell, ← houtcome]
    exact h.kept.trans (List.append_nil _).symm

/-- **Every step keeps it**, unless it is untimely. -/
theorem IngestionInvariant.step {a : IngestionAction} (h : IngestionInvariant storable s)
    (htimely : ¬ Untimely s a) (hs : ingestionStep storable maxBatchSize s a = some s') :
    IngestionInvariant storable s' := by
  cases a with
  | put item =>
    cases hs
    exact ⟨h.db, h.kept⟩
  | take =>
    simp only [ingestionStep] at hs
    split at hs
    · cases hs
    · next item queue hqueue =>
      split at hs
      · next hopen =>
        cases hs
        refine ⟨h.db, ?_⟩
        have hkept := h.kept
        rw [hopen.2.1] at hkept ⊢
        exact hkept
      · cases hs
  | transact =>
    simp only [ingestionStep] at hs
    split at hs
    · next hopen =>
      split at hs
      · next d hd =>
        cases hs
        refine ⟨?_, ?_⟩
        · show (s.kept ++ s.batch).foldlM (executePutsDirect storable) s.start = some d
          rw [List.foldlM_append, h.db]
          exact (ingestBatch_eq s.batch s.db).symm.trans hd
        · have hkept := h.kept
          rw [hopen.2.1] at hkept
          show s.kept ++ s.batch = _
          rw [hkept]
          exact congrArg (· ++ s.batch) (List.append_nil _)
      · cases hs
        exact h.tell hopen.2.1
    · cases hs
  | report =>
    simp only [ingestionStep] at hs
    split at hs
    · next hcommitted =>
      cases hs
      exact h.tell hcommitted
    · cases hs
  | raise =>
    simp only [ingestionStep] at hs
    split at hs
    · next hopen =>
      cases hs
      exact h.tell hopen.2
    · cases hs
  | cancel =>
    simp only [ingestionStep] at hs
    split at hs
    · cases hs
      have hcommitted : s.committed = false := by
        rw [Bool.eq_false_iff]
        exact fun hc => htimely ⟨rfl, hc⟩
      exact ⟨h.db, (h.tell hcommitted).kept⟩
    · cases hs

theorem ingestionInvariant_of_reachable
    (h : (ingestion storable maxBatchSize).Reachable (fun s a => ¬ Untimely s a) s) :
    IngestionInvariant storable s := by
  refine h.invariant (fun s hs => ?_) fun s a s' _ hI hOk hs => hI.step hOk hs
  rw [show s = { db := s.db } from hs]
  exact ⟨rfl, rfl⟩

/-! ### What becomes of a batch -/

/-- A transaction of a batch commits exactly when its items would succeed alone, one after
the other; otherwise none of them is saved and all of them fail. -/
theorem transact_cases (hs : ingestionStep storable maxBatchSize s .transact = some s') :
    (∃ d, s.batch.foldlM (executePutsDirect storable) s.db = some d ∧
        s'.db = d ∧ s'.committed = true ∧ s'.batch = s.batch ∧ s'.results = s.results) ∨
      s.batch.foldlM (executePutsDirect storable) s.db = none ∧
        s'.db = s.db ∧ s'.results = s.results ++ s.batch.map (·, false) := by
  simp only [ingestionStep] at hs
  split at hs
  · rw [← ingestBatch_eq]
    split at hs
    · next d hd =>
      cases hs
      exact Or.inl ⟨d, hd, rfl, rfl, rfl, rfl⟩
    · next hnone =>
      cases hs
      exact Or.inr ⟨hnone, rfl, rfl⟩
  · cases hs

/-- **Ingestion is all or nothing for each batch.**  While no batch is between its commit
and its report, the items whose futures have succeeded are those whose rows are committed,
and the database is what they leave when each is executed alone after those before it.  The
items of a batch succeed together: exactly when each of them would alone, after those
before it, and no row of a batch that fails is saved. -/
theorem ingestion_of_reachable
    (h : (ingestion storable maxBatchSize).Reachable (fun s a => ¬ Untimely s a) s) :
    (s.committed = false → s.kept = succeeded s.results ∧
      (succeeded s.results).foldlM (executePutsDirect storable) s.start = some s.db) ∧
    ∀ s', ingestionStep storable maxBatchSize s .transact = some s' →
      ((∃ d, s.batch.foldlM (executePutsDirect storable) s.db = some d ∧ s'.db = d ∧
          ∀ s'', ingestionStep storable maxBatchSize s' .report = some s'' →
            s''.results = s.results ++ s.batch.map (·, true)) ∨
        s.batch.foldlM (executePutsDirect storable) s.db = none ∧ s'.db = s.db ∧
          s'.results = s.results ++ s.batch.map (·, false)) := by
  have hinv := ingestionInvariant_of_reachable h
  constructor
  · intro hcommitted
    have hkept : s.kept = succeeded s.results := by
      have hkept := hinv.kept
      rw [hcommitted] at hkept
      exact hkept.trans (List.append_nil _)
    exact ⟨hkept, hkept ▸ hinv.db⟩
  · intro s' hs'
    rcases transact_cases hs' with ⟨d, hd, hdb, hcommitted, hbatch, hresults⟩ | ⟨hnone, hdb, hresults⟩
    · refine Or.inl ⟨d, hd, hdb, fun s'' hs'' => ?_⟩
      simp only [ingestionStep, hcommitted, if_true] at hs''
      cases hs''
      rw [IngestionLoop.tell, hresults, hbatch]
    · exact Or.inr ⟨hnone, hdb, hresults⟩

/-! ### Two threads in one batch -/

/-- The put of a checkpoint of a thread. -/
def checkpointOf (threadId checkpointId : Uuid) : CheckpointQueueItem :=
  ⟨[.put { threadId, checkpointId, checkpoint := .obj [] }]⟩

/-- The loop on a database with a checkpoint of thread 2. -/
def loopOnThread2 : IngestionLoop where
  db := { Database.fresh .empty with
    checkpoints := Table.empty.put { threadId := 2, checkpointId := 1, checkpoint := .obj [] } }

theorem init_loopOnThread2 : (ingestion (fun _ => true) (some 1000)).init loopOnThread2 := rfl

/-- Two items in one batch. -/
def oneBatch (item item' : CheckpointQueueItem) : List IngestionAction :=
  [.put item, .put item', .take, .take, .transact]

/-- Two new checkpoints are saved. -/
theorem ingestion_newCheckpoints :
    ∃ s, (ingestion (fun _ => true) (some 1000)).Reachable (fun s a => ¬ Untimely s a) s ∧
      s.results = [(checkpointOf 1 1, true), (checkpointOf 2 2, true)] ∧
      s.kept = [checkpointOf 1 1, checkpointOf 2 2] := by
  obtain ⟨s, hs, hp⟩ := (ingestion (fun _ => true) (some 1000)).exists_reachable
    (fun s a => ¬ Untimely s a) init_loopOnThread2
    (oneBatch (checkpointOf 1 1) (checkpointOf 2 2) ++ [.report])
    (fun s => s.committed = false ∧
      s.results = [(checkpointOf 1 1, true), (checkpointOf 2 2, true)]) (by decide +kernel)
  obtain ⟨hcommitted, hresults⟩ := of_decide_eq_true hp
  refine ⟨s, hs, hresults, ?_⟩
  rw [((ingestion_of_reachable hs).1 hcommitted).1, hresults]
  rfl

/-- A new checkpoint of one thread fails because a checkpoint of the other, in the same
batch, is already saved. -/
theorem not_aloneResults :
    ¬ ∀ s, (ingestion (fun _ => true) (some 1000)).Reachable
        (fun _ a => a ≠ .cancel ∧ a ≠ .raise) s →
      s.results.map Prod.snd = aloneResults (fun _ => true) s.start (s.results.map Prod.fst) := by
  intro h
  obtain ⟨s, hs, hp⟩ := (ingestion (fun _ => true) (some 1000)).exists_reachable
    (fun _ a => a ≠ .cancel ∧ a ≠ .raise) init_loopOnThread2
    (oneBatch (checkpointOf 1 1) (checkpointOf 2 1))
    (fun s => s.results.map Prod.snd ≠
      aloneResults (fun _ => true) s.start (s.results.map Prod.fst)) (by decide +kernel)
  exact of_decide_eq_true hp (h s hs)

end NextRole
