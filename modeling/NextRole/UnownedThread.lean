import NextRole.Serial

/-!
# A thread of somebody else looks like a missing one

A creation on a thread that the caller's filters do not admit inserts nothing and
changes nothing.  Its response is not always that of a creation on a missing thread:
the rows of `inflight_runs` are added to it without a look at the owner.  The two
responses differ exactly when the thread has a pending run.

## Main definitions

* `DiffersByThread` — two databases that differ in one thread, which the filters do
  not admit, and its runs.
* `LooksMissing` — the reply is empty in both databases and neither changes.

## Main results

* `createRun_unowned` — nothing is written for a thread that is not admitted.
* `looksMissing_iff` — **an unowned thread looks missing exactly when it has no
  pending run**.
* `not_looksMissing` — a request that tells that it exists.
-/

namespace NextRole

open ReadCommitted

/-- The databases agree, except that the thread and its runs exist in the first one
only, and the filters do not admit it there. -/
structure DiffersByThread (threadId : Uuid) (filters : List AuthFilter) (d d' : Database) : Prop where
  existing : ∃ t ∈ d.thread, t.threadId = threadId
  unowned : ∀ t ∈ d.thread, t.threadId = threadId → admits filters t.metadata = false
  thread : ∀ t, t ∈ d'.thread ↔ t ∈ d.thread ∧ t.threadId ≠ threadId
  run : ∀ r, r ∈ d'.run ↔ r ∈ d.run ∧ r.threadId ≠ threadId
  assistant : d'.assistant = d.assistant
  cron : d'.cron = d.cron
  checkpoints : d'.checkpoints = d.checkpoints
  checkpointBlobs : d'.checkpointBlobs = d.checkpointBlobs
  checkpointWrites : d'.checkpointWrites = d.checkpointWrites

/-- A request gets the reply of a missing thread in both databases, which is no row,
and changes neither. -/
def LooksMissing (request : CreateRunRequest) (env : CreateEnv) (d d' : Database) : Prop :=
  createReply request env d = some [] ∧ createReply request env d' = some [] ∧
    execute (.createRun request env) d = d ∧ execute (.createRun request env) d' = d'

instance (request : CreateRunRequest) (env : CreateEnv) (d d' : Database) :
    Decidable (LooksMissing request env d d') := by
  unfold LooksMissing
  infer_instance

/-! ### Nothing is written -/

section

variable {p : CreateParams} {snap cur : Database}

theorem runThread_unowned (hcreate : p.createThread = false)
    (hun : ∀ t ∈ snap.thread, t.threadId = p.threadId → admits p.threadFilters t.metadata = false) :
    runThread p snap cur = [] := by
  refine List.eq_nil_iff_forall_not_mem.mpr fun t ht => ?_
  rcases mem_runThread.mp ht with ⟨hmem, hid, hadm⟩ | hins
  · rw [hun t hmem hid] at hadm
    cases hadm
  · rw [(insertedThread_eq_some.mp hins).1] at hcreate
    cases hcreate

theorem insertedRun_of_runThread (h : runThread p snap cur = []) : insertedRun p snap cur = [] := by
  refine List.eq_nil_iff_forall_not_mem.mpr fun r hr => ?_
  obtain ⟨-, t, ht, -⟩ := mem_insertedRun.mp hr
  rw [h] at ht
  exact absurd ht List.not_mem_nil

/-- **A creation on a thread that is not admitted does not fail and writes nothing.** -/
theorem createRun_unowned {held : List RowKey} (hcreate : p.createThread = false)
    (hun : ∀ t ∈ snap.thread, t.threadId = p.threadId → admits p.threadFilters t.metadata = false) :
    (createRun p snap held cur).writes = some [] := by
  have hrun : insertedRun p snap cur = [] := insertedRun_of_runThread (runThread_unowned hcreate hun)
  have hthread : insertedThread p snap cur = none := by simp [insertedThread, hcreate]
  have hupdated : updatedThread p snap cur = [] := by
    refine List.eq_nil_iff_forall_not_mem.mpr fun t ht => ?_
    obtain ⟨t₀, ht₀, -⟩ := mem_updatedThread.mp ht
    obtain ⟨-, hp, -⟩ := Relation.mem_rechecked.mp ht₀
    simp [hrun] at hp
  simp [createRun, createConflicts, hrun, hthread, hupdated]

end

theorem execute_unowned {request : CreateRunRequest} {env : CreateEnv} {d : Database}
    (hcreate : (createParams request env).createThread = false)
    (hun : ∀ t ∈ d.thread, t.threadId = (createParams request env).threadId →
      admits request.threadFilters t.metadata = false) :
    execute (.createRun request env) d = d := by
  rw [execute_createRun, createRun_unowned hcreate hun]
  rfl

theorem createReply_unowned {request : CreateRunRequest} {env : CreateEnv} {d : Database}
    (hcreate : (createParams request env).createThread = false)
    (hun : ∀ t ∈ d.thread, t.threadId = (createParams request env).threadId →
      admits request.threadFilters t.metadata = false) :
    createReply request env d = some (inflightRuns (createParams request env) d) := by
  have hrun : insertedRun (createParams request env) d d = [] :=
    insertedRun_of_runThread (runThread_unowned hcreate hun)
  simp [createReply, createConflicts, createResponse, hrun]

/-! ### The two replies -/

/-- **An unowned thread looks missing exactly when it has no pending run**: for any two
databases that differ in a thread which the caller's filters do not admit and in its
runs, and any request that names this thread without creating it, the reply is empty
in both and both are unchanged iff no run of the thread is pending. -/
theorem looksMissing_iff {request : CreateRunRequest} {env : CreateEnv} {threadId : Uuid}
    {d d' : Database} (hnamed : request.threadId = some threadId)
    (hcreate : request.createIfNotExists = false)
    (hdiff : DiffersByThread threadId request.threadFilters d d') :
    LooksMissing request env d d' ↔ ∀ r ∈ d.run, r.threadId = threadId → r.status ≠ .pending := by
  have hid : (createParams request env).threadId = threadId := by simp [createParams, hnamed]
  have hno : (createParams request env).createThread = false := by
    simp [createParams, hnamed, hcreate]
  have hun : ∀ t ∈ d.thread, t.threadId = (createParams request env).threadId →
      admits request.threadFilters t.metadata = false := hid.symm ▸ hdiff.unowned
  -- in the other database the thread is missing, so the same holds of nothing
  have hun' : ∀ t ∈ d'.thread, t.threadId = (createParams request env).threadId →
      admits request.threadFilters t.metadata = false := by
    intro t ht htid
    exact absurd (htid.trans hid) ((hdiff.thread t).mp ht).2
  have hnone : inflightRuns (createParams request env) d' = [] := by
    refine List.eq_nil_iff_forall_not_mem.mpr fun r hr => ?_
    obtain ⟨hmem, htid, -⟩ := mem_inflightRuns.mp hr
    exact absurd (htid.trans hid) ((hdiff.run r).mp hmem).2
  unfold LooksMissing
  rw [createReply_unowned hno hun, createReply_unowned hno hun', execute_unowned hno hun,
    execute_unowned hno hun', hnone]
  constructor
  · rintro ⟨hreply, -⟩ r hr htid hst
    have hmem := mem_inflightRuns.mpr ⟨hr, htid.trans hid.symm, hst⟩
    rw [Option.some.inj hreply] at hmem
    exact absurd hmem List.not_mem_nil
  · intro hpending
    refine ⟨congrArg some (List.eq_nil_iff_forall_not_mem.mpr fun r hr => ?_), rfl, rfl, rfl⟩
    obtain ⟨hmem, htid, hst⟩ := mem_inflightRuns.mp hr
    exact hpending r hmem (htid.trans hid) hst

/-! ### A request that tells -/

/-- Bob's thread `20` with the given runs. -/
def bobsThread (runs : Table Run) : Database :=
  { Database.fresh (Table.empty.put { assistantId := 1, graphId := "agent" }) with
    thread := Table.empty.put { threadId := 20, metadata := .obj [("owner", .str "bob")] }
    run := runs }

/-- The store without that thread. -/
def bobsThreadMissing : Database :=
  Database.fresh (Table.empty.put { assistantId := 1, graphId := "agent" })

/-- Alice's request for a run on thread `20`. -/
def requestAcross : CreateRunRequest where
  assistantId := 1
  runId := some 100
  threadId := some 20
  status := some .pending
  multitaskStrategy := some .reject
  preventInsertIfInflight := true
  threadFilters := ownerFilter "alice"

theorem differs_bobsThread {runs : Table Run} (h : ∀ r ∈ runs, r.threadId = 20) :
    DiffersByThread 20 (ownerFilter "alice") (bobsThread runs) bobsThreadMissing := by
  have hthread : ∀ t ∈ (bobsThread runs).thread, t =
      { threadId := 20, metadata := .obj [("owner", .str "bob")] } := by
    intro t ht
    rcases Table.mem_put.mp ht with rfl | ⟨hmem, -⟩
    · rfl
    · exact absurd hmem (Table.not_mem_empty t)
  refine ⟨⟨_, Table.mem_put.mpr (Or.inl rfl), rfl⟩, fun t ht _ => ?_, fun t => ?_, fun r => ?_,
    rfl, rfl, rfl, rfl, rfl⟩
  · rw [hthread t ht]
    decide +kernel
  · refine iff_of_false (Table.not_mem_empty t) fun ht => ht.2 ?_
    rw [hthread t ht.1]
  · exact iff_of_false (Table.not_mem_empty r) fun hr => hr.2 (h r hr.1)

/-- A run of Bob's that is running does not show. -/
theorem looksMissing_iff_witness :
    LooksMissing requestAcross ⟨0, 0, 0⟩
      (bobsThread (Table.empty.put { runId := 200, threadId := 20, assistantId := 1, status := .running }))
      bobsThreadMissing := by
  refine (looksMissing_iff rfl rfl (differs_bobsThread fun r hr => ?_)).mpr (by decide +kernel)
  rcases Table.mem_put.mp hr with rfl | ⟨hmem, -⟩
  · rfl
  · exact absurd hmem (Table.not_mem_empty r)

/-- A pending run of Bob's comes back in the reply to Alice. -/
theorem not_looksMissing : ¬ ∀ request env threadId d d', request.threadId = some threadId →
    request.createIfNotExists = false → DiffersByThread threadId request.threadFilters d d' →
      LooksMissing request env d d' := by
  intro h
  have hdiff : DiffersByThread 20 requestAcross.threadFilters
      (bobsThread (Table.empty.put { runId := 200, threadId := 20, assistantId := 1 }))
      bobsThreadMissing := by
    refine differs_bobsThread fun r hr => ?_
    rcases Table.mem_put.mp hr with rfl | ⟨hmem, -⟩
    · rfl
    · exact absurd hmem (Table.not_mem_empty r)
  exact absurd (h requestAcross ⟨0, 0, 0⟩ 20 _ _ rfl rfl hdiff) (by decide +kernel)

end NextRole
