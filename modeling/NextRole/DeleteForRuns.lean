import NextRole.Runtime.Ingestion
import NextRole.Servicers.Checkpointer
import NextRole.Lib.Transition

/-!
# What the deletion for runs removes

A copy of a thread repeats its checkpoints with their run ids, so the run id of a row does
not say which thread the run worked on.  `DeleteForRuns` goes by the run ids of the rows.

## Main definitions

* `Provenance` — a database with the runs that wrote its checkpoints and writes.
* `DeletesOwn` — what the runs wrote on their own threads is removed, and nothing else.
* `OwnRowsOnly` — no copy carries the id of one of the runs, and they have written on
  their own checkpoints only.

## Main results

* `traced_of_reachable` — the ids of the rows against the runs that wrote them.
* `deletesOwn_iff` — **when the deletion removes just that**.
* `not_deletesOwn` — a copied thread loses its checkpoint.
-/

namespace NextRole

open ReadCommitted

/-! ### Provenance -/

/-- A database, with the run that wrote the checkpoint or the write of a key on the
thread of that key.  A row that a copy has made was written by no run. -/
structure Provenance where
  db : Database
  checkpointBy : Uuid × String × Uuid → Option Uuid
  writeBy : Uuid × String × Uuid × Uuid × ℤ → Option Uuid

inductive CopyAction
  /-- `Threads.Copy`, with the uuid that it draws. -/
  | copy (threadId newId : Uuid) (filters : List AuthFilter) (now : Timestamp)
  /-- `Checkpointer.CopyThread`. -/
  | copyThread (fromThreadId toThreadId : Uuid)
  /-- A graph saves a row, in the name of a run or of a state update. -/
  | save (runId : Option Uuid) (item : QueueItem)

/-- The database after an action. -/
def CopyAction.execute (d : Database) : CopyAction → Database
  | .copy threadId newId filters now => NextRole.execute (.copyThread threadId newId filters now) d
  | .copyThread fromThreadId toThreadId =>
    executeCheckpointer (.copyThread fromThreadId toThreadId) d
  | .save runId item => ingest d (item.ofRun runId)

/-- Who wrote the checkpoints after an action: a save at a free key is by its run. -/
def CopyAction.checkpointBy (s : Provenance) : CopyAction → Uuid × String × Uuid → Option Uuid
  | .save runId (.put c) =>
    if (s.db.checkpoints.get? (Keyed.key c)).isSome then s.checkpointBy
    else Function.update s.checkpointBy (Keyed.key c) runId
  | _ => s.checkpointBy

/-- Who wrote the writes after an action: the last one who has. -/
def CopyAction.writeBy (s : Provenance) :
    CopyAction → Uuid × String × Uuid × Uuid × ℤ → Option Uuid
  | .save runId (.write w) =>
    if (upsertedWrite s.db w).isSome then Function.update s.writeBy (Keyed.key w) runId
    else s.writeBy
  | _ => s.writeBy

/-- Copies and saves, from a store without checkpoints. -/
def provenance : Machine Provenance CopyAction where
  init s := (s.db.checkpoints = Table.empty ∧ s.db.checkpointBlobs = Table.empty ∧
    s.db.checkpointWrites = Table.empty) ∧ s.checkpointBy = (fun _ => none) ∧ s.writeBy = fun _ => none
  step s a := some ⟨a.execute s.db, a.checkpointBy s, a.writeBy s⟩

/-! ### Statement -/

/-- The second database lacks just the checkpoints and writes that the runs wrote on
their own threads. -/
structure DeletesOwn (runIds : List Uuid) (s : Provenance) (d' : Database) : Prop where
  checkpoints : ∀ c, c ∈ d'.checkpoints ↔
    c ∈ s.db.checkpoints ∧ ∀ runId ∈ runIds, s.checkpointBy (Keyed.key c) ≠ some runId
  checkpointWrites : ∀ w, w ∈ d'.checkpointWrites ↔
    w ∈ s.db.checkpointWrites ∧ ∀ runId ∈ runIds, s.writeBy (Keyed.key w) ≠ some runId
  checkpointBlobs : d'.checkpointBlobs = s.db.checkpointBlobs

/-- Every checkpoint with the id of one of the runs is one that a run has saved, and the
writes on these checkpoints are the writes of the runs. -/
structure OwnRowsOnly (runIds : List Uuid) (s : Provenance) : Prop where
  notCopied : ∀ c ∈ s.db.checkpoints, ofRuns runIds c = true →
    (s.checkpointBy (Keyed.key c)).isSome = true
  ownWrites : ∀ w ∈ s.db.checkpointWrites,
    (∃ c ∈ s.db.checkpoints, w.belongsTo c = true ∧ ofRuns runIds c = true) ↔
      ∃ runId ∈ runIds, s.writeBy (Keyed.key w) = some runId

instance (runIds : List Uuid) (s : Provenance) : Decidable (OwnRowsOnly runIds s) :=
  decidable_of_iff
    ((∀ c ∈ s.db.checkpoints, ofRuns runIds c = true →
      (s.checkpointBy (Keyed.key c)).isSome = true) ∧
    ∀ w ∈ s.db.checkpointWrites,
      (∃ c ∈ s.db.checkpoints, w.belongsTo c = true ∧ ofRuns runIds c = true) ↔
        ∃ runId ∈ runIds, s.writeBy (Keyed.key w) = some runId)
    ⟨fun h => ⟨h.1, h.2⟩, fun h => ⟨h.notCopied, h.ownWrites⟩⟩

/-! ### The ids of the rows -/

/-- A checkpoint that a run has written carries its id, and it is still there. -/
structure Traced (s : Provenance) : Prop where
  runId : ∀ c ∈ s.db.checkpoints, ∀ runId, s.checkpointBy (Keyed.key c) = some runId →
    c.runId = some runId
  present : ∀ k runId, s.checkpointBy k = some runId → (s.db.checkpoints.get? k).isSome = true

/-- A copy keeps the checkpoints and adds some at free keys. -/
theorem checkpoints_copy {a : CopyAction} (ha : ∀ runId item, a ≠ .save runId item) (d : Database) :
    (∀ c ∈ d.checkpoints, c ∈ (a.execute d).checkpoints) ∧
      ∀ c ∈ (a.execute d).checkpoints, c ∈ d.checkpoints ∨ d.checkpoints.get? (Keyed.key c) = none := by
  cases a with
  | copy threadId newId filters now =>
    rcases execute_copyThread_cases threadId newId filters now d with hsame | hcopy
    · rw [CopyAction.execute, hsame]
      exact ⟨fun c hc => hc, fun c hc => Or.inl hc⟩
    · rw [CopyAction.execute]
      refine ⟨fun c hc => (hcopy.checkpoints c).mpr (Or.inl hc), fun c hc => ?_⟩
      exact ((hcopy.checkpoints c).mp hc).imp_right fun ⟨_, _, _, _, hnone⟩ => hnone
  | copyThread fromThreadId toThreadId =>
    have hcopy : CopiedRows fromThreadId toThreadId d
        ((CopyAction.copyThread fromThreadId toThreadId).execute d) :=
      copiedRows_copyThread fromThreadId toThreadId d
    refine ⟨fun c hc => (hcopy.checkpoints c).mpr (Or.inl hc), fun c hc => ?_⟩
    exact ((hcopy.checkpoints c).mp hc).imp_right fun ⟨_, _, _, _, hnone⟩ => hnone
  | save runId item => exact absurd rfl (ha runId item)

theorem checkpoints_ingest (d : Database) (item : QueueItem) :
    ∀ c ∈ d.checkpoints, c ∈ (ingest d item).checkpoints :=
  fun _ hc => mem_checkpoints_ingest.mpr (Or.inl hc)

theorem isSome_get?_of_subset {d d' : Database} (h : ∀ c ∈ d.checkpoints, c ∈ d'.checkpoints)
    {k : Uuid × String × Uuid} (hk : (d.checkpoints.get? k).isSome = true) :
    (d'.checkpoints.get? k).isSome = true := by
  obtain ⟨c, hget⟩ := Option.isSome_iff_exists.mp hk
  obtain ⟨hc, rfl⟩ := Table.get?_eq_some.mp hget
  rw [Table.get?_eq_some.mpr ⟨h c hc, rfl⟩, Option.isSome_some]

/-- An action that writes nobody's name keeps the invariant if it keeps the checkpoints. -/
theorem Traced.of_grows {s s' : Provenance} (h : Traced s) (hby : s'.checkpointBy = s.checkpointBy)
    (hkeep : ∀ c ∈ s.db.checkpoints, c ∈ s'.db.checkpoints)
    (hnew : ∀ c ∈ s'.db.checkpoints, c ∈ s.db.checkpoints ∨ s.db.checkpoints.get? (Keyed.key c) = none) :
    Traced s' := by
  constructor
  · intro c hc runId hrun
    rw [hby] at hrun
    rcases hnew c hc with hold | hnone
    · exact h.runId c hold runId hrun
    · have hpresent := h.present (Keyed.key c) runId hrun
      rw [hnone] at hpresent
      cases hpresent
  · intro k runId hrun
    rw [hby] at hrun
    exact isSome_get?_of_subset hkeep (h.present k runId hrun)

/-- A run saves a checkpoint at a free key. -/
theorem Traced.put {s s' : Provenance} (h : Traced s) {c : Checkpoint}
    (hfree : s.db.checkpoints.get? (Keyed.key c) = none)
    (hby : s'.checkpointBy = Function.update s.checkpointBy (Keyed.key c) c.runId)
    (hmem : ∀ c', c' ∈ s'.db.checkpoints ↔ c' ∈ s.db.checkpoints ∨ c' = c) : Traced s' := by
  constructor
  · intro c' hc' runId hrun
    rw [hby] at hrun
    rcases (hmem c').mp hc' with hold | rfl
    · rw [Function.update_of_ne (Table.get?_eq_none.mp hfree c' hold)] at hrun
      exact h.runId c' hold runId hrun
    · rwa [Function.update_self] at hrun
  · intro k runId hrun
    rw [hby] at hrun
    by_cases hkey : k = Keyed.key c
    · rw [hkey, Table.mem_iff_get?.mp ((hmem c).mpr (Or.inr rfl)), Option.isSome_some]
    · rw [Function.update_of_ne hkey] at hrun
      exact isSome_get?_of_subset (fun c' hc' => (hmem c').mpr (Or.inl hc')) (h.present k runId hrun)

theorem Traced.step {s s' : Provenance} (h : Traced s) {a : CopyAction}
    (hs : provenance.step s a = some s') : Traced s' := by
  cases hs
  cases a with
  | copy threadId newId filters now =>
    obtain ⟨hkeep, hnew⟩ := checkpoints_copy (a := .copy threadId newId filters now) (by simp) s.db
    exact h.of_grows rfl hkeep hnew
  | copyThread fromThreadId toThreadId =>
    obtain ⟨hkeep, hnew⟩ := checkpoints_copy (a := .copyThread fromThreadId toThreadId) (by simp) s.db
    exact h.of_grows rfl hkeep hnew
  | save runId item =>
    have hkeep := checkpoints_ingest s.db (item.ofRun runId)
    cases item with
    | put c =>
      cases hget : s.db.checkpoints.get? (Keyed.key c) with
      | some c₁ =>
        -- the batch fails
        have htaken : (s.db.checkpoints.get? (Keyed.key c)).isSome = true := by
          rw [hget, Option.isSome_some]
        refine h.of_grows (if_pos htaken) hkeep fun c' hc' => ?_
        exact (mem_checkpoints_ingest.mp hc').imp_right And.right
      | none =>
        have hnot : ¬ (s.db.checkpoints.get? (Keyed.key c)).isSome = true := by simp [hget]
        refine h.put (c := { c with runId := runId }) hget (if_neg hnot) fun c' => ?_
        refine mem_checkpoints_ingest.trans (or_congr_right ?_)
        constructor
        · rintro ⟨heq, -⟩
          exact (QueueItem.put.inj heq).symm
        · rintro rfl
          exact ⟨rfl, hget⟩
    | blob b =>
      refine h.of_grows rfl hkeep fun c' hc' => ?_
      exact (mem_checkpoints_ingest.mp hc').imp_right And.right
    | write w =>
      refine h.of_grows rfl hkeep fun c' hc' => ?_
      exact (mem_checkpoints_ingest.mp hc').imp_right And.right

theorem traced_init {s : Provenance} (h : provenance.init s) : Traced s := by
  obtain ⟨-, hby, -⟩ := h
  constructor
  · intro c hc runId hrun
    rw [hby] at hrun
    cases hrun
  · intro k runId hrun
    rw [hby] at hrun
    cases hrun

theorem traced_of_reachable {s : Provenance} (hs : provenance.Reachable Machine.free s) : Traced s :=
  hs.invariant (fun _ h => traced_init h) fun _ _ _ _ h _ hstep => h.step hstep

/-! ### The deletion -/

theorem ofRuns_eq_true {runIds : List Uuid} {c : Checkpoint} :
    ofRuns runIds c = true ↔ ∃ runId ∈ runIds, c.runId = some runId := by
  rw [ofRuns, Option.any_eq_true]
  constructor
  · rintro ⟨runId, hrun, hmem⟩
    exact ⟨runId, of_decide_eq_true hmem, hrun⟩
  · rintro ⟨runId, hmem, hrun⟩
    exact ⟨runId, hrun, decide_eq_true hmem⟩

/-- **`DeleteForRuns` removes exactly what the runs wrote on their own threads** iff no
copy carries their ids and the writes on their checkpoints are theirs. -/
theorem deletesOwn_iff {s : Provenance} (hs : provenance.Reachable Machine.free s)
    (runIds : List Uuid) :
    DeletesOwn runIds s (executeCheckpointer (.deleteForRuns runIds) s.db) ↔ OwnRowsOnly runIds s := by
  have htraced := traced_of_reachable hs
  have h := withoutCheckpoints_deleteForRuns runIds s.db
  -- a checkpoint that one of the runs wrote has its id
  have hwritten : ∀ c ∈ s.db.checkpoints, ∀ runId ∈ runIds,
      s.checkpointBy (Keyed.key c) = some runId → ofRuns runIds c = true :=
    fun c hc runId hmem hrun => ofRuns_eq_true.mpr ⟨runId, hmem, htraced.runId c hc runId hrun⟩
  constructor
  · intro hown
    constructor
    · intro c hc hof
      by_contra hnone
      have hkept : c ∈ (executeCheckpointer (.deleteForRuns runIds) s.db).checkpoints := by
        refine (hown.checkpoints c).mpr ⟨hc, fun runId _ hrun => hnone ?_⟩
        rw [hrun, Option.isSome_some]
      rw [((h.checkpoints c).mp hkept).2] at hof
      cases hof
    · intro w hw
      have hiff : (∀ c ∈ s.db.checkpoints, w.belongsTo c = true → ofRuns runIds c = false) ↔
          ∀ runId ∈ runIds, s.writeBy (Keyed.key w) ≠ some runId := by
        have hboth := (h.checkpointWrites w).symm.trans (hown.checkpointWrites w)
        simpa only [hw, true_and] using hboth
      have hnot := not_congr hiff
      simpa only [not_forall, Bool.not_eq_false, not_not, exists_prop] using hnot
  · intro hown
    refine ⟨fun c => ?_, fun w => ?_, h.checkpointBlobs⟩
    · rw [h.checkpoints]
      refine and_congr_right fun hc => ?_
      constructor
      · intro hof runId hmem hrun
        rw [hwritten c hc runId hmem hrun] at hof
        cases hof
      · intro hnot
        by_contra hof
        rw [Bool.not_eq_false] at hof
        obtain ⟨runId, hrun⟩ := Option.isSome_iff_exists.mp (hown.notCopied c hc hof)
        obtain ⟨runId', hmem, hrun'⟩ := ofRuns_eq_true.mp hof
        obtain rfl := Option.some.inj ((htraced.runId c hc runId hrun).symm.trans hrun')
        exact hnot runId hmem hrun
    · rw [h.checkpointWrites]
      refine and_congr_right fun hw => ?_
      have hnot := not_congr (hown.ownWrites w hw)
      simpa only [not_exists, not_and, Bool.not_eq_true] using hnot

/-- A store of nothing, and nobody who has written. -/
def noProvenance : Provenance := ⟨Database.fresh Table.empty, fun _ => none, fun _ => none⟩

theorem init_noProvenance : provenance.init noProvenance := ⟨⟨rfl, rfl, rfl⟩, rfl, rfl⟩

/-- A checkpoint of the thread 10. -/
def checkpointOf10 (checkpointId : Uuid) : Checkpoint :=
  { threadId := 10, checkpointId := checkpointId, checkpoint := .obj [] }

/-- A write on it. -/
def writeOf10 (checkpointId : Uuid) : CheckpointWrite :=
  { threadId := 10, checkpointId := checkpointId, taskId := 1, idx := 0, channel := "messages",
    type := "msgpack", blob := "hi" }

/-- The thread is copied before the run 7 works on it. -/
theorem deletesOwn_iff_witness : ∃ s, provenance.Reachable Machine.free s ∧
    s.db.checkpoints.rows.length = 3 ∧ s.db.checkpointWrites.rows.length = 1 ∧
      DeletesOwn [7] s (executeCheckpointer (.deleteForRuns [7]) s.db) := by
  obtain ⟨s, hs, hp⟩ := provenance.exists_reachable Machine.free init_noProvenance
    [.save (some 6) (.put (checkpointOf10 1)), .copyThread 10 11,
      .save (some 7) (.put (checkpointOf10 2)), .save (some 7) (.write (writeOf10 2))]
    (fun s => s.db.checkpoints.rows.length = 3 && s.db.checkpointWrites.rows.length = 1 &&
      OwnRowsOnly [7] s) (by decide +kernel)
  simp only [Bool.and_eq_true, decide_eq_true_eq] at hp
  exact ⟨s, hs, hp.1.1, hp.1.2, (deletesOwn_iff hs [7]).mpr hp.2⟩

/-- The thread is copied after that, and the copy loses its checkpoint. -/
theorem not_deletesOwn : ∃ s, provenance.Reachable Machine.free s ∧
    ¬ DeletesOwn [7] s (executeCheckpointer (.deleteForRuns [7]) s.db) := by
  obtain ⟨s, hs, hp⟩ := provenance.exists_reachable Machine.free init_noProvenance
    [.save (some 7) (.put (checkpointOf10 1)), .copyThread 10 11]
    (fun s => decide (∃ c ∈ s.db.checkpoints, c.threadId = 11 ∧
      s.checkpointBy (Keyed.key c) = none ∧
      c ∉ (executeCheckpointer (.deleteForRuns [7]) s.db).checkpoints)) (by decide +kernel)
  obtain ⟨c, hc, -, hby, hgone⟩ := of_decide_eq_true hp
  refine ⟨s, hs, fun h => hgone ((h.checkpoints c).mpr ⟨hc, fun runId _ hrun => ?_⟩)⟩
  rw [hby] at hrun
  cases hrun

end NextRole
