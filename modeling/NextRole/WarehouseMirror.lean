import NextRole.Analytics.Extraction

/-!
# No version is lost on the way to the warehouse

A load reads the rows from the greatest cursor on that loads have seen.  A transaction that
started before a load and commits after it, next to one that the load has seen, leaves rows
that no later load reads, and so does a statement that does not touch `updated_at`.  As long
as every commit brings rows that the next loads read, the warehouse has every row after a run
of the pipeline.

## Main definitions

* `Extraction.Mirrors` — the warehouse has every row as it is.
* `CommitsAhead` — the commits whose rows the next loads read.
* `Extraction.Safe` — what holds of every run of them.

## Main results

* `messageResource_owned` — the rows of a message belong to its thread.
* `mirrors_of_reachable`, and `not_mirrors` without the condition.
-/

namespace NextRole

/-! ### Keys in the warehouse -/

theorem forall_of_bind {α β : Type} {x : Option α} {f : α → Option β} {P : β → Prop}
    (h : ∀ a w, f a = some w → P w) : ∀ w, (x >>= f) = some w → P w := by
  intro w hw
  obtain ⟨a, -, ha⟩ := Option.bind_eq_some_iff.mp hw
  exact h a w ha

theorem shapeMessage_key (threadId : Uuid) (index : ℕ) (message : Json) :
    ∀ w, shapeMessage threadId index message = some w →
      w.threadId = threadId ∧ w.messageIndex = index := by
  unfold shapeMessage
  -- what is read of the message decides the other columns
  repeat refine forall_of_bind fun _ => ?_
  rintro w h
  obtain rfl := Option.some.inj h
  exact ⟨rfl, rfl⟩

theorem mapM_shapeMessage {threadId : Uuid} {messages : List (Json × ℕ)}
    {rows : List WarehouseMessage}
    (h : messages.mapM (fun m => shapeMessage threadId m.2 m.1) = some rows) :
    (∀ w ∈ rows, w.threadId = threadId) ∧
      rows.map WarehouseMessage.messageIndex = messages.map Prod.snd := by
  induction messages generalizing rows with
  | nil =>
    obtain rfl : rows = [] := (Option.some.inj h).symm
    exact ⟨nofun, rfl⟩
  | cons m messages ih =>
    simp only [List.mapM_cons, Option.bind_eq_bind, Option.bind_eq_some_iff, Option.pure_def,
      Option.some.injEq] at h
    obtain ⟨w, hw, rest, hrest, rfl⟩ := h
    obtain ⟨hthread, hindex⟩ := shapeMessage_key _ _ _ w hw
    obtain ⟨hthreads, hindices⟩ := ih hrest
    refine ⟨List.forall_mem_cons.mpr ⟨hthread, hthreads⟩, ?_⟩
    rw [List.map_cons, List.map_cons, hindex, hindices]

/-- The messages of a thread have different indices. -/
theorem explodeMessages_key {threadId : Uuid} {messages : Option Json}
    {rows : List WarehouseMessage} (h : explodeMessages threadId messages = some rows) :
    (∀ w ∈ rows, w.threadId = threadId) ∧ (rows.map WarehouseMessage.messageIndex).Nodup := by
  unfold explodeMessages at h
  split at h
  · next messages =>
    obtain ⟨hthreads, hindices⟩ := mapM_shapeMessage h
    refine ⟨hthreads, ?_⟩
    rw [hindices]
    have hall : (messages.zipIdx.map Prod.snd).Nodup := by
      rw [List.zipIdx_map_snd]
      exact List.nodup_range'
    exact hall.sublist (List.filter_sublist.map _)
  · obtain rfl : rows = [] := (Option.some.inj h).symm
    exact ⟨nofun, List.nodup_nil⟩

theorem messageResource_owned : messageResource.Owned Prod.fst where
  owner_eq row l hl e he := by
    obtain ⟨rows, hrows, rfl⟩ := Option.map_eq_some_iff.mp hl
    obtain ⟨w, hw, rfl⟩ := List.mem_map.mp he
    exact (explodeMessages_key hrows).1 w hw
  nodup row l hl := by
    obtain ⟨rows, hrows, rfl⟩ := Option.map_eq_some_iff.mp hl
    refine List.Nodup.of_map Prod.snd ?_
    rw [List.map_map, List.map_map]
    exact (explodeMessages_key hrows).2

/-! ### The condition -/

namespace Extraction

/-- The warehouse has every row of the tables as it is. -/
structure Mirrors (s : Extraction) : Prop where
  run : ∀ row ∈ s.source.run, runResource.Stored s.run.warehouse row
  thread : ∀ row ∈ s.source.thread, threadResource.Stored s.thread.warehouse row
  message : ∀ row ∈ s.source.thread, messageResource.Stored s.message.warehouse row
  checkpointMeta : ∀ row ∈ s.source.checkpoints,
    checkpointMetaResource.Stored s.checkpointMeta.warehouse row
  storeItem : ∀ row ∈ s.source.store, storeItemResource.Stored s.storeItem.warehouse row

/-- The rows that a change of the tables brings can be shaped, and the next loads read them. -/
def Brings (s : Extraction) (new : SourceTables) : Prop :=
  runResource.Brings s.source.run new.run s.run.seen ∧
    threadResource.Brings s.source.thread new.thread s.thread.seen ∧
    messageResource.Brings s.source.thread new.thread s.message.seen ∧
    checkpointMetaResource.Brings s.source.checkpoints new.checkpoints s.checkpointMeta.seen ∧
    storeItemResource.Brings s.source.store new.store s.storeItem.seen

instance (s : Extraction) (new : SourceTables) : Decidable (s.Brings new) :=
  inferInstanceAs (Decidable (_ ∧ _ ∧ _ ∧ _ ∧ _))

/-- Each row is read by the next load of its resources, or the warehouse has it as it is. -/
structure Safe (s : Extraction) : Prop where
  run : runResource.Synced s.source.run s.run
  thread : threadResource.Synced s.source.thread s.thread
  message : messageResource.Synced s.source.thread s.message
  checkpointMeta : checkpointMetaResource.Synced s.source.checkpoints s.checkpointMeta
  storeItem : storeItemResource.Synced s.source.store s.storeItem

namespace Safe

variable {s : Extraction}

theorem change (h : s.Safe) {new : SourceTables} (hnew : s.Brings new) (txns : Dict ℕ SourceTxn) :
    Safe { s with source := new, openTxns := txns } :=
  ⟨h.run.change hnew.1, h.thread.change hnew.2.1, h.message.change hnew.2.2.1,
    h.checkpointMeta.change hnew.2.2.2.1, h.storeItem.change hnew.2.2.2.2⟩

theorem load (h : s.Safe) (resource : AppResource) : (s.load resource).Safe := by
  cases resource with
  | run => exact { h with run := h.run.load (Extractor.ofRows_owned _ _) }
  | thread => exact { h with thread := h.thread.load (Extractor.ofRows_owned _ _) }
  | message => exact { h with message := h.message.load messageResource_owned }
  | checkpointMeta =>
    exact { h with checkpointMeta := h.checkpointMeta.load (Extractor.ofRows_owned _ _) }
  | storeItem => exact { h with storeItem := h.storeItem.load (Extractor.ofRows_owned _ _) }

theorem mirrors_loadAll (h : s.Safe) : s.loadAll.Mirrors where
  run := Extractor.stored_of_load (Extractor.ofRows_owned _ _) h.run
  thread := Extractor.stored_of_load (Extractor.ofRows_owned _ _) h.thread
  message := Extractor.stored_of_load messageResource_owned h.message
  checkpointMeta := Extractor.stored_of_load (Extractor.ofRows_owned _ _) h.checkpointMeta
  storeItem := Extractor.stored_of_load (Extractor.ofRows_owned _ _) h.storeItem

end Safe

end Extraction

/-- Every commit brings rows that can be shaped and that the next loads read. -/
def CommitsAhead (s : Extraction) : ExtractionAction → Prop
  | .commit txn => ∀ t ∈ s.openTxns.get? txn, s.Brings (t.writes.foldl SourceTables.apply s.source)
  | _ => True

instance (s : Extraction) (a : ExtractionAction) : Decidable (CommitsAhead s a) := by
  cases a <;> unfold CommitsAhead <;> infer_instance

theorem Extraction.Safe.step {s s' : Extraction} (h : s.Safe) {a : ExtractionAction}
    (ha : CommitsAhead s a) (hs : extraction.step s a = some s') : s'.Safe := by
  cases a with
  | start txn now =>
    simp only [extraction] at hs
    split at hs
    · cases hs
    · cases hs
      exact ⟨h.run, h.thread, h.message, h.checkpointMeta, h.storeItem⟩
  | write txn w touches =>
    obtain ⟨t, -, rfl⟩ := Option.map_eq_some_iff.mp hs
    exact ⟨h.run, h.thread, h.message, h.checkpointMeta, h.storeItem⟩
  | commit txn =>
    obtain ⟨t, ht, rfl⟩ := Option.map_eq_some_iff.mp hs
    exact h.change (ha t ht) _
  | rollback txn =>
    cases hs
    exact ⟨h.run, h.thread, h.message, h.checkpointMeta, h.storeItem⟩
  | load resource =>
    cases hs
    exact h.load resource

/-- In every run whose commits bring rows that the next loads read, a run of the pipeline
leaves the warehouse with every row as it is. -/
theorem mirrors_of_reachable {s : Extraction} (h : extraction.Reachable CommitsAhead s) :
    s.loadAll.Mirrors := by
  have hsafe : s.Safe := by
    refine h.invariant (I := Extraction.Safe) ?_ fun _ _ _ _ hI ha hs => hI.step ha hs
    rintro t rfl
    exact ⟨nofun, nofun, nofun, nofun, nofun⟩
  exact hsafe.mirrors_loadAll

/-- A run row. -/
def sourceRun (runId : Uuid) (updatedAt : Timestamp) : Run where
  runId := runId
  threadId := 1
  assistantId := 1
  updatedAt := updatedAt

/-- A run that is written before a load and updated after it. -/
theorem mirrors_updated : ∃ s, extraction.Reachable CommitsAhead s ∧
    (s.run.seen = some 1 ∧ s.source.run.rows.map Run.status = [.success]) ∧ s.loadAll.Mirrors := by
  obtain ⟨s, h, hs⟩ := extraction.exists_reachable CommitsAhead (s := {}) rfl
    [.start 0 1, .write 0 (.putRun (sourceRun 7 1)) true, .commit 0, .load .run,
      .start 1 2, .write 1 (.putRun { sourceRun 7 2 with status := .success }) true, .commit 1]
    (fun s => s.run.seen = some 1 ∧ s.source.run.rows.map Run.status = [.success]) (by decide)
  exact ⟨s, h, of_decide_eq_true hs, mirrors_of_reachable h⟩

/-- The first transaction commits after a load has seen the second one: no load reads its
row. -/
theorem not_mirrors : ∃ s, extraction.Reachable Machine.free s ∧ s.openTxns.entries.isEmpty = true ∧
    ¬ s.loadAll.Mirrors := by
  obtain ⟨s, h, hs⟩ := extraction.exists_reachable Machine.free (s := {}) rfl
    [.start 0 1, .write 0 (.putRun (sourceRun 7 1)) true,
      .start 1 2, .write 1 (.putRun (sourceRun 8 2)) true, .commit 1, .load .run, .commit 0]
    (fun s => s.openTxns.entries.isEmpty = true ∧
      sourceRun 7 1 ∈ s.source.run ∧
        s.loadAll.run.warehouse.get? 7 = none) (by decide)
  obtain ⟨hquiet, hmem, hmissing⟩ := of_decide_eq_true hs
  refine ⟨s, h, hquiet, fun hmirrors => ?_⟩
  obtain ⟨l, hl, hstored⟩ := hmirrors.run _ hmem
  have hshape : (shapeRun (sourceRun 7 1)).map (fun w => [((7 : Uuid), w)]) = some l := hl
  obtain ⟨w, -, rfl⟩ := Option.map_eq_some_iff.mp hshape
  have hfound := hstored 7 w (List.mem_singleton_self _)
  rw [hmissing] at hfound
  cases hfound

end NextRole
