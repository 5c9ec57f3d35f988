import NextRole.Runtime.Ingestion
import NextRole.Servicers.Checkpointer

/-!
# Reading a copied thread

A copied thread has the checkpoint rows of its source under its own id, so every read
returns the same on both.  Later calls that address one of the two threads leave the
rows of the other alone; only `DeleteForRuns` addresses no thread, and the copies carry
the run ids of the source.

## Main definitions

* `SameReads` — reading a thread is reading another.
* `CopyReads` — what a copy of a thread is for its readers.
* `StoreCall`, `StoreCall.addresses` — later calls and saves, and the thread they are about.

## Main results

* `copyReads_of_copied` — **a copied thread is read as its source**.
* `sameCheckpoints_call` — a call leaves the rows of the threads that it does not address.
* `copyReads_iff` — **the two threads stay apart iff no deletion names a run whose
  checkpoints are on the other one**.
* `not_copyReads` — the deletion of a run of the source empties the copy.
-/

namespace NextRole

open ReadCommitted

/-! ### Statement -/

/-- Reading the thread `t'` of `d'` returns what reading the thread `t` of `d` does, with
`f` applied to the metadata: for every serializer and walk, every namespace and id, and
every set of delta channels. -/
structure SameReads (f : Json → Json) (d : Database) (t : Uuid) (d' : Database) (t' : Uuid) :
    Prop where
  tuple : ∀ {Value : Type} (loads : String → Option String → Value) ns id,
    agetTuple loads d' t' ns id = (agetTuple loads d t ns id).map (CheckpointTuple.moved t' f)
  history : ∀ {Value : Type} (walk : List WalkRow → Uuid → Walked)
    (loads : String → Option String → Value) ns id channels,
    agetDeltaChannelHistory walk loads d' t' ns id channels =
      agetDeltaChannelHistory walk loads d t ns id channels

/-- `jsonb_set(metadata, '{thread_id}', …)`. -/
def withThreadId (t : Uuid) (metadata : Json) : Json := metadata.set "thread_id" (.str t.text)

/-- The copy is read as the source, but for the thread id in the metadata, it has no
other checkpoint, and the source has the rows that it had. -/
structure CopyReads (threadId newId : Uuid) (d d' : Database) : Prop where
  copy : SameReads (withThreadId newId) d threadId d' newId
  noOther : ∀ c ∈ d'.checkpoints, c.threadId = newId → ∃ c₀ ∈ d.checkpoints,
    c₀.threadId = threadId ∧ c₀.checkpointNs = c.checkpointNs ∧ c₀.checkpointId = c.checkpointId
  source : SameCheckpoints threadId d d'

/-- A uuid that no row has, as one that is newly drawn. -/
structure FreshThread (newId : Uuid) (d : Database) : Prop where
  thread : ∀ t ∈ d.thread, t.threadId ≠ newId
  checkpoints : ∀ c ∈ d.checkpoints, c.threadId ≠ newId
  checkpointBlobs : ∀ b ∈ d.checkpointBlobs, b.threadId ≠ newId
  checkpointWrites : ∀ w ∈ d.checkpointWrites, w.threadId ≠ newId

/-- A call of a service, or a save. -/
inductive StoreCall
  | service (rpc : Rpc)
  | checkpointer (rpc : CheckpointerRpc)
  | save (item : QueueItem)

def StoreCall.execute (d : Database) : StoreCall → Database
  | .service rpc => NextRole.execute rpc d
  | .checkpointer rpc => executeCheckpointer rpc d
  | .save item => ingest d item

/-- A call is about the checkpoints of a thread: it deletes or prunes them, copies to the
thread or saves a row of it. -/
def StoreCall.addresses (threadId : Uuid) : StoreCall → Bool
  | .service (.deleteThread k _) => k = threadId
  | .service (.copyThread _ k _ _) => k = threadId
  | .service _ => false
  | .checkpointer (.deleteThread k) => k = threadId
  | .checkpointer (.copyThread _ k) => k = threadId
  | .checkpointer (.prune threadIds _) => threadId ∈ threadIds
  | .checkpointer (.deleteForRuns _) => false
  | .save item => item.threadId = threadId

/-- A call deletes a checkpoint by the id of its run. -/
def StoreCall.deletesByRun (c : Checkpoint) : StoreCall → Bool
  | .checkpointer (.deleteForRuns runIds) => ofRuns runIds c
  | _ => false

/-! ### The same rows -/

section

variable {d d' : Database} {x : Uuid}

theorem sameCheckpoints_of_mem
    (hcheckpoints : ∀ c, c.threadId = x → (c ∈ d.checkpoints ↔ c ∈ d'.checkpoints))
    (hblobs : ∀ b, b.threadId = x → (b ∈ d.checkpointBlobs ↔ b ∈ d'.checkpointBlobs))
    (hwrites : ∀ w, w.threadId = x → (w ∈ d.checkpointWrites ↔ w ∈ d'.checkpointWrites)) :
    SameCheckpoints x d d' := by
  intro row hrow
  cases row with
  | checkpoint c =>
    rw [← mem_checkpoints_iff_row, ← mem_checkpoints_iff_row]
    exact hcheckpoints c (Option.some.inj hrow)
  | blob b =>
    rw [← mem_checkpointBlobs_iff_row, ← mem_checkpointBlobs_iff_row]
    exact hblobs b (Option.some.inj hrow)
  | write w =>
    rw [← mem_checkpointWrites_iff_row, ← mem_checkpointWrites_iff_row]
    exact hwrites w (Option.some.inj hrow)
  | _ => cases hrow

/-- The copies of one thread's rows leave the rows of all threads but the new one. -/
theorem sameCheckpoints_of_copies {threadId newId : Uuid} (hne : newId ≠ x)
    (hcheckpoints : ∀ c, c ∈ d'.checkpoints ↔ c ∈ d.checkpoints ∨ ∃ c₀ ∈ d.checkpoints,
      c₀.threadId = threadId ∧ copiedCheckpoint newId c₀ = c ∧
        d.checkpoints.get? (Keyed.key c) = none)
    (hblobs : ∀ b, b ∈ d'.checkpointBlobs ↔ b ∈ d.checkpointBlobs ∨ ∃ b₀ ∈ d.checkpointBlobs,
      b₀.threadId = threadId ∧ copiedBlob newId b₀ = b ∧
        d.checkpointBlobs.get? (Keyed.key b) = none)
    (hwrites : ∀ w, w ∈ d'.checkpointWrites ↔ w ∈ d.checkpointWrites ∨ ∃ w₀ ∈ d.checkpointWrites,
      w₀.threadId = threadId ∧ copiedWrite newId w₀ = w ∧
        d.checkpointWrites.get? (Keyed.key w) = none) :
    SameCheckpoints x d d' := by
  refine sameCheckpoints_of_mem (fun c ht => ?_) (fun b ht => ?_) fun w ht => ?_
  · refine ((hcheckpoints c).trans (or_iff_left ?_)).symm
    rintro ⟨c₀, -, -, rfl, -⟩
    exact hne ht
  · refine ((hblobs b).trans (or_iff_left ?_)).symm
    rintro ⟨b₀, -, -, rfl, -⟩
    exact hne ht
  · refine ((hwrites w).trans (or_iff_left ?_)).symm
    rintro ⟨w₀, -, -, rfl, -⟩
    exact hne ht

theorem SameCheckpoints.mem_checkpointBlobs (h : SameCheckpoints x d d') {b : CheckpointBlob}
    (hid : b.threadId = x) : b ∈ d.checkpointBlobs ↔ b ∈ d'.checkpointBlobs := by
  rw [mem_checkpointBlobs_iff_row, mem_checkpointBlobs_iff_row]
  exact h (.blob b) (congrArg some hid)

theorem SameCheckpoints.mem_checkpointWrites (h : SameCheckpoints x d d') {w : CheckpointWrite}
    (hid : w.threadId = x) : w ∈ d.checkpointWrites ↔ w ∈ d'.checkpointWrites := by
  rw [mem_checkpointWrites_iff_row, mem_checkpointWrites_iff_row]
  exact h (.write w) (congrArg some hid)

theorem SameCheckpoints.sameRows (h : SameCheckpoints x d d') : SameRows id d x d' x := by
  constructor
  · intro c'
    constructor
    · rintro ⟨hc', rfl⟩
      exact ⟨c', (h.mem_checkpoints rfl).mpr hc', rfl, rfl⟩
    · rintro ⟨c, hc, rfl, rfl⟩
      exact ⟨(h.mem_checkpoints rfl).mp hc, rfl⟩
  · intro b'
    constructor
    · rintro ⟨hb', rfl⟩
      exact ⟨b', (h.mem_checkpointBlobs rfl).mpr hb', rfl, rfl⟩
    · rintro ⟨b, hb, rfl, rfl⟩
      exact ⟨(h.mem_checkpointBlobs rfl).mp hb, rfl⟩
  · intro w'
    constructor
    · rintro ⟨hw', rfl⟩
      exact ⟨w', (h.mem_checkpointWrites rfl).mpr hw', rfl, rfl⟩
    · rintro ⟨w, hw, rfl, rfl⟩
      exact ⟨(h.mem_checkpointWrites rfl).mp hw, rfl⟩

theorem SameRows.sameReads {f : Json → Json} {t t' : Uuid} (h : SameRows f d t d' t') :
    SameReads f d t d' t' :=
  ⟨fun loads ns id => agetTuple_congr loads h ns id,
    fun walk loads ns id channels => agetDeltaChannelHistory_congr loads walk h ns id channels⟩

end

/-! ### The copy -/

section

variable {threadId newId : Uuid} {filters : List AuthFilter} {now : Timestamp} {d d' : Database}

theorem Copied.sameRows (h : Copied threadId newId filters now d d') (hfresh : FreshThread newId d) :
    SameRows (withThreadId newId) d threadId d' newId := by
  constructor
  · intro c'
    rw [h.checkpoints]
    constructor
    · rintro ⟨hold | ⟨c, hc, ht, heq, -⟩, ht'⟩
      · exact absurd ht' (hfresh.checkpoints c' hold)
      · exact ⟨c, hc, ht, heq⟩
    · rintro ⟨c, hc, ht, rfl⟩
      refine ⟨Or.inr ⟨c, hc, ht, rfl, Table.get?_eq_none.mpr fun c₁ hc₁ hkey => ?_⟩, rfl⟩
      exact hfresh.checkpoints c₁ hc₁ (congrArg Prod.fst hkey)
  · intro b'
    rw [h.checkpointBlobs]
    constructor
    · rintro ⟨hold | ⟨b, hb, ht, heq, -⟩, ht'⟩
      · exact absurd ht' (hfresh.checkpointBlobs b' hold)
      · exact ⟨b, hb, ht, heq⟩
    · rintro ⟨b, hb, ht, rfl⟩
      refine ⟨Or.inr ⟨b, hb, ht, rfl, Table.get?_eq_none.mpr fun b₁ hb₁ hkey => ?_⟩, rfl⟩
      exact hfresh.checkpointBlobs b₁ hb₁ (congrArg Prod.fst hkey)
  · intro w'
    rw [h.checkpointWrites]
    constructor
    · rintro ⟨hold | ⟨w, hw, ht, heq, -⟩, ht'⟩
      · exact absurd ht' (hfresh.checkpointWrites w' hold)
      · exact ⟨w, hw, ht, heq⟩
    · rintro ⟨w, hw, ht, rfl⟩
      refine ⟨Or.inr ⟨w, hw, ht, rfl, Table.get?_eq_none.mpr fun w₁ hw₁ hkey => ?_⟩, rfl⟩
      exact hfresh.checkpointWrites w₁ hw₁ (congrArg Prod.fst hkey)

theorem CopiedRows.sameCheckpoints {x : Uuid} (h : CopiedRows threadId newId d d') (hx : newId ≠ x) :
    SameCheckpoints x d d' :=
  sameCheckpoints_of_copies hx h.checkpoints h.checkpointBlobs h.checkpointWrites

theorem Copied.sameCheckpoints {x : Uuid} (h : Copied threadId newId filters now d d')
    (hx : newId ≠ x) : SameCheckpoints x d d' :=
  sameCheckpoints_of_copies hx h.checkpoints h.checkpointBlobs h.checkpointWrites

/-- **A copied thread is read as its source**, which is as it was. -/
theorem copyReads_of_copied (h : Copied threadId newId filters now d d')
    (hfresh : FreshThread newId d) : CopyReads threadId newId d d' := by
  have hrows := h.sameRows hfresh
  refine ⟨hrows.sameReads, fun c hc ht => ?_, ?_⟩
  · obtain ⟨c₀, hc₀, ht₀, rfl⟩ := (hrows.checkpoints c).mp ⟨hc, ht⟩
    exact ⟨c₀, hc₀, ht₀, rfl, rfl⟩
  · obtain ⟨t₀, ht₀, rfl, -⟩ := h.thread
    exact h.sameCheckpoints (h.free t₀ ht₀).symm

end

/-! ### Later calls -/

section

variable {d d' : Database} {x : Uuid}

theorem sameCheckpoints_delete {α κ : Type} [Keyed α κ] [DecidableEq κ] (T : Relation α)
    {p : Database → α → Bool} (h : ∀ a, p d a = true → (T.row a).checkpointThread ≠ some x) :
    SameCheckpoints x d (runAlone d (T.delete p)) := by
  intro row hrow
  have hkey : row.key ∉ keys ((T.delete p d [] d).writes.getD []) := by
    intro hmem
    obtain ⟨w, hw, hwkey⟩ := List.mem_map.mp hmem
    obtain ⟨a, ha, rfl⟩ := Relation.mem_delete.mp hw
    have hthread := (checkpointThread_of_key (show (T.row a).key = row.key from hwkey)).trans hrow
    exact h a (Relation.mem_rechecked.mp ha).2.1 hthread
  rw [runAlone, row_applyAll_of_not_mem hkey]

theorem sameCheckpoints_deleteRowsOf {threadIds : List Uuid} (hx : x ∉ threadIds) (d : Database) :
    SameCheckpoints x d ((deleteRowsOf threadIds).foldl runAlone d) := by
  have hne : ∀ k, decide (k ∈ threadIds) = true → some k ≠ some x := by
    rintro k hk heq
    exact hx (Option.some.inj heq ▸ of_decide_eq_true hk)
  simp only [deleteRowsOf, List.foldl_cons, List.foldl_nil]
  exact ((sameCheckpoints_delete checkpointWritesTable fun w => hne w.threadId).trans
    (sameCheckpoints_delete checkpointBlobsTable fun b => hne b.threadId)).trans
    (sameCheckpoints_delete checkpointsTable fun c => hne c.threadId)

theorem WithoutCheckpoints.sameCheckpoints {p : Checkpoint → Bool} (h : WithoutCheckpoints p d d')
    (hp : ∀ c ∈ d.checkpoints, c.threadId = x → p c = false) : SameCheckpoints x d d' := by
  refine sameCheckpoints_of_mem (fun c ht => ?_) (fun b _ => ?_) fun w ht => ?_
  · rw [h.checkpoints]
    exact ⟨fun hc => ⟨hc, hp c hc ht⟩, And.left⟩
  · rw [h.checkpointBlobs]
  · rw [h.checkpointWrites]
    refine ⟨fun hw => ⟨hw, fun c hc hon => hp c hc ?_⟩, And.left⟩
    simp only [CheckpointWrite.belongsTo, Bool.and_eq_true, decide_eq_true_eq] at hon
    exact hon.1.1.symm.trans ht

theorem WithoutThread.sameCheckpoints {k : Uuid} (h : WithoutThread k d d') (hx : k ≠ x) :
    SameCheckpoints x d d' := by
  refine sameCheckpoints_of_mem (fun c ht => ?_) (fun b ht => ?_) fun w ht => ?_
  · rw [h.checkpoints, and_iff_left (ht ▸ hx.symm)]
  · rw [h.checkpointBlobs, and_iff_left (ht ▸ hx.symm)]
  · rw [h.checkpointWrites, and_iff_left (ht ▸ hx.symm)]

/-- A save fails or puts one row of its thread. -/
theorem ingest_eq_or (d : Database) (item : QueueItem) : ingest d item = d ∨
    ∃ row : Row, row.checkpointThread = some item.threadId ∧ ingest d item = d.apply (.put row) := by
  cases item with
  | put c =>
    cases hget : (d.checkpoints.get? (Keyed.key c)).isSome with
    | true =>
      left
      simp only [ingest, Table.insertNew, hget, if_true]
    | false =>
      refine Or.inr ⟨.checkpoint c, rfl, ?_⟩
      simp only [ingest, Table.insertNew, hget, Bool.false_eq_true, if_false]
      rfl
  | blob b =>
    cases hget : (d.checkpointBlobs.get? (Keyed.key b)).isSome with
    | true =>
      left
      simp only [ingest, Table.insertNew, hget, if_true]
    | false =>
      refine Or.inr ⟨.blob b, rfl, ?_⟩
      simp only [ingest, Table.insertNew, hget, Bool.false_eq_true, if_false]
      rfl
  | write w =>
    cases hup : upsertedWrite d w with
    | none =>
      left
      simp only [ingest, hup, Option.elim_none]
    | some w' =>
      have hthread : w'.threadId = w.threadId := congrArg Prod.fst (key_upsertedWrite hup)
      refine Or.inr ⟨.write w', congrArg some hthread, ?_⟩
      simp only [ingest, hup, Option.elim_some]
      rfl

theorem sameCheckpoints_ingest {item : QueueItem} (hx : item.threadId ≠ x) (d : Database) :
    SameCheckpoints x d (ingest d item) := by
  rcases ingest_eq_or d item with hsame | ⟨row, hrow, hput⟩
  · rw [hsame]
    exact SameCheckpoints.refl x d
  · rw [hput]
    have hrows : ∀ r ∈ [row], r.checkpointThread = some item.threadId := by simpa using hrow
    exact sameCheckpoints_puts hx hrows d

/-- **A call leaves the rows of a thread that it does not address**, unless it deletes a
checkpoint of the thread by its run. -/
theorem sameCheckpoints_call {call : StoreCall} (hx : call.addresses x = false)
    (hruns : ∀ c ∈ d.checkpoints, c.threadId = x → call.deletesByRun c = false) :
    SameCheckpoints x d (call.execute d) := by
  cases call with
  | save item =>
    exact sameCheckpoints_ingest (by simpa [StoreCall.addresses] using hx) d
  | checkpointer rpc =>
    cases rpc with
    | deleteThread k =>
      have hne : x ∉ [k] := by simpa [StoreCall.addresses, eq_comm] using hx
      rw [StoreCall.execute, executeCheckpointer_eq_foldl]
      exact sameCheckpoints_deleteRowsOf hne d
    | deleteForRuns runIds => exact (withoutCheckpoints_deleteForRuns runIds d).sameCheckpoints hruns
    | copyThread fromThreadId k =>
      exact (copiedRows_copyThread fromThreadId k d).sameCheckpoints
        (by simpa [StoreCall.addresses] using hx)
    | prune threadIds strategy =>
      have hmem : x ∉ threadIds := by simpa [StoreCall.addresses] using hx
      by_cases hall : strategy = .deleteAll
      · subst hall
        have hstmts : (CheckpointerRpc.prune threadIds .deleteAll).statements =
            if threadIds = [] then [] else deleteRowsOf threadIds := by
          rw [CheckpointerRpc.statements, if_pos rfl]
        rw [StoreCall.execute, executeCheckpointer_eq_foldl, hstmts]
        split
        · exact SameCheckpoints.refl x d
        · exact sameCheckpoints_deleteRowsOf hmem d
      · refine (withoutCheckpoints_prune hall threadIds d).sameCheckpoints fun c _ ht => ?_
        simp [outdated, ht, hmem]
  | service rpc =>
    by_cases hdelete : ∀ k filters, rpc ≠ .deleteThread k filters
    · refine sameCheckpoints_execute hdelete (fun k filters now hcopy => ?_) d
      rw [hcopy] at hx
      simp [StoreCall.addresses] at hx
    · simp only [ne_eq, not_forall, not_not] at hdelete
      obtain ⟨k, filters, rfl⟩ := hdelete
      rcases execute_deleteThread k filters d with hsame | hwithout
      · rw [StoreCall.execute, hsame]
        exact SameCheckpoints.refl x d
      · exact hwithout.sameCheckpoints (by simpa [StoreCall.addresses] using hx)

/-- Nothing but a call that addresses a thread adds a checkpoint to it, and a deletion by
runs takes those of its runs away. -/
theorem mem_checkpoints_call {call : StoreCall} (hx : call.addresses x = false) {c : Checkpoint}
    (ht : c.threadId = x) (hc : c ∈ (call.execute d).checkpoints) :
    c ∈ d.checkpoints ∧ call.deletesByRun c = false := by
  by_cases hdelete : ∀ runIds, call ≠ .checkpointer (.deleteForRuns runIds)
  · have hnone : ∀ c, call.deletesByRun c = false := by
      intro c
      unfold StoreCall.deletesByRun
      split
      · next runIds => exact absurd rfl (hdelete runIds)
      · rfl
    exact ⟨((sameCheckpoints_call hx fun c _ _ => hnone c).mem_checkpoints ht).mpr hc, hnone c⟩
  · simp only [ne_eq, not_forall, not_not] at hdelete
    obtain ⟨runIds, rfl⟩ := hdelete
    exact ((withoutCheckpoints_deleteForRuns runIds d).checkpoints c).mp hc

theorem sameCheckpoints_calls {calls : List StoreCall} (hx : ∀ call ∈ calls, call.addresses x = false)
    (hruns : ∀ call ∈ calls, ∀ c ∈ d.checkpoints, c.threadId = x → call.deletesByRun c = false) :
    SameCheckpoints x d (calls.foldl StoreCall.execute d) := by
  induction calls generalizing d with
  | nil => exact SameCheckpoints.refl x d
  | cons call calls ih =>
    obtain ⟨hcall, hcalls⟩ := List.forall_mem_cons.mp hx
    obtain ⟨hrun, hruns⟩ := List.forall_mem_cons.mp hruns
    have hsame := sameCheckpoints_call hcall hrun
    refine hsame.trans (ih hcalls fun call' hmem c hc ht => ?_)
    exact hruns call' hmem c ((hsame.mem_checkpoints ht).mpr hc) ht

theorem mem_checkpoints_calls {calls : List StoreCall}
    (hx : ∀ call ∈ calls, call.addresses x = false) {c : Checkpoint} (ht : c.threadId = x)
    (hc : c ∈ (calls.foldl StoreCall.execute d).checkpoints) :
    c ∈ d.checkpoints ∧ ∀ call ∈ calls, call.deletesByRun c = false := by
  induction calls generalizing d with
  | nil => exact ⟨hc, fun call hmem => absurd hmem List.not_mem_nil⟩
  | cons call calls ih =>
    obtain ⟨hcall, hcalls⟩ := List.forall_mem_cons.mp hx
    obtain ⟨hmem, hrest⟩ := ih hcalls hc
    obtain ⟨hold, hkept⟩ := mem_checkpoints_call hcall ht hmem
    exact ⟨hold, List.forall_mem_cons.mpr ⟨hkept, hrest⟩⟩

theorem exists_of_sameReads (h : SameReads id d x d' x) {c : Checkpoint} (hc : c ∈ d.checkpoints)
    (ht : c.threadId = x) : ∃ c' ∈ d'.checkpoints, Keyed.key c' = Keyed.key c := by
  subst ht
  have hget : d.checkpoints.get? (c.threadId, c.checkpointNs, c.checkpointId) = some c :=
    Table.mem_iff_get?.mp hc
  have hread := h.tuple (fun type blob => (type, blob)) c.checkpointNs (some c.checkpointId)
  simp only [agetTuple, Option.some_or, Option.bind_some, hget, Option.map_some] at hread
  obtain ⟨c', hc', -⟩ := Option.map_eq_some_iff.mp hread
  obtain ⟨hmem, hkey⟩ := Table.get?_eq_some.mp hc'
  exact ⟨c', hmem, hkey⟩

/-- **Later calls leave the reads of a thread that they do not address** iff none deletes
a checkpoint of it by its run. -/
theorem sameReads_calls_iff {calls : List StoreCall}
    (hx : ∀ call ∈ calls, call.addresses x = false) :
    SameReads id d x (calls.foldl StoreCall.execute d) x ↔
      ∀ call ∈ calls, ∀ c ∈ d.checkpoints, c.threadId = x → call.deletesByRun c = false := by
  constructor
  · intro h call hcall c hc ht
    obtain ⟨c', hc', hkey⟩ := exists_of_sameReads h hc ht
    have ht' : c'.threadId = x := (congrArg Prod.fst hkey).trans ht
    obtain ⟨hold, hkept⟩ := mem_checkpoints_calls hx ht' hc'
    rw [← Table.eq_of_key hold hc hkey]
    exact hkept call hcall
  · exact fun hruns => (sameCheckpoints_calls hx hruns).sameRows.sameReads

end

/-- **A copied thread is read as its source, and later calls that address another thread
leave the reads of either** iff no later deletion names a run whose checkpoints are on it. -/
theorem copyReads_iff {threadId newId : Uuid} {filters : List AuthFilter} {now : Timestamp}
    {d d' : Database} (hcopy : execute (.copyThread threadId newId filters now) d = d')
    (hfound : ∃ t ∈ d.thread, t.threadId = threadId ∧ admits filters t.metadata = true)
    (hfresh : FreshThread newId d) {x : Uuid} {calls : List StoreCall}
    (hx : ∀ call ∈ calls, call.addresses x = false) :
    (CopyReads threadId newId d d' ∧ SameReads id d' x (calls.foldl StoreCall.execute d') x) ↔
      ∀ runIds, .checkpointer (.deleteForRuns runIds) ∈ calls →
        ∀ c ∈ d'.checkpoints, c.threadId = x → ofRuns runIds c = false := by
  subst hcopy
  have hcopied := copied_of_found now hfound hfresh.thread
  rw [sameReads_calls_iff hx, and_iff_right (copyReads_of_copied hcopied hfresh)]
  constructor
  · intro h runIds hmem c hc ht
    exact h _ hmem c hc ht
  · intro h call hmem c hc ht
    unfold StoreCall.deletesByRun
    split
    · next runIds => exact h runIds hmem c hc ht
    · rfl

/-- A thread with a checkpoint of the run 7. -/
def threadOfRun : Database := { Database.fresh Table.empty with
  thread := Table.empty.put { threadId := 10 }
  checkpoints := Table.empty.put
    { threadId := 10, checkpointId := 1, runId := some 7, checkpoint := .obj [] } }

theorem freshThread_threadOfRun : FreshThread 11 threadOfRun :=
  ⟨by decide, by decide, by decide, by decide⟩

/-- The source is pruned and deleted. -/
theorem copyReads_iff_witness :
    let d' := execute (.copyThread 10 11 [] 0) threadOfRun
    let calls : List StoreCall := [.checkpointer (.prune [10] .keepLatest),
      .checkpointer (.deleteForRuns [8]), .service (.deleteThread 10 [])]
    CopyReads 10 11 threadOfRun d' ∧ SameReads id d' 11 (calls.foldl StoreCall.execute d') 11 := by
  intro d' calls
  have hcopy : execute (.copyThread 10 11 [] 0) threadOfRun = d' := rfl
  refine (copyReads_iff hcopy (by decide) freshThread_threadOfRun (by decide)).mpr ?_
  intro runIds hmem
  have heq : runIds = [8] := by
    simpa only [calls, List.mem_cons, List.not_mem_nil, or_false, reduceCtorEq, false_or,
      StoreCall.checkpointer.injEq, CheckpointerRpc.deleteForRuns.injEq] using hmem
  subst heq
  decide +kernel

/-- The checkpoints of the run of the source are deleted, and the copy has no state. -/
theorem not_copyReads :
    let d' := execute (.copyThread 10 11 [] 0) threadOfRun
    ¬ SameReads id d' 11 ([StoreCall.checkpointer (.deleteForRuns [7])].foldl StoreCall.execute d') 11 := by
  intro d' h
  have hread := h.tuple (fun type blob => (type, blob)) "" none
  exact absurd hread (by decide +kernel)

end NextRole
