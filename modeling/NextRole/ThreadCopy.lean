import NextRole.RunThreads

/-!
# What a copy of a thread is

`Threads.Copy` executed alone: nothing happens, or the new thread has a copy of every
row that the source has in the checkpoint tables, and nothing else changes.

## Main definitions

* `copiedCheckpoint`, `copiedBlob`, `copiedWrite` — the rows of the copy.
* `CopiedRows` — a database with a copy of the rows of a thread.
* `Copied` — a database with a copy of a thread.

## Main results

* `execute_copyThread_cases` — a copy changes nothing or does just that.
* `exists_thread_of_checkpointRow` — so every row of the checkpoint tables keeps its thread.
-/

namespace NextRole

open ReadCommitted

/-- The checkpoint of the new thread, which its metadata name. -/
def copiedCheckpoint (newId : Uuid) (c : Checkpoint) : Checkpoint :=
  { c with threadId := newId, metadata := c.metadata.set "thread_id" (.str newId.text) }

def copiedBlob (newId : Uuid) (b : CheckpointBlob) : CheckpointBlob := { b with threadId := newId }

def copiedWrite (newId : Uuid) (w : CheckpointWrite) : CheckpointWrite := { w with threadId := newId }

@[simp] theorem copiedCheckpoint_threadId (newId : Uuid) (c : Checkpoint) :
    (copiedCheckpoint newId c).threadId = newId := rfl
@[simp] theorem copiedBlob_threadId (newId : Uuid) (b : CheckpointBlob) :
    (copiedBlob newId b).threadId = newId := rfl
@[simp] theorem copiedWrite_threadId (newId : Uuid) (w : CheckpointWrite) :
    (copiedWrite newId w).threadId = newId := rfl

/-! ### One statement of the copy -/

namespace Relation

variable {α κ : Type} [Keyed α κ] [DecidableEq κ] (T : Relation α)

/-- After a copy of rows that runs alone: what was there, and the images of the chosen
rows whose keys were free. -/
theorem mem_copyRows_alone {p : α → Bool} {f : α → α} {d d' : Database}
    (h : runAlone d (copyRows T p f) = d')
    (hf : (((T.table d).select p).map fun a => Keyed.key (f a)).Nodup) {a : α} :
    a ∈ T.table d' ↔
      a ∈ T.table d ∨ ∃ b ∈ T.table d, p b = true ∧ f b = a ∧
        ((T.table d).get? (Keyed.key a)) = none := by
  subst h
  let rows := (((T.table d).select p).map f).filter fun a => ((T.table d).get? (Keyed.key a)).isNone
  have hrun : T.table (runAlone d (copyRows T p f)) = rows.foldl Table.put (T.table d) :=
    T.table_applyAll_put d rows
  have hnodup : (rows.map Keyed.key).Nodup := by
    have hmap : (((T.table d).select p).map f).map Keyed.key =
        ((T.table d).select p).map fun a => Keyed.key (f a) := List.map_map
    exact (hmap ▸ hf).sublist (List.filter_sublist.map _)
  have hrows : ∀ a, a ∈ rows ↔ (∃ b ∈ T.table d, p b = true ∧ f b = a) ∧
      ((T.table d).get? (Keyed.key a)) = none := by
    intro a
    simp only [rows, List.mem_filter, List.mem_map, Table.mem_select, Option.isNone_iff_eq_none,
      and_assoc]
  rw [hrun, Table.mem_foldl_put hnodup, hrows]
  constructor
  · rintro (⟨⟨b, hb, hp, hfb⟩, hnone⟩ | ⟨ha, -⟩)
    · exact Or.inr ⟨b, hb, hp, hfb, hnone⟩
    · exact Or.inl ha
  · rintro (ha | ⟨b, hb, hp, hfb, hnone⟩)
    · refine Or.inr ⟨ha, fun hkey => ?_⟩
      -- a row that is copied has a free key
      obtain ⟨a', ha', hk⟩ := List.mem_map.mp hkey
      have hnone := ((hrows a').mp ha').2
      rw [hk] at hnone
      exact Table.get?_eq_none.mp hnone a ha rfl
    · exact Or.inl ⟨⟨b, hb, hp, hfb⟩, hnone⟩

/-- A copy of rows of one table leaves another one alone. -/
theorem table_copyRows_other {β κ' : Type} [Keyed β κ'] [DecidableEq κ'] (U : Relation β)
    (hother : ∀ d a, U.table (RowStore.apply d (.put (T.row a))) = U.table d) {p : α → Bool}
    {f : α → α} {d d' : Database} (h : runAlone d (copyRows T p f) = d') :
    U.table d' = U.table d := by
  subst h
  have hall : ∀ (as : List α) (d : Database),
      U.table (applyAll d (as.map fun a => .put (T.row a))) = U.table d := by
    intro as
    induction as with
    | nil => exact fun d => rfl
    | cons a as ih =>
      intro d
      rw [List.map_cons, applyAll_cons, ih, hother]
  exact hall _ d

end Relation

/-! ### The rows of the copy -/

/-- The second database is the first one with a copy of the checkpoints, blobs and writes
of a thread; a row that is there already keeps its place. -/
structure CopiedRows (threadId newId : Uuid) (d d' : Database) : Prop where
  thread : d'.thread = d.thread
  run : d'.run = d.run
  cron : d'.cron = d.cron
  checkpoints : ∀ c, c ∈ d'.checkpoints ↔ c ∈ d.checkpoints ∨ ∃ c₀ ∈ d.checkpoints,
    c₀.threadId = threadId ∧ copiedCheckpoint newId c₀ = c ∧
      d.checkpoints.get? (Keyed.key c) = none
  checkpointBlobs : ∀ b, b ∈ d'.checkpointBlobs ↔ b ∈ d.checkpointBlobs ∨ ∃ b₀ ∈ d.checkpointBlobs,
    b₀.threadId = threadId ∧ copiedBlob newId b₀ = b ∧ d.checkpointBlobs.get? (Keyed.key b) = none
  checkpointWrites : ∀ w, w ∈ d'.checkpointWrites ↔ w ∈ d.checkpointWrites ∨
    ∃ w₀ ∈ d.checkpointWrites, w₀.threadId = threadId ∧ copiedWrite newId w₀ = w ∧
      d.checkpointWrites.get? (Keyed.key w) = none

/-- The statements of a copy after the thread. -/
def copyRowsOf (threadId newId : Uuid) : List Statement :=
  [ copyRows checkpointsTable (fun c => c.threadId = threadId) (copiedCheckpoint newId),
    copyRows checkpointBlobsTable (fun b => b.threadId = threadId) (copiedBlob newId),
    copyRows checkpointWritesTable (fun w => w.threadId = threadId) (copiedWrite newId) ]

theorem nodup_keys_of_thread {α κ : Type} [Keyed α κ] [DecidableEq κ] (t : Table α) (p : α → Bool)
    (f : α → α) (hf : ∀ a b, p a = true → p b = true → Keyed.key (f a) = Keyed.key (f b) →
      Keyed.key a = Keyed.key b) : ((t.select p).map fun a => Keyed.key (f a)).Nodup := by
  refine List.Nodup.map_on (fun a ha b hb hkey => ?_) (t.nodup_select p)
  obtain ⟨ha, hpa⟩ := Table.mem_select.mp ha
  obtain ⟨hb, hpb⟩ := Table.mem_select.mp hb
  exact Table.eq_of_key ha hb (hf a b hpa hpb hkey)

theorem copiedRows_copyRowsOf (threadId newId : Uuid) (d : Database) :
    CopiedRows threadId newId d ((copyRowsOf threadId newId).foldl runAlone d) := by
  simp only [copyRowsOf, List.foldl_cons, List.foldl_nil]
  generalize h₁ : runAlone d (copyRows checkpointsTable (fun c => c.threadId = threadId)
    (copiedCheckpoint newId)) = d₁
  generalize h₂ : runAlone d₁ (copyRows checkpointBlobsTable (fun b => b.threadId = threadId)
    (copiedBlob newId)) = d₂
  generalize h₃ : runAlone d₂ (copyRows checkpointWritesTable (fun w => w.threadId = threadId)
    (copiedWrite newId)) = d₃
  constructor
  case thread =>
    exact ((checkpointWritesTable.table_copyRows_other threadTable (fun _ _ => rfl) h₃).trans
      (checkpointBlobsTable.table_copyRows_other threadTable (fun _ _ => rfl) h₂)).trans
      (checkpointsTable.table_copyRows_other threadTable (fun _ _ => rfl) h₁)
  case run =>
    exact ((checkpointWritesTable.table_copyRows_other runTable (fun _ _ => rfl) h₃).trans
      (checkpointBlobsTable.table_copyRows_other runTable (fun _ _ => rfl) h₂)).trans
      (checkpointsTable.table_copyRows_other runTable (fun _ _ => rfl) h₁)
  case cron =>
    exact ((checkpointWritesTable.table_copyRows_other cronTable (fun _ _ => rfl) h₃).trans
      (checkpointBlobsTable.table_copyRows_other cronTable (fun _ _ => rfl) h₂)).trans
      (checkpointsTable.table_copyRows_other cronTable (fun _ _ => rfl) h₁)
  case checkpoints =>
    intro c
    have hafter : d₃.checkpoints = d₁.checkpoints :=
      (checkpointWritesTable.table_copyRows_other checkpointsTable (fun _ _ => rfl) h₃).trans
        (checkpointBlobsTable.table_copyRows_other checkpointsTable (fun _ _ => rfl) h₂)
    have hcopy := checkpointsTable.mem_copyRows_alone h₁ (nodup_keys_of_thread d.checkpoints _ _
      fun a b ha hb hkey => by simp_all [Keyed.key, copiedCheckpoint]) (a := c)
    rw [hafter]
    simpa using hcopy
  case checkpointBlobs =>
    intro b
    have hbefore : d₁.checkpointBlobs = d.checkpointBlobs :=
      checkpointsTable.table_copyRows_other checkpointBlobsTable (fun _ _ => rfl) h₁
    have hafter : d₃.checkpointBlobs = d₂.checkpointBlobs :=
      checkpointWritesTable.table_copyRows_other checkpointBlobsTable (fun _ _ => rfl) h₃
    have hcopy := checkpointBlobsTable.mem_copyRows_alone h₂ (nodup_keys_of_thread d₁.checkpointBlobs
      _ _ fun a b ha hb hkey => by simp_all [Keyed.key, copiedBlob]) (a := b)
    rw [hafter, ← hbefore]
    simpa using hcopy
  case checkpointWrites =>
    intro w
    have hbefore : d₂.checkpointWrites = d.checkpointWrites :=
      (checkpointBlobsTable.table_copyRows_other checkpointWritesTable (fun _ _ => rfl) h₂).trans
        (checkpointsTable.table_copyRows_other checkpointWritesTable (fun _ _ => rfl) h₁)
    have hcopy := checkpointWritesTable.mem_copyRows_alone h₃ (nodup_keys_of_thread
      d₂.checkpointWrites _ _ fun a b ha hb hkey => by simp_all [Keyed.key, copiedWrite]) (a := w)
    rw [← hbefore]
    simpa using hcopy

/-! ### The whole copy -/

/-- The second database is the first one with a copy of the thread and of its rows in
the checkpoint tables. -/
structure Copied (threadId newId : Uuid) (filters : List AuthFilter) (now : Timestamp)
    (d d' : Database) : Prop where
  thread : ∃ t₀ ∈ d.thread, t₀.threadId = threadId ∧ admits filters t₀.metadata = true ∧
    ∀ t, t ∈ d'.thread ↔ t ∈ d.thread ∨ t = copiedThread newId now t₀
  free : ∀ t ∈ d.thread, t.threadId ≠ newId
  run : d'.run = d.run
  cron : d'.cron = d.cron
  checkpoints : ∀ c, c ∈ d'.checkpoints ↔ c ∈ d.checkpoints ∨ ∃ c₀ ∈ d.checkpoints,
    c₀.threadId = threadId ∧ copiedCheckpoint newId c₀ = c ∧
      d.checkpoints.get? (Keyed.key c) = none
  checkpointBlobs : ∀ b, b ∈ d'.checkpointBlobs ↔ b ∈ d.checkpointBlobs ∨ ∃ b₀ ∈ d.checkpointBlobs,
    b₀.threadId = threadId ∧ copiedBlob newId b₀ = b ∧ d.checkpointBlobs.get? (Keyed.key b) = none
  checkpointWrites : ∀ w, w ∈ d'.checkpointWrites ↔ w ∈ d.checkpointWrites ∨
    ∃ w₀ ∈ d.checkpointWrites, w₀.threadId = threadId ∧ copiedWrite newId w₀ = w ∧
      d.checkpointWrites.get? (Keyed.key w) = none

theorem copied_copyRowsOf {threadId newId : Uuid} {filters : List AuthFilter} {now : Timestamp}
    {d : Database} {t₀ : Thread} (ht₀ : t₀ ∈ d.thread) (hid : t₀.threadId = threadId)
    (hadm : admits filters t₀.metadata = true) (hfree : ∀ t ∈ d.thread, t.threadId ≠ newId) :
    Copied threadId newId filters now d ((copyRowsOf threadId newId).foldl runAlone
      (applyAll d [.put (.thread (copiedThread newId now t₀))])) := by
  have hrows := copiedRows_copyRowsOf threadId newId
    (applyAll d [.put (.thread (copiedThread newId now t₀))])
  refine ⟨⟨t₀, ht₀, hid, hadm, fun t => ?_⟩, hfree, hrows.run, hrows.cron, hrows.checkpoints,
    hrows.checkpointBlobs, hrows.checkpointWrites⟩
  rw [hrows.thread]
  show t ∈ d.thread.put _ ↔ _
  rw [Table.mem_put]
  constructor
  · rintro (rfl | ⟨ht, -⟩)
    · exact Or.inr rfl
    · exact Or.inl ht
  · rintro (ht | rfl)
    · exact Or.inr ⟨ht, hfree t ht⟩
    · exact Or.inl rfl

/-- The ownership check of `Threads.Copy`. -/
def copyFound (threadId : Uuid) (filters : List AuthFilter) (d : Database) : Bool :=
  d.thread.rows.any fun t => t.threadId = threadId && admits filters t.metadata

theorem copyFound_eq_true {threadId : Uuid} {filters : List AuthFilter} {d : Database} :
    copyFound threadId filters d = true ↔
      ∃ t ∈ d.thread, t.threadId = threadId ∧ admits filters t.metadata = true := by
  rw [copyFound, List.any_eq_true]
  simp only [Bool.and_eq_true, decide_eq_true_eq]
  exact Iff.rfl

theorem execute_copyThread (threadId newId : Uuid) (filters : List AuthFilter) (now : Timestamp)
    (d : Database) : execute (.copyThread threadId newId filters now) d = applyAll d
      ((serialFrom d (select1 (copyFound threadId filters) :: insertCopy threadId newId now ::
        copyRowsOf threadId newId) []).getD []) := rfl

/-- A thread that the filters admit is copied to a fresh uuid. -/
theorem copied_of_found {threadId newId : Uuid} {filters : List AuthFilter} (now : Timestamp)
    {d : Database} (hfound : ∃ t ∈ d.thread, t.threadId = threadId ∧ admits filters t.metadata = true)
    (hfree : ∀ t ∈ d.thread, t.threadId ≠ newId) :
    Copied threadId newId filters now d (execute (.copyThread threadId newId filters now) d) := by
  have htotal : ∀ q ∈ copyRowsOf threadId newId, ∀ d, (q d [] d).writes.isSome = true := by
    intro q hq d
    simp only [copyRowsOf, List.mem_cons, List.not_mem_nil, or_false] at hq
    rcases hq with rfl | rfl | rfl <;> rfl
  have hcheck := copyFound_eq_true.mpr hfound
  obtain ⟨t₀, ht₀, hid, hadm⟩ := hfound
  have hget : d.thread.get? threadId = some t₀ := Table.get?_eq_some.mpr ⟨ht₀, hid⟩
  have hnew : d.thread.get? newId = none := Table.get?_eq_none.mpr hfree
  have hput : (outcome (insertCopy threadId newId now) [] ⟨d, [], d⟩).writes =
      some [.put (.thread (copiedThread newId now t₀))] := by
    simp [outcome, insertCopy, hget, hnew]
  rw [execute_copyThread, serialFrom, show (outcome (select1 (copyFound threadId filters)) []
    ⟨d, [], d⟩).writes = if copyFound threadId filters d then some [] else none from rfl]
  simp only [hcheck, if_true, Option.bind_some, List.append_nil]
  rw [serialFrom, hput, Option.bind_some, List.nil_append, applyAll_serialFrom_of_total htotal]
  exact copied_copyRowsOf ht₀ hid hadm hfree

/-- **`Threads.Copy` changes nothing or leaves just a copy** of a thread that the
filters admit. -/
theorem execute_copyThread_cases (threadId newId : Uuid) (filters : List AuthFilter)
    (now : Timestamp) (d : Database) :
    execute (.copyThread threadId newId filters now) d = d ∨
      Copied threadId newId filters now d (execute (.copyThread threadId newId filters now) d) := by
  cases hfound : copyFound threadId filters d with
  | false =>
    left
    rw [execute_copyThread, serialFrom, show (outcome (select1 (copyFound threadId filters)) []
      ⟨d, [], d⟩).writes = if copyFound threadId filters d then some [] else none from rfl, hfound]
    rfl
  | true =>
    cases hnew : d.thread.get? newId with
    | none =>
      exact Or.inr (copied_of_found now (copyFound_eq_true.mp hfound) (Table.get?_eq_none.mp hnew))
    | some t =>
      left
      obtain ⟨t₀, ht₀, hid, -⟩ := copyFound_eq_true.mp hfound
      have hget : d.thread.get? threadId = some t₀ := Table.get?_eq_some.mpr ⟨ht₀, hid⟩
      have hfail : (outcome (insertCopy threadId newId now) [] ⟨d, [], d⟩).writes = none := by
        simp [outcome, insertCopy, hget, hnew]
      rw [execute_copyThread, serialFrom, show (outcome (select1 (copyFound threadId filters)) []
        ⟨d, [], d⟩).writes = if copyFound threadId filters d then some [] else none from rfl]
      simp only [hfound, if_true, Option.bind_some, List.append_nil]
      rw [serialFrom, hfail]
      rfl

/-- A row of the checkpoint tables has its thread after a call that deletes none. -/
theorem exists_thread_of_checkpointRow {rpc : Rpc} {d : Database}
    (hdelete : ∀ threadId filters, rpc ≠ .deleteThread threadId filters) {x : Row} {k : Uuid}
    (hx : x.checkpointThread = some k)
    (hold : RowStore.row d x.key = some x → ∃ t ∈ d.thread, t.threadId = k)
    (hrow : RowStore.row (execute rpc d) x.key = some x) :
    ∃ t ∈ (execute rpc d).thread, t.threadId = k := by
  rcases checkpointRow_of_execute hx hrow with hbefore | ⟨threadId, filters, now, rfl⟩
  · exact exists_thread_execute hdelete (hold hbefore)
  · rcases execute_copyThread_cases threadId k filters now d with hsame | hcopied
    · rw [hsame] at hrow ⊢
      exact hold hrow
    · obtain ⟨t₀, -, -, -, hthread⟩ := hcopied.thread
      exact ⟨copiedThread k now t₀, (hthread _).mpr (Or.inr rfl), rfl⟩

end NextRole
