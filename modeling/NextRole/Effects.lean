import NextRole.Rpc

/-!
# What a call can write

For each table, every row that a statement of a call puts there and how it comes
from what the statement read.  Everything proved of the services about runs and
threads starts from these lists.

## Main definitions

* `RunWrite` — the run rows that a call puts.
* `ThreadWrite` — the thread rows that a call puts.

## Main results

* `runWrite_of_mem`, `threadWrite_of_mem` — the lists are complete.
* `delThread_of_mem` — only `Threads.Delete` removes a thread.
* `put_of_mem`, `checkpointWrite_of_mem` — only `Threads.Copy` puts rows of checkpoints.
* `Txn.runWrite`, `Txn.runWrite_stable` — the run rows that a transaction puts, and
  what is committed under their keys meanwhile.
* `Txn.threadWrite` — the thread rows that a transaction puts.
-/

namespace NextRole

open ReadCommitted

/-- The run rows that a statement of a call puts, from its snapshot, the keys that
others hold, and the rows it finds when it finishes. -/
inductive RunWrite : Rpc → Database → List RowKey → Database → Run → Prop
  | createRun {request env snap held cur r}
      (hr : r ∈ insertedRun (createParams request env) snap cur) :
      RunWrite (.createRun request env) snap held cur r
  | next {limit now tie snap held cur r r₀}
      (hr : r ∈ claimed (nextLimit limit) now tie snap held cur)
      (hr₀ : r₀ ∈ cur.run) (hid : r₀.runId = r.runId) :
      RunWrite (.next limit now tie) snap held cur (setRunning now r₀)
  | setRunStatus {runId status now snap held cur r₀} (hr₀ : r₀ ∈ cur.run)
      (hid : r₀.runId = runId) :
      RunWrite (.setRunStatus runId status now) snap held cur (withStatus status now r₀)
  | cancelRuns {runIds now snap held cur r₀} (hr₀ : r₀ ∈ cur.run) (hid : r₀.runId ∈ runIds)
      (hp : r₀.status = .pending) :
      RunWrite (.cancelRuns runIds .interrupt now) snap held cur (withStatus .interrupted now r₀)
  | setJointStatus {request now snap held cur r₀} (hr₀ : r₀ ∈ cur.run)
      (hid : r₀.runId = request.runId) (hne : request.runStatus ≠ .rollback) :
      RunWrite (.setJointStatus request now) snap held cur (withStatus request.runStatus now r₀)

/-- The thread rows that a statement of a call puts. -/
inductive ThreadWrite : Rpc → Database → List RowKey → Database → Thread → Prop
  | insert {request env snap held cur t}
      (ht : insertedThread (createParams request env) snap cur = some t) :
      ThreadWrite (.createRun request env) snap held cur t
  | refresh {request env snap held cur t}
      (ht : t ∈ updatedThread (createParams request env) snap cur) :
      ThreadWrite (.createRun request env) snap held cur t
  | createThread {threadId metadata now snap held cur}
      (hnone : cur.thread.get? threadId = none) :
      ThreadWrite (.createThread threadId metadata now) snap held cur
        (newThread threadId metadata now)
  | patchThread {threadId metadata filters now snap held cur t₀} (ht₀ : t₀ ∈ cur.thread)
      (hid : t₀.threadId = threadId) (hadm : admits filters t₀.metadata = true) :
      ThreadWrite (.patchThread threadId metadata filters now) snap held cur
        { t₀ with metadata := t₀.metadata.concat metadata, updatedAt := now }
  | setThreadStatus {request now snap held cur t₀} (ht₀ : t₀ ∈ cur.thread)
      (hid : t₀.threadId = request.threadId) :
      ThreadWrite (.setThreadStatus request now) snap held cur (statusThread request now snap t₀)
  | setJointStatus {request now snap held cur t₀} (ht₀ : t₀ ∈ cur.thread)
      (hid : t₀.threadId = request.threadId) :
      ThreadWrite (.setJointStatus request now) snap held cur (jointThread request now snap t₀)
  | copyThread {threadId newId filters now snap held cur t₀}
      (ht₀ : snap.thread.get? threadId = some t₀) (hnone : cur.thread.get? newId = none) :
      ThreadWrite (.copyThread threadId newId filters now) snap held cur
        (copiedThread newId now t₀)

theorem mem_updateRun {p : Database → Run → Bool} {f : Database → Run → Run} {snap cur : Database}
    {held : List RowKey} {r : Run}
    (h : .put (.run r) ∈ (runTable.update p f snap held cur).writes.getD []) :
    ∃ r₀ ∈ cur.run, p snap r₀ = true ∧ r = f snap r₀ := by
  obtain ⟨r₀, hr₀, heq⟩ := Relation.mem_update.mp h
  obtain ⟨hcur, hp, -⟩ := Relation.mem_rechecked.mp hr₀
  cases heq
  exact ⟨r₀, hcur, hp, rfl⟩

theorem mem_updateThread {p : Database → Thread → Bool} {f : Database → Thread → Thread}
    {snap cur : Database} {held : List RowKey} {t : Thread}
    (h : .put (.thread t) ∈ (threadTable.update p f snap held cur).writes.getD []) :
    ∃ t₀ ∈ cur.thread, p snap t₀ = true ∧ t = f snap t₀ := by
  obtain ⟨t₀, ht₀, heq⟩ := Relation.mem_update.mp h
  obtain ⟨hcur, hp, -⟩ := Relation.mem_rechecked.mp ht₀
  cases heq
  exact ⟨t₀, hcur, hp, rfl⟩

theorem not_put_delete {α κ : Type} [Keyed α κ] [DecidableEq κ] {T : Relation α}
    {p : Database → α → Bool} {snap cur : Database} {held : List RowKey} {r : Row} :
    .put r ∉ (T.delete p snap held cur).writes.getD [] := by
  intro h
  obtain ⟨a, -, heq⟩ := Relation.mem_delete.mp h
  cases heq

theorem not_put_run_updateThread {p : Database → Thread → Bool} {f : Database → Thread → Thread}
    {snap cur : Database} {held : List RowKey} {r : Run} :
    .put (.run r) ∉ (threadTable.update p f snap held cur).writes.getD [] := by
  intro h
  obtain ⟨t, -, heq⟩ := Relation.mem_update.mp h
  cases heq

theorem not_put_thread_updateRun {p : Database → Run → Bool} {f : Database → Run → Run}
    {snap cur : Database} {held : List RowKey} {t : Thread} :
    .put (.thread t) ∉ (runTable.update p f snap held cur).writes.getD [] := by
  intro h
  obtain ⟨r, -, heq⟩ := Relation.mem_update.mp h
  cases heq

theorem not_mem_select1 {found : Database → Bool} {snap cur : Database} {held : List RowKey}
    {w : Write} : w ∉ (select1 found snap held cur).writes.getD [] := by
  unfold select1
  cases found snap <;> simp

/-- `Threads.Delete` puts no row. -/
theorem not_put_deleteThread {threadId : Uuid} {filters : List AuthFilter} {q : Statement}
    (hq : q ∈ deleteThread threadId filters) {snap cur : Database} {held : List RowKey} {r : Row} :
    .put r ∉ (q snap held cur).writes.getD [] := by
  unfold deleteThread at hq
  rcases List.mem_append.mp hq with hq | hq
  · cases hf : filtersClause filters with
    | none => simp [hf] at hq
    | some p =>
      simp only [hf, List.mem_singleton] at hq
      subst hq
      exact not_mem_select1
  · simp only [List.mem_cons, List.not_mem_nil, or_false] at hq
    rcases hq with rfl | rfl | rfl | rfl | rfl | rfl <;> exact not_put_delete

theorem mem_createRun {p : CreateParams} {snap cur : Database} {held : List RowKey} {w : Write}
    (h : w ∈ (createRun p snap held cur).writes.getD []) :
    (∃ t, insertedThread p snap cur = some t ∧ w = .put (.thread t)) ∨
      (∃ r ∈ insertedRun p snap cur, w = .put (.run r)) ∨
      ∃ t ∈ updatedThread p snap cur, w = .put (.thread t) := by
  simp only [createRun] at h
  split at h
  · exact absurd h List.not_mem_nil
  · simp only [Option.getD_some, List.mem_append, List.mem_map, Option.mem_toList, or_assoc] at h
    rcases h with ⟨t, ht, rfl⟩ | ⟨r, hr, rfl⟩ | ⟨t, ht, rfl⟩
    · exact Or.inl ⟨t, ht, rfl⟩
    · exact Or.inr (Or.inl ⟨r, hr, rfl⟩)
    · exact Or.inr (Or.inr ⟨t, ht, rfl⟩)

/-- A creation that writes anything does not fail, and writes all it computes. -/
theorem createRun_writes {p : CreateParams} {snap cur : Database} {held : List RowKey} {w : Write}
    (h : w ∈ (createRun p snap held cur).writes.getD []) :
    (createRun p snap held cur).writes.getD [] =
      (insertedThread p snap cur).toList.map (fun t => .put (.thread t)) ++
      (insertedRun p snap cur).map (fun r => .put (.run r)) ++
      (updatedThread p snap cur).map (fun t => .put (.thread t)) := by
  simp only [createRun] at h ⊢
  split at h
  · exact absurd h List.not_mem_nil
  · next hconf =>
    rw [if_neg hconf]
    rfl

theorem put_insertedThread {p : CreateParams} {snap cur : Database} {held : List RowKey} {w : Write}
    (h : w ∈ (createRun p snap held cur).writes.getD []) {t : Thread}
    (ht : insertedThread p snap cur = some t) :
    .put (.thread t) ∈ (createRun p snap held cur).writes.getD [] := by
  rw [createRun_writes h, ht]
  simp

theorem put_insertedRun {p : CreateParams} {snap cur : Database} {held : List RowKey} {w : Write}
    (h : w ∈ (createRun p snap held cur).writes.getD []) {r : Run}
    (hr : r ∈ insertedRun p snap cur) :
    .put (.run r) ∈ (createRun p snap held cur).writes.getD [] := by
  rw [createRun_writes h]
  simp [hr]

theorem mem_claim {limit : ℕ} {now : Timestamp} {tie : Uuid → ℕ} {snap cur : Database}
    {held : List RowKey} {w : Write}
    (h : w ∈ (claim limit now tie snap held cur).writes.getD []) :
    ∃ r ∈ claimed limit now tie snap held cur, ∃ r₀ ∈ cur.run, r₀.runId = r.runId ∧
      w = .put (.run (setRunning now r₀)) := by
  simp only [claim, claimResponse, Option.getD_some, List.mem_map, List.mem_filterMap,
    Option.map_eq_some_iff] at h
  obtain ⟨_, ⟨r, hr, r₀, hget, rfl⟩, rfl⟩ := h
  obtain ⟨hr₀, hid⟩ := Table.get?_eq_some.mp hget
  exact ⟨r, hr, r₀, hr₀, hid, rfl⟩

theorem mem_copyRows {α κ : Type} [Keyed α κ] [DecidableEq κ] {T : Relation α} {p : α → Bool}
    {f : α → α} {snap cur : Database} {held : List RowKey} {w : Write}
    (h : w ∈ (copyRows T p f snap held cur).writes.getD []) : ∃ a, w = .put (T.row (f a)) := by
  simp only [copyRows, Option.getD_some, List.mem_map, List.mem_filter] at h
  obtain ⟨b, ⟨⟨a, -, rfl⟩, -⟩, rfl⟩ := h
  exact ⟨a, rfl⟩

theorem mem_copyThread {threadId newId : Uuid} {filters : List AuthFilter} {now : Timestamp}
    {q : Statement} (hq : q ∈ copyThread threadId newId filters now) {snap cur : Database}
    {held : List RowKey} {w : Write} (h : w ∈ (q snap held cur).writes.getD []) :
    (∃ t₀, snap.thread.get? threadId = some t₀ ∧ cur.thread.get? newId = none ∧
        w = .put (.thread (copiedThread newId now t₀))) ∨
      (∃ c : Checkpoint, c.threadId = newId ∧ w = .put (.checkpoint c)) ∨
      (∃ b : CheckpointBlob, b.threadId = newId ∧ w = .put (.blob b)) ∨
      ∃ x : CheckpointWrite, x.threadId = newId ∧ w = .put (.write x) := by
  simp only [copyThread, List.mem_cons, List.not_mem_nil, or_false] at hq
  rcases hq with rfl | rfl | rfl | rfl | rfl
  · exact absurd h not_mem_select1
  · left
    unfold insertCopy at h
    cases ht : snap.thread.get? threadId with
    | none => simp [ht] at h
    | some t₀ =>
      cases hnew : cur.thread.get? newId with
      | none => exact ⟨t₀, rfl, rfl, by simpa [ht, hnew] using h⟩
      | some _ => simp [ht, hnew] at h
  · obtain ⟨c, rfl⟩ := mem_copyRows h
    exact Or.inr (Or.inl ⟨_, rfl, rfl⟩)
  · obtain ⟨b, rfl⟩ := mem_copyRows h
    exact Or.inr (Or.inr (Or.inl ⟨_, rfl, rfl⟩))
  · obtain ⟨x, rfl⟩ := mem_copyRows h
    exact Or.inr (Or.inr (Or.inr ⟨_, rfl, rfl⟩))

/-- The first statement of `Threads.SetJointStatus` is about runs. -/
theorem key_setJointRun {request : SetJointStatusRequest} {now : Timestamp} {snap cur : Database}
    {held : List RowKey} {w : Write}
    (h : w ∈ (setJointRun request now snap held cur).writes.getD []) :
    ∃ k, RowWrite.key w = .run k := by
  unfold setJointRun at h
  split at h
  · obtain ⟨r, -, rfl⟩ := Relation.mem_delete.mp h
    exact ⟨r.runId, rfl⟩
  · unfold setRunStatus at h
    obtain ⟨r, -, rfl⟩ := Relation.mem_update.mp h
    exact ⟨r.runId, rfl⟩

/-- **Every run row that a call puts is in the list.** -/
theorem runWrite_of_mem {rpc : Rpc} {q : Statement} (hq : q ∈ statements rpc)
    {snap cur : Database} {held : List RowKey} {r : Run}
    (h : .put (.run r) ∈ (q snap held cur).writes.getD []) : RunWrite rpc snap held cur r := by
  cases rpc with
  | createRun request env =>
    obtain rfl := List.mem_singleton.mp hq
    rcases mem_createRun h with ⟨t, -, heq⟩ | ⟨r', hr', heq⟩ | ⟨t, -, heq⟩
    · cases heq
    · cases heq
      exact .createRun hr'
    · cases heq
  | next limit now tie =>
    obtain rfl := List.mem_singleton.mp hq
    obtain ⟨r', hr', r₀, hr₀, hid, heq⟩ := mem_claim h
    cases heq
    exact .next hr' hr₀ hid
  | deleteRun request =>
    obtain rfl := List.mem_singleton.mp hq
    exact absurd h not_put_delete
  | setRunStatus runId status now =>
    obtain rfl := List.mem_singleton.mp hq
    obtain ⟨r₀, hr₀, hid, rfl⟩ := mem_updateRun h
    exact .setRunStatus hr₀ (of_decide_eq_true hid)
  | cancelRuns runIds action now =>
    obtain rfl := List.mem_singleton.mp hq
    cases action with
    | rollback => exact absurd h not_put_delete
    | interrupt =>
      obtain ⟨r₀, hr₀, hp, rfl⟩ := mem_updateRun h
      rw [Bool.and_eq_true, decide_eq_true_iff, decide_eq_true_iff] at hp
      exact .cancelRuns hr₀ hp.1 hp.2
  | createThread threadId metadata now =>
    obtain rfl := List.mem_singleton.mp hq
    simp only [createThread, Option.getD_some] at h
    split at h <;> simp at h
  | patchThread threadId metadata filters now =>
    obtain rfl := List.mem_singleton.mp hq
    exact absurd h not_put_run_updateThread
  | deleteThread threadId filters => exact absurd h (not_put_deleteThread hq)
  | setThreadStatus request now =>
    obtain rfl := List.mem_singleton.mp hq
    exact absurd h not_put_run_updateThread
  | setJointStatus request now =>
    simp only [statements, setJointStatus, List.mem_cons, List.not_mem_nil, or_false] at hq
    rcases hq with rfl | rfl
    · unfold setJointRun at h
      split at h
      · exact absurd h not_put_delete
      · next hne =>
        obtain ⟨r₀, hr₀, hid, rfl⟩ := mem_updateRun h
        exact .setJointStatus hr₀ (of_decide_eq_true hid) hne
    · exact absurd h not_put_run_updateThread
  | copyThread threadId newId filters now =>
    rcases mem_copyThread hq h with ⟨t₀, -, -, heq⟩ | ⟨c, -, heq⟩ | ⟨b, -, heq⟩ | ⟨x, -, heq⟩ <;> cases heq

/-- **Every thread row that a call puts is in the list.** -/
theorem threadWrite_of_mem {rpc : Rpc} {q : Statement} (hq : q ∈ statements rpc)
    {snap cur : Database} {held : List RowKey} {t : Thread}
    (h : .put (.thread t) ∈ (q snap held cur).writes.getD []) :
    ThreadWrite rpc snap held cur t := by
  cases rpc with
  | createRun request env =>
    obtain rfl := List.mem_singleton.mp hq
    rcases mem_createRun h with ⟨t', ht', heq⟩ | ⟨r, -, heq⟩ | ⟨t', ht', heq⟩
    · cases heq
      exact .insert ht'
    · cases heq
    · cases heq
      exact .refresh ht'
  | next limit now tie =>
    obtain rfl := List.mem_singleton.mp hq
    obtain ⟨r', -, r₀, -, -, heq⟩ := mem_claim h
    cases heq
  | deleteRun request =>
    obtain rfl := List.mem_singleton.mp hq
    exact absurd h not_put_delete
  | setRunStatus runId status now =>
    obtain rfl := List.mem_singleton.mp hq
    exact absurd h not_put_thread_updateRun
  | cancelRuns runIds action now =>
    obtain rfl := List.mem_singleton.mp hq
    cases action with
    | rollback => exact absurd h not_put_delete
    | interrupt => exact absurd h not_put_thread_updateRun
  | createThread threadId metadata now =>
    obtain rfl := List.mem_singleton.mp hq
    simp only [createThread, Option.getD_some] at h
    split at h
    · exact absurd h List.not_mem_nil
    · next hnone =>
      obtain rfl : t = newThread threadId metadata now := by simpa using h
      exact .createThread (by simpa using hnone)
  | patchThread threadId metadata filters now =>
    obtain rfl := List.mem_singleton.mp hq
    obtain ⟨t₀, ht₀, hp, rfl⟩ := mem_updateThread h
    rw [Bool.and_eq_true, decide_eq_true_iff] at hp
    exact .patchThread ht₀ hp.1 hp.2
  | deleteThread threadId filters => exact absurd h (not_put_deleteThread hq)
  | setThreadStatus request now =>
    obtain rfl := List.mem_singleton.mp hq
    obtain ⟨t₀, ht₀, hp, rfl⟩ := mem_updateThread h
    rw [Bool.and_eq_true, decide_eq_true_iff] at hp
    exact .setThreadStatus ht₀ hp.1
  | setJointStatus request now =>
    simp only [statements, setJointStatus, List.mem_cons, List.not_mem_nil, or_false] at hq
    rcases hq with rfl | rfl
    · unfold setJointRun at h
      split at h
      · exact absurd h not_put_delete
      · exact absurd h not_put_thread_updateRun
    · obtain ⟨t₀, ht₀, hid, rfl⟩ := mem_updateThread h
      exact .setJointStatus ht₀ (of_decide_eq_true hid)
  | copyThread threadId newId filters now =>
    rcases mem_copyThread hq h with ⟨t₀, ht₀, hnone, heq⟩ | ⟨c, -, heq⟩ | ⟨b, -, heq⟩ | ⟨x, -, heq⟩
    · cases heq
      exact .copyThread ht₀ hnone
    · cases heq
    · cases heq
    · cases heq

/-- Calls other than `Threads.Delete` remove runs only. -/
theorem del_of_mem {rpc : Rpc} {q : Statement} (hq : q ∈ statements rpc)
    {snap cur : Database} {held : List RowKey} {k : RowKey}
    (h : .del k ∈ (q snap held cur).writes.getD []) :
    (∃ threadId filters, rpc = .deleteThread threadId filters) ∨ ∃ runId, k = .run runId := by
  have hupdateRun : ∀ (p : Database → Run → Bool) (f : Database → Run → Run),
      .del k ∉ (runTable.update p f snap held cur).writes.getD [] := by
    intro p f hmem
    obtain ⟨r, -, heq⟩ := Relation.mem_update.mp hmem
    cases heq
  have hupdateThread : ∀ (p : Database → Thread → Bool) (f : Database → Thread → Thread),
      .del k ∉ (threadTable.update p f snap held cur).writes.getD [] := by
    intro p f hmem
    obtain ⟨t, -, heq⟩ := Relation.mem_update.mp hmem
    cases heq
  have hdeleteRun : ∀ p : Database → Run → Bool,
      .del k ∈ (runTable.delete p snap held cur).writes.getD [] → ∃ runId, k = .run runId := by
    intro p hmem
    obtain ⟨r, -, heq⟩ := Relation.mem_delete.mp hmem
    cases heq
    exact ⟨r.runId, rfl⟩
  cases rpc with
  | createRun request env =>
    obtain rfl := List.mem_singleton.mp hq
    rcases mem_createRun h with ⟨t, -, heq⟩ | ⟨r, -, heq⟩ | ⟨t, -, heq⟩ <;> cases heq
  | next limit now tie =>
    obtain rfl := List.mem_singleton.mp hq
    obtain ⟨r', -, r₀, -, -, heq⟩ := mem_claim h
    cases heq
  | deleteRun request =>
    obtain rfl := List.mem_singleton.mp hq
    exact Or.inr (hdeleteRun _ h)
  | setRunStatus runId status now =>
    obtain rfl := List.mem_singleton.mp hq
    exact absurd h (hupdateRun _ _)
  | cancelRuns runIds action now =>
    obtain rfl := List.mem_singleton.mp hq
    cases action with
    | rollback => exact Or.inr (hdeleteRun _ h)
    | interrupt => exact absurd h (hupdateRun _ _)
  | createThread threadId metadata now =>
    obtain rfl := List.mem_singleton.mp hq
    simp only [createThread, Option.getD_some] at h
    split at h <;> simp at h
  | patchThread threadId metadata filters now =>
    obtain rfl := List.mem_singleton.mp hq
    exact absurd h (hupdateThread _ _)
  | deleteThread threadId filters => exact Or.inl ⟨threadId, filters, rfl⟩
  | setThreadStatus request now =>
    obtain rfl := List.mem_singleton.mp hq
    exact absurd h (hupdateThread _ _)
  | setJointStatus request now =>
    simp only [statements, setJointStatus, List.mem_cons, List.not_mem_nil, or_false] at hq
    rcases hq with rfl | rfl
    · unfold setJointRun at h
      split at h
      · exact Or.inr (hdeleteRun _ h)
      · exact absurd h (hupdateRun _ _)
    · exact absurd h (hupdateThread _ _)
  | copyThread threadId newId filters now =>
    rcases mem_copyThread hq h with ⟨t₀, -, -, heq⟩ | ⟨c, -, heq⟩ | ⟨b, -, heq⟩ | ⟨x, -, heq⟩ <;> cases heq

/-- Only `Threads.Delete` removes a thread. -/
theorem delThread_of_mem {rpc : Rpc} {q : Statement} (hq : q ∈ statements rpc)
    {snap cur : Database} {held : List RowKey} {k : Uuid}
    (h : .del (.thread k) ∈ (q snap held cur).writes.getD []) :
    ∃ threadId filters, rpc = .deleteThread threadId filters := by
  rcases del_of_mem hq h with hdelete | ⟨runId, heq⟩
  · exact hdelete
  · cases heq

/-- The thread of a row of the checkpoint tables. -/
def Row.checkpointThread : Row → Option Uuid
  | .checkpoint c => some c.threadId
  | .blob b => some b.threadId
  | .write w => some w.threadId
  | _ => none

/-- A call puts runs and threads, and `Threads.Copy` rows of the checkpoint tables, all of
them for the new thread. -/
theorem put_of_mem {rpc : Rpc} {q : Statement} (hq : q ∈ statements rpc)
    {snap cur : Database} {held : List RowKey} {x : Row}
    (h : .put x ∈ (q snap held cur).writes.getD []) :
    (∃ r, x = .run r) ∨ (∃ t, x = .thread t) ∨
      ∃ threadId newId filters now, rpc = .copyThread threadId newId filters now ∧
        x.checkpointThread = some newId := by
  have hupdateRun : ∀ (p : Database → Run → Bool) (f : Database → Run → Run),
      .put x ∈ (runTable.update p f snap held cur).writes.getD [] → ∃ r, x = .run r := by
    intro p f hmem
    obtain ⟨r, -, heq⟩ := Relation.mem_update.mp hmem
    cases heq
    exact ⟨_, rfl⟩
  have hupdateThread : ∀ (p : Database → Thread → Bool) (f : Database → Thread → Thread),
      .put x ∈ (threadTable.update p f snap held cur).writes.getD [] → ∃ t, x = .thread t := by
    intro p f hmem
    obtain ⟨t, -, heq⟩ := Relation.mem_update.mp hmem
    cases heq
    exact ⟨_, rfl⟩
  cases rpc with
  | createRun request env =>
    obtain rfl := List.mem_singleton.mp hq
    rcases mem_createRun h with ⟨t, -, heq⟩ | ⟨r, -, heq⟩ | ⟨t, -, heq⟩ <;> cases heq
    · exact Or.inr (Or.inl ⟨t, rfl⟩)
    · exact Or.inl ⟨r, rfl⟩
    · exact Or.inr (Or.inl ⟨t, rfl⟩)
  | next limit now tie =>
    obtain rfl := List.mem_singleton.mp hq
    obtain ⟨r', -, r₀, -, -, heq⟩ := mem_claim h
    cases heq
    exact Or.inl ⟨_, rfl⟩
  | deleteRun request =>
    obtain rfl := List.mem_singleton.mp hq
    exact absurd h not_put_delete
  | setRunStatus runId status now =>
    obtain rfl := List.mem_singleton.mp hq
    exact Or.inl (hupdateRun _ _ h)
  | cancelRuns runIds action now =>
    obtain rfl := List.mem_singleton.mp hq
    cases action with
    | rollback => exact absurd h not_put_delete
    | interrupt => exact Or.inl (hupdateRun _ _ h)
  | createThread threadId metadata now =>
    obtain rfl := List.mem_singleton.mp hq
    simp only [createThread, Option.getD_some] at h
    split at h
    · exact absurd h List.not_mem_nil
    · exact Or.inr (Or.inl ⟨newThread threadId metadata now, by simpa using h⟩)
  | patchThread threadId metadata filters now =>
    obtain rfl := List.mem_singleton.mp hq
    exact Or.inr (Or.inl (hupdateThread _ _ h))
  | deleteThread threadId filters => exact absurd h (not_put_deleteThread hq)
  | setThreadStatus request now =>
    obtain rfl := List.mem_singleton.mp hq
    exact Or.inr (Or.inl (hupdateThread _ _ h))
  | setJointStatus request now =>
    simp only [statements, setJointStatus, List.mem_cons, List.not_mem_nil, or_false] at hq
    rcases hq with rfl | rfl
    · obtain ⟨r, hkey⟩ := key_setJointRun h
      cases x with
      | run r => exact Or.inl ⟨r, rfl⟩
      | _ => cases hkey
    · exact Or.inr (Or.inl (hupdateThread _ _ h))
  | copyThread threadId newId filters now =>
    rcases mem_copyThread hq h with ⟨t₀, -, -, heq⟩ | ⟨c, hid, heq⟩ | ⟨b, hid, heq⟩ | ⟨w, hid, heq⟩
    · cases heq
      exact Or.inr (Or.inl ⟨_, rfl⟩)
    all_goals
      cases heq
      exact Or.inr (Or.inr ⟨threadId, newId, filters, now, rfl, congrArg some hid⟩)

/-- Only `Threads.Copy` puts rows of the checkpoint tables, all of them for the new
thread. -/
theorem checkpointWrite_of_mem {rpc : Rpc} {q : Statement} (hq : q ∈ statements rpc)
    {snap cur : Database} {held : List RowKey} {x : Row} {k : Uuid}
    (hx : x.checkpointThread = some k) (h : .put x ∈ (q snap held cur).writes.getD []) :
    ∃ threadId filters now, rpc = .copyThread threadId k filters now := by
  rcases put_of_mem hq h with ⟨r, rfl⟩ | ⟨t, rfl⟩ | ⟨threadId, newId, filters, now, heq, hnew⟩
  · cases hx
  · cases hx
  · obtain rfl : newId = k := Option.some.inj (hnew.symm.trans hx)
    exact ⟨threadId, filters, now, heq⟩

/-! ### Whole transactions -/

/-- The run rows that a transaction puts come from its first statement. -/
theorem Txn.runWrite {t : Txn Rpc Database RowKey} {r : Run}
    (h : .put (.run r) ∈ t.writes statements) : ∃ ρ rest, t.done = ρ :: rest ∧
      .put (.run r) ∈ writesOf (statements t.rpc) [ρ] [] ∧
        RunWrite t.rpc ρ.snap ρ.held ρ.cur r := by
  obtain ⟨l, ρ, rest, q, hdone, hq, hw⟩ := ReadCommitted.Txn.mem_writes statements h
  have hwrite := runWrite_of_mem (List.mem_of_getElem? hq) hw
  have hl : l = [] := by
    cases l with
    | nil => rfl
    | cons ρ₀ l =>
      exfalso
      generalize t.rpc = rpc at hq hwrite hw
      cases hwrite with
      | setJointStatus hr₀ hid hne =>
        -- the second statement writes threads
        cases l with
        | nil =>
          obtain rfl := Option.some.inj hq
          exact absurd hw (@not_put_run_updateThread _ _ _ _ ρ.held _)
        | cons ρ₁ l => simp [statements, setJointStatus] at hq
      | _ => simp [statements] at hq
  subst hl
  refine ⟨ρ, rest, hdone, ?_, ?_⟩
  · have hconcat : writesOf (statements t.rpc) ([] ++ [ρ]) [] = _ := writesOf_concat hq ρ []
    rw [List.nil_append] at hconcat
    rw [hconcat]
    exact List.mem_append_right _ hw
  · have hnil : writesOf (statements t.rpc) ([] : List (Reading Database RowKey)) [] = [] := by
      cases statements t.rpc <;> rfl
    rw [hnil] at hwrite
    exact hwrite

theorem Txn.runWrite_of_stable {s : ServiceState} (hs : Stable statements s)
    {t : Txn Rpc Database RowKey} (ht : t ∈ s.txns) {r : Run}
    (h : .put (.run r) ∈ t.writes statements) :
    ∃ ρ rest, t.done = ρ :: rest ∧ RunWrite t.rpc ρ.snap ρ.held ρ.cur r ∧
      ∀ r₀ : Run, r₀.runId = r.runId → (r₀ ∈ ρ.cur.run ↔ r₀ ∈ s.db.run) := by
  obtain ⟨ρ, rest, hdone, hw, hwrite⟩ := Txn.runWrite h
  refine ⟨ρ, rest, hdone, hwrite, fun r₀ hid => ?_⟩
  have hkey : RowKey.run r.runId ∈ keys (writesOf (statements t.rpc) ([] ++ [ρ]) []) :=
    List.mem_map.mpr ⟨_, hw, rfl⟩
  have hrow := hs t ht [] ρ rest hdone _ hkey
  rw [mem_run_iff_row, mem_run_iff_row, hid, hrow]

theorem Txn.runWrite_stable {init : Database → Prop} {Ok : ServiceState → Action Rpc → Prop}
    {s : ServiceState} (hs : (services init).Reachable Ok s) {t : Txn Rpc Database RowKey}
    (ht : t ∈ s.txns) {r : Run} (h : .put (.run r) ∈ t.writes statements) :
    ∃ ρ rest, t.done = ρ :: rest ∧ RunWrite t.rpc ρ.snap ρ.held ρ.cur r ∧
      ∀ r₀ : Run, r₀.runId = r.runId → (r₀ ∈ ρ.cur.run ↔ r₀ ∈ s.db.run) :=
  Txn.runWrite_of_stable (stable_of_reachable hs) ht h

/-- The run that a creation puts is not committed yet: its key was free when the
statement finished, and has been locked since. -/
theorem Txn.createdRun_new {init : Database → Prop} {Ok : ServiceState → Action Rpc → Prop}
    {s : ServiceState} (hs : (services init).Reachable Ok s) {t : Txn Rpc Database RowKey}
    (ht : t ∈ s.txns) {request : CreateRunRequest} {env : CreateEnv}
    (hrpc : t.rpc = .createRun request env) {r : Run} (h : .put (.run r) ∈ t.writes statements)
    {r₀ : Run} (hr₀ : r₀ ∈ s.db.run) : r₀.runId ≠ r.runId := by
  intro hid
  obtain ⟨ρ, rest, hdone, hwrite, hcur⟩ := Txn.runWrite_stable hs ht h
  have hq : statements t.rpc = [createRun (createParams request env)] := by
    rw [hrpc]
    rfl
  rw [hrpc] at hwrite
  cases hwrite with
  | createRun hins =>
    have hrid := runId_of_mem_insertedRun hins
    rw [Txn.writes_single statements hq hdone,
      createRun_writes_of_taken hins ((hcur r₀ hid).mpr hr₀) (hid.trans hrid)] at h
    exact absurd h List.not_mem_nil

/-- The calls whose last statement is the one that puts thread rows, if any does. -/
def Rpc.threadLast : Rpc → Bool
  | .copyThread .. => false
  | _ => true

/-- The thread rows that a finished transaction puts come from its last statement. -/
theorem Txn.threadWrite {t : Txn Rpc Database RowKey} (hc : t.complete statements = true)
    (hrpc : t.rpc.threadLast = true) {th : Thread}
    (h : .put (.thread th) ∈ t.writes statements) : ∃ l ρ, t.done = l ++ [ρ] ∧
      ThreadWrite t.rpc (applyAll ρ.snap (writesOf (statements t.rpc) l []))
        ρ.held (applyAll ρ.cur (writesOf (statements t.rpc) l [])) th := by
  obtain ⟨l, ρ, rest, q, hdone, hq, hw⟩ := ReadCommitted.Txn.mem_writes statements h
  have hwrite := threadWrite_of_mem (List.mem_of_getElem? hq) hw
  have hlen : t.done.length = (statements t.rpc).length := by
    simpa [ReadCommitted.Txn.complete] using hc
  refine ⟨l, ρ, ?_, hwrite⟩
  suffices hrest : rest = [] by rw [hdone, hrest]
  rw [hdone] at hlen
  generalize t.rpc = rpc at hrpc hq hwrite hw hlen
  have hlt : l.length < (statements rpc).length := by
    simp only [List.length_append, List.length_cons] at hlen
    omega
  cases hwrite with
  | @setJointStatus request now _ _ _ t₀ ht₀ hid =>
    -- the first statement writes runs
    cases l with
    | nil =>
      obtain rfl := Option.some.inj hq
      exfalso
      unfold setJointRun at hw
      simp only [outcome] at hw
      split at hw
      · exact not_put_delete hw
      · exact absurd hw (@not_put_thread_updateRun _ _ _ _ ρ.held _)
    | cons ρ₀ l =>
      simp only [statements, setJointStatus, List.length_append, List.length_cons,
        List.length_nil] at hlen
      exact List.length_eq_zero_iff.mp (by omega)
  | copyThread ht₀ hnone => cases hrpc
  | _ =>
    simp only [statements, List.length_append, List.length_cons, List.length_nil] at hlen
    exact List.length_eq_zero_iff.mp (by omega)

end NextRole
