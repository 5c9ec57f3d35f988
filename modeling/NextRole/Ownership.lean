import NextRole.Api.Runs
import NextRole.RunThreads
import NextRole.ThreadCopy

/-!
# Who owns a thread

Ownership is a key of the metadata of a thread, next to whatever callers put there.
The handlers stamp it on what a caller sends, the statements compare it with the
caller's filter, and every statement that merges metadata takes the stamp from the
right side of the merge.

* `UserRequest`, `WorkerCall` — the requests of authenticated users and the calls of
  workers.
* `Ownership` — a database with the users that created its threads and runs.
* `Owned` — every thread is owned by its creator, and so is the thread of every run.
* `owned_of_reachable` — **so it is in every reachable state, and no step changes the
  owner of a thread that stays**.
-/

namespace NextRole

open ReadCommitted

/-! ### Requests -/

/-- A request of an authenticated user, with the metadata of its body and what the
environment supplies.  `if_exists` of a creation decides about the answer only. -/
inductive UserRequest
  | createThread (threadId : Uuid) (metadata : List (String × Json)) (now : Timestamp)
  | patchThread (threadId : Uuid) (metadata : List (String × Json)) (now : Timestamp)
  | deleteThread (threadId : Uuid)
  | copyThread (threadId newId : Uuid) (now : Timestamp)
  | createRun (call : CreateCall)
  | cancelRuns (target : CancelTarget) (action : CancelRunAction) (now : Timestamp)

/-- The call that a user's request becomes: the handlers stamp the metadata and return
the user's filter. -/
def UserRequest.rpc (identity : String) (d : Database) : UserRequest → Rpc
  | .createThread threadId metadata now =>
    .createThread threadId (stampOwner (some identity) (.obj metadata)) now
  | .patchThread threadId metadata now =>
    .patchThread threadId (stampOwner (some identity) (.obj metadata))
      (authFilters (some identity)) now
  | .deleteThread threadId => .deleteThread threadId (authFilters (some identity))
  | .copyThread threadId newId now => .copyThread threadId newId (authFilters (some identity)) now
  | .createRun call =>
    .createRun (createRequest { call with caller := some identity }) call.env
  | .cancelRuns target action now =>
    .cancelRuns ((keptTargets ⟨target, action, authFilters (some identity)⟩ d).map Prod.snd) action now

/-- A call of a worker. -/
inductive WorkerCall
  | next (limit : ℕ) (now : Timestamp) (tie : Uuid → ℕ)
  | setRunStatus (runId : Uuid) (status : RunStatus) (now : Timestamp)
  | setThreadStatus (request : SetThreadStatusRequest) (now : Timestamp)
  | setJointStatus (request : SetJointStatusRequest) (now : Timestamp)

def WorkerCall.rpc : WorkerCall → Rpc
  | .next limit now tie => .next limit now tie
  | .setRunStatus runId status now => .setRunStatus runId status now
  | .setThreadStatus request now => .setThreadStatus request now
  | .setJointStatus request now => .setJointStatus request now

/-! ### Creators -/

/-- A database, with the users whose requests created its threads and runs. -/
structure Ownership where
  db : Database
  threadCreator : Uuid → Option String
  runCreator : Uuid → Option String

/-- Who created the row of a key: whoever makes the request after which it is there,
for as long as it is. -/
def creatorAfter {α κ : Type} [Keyed α κ] [DecidableEq κ] (identity : Option String)
    (before after : Table α) (creator : κ → Option String) (k : κ) : Option String :=
  match before.get? k, after.get? k with
  | _, none => none
  | none, some _ => identity
  | some _, some _ => creator k

inductive OwnershipAction
  | user (identity : String) (request : UserRequest)
  | worker (call : WorkerCall)

/-- The user of an action. -/
def OwnershipAction.identity : OwnershipAction → Option String
  | .user identity _ => some identity
  | .worker _ => none

/-- The call of an action. -/
def OwnershipAction.rpc (d : Database) : OwnershipAction → Rpc
  | .user identity request => request.rpc identity d
  | .worker call => call.rpc

/-- Requests and calls, one after the other, from an empty store. -/
def ownership : Machine Ownership OwnershipAction where
  init s := EmptyStore s.db
  step s a :=
    let d := execute (a.rpc s.db) s.db
    some {
      db := d
      threadCreator := creatorAfter a.identity s.db.thread d.thread s.threadCreator
      runCreator := creatorAfter a.identity s.db.run d.run s.runCreator }

/-- `metadata.owner` of a thread. -/
def Thread.owner (t : Thread) : Option Json := t.metadata.get? "owner"

/-- Every thread is owned by its creator, and every run is on a thread that the creator
of the run owns. -/
structure Owned (s : Ownership) : Prop where
  thread : ∀ t ∈ s.db.thread, ∃ identity, s.threadCreator t.threadId = some identity ∧
    t.owner = some (.str identity)
  run : ∀ r ∈ s.db.run, ∃ identity, s.runCreator r.runId = some identity ∧
    ∃ t ∈ s.db.thread, t.threadId = r.threadId ∧ t.owner = some (.str identity)

/-! ### The owner of what a call writes -/

theorem admits_authFilters_iff {identity : String} {t : Thread} :
    admits (authFilters (some identity)) t.metadata = true ↔ t.owner = some (.str identity) := by
  constructor
  · intro h
    obtain ⟨w, hw, hc⟩ := (admits_owner identity t.metadata).mp h
    rw [Json.deepContains_of_isScalar rfl, beq_iff_eq] at hc
    rw [Thread.owner, hw, hc]
  · exact admits_owner_of_get?

theorem owner_refreshThread (p : CreateParams) (a : Assistant) (t : Thread) :
    (refreshThread p a t).owner = t.owner := by
  show ((t.metadata.set _ _).set _ _).get? "owner" = _
  rw [Json.get?_set_of_ne _ _ (by decide), Json.get?_set_of_ne _ _ (by decide)]
  rfl

theorem owner_jointThread (request : SetJointStatusRequest) (now : Timestamp) (d : Database)
    (t : Thread) : (jointThread request now d t).owner = t.owner := by
  show (t.metadata.set _ _).get? "owner" = _
  rw [Json.get?_set_of_ne _ _ (by decide)]
  rfl

theorem owner_insertThread {call : CreateCall} {identity : String}
    (h : call.caller = some identity) (a : Assistant) :
    (insertThread call.params a).owner = some (.str identity) :=
  Json.get?_concat_right _ (call.get?_owner h)

/-- A thread after an action: one that was there with the same owner, or a new one of
the user of the action. -/
def OwnerKept (identity : Option String) (d : Database) (t' : Thread) : Prop :=
  (∃ t ∈ d.thread, t.threadId = t'.threadId ∧ t'.owner = t.owner) ∨
    ((∀ t ∈ d.thread, t.threadId ≠ t'.threadId) ∧
      ∃ u, identity = some u ∧ t'.owner = some (.str u))

theorem OwnerKept.of_mem {identity : Option String} {d : Database} {t' : Thread}
    (h : t' ∈ d.thread) : OwnerKept identity d t' :=
  Or.inl ⟨t', h, rfl, rfl⟩

theorem ownerKept_of_user {identity : String} {request : UserRequest} {d : Database} {t' : Thread}
    (ht' : t' ∈ (execute (request.rpc identity d) d).thread) :
    OwnerKept (some identity) d t' := by
  cases request with
  | createThread threadId metadata now =>
    rcases thread_of_execute ht' with hold | ⟨d₁, hd₁, hwrite⟩
    · exact .of_mem hold
    · cases hwrite with
      | createThread hnone =>
        rw [hd₁] at hnone
        exact Or.inr ⟨Table.get?_eq_none.mp hnone, identity, rfl, get?_stampOwner identity metadata⟩
  | patchThread threadId metadata now =>
    rcases thread_of_execute ht' with hold | ⟨d₁, hd₁, hwrite⟩
    · exact .of_mem hold
    · cases hwrite with
      | @patchThread _ _ _ _ _ _ _ t₀ ht₀ hid hadm =>
        have howner := admits_authFilters_iff.mp hadm
        refine Or.inl ⟨t₀, hd₁ ▸ ht₀, rfl, ?_⟩
        exact (Json.get?_concat_of_get? howner (get?_stampOwner identity metadata)).trans howner.symm
  | deleteThread threadId =>
    rcases execute_deleteThread threadId (authFilters (some identity)) d with hsame | hdel
    · have ht' : t' ∈ (execute (.deleteThread threadId (authFilters (some identity))) d).thread := ht'
      rw [hsame] at ht'
      exact .of_mem ht'
    · exact .of_mem ((hdel.thread t').mp ht').1
  | copyThread threadId newId now =>
    rcases execute_copyThread_cases threadId newId (authFilters (some identity)) now d with hsame | hcopy
    · have ht' : t' ∈ (execute (.copyThread threadId newId (authFilters (some identity)) now) d).thread :=
        ht'
      rw [hsame] at ht'
      exact .of_mem ht'
    · obtain ⟨t₀, -, -, hadm, hthread⟩ := hcopy.thread
      rcases (hthread t').mp ht' with hold | rfl
      · exact .of_mem hold
      · exact Or.inr ⟨hcopy.free, identity, rfl, admits_authFilters_iff.mp hadm⟩
  | createRun call =>
    rcases thread_of_execute ht' with hold | ⟨d₁, hd₁, hwrite⟩
    · exact .of_mem hold
    · cases hwrite with
      | insert hins =>
        obtain ⟨-, hnone, a, -, rfl⟩ := insertedThread_eq_some.mp hins
        rw [hd₁] at hnone
        exact Or.inr ⟨Table.get?_eq_none.mp hnone, identity, rfl,
          @owner_insertThread { call with caller := some identity } identity rfl a⟩
      | refresh hup =>
        obtain ⟨t₀, ht₀, a, -, rfl⟩ := mem_updatedThread.mp hup
        have hmem := (Relation.mem_rechecked.mp ht₀).1
        rw [threadTable_table, hd₁] at hmem
        exact Or.inl ⟨t₀, hmem, rfl, owner_refreshThread _ a t₀⟩
  | cancelRuns target action now =>
    have hthread : (execute ((UserRequest.cancelRuns target action now).rpc identity d) d).thread =
        d.thread := thread_execute rfl d
    rw [hthread] at ht'
    exact .of_mem ht'

theorem ownerKept_of_worker {call : WorkerCall} {d : Database} {t' : Thread}
    (ht' : t' ∈ (execute call.rpc d).thread) : OwnerKept none d t' := by
  cases call with
  | next limit now tie =>
    have hthread : (execute (WorkerCall.next limit now tie).rpc d).thread = d.thread :=
      thread_execute rfl d
    exact .of_mem (hthread ▸ ht')
  | setRunStatus runId status now =>
    have hthread : (execute (WorkerCall.setRunStatus runId status now).rpc d).thread = d.thread :=
      thread_execute rfl d
    exact .of_mem (hthread ▸ ht')
  | setThreadStatus request now =>
    rcases mem_thread_setThreadStatus.mp ht' with ⟨hold, -⟩ | ⟨t, ht, -, -, rfl⟩
    · exact .of_mem hold
    · exact Or.inl ⟨t, ht, rfl, rfl⟩
  | setJointStatus request now =>
    rcases mem_thread_setJointStatus.mp ht' with ⟨hold, -⟩ | ⟨t, ht, -, rfl⟩
    · exact .of_mem hold
    · exact Or.inl ⟨t, ht, rfl, owner_jointThread _ _ _ _⟩

theorem ownerKept {a : OwnershipAction} {d : Database} {t' : Thread}
    (ht' : t' ∈ (execute (a.rpc d) d).thread) : OwnerKept a.identity d t' := by
  cases a with
  | user identity request => exact ownerKept_of_user ht'
  | worker call => exact ownerKept_of_worker ht'

/-! ### The owner of the thread of a run -/

/-- The only action that deletes a thread takes its runs along. -/
theorem thread_of_run_execute {a : OwnershipAction} {d : Database} {r : Run} {t : Thread}
    (ht : t ∈ d.thread) (hid : t.threadId = r.threadId)
    (hr : r ∈ (execute (a.rpc d) d).run) :
    ∃ t' ∈ (execute (a.rpc d) d).thread, t'.threadId = r.threadId := by
  by_cases hdelete : ∀ threadId filters, a.rpc d ≠ .deleteThread threadId filters
  · exact exists_thread_execute hdelete ⟨t, ht, hid⟩
  · simp only [ne_eq, not_forall, not_not] at hdelete
    obtain ⟨threadId, filters, hrpc⟩ := hdelete
    rw [hrpc] at hr ⊢
    rcases execute_deleteThread threadId filters d with hsame | hdel
    · exact ⟨t, hsame.symm ▸ ht, hid⟩
    · have hne := ((hdel.run r).mp hr).2
      exact ⟨t, (hdel.thread t).mpr ⟨ht, hid ▸ hne⟩, hid⟩

/-- A run after an action: one that was there, on the same thread, or a new one of the
user of the action, on a thread of that user. -/
def RunOwnerKept (identity : Option String) (d d' : Database) (r' : Run) : Prop :=
  (∃ r ∈ d.run, r.runId = r'.runId ∧ r.threadId = r'.threadId) ∨
    ((∀ r ∈ d.run, r.runId ≠ r'.runId) ∧ ∃ u, identity = some u ∧
      ∃ t ∈ d'.thread, t.threadId = r'.threadId ∧ t.owner = some (.str u))

theorem runOwnerKept {a : OwnershipAction} {d : Database} {r' : Run}
    (hr' : r' ∈ (execute (a.rpc d) d).run) :
    RunOwnerKept a.identity d (execute (a.rpc d) d) r' := by
  rcases run_before_execute hr' with ⟨r, hr, hid, htid, -⟩ | ⟨request, env, hrpc, hins⟩
  · exact Or.inl ⟨r, hr, hid, htid⟩
  -- only the creation of a user inserts a run
  obtain ⟨identity, call, rfl, rfl, rfl⟩ : ∃ identity call, a = .user identity (.createRun call) ∧
      request = createRequest { call with caller := some identity } ∧ env = call.env := by
    cases a with
    | user identity r =>
      cases r with
      | createRun call =>
        obtain ⟨rfl, rfl⟩ := Rpc.createRun.inj hrpc
        exact ⟨identity, call, rfl, rfl, rfl⟩
      | _ => cases hrpc
    | worker call => cases call <;> cases hrpc
  rw [hrpc] at hr' ⊢
  by_cases htaken : ∃ r ∈ d.run, r.runId = r'.runId
  · rw [runId_of_mem_insertedRun hins] at htaken
    have hconf := createConflicts_self.mpr ⟨List.ne_nil_of_mem hins, htaken⟩
    rw [execute_of_conflicts hconf] at hr'
    exact Or.inl ⟨r', hr', rfl, rfl⟩
  · refine Or.inr ⟨fun r hr hid => htaken ⟨r, hr, hid⟩, identity, rfl, ?_⟩
    obtain ⟨-, t₀, ht₀, b, -, rfl⟩ := mem_insertedRun.mp hins
    have hkept : ∀ t' ∈ (execute (.createRun (createRequest { call with caller := some identity })
        call.env) d).thread, OwnerKept (some identity) d t' :=
      fun t' ht' => ownerKept (a := .user identity (.createRun call)) ht'
    rcases mem_runThread.mp ht₀ with ⟨hmem, hid, hadm⟩ | hinsert
    · -- the thread was there, and the filter admits it
      have hdelete : ∀ threadId filters, Rpc.createRun (createRequest
          { call with caller := some identity }) call.env ≠ .deleteThread threadId filters := by simp
      obtain ⟨t', ht', hid'⟩ := exists_thread_execute hdelete ⟨t₀, hmem, rfl⟩
      refine ⟨t', ht', hid', ?_⟩
      rcases hkept t' ht' with ⟨t, ht, hidt, howner⟩ | ⟨hnew, -⟩
      · obtain rfl : t = t₀ := Table.eq_of_key ht hmem (hidt.trans hid')
        rw [howner]
        exact admits_authFilters_iff.mp hadm
      · exact absurd hid'.symm (hnew t₀ hmem)
    · -- the thread is inserted
      obtain ⟨-, hnone, -⟩ := insertedThread_eq_some.mp hinsert
      have hconf : createConflicts (createParams (createRequest
          { call with caller := some identity }) call.env) d d = false := by
        rw [← Bool.not_eq_true, createConflicts_self, not_and]
        rintro - ⟨r, hr, hid⟩
        exact htaken ⟨r, hr, hid⟩
      obtain ⟨t', ht', hid'⟩ := exists_insertedThread_execute hconf hinsert
      refine ⟨t', ht', hid', ?_⟩
      rcases hkept t' ht' with ⟨t, ht, hidt, -⟩ | ⟨-, u, hu, howner⟩
      · exact absurd ((hidt.trans hid').trans (threadId_of_mem_runThread ht₀))
          (Table.get?_eq_none.mp hnone t ht)
      · cases hu
        exact howner

/-! ### Every state -/

section

variable {α κ : Type} [Keyed α κ] [DecidableEq κ] {identity : Option String} {before after : Table α}
  {creator : κ → Option String}

theorem creatorAfter_of_kept {a b : α} (ha : a ∈ before) (hb : b ∈ after)
    (hkey : Keyed.key a = Keyed.key b) :
    creatorAfter identity before after creator (Keyed.key b) = creator (Keyed.key b) := by
  have hget : before.get? (Keyed.key b) = some a := Table.get?_eq_some.mpr ⟨ha, hkey⟩
  simp only [creatorAfter, hget, Table.mem_iff_get?.mp hb]

theorem creatorAfter_of_new {b : α} (hb : b ∈ after)
    (hnew : ∀ a ∈ before, Keyed.key a ≠ Keyed.key b) :
    creatorAfter identity before after creator (Keyed.key b) = identity := by
  simp only [creatorAfter, Table.get?_eq_none.mpr hnew, Table.mem_iff_get?.mp hb]

end

/-- One action keeps every thread and run with their creators. -/
theorem Owned.step {s s' : Ownership} (h : Owned s) {a : OwnershipAction}
    (hs : ownership.step s a = some s') : Owned s' := by
  cases hs
  have hthread : ∀ t' ∈ (execute (a.rpc s.db) s.db).thread, ∃ identity,
      creatorAfter a.identity s.db.thread (execute (a.rpc s.db) s.db).thread s.threadCreator
        t'.threadId = some identity ∧ t'.owner = some (.str identity) := by
    intro t' ht'
    rcases ownerKept ht' with ⟨t, ht, hid, howner⟩ | ⟨hnew, u, hu, howner⟩
    · obtain ⟨identity, hcreator, hold⟩ := h.thread t ht
      rw [hid] at hcreator
      exact ⟨identity, (creatorAfter_of_kept ht ht' hid).trans hcreator, howner.trans hold⟩
    · exact ⟨u, (creatorAfter_of_new ht' hnew).trans hu, howner⟩
  refine ⟨hthread, fun r' hr' => ?_⟩
  rcases runOwnerKept hr' with ⟨r, hr, hid, htid⟩ | ⟨hnew, u, hu, hon⟩
  · obtain ⟨identity, hcreator, t, ht, httid, howner⟩ := h.run r hr
    rw [hid] at hcreator
    refine ⟨identity, (creatorAfter_of_kept hr hr' hid).trans hcreator, ?_⟩
    obtain ⟨t', ht', hid'⟩ := thread_of_run_execute ht (httid.trans htid) hr'
    refine ⟨t', ht', hid', ?_⟩
    -- the thread was there, so it is not a new one
    rcases ownerKept ht' with ⟨t₀, ht₀, hid₀, howner₀⟩ | ⟨hnew, -⟩
    · obtain rfl : t₀ = t := Table.eq_of_key ht₀ ht (hid₀.trans (hid'.trans (httid.trans htid).symm))
      exact howner₀.trans howner
    · exact absurd ((httid.trans htid).trans hid'.symm) (hnew t ht)
  · exact ⟨u, (creatorAfter_of_new hr' hnew).trans hu, hon⟩

theorem owned_init {s : Ownership} (h : ownership.init s) : Owned s := by
  obtain ⟨hthread, hrun⟩ := h
  constructor
  · intro t ht
    rw [hthread] at ht
    exact absurd ht (Table.not_mem_empty t)
  · intro r hr
    rw [hrun] at hr
    exact absurd hr (Table.not_mem_empty r)

/-- **Ownership is immutable**: in every state that requests of users and calls of
workers reach from an empty store, the owner of every thread is the user whose request
created it, every run is on a thread of the user who created the run, and no further
request changes the owner of a thread that stays. -/
theorem owned_of_reachable {s : Ownership} (hs : ownership.Reachable Machine.free s) :
    Owned s ∧ ∀ a s', ownership.step s a = some s' → ∀ t ∈ s.db.thread, ∀ t' ∈ s'.db.thread,
      t'.threadId = t.threadId → t'.owner = t.owner := by
  refine ⟨hs.invariant (fun s h => owned_init h) fun s a s' _ h _ hstep => h.step hstep, ?_⟩
  intro a s' hstep t ht t' ht' hid
  cases hstep
  rcases ownerKept ht' with ⟨t₀, ht₀, hid₀, howner⟩ | ⟨hnew, -⟩
  · obtain rfl : t₀ = t := Table.eq_of_key ht₀ ht (hid₀.trans hid)
    exact howner
  · exact absurd hid.symm (hnew t ht)

/-- Bob tries to take over a thread that alice created with a run. -/
theorem owned_of_reachable_witness : ∃ s, ownership.Reachable Machine.free s ∧
    s.db.thread.rows.length = 1 ∧ s.db.run.rows.length = 1 ∧ (Owned s ∧ ∀ a s',
      ownership.step s a = some s' → ∀ t ∈ s.db.thread, ∀ t' ∈ s'.db.thread,
        t'.threadId = t.threadId → t'.owner = t.owner) := by
  have hinit : ownership.init ⟨oneAssistant, fun _ => none, fun _ => none⟩ := ⟨rfl, rfl⟩
  obtain ⟨s, hs, hp⟩ := ownership.exists_reachable Machine.free hinit
    [.user "alice" (.createRun {
        threadId := some 10, payload := { assistantId := 1, createIfNotExists := true }, env := ⟨0, 100, 0⟩ }),
      .user "bob" (.patchThread 10 [("owner", .str "bob")] 1),
      .user "bob" (.createRun {
        threadId := some 10, payload := { assistantId := 1, createIfNotExists := true }, env := ⟨2, 101, 0⟩ }),
      .user "bob" (.deleteThread 10)]
    (fun s => s.db.thread.rows.length = 1 && s.db.run.rows.length = 1) (by decide +kernel)
  simp only [Bool.and_eq_true, decide_eq_true_eq] at hp
  exact ⟨s, hs, hp.1, hp.2, owned_of_reachable hs⟩

end NextRole
