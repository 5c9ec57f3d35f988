import NextRole.Agents.Auth
import NextRole.Lib.Recorded
import NextRole.RunThreads

/-!
# Creating a thread that is missing

A creation of a run that may create its thread decides twice whether the thread
exists: `inserted_thread` meets the threads committed by the time it inserts, and
`run_thread` reads those of the snapshot.  A thread that another creation commits
between the two is in neither, and then the query inserts no run and returns none.

* `CreatesIfMissing` — a creation of one caller on one thread that may create it.
* `Answer`, `answerOf` — the answers of the creations, as they are recorded.
* `creators` — any number of such creations, interleaved.
* `Served` — the thread exists, and the run of an answered creation is inserted and
  returned unless it was rejected.
* `SeesThread` — the thread is in the snapshot or not there at all.
* `served_of_seesThread` — **in every run whose statements see the thread, every
  answered creation is served**.
* `not_served` — two creations at once.
-/

namespace NextRole

open ReadCommitted

/-- A creation by a caller on a thread, which it creates if it is missing. -/
structure CreatesIfMissing (caller : Caller) (threadId : Uuid) (request : CreateRunRequest) :
    Prop where
  thread : request.threadId = some threadId
  creates : request.createIfNotExists = true
  filters : request.threadFilters = authFilters caller
  stamped : ∀ identity ∈ caller, request.metadata.get? "owner" = some (.str identity)

/-- The assistant of a request exists, and its filters admit it. -/
def AdmittedAssistant (assistants : Table Assistant) (request : CreateRunRequest) : Prop :=
  ((assistants.get? request.assistantId).filter fun a =>
    admits request.assistantFilters a.metadata).isSome = true

instance (caller : Caller) (threadId : Uuid) (request : CreateRunRequest) :
    Decidable (CreatesIfMissing caller threadId request) :=
  decidable_of_iff (request.threadId = some threadId ∧ request.createIfNotExists = true ∧
      request.threadFilters = authFilters caller ∧
      ∀ identity ∈ caller, request.metadata.get? "owner" = some (.str identity))
    ⟨fun h => ⟨h.1, h.2.1, h.2.2.1, h.2.2.2⟩, fun h => ⟨h.1, h.2, h.3, h.4⟩⟩

/-! ### What the creations answer -/

/-- The answer of a creation: no rows where its query failed. -/
structure Answer where
  request : CreateRunRequest
  env : CreateEnv
  snap : Database
  rows : Option (List Run)

/-- The parameters of an answered creation. -/
def Answer.params (a : Answer) : CreateParams := createParams a.request a.env

/-- A creation answers when it commits, or when its statement fails. -/
def answerOf (s : ServiceState) : Action Rpc → List Answer
  | .commit i =>
    match s.txns.get? i with
    | some ⟨_, .createRun request env, ρ :: _, _⟩ =>
      [⟨request, env, ρ.snap, some (createResponse (createParams request env) ρ.snap ρ.cur)⟩]
    | _ => []
  | .exec i =>
    match s.txns.get? i with
    | some ⟨_, .createRun request env, _, some σ⟩ =>
      if createConflicts (createParams request env) σ s.db then [⟨request, env, σ, none⟩] else []
    | _ => []
  | _ => []

/-- `prevent_insert_if_inflight` keeps the run out. -/
def Answer.Rejected (a : Answer) : Prop :=
  a.request.preventInsertIfInflight = true ∧ inflightRuns a.params a.snap ≠ []

/-- The thread exists, once, and an answered creation has inserted its run and
returns it, unless it was rejected. -/
def Served (threadId : Uuid) (d : Database) (a : Answer) : Prop :=
  (∃ th ∈ d.thread, th.threadId = threadId ∧ ∀ th' ∈ d.thread, th'.threadId = threadId → th' = th) ∧
    ∃ rows, a.rows = some rows ∧ (a.Rejected ∨
      ∃ r ∈ rows, r.runId = a.params.runId ∧ r.threadId = threadId ∧ r ∈ d.run)

/-! ### The runs -/

/-- The store has these assistants, and the thread, if it is there, is the caller's. -/
def ThreadOf (caller : Caller) (threadId : Uuid) (assistants : Table Assistant) (d : Database) :
    Prop :=
  d.assistant = assistants ∧
    ∀ th ∈ d.thread, th.threadId = threadId → admits (authFilters caller) th.metadata = true

/-- Any number of creations of one caller on one thread, interleaved, with their answers. -/
def creators (caller : Caller) (threadId : Uuid) (assistants : Table Assistant) :
    Machine (Recorded ServiceState Answer) (Action Rpc) :=
  (services (ThreadOf caller threadId assistants)).recorded answerOf

/-- The statement of a creation that finishes has the thread in its snapshot, or no
such thread is committed; its run id is not taken. -/
def SeesThread (threadId : Uuid) (request : CreateRunRequest) (env : CreateEnv)
    (snap cur : Database) : Prop :=
  ((∃ th ∈ snap.thread, th.threadId = threadId) ∨ ∀ th ∈ cur.thread, th.threadId ≠ threadId) ∧
    ∀ r ∈ cur.run, r.runId ≠ (createParams request env).runId

instance (threadId : Uuid) (request : CreateRunRequest) (env : CreateEnv) (snap cur : Database) :
    Decidable (SeesThread threadId request env snap cur) := by
  unfold SeesThread
  infer_instance

/-- So it is for the statement of an open creation that is to finish on the rows `d`. -/
def FinishesSeeing (threadId : Uuid) (d : Database) (t : Txn Rpc Database RowKey) : Prop :=
  match t.rpc, t.snap with
  | .createRun request env, some σ => SeesThread threadId request env σ d
  | _, _ => True

instance (threadId : Uuid) (d : Database) (t : Txn Rpc Database RowKey) :
    Decidable (FinishesSeeing threadId d t) := by
  unfold FinishesSeeing
  split <;> infer_instance

/-- Only such creations begin, with an assistant that they may use. -/
def OnlyCreators (caller : Caller) (threadId : Uuid) (assistants : Table Assistant) :
    Action Rpc → Prop
  | .begin _ (.createRun request _) =>
    CreatesIfMissing caller threadId request ∧ AdmittedAssistant assistants request
  | .begin _ _ => False
  | _ => True

/-- Moreover every statement sees the thread when it finishes. -/
def CreatorsSee (caller : Caller) (threadId : Uuid) (assistants : Table Assistant)
    (s : ServiceState) (a : Action Rpc) : Prop :=
  OnlyCreators caller threadId assistants a ∧
    match a with
    | .exec i => ∀ t ∈ s.txns, t.id = i → FinishesSeeing threadId s.db t
    | _ => True

/-! ### The rows that a creation leaves -/

section

variable {caller : Caller} {threadId : Uuid} {assistants : Table Assistant}
  {request : CreateRunRequest} {env : CreateEnv}

theorem CreatesIfMissing.params_threadId (h : CreatesIfMissing caller threadId request)
    (env : CreateEnv) :
    (createParams request env).threadId = threadId := by
  simp [createParams, h.thread]

theorem CreatesIfMissing.params_createThread (h : CreatesIfMissing caller threadId request)
    (env : CreateEnv) :
    (createParams request env).createThread = true := by
  simp [createParams, h.creates]

theorem CreatesIfMissing.admits_insertThread (h : CreatesIfMissing caller threadId request)
    (a : Assistant) :
    admits (authFilters caller) (insertThread (createParams request env) a).metadata = true := by
  cases caller with
  | none => exact admits_nil _
  | some identity =>
    refine admits_owner_of_get? (Json.get?_concat_right _ ?_)
    show (setdefault request.metadata _ _).get? "owner" = _
    rw [get?_setdefault_of_ne _ _ (by decide)]
    exact h.stamped identity rfl

theorem admits_refreshThread (p : CreateParams) (a : Assistant) (th : Thread) :
    admits (authFilters caller) (refreshThread p a th).metadata =
      admits (authFilters caller) th.metadata := by
  cases caller with
  | none => rfl
  | some identity =>
    show admits (ownerFilter identity) ((th.metadata.set _ _).set _ _) = _
    rw [admits_owner_set identity _ _ (by decide), admits_owner_set identity _ _ (by decide)]
    rfl

theorem AdmittedAssistant.createAssistant (h : AdmittedAssistant assistants request)
    (env : CreateEnv) {d : Database} (hd : d.assistant = assistants) : ∃ a, createAssistant (createParams request env) d = some a := by
  subst hd
  exact Option.isSome_iff_exists.mp h

end

/-! ### What holds of open creations -/

/-- What an open creation writes comes from its one statement. -/
theorem writes_createRun {t : Txn Rpc Database RowKey} {request : CreateRunRequest} {env : CreateEnv}
    (hrpc : t.rpc = .createRun request env) :
    t.writes statements = [] ∨ ∃ ρ rest, t.done = ρ :: rest ∧ t.writes statements =
      (createRun (createParams request env) ρ.snap ρ.held ρ.cur).writes.getD [] := by
  have hq : statements t.rpc = [createRun (createParams request env)] := by
    rw [hrpc]
    rfl
  cases hdone : t.done with
  | nil =>
    refine Or.inl ?_
    rw [ReadCommitted.Txn.writes, hdone, hq]
    rfl
  | cons ρ rest => exact Or.inr ⟨ρ, rest, rfl, Txn.writes_single statements hq hdone⟩

section

variable {caller : Caller} {threadId : Uuid} {assistants : Table Assistant} {s : ServiceState}
  (hs : (services (ThreadOf caller threadId assistants)).Reachable
    (CreatorsSee caller threadId assistants) s)

include hs

theorem creator_of_reachable : ∀ t ∈ s.txns, ∃ request env, t.rpc = .createRun request env ∧
    CreatesIfMissing caller threadId request ∧ AdmittedAssistant assistants request := by
  refine rpc_of_reachable (C := fun rpc => ∃ request env, rpc = .createRun request env ∧
    CreatesIfMissing caller threadId request ∧ AdmittedAssistant assistants request)
    (fun s i rpc hOk => ?_) hs
  cases rpc with
  | createRun request env => exact ⟨request, env, rfl, hOk.1⟩
  | _ => cases hOk.1

theorem seesThread_of_reachable : ∀ t ∈ s.txns, ∀ ρ ∈ t.done, ∀ request env,
    t.rpc = .createRun request env → SeesThread threadId request env ρ.snap ρ.cur :=
  done_of_reachable
    (C := fun rpc snap cur => ∀ request env, rpc = .createRun request env →
      SeesThread threadId request env snap cur)
    (fun s t σ ht hσ hOk request env hrpc => by
      have hsees := hOk.2 t ht rfl
      simp only [FinishesSeeing, hrpc, hσ] at hsees
      exact hsees) hs

theorem not_del_creator {t : Txn Rpc Database RowKey} (ht : t ∈ s.txns) (k : RowKey) :
    .del k ∉ t.writes statements := by
  intro hmem
  obtain ⟨request, env, hrpc, -, -⟩ := creator_of_reachable hs t ht
  rcases writes_createRun hrpc with hnil | ⟨ρ, rest, -, hws⟩
  · rw [hnil] at hmem
    exact absurd hmem List.not_mem_nil
  · rw [hws] at hmem
    rcases mem_createRun hmem with ⟨t', -, heq⟩ | ⟨r', -, heq⟩ | ⟨t', -, heq⟩ <;> cases heq

/-- The caller stays the owner of the thread. -/
theorem threadOf_of_reachable : ThreadOf caller threadId assistants s.db := by
  refine db_of_reachable (fun d hd => hd) (fun s hs hI t ht _ _ => ?_) hs
  obtain ⟨hassistant, howner⟩ := hI
  refine ⟨(applyAll_assistant _ _).trans hassistant, fun th hth hid => ?_⟩
  rcases thread_of_applyAll hth with hput | ⟨-, hold⟩
  · obtain ⟨request, env, hrpc, hcreates, -⟩ := creator_of_reachable hs t ht
    rcases writes_createRun hrpc with hnil | ⟨ρ, rest, hdone, hws⟩
    · rw [hnil] at hput
      exact absurd hput List.not_mem_nil
    · have hkey : RowKey.thread th.threadId ∈ keys (writesOf (statements t.rpc) ([] ++ [ρ]) []) := by
        have hq : statements t.rpc = [createRun (createParams request env)] := by
          rw [hrpc]
          rfl
        have hsingle : writesOf (statements t.rpc) ([] ++ [ρ]) [] = t.writes statements := by
          rw [hws, hq]
          rfl
        rw [hsingle]
        exact List.mem_map.mpr ⟨_, hput, rfl⟩
      have hrow := stable_of_reachable hs t ht [] ρ rest hdone _ hkey
      rw [hws] at hput
      rcases mem_createRun hput with ⟨th', hins, heq⟩ | ⟨r', -, heq⟩ | ⟨th', hup, heq⟩
      · cases heq
        obtain ⟨-, -, a, -, rfl⟩ := insertedThread_eq_some.mp hins
        exact hcreates.admits_insertThread a
      · cases heq
      · cases heq
        obtain ⟨th₀, hth₀, a, -, rfl⟩ := mem_updatedThread.mp hup
        rw [admits_refreshThread]
        have hcur := (Relation.mem_rechecked.mp hth₀).1
        rw [threadTable_table, mem_thread_iff_row] at hcur
        exact howner th₀ (mem_thread_iff_row.mpr (hrow ▸ hcur)) hid
  · exact howner th hold hid

theorem history_creators : History (fun d d' => (ThreadOf caller threadId assistants d' →
    ThreadOf caller threadId assistants d) ∧ ThreadsPersist d d') s := by
  refine history_of_reachable (fun d => ⟨id, fun th hth => ⟨th, hth, rfl⟩⟩)
    (fun a b c hab hbc => ⟨fun h => hab.1 (hbc.1 h), fun th hth => ?_⟩)
    (fun s hs t ht _ _ => ⟨fun _ => threadOf_of_reachable hs, fun th hth => ?_⟩) hs
  · obtain ⟨th', hth', hid⟩ := hab.2 th hth
    obtain ⟨th'', hth'', hid'⟩ := hbc.2 th' hth'
    exact ⟨th'', hth'', hid'.trans hid⟩
  · exact exists_thread_applyAll (fun k => not_del_creator hs ht (.thread k)) (Or.inr ⟨th, hth, rfl⟩)

end

/-! ### A statement that sees the thread -/

section

variable {caller : Caller} {threadId : Uuid} {assistants : Table Assistant}
  {request : CreateRunRequest} {env : CreateEnv} {snap cur : Database}

/-- The query of a creation inserts its run iff the thread is in its snapshot or it
inserts the thread, and nothing that is in flight is to prevent it. -/
theorem insertedRun_ne_nil (env : CreateEnv) (cur : Database)
    (hcreates : CreatesIfMissing caller threadId request)
    (hassistant : AdmittedAssistant assistants request)
    (hsnap : ThreadOf caller threadId assistants snap) :
    insertedRun (createParams request env) snap cur ≠ [] ↔
      ((∃ th ∈ snap.thread, th.threadId = threadId) ∨ ∀ th ∈ cur.thread, th.threadId ≠ threadId) ∧
        ¬ (request.preventInsertIfInflight = true ∧
          inflightRuns (createParams request env) snap ≠ []) := by
  obtain ⟨a, ha⟩ := hassistant.createAssistant env hsnap.1
  have hid := hcreates.params_threadId env
  constructor
  · intro hne
    obtain ⟨r, hr⟩ := List.exists_mem_of_ne_nil _ hne
    obtain ⟨hprevent, th, hth, -⟩ := mem_insertedRun.mp hr
    refine ⟨?_, fun hrejected => hrejected.2 (hprevent hrejected.1)⟩
    rcases mem_runThread.mp hth with ⟨hmem, hthid, -⟩ | hins
    · exact Or.inl ⟨th, hmem, hthid.trans hid⟩
    · have hnone := (insertedThread_eq_some.mp hins).2.1
      rw [hid] at hnone
      exact Or.inr (Table.get?_eq_none.mp hnone)
  · rintro ⟨hsees, hnot⟩
    have hprevent : (createParams request env).prevent = true →
        inflightRuns (createParams request env) snap = [] := by
      intro hp
      by_contra hne
      exact hnot ⟨hp, hne⟩
    rcases hsees with ⟨th, hmem, hthid⟩ | hfree
    · have hadm : admits (createParams request env).threadFilters th.metadata = true := by
        show admits request.threadFilters th.metadata = true
        rw [hcreates.filters]
        exact hsnap.2 th hmem hthid
      exact List.ne_nil_of_mem (mem_insertedRun.mpr ⟨hprevent, th,
        mem_runThread.mpr (Or.inl ⟨hmem, hthid.trans hid.symm, hadm⟩), a, ha, rfl⟩)
    · have hnone : cur.thread.get? (createParams request env).threadId = none := by
        rw [hid]
        exact Table.get?_eq_none.mpr hfree
      have hins := insertedThread_eq_some.mpr
        ⟨hcreates.params_createThread env, hnone, a, ha, rfl⟩
      exact List.ne_nil_of_mem
        (mem_insertedRun.mpr ⟨hprevent, _, mem_runThread.mpr (Or.inr hins), a, ha, rfl⟩)

/-- At most one run is inserted: a thread of the snapshot is still there. -/
theorem length_insertedRun_of_persist (p : CreateParams) (h : ThreadsPersist snap cur) :
    (insertedRun p snap cur).length ≤ 1 := by
  have hthread : (runThread p snap cur).length ≤ 1 := by
    rw [runThread, List.length_append]
    cases hget : (snap.thread.get? p.threadId).filter fun t => admits p.threadFilters t.metadata with
    | none => simp
    | some th =>
      obtain ⟨hth, -⟩ := Option.filter_eq_some_iff.mp hget
      obtain ⟨hmem, hid⟩ := Table.get?_eq_some.mp hth
      obtain ⟨th', hth', hid'⟩ := h th hmem
      have hsome : cur.thread.get? p.threadId = some th' :=
        Table.get?_eq_some.mpr ⟨hth', hid'.trans hid⟩
      have hnone : insertedThread p snap cur = none := by simp [insertedThread, hsome]
      simp [hnone]
  unfold insertedRun
  split
  · simp
  · cases hlist : runThread p snap cur with
    | nil => simp
    | cons t ts =>
      rw [hlist, List.length_cons] at hthread
      obtain rfl : ts = [] := List.length_eq_zero_iff.mp (by omega)
      simp

theorem createConflicts_of_persist {p : CreateParams} (h : ThreadsPersist snap cur)
    (hfree : ∀ r ∈ cur.run, r.runId ≠ p.runId) : createConflicts p snap cur = false := by
  have hlen := length_insertedRun_of_persist p h
  have hnot : ¬ 1 < (insertedRun p snap cur).length := by omega
  have hnone : cur.run.get? p.runId = none := Table.get?_eq_none.mpr hfree
  simp [createConflicts, hnot, hnone]

end

/-! ### Every creation is served -/

/-- After the writes of a creation its run is there, with everything that it was
inserted with. -/
theorem mem_run_of_createRun {p : CreateParams} {snap cur d : Database} {held : List RowKey} {r : Run}
    (hlen : (insertedRun p snap cur).length ≤ 1) (hconf : createConflicts p snap cur = false)
    (hr : r ∈ insertedRun p snap cur) :
    r ∈ (applyAll d ((createRun p snap held cur).writes.getD [])).run := by
  have hput : .put (.run r) ∈ (createRun p snap held cur).writes.getD [] := by
    simp [createRun, hconf, hr]
  rw [mem_run_iff_row]
  rcases row_applyAll d ((createRun p snap held cur).writes.getD []) (.run r.runId) with
    ⟨w, hw, hkey, hrow⟩ | ⟨hk, -⟩
  · rcases mem_createRun hw with ⟨th, -, rfl⟩ | ⟨r', hr', rfl⟩ | ⟨th, -, rfl⟩
    · cases hkey
    · obtain rfl : r' = r := by
        cases hlist : insertedRun p snap cur with
        | nil =>
          rw [hlist] at hr
          exact absurd hr List.not_mem_nil
        | cons r₀ rs =>
          rw [hlist, List.length_cons] at hlen
          obtain rfl : rs = [] := List.length_eq_zero_iff.mp (by omega)
          rw [hlist, List.mem_singleton] at hr hr'
          rw [hr, hr']
      exact hrow
    · cases hkey
  · exact absurd (List.mem_map.mpr ⟨_, hput, rfl⟩) hk

section

variable {caller : Caller} {threadId : Uuid} {assistants : Table Assistant} {s : ServiceState}
  (hs : (services (ThreadOf caller threadId assistants)).Reachable
    (CreatorsSee caller threadId assistants) s)

include hs

/-- The answer of a creation that commits is served. -/
theorem served_of_commit {t : Txn Rpc Database RowKey} (ht : t ∈ s.txns)
    (hc : t.complete statements = true) {a : Answer} (ha : a ∈ answerOf s (.commit t.id)) :
    Served threadId (applyAll s.db (t.writes statements)) a := by
  have hget : s.txns.get? t.id = some t := Table.mem_iff_get?.mp ht
  obtain ⟨request, env, hrpc, hcreates, hassistant⟩ := creator_of_reachable hs t ht
  have hdel := fun k => not_del_creator hs ht (.thread k)
  have hlen : t.done.length = 1 := by
    have hlen := of_decide_eq_true hc
    rwa [hrpc] at hlen
  obtain ⟨ρ, hdone⟩ := List.length_eq_one_iff.mp hlen
  have hρ : ρ ∈ t.done := hdone ▸ List.mem_singleton_self ρ
  obtain ⟨hsees, hfree⟩ := seesThread_of_reachable hs t ht ρ hρ request env hrpc
  obtain ⟨hcur, hdb⟩ := (history_creators hs t ht).2 ρ hρ
  have hsnap := hcur.1 (hdb.1 (threadOf_of_reachable hs))
  have hconf := createConflicts_of_persist (p := createParams request env) hcur.2 hfree
  have hws : t.writes statements =
      (createRun (createParams request env) ρ.snap ρ.held ρ.cur).writes.getD [] :=
    Txn.writes_single statements (by rw [hrpc]; rfl) hdone
  -- the thread is inserted, or it was there when the statement finished
  have hthread : RowKey.thread threadId ∈ keys (t.writes statements) ∨
      ∃ th ∈ s.db.thread, th.threadId = threadId := by
    have hid := hcreates.params_threadId env
    cases hins : insertedThread (createParams request env) ρ.snap ρ.cur with
    | some th =>
      refine Or.inl (List.mem_map.mpr ⟨.put (.thread th), ?_, ?_⟩)
      · rw [hws]
        simp [createRun, hconf, hins]
      · obtain ⟨-, -, b, -, rfl⟩ := insertedThread_eq_some.mp hins
        exact congrArg RowKey.thread hid
    | none =>
      obtain ⟨b, hb⟩ := hassistant.createAssistant env hsnap.1
      have hcreate := hcreates.params_createThread env
      by_contra hno
      have hnone : ρ.cur.thread.get? (createParams request env).threadId = none := by
        refine Table.get?_eq_none.mpr fun th hth hthid => hno (Or.inr ?_)
        obtain ⟨th', hth', hid'⟩ := hdb.2 th hth
        exact ⟨th', hth', hid'.trans (hthid.trans hid)⟩
      have hsome := insertedThread_eq_some.mpr ⟨hcreate, hnone, b, hb, rfl⟩
      rw [hins] at hsome
      cases hsome
  obtain ⟨th, hth, hid⟩ := exists_thread_applyAll hdel hthread
  obtain ⟨i, rpc, done, snap⟩ := t
  obtain rfl : rpc = .createRun request env := hrpc
  obtain rfl : done = [ρ] := hdone
  simp only [answerOf, hget, List.mem_singleton] at ha
  subst ha
  constructor
  · exact ⟨th, hth, hid, fun th' hth' hid' => Table.eq_of_key hth' hth (hid'.trans hid.symm)⟩
  · refine ⟨_, rfl, ?_⟩
    by_cases hrejected : request.preventInsertIfInflight = true ∧
        inflightRuns (createParams request env) ρ.snap ≠ []
    · exact Or.inl hrejected
    · have hne := (insertedRun_ne_nil env ρ.cur hcreates hassistant hsnap).mpr
        ⟨hsees, hrejected⟩
      obtain ⟨r, hr⟩ := List.exists_mem_of_ne_nil _ hne
      refine Or.inr ⟨r, List.mem_append_left _ hr, runId_of_mem_insertedRun hr,
        (threadId_of_mem_insertedRun hr).trans (hcreates.params_threadId env), ?_⟩
      rw [hws]
      exact mem_run_of_createRun (length_insertedRun_of_persist _ hcur.2) hconf hr

/-- A statement that sees the thread does not fail. -/
theorem answerOf_exec {i : ℕ} (hOk : CreatorsSee caller threadId assistants s (.exec i)) :
    answerOf s (.exec i) = [] := by
  cases hget : s.txns.get? i with
  | none => simp [answerOf, hget]
  | some t =>
    obtain ⟨ht, rfl⟩ := Table.get?_eq_some.mp hget
    obtain ⟨request, env, hrpc, -, -⟩ := creator_of_reachable hs t ht
    obtain ⟨i, rpc, done, snap⟩ := t
    obtain rfl : rpc = .createRun request env := hrpc
    rw [key_txn] at hget
    cases snap with
    | none => simp [answerOf, hget]
    | some σ =>
      have hsees := hOk.2 _ ht rfl
      simp only [FinishesSeeing] at hsees
      have hpersist := ((history_creators hs _ ht).1 σ rfl).2
      simp [answerOf, hget, createConflicts_of_persist hpersist hsees.2]

/-- What was served stays served: the thread and the runs are not removed. -/
theorem Served.commit {a : Answer} (ha : Served threadId s.db a) {t : Txn Rpc Database RowKey}
    (ht : t ∈ s.txns) : Served threadId (applyAll s.db (t.writes statements)) a := by
  obtain ⟨⟨th, hth, hid, -⟩, rows, hrows, hserved⟩ := ha
  constructor
  · obtain ⟨th', hth', hid'⟩ := exists_thread_applyAll (d := s.db)
      (fun k => not_del_creator hs ht (.thread k)) (Or.inr ⟨th, hth, hid⟩)
    exact ⟨th', hth', hid', fun th₂ hth₂ hid₂ => Table.eq_of_key hth₂ hth' (hid₂.trans hid'.symm)⟩
  · refine ⟨rows, hrows, hserved.imp_right ?_⟩
    rintro ⟨r, hr, hrid, htid, hmem⟩
    refine ⟨r, hr, hrid, htid, (mem_run_applyAll_of_not_mem fun hkey => ?_).mpr hmem⟩
    -- the run of another creation is new
    obtain ⟨w, hw, hk⟩ := List.mem_map.mp hkey
    obtain ⟨request, env, hrpc, -, -⟩ := creator_of_reachable hs t ht
    cases w with
    | del k => exact not_del_creator hs ht k hw
    | put x =>
      cases x with
      | run r' =>
        have hid' : r'.runId = r.runId := RowKey.run.inj hk
        exact Txn.createdRun_new hs ht hrpc hw hmem hid'.symm
      | _ => cases hk

end

/-- **A creation that sees the thread is served**: in every run of creations of one
caller on one thread whose statements, when they finish, have the thread in their
snapshot or find none committed, the thread of every answered creation exists, once,
and its run is inserted and returned unless `prevent_insert_if_inflight` rejects it. -/
theorem served_of_seesThread {caller : Caller} {threadId : Uuid} {assistants : Table Assistant}
    {s : Recorded ServiceState Answer}
    (hs : (creators caller threadId assistants).Reachable
      (fun s a => CreatorsSee caller threadId assistants s.state a) s) :
    ∀ a ∈ s.log, Served threadId s.state.db a := by
  refine Machine.Reachable.forall_mem_log (Q := fun s a => Served threadId s.db a) ?_ ?_ hs
  · intro s act s' hs hOk hstep a ha
    cases step_sound statements hstep with
    | commit ht hc => exact served_of_commit hs ht hc ha
    | exec ht hσ hq hws hfree =>
      rw [answerOf_exec hs hOk] at ha
      exact absurd ha List.not_mem_nil
    | fail ht =>
      rw [answerOf_exec hs hOk] at ha
      exact absurd ha List.not_mem_nil
    | _ => exact absurd ha List.not_mem_nil
  · intro s act s' hs hOk hstep a ha
    cases step_sound statements hstep with
    | commit ht hc => exact ha.commit hs ht
    | _ => exact ha

/-! ### Two creations at once -/

instance (caller : Caller) (threadId : Uuid) (assistants : Table Assistant) :
    DecidablePred (OnlyCreators caller threadId assistants)
  | .begin _ (.createRun request _) =>
    inferInstanceAs (Decidable (CreatesIfMissing caller threadId request ∧ _ = true))
  | .begin _ (.next ..) | .begin _ (.deleteRun _) | .begin _ (.setRunStatus ..)
  | .begin _ (.cancelRuns ..) | .begin _ (.createThread ..) | .begin _ (.patchThread ..)
  | .begin _ (.deleteThread ..) | .begin _ (.setThreadStatus ..) | .begin _ (.setJointStatus ..)
  | .begin _ (.copyThread ..) => inferInstanceAs (Decidable False)
  | .snapshot _ | .exec _ | .commit _ | .abort _ => inferInstanceAs (Decidable True)

instance (caller : Caller) (threadId : Uuid) (assistants : Table Assistant) (s : ServiceState)
    (a : Action Rpc) : Decidable (CreatorsSee caller threadId assistants s a) := by
  match a with
  | .exec i =>
    exact inferInstanceAs (Decidable (_ ∧ ∀ t ∈ s.txns, t.id = i → FinishesSeeing threadId s.db t))
  | .begin .. | .snapshot _ | .commit _ | .abort _ => exact inferInstanceAs (Decidable (_ ∧ True))

/-- The creation of run `runId` by `alice` on thread `10`, which is created if it is missing. -/
def aliceCreates (runId : Uuid) : Rpc :=
  .createRun {
    assistantId := 1, runId := some runId, threadId := some 10, status := some .pending,
    metadata := .obj [("owner", .str "alice")], multitaskStrategy := some .enqueue,
    createIfNotExists := true, threadFilters := ownerFilter "alice" } ⟨0, 0, 0⟩

theorem threadOf_oneAssistant : (creators (some "alice") 10 oneAssistant.assistant).init
    ⟨⟨oneAssistant, .empty⟩, []⟩ :=
  ⟨⟨⟨rfl, fun th hth => absurd hth (Table.not_mem_empty th)⟩, rfl⟩, rfl⟩

/-- The second creation waits for the first one with its statement still to begin. -/
theorem served_of_seesThread_witness :
    ∃ s, (creators (some "alice") 10 oneAssistant.assistant).Reachable
        (fun s a => CreatorsSee (some "alice") 10 oneAssistant.assistant s.state a) s ∧
      s.log.length = 2 ∧ ∀ a ∈ s.log, Served 10 s.state.db a := by
  obtain ⟨s, hs, hlog⟩ := (creators (some "alice") 10 oneAssistant.assistant).exists_reachable
    (fun s a => CreatorsSee (some "alice") 10 oneAssistant.assistant s.state a) threadOf_oneAssistant
    [.begin 0 (aliceCreates 100), .begin 1 (aliceCreates 101), .snapshot 0, .exec 0, .commit 0,
      .snapshot 1, .exec 1, .commit 1]
    (fun s => s.log.length = 2) (by decide +kernel)
  exact ⟨s, hs, of_decide_eq_true hlog, served_of_seesThread hs⟩

/-- Both snapshots are taken before the thread is committed, and the second creation
inserts neither the thread nor its run. -/
theorem not_served :
    ¬ ∀ (caller : Caller) (threadId : Uuid) (assistants : Table Assistant)
      (s : Recorded ServiceState Answer),
      (creators caller threadId assistants).Reachable
          (fun _ a => OnlyCreators caller threadId assistants a) s →
        ∀ a ∈ s.log, Served threadId s.state.db a := by
  intro h
  obtain ⟨s, hs, hlog⟩ := (creators (some "alice") 10 oneAssistant.assistant).exists_reachable
    (fun _ a => OnlyCreators (some "alice") 10 oneAssistant.assistant a) threadOf_oneAssistant
    [.begin 0 (aliceCreates 100), .begin 1 (aliceCreates 101), .snapshot 0, .snapshot 1, .exec 0,
      .commit 0, .exec 1, .commit 1]
    (fun s => s.log.any fun a => a.rows = some [] && !a.request.preventInsertIfInflight)
    (by decide +kernel)
  obtain ⟨a, ha, hempty⟩ := List.any_eq_true.mp hlog
  simp only [Bool.and_eq_true, decide_eq_true_eq, Bool.not_eq_true'] at hempty
  obtain ⟨-, rows, hrows, hserved⟩ := h _ _ _ s hs a ha
  obtain rfl : rows = [] := Option.some.inj (hrows.symm.trans hempty.1)
  rcases hserved with hrejected | ⟨r, hr, -⟩
  · rw [hrejected.1] at hempty
    cases hempty.2
  · exact absurd hr List.not_mem_nil

end NextRole
