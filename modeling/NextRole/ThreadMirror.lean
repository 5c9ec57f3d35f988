import NextRole.Api.Threads
import NextRole.Api.Worker
import NextRole.StuckBusy
import NextRole.ThreadCopy

/-!
# The thread row and the latest checkpoint

The row of a thread repeats the values, the interrupts and the next nodes of the latest
checkpoint, by hand, in each operation that ends a run or updates the state.  Next to
the database a state records for every thread how its row was last written: with the
latest checkpoint, with another one or none, or not at all since a pending run was
cancelled.  A row that was last written with the latest checkpoint shows it.

## Main definitions

* `Operation`, `operate`, `operations` — the operations, executed one at a time.
* `Trail`, `Standing` — what is recorded of a thread.
* `Reported` — what the graphs guarantee.
* `Mirrors` — a row that shows a checkpoint.

## Main results

* `mirrored_of_reachable` — **rows that were last written with the latest checkpoint
  show it**.
* `not_mirrorsLatest` — a state update clears the error of a failed run.
-/

namespace NextRole

open ReadCommitted

/-! ### Operations -/

/-- How the row of a thread stands to its checkpoints. -/
inductive Standing
  /-- It was last written with the latest root checkpoint, or there is none. -/
  | current
  /-- It was last written without it: by a copy, a rollback, the end of a run that has
  reported no checkpoint, or an update at an older checkpoint. -/
  | behind
  /-- A pending run of it was cancelled, and its status was not written since. -/
  | cancelled
  deriving Repr, DecidableEq

/-- What has become of a thread. -/
structure Trail where
  /-- Its last run has failed. -/
  failed : Bool := false
  /-- Its state was updated since its last run. -/
  updated : Bool := false
  standing : Standing := .current

/-- The database, and what has become of the threads. -/
structure ThreadStore where
  db : Database
  trail : Uuid → Trail := fun _ => {}

inductive Operation
  | createThread (threadId : Uuid) (metadata : Json) (now : Timestamp)
  | copyThread (threadId newId : Uuid) (filters : List AuthFilter) (now : Timestamp)
  | createRun (call : CreateCall)
  | claim (limit : ℕ) (now : Timestamp) (tie : Uuid → ℕ)
  | cancel (request : CancelRunRequest) (now : Timestamp)
  /-- An execution of a run, with the rows that its graph saves, and its end. -/
  | endRun (run : Run) (saved : List Row) (report : RunReport) (now : Timestamp)
  | updateState (u : StateUpdate)

/-- Whether the end of a run writes the latest checkpoint to the row: it passes one, or
there is none. -/
def passesLatest (run : Run) (report : RunReport) (d : Database) : Bool :=
  (jointStatus run report).checkpoint.isSome || !decide (HasRoot run.threadId d)

/-- How a row stands after an update: the status of a thread that a cancel has left busy
is not written by `post`. -/
def StateUpdate.standing (u : StateUpdate) (before : Standing) : Standing :=
  if !u.bulk && before = .cancelled then .cancelled
  else if u.checkpointId.isSome then .behind
  else .current

/-- One operation, from its beginning to its end. -/
def operate (reader : StateReader) (s : ThreadStore) : Operation → Option ThreadStore
  | .createThread threadId metadata now => some {
      db := execute (.createThread threadId metadata now) s.db
      trail := if (s.db.thread.get? threadId).isSome then s.trail
        else Function.update s.trail threadId {} }
  | .copyThread threadId newId filters now => some {
      db := execute (.copyThread threadId newId filters now) s.db
      trail := if (s.db.thread.get? newId).isSome then s.trail
        else Function.update s.trail newId { standing := .behind } }
  | .createRun call =>
    if (validatePayload call).isSome then some s
    else some { s with db := execute (.createRun (createRequest call) call.env) s.db }
  | .claim limit now tie => some { s with db := execute (.next limit now tie) s.db }
  | .cancel request now =>
    let runIds := (keptTargets request s.db).map Prod.snd
    some {
      db := (cancel request now s.db).1
      trail := fun threadId =>
        if s.db.run.rows.any fun r => r.threadId = threadId && r.runId ∈ runIds && r.status = .pending
        then { s.trail threadId with standing := .cancelled } else s.trail threadId }
  | .endRun run saved report now =>
    if run ∈ s.db.run ∧ run.status = .running ∧ run.temporary = false ∧
        ∀ x ∈ saved, x.checkpointThread = some run.threadId then
      some {
        db := execute (endCall run report now) (saveRows saved s.db)
        trail := if report.ended = .retriable then s.trail
          else Function.update s.trail run.threadId {
            failed := report.ended.failed
            standing := if passesLatest run report (saveRows saved s.db) then .current else .behind } }
    else none
  | .updateState u =>
    match updateState reader u s.db with
    | .error _ => some s
    | .ok d => some {
        db := d
        trail := Function.update s.trail u.threadId { s.trail u.threadId with
          updated := true
          standing := u.standing (s.trail u.threadId).standing } }

/-- The operations on a new store. -/
def operations (reader : StateReader) : Machine ThreadStore Operation where
  init s := (∃ assistants, s.db = Database.fresh assistants) ∧ s.trail = fun _ => {}
  step := operate reader

/-- A row of the root of a graph. -/
def Row.isRoot : Row → Bool
  | .checkpoint c => c.checkpointNs = ""
  | _ => false

/-- What the graphs guarantee: the last checkpoint that a stream reports is the latest
root checkpoint, as is one that is fetched, and an update saves a root checkpoint. -/
def Reported (reader : StateReader) (s : ThreadStore) : Operation → Prop
  | .endRun run saved report _ =>
    let latest := latestState reader (saveRows saved s.db) run.threadId
    (report.checkpoint.isSome → report.checkpoint = latest) ∧
      (report.fetched.isSome → report.fetched = latest)
  | .updateState u => (∀ x ∈ u.saved, x.checkpointThread = some u.threadId) ∧
      u.saved.any Row.isRoot = true
  | _ => True

instance (reader : StateReader) (s : ThreadStore) : DecidablePred (Reported reader s) := fun a => by
  unfold Reported
  split <;> infer_instance

/-! ### What a row shows -/

/-- A row that shows the state of a checkpoint, or that there is none. -/
structure Mirrors (failed : Bool) (latest : Option CheckpointPayload) (t : Thread) : Prop where
  values : t.values = latest.bind CheckpointPayload.values
  interrupts : t.interrupts = interruptsOf latest
  status : t.status = if failed then .error else if hasNext latest then .interrupted else .idle

instance (failed : Bool) (latest : Option CheckpointPayload) (t : Thread) :
    Decidable (Mirrors failed latest t) :=
  decidable_of_iff (t.values = latest.bind CheckpointPayload.values ∧
    t.interrupts = interruptsOf latest ∧
      t.status = if failed then .error else if hasNext latest then .interrupted else .idle)
    ⟨fun h => ⟨h.1, h.2.1, h.2.2⟩, fun h => ⟨h.1, h.2, h.3⟩⟩

/-- Every thread without a run in flight shows its latest checkpoint, or that its last
run has failed. -/
def MirrorsLatest (reader : StateReader) (s : ThreadStore) : Prop :=
  ∀ t ∈ s.db.thread, hasInflight s.db t.threadId = false →
    Mirrors (s.trail t.threadId).failed (latestState reader s.db t.threadId) t

/-- A run that has failed since the last update of the state. -/
def Trail.showsError (trail : Trail) : Bool := trail.failed && !trail.updated

/-- So does every thread whose row was last written with the latest checkpoint, where an
update of the state clears an error. -/
def Mirrored (reader : StateReader) (s : ThreadStore) : Prop :=
  ∀ t ∈ s.db.thread, hasInflight s.db t.threadId = false →
    (s.trail t.threadId).standing = .current →
      Mirrors (s.trail t.threadId).showsError (latestState reader s.db t.threadId) t

instance (reader : StateReader) : DecidablePred (MirrorsLatest reader) := fun s => by
  unfold MirrorsLatest
  infer_instance

/-! ### The invariant -/

/-- What is invariant of the row of a thread without a run in flight. -/
def Stands (reader : StateReader) (s : ThreadStore) (t : Thread) : Prop :=
  match (s.trail t.threadId).standing with
  | .current => Mirrors (s.trail t.threadId).showsError (latestState reader s.db t.threadId) t
  | .behind => t.status ≠ .busy
  | .cancelled => True

/-- What is invariant of a thread. -/
structure ThreadInvariant (reader : StateReader) (s : ThreadStore) (t : Thread) : Prop where
  values : ¬ HasRoot t.threadId s.db → t.values = none
  stands : hasInflight s.db t.threadId = false → Stands reader s t

/-- The threads of all checkpoints exist. -/
def CheckpointsHaveThreads (d : Database) : Prop :=
  ∀ c ∈ d.checkpoints, ∃ t ∈ d.thread, t.threadId = c.threadId

structure StoreInvariant (reader : StateReader) (s : ThreadStore) : Prop where
  runs : HasThreads s.db
  checkpoints : CheckpointsHaveThreads s.db
  threads : ∀ t ∈ s.db.thread, ThreadInvariant reader s t

/-- A row of a new state that an operation has not touched. -/
structure Untouched (s s' : ThreadStore) (t : Thread) : Prop where
  mem : t ∈ s.db.thread
  checkpoints : SameCheckpoints t.threadId s.db s'.db
  trail : s'.trail t.threadId = s.trail t.threadId
  inflight : hasInflight s.db t.threadId = true → hasInflight s'.db t.threadId = true

theorem Untouched.threadInvariant {reader : StateReader} {s s' : ThreadStore} {t : Thread}
    (hu : Untouched s s' t) (h : StoreInvariant reader s) : ThreadInvariant reader s' t := by
  have hold := h.threads t hu.mem
  refine ⟨fun hroot => hold.values fun hr => hroot ((hasRoot_congr hu.checkpoints).mp hr),
    fun hflight => ?_⟩
  have hstands := hold.stands (Bool.eq_false_iff.mpr fun hin => by
    rw [hu.inflight hin] at hflight
    cases hflight)
  unfold Stands at hstands ⊢
  rw [hu.trail, ← latestState_congr hu.checkpoints]
  exact hstands

theorem CheckpointsHaveThreads.execute {rpc : Rpc} {d : Database} (h : CheckpointsHaveThreads d)
    (hdelete : ∀ threadId filters, rpc ≠ .deleteThread threadId filters) :
    CheckpointsHaveThreads (NextRole.execute rpc d) := by
  intro c hc
  exact exists_thread_of_checkpointRow hdelete (x := .checkpoint c) rfl
    (fun hold => h c (mem_checkpoints_iff_row.mpr hold)) (mem_checkpoints_iff_row.mp hc)

/-! ### Runs in flight -/

theorem hasInflight_congr {d d' : Database} (h : d'.run = d.run) (threadId : Uuid) :
    hasInflight d' threadId = hasInflight d threadId := by
  rw [hasInflight, h, hasInflight]

theorem hasInflight_createRun {request : CreateRunRequest} {env : CreateEnv} {d : Database}
    {threadId : Uuid} (h : hasInflight d threadId = true) :
    hasInflight (execute (.createRun request env) d) threadId = true := by
  obtain ⟨r, hr, htid, hfl⟩ := hasInflight_iff.mp h
  exact hasInflight_iff.mpr ⟨r, mem_run_createRun hr, htid, hfl⟩

theorem hasInflight_next {limit : ℕ} {now : Timestamp} {tie : Uuid → ℕ} {d : Database}
    {threadId : Uuid} (h : hasInflight d threadId = true) :
    hasInflight (execute (.next limit now tie) d) threadId = true := by
  obtain ⟨r, hr, htid, hfl⟩ := hasInflight_iff.mp h
  rcases mem_run_next hr with hmem | hmem
  · exact hasInflight_iff.mpr ⟨r, hmem, htid, hfl⟩
  · exact hasInflight_iff.mpr ⟨setRunning now r, hmem, htid, rfl⟩

/-! ### Calls that save no checkpoint -/

section

variable {reader : StateReader} {s s' : ThreadStore} {t : Thread}

theorem Stands.current (hst : (s.trail t.threadId).standing = .current)
    (h : Mirrors (s.trail t.threadId).showsError (latestState reader s.db t.threadId) t) :
    Stands reader s t := by
  unfold Stands
  rw [hst]
  exact h

theorem Stands.behind (hst : (s.trail t.threadId).standing = .behind) (h : t.status ≠ .busy) :
    Stands reader s t := by
  unfold Stands
  rw [hst]
  exact h

theorem Stands.cancelled (hst : (s.trail t.threadId).standing = .cancelled) : Stands reader s t := by
  unfold Stands
  rw [hst]
  trivial

/-- The row of a thread whose status a cancel has not left behind is not busy. -/
theorem Stands.ne_busy (h : Stands reader s t) (hst : (s.trail t.threadId).standing ≠ .cancelled) :
    t.status ≠ .busy := by
  unfold Stands at h
  cases hstanding : (s.trail t.threadId).standing with
  | current =>
    rw [hstanding] at h
    rw [h.status]
    split
    · simp
    · split <;> simp
  | behind =>
    rw [hstanding] at h
    exact h
  | cancelled => exact absurd hstanding hst

/-- What a call keeps that neither deletes nor copies a thread, and what it leaves of the
threads. -/
theorem StoreInvariant.execute (h : StoreInvariant reader s) {rpc : Rpc}
    (hdb : s'.db = NextRole.execute rpc s.db)
    (hdelete : ∀ threadId filters, rpc ≠ .deleteThread threadId filters)
    (hcopy : ∀ threadId newId filters now, rpc ≠ .copyThread threadId newId filters now)
    (hthreads : ∀ t ∈ s'.db.thread, SameCheckpoints t.threadId s.db s'.db →
      Untouched s s' t ∨ ThreadInvariant reader s' t) : StoreInvariant reader s' := by
  refine ⟨?_, ?_, fun t ht => ?_⟩
  · rw [hdb]
    exact HasThreads.execute hdelete h.runs
  · rw [hdb]
    exact h.checkpoints.execute hdelete
  · have hsame : SameCheckpoints t.threadId s.db s'.db := by
      rw [hdb]
      exact sameCheckpoints_execute hdelete (fun src => hcopy src t.threadId) s.db
    rcases hthreads t ht hsame with huntouched | hnew
    · exact huntouched.threadInvariant h
    · exact hnew

theorem StoreInvariant.createThread (h : StoreInvariant reader s) {threadId : Uuid} {metadata : Json}
    {now : Timestamp} (hs : operate reader s (.createThread threadId metadata now) = some s') :
    StoreInvariant reader s' := by
  obtain ⟨hdb, htrail⟩ : s'.db = NextRole.execute (.createThread threadId metadata now) s.db ∧
      s'.trail = if (s.db.thread.get? threadId).isSome then s.trail
        else Function.update s.trail threadId {} := by
    cases hs
    exact ⟨rfl, rfl⟩
  refine h.execute hdb nofun nofun fun t ht hsame => ?_
  have hflight : hasInflight s'.db t.threadId = hasInflight s.db t.threadId :=
    hasInflight_congr (hdb ▸ run_execute rfl s.db) t.threadId
  have hmem := ht
  rw [hdb] at hmem
  rcases thread_of_execute hmem with hold | ⟨d', hthread, hwrite⟩
  · refine Or.inl ⟨hold, hsame, ?_, fun hin => hflight.trans hin⟩
    rw [htrail]
    split
    · rfl
    · next hnone =>
      have hget : s.db.thread.get? threadId = none := by simpa using hnone
      exact Function.update_of_ne (Table.get?_eq_none.mp hget t hold) _ _
  · right
    cases hwrite with
    | createThread hget =>
      rw [hthread] at hget
      -- no checkpoint has been saved for a thread that did not exist
      have hroot : ¬ HasRoot threadId s'.db := by
        rintro hroot
        obtain ⟨c, hc, hid, -⟩ := (hasRoot_congr hsame).mpr hroot
        obtain ⟨t₀, ht₀, hid₀⟩ := h.checkpoints c hc
        exact Table.get?_eq_none.mp hget t₀ ht₀ (hid₀.trans hid)
      have hnew : s'.trail threadId = {} := by
        rw [htrail, hget, if_neg (by simp), Function.update_self]
      have hlatest : latestState reader s'.db (newThread threadId metadata now).threadId = none :=
        latestState_of_not_hasRoot hroot
      refine ⟨fun _ => rfl, fun _ => Stands.current (congrArg Trail.standing hnew) ?_⟩
      rw [show s'.trail (newThread threadId metadata now).threadId = {} from hnew, hlatest]
      exact ⟨rfl, rfl, rfl⟩

theorem inflight_put_createRun (h : StoreInvariant reader s) {call : CreateCall}
    (hput : .put (.thread t) ∈
      (NextRole.createRun (createParams (createRequest call) call.env) s.db [] s.db).writes.getD []) :
    hasInflight (NextRole.execute (.createRun (createRequest call) call.env) s.db) t.threadId = true :=
  hasInflight_iff.mpr (inflight_createRun h.runs rfl hput)

theorem StoreInvariant.createRun (h : StoreInvariant reader s) {call : CreateCall}
    (hs : operate reader s (.createRun call) = some s') : StoreInvariant reader s' := by
  simp only [operate] at hs
  split at hs
  · cases hs
    exact h
  · obtain ⟨hdb, htrail⟩ : s'.db = NextRole.execute (.createRun (createRequest call) call.env) s.db ∧
        s'.trail = s.trail := by
      cases hs
      exact ⟨rfl, rfl⟩
    refine h.execute hdb nofun nofun fun t ht hsame => ?_
    have hmem := ht
    rw [hdb, execute_createRun] at hmem
    rcases thread_of_applyAll hmem with hput | ⟨-, hold⟩
    · right
      have hflight : hasInflight s'.db t.threadId = true := hdb ▸ inflight_put_createRun h hput
      refine ⟨fun hroot => ?_, fun hnone => absurd hflight (by simp [hnone])⟩
      rcases mem_createRun hput with ⟨t', hins, heq⟩ | ⟨r, -, heq⟩ | ⟨t', hupd, heq⟩
      · cases heq
        obtain ⟨-, -, a, -, rfl⟩ := insertedThread_eq_some.mp hins
        rfl
      · cases heq
      · cases heq
        obtain ⟨t₀, ht₀, a, -, rfl⟩ := mem_updatedThread.mp hupd
        have hold := h.threads t₀ (Relation.mem_rechecked.mp ht₀).1
        exact hold.values fun hr => hroot ((hasRoot_congr hsame).mp hr)
    · exact Or.inl ⟨hold, hsame, congrFun htrail _, fun hin => hdb ▸ hasInflight_createRun hin⟩

theorem StoreInvariant.claim (h : StoreInvariant reader s) {limit : ℕ} {now : Timestamp}
    {tie : Uuid → ℕ} (hs : operate reader s (.claim limit now tie) = some s') :
    StoreInvariant reader s' := by
  obtain ⟨hdb, htrail⟩ : s'.db = NextRole.execute (.next limit now tie) s.db ∧ s'.trail = s.trail := by
    cases hs
    exact ⟨rfl, rfl⟩
  refine h.execute hdb nofun nofun fun t ht hsame => Or.inl ?_
  rw [hdb, thread_execute rfl] at ht
  exact ⟨ht, hsame, congrFun htrail _, fun hin => hdb ▸ hasInflight_next hin⟩

theorem hasInflight_cancelRuns {runIds : List Uuid} {action : CancelRunAction} {now : Timestamp}
    {d : Database} {threadId : Uuid} (h : hasInflight d threadId = true)
    (hnot : (d.run.rows.any fun r =>
      r.threadId = threadId && r.runId ∈ runIds && r.status = .pending) = false) :
    hasInflight (NextRole.execute (.cancelRuns runIds action now) d) threadId = true := by
  obtain ⟨r, hr, htid, hfl⟩ := hasInflight_iff.mp h
  refine hasInflight_iff.mpr ⟨r, (mem_run_cancelRuns_iff hr).mpr ?_, htid, hfl⟩
  have hr' := List.any_eq_false.mp hnot r hr
  simpa [htid] using hr'

theorem StoreInvariant.cancel (h : StoreInvariant reader s) {request : CancelRunRequest}
    {now : Timestamp} (hs : operate reader s (.cancel request now) = some s') :
    StoreInvariant reader s' := by
  generalize hids : (keptTargets request s.db).map Prod.snd = runIds at hs
  obtain ⟨hdb, htrail⟩ : s'.db = NextRole.execute (.cancelRuns runIds request.action now) s.db ∧
      s'.trail = fun threadId =>
        if s.db.run.rows.any fun r => r.threadId = threadId && r.runId ∈ runIds && r.status = .pending
        then { s.trail threadId with standing := .cancelled } else s.trail threadId := by
    cases hs
    subst hids
    exact ⟨rfl, rfl⟩
  refine h.execute hdb nofun nofun fun t ht hsame => ?_
  rw [hdb, thread_execute rfl] at ht
  cases hany : s.db.run.rows.any fun r =>
      r.threadId = t.threadId && r.runId ∈ runIds && r.status = .pending with
  | true =>
    right
    refine ⟨fun hroot => (h.threads t ht).values fun hr => hroot ((hasRoot_congr hsame).mp hr),
      fun _ => Stands.cancelled ?_⟩
    rw [htrail]
    simp only [hany, if_true]
  | false =>
    left
    refine ⟨ht, hsame, ?_, fun hin => hdb ▸ hasInflight_cancelRuns hin hany⟩
    rw [htrail]
    simp [hany]

/-! ### Copies -/

theorem StoreInvariant.copyThread (h : StoreInvariant reader s) {threadId newId : Uuid}
    {filters : List AuthFilter} {now : Timestamp}
    (hs : operate reader s (.copyThread threadId newId filters now) = some s') :
    StoreInvariant reader s' := by
  obtain ⟨hdb, htrail⟩ : s'.db = NextRole.execute (.copyThread threadId newId filters now) s.db ∧
      s'.trail = if (s.db.thread.get? newId).isSome then s.trail
        else Function.update s.trail newId { standing := .behind } := by
    cases hs
    exact ⟨rfl, rfl⟩
  have hdelete : ∀ k fs, Rpc.copyThread threadId newId filters now ≠ .deleteThread k fs := nofun
  have hother : ∀ k ≠ newId, SameCheckpoints k s.db s'.db ∧ s'.trail k = s.trail k := by
    intro k hne
    constructor
    · rw [hdb]
      refine sameCheckpoints_execute hdelete (fun src fs at' heq => ?_) s.db
      cases heq
      exact hne rfl
    · rw [htrail]
      split
      · rfl
      · exact Function.update_of_ne hne _ _
  rcases execute_copyThread_cases threadId newId filters now s.db with hsame | hcopy
  · -- nothing is copied: the new thread exists already, or neither did it before
    rw [hsame] at hdb
    refine ⟨hdb ▸ h.runs, hdb ▸ h.checkpoints, fun t ht => ?_⟩
    rw [hdb] at ht
    have htrail' : s'.trail t.threadId = s.trail t.threadId := by
      rw [htrail]
      split
      · rfl
      · next hnone =>
        have hget : s.db.thread.get? newId = none := by simpa using hnone
        exact Function.update_of_ne (Table.get?_eq_none.mp hget t ht) _ _
    refine Untouched.threadInvariant ⟨ht, ?_, htrail', fun hin => hdb ▸ hin⟩ h
    rw [hdb]
    exact SameCheckpoints.refl _ _
  · have hget : s.db.thread.get? newId = none := Table.get?_eq_none.mpr hcopy.free
    refine ⟨?_, fun c hc => ?_, fun t ht => ?_⟩
    · rw [hdb]
      exact HasThreads.execute hdelete h.runs
    · rw [hdb] at hc ⊢
      exact h.checkpoints.execute hdelete c hc
    · have hmem := ht
      rw [hdb] at hmem
      have hflight : hasInflight s'.db t.threadId = hasInflight s.db t.threadId :=
        hasInflight_congr (hdb ▸ run_execute rfl s.db) t.threadId
      rcases thread_of_execute hmem with hold | ⟨d', hthread, hwrite⟩
      · have hne : t.threadId ≠ newId := Table.get?_eq_none.mp hget t hold
        obtain ⟨hsame, htrail'⟩ := hother t.threadId hne
        exact Untouched.threadInvariant ⟨hold, hsame, htrail', fun hin => hflight.trans hin⟩ h
      · cases hwrite with
        | copyThread ht₀ hnone =>
          refine ⟨fun _ => rfl, fun _ => Stands.behind ?_ (by simp [copiedThread])⟩
          rw [htrail, hget, if_neg (by simp)]
          show (Function.update s.trail newId ({ standing := .behind } : Trail) newId).standing = .behind
          rw [Function.update_self]

/-! ### Ends of runs and updates -/

theorem CheckpointsHaveThreads.saveRows {saved : List Row} {k : Uuid}
    (h : ∀ x ∈ saved, x.checkpointThread = some k) {d : Database} (hd : CheckpointsHaveThreads d)
    (hk : ∃ t ∈ d.thread, t.threadId = k) : CheckpointsHaveThreads (saveRows saved d) := by
  intro c hc
  rw [thread_saveRows h]
  by_cases hid : c.threadId = k
  · rw [hid]
    exact hk
  · have hsame := sameCheckpoints_puts (Ne.symm hid) h d
    have hold := (hsame (.checkpoint c) rfl).mpr (mem_checkpoints_iff_row.mp hc)
    exact hd c (mem_checkpoints_iff_row.mpr hold)

/-- What is left after rows of one thread are saved and a call writes that thread. -/
theorem StoreInvariant.saved (h : StoreInvariant reader s) {saved : List Row} {k : Uuid} {rpc : Rpc}
    (hsaved : ∀ x ∈ saved, x.checkpointThread = some k) (hk : ∃ t ∈ s.db.thread, t.threadId = k)
    (hdb : s'.db = NextRole.execute rpc (saveRows saved s.db))
    (hdelete : ∀ threadId filters, rpc ≠ .deleteThread threadId filters)
    (hcopy : ∀ threadId newId filters now, rpc ≠ .copyThread threadId newId filters now)
    (htrail : ∀ k' ≠ k, s'.trail k' = s.trail k')
    (hother : ∀ t ∈ s'.db.thread, t.threadId ≠ k → t ∈ s.db.thread ∧
      (hasInflight s.db t.threadId = true → hasInflight s'.db t.threadId = true))
    (hthread : ∀ t ∈ s'.db.thread, t.threadId = k →
      SameCheckpoints k (saveRows saved s.db) s'.db → ThreadInvariant reader s' t) :
    StoreInvariant reader s' := by
  have hruns : HasThreads (saveRows saved s.db) := by
    intro r hr
    rw [run_saveRows hsaved] at hr
    rw [thread_saveRows hsaved]
    exact h.runs r hr
  have hcheckpoints := h.checkpoints.saveRows hsaved hk
  have hsame : ∀ k', SameCheckpoints k' (saveRows saved s.db) s'.db := fun k' =>
    hdb ▸ sameCheckpoints_execute hdelete (fun src => hcopy src k') _
  refine ⟨?_, ?_, fun t ht => ?_⟩
  · rw [hdb]
    exact HasThreads.execute hdelete hruns
  · rw [hdb]
    exact hcheckpoints.execute hdelete
  · by_cases hid : t.threadId = k
    · exact hthread t ht hid (hsame k)
    · obtain ⟨hmem, hflight⟩ := hother t ht hid
      have hkeep := (sameCheckpoints_puts (Ne.symm hid) hsaved s.db).trans (hsame t.threadId)
      exact Untouched.threadInvariant ⟨hmem, hkeep, htrail t.threadId hid, hflight⟩ h

theorem hasInflight_endCall {d d' : Database} {run : Run} (hrun : run ∈ d.run)
    (hkeep : ∀ r ∈ d.run, r.runId ≠ run.runId → r ∈ d'.run) {k : Uuid} (hne : k ≠ run.threadId)
    (h : hasInflight d k = true) : hasInflight d' k = true := by
  obtain ⟨r, hr, htid, hfl⟩ := hasInflight_iff.mp h
  refine hasInflight_iff.mpr ⟨r, hkeep r hr fun hid => hne ?_, htid, hfl⟩
  rw [← htid, Table.eq_of_key hr hrun hid]

/-- The row of a thread after the end of its run. -/
theorem threadInvariant_jointThread {run : Run} {report : RunReport} {saved : List Row}
    {now : Timestamp} {t₀ : Thread} {d : Database} (hold : ThreadInvariant reader s t₀)
    (hid : t₀.threadId = run.threadId) (hended : report.ended ≠ .retriable)
    (hrep : Reported reader s (.endRun run saved report now))
    (hsame : SameCheckpoints run.threadId (saveRows saved s.db) s'.db)
    (htrail : s'.trail run.threadId = {
      failed := report.ended.failed
      standing := if passesLatest run report (saveRows saved s.db) then .current else .behind })
    (hflight : hasInflight d run.threadId = hasInflight s'.db run.threadId) :
    ThreadInvariant reader s' (jointThread (jointStatus run report) now d t₀) := by
  have htid : (jointThread (jointStatus run report) now d t₀).threadId = run.threadId := hid
  have hlatest : latestState reader s'.db run.threadId =
      latestState reader (saveRows saved s.db) run.threadId := (latestState_congr hsame).symm
  -- a checkpoint that is passed is the latest one
  have hpassed : ∀ cp, (jointStatus run report).checkpoint = some cp →
      latestState reader s'.db run.threadId = some cp := by
    intro cp hcp
    rw [hlatest]
    rcases checkpoint_jointStatus hcp with hreported | hfetched
    · exact (hrep.1 (by simp [hreported])).symm.trans hreported
    · exact (hrep.2 (by simp [hfetched])).symm.trans hfetched
  have hvalues : ¬ HasRoot run.threadId s'.db →
      (jointStatus run report).checkpoint = none ∧ t₀.values = none := by
    intro hroot
    constructor
    · cases hcp : (jointStatus run report).checkpoint with
      | none => rfl
      | some cp =>
        have hsome := hpassed cp hcp
        rw [latestState_of_not_hasRoot hroot] at hsome
        cases hsome
    · refine hold.values fun hr => hroot ((hasRoot_congr hsame).mp ?_)
      rw [hid] at hr
      exact hr.puts saved
  refine ⟨fun hroot => ?_, fun hnone => ?_⟩
  · rw [htid] at hroot
    obtain ⟨hcp, hnil⟩ := hvalues hroot
    simp [jointThread, valuesAfter, hcp, hnil]
  · rw [htid, ← hflight] at hnone
    have hstatus : (jointThread (jointStatus run report) now d t₀).status =
        (jointStatus run report).base := by
      simp [jointThread, inflight_jointStatus hended, hnone]
    cases hpasses : passesLatest run report (saveRows saved s.db) with
    | false =>
      refine Stands.behind ?_ ?_
      · rw [htid, htrail, hpasses]
        rfl
      · rw [hstatus]
        exact (jointStatus run report).base_ne_busy
    | true =>
      have hsame : (jointStatus run report).checkpoint = latestState reader s'.db run.threadId := by
        rw [passesLatest, Bool.or_eq_true] at hpasses
        rcases hpasses with hsome | hroot
        · obtain ⟨cp, hcp⟩ := Option.isSome_iff_exists.mp hsome
          rw [hcp, hpassed cp hcp]
        · have hroot : ¬ HasRoot run.threadId (saveRows saved s.db) := by simpa using hroot
          rw [latestState_of_not_hasRoot hroot] at hlatest
          cases hcp : (jointStatus run report).checkpoint with
          | none => exact hlatest.symm
          | some cp =>
            rw [hpassed cp hcp] at hlatest
            cases hlatest
      refine Stands.current ?_ ⟨?_, ?_, ?_⟩
      · rw [htid, htrail, hpasses]
        rfl
      · rw [htid, ← hsame]
        cases hcp : (jointStatus run report).checkpoint with
        | some cp => simp [jointThread, valuesAfter, hcp]
        | none =>
          have hroot : ¬ HasRoot run.threadId s'.db := by
            intro hroot
            rw [latestState_of_hasRoot hroot, hcp] at hsame
            cases hsame
          simp [jointThread, valuesAfter, hcp, (hvalues hroot).2]
      · rw [htid, ← hsame]
        rfl
      · rw [hstatus, base_jointStatus hended, htid, htrail, ← hsame]
        simp [Trail.showsError]

theorem StoreInvariant.endRun (h : StoreInvariant reader s) {run : Run} {saved : List Row}
    {report : RunReport} {now : Timestamp} (hrep : Reported reader s (.endRun run saved report now))
    (hs : operate reader s (.endRun run saved report now) = some s') : StoreInvariant reader s' := by
  simp only [operate] at hs
  split at hs
  · next hguard =>
    obtain ⟨hrun, hstatus, htemp, hsaved⟩ := hguard
    have hthreads := thread_saveRows hsaved s.db
    have hruns := run_saveRows hsaved s.db
    by_cases hended : report.ended = .retriable
    · -- the run is put back, and stays in flight
      obtain ⟨hdb, htrail⟩ : s'.db = NextRole.execute (.setRunStatus run.runId .pending now)
          (saveRows saved s.db) ∧ s'.trail = s.trail := by
        cases hs
        exact ⟨by rw [endCall_of_retriable now hended], if_pos hended⟩
      have hmem : s'.db.thread = s.db.thread := by
        rw [hdb, thread_execute rfl, hthreads]
      have hkeep : ∀ r ∈ s.db.run, r.runId ≠ run.runId → r ∈ s'.db.run := by
        intro r hr hne
        rw [hdb, mem_run_setRunStatus, hruns]
        exact Or.inl ⟨hr, hne⟩
      refine h.saved hsaved (h.runs run hrun) hdb nofun nofun (fun k _ => congrFun htrail k) ?_ ?_
      · intro t ht hne
        rw [hmem] at ht
        exact ⟨ht, hasInflight_endCall hrun hkeep hne⟩
      · intro t ht hid hsame
        rw [hmem] at ht
        refine ⟨fun hroot => (h.threads t ht).values fun hr => hroot ?_, fun hnone => ?_⟩
        · rw [hid] at hr ⊢
          exact (hasRoot_congr hsame).mp (hr.puts saved)
        have hback : withStatus .pending now run ∈ s'.db.run := by
          rw [hdb, mem_run_setRunStatus, hruns]
          exact Or.inr ⟨run, hrun, rfl, rfl⟩
        have hflight := hasInflight_iff.mpr ⟨_, hback, hid.symm, rfl⟩
        rw [hnone] at hflight
        cases hflight
    · obtain ⟨hdb, htrail⟩ : s'.db = NextRole.execute (.setJointStatus (jointStatus run report) now)
          (saveRows saved s.db) ∧ s'.trail = Function.update s.trail run.threadId {
            failed := report.ended.failed
            standing := if passesLatest run report (saveRows saved s.db) then .current
              else .behind } := by
        cases hs
        exact ⟨by rw [endCall_of_not_temporary now hended htemp], if_neg hended⟩
      have hkeep : ∀ r ∈ s.db.run, r.runId ≠ run.runId → r ∈ s'.db.run := by
        intro r hr hne
        rw [hdb]
        by_cases hroll : (jointStatus run report).runStatus = .rollback
        · rw [mem_run_setJointStatus_rollback hroll, hruns, jointStatus_runId]
          exact ⟨hr, fun heq => hne heq.1⟩
        · rw [mem_run_setJointStatus hroll, hruns, jointStatus_runId]
          exact Or.inl ⟨hr, hne⟩
      refine h.saved hsaved (h.runs run hrun) hdb nofun nofun (fun k hne => ?_) ?_ ?_
      · rw [htrail]
        exact Function.update_of_ne hne _ _
      · intro t ht hne
        rw [hdb, mem_thread_setJointStatus, jointStatus_threadId, hthreads] at ht
        rcases ht with ⟨hmem, -⟩ | ⟨t₀, -, hid, rfl⟩
        · exact ⟨hmem, hasInflight_endCall hrun hkeep hne⟩
        · exact absurd hid hne
      · intro t ht hid hsame
        rw [hdb, mem_thread_setJointStatus, jointStatus_threadId, hthreads] at ht
        rcases ht with ⟨-, hne⟩ | ⟨t₀, ht₀, hid₀, rfl⟩
        · exact absurd hid hne
        · refine threadInvariant_jointThread (h.threads t₀ ht₀) hid₀ hended hrep hsame ?_ ?_
          · rw [htrail, Function.update_self]
          · rw [hdb]
  · cases hs

theorem base_setStatus (u : StateUpdate) (checkpoint : CheckpointPayload) :
    (u.setStatus checkpoint).base = if hasNext (some checkpoint) then .interrupted else .idle := by
  rfl

/-- The row of a thread after an update of its state. -/
theorem threadInvariant_update (h : StoreInvariant reader s) {u : StateUpdate}
    (hsaved : ∀ x ∈ u.saved, x.checkpointThread = some u.threadId)
    (hroot : u.saved.any Row.isRoot = true)
    (hsame : SameCheckpoints u.threadId (saveRows u.saved s.db) s'.db)
    (hruns : s'.db.run = s.db.run)
    (htrail : s'.trail u.threadId = { s.trail u.threadId with
      updated := true
      standing := u.standing (s.trail u.threadId).standing })
    {cp : CheckpointPayload} (hcp : reader.stateAt (u.save s.db) u.threadId u.checkpointId = cp)
    (hid : t.threadId = u.threadId)
    (ht : (t ∈ s.db.thread ∧ ¬ (t.threadId = (u.setStatus cp).threadId ∧
        ((u.setStatus cp).expectedStatus = [] ∨ t.status ∈ (u.setStatus cp).expectedStatus))) ∨
      ∃ t₀ ∈ s.db.thread, t₀.threadId = (u.setStatus cp).threadId ∧
        ((u.setStatus cp).expectedStatus = [] ∨ t₀.status ∈ (u.setStatus cp).expectedStatus) ∧
          t = statusThread (u.setStatus cp) u.now (saveRows u.saved s.db) t₀) :
    ThreadInvariant reader s' t := by
  have hnew : HasRoot u.threadId (saveRows u.saved s.db) := by
    obtain ⟨x, hx, hns⟩ := List.any_eq_true.mp hroot
    cases x with
    | checkpoint c => exact hasRoot_puts hx (Option.some.inj (hsaved _ hx)) (of_decide_eq_true hns) _
    | _ => cases hns
  have hlatest : latestState reader s'.db u.threadId =
      some (reader.stateAt (saveRows u.saved s.db) u.threadId none) := by
    rw [← latestState_congr hsame, latestState_of_hasRoot hnew]
  have hstanding : (s'.trail t.threadId).standing = u.standing (s.trail u.threadId).standing := by
    rw [hid, htrail]
  refine ⟨fun hnone => absurd ((hasRoot_congr hsame).mp hnew) (hid ▸ hnone), fun hflight => ?_⟩
  rw [hid] at hflight
  rcases ht with ⟨hmem, hnot⟩ | ⟨t₀, -, -, -, rfl⟩
  · -- `post` writes no row that a cancel has left busy, and any other row
    refine Stands.cancelled ?_
    have hold : (s.trail t.threadId).standing = .cancelled := by
      by_contra hne
      have hstands := (h.threads t hmem).stands (by rw [hid, ← hasInflight_congr hruns]; exact hflight)
      have hbusy := hstands.ne_busy hne
      refine hnot ⟨hid, ?_⟩
      cases hbulk : u.bulk with
      | true => exact Or.inl (by simp [StateUpdate.setStatus, hbulk])
      | false =>
        right
        cases hst : t.status with
        | busy => exact absurd hst hbusy
        | _ => simp [StateUpdate.setStatus, hbulk]
    have hbulk : u.bulk = false := by
      by_contra hbulk
      refine hnot ⟨hid, Or.inl ?_⟩
      simp [StateUpdate.setStatus, hbulk]
    rw [hstanding, ← hid, StateUpdate.standing, hold, hbulk]
    rfl
  · have hstatus : (statusThread (u.setStatus cp) u.now (saveRows u.saved s.db) t₀).status =
        (u.setStatus cp).base := by
      have hnone : hasInflight (saveRows u.saved s.db) (u.setStatus cp).threadId = false := by
        rw [hasInflight_congr (run_saveRows hsaved s.db), ← hasInflight_congr hruns]
        exact hflight
      simp [statusThread, hnone]
    cases hst : u.standing (s.trail u.threadId).standing with
    | cancelled => exact Stands.cancelled (hstanding.trans hst)
    | behind =>
      refine Stands.behind (hstanding.trans hst) ?_
      rw [hstatus]
      exact (u.setStatus cp).base_ne_busy
    | current =>
      have hnone : u.checkpointId = none := by
        unfold StateUpdate.standing at hst
        split at hst
        · cases hst
        · split at hst
          · cases hst
          · next hnot => simpa using hnot
      rw [hnone] at hcp
      have hcp : latestState reader s'.db u.threadId = some cp := hcp ▸ hlatest
      refine Stands.current (hstanding.trans hst) ?_
      rw [hid, hcp, htrail]
      refine ⟨rfl, rfl, ?_⟩
      rw [hstatus, base_setStatus]
      simp [Trail.showsError]

theorem StoreInvariant.updateState (h : StoreInvariant reader s) {u : StateUpdate}
    (hrep : Reported reader s (.updateState u))
    (hs : operate reader s (.updateState u) = some s') : StoreInvariant reader s' := by
  obtain ⟨hsaved, hroot⟩ := hrep
  simp only [operate] at hs
  split at hs
  · cases hs
    exact h
  · next d hok =>
    obtain ⟨hk, hbusy, rfl⟩ := updateState_eq_ok hok
    generalize hcp : reader.stateAt (u.save s.db) u.threadId u.checkpointId = cp at hs
    obtain ⟨hdb, htrail⟩ : s'.db = NextRole.execute (.setThreadStatus (u.setStatus cp) u.now)
        (saveRows u.saved s.db) ∧ s'.trail = Function.update s.trail u.threadId {
          s.trail u.threadId with
          updated := true
          standing := u.standing (s.trail u.threadId).standing } := by
      cases hs
      exact ⟨rfl, rfl⟩
    have hthreads := thread_saveRows hsaved s.db
    have hruns : s'.db.run = s.db.run := by
      rw [hdb, run_execute rfl, run_saveRows hsaved]
    refine h.saved hsaved hk hdb nofun nofun (fun k hne => ?_) ?_ ?_
    · rw [htrail]
      exact Function.update_of_ne hne _ _
    · intro t ht hne
      rw [hdb, mem_thread_setThreadStatus, hthreads] at ht
      rcases ht with ⟨hmem, -⟩ | ⟨t₀, -, hid, -, rfl⟩
      · exact ⟨hmem, fun hin => (hasInflight_congr hruns _).trans hin⟩
      · exact absurd hid hne
    · intro t ht hid hsame
      refine threadInvariant_update h hsaved hroot hsame hruns ?_ hcp hid ?_
      · rw [htrail, Function.update_self]
      · rw [hdb, mem_thread_setThreadStatus, hthreads] at ht
        exact ht

theorem StoreInvariant.step (h : StoreInvariant reader s) {op : Operation}
    (hrep : Reported reader s op) (hs : operate reader s op = some s') : StoreInvariant reader s' := by
  cases op with
  | createThread threadId metadata now => exact h.createThread hs
  | copyThread threadId newId filters now => exact h.copyThread hs
  | createRun call => exact h.createRun hs
  | claim limit now tie => exact h.claim hs
  | cancel request now => exact h.cancel hs
  | endRun run saved report now => exact h.endRun hrep hs
  | updateState u => exact h.updateState hrep hs

end

theorem storeInvariant_of_reachable {reader : StateReader} {s : ThreadStore}
    (hs : (operations reader).Reachable (Reported reader) s) : StoreInvariant reader s := by
  refine hs.invariant (fun s hinit => ?_) fun s op s' _ hI hrep hstep => hI.step hrep hstep
  obtain ⟨⟨assistants, hdb⟩, -⟩ := hinit
  constructor
  case runs =>
    intro r hr
    rw [hdb] at hr
    exact absurd hr (Table.not_mem_empty r)
  case checkpoints =>
    intro c hc
    rw [hdb] at hc
    exact absurd hc (Table.not_mem_empty c)
  case threads =>
    intro t ht
    rw [hdb] at ht
    exact absurd ht (Table.not_mem_empty t)

/-- **Every row that was last written with the latest checkpoint shows it**: after every
sequence of operations, executed one at a time, a thread without a run in flight has the
values and interrupts of its latest root checkpoint, and the status `error` if its last
run has failed and its state was not updated since, and else the one of the next nodes. -/
theorem mirrored_of_reachable {reader : StateReader} {s : ThreadStore}
    (hs : (operations reader).Reachable (Reported reader) s) : Mirrored reader s := by
  intro t ht hflight hst
  have hstands := ((storeInvariant_of_reachable hs).threads t ht).stands hflight
  unfold Stands at hstands
  rw [hst] at hstands
  exact hstands

/-! ### A thread whose run times out -/

/-- The ids of the root checkpoints of a thread. -/
def rootIds (threadId : Uuid) (d : Database) : List Uuid :=
  (d.checkpoints.select fun c => c.threadId = threadId && c.checkpointNs = "").map
    Checkpoint.checkpointId

theorem rootIds_congr {threadId : Uuid} {d d' : Database} (h : SameCheckpoints threadId d d') :
    (rootIds threadId d).max? = (rootIds threadId d').max? := by
  have hmem : ∀ id, id ∈ rootIds threadId d ↔ id ∈ rootIds threadId d' := by
    intro id
    simp only [rootIds, List.mem_map, Table.mem_select, Bool.and_eq_true, decide_eq_true_eq]
    refine exists_congr fun c => ?_
    refine and_congr_left fun _ => ?_
    exact and_congr_left fun hc => h.mem_checkpoints hc.1
  refine Option.ext fun id => ?_
  simp only [List.max?_eq_some_iff, hmem]

/-- The reader of graphs that have run to their end: the values are in the checkpoint,
and there is nothing to do next. -/
def finishedReader : StateReader where
  stateAt d threadId checkpointId :=
    match (checkpointId.or (rootIds threadId d).max?).bind fun id =>
      d.checkpoints.get? (threadId, "", id) with
    | none => {}
    | some c => { values := c.checkpoint.get? "channel_values" }
  congr := by
    intro d d' threadId h
    have hget : ∀ id, d.checkpoints.get? (threadId, "", id) = d'.checkpoints.get? (threadId, "", id) := by
      intro id
      refine Option.ext fun c => ?_
      rw [Table.get?_eq_some, Table.get?_eq_some]
      refine and_congr_left fun hkey => h.mem_checkpoints ?_
      exact congrArg Prod.fst hkey
    funext checkpointId
    rw [rootIds_congr h]
    simp only [hget]

/-- A thread is created, and a run of it saves a checkpoint and ends. -/
def endedThread (ended : RunEnd) : List Operation :=
  let call : CreateCall := { threadId := some 10, payload := { assistantId := 1 }, env := ⟨0, 100, 50⟩ }
  let assistant : Assistant := { assistantId := 1, graphId := "agent" }
  let thread := newThread 10 (.obj []) 0
  [ .createThread 10 (.obj []) 0,
    .createRun call,
    .claim 1 5 id,
    .endRun (setRunning 5 (insertRun call.params thread assistant))
      [.checkpoint { threadId := 10, checkpointId := 1, checkpoint := .obj [("channel_values", .obj [("step", .num 1)])] }]
      { ended, checkpoint := some { values := some (.obj [("step", .num 1)]) } } 6 ]

/-- An update of the state of that thread. -/
def finishedUpdate : Operation := .updateState {
  threadId := 10
  saved := [.checkpoint { threadId := 10, checkpointId := 2, checkpoint := .obj [("channel_values", .obj [("step", .num 2)])] }]
  now := 7 }

/-- A store with one assistant. -/
def newThreadStore : ThreadStore := { db := oneAssistant }

theorem mirrored_of_reachable_witness :
    ∃ s, (operations finishedReader).Reachable (Reported finishedReader) s ∧ Mirrored finishedReader s ∧
      s.db.thread.rows.map (fun t => (t.status, t.values)) = [(.idle, some (.obj [("step", .num 2)]))] ∧
        (s.trail 10).standing = .current := by
  obtain ⟨s, hs, hp⟩ := (operations finishedReader).exists_reachable (Reported finishedReader)
    (show (operations finishedReader).init newThreadStore from ⟨⟨_, rfl⟩, rfl⟩)
    (endedThread .success ++ [finishedUpdate])
    (fun s => s.db.thread.rows.map (fun t => (t.status, t.values)) =
      [(.idle, some (.obj [("step", .num 2)]))] ∧ (s.trail 10).standing = .current) (by decide +kernel)
  exact ⟨s, hs, mirrored_of_reachable hs, of_decide_eq_true hp⟩

/-- A run times out, and an update of the state clears its error. -/
theorem not_mirrorsLatest : ¬ ∀ reader s,
    (operations reader).Reachable (Reported reader) s → MirrorsLatest reader s := by
  intro h
  obtain ⟨s, hs, hp⟩ := (operations finishedReader).exists_reachable (Reported finishedReader)
    (show (operations finishedReader).init newThreadStore from ⟨⟨_, rfl⟩, rfl⟩)
    (endedThread (.timeout ⟨"TimeoutError", ""⟩) ++ [finishedUpdate])
    (fun s => ¬ MirrorsLatest finishedReader s) (by decide +kernel)
  exact of_decide_eq_true hp (h _ s hs)

end NextRole
