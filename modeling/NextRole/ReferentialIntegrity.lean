import NextRole.Runtime.Ingestion
import NextRole.Servicers.Assistants
import NextRole.Servicers.Crons
import NextRole.ThreadCopy

/-!
# Referential integrity

The run and checkpoint tables carry no foreign keys: the services delete the rows of a
thread with the thread, table by table.  All calls do, but for the deletion of an
assistant with its threads, which removes the rows of `thread` alone and asks no filter.

## Main definitions

* `Integrity` — every row that names a thread names one that exists.
* `BackendCall`, `Backend.execute` — the calls that create and delete rows, and saves.
* `BackendCall.onlyAdmitted` — a call deletes no thread that its filters hide.
* `BackendCall.keepsRows` — a call deletes no thread with rows left, and none that is hidden.

## Main results

* `Integrity.execute` — the calls on threads and runs keep the integrity.
* `integrity_execute_iff` — **a call keeps it, and is allowed, iff it deletes unused
  threads of the caller only**.
* `integrity_backendAfter_iff` — **so does a run iff all its calls do**.
* `not_integrity` — the deletion of an assistant leaves a run without its thread.
-/

namespace NextRole

open ReadCommitted

/-! ### Statement -/

/-- Every row that names a thread names one that exists. -/
structure Integrity (d : Database) : Prop where
  run : ∀ r ∈ d.run, ∃ t ∈ d.thread, t.threadId = r.threadId
  checkpoints : ∀ c ∈ d.checkpoints, ∃ t ∈ d.thread, t.threadId = c.threadId
  checkpointBlobs : ∀ b ∈ d.checkpointBlobs, ∃ t ∈ d.thread, t.threadId = b.threadId
  checkpointWrites : ∀ w ∈ d.checkpointWrites, ∃ t ∈ d.thread, t.threadId = w.threadId
  cron : ∀ c ∈ d.cron, ∀ k, c.threadId = some k → ∃ t ∈ d.thread, t.threadId = k

/-- What a deployment fixes: its registered graphs and its reading of schedules. -/
structure Deployment where
  graphs : Option (List String)
  croniter : String → Timestamp → Option Timestamp

/-- A call of a service, or a save. -/
inductive BackendCall
  | service (rpc : Rpc)
  | assistants (call : AssistantCall)
  | deleteAssistant (request : DeleteAssistantRequest)
  | createCron (request : CreateCronRequest) (freshId : Uuid) (now : Timestamp)
  | deleteCron (cronId : Uuid) (filters : List AuthFilter)
  | save (item : QueueItem)

/-- The store after a call. -/
def Backend.execute (deployment : Deployment) (s : Backend) : BackendCall → Backend
  | .service rpc => { s with db := NextRole.execute rpc s.database }
  | .assistants call => { s with assistants := s.assistants.execute deployment.graphs call }
  | .deleteAssistant request => (Assistants.delete request s).2
  | .createCron request freshId now =>
    match createCron deployment.croniter request freshId now s.database with
    | .ok (_, d) => { s with db := d }
    | .error _ => s
  | .deleteCron cronId filters => { s with db := deleteCron cronId filters s.db }
  | .save item => { s with db := ingest s.db item }

/-- The store without rows. -/
def Backend.empty : Backend := ⟨Database.fresh .empty, {}⟩

/-- The store after some calls, from an empty one. -/
def backendAfter (deployment : Deployment) (calls : List BackendCall) : Backend :=
  calls.foldl (Backend.execute deployment) Backend.empty

/-- The threads that a deletion of an assistant removes are admitted by its filters. -/
def BackendCall.onlyAdmitted (deployment : Deployment) (s : Backend) : BackendCall → Prop
  | .deleteAssistant request => ∀ t ∈ s.db.thread,
      t ∉ (s.execute deployment (.deleteAssistant request)).db.thread →
        admits request.filters t.metadata = true
  | _ => True

/-- No run, checkpoint, blob or write names the thread. -/
structure NoRowsOf (threadId : Uuid) (d : Database) : Prop where
  run : ∀ r ∈ d.run, r.threadId ≠ threadId
  checkpoints : ∀ c ∈ d.checkpoints, c.threadId ≠ threadId
  checkpointBlobs : ∀ b ∈ d.checkpointBlobs, b.threadId ≠ threadId
  checkpointWrites : ∀ w ∈ d.checkpointWrites, w.threadId ≠ threadId

/-- The threads of an assistant that are to be deleted with it are admitted by the filters
and have no rows; a row is saved for a thread that exists. -/
def BackendCall.keepsRows (s : Backend) : BackendCall → Prop
  | .deleteAssistant request => request.deleteThreads = true → ∀ t ∈ s.db.thread,
      t.ofAssistant request.assistantId = true →
        admits request.filters t.metadata = true ∧ NoRowsOf t.threadId s.db
  | .save item => ∃ t ∈ s.db.thread, t.threadId = item.threadId
  | _ => True

/-! ### The calls on threads and runs -/

section

variable {d : Database}

/-- A thread that is left has the rows that were its own. -/
theorem WithoutThread.integrity {threadId : Uuid} {d' : Database} (h : WithoutThread threadId d d')
    (hd : Integrity d) : Integrity d' := by
  have hkept : ∀ {k : Uuid}, k ≠ threadId → (∃ t ∈ d.thread, t.threadId = k) →
      ∃ t ∈ d'.thread, t.threadId = k := by
    rintro k hne ⟨t, ht, hid⟩
    exact ⟨t, (h.thread t).mpr ⟨ht, hid ▸ hne⟩, hid⟩
  constructor
  case run =>
    intro r hr
    obtain ⟨hold, hne⟩ := (h.run r).mp hr
    exact hkept hne (hd.run r hold)
  case checkpoints =>
    intro c hc
    obtain ⟨hold, hne⟩ := (h.checkpoints c).mp hc
    exact hkept hne (hd.checkpoints c hold)
  case checkpointBlobs =>
    intro b hb
    obtain ⟨hold, hne⟩ := (h.checkpointBlobs b).mp hb
    exact hkept hne (hd.checkpointBlobs b hold)
  case checkpointWrites =>
    intro w hw
    obtain ⟨hold, hne⟩ := (h.checkpointWrites w).mp hw
    exact hkept hne (hd.checkpointWrites w hold)
  case cron =>
    intro c hc k hk
    obtain ⟨hold, hne⟩ := (h.cron c).mp hc
    exact hkept (fun heq => hne (heq ▸ hk)) (hd.cron c hold k hk)

/-- **The calls on threads and runs keep the integrity.** -/
theorem Integrity.execute (h : Integrity d) (rpc : Rpc) : Integrity (NextRole.execute rpc d) := by
  by_cases hdelete : ∀ threadId filters, rpc ≠ .deleteThread threadId filters
  · constructor
    case run => exact HasThreads.execute hdelete h.run
    case checkpoints =>
      intro c hc
      exact exists_thread_of_checkpointRow hdelete (x := .checkpoint c) rfl
        (fun hold => h.checkpoints c (mem_checkpoints_iff_row.mpr hold))
        (mem_checkpoints_iff_row.mp hc)
    case checkpointBlobs =>
      intro b hb
      exact exists_thread_of_checkpointRow hdelete (x := .blob b) rfl
        (fun hold => h.checkpointBlobs b (mem_checkpointBlobs_iff_row.mpr hold))
        (mem_checkpointBlobs_iff_row.mp hb)
    case checkpointWrites =>
      intro w hw
      exact exists_thread_of_checkpointRow hdelete (x := .write w) rfl
        (fun hold => h.checkpointWrites w (mem_checkpointWrites_iff_row.mpr hold))
        (mem_checkpointWrites_iff_row.mp hw)
    case cron =>
      intro c hc k hk
      exact exists_thread_execute hdelete (h.cron c (cron_of_execute hc) k hk)
  · simp only [ne_eq, not_forall, not_not] at hdelete
    obtain ⟨threadId, filters, rfl⟩ := hdelete
    rcases execute_deleteThread threadId filters d with hsame | hwithout
    · rw [hsame]
      exact h
    · exact hwithout.integrity h

/-! ### Saves -/

/-- A row that is saved is there, or another one under its key. -/
theorem exists_row_ingest (d : Database) (item : QueueItem) :
    (∃ c ∈ (ingest d item).checkpoints, c.threadId = item.threadId) ∨
      (∃ b ∈ (ingest d item).checkpointBlobs, b.threadId = item.threadId) ∨
      ∃ w ∈ (ingest d item).checkpointWrites, w.threadId = item.threadId := by
  cases item with
  | put c =>
    left
    obtain ⟨c', hc', hkey⟩ := Table.exists_mem_insertNew d.checkpoints c
    exact ⟨c', hc', congrArg Prod.fst hkey⟩
  | blob b =>
    right; left
    obtain ⟨b', hb', hkey⟩ := Table.exists_mem_insertNew d.checkpointBlobs b
    exact ⟨b', hb', congrArg Prod.fst hkey⟩
  | write w =>
    right; right
    cases hup : upsertedWrite d w with
    | some w' =>
      refine ⟨w', ?_, congrArg Prod.fst (key_upsertedWrite hup)⟩
      simp only [ingest, hup, Option.elim_some]
      exact Table.mem_put.mpr (Or.inl rfl)
    | none =>
      -- an upsert fails only where there is a row
      unfold upsertedWrite at hup
      cases hget : d.checkpointWrites.get? (Keyed.key w) with
      | none => simp [hget] at hup
      | some w₀ =>
        obtain ⟨hmem, hkey⟩ := Table.get?_eq_some.mp hget
        refine ⟨w₀, ?_, congrArg Prod.fst hkey⟩
        simp only [ingest, upsertedWrite, hget] at hup ⊢
        rw [hup]
        exact hmem

theorem integrity_ingest_iff (h : Integrity d) (item : QueueItem) :
    Integrity (ingest d item) ↔ ∃ t ∈ d.thread, t.threadId = item.threadId := by
  have hthread : (ingest d item).thread = d.thread := by cases item <;> rfl
  constructor
  · intro hafter
    rw [← hthread]
    rcases exists_row_ingest d item with ⟨c, hc, hid⟩ | ⟨b, hb, hid⟩ | ⟨w, hw, hid⟩
    · exact hid ▸ hafter.checkpoints c hc
    · exact hid ▸ hafter.checkpointBlobs b hb
    · exact hid ▸ hafter.checkpointWrites w hw
  · intro hitem
    cases item with
    | put c =>
      refine ⟨h.run, fun c' hc' => ?_, h.checkpointBlobs, h.checkpointWrites, h.cron⟩
      rcases Table.mem_insertNew.mp hc' with hold | ⟨rfl, -⟩
      · exact h.checkpoints c' hold
      · exact hitem
    | blob b =>
      refine ⟨h.run, h.checkpoints, fun b' hb' => ?_, h.checkpointWrites, h.cron⟩
      rcases Table.mem_insertNew.mp hb' with hold | ⟨rfl, -⟩
      · exact h.checkpointBlobs b' hold
      · exact hitem
    | write w =>
      refine ⟨h.run, h.checkpoints, h.checkpointBlobs, fun w' hw' => ?_, h.cron⟩
      cases hup : upsertedWrite d w with
      | none =>
        simp only [ingest, hup, Option.elim_none] at hw'
        exact h.checkpointWrites w' hw'
      | some w₁ =>
        simp only [ingest, hup, Option.elim_some] at hw'
        rcases Table.mem_put.mp hw' with rfl | ⟨hold, -⟩
        · have hid : w'.threadId = w.threadId := congrArg Prod.fst (key_upsertedWrite hup)
          exact hid ▸ hitem
        · exact h.checkpointWrites w' hold

/-! ### Deletions of assistants -/

/-- The second database is the first one without the threads of a kind and the crons that
name them; their other rows are left. -/
structure WithoutThreads (p : Thread → Bool) (d d' : Database) : Prop where
  thread : ∀ t, t ∈ d'.thread ↔ t ∈ d.thread ∧ p t = false
  run : d'.run = d.run
  checkpoints : d'.checkpoints = d.checkpoints
  checkpointBlobs : d'.checkpointBlobs = d.checkpointBlobs
  checkpointWrites : d'.checkpointWrites = d.checkpointWrites
  cron : ∀ c ∈ d'.cron, c ∈ d.cron ∧ ∀ t ∈ d.thread, c.threadId = some t.threadId → p t = false

theorem withoutThreads_none {d' : Database} (hthread : d'.thread = d.thread) (hrun : d'.run = d.run)
    (hcheckpoints : d'.checkpoints = d.checkpoints) (hblobs : d'.checkpointBlobs = d.checkpointBlobs)
    (hwrites : d'.checkpointWrites = d.checkpointWrites) (hcron : ∀ c ∈ d'.cron, c ∈ d.cron) :
    WithoutThreads (fun _ => false) d d' :=
  ⟨fun t => by rw [hthread, and_iff_left rfl], hrun, hcheckpoints, hblobs, hwrites,
    fun c hc => ⟨hcron c hc, fun _ _ _ => rfl⟩⟩

theorem withoutThreads_deleteThreadsWhere (p : Thread → Bool) (d : Database) :
    WithoutThreads p d (deleteThreadsWhere p d) := by
  refine ⟨fun t => Table.mem_deleteWhere, rfl, rfl, rfl, rfl, fun c hc => ?_⟩
  obtain ⟨hmem, hany⟩ := Table.mem_deleteWhere.mp hc
  refine ⟨hmem, fun t ht hid => ?_⟩
  have hget : d.thread.get? t.threadId = some t := Table.get?_eq_some.mpr ⟨ht, rfl⟩
  simpa only [hid, hget, Option.any_some] using hany

/-- Deleting threads keeps the integrity iff none of them has a row left. -/
theorem WithoutThreads.integrity_iff {p : Thread → Bool} {d' : Database} (h : WithoutThreads p d d')
    (hd : Integrity d) : Integrity d' ↔ ∀ t ∈ d.thread, p t = true → NoRowsOf t.threadId d := by
  constructor
  · intro hafter t ht hp
    -- a thread that is deleted is the only one of its id
    have hgone : ∀ {k : Uuid}, (∃ t' ∈ d'.thread, t'.threadId = k) → k ≠ t.threadId := by
      rintro k ⟨t', ht', hid⟩ rfl
      obtain ⟨hmem, hp'⟩ := (h.thread t').mp ht'
      rw [Table.eq_of_key hmem ht hid, hp] at hp'
      cases hp'
    exact ⟨fun r hr => hgone (hafter.run r (h.run ▸ hr)),
      fun c hc => hgone (hafter.checkpoints c (h.checkpoints ▸ hc)),
      fun b hb => hgone (hafter.checkpointBlobs b (h.checkpointBlobs ▸ hb)),
      fun w hw => hgone (hafter.checkpointWrites w (h.checkpointWrites ▸ hw))⟩
  · intro hunused
    have hkept : ∀ {k : Uuid}, (∃ t ∈ d.thread, t.threadId = k) →
        (∀ t ∈ d.thread, t.threadId = k → p t = false) → ∃ t ∈ d'.thread, t.threadId = k := by
      rintro k ⟨t, ht, hid⟩ hp
      exact ⟨t, (h.thread t).mpr ⟨ht, hp t ht hid⟩, hid⟩
    constructor
    case run =>
      intro r hr
      rw [h.run] at hr
      refine hkept (hd.run r hr) fun t ht hid => Bool.eq_false_iff.mpr fun hp => ?_
      exact (hunused t ht hp).run r hr hid.symm
    case checkpoints =>
      intro c hc
      rw [h.checkpoints] at hc
      refine hkept (hd.checkpoints c hc) fun t ht hid => Bool.eq_false_iff.mpr fun hp => ?_
      exact (hunused t ht hp).checkpoints c hc hid.symm
    case checkpointBlobs =>
      intro b hb
      rw [h.checkpointBlobs] at hb
      refine hkept (hd.checkpointBlobs b hb) fun t ht hid => Bool.eq_false_iff.mpr fun hp => ?_
      exact (hunused t ht hp).checkpointBlobs b hb hid.symm
    case checkpointWrites =>
      intro w hw
      rw [h.checkpointWrites] at hw
      refine hkept (hd.checkpointWrites w hw) fun t ht hid => Bool.eq_false_iff.mpr fun hp => ?_
      exact (hunused t ht hp).checkpointWrites w hw hid.symm
    case cron =>
      intro c hc k hk
      obtain ⟨hmem, hother⟩ := h.cron c hc
      exact hkept (hd.cron c hmem k hk) fun t ht hid => hother t ht (hid ▸ hk)

end

/-! ### One call -/

/-- The deletion of an assistant removes the threads of it, if it is asked to. -/
theorem withoutThreads_delete (request : DeleteAssistantRequest) (s : Backend) :
    WithoutThreads (fun t => request.deleteThreads && t.ofAssistant request.assistantId) s.db
      (Assistants.delete request s).2.db := by
  have hrow : ∀ (p : Thread → Bool) (s₁ : Backend), WithoutThreads p s.db s₁.db →
      WithoutThreads p s.db (deleteAssistantRow request.assistantId s₁).db := by
    intro p s₁ h
    refine ⟨h.thread, h.run, h.checkpoints, h.checkpointBlobs, h.checkpointWrites, fun c hc => ?_⟩
    exact h.cron c (Table.mem_deleteWhere.mp hc).1
  have hthreads : WithoutThreads
      (fun t => request.deleteThreads && t.ofAssistant request.assistantId) s.db
      (if request.deleteThreads then
        { s with db := deleteThreadsWhere (Thread.ofAssistant request.assistantId) s.db }
        else s).db := by
    cases request.deleteThreads with
    | true => exact withoutThreads_deleteThreadsWhere _ _
    | false => exact withoutThreads_none rfl rfl rfl rfl rfl fun _ hc => hc
  simp only [Assistants.delete]
  split
  · exact hthreads
  · exact hrow _ _ hthreads

section

variable {deployment : Deployment} {s : Backend}

theorem integrity_createCron (h : Integrity s.db) (request : CreateCronRequest) (freshId : Uuid)
    (now : Timestamp) : Integrity (s.execute deployment (.createCron request freshId now)).db := by
  simp only [Backend.execute]
  split
  · next c d heq =>
    obtain ⟨rfl, hthread⟩ := createCron_ok heq
    refine ⟨h.run, h.checkpoints, h.checkpointBlobs, h.checkpointWrites, fun c' hc' k hk => ?_⟩
    rcases Table.mem_put.mp hc' with rfl | ⟨hold, -⟩
    · exact hthread k hk
    · exact h.cron c' hold k hk
  · exact h

/-- **A call keeps the integrity and removes only threads that its filters admit iff the
threads that it removes have no rows and are admitted.** -/
theorem integrity_execute_iff (h : Integrity s.db) (call : BackendCall) :
    Integrity (s.execute deployment call).db ∧ call.onlyAdmitted deployment s ↔ call.keepsRows s := by
  cases call with
  | service rpc =>
    have hdatabase : Integrity s.database := ⟨h.1, h.2, h.3, h.4, h.5⟩
    exact iff_of_true ⟨hdatabase.execute rpc, trivial⟩ trivial
  | assistants call => exact iff_of_true ⟨h, trivial⟩ trivial
  | createCron request freshId now =>
    exact iff_of_true ⟨integrity_createCron h request freshId now, trivial⟩ trivial
  | deleteCron cronId filters =>
    have hcrons : Integrity (deleteCron cronId filters s.db) :=
      ⟨h.run, h.checkpoints, h.checkpointBlobs, h.checkpointWrites,
        fun c hc => h.cron c (Table.mem_deleteWhere.mp hc).1⟩
    exact iff_of_true ⟨hcrons, trivial⟩ trivial
  | save item => exact (and_iff_left trivial).trans (integrity_ingest_iff h item)
  | deleteAssistant request =>
    have hwithout := withoutThreads_delete request s
    have hadmitted : (BackendCall.deleteAssistant request).onlyAdmitted deployment s ↔
        ∀ t ∈ s.db.thread, (request.deleteThreads && t.ofAssistant request.assistantId) = true →
          admits request.filters t.metadata = true := by
      refine forall₂_congr fun t ht => ?_
      have hmem : t ∈ (s.execute deployment (.deleteAssistant request)).db.thread ↔ _ :=
        hwithout.thread t
      rw [hmem, and_iff_right ht, Bool.not_eq_false]
    rw [hadmitted]
    refine (and_congr_left fun _ => hwithout.integrity_iff h).trans ?_
    simp only [BackendCall.keepsRows, Bool.and_eq_true]
    constructor
    · rintro ⟨hrows, hadm⟩ hdelete t ht hof
      exact ⟨hadm t ht ⟨hdelete, hof⟩, hrows t ht ⟨hdelete, hof⟩⟩
    · intro hkeeps
      exact ⟨fun t ht hp => (hkeeps hp.1 t ht hp.2).2, fun t ht hp => (hkeeps hp.1 t ht hp.2).1⟩

end

/-! ### Runs -/

theorem integrity_empty : Integrity Backend.empty.db :=
  ⟨fun _ h => absurd h (Table.not_mem_empty _), fun _ h => absurd h (Table.not_mem_empty _),
    fun _ h => absurd h (Table.not_mem_empty _), fun _ h => absurd h (Table.not_mem_empty _),
    fun _ h => absurd h (Table.not_mem_empty _)⟩

/-- **In a run from an empty store every row has its thread, and no deletion of an assistant
removes a thread that its filters hide, iff all threads that are deleted with an assistant
have no rows and are admitted, and rows are saved for existing threads.** -/
theorem integrity_backendAfter_iff (deployment : Deployment) (calls : List BackendCall) :
    ((∀ pre, pre <+: calls → Integrity (backendAfter deployment pre).db) ∧
        ∀ pre call, pre ++ [call] <+: calls →
          call.onlyAdmitted deployment (backendAfter deployment pre)) ↔
      ∀ pre call, pre ++ [call] <+: calls → call.keepsRows (backendAfter deployment pre) :=
  forall_prefix_iff (Backend.execute deployment) (B := fun _ => True)
    (P := fun s => Integrity s.db) (Q := fun s call => call.onlyAdmitted deployment s)
    (C := fun s call => call.keepsRows s) trivial integrity_empty (fun _ _ _ => trivial)
    (fun _ call _ h => integrity_execute_iff h call) calls

/-- An assistant with a run on a thread, which is deleted with its threads. -/
def deletedAssistant : List BackendCall :=
  [.assistants (.create { assistantId := 1, graphId := "agent" } 0), .service (createOn 7),
    .deleteAssistant { assistantId := 1, deleteThreads := true }]

/-- **The thread is gone, and its run is left.** -/
theorem not_integrity :
    ¬ Integrity (backendAfter ⟨none, fun _ now => some now⟩ deletedAssistant).db := by
  intro h
  have horphan : ∃ r ∈ (backendAfter ⟨none, fun _ now => some now⟩ deletedAssistant).db.run,
      ¬ ∃ t ∈ (backendAfter ⟨none, fun _ now => some now⟩ deletedAssistant).db.thread,
        t.threadId = r.threadId := by
    decide +kernel
  obtain ⟨r, hr, hnone⟩ := horphan
  exact hnone (h.run r hr)

end NextRole
