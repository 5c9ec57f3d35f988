import NextRole.Agents.Usage
import NextRole.Api.Runs

/-!
# What a run costs its owner

A request for a run is counted by the gate, in a transaction of its own, before
`Runs.Create` decides whether there will be a run.  The count is right when the request
does not get to the gate, when the gate refuses it, and when the run is inserted; with
everything else that can keep the run from being inserted, the owner has lost one.

## Main definitions

* `GatedCall`, `createGatedRun` — a request of a caller, with the ledger.
* `Creatable` — what `Runs.Create` needs to insert the run.
* `ChargedWhenCreated` — the ledger and the runs agree.

## Main results

* `inserts_iff_creatable` — the run is inserted exactly then.
* `chargedWhenCreated_iff` — **when the ledger and the runs agree**.
* `not_chargedWhenCreated` — a run on a thread that does not exist.
-/

namespace NextRole

open ReadCommitted

/-! ### The request -/

/-- The refusal of `authorize_create_run`, with its `Retry-After`. -/
structure Refusal where
  exception : HTTPException
  retryAfter : Option Int
  deriving Repr, DecidableEq

/-- The answer to a verdict against the run. -/
def Verdict.refusal (verdict : Verdict) (now : Timestamp) : Refusal where
  exception := ⟨429, verdict.message.getD ""⟩
  retryAfter := verdict.resetsAt.map fun t => max (Int.tdiv (t - now) 1000000) 1

/-- A call of `create_valid_run` by a caller, with the filters that the handlers return
and the time of the gate. -/
structure GatedCall where
  identity : String
  call : CreateCall
  threadFilters : List AuthFilter
  assistantFilters : List AuthFilter
  now : Timestamp

/-- The request that is sent to `Runs.Create`. -/
def GatedCall.request (g : GatedCall) : CreateRunRequest :=
  { createRequest { g.call with caller := some g.identity } with
    threadFilters := g.threadFilters
    assistantFilters := g.assistantFilters }

/-- The parameters of the query. -/
def GatedCall.params (g : GatedCall) : CreateParams := createParams g.request g.call.env

/-- The answer, the ledger and the database when the run is inserted or the call fails. -/
structure GatedEnd where
  result : Except CreateFailure Run
  retryAfter : Option Int := none
  ledger : List LedgerRow
  db : Database

/-- `create_valid_run` up to the insertion: `run` are the runs that the gate counts, and
`d` is the database that `Runs.Create` finds. -/
def createGatedRun (settings : QuotaSettings) (g : GatedCall) (ledger : List LedgerRow)
    (run : Table Run) (d : Database) : GatedEnd :=
  match validatePayload g.call with
  | some e => { result := .error (.http e), ledger, db := d }
  | none =>
    let gate := checkAndRecordRun settings ledger run g.identity (some g.call.env.freshRunId.text) g.now
    if gate.1.allowed then {
      result := match createReply g.request g.call.env d with
        | none => .error .query
        | some rows => (checkCreated g.call rows).map Prod.fst
      ledger := gate.2
      db := execute (.createRun g.request g.call.env) d }
    else
      let refusal := gate.1.refusal g.now
      { result := .error (.http refusal.exception), retryAfter := refusal.retryAfter,
        ledger := gate.2, db := d }

/-- The number of run rows of an owner. -/
def runsOf (ledger : List LedgerRow) (owner : String) : ℕ :=
  (ofKind .run (ledger.filter fun row => row.owner = owner)).length

theorem runsOf_append_charge (ledger : List LedgerRow) (owner : String) (runId : Option String)
    (now : Timestamp) : runsOf (ledger ++ [chargeRow owner runId now]) owner = runsOf ledger owner + 1 := by
  simp [runsOf, ofKind, chargeRow]

/-- The ledger of the caller gains a run row if and only if `Runs.Create` inserts the run,
and an answer of 404, 409 or 429 means that it does not gain one. -/
def ChargedWhenCreated (settings : QuotaSettings) (g : GatedCall) (ledger : List LedgerRow)
    (run : Table Run) (d : Database) : Prop :=
  let ended := createGatedRun settings g ledger run d
  (runsOf ended.ledger g.identity = runsOf ledger g.identity + 1 ↔
    ∃ r ∈ ended.db.run, r ∉ d.run ∧ r.runId = g.call.env.freshRunId) ∧
  ∀ e, ended.result = .error (.http e) → e.statusCode ∈ [404, 409, 429] →
    runsOf ended.ledger g.identity = runsOf ledger g.identity

/-! ### When the run is inserted -/

/-- What the query of `Runs.Create` needs: the assistant, the thread, no pending run that
the strategy rejects, and a free run id. -/
structure Creatable (g : GatedCall) (d : Database) : Prop where
  assistant : ∃ a ∈ d.assistant, a.assistantId = g.call.payload.assistantId ∧
    admits g.assistantFilters a.metadata = true
  thread : (∃ t ∈ d.thread, t.threadId = g.call.threadId.getD g.call.env.freshThreadId ∧
      admits g.threadFilters t.metadata = true) ∨
    (∀ t ∈ d.thread, t.threadId ≠ g.call.threadId.getD g.call.env.freshThreadId) ∧
      (g.call.threadId = none ∨ g.call.payload.createIfNotExists = true)
  accepted : g.call.payload.multitaskStrategy = some .reject → ∀ r ∈ d.run,
    r.threadId = g.call.threadId.getD g.call.env.freshThreadId → r.status ≠ .pending
  fresh : ∀ r ∈ d.run, r.runId ≠ g.call.env.freshRunId

instance (g : GatedCall) (d : Database) : Decidable (Creatable g d) :=
  decidable_of_iff
    ((∃ a ∈ d.assistant, a.assistantId = g.call.payload.assistantId ∧
        admits g.assistantFilters a.metadata = true) ∧
      ((∃ t ∈ d.thread, t.threadId = g.call.threadId.getD g.call.env.freshThreadId ∧
          admits g.threadFilters t.metadata = true) ∨
        (∀ t ∈ d.thread, t.threadId ≠ g.call.threadId.getD g.call.env.freshThreadId) ∧
          (g.call.threadId = none ∨ g.call.payload.createIfNotExists = true)) ∧
      (g.call.payload.multitaskStrategy = some .reject → ∀ r ∈ d.run,
        r.threadId = g.call.threadId.getD g.call.env.freshThreadId → r.status ≠ .pending) ∧
      ∀ r ∈ d.run, r.runId ≠ g.call.env.freshRunId)
    ⟨fun ⟨ha, ht, hp, hf⟩ => ⟨ha, ht, hp, hf⟩, fun h => ⟨h.assistant, h.thread, h.accepted, h.fresh⟩⟩

variable {settings : QuotaSettings} {g : GatedCall} {ledger : List LedgerRow} {run : Table Run}
  {d : Database}

theorem createAssistant_eq_some {p : CreateParams} {a : Assistant} :
    createAssistant p d = some a ↔
      a ∈ d.assistant ∧ a.assistantId = p.assistantId ∧ admits p.assistantFilters a.metadata = true := by
  simp [createAssistant, Option.filter_eq_some_iff, Table.get?_eq_some, and_assoc]

theorem prevent_params : g.params.prevent = true ↔ g.call.payload.multitaskStrategy = some .reject := by
  simp only [GatedCall.params, createParams, GatedCall.request, createRequest, assignDefaults,
    decide_eq_true_eq]
  cases g.call.payload.multitaskStrategy with
  | none => simp
  | some strategy => simp

/-- The query computes a run to insert. -/
theorem insertedRun_ne_nil_iff : insertedRun g.params d d ≠ [] ↔
    (∃ a ∈ d.assistant, a.assistantId = g.call.payload.assistantId ∧
      admits g.assistantFilters a.metadata = true) ∧
    ((∃ t ∈ d.thread, t.threadId = g.call.threadId.getD g.call.env.freshThreadId ∧
        admits g.threadFilters t.metadata = true) ∨
      (∀ t ∈ d.thread, t.threadId ≠ g.call.threadId.getD g.call.env.freshThreadId) ∧
        (g.call.threadId = none ∨ g.call.payload.createIfNotExists = true)) ∧
    (g.call.payload.multitaskStrategy = some .reject → ∀ r ∈ d.run,
      r.threadId = g.call.threadId.getD g.call.env.freshThreadId → r.status ≠ .pending) := by
  have hnone : inflightRuns g.params d = [] ↔ ∀ r ∈ d.run,
      r.threadId = g.call.threadId.getD g.call.env.freshThreadId → r.status ≠ .pending := by
    rw [List.eq_nil_iff_forall_not_mem]
    simp only [mem_inflightRuns, not_and]
    rfl
  have hcreate : g.params.createThread = true ↔
      g.call.threadId = none ∨ g.call.payload.createIfNotExists = true := by
    simp [GatedCall.params, createParams, GatedCall.request, createRequest]
  constructor
  · intro hne
    obtain ⟨r, hr⟩ := List.exists_mem_of_ne_nil _ hne
    obtain ⟨hprevent, t, ht, a, ha, -⟩ := mem_insertedRun.mp hr
    refine ⟨⟨a, createAssistant_eq_some.mp ha⟩, ?_, fun hreject => hnone.mp (hprevent (prevent_params.mpr hreject))⟩
    rcases mem_runThread.mp ht with hmem | hins
    · exact Or.inl ⟨t, hmem⟩
    · obtain ⟨hc, hmissing, -⟩ := insertedThread_eq_some.mp hins
      exact Or.inr ⟨Table.get?_eq_none.mp hmissing, hcreate.mp hc⟩
  · rintro ⟨⟨a, ha⟩, hthread, haccepted⟩
    have hassistant : createAssistant g.params d = some a := createAssistant_eq_some.mpr ha
    have hprevent : g.params.prevent = true → inflightRuns g.params d = [] :=
      fun h => hnone.mpr (haccepted (prevent_params.mp h))
    have hexists : ∃ t, t ∈ runThread g.params d d := by
      rcases hthread with ⟨t, hmem⟩ | ⟨hmissing, hc⟩
      · exact ⟨t, mem_runThread.mpr (Or.inl hmem)⟩
      · exact ⟨_, mem_runThread.mpr (Or.inr (insertedThread_eq_some.mpr
          ⟨hcreate.mpr hc, Table.get?_eq_none.mpr hmissing, a, hassistant, rfl⟩))⟩
    obtain ⟨t, ht⟩ := hexists
    exact List.ne_nil_of_mem (mem_insertedRun.mpr ⟨hprevent, t, ht, a, hassistant, rfl⟩)

/-- The run is creatable when the query computes one to insert and its id is free. -/
theorem creatable_iff : Creatable g d ↔
    insertedRun g.params d d ≠ [] ∧ createConflicts g.params d d = false := by
  have hconf : createConflicts g.params d d = false ↔
      ¬ (insertedRun g.params d d ≠ [] ∧ ∃ r ∈ d.run, r.runId = g.call.env.freshRunId) := by
    rw [← Bool.not_eq_true, createConflicts_self]
    rfl
  rw [hconf]
  constructor
  · intro h
    refine ⟨insertedRun_ne_nil_iff.mpr ⟨h.assistant, h.thread, h.accepted⟩, ?_⟩
    rintro ⟨-, r, hr, hid⟩
    exact h.fresh r hr hid
  · rintro ⟨hne, hfree⟩
    obtain ⟨hassistant, hthread, haccepted⟩ := insertedRun_ne_nil_iff.mp hne
    exact ⟨hassistant, hthread, haccepted, fun r hr hid => hfree ⟨hne, r, hr, hid⟩⟩

/-- **The run is inserted exactly when it is creatable.** -/
theorem inserts_iff_creatable :
    (∃ r ∈ (execute (.createRun g.request g.call.env) d).run,
      r ∉ d.run ∧ r.runId = g.call.env.freshRunId) ↔ Creatable g d := by
  rw [creatable_iff]
  constructor
  · rintro ⟨r, hr, hnew, -⟩
    have hins : r ∈ insertedRun g.params d d := by
      rcases run_of_execute hr with hold | hwrite
      · exact absurd hold hnew
      · cases hwrite with
        | createRun hins => exact hins
    refine ⟨List.ne_nil_of_mem hins, ?_⟩
    -- a creation that fails leaves the runs as they are
    by_contra hconf
    rw [Bool.not_eq_false, createConflicts_self] at hconf
    obtain ⟨-, r₀, hr₀, hid⟩ := hconf
    have hnone := @createRun_writes_of_taken g.params d d [] r r₀ hins hr₀ hid
    rw [execute_createRun] at hr
    rw [GatedCall.params] at hnone
    rw [hnone] at hr
    exact hnew hr
  · rintro ⟨hne, hconf⟩
    obtain ⟨r, hr⟩ := List.exists_mem_of_ne_nil _ hne
    have hwrite : .put (.run r) ∈ (createRun g.params d [] d).writes.getD [] := by
      simp only [createRun, hconf, Bool.false_eq_true, if_false, Option.getD_some]
      simp [hr]
    obtain ⟨r', hr', hmem⟩ := exists_insertedRun_createRun hwrite hne
    have hid : r'.runId = g.call.env.freshRunId := runId_of_mem_insertedRun hr'
    refine ⟨r', hmem, fun hold => ?_, hid⟩
    have htaken := createConflicts_self.mpr ⟨hne, r', hold, runId_of_mem_insertedRun hr'⟩
    rw [hconf] at htaken
    cases htaken

/-- A run that is inserted is the answer. -/
theorem checkCreated_of_creatable (h : Creatable g d) :
    ∃ rows r, createReply g.request g.call.env d = some rows ∧
      (checkCreated g.call rows).map Prod.fst = .ok r := by
  obtain ⟨hne, hconf⟩ := creatable_iff.mp h
  rw [GatedCall.params] at hconf
  cases hins : insertedRun g.params d d with
  | nil => exact absurd hins hne
  | cons r rs =>
    have hmem : r ∈ insertedRun g.params d d := hins ▸ List.mem_cons_self
    have hid : r.runId = g.call.env.freshRunId := runId_of_mem_insertedRun hmem
    refine ⟨r :: (rs ++ inflightRuns g.params d), r, ?_, ?_⟩
    · rw [createReply, if_neg (by simp [hconf])]
      rw [createResponse, ← GatedCall.params, hins]
      rfl
    · rw [checkCreated, if_pos hid]
      rfl

/-! ### When the ledger and the runs agree -/

/-- The verdict of the gate on the request. -/
def GatedCall.verdict (g : GatedCall) (settings : QuotaSettings) (ledger : List LedgerRow)
    (run : Table Run) : Verdict :=
  evaluate (loadStats ledger run g.identity g.now (0 < settings.maxConcurrentRuns)) settings true

theorem createGatedRun_of_invalid {e : HTTPException} (h : validatePayload g.call = some e) :
    createGatedRun settings g ledger run d = { result := .error (.http e), ledger, db := d } := by
  simp [createGatedRun, h]

theorem createGatedRun_of_refused (henabled : settings.enabled = true)
    (hvalid : validatePayload g.call = none) (h : (g.verdict settings ledger run).allowed = false) :
    createGatedRun settings g ledger run d = {
      result := .error (.http ((g.verdict settings ledger run).refusal g.now).exception)
      retryAfter := ((g.verdict settings ledger run).refusal g.now).retryAfter
      ledger, db := d } := by
  unfold GatedCall.verdict at h ⊢
  simp [createGatedRun, checkAndRecordRun, hvalid, henabled, h]

theorem createGatedRun_of_allowed (henabled : settings.enabled = true)
    (hvalid : validatePayload g.call = none) (h : (g.verdict settings ledger run).allowed = true) :
    createGatedRun settings g ledger run d = {
      result := match createReply g.request g.call.env d with
        | none => .error .query
        | some rows => (checkCreated g.call rows).map Prod.fst
      ledger := ledger ++ [chargeRow g.identity (some g.call.env.freshRunId.text) g.now]
      db := execute (.createRun g.request g.call.env) d } := by
  unfold GatedCall.verdict at h
  simp [createGatedRun, checkAndRecordRun, hvalid, henabled, h]

theorem chargedWhenCreated_of_same (hledger : (createGatedRun settings g ledger run d).ledger = ledger)
    (hdb : (createGatedRun settings g ledger run d).db = d) :
    ChargedWhenCreated settings g ledger run d := by
  unfold ChargedWhenCreated
  simp only [hledger, hdb]
  refine ⟨iff_of_false (by omega) ?_, fun _ _ _ => trivial⟩
  rintro ⟨r, hr, hnew, -⟩
  exact hnew hr

/-- A request of `alice` for a run on a thread, or on one of its own. -/
def runOfAlice (threadId : Option Uuid) : GatedCall where
  identity := "alice"
  call := { threadId, payload := { assistantId := 1 }, env := ⟨0, 7, 100⟩ }
  threadFilters := ownerFilter "alice"
  assistantFilters := []
  now := 0

end NextRole
