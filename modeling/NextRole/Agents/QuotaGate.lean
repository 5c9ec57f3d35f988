import NextRole.Agents.Usage
import NextRole.Api.Runs

/-!
# The gate of a new run, among other transactions

`check_and_record_run` of `agents/usage.py` statement by statement, next to others of
its kind, to the creation of the runs that it admits and to the calls on runs.  The
transaction takes an advisory lock on its owner and keeps it to its end; each of its
queries reads the rows that are committed by then, and what it inserts is committed
with it.

## Main definitions

* `CheckPhase`, `Check` — a transaction under way.
* `QuotaState`, `QuotaAction`, `quota` — the machine.
* `QuotaStep` — its steps as a relation.

## Main results

* `lockExclusive_of_reachable` — no two transactions hold one lock.
* `quota_alone` — with nothing next to it the transaction is `checkAndRecordRun`.
-/

namespace NextRole

/-- The last statement of the transaction that has finished.  The verdict in favour is
followed by the insertion of the row. -/
inductive CheckPhase
  | begun
  | locked
  | own (stats : UsageStats)
  | shared (stats : UsageStats)
  | counted (stats : UsageStats)
  | decided (verdict : Verdict)

/-- Whether the advisory lock is held. -/
def CheckPhase.holdsLock : CheckPhase → Bool
  | begun => false
  | _ => true

/-- Whether the row of the run is inserted. -/
def CheckPhase.inserted : CheckPhase → Bool
  | decided verdict => verdict.allowed
  | _ => false

/-- A transaction of `check_and_record_run`; `start` is its `now()`. -/
structure Check where
  id : ℕ
  owner : String
  runId : Option String
  start : Timestamp
  phase : CheckPhase := .begun

instance : Keyed Check ℕ := ⟨Check.id⟩

@[simp] theorem key_check (c : Check) : Keyed.key c = c.id := rfl

/-- The time, the committed rows, the open transactions, and the owners of the
creations that have passed the gate and not reached `Runs.Create` yet. -/
structure QuotaState where
  clock : Timestamp
  ledger : List LedgerRow
  db : Database
  checks : Table Check
  admitted : List String

inductive QuotaAction
  /-- The time becomes `now`. -/
  | tick (now : Timestamp)
  | begin (id : ℕ) (owner : String) (runId : Option String)
  /-- The next statement of a transaction. -/
  | proceed (id : ℕ)
  | commit (id : ℕ)
  | abort (id : ℕ)
  /-- `Runs.Create` for a creation that was admitted. -/
  | create (owner : String) (call : CreateCall)
  /-- An admitted creation ends before `Runs.Create`. -/
  | drop (owner : String)
  /-- Any other call. -/
  | service (rpc : Rpc)
  /-- `record_model_usage`. -/
  | meter (owner : String) (runId : Option String) (costUsd : ℚ)

/-- Claims, completions and removals of runs, and calls that are not about runs: none
creates a run or puts one in flight that has ended. -/
def Rpc.keepsEnded (rpc : Rpc) (d : Database) : Bool :=
  match rpc with
  | .createRun .. => false
  | .setJointStatus request _ => !request.runStatus.inflight
  | .setRunStatus runId status _ =>
    !status.inflight || (d.run.get? runId).all fun r => r.status.inflight
  | _ => true

section

variable (settings : QuotaSettings) (hashtext : String → ℤ)

/-- The key of the advisory lock. -/
def lockKey (owner : String) : ℤ := hashtext ("usage:" ++ owner)

/-- `pg_advisory_xact_lock` is granted when no other transaction holds the key. -/
def lockFree (s : QuotaState) (c : Check) : Bool :=
  s.checks.rows.all fun c' =>
    c'.id = c.id || !c'.phase.holdsLock || lockKey hashtext c'.owner ≠ lockKey hashtext c.owner

/-- The phase after the next statement. -/
def Check.next (s : QuotaState) (c : Check) : Option CheckPhase :=
  match c.phase with
  | .begun => if lockFree hashtext s c then some .locked else none
  | .locked => some (.own (ownStats s.ledger c.owner c.start))
  | .own stats => some (.shared (globalStats s.ledger c.start stats))
  | .shared stats => some (.counted { stats with
      activeRuns :=
        if 0 < settings.maxConcurrentRuns then activeRuns s.db.run c.owner c.start else 0 })
  | .counted stats => some (.decided (evaluate stats settings true))
  | .decided _ => none

/-- The state after the commit of a transaction with a verdict. -/
def QuotaState.commit (s : QuotaState) (c : Check) (verdict : Verdict) : QuotaState :=
  { s with
    checks := s.checks.erase c.id
    ledger := if verdict.allowed then s.ledger ++ [chargeRow c.owner c.runId c.start] else s.ledger
    admitted := if verdict.allowed then s.admitted ++ [c.owner] else s.admitted }

/-- The state after `Runs.Create` for an admitted creation. -/
def QuotaState.create (s : QuotaState) (owner : String) (call : CreateCall) : QuotaState :=
  { s with
    admitted := s.admitted.erase owner
    db := execute (.createRun (createRequest call) { call.env with now := s.clock }) s.db }

/-- The state after `record_model_usage`. -/
def QuotaState.meter (s : QuotaState) (owner : String) (runId : Option String) (costUsd : ℚ) :
    QuotaState :=
  { s with ledger := s.ledger ++ [⟨owner, .llm, runId, costUsd, s.clock⟩] }

def quotaStep (s : QuotaState) : QuotaAction → Option QuotaState
  | .tick now => some { s with clock := now }
  | .begin id owner runId =>
    -- with no limit set there is no transaction
    if !settings.enabled then some { s with admitted := s.admitted ++ [owner] }
    else if (s.checks.get? id).isSome then none
    else some { s with checks := s.checks.put ⟨id, owner, runId, s.clock, .begun⟩ }
  | .proceed id =>
    (s.checks.get? id).bind fun c => (c.next settings hashtext s).map fun phase =>
      { s with checks := s.checks.put { c with phase := phase } }
  | .commit id =>
    (s.checks.get? id).bind fun c =>
      match c.phase with
      | .decided verdict => some (s.commit c verdict)
      | _ => none
  | .abort id => some { s with checks := s.checks.erase id }
  | .create owner call =>
    if owner ∈ s.admitted ∧ call.caller = some owner then some (s.create owner call) else none
  | .drop owner =>
    if owner ∈ s.admitted then some { s with admitted := s.admitted.erase owner } else none
  | .service rpc => if rpc.keepsEnded s.db then some { s with db := execute rpc s.db } else none
  | .meter owner runId costUsd => some (s.meter owner runId costUsd)

/-- The machine, started with an empty ledger on a database that satisfies `init`. -/
def quota (init : Database → Prop) : Machine QuotaState QuotaAction where
  init s := s.ledger = [] ∧ s.checks = Table.empty ∧ s.admitted = [] ∧ init s.db
  step := quotaStep settings hashtext

/-- The steps as a relation. -/
inductive QuotaStep (s : QuotaState) : QuotaAction → QuotaState → Prop
  | tick {now} : QuotaStep s (.tick now) { s with clock := now }
  | pass {id owner runId} (h : settings.enabled = false) :
      QuotaStep s (.begin id owner runId) { s with admitted := s.admitted ++ [owner] }
  | begin {id owner runId} (h : s.checks.get? id = none) :
      QuotaStep s (.begin id owner runId)
        { s with checks := s.checks.put ⟨id, owner, runId, s.clock, .begun⟩ }
  | proceed {c phase} (hc : c ∈ s.checks) (h : c.next settings hashtext s = some phase) :
      QuotaStep s (.proceed c.id) { s with checks := s.checks.put { c with phase := phase } }
  | commit {c verdict} (hc : c ∈ s.checks) (h : c.phase = .decided verdict) :
      QuotaStep s (.commit c.id) (s.commit c verdict)
  | abort {id} : QuotaStep s (.abort id) { s with checks := s.checks.erase id }
  | create {owner call} (h : owner ∈ s.admitted) (hcaller : call.caller = some owner) :
      QuotaStep s (.create owner call) (s.create owner call)
  | drop {owner} (h : owner ∈ s.admitted) :
      QuotaStep s (.drop owner) { s with admitted := s.admitted.erase owner }
  | service {rpc} (h : rpc.keepsEnded s.db = true) :
      QuotaStep s (.service rpc) { s with db := execute rpc s.db }
  | meter {owner runId costUsd} :
      QuotaStep s (.meter owner runId costUsd) (s.meter owner runId costUsd)

end

variable {settings : QuotaSettings} {hashtext : String → ℤ}

theorem quotaStep_sound {s s' : QuotaState} {a : QuotaAction}
    (h : quotaStep settings hashtext s a = some s') : QuotaStep settings hashtext s a s' := by
  cases a with
  | tick now =>
    cases h
    exact .tick
  | begin id owner runId =>
    simp only [quotaStep] at h
    split at h
    · next hdis =>
      cases h
      exact .pass (by simpa using hdis)
    · split at h
      · cases h
      · next hid =>
        cases h
        exact .begin (by simpa using hid)
  | proceed id =>
    simp only [quotaStep, Option.bind_eq_some_iff, Option.map_eq_some_iff] at h
    obtain ⟨c, hget, phase, hphase, rfl⟩ := h
    obtain ⟨hc, rfl⟩ := Table.get?_eq_some.mp hget
    exact .proceed hc hphase
  | commit id =>
    simp only [quotaStep, Option.bind_eq_some_iff] at h
    obtain ⟨c, hget, h⟩ := h
    obtain ⟨hc, rfl⟩ := Table.get?_eq_some.mp hget
    split at h
    · next verdict hphase =>
      cases h
      exact .commit hc hphase
    · cases h
  | abort id =>
    cases h
    exact .abort
  | create owner call =>
    simp only [quotaStep] at h
    split at h
    · next hok =>
      cases h
      exact .create hok.1 hok.2
    · cases h
  | drop owner =>
    simp only [quotaStep] at h
    split at h
    · next hok =>
      cases h
      exact .drop hok
    · cases h
  | service rpc =>
    simp only [quotaStep] at h
    split at h
    · next hok =>
      cases h
      exact .service hok
    · cases h
  | meter owner runId costUsd =>
    cases h
    exact .meter

/-! ### The lock -/

/-- A transaction that goes on holds its lock already, or no other one does. -/
theorem lockFree_of_next {s : QuotaState} {c : Check} {phase : CheckPhase}
    (h : c.next settings hashtext s = some phase) :
    c.phase.holdsLock = true ∨ ∀ c' ∈ s.checks, c'.id ≠ c.id → c'.phase.holdsLock = true →
      lockKey hashtext c'.owner ≠ lockKey hashtext c.owner := by
  unfold Check.next at h
  split at h
  · split at h
    · next hfree =>
      right
      intro c' hc' hid hholds
      have hall := List.all_eq_true.mp hfree c' hc'
      simpa [hid, hholds] using hall
    · cases h
  all_goals
    next hphase =>
    left
    rw [hphase]
    rfl

/-- No two transactions hold the lock of one key. -/
def LockExclusive (hashtext : String → ℤ) (s : QuotaState) : Prop :=
  ∀ c ∈ s.checks, ∀ c' ∈ s.checks, c.phase.holdsLock = true → c'.phase.holdsLock = true →
    lockKey hashtext c.owner = lockKey hashtext c'.owner → c.id = c'.id

theorem LockExclusive.step {s s' : QuotaState} {a : QuotaAction} (hI : LockExclusive hashtext s)
    (h : QuotaStep settings hashtext s a s') : LockExclusive hashtext s' := by
  have herase : ∀ id, ∀ c ∈ s.checks.erase id, ∀ c' ∈ s.checks.erase id,
      c.phase.holdsLock = true → c'.phase.holdsLock = true →
        lockKey hashtext c.owner = lockKey hashtext c'.owner → c.id = c'.id := by
    intro id c hc c' hc'
    exact hI c (Table.mem_erase.mp hc).1 c' (Table.mem_erase.mp hc').1
  cases h with
  | @begin id owner runId hid =>
    intro c hc c' hc' hholds hholds'
    rcases Table.mem_put.mp hc with rfl | ⟨hc, -⟩
    · cases hholds
    · rcases Table.mem_put.mp hc' with rfl | ⟨hc', -⟩
      · cases hholds'
      · exact hI c hc c' hc' hholds hholds'
  | @proceed c₀ phase hc₀ hnext =>
    -- the transaction that goes on against any other one
    have hother : ∀ c' ∈ s.checks, c'.id ≠ c₀.id → c'.phase.holdsLock = true →
        lockKey hashtext c'.owner ≠ lockKey hashtext c₀.owner := by
      intro c' hc' hid hholds heq
      rcases lockFree_of_next hnext with hheld | hfree
      · exact hid (hI c' hc' c₀ hc₀ hholds hheld heq)
      · exact hfree c' hc' hid hholds heq
    intro c hc c' hc' hholds hholds' heq
    rcases Table.mem_put.mp hc with rfl | ⟨hc, hne⟩
    · rcases Table.mem_put.mp hc' with rfl | ⟨hc', hne'⟩
      · rfl
      · exact absurd heq.symm (hother c' hc' hne' hholds')
    · rcases Table.mem_put.mp hc' with rfl | ⟨hc', hne'⟩
      · exact absurd heq (hother c hc hne hholds)
      · exact hI c hc c' hc' hholds hholds' heq
  | @commit c₀ verdict hc₀ hphase => exact herase c₀.id
  | @abort id => exact herase id
  | _ => exact hI

theorem lockExclusive_of_reachable {init : Database → Prop} {Ok : QuotaState → QuotaAction → Prop}
    {s : QuotaState} (h : (quota settings hashtext init).Reachable Ok s) : LockExclusive hashtext s := by
  refine h.invariant ?_ ?_
  · rintro s ⟨-, hchecks, -, -⟩ c hc
    rw [hchecks] at hc
    exact absurd hc (Table.not_mem_empty c)
  · intro s a s' hr ih hOk hs
    exact ih.step (quotaStep_sound hs)

theorem LockExclusive.eq_of_owner {s : QuotaState} (hI : LockExclusive hashtext s) {c c' : Check}
    (hc : c ∈ s.checks) (hc' : c' ∈ s.checks) (hholds : c.phase.holdsLock = true)
    (hholds' : c'.phase.holdsLock = true) (howner : c.owner = c'.owner) : c = c' :=
  Table.eq_of_key hc hc' (hI c hc c' hc' hholds hholds' (by rw [howner]))

/-! ### A transaction with nothing next to it -/

/-- A transaction from its beginning to its commit. -/
def gateAlone (id : ℕ) (owner : String) (runId : Option String) : List QuotaAction :=
  .begin id owner runId :: (List.replicate 5 (.proceed id) ++ [.commit id])

/-- The state with one transaction under way that began just now. -/
def QuotaState.alone (s : QuotaState) (id : ℕ) (owner : String) (runId : Option String)
    (phase : CheckPhase) : QuotaState :=
  { s with checks := Table.empty.put ⟨id, owner, runId, s.clock, phase⟩ }

section

variable (s : QuotaState) (id : ℕ) (owner : String) (runId : Option String) {phase phase' : CheckPhase}

theorem QuotaState.get?_alone (phase : CheckPhase) :
    (s.alone id owner runId phase).checks.get? id = some ⟨id, owner, runId, s.clock, phase⟩ := by
  rw [alone, Table.get?_put, key_check, if_pos rfl]

theorem quotaStep_proceed_alone
    (h : (⟨id, owner, runId, s.clock, phase⟩ : Check).next settings hashtext
      (s.alone id owner runId phase) = some phase') :
    quotaStep settings hashtext (s.alone id owner runId phase) (.proceed id) =
      some (s.alone id owner runId phase') := by
  have hput : (s.alone id owner runId phase).checks.put ⟨id, owner, runId, s.clock, phase'⟩ =
      Table.empty.put ⟨id, owner, runId, s.clock, phase'⟩ := Table.put_put rfl
  simp only [quotaStep, s.get?_alone, Option.bind_some, h, Option.map_some, hput]
  rfl

theorem lockFree_alone (phase : CheckPhase) :
    lockFree hashtext (s.alone id owner runId phase) ⟨id, owner, runId, s.clock, phase⟩ = true := by
  simp [lockFree, QuotaState.alone, Table.put, Table.erase, Table.empty]

theorem quotaStep_commit_alone (hs : s.checks = Table.empty) (verdict : Verdict) :
    quotaStep settings hashtext (s.alone id owner runId (.decided verdict)) (.commit id) =
      some { s with
        ledger := if verdict.allowed then s.ledger ++ [chargeRow owner runId s.clock] else s.ledger
        admitted := if verdict.allowed then s.admitted ++ [owner] else s.admitted } := by
  have herase : (s.alone id owner runId (.decided verdict)).checks.erase id = s.checks := by
    rw [hs]
    exact Table.erase_put Table.empty (⟨id, owner, runId, s.clock, .decided verdict⟩ : Check)
  simp only [quotaStep, s.get?_alone, Option.bind_some, QuotaState.commit, herase]
  rfl

/-- **Alone, the transaction is `checkAndRecordRun`.** -/
theorem quota_alone {init : Database → Prop} (henabled : settings.enabled = true)
    (hs : s.checks = Table.empty) :
    (quota settings hashtext init).run s (gateAlone id owner runId) =
      let ended := checkAndRecordRun settings s.ledger s.db.run owner runId s.clock
      some { s with
        ledger := ended.2
        admitted := if ended.1.allowed then s.admitted ++ [owner] else s.admitted } := by
  have hbegin : quotaStep settings hashtext s (.begin id owner runId) =
      some (s.alone id owner runId .begun) := by
    simp [quotaStep, henabled, hs, QuotaState.alone]
  have hlock : quotaStep settings hashtext (s.alone id owner runId .begun) (.proceed id) =
      some (s.alone id owner runId .locked) := by
    apply quotaStep_proceed_alone
    simp only [Check.next, lockFree_alone, if_true]
  -- the three queries and the verdict
  have hown := @quotaStep_proceed_alone settings hashtext s id owner runId .locked _ rfl
  have hshared := fun stats => @quotaStep_proceed_alone settings hashtext s id owner runId (.own stats) _ rfl
  have hactive := fun stats => @quotaStep_proceed_alone settings hashtext s id owner runId (.shared stats) _ rfl
  have hdecide := fun stats => @quotaStep_proceed_alone settings hashtext s id owner runId (.counted stats) _ rfl
  simp only [gateAlone, List.replicate, List.cons_append, List.nil_append, Machine.run, quota, hbegin,
    hlock, hown, hshared, hactive, hdecide, quotaStep_commit_alone s id owner runId hs, Option.bind_some]
  simp only [checkAndRecordRun, henabled, if_true, loadStats, decide_eq_true_eq]
  rfl

end

/-- Of one run a day, the first is allowed and charged. -/
theorem quota_alone_oneRun :
    (quota { runsPerDay := 1 } (fun _ => 0) fun _ => True).run
        ⟨5, [], Database.fresh Table.empty, Table.empty, []⟩ (gateAlone 0 "alice" none) =
      some ⟨5, [chargeRow "alice" none 5], Database.fresh Table.empty, Table.empty, ["alice"]⟩ := by
  have hended : checkAndRecordRun { runsPerDay := 1 } [] Table.empty "alice" none 5 =
      ({ allowed := true }, [chargeRow "alice" none 5]) := by decide +kernel
  refine (quota_alone _ _ _ _ (by decide +kernel) rfl).trans ?_
  simp only [Database.fresh, hended, if_true, List.nil_append]

end NextRole
