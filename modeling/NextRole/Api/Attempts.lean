import NextRole.Api.Worker
import NextRole.Lib.Expiry

/-!
# The attempts of a run

`Runs.Next` counts the attempts of each run that it claims in a Redis key that expires,
and the worker that gets the run looks at that number before it executes the body.  A
retriable failure makes the run pending again.

## Main definitions

* `AttemptKey`, `incrby`, `expire` — the key and the two calls on it.
* `Job`, `AttemptState`, `AttemptAction`, `attempts` — the machine.
* `AttemptStep` — its steps as a relation.
-/

namespace NextRole

/-- The key that counts the attempts of a run. -/
abbrev AttemptKey := Expiring ℕ Timestamp

/-- `INCRBY key 1`: a key that is missing or expired begins again, without an expiry. -/
def incrby (now : Timestamp) (key : Option AttemptKey) : AttemptKey :=
  match key.filter (Expiring.alive now) with
  | some k => { k with value := k.value + 1 }
  | none => { value := 1 }

/-- `EXPIRE key 60`. -/
def expire (now : Timestamp) (key : Option AttemptKey) : Option AttemptKey :=
  (key.filter (Expiring.alive now)).map fun k => { k with expiresAt := some (now + 60 * 1000000) }

/-- How a call of Redis ends: it succeeds, or it raises after or before it took effect. -/
inductive RedisReply
  | ok | lost | failed
  deriving Repr, DecidableEq

/-- Whether the call took effect. -/
def RedisReply.applied : RedisReply → Bool
  | failed => false
  | _ => true

/-- Where a claimed run is: in `Next` before and after it is counted, with its attempt
number on the way to a worker, or in the hands of one. -/
inductive JobStage
  | claimed
  | counted (attempt : ℕ)
  | handed (attempt : ℕ)
  | started (attempt : ℕ)
  deriving Repr, DecidableEq

/-- A claimed run. -/
structure Job where
  run : Run
  stage : JobStage := .claimed
  deriving Repr, DecidableEq

/-- The database, the keys and the claimed runs, and how often each run was counted and
its body executed. -/
structure AttemptState where
  clock : Timestamp
  db : Database
  keys : Uuid → Option AttemptKey := fun _ => none
  jobs : List Job := []
  counted : Uuid → ℕ := fun _ => 0
  executed : Uuid → ℕ := fun _ => 0

inductive AttemptAction
  | tick (now : Timestamp)
  /-- The claim of `Runs.Next`. -/
  | next (limit : ℕ) (tie : Uuid → ℕ)
  /-- The two calls of Redis for a claimed run. -/
  | incrby (i : ℕ) (reply : RedisReply)
  | expire (i : ℕ) (reply : RedisReply)
  /-- The worker checks the attempt number, and executes the body or not. -/
  | start (i : ℕ)
  /-- The attempt ends. -/
  | finish (i : ℕ) (report : RunReport)
  /-- The process that has the run dies. -/
  | crash (i : ℕ)
  /-- Any other call. -/
  | service (rpc : Rpc)

/-- The state after `INCRBY` for a run. -/
def AttemptState.incrby (s : AttemptState) (i : ℕ) (run : Run) (reply : RedisReply) : AttemptState :=
  let key := NextRole.incrby s.clock (s.keys run.runId)
  { s with
    keys := if reply.applied then Function.update s.keys run.runId (some key) else s.keys
    counted :=
      if reply.applied then Function.update s.counted run.runId (s.counted run.runId + 1)
      else s.counted
    -- `except Exception: attempt = 1`
    jobs := s.jobs.set i ⟨run, if reply = .ok then .counted key.value else .handed 1⟩ }

/-- The state after `EXPIRE` for a run. -/
def AttemptState.expire (s : AttemptState) (i : ℕ) (run : Run) (attempt : ℕ) (reply : RedisReply) :
    AttemptState :=
  { s with
    keys :=
      if reply.applied then
        Function.update s.keys run.runId (NextRole.expire s.clock (s.keys run.runId))
      else s.keys
    jobs := s.jobs.set i ⟨run, .handed (if reply = .ok then attempt else 1)⟩ }

/-- The state after the check of the attempt number, with the body executed if it is
not over the limit. -/
def AttemptState.start (maxRetries : ℕ) (s : AttemptState) (i : ℕ) (run : Run) (attempt : ℕ) :
    AttemptState :=
  { s with
    executed :=
      if maxRetries < attempt then s.executed
      else Function.update s.executed run.runId (s.executed run.runId + 1)
    jobs := s.jobs.set i ⟨run, .started attempt⟩ }

/-- The state after the call that the worker makes at the end. -/
def AttemptState.finish (maxRetries : ℕ) (s : AttemptState) (i : ℕ) (run : Run) (attempt : ℕ)
    (report : RunReport) : AttemptState :=
  { s with
    db := execute (endCall run
      { report with ended := attemptEnd maxRetries attempt run report.ended } s.clock) s.db
    jobs := s.jobs.eraseIdx i }

def attemptStep (maxRetries : ℕ) (s : AttemptState) : AttemptAction → Option AttemptState
  | .tick now => some { s with clock := now }
  | .next limit tie =>
    some { s with
      db := execute (.next limit s.clock tie) s.db
      jobs := s.jobs ++ (claimResponse (nextLimit limit) s.clock tie s.db [] s.db).map (⟨·, .claimed⟩) }
  | .incrby i reply =>
    s.jobs[i]?.bind fun job =>
      match job.stage with
      | .claimed => some (s.incrby i job.run reply)
      | _ => none
  | .expire i reply =>
    s.jobs[i]?.bind fun job =>
      match job.stage with
      | .counted attempt => some (s.expire i job.run attempt reply)
      | _ => none
  | .start i =>
    s.jobs[i]?.bind fun job =>
      match job.stage with
      | .handed attempt => some (s.start maxRetries i job.run attempt)
      | _ => none
  | .finish i report =>
    s.jobs[i]?.bind fun job =>
      match job.stage with
      | .started attempt => some (s.finish maxRetries i job.run attempt report)
      | _ => none
  | .crash i => some { s with jobs := s.jobs.eraseIdx i }
  | .service rpc => some { s with db := execute rpc s.db }

/-- The machine, started on a database that satisfies `init` with no run claimed yet. -/
def attempts (maxRetries : ℕ) (init : Database → Prop) : Machine AttemptState AttemptAction where
  init s := init s.db ∧ s = { clock := s.clock, db := s.db }
  step := attemptStep maxRetries

/-- The steps as a relation. -/
inductive AttemptStep (maxRetries : ℕ) (s : AttemptState) : AttemptAction → AttemptState → Prop
  | tick {now} : AttemptStep maxRetries s (.tick now) { s with clock := now }
  | next {limit tie} : AttemptStep maxRetries s (.next limit tie) { s with
      db := execute (.next limit s.clock tie) s.db
      jobs := s.jobs ++ (claimResponse (nextLimit limit) s.clock tie s.db [] s.db).map (⟨·, .claimed⟩) }
  | incrby {i run reply} (h : s.jobs[i]? = some ⟨run, .claimed⟩) :
      AttemptStep maxRetries s (.incrby i reply) (s.incrby i run reply)
  | expire {i run attempt reply} (h : s.jobs[i]? = some ⟨run, .counted attempt⟩) :
      AttemptStep maxRetries s (.expire i reply) (s.expire i run attempt reply)
  | start {i run attempt} (h : s.jobs[i]? = some ⟨run, .handed attempt⟩) :
      AttemptStep maxRetries s (.start i) (s.start maxRetries i run attempt)
  | finish {i run attempt report} (h : s.jobs[i]? = some ⟨run, .started attempt⟩) :
      AttemptStep maxRetries s (.finish i report) (s.finish maxRetries i run attempt report)
  | crash {i} : AttemptStep maxRetries s (.crash i) { s with jobs := s.jobs.eraseIdx i }
  | service {rpc} : AttemptStep maxRetries s (.service rpc) { s with db := execute rpc s.db }

theorem attemptStep_sound {maxRetries : ℕ} {s s' : AttemptState} {a : AttemptAction}
    (h : attemptStep maxRetries s a = some s') : AttemptStep maxRetries s a s' := by
  cases a with
  | tick now =>
    cases h
    exact .tick
  | next limit tie =>
    cases h
    exact .next
  | incrby i reply =>
    simp only [attemptStep, Option.bind_eq_some_iff] at h
    obtain ⟨⟨run, stage⟩, hjob, h⟩ := h
    cases stage with
    | claimed =>
      cases h
      exact .incrby hjob
    | _ => cases h
  | expire i reply =>
    simp only [attemptStep, Option.bind_eq_some_iff] at h
    obtain ⟨⟨run, stage⟩, hjob, h⟩ := h
    cases stage with
    | counted attempt =>
      cases h
      exact .expire hjob
    | _ => cases h
  | start i =>
    simp only [attemptStep, Option.bind_eq_some_iff] at h
    obtain ⟨⟨run, stage⟩, hjob, h⟩ := h
    cases stage with
    | handed attempt =>
      cases h
      exact .start hjob
    | _ => cases h
  | finish i report =>
    simp only [attemptStep, Option.bind_eq_some_iff] at h
    obtain ⟨⟨run, stage⟩, hjob, h⟩ := h
    cases stage with
    | started attempt =>
      cases h
      exact .finish hjob
    | _ => cases h
  | crash i =>
    cases h
    exact .crash
  | service rpc =>
    cases h
    exact .service

end NextRole
