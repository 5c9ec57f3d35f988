import NextRole.Rpc
import NextRole.Lib.Expiry

/-!
# Cancels and the streams that wait for them

`Runs.Cancel` sets a key and publishes a message for each of its targets before it
writes to the rows that are still pending.  The worker that has claimed a run opens
`Runs.Enter` for it, which subscribes to the messages, looks at the key and then waits.
Between any two of these calls, others come.

## Main definitions

* `CancelOp`, `cancelOps`, `CancelPhase` — the calls of Redis that a cancel makes, and
  how far it is.
* `EnterStream` — an open stream of `Runs.Enter`.
* `ControlState`, `ControlAction`, `control` — one cancel, the claims of any number of
  workers, and the streams that they open.
* `ControlStep` — the steps as a relation.
-/

namespace NextRole

open ReadCommitted

/-- The value under `channel_run_control`, which is also the name of the channel. -/
abbrev ControlKey := Expiring CancelRunAction Timestamp

/-- `SET ctrl action EX 60`. -/
def controlKey (now : Timestamp) (action : CancelRunAction) : ControlKey :=
  ⟨action, some (now + 60 * 1000000)⟩

/-- A call of Redis that a cancel makes. -/
inductive CancelOp
  | set (signal : ControlSignal)
  | publish (signal : ControlSignal)
  deriving Repr, DecidableEq

/-- For each target, its key is set and its message is published. -/
def cancelOps (signals : List ControlSignal) : List CancelOp :=
  signals.flatMap fun signal => [.set signal, .publish signal]

/-- How far a cancel is: it has selected its targets, it has yet to make the calls
`ops` for those of them that it keeps, its write is under way, or it has returned. -/
inductive CancelPhase
  | called
  | selected (targets : List (Uuid × Uuid))
  | sending (targets : List (Uuid × Uuid)) (ops : List CancelOp)
  | writing (targets : List (Uuid × Uuid))
  | done (targets : List (Uuid × Uuid))
  deriving Repr, DecidableEq

/-- The phase after the commit of a call. -/
def CancelPhase.commit : CancelPhase → Rpc → CancelPhase
  | writing targets, .cancelRuns .. => done targets
  | phase, _ => phase

inductive EnterPhase
  | subscribed
  | listening
  | returned
  deriving Repr, DecidableEq

/-- A stream of `Runs.Enter`, which gets what is published on the channel of its run
after the first `since` messages. -/
structure EnterStream where
  threadId : Uuid
  runId : Uuid
  since : ℕ
  subscribedAt : Timestamp
  /-- The time of its `GET`. -/
  readAt : Option Timestamp := none
  phase : EnterPhase := .subscribed
  yielded : List CancelRunAction := []
  deriving Repr, DecidableEq

/-- The name of a stream's channel. -/
def EnterStream.channel (e : EnterStream) : Uuid × Uuid := (e.threadId, e.runId)

/-- The name of a signal's channel. -/
def ControlSignal.channel (signal : ControlSignal) : Uuid × Uuid := (signal.threadId, signal.runId)

/-- An action is yielded, and the stream returns. -/
def EnterStream.finish (e : EnterStream) (action : CancelRunAction) : EnterStream :=
  { e with phase := .returned, yielded := e.yielded ++ [action] }

/-- The stream after its `GET`. -/
def EnterStream.get (e : EnterStream) (now : Timestamp) (existing : Option CancelRunAction) :
    EnterStream :=
  match existing with
  | some action => { e with readAt := some now }.finish action
  | none => { e with readAt := some now, phase := .listening }

structure ControlState where
  service : ServiceState
  clock : Timestamp
  keys : Uuid × Uuid → Option ControlKey := fun _ => none
  published : List ControlSignal := []
  cancel : CancelPhase := .called
  /-- The runs that `Runs.Next` has returned. -/
  returned : List Run := []
  streams : List EnterStream := []

/-- The stream of a run that has just subscribed. -/
def subscribe (s : ControlState) (run : Run) : EnterStream where
  threadId := run.threadId
  runId := run.runId
  since := s.published.length
  subscribedAt := s.clock

/-- The messages that a stream gets. -/
def ControlState.messages (s : ControlState) (e : EnterStream) : List CancelRunAction :=
  ((s.published.drop e.since).filter fun signal => signal.channel = e.channel).map
    ControlSignal.action

/-- The state after a step of stream `j`. -/
def ControlState.replace (s : ControlState) (j : ℕ) (e : EnterStream) : ControlState :=
  { s with streams := s.streams.set j e }

inductive ControlAction
  | tick (now : Timestamp)
  /-- The cancel reads the targets of a selector, and then which threads are owned. -/
  | select
  | gate
  /-- The next call of Redis of the cancel. -/
  | redis
  /-- The cancel begins its write as transaction `i`. -/
  | write (i : ℕ) (now : Timestamp)
  /-- A worker begins a claim as transaction `i`. -/
  | next (i : ℕ) (limit : ℕ) (now : Timestamp) (tie : Uuid → ℕ)
  | snapshot (i : ℕ)
  | exec (i : ℕ)
  | commit (i : ℕ)
  | abort (i : ℕ)
  /-- `SUBSCRIBE`, by the worker that has claimed a run. -/
  | enter (run : Run)
  /-- The `GET` of stream `j`. -/
  | get (j : ℕ)
  /-- Stream `j` takes a message. -/
  | message (j : ℕ)

/-- A step of the database alone. -/
def ControlState.call (s : ControlState) (a : Action Rpc) : Option ControlState :=
  (step statements s.service a).map fun service => { s with service := service }

def controlStep (request : CancelRunRequest) (s : ControlState) : ControlAction → Option ControlState
  | .tick now => if s.clock ≤ now then some { s with clock := now } else none
  | .select =>
    match s.cancel with
    | .called => some { s with cancel := .selected (cancelTargets request.target s.service.db) }
    | _ => none
  | .gate =>
    match s.cancel with
    | .selected targets =>
      let kept := ownedTargets request.filters targets s.service.db
      some { s with cancel := .sending kept (cancelOps (controlSignals kept request.action)) }
    | _ => none
  | .redis =>
    match s.cancel with
    | .sending targets (.set signal :: ops) =>
      some { s with
        keys := Function.update s.keys signal.channel (some (controlKey s.clock signal.action))
        cancel := .sending targets ops }
    | .sending targets (.publish signal :: ops) =>
      some { s with published := s.published ++ [signal], cancel := .sending targets ops }
    | _ => none
  | .write i now =>
    match s.cancel with
    | .sending targets [] =>
      -- `if run_ids`
      if targets = [] then some { s with cancel := .done [] }
      else { s with cancel := .writing targets }.call
        (.begin i (.cancelRuns (targets.map Prod.snd) request.action now))
    | _ => none
  | .next i limit now tie => s.call (.begin i (.next limit now tie))
  | .snapshot i => s.call (.snapshot i)
  | .exec i => s.call (.exec i)
  | .commit i =>
    (s.service.txns.get? i).bind fun t =>
      { s with returned := s.returned ++ claimReply t, cancel := s.cancel.commit t.rpc }.call
        (.commit i)
  | .abort i => s.call (.abort i)
  | .enter run =>
    if run ∈ s.returned then
      some { s with streams := s.streams ++ [subscribe s run] }
    else none
  | .get j =>
    s.streams[j]?.bind fun e =>
      match e.phase with
      | .subscribed =>
        some (s.replace j (e.get s.clock (Expiring.read s.clock (s.keys e.channel))))
      | _ => none
  | .message j =>
    s.streams[j]?.bind fun e =>
      match e.phase, s.messages e with
      | .listening, action :: _ => some (s.replace j (e.finish action))
      | _, _ => none

/-- One cancel and the claims and streams of any number of workers, started on a
database with nothing under way. -/
def control (request : CancelRunRequest) (d : Database) : Machine ControlState ControlAction where
  init s := s = { service := ⟨d, .empty⟩, clock := s.clock }
  step := controlStep request

/-! ### What one step does -/

/-- The steps that are steps of the database alone. -/
def ControlAction.call? : ControlAction → Option (Action Rpc)
  | next i limit now tie => some (.begin i (.next limit now tie))
  | snapshot i => some (.snapshot i)
  | exec i => some (.exec i)
  | abort i => some (.abort i)
  | _ => none

/-- The steps as a relation. -/
inductive ControlStep (request : CancelRunRequest) (s : ControlState) :
    ControlAction → ControlState → Prop
  | tick {now} (h : s.clock ≤ now) : ControlStep request s (.tick now) { s with clock := now }
  | select (h : s.cancel = .called) : ControlStep request s .select
      { s with cancel := .selected (cancelTargets request.target s.service.db) }
  | gate {targets kept} (h : s.cancel = .selected targets)
      (hkept : ownedTargets request.filters targets s.service.db = kept) :
      ControlStep request s .gate
        { s with cancel := .sending kept (cancelOps (controlSignals kept request.action)) }
  | set {targets signal ops} (h : s.cancel = .sending targets (.set signal :: ops)) :
      ControlStep request s .redis { s with
        keys := Function.update s.keys signal.channel (some (controlKey s.clock signal.action))
        cancel := .sending targets ops }
  | publish {targets signal ops} (h : s.cancel = .sending targets (.publish signal :: ops)) :
      ControlStep request s .redis
        { s with published := s.published ++ [signal], cancel := .sending targets ops }
  | skip {i now} (h : s.cancel = .sending [] []) :
      ControlStep request s (.write i now) { s with cancel := .done [] }
  | write {i now targets service} (h : s.cancel = .sending targets [])
      (hs : step statements s.service
        (.begin i (.cancelRuns (targets.map Prod.snd) request.action now)) = some service) :
      ControlStep request s (.write i now) { s with service := service, cancel := .writing targets }
  | call {a b service} (hb : a.call? = some b) (hs : step statements s.service b = some service) :
      ControlStep request s a { s with service := service }
  | commit {t service} (ht : t ∈ s.service.txns)
      (hs : step statements s.service (.commit t.id) = some service) :
      ControlStep request s (.commit t.id) { s with
        service := service, returned := s.returned ++ claimReply t
        cancel := s.cancel.commit t.rpc }
  | enter {run} (h : run ∈ s.returned) :
      ControlStep request s (.enter run) { s with streams := s.streams ++ [subscribe s run] }
  | get {j e} (he : s.streams[j]? = some e) (hphase : e.phase = .subscribed) :
      ControlStep request s (.get j)
        (s.replace j (e.get s.clock (Expiring.read s.clock (s.keys e.channel))))
  | message {j e action actions} (he : s.streams[j]? = some e) (hphase : e.phase = .listening)
      (hmessage : s.messages e = action :: actions) :
      ControlStep request s (.message j) (s.replace j (e.finish action))

theorem controlStep_of_call {request : CancelRunRequest} {s s' : ControlState} {a : ControlAction}
    {b : Action Rpc} (hb : a.call? = some b) (h : s.call b = some s') :
    ControlStep request s a s' := by
  obtain ⟨service, hs, rfl⟩ := Option.map_eq_some_iff.mp h
  exact .call hb hs

theorem controlStep_sound {request : CancelRunRequest} {s s' : ControlState} {a : ControlAction}
    (h : controlStep request s a = some s') : ControlStep request s a s' := by
  cases a with
  | tick now =>
    simp only [controlStep] at h
    split at h
    · next hle =>
      cases h
      exact .tick hle
    · cases h
  | select =>
    simp only [controlStep] at h
    split at h
    · next hcancel =>
      cases h
      exact .select hcancel
    · cases h
  | gate =>
    simp only [controlStep] at h
    split at h
    · next targets hcancel =>
      cases h
      exact .gate hcancel rfl
    · cases h
  | redis =>
    simp only [controlStep] at h
    split at h
    · next targets signal ops hcancel =>
      cases h
      exact .set hcancel
    · next targets signal ops hcancel =>
      cases h
      exact .publish hcancel
    · cases h
  | write i now =>
    simp only [controlStep] at h
    split at h
    · next targets hcancel =>
      split at h
      · next hnil =>
        cases h
        exact .skip (hnil ▸ hcancel)
      · obtain ⟨service, hs, rfl⟩ := Option.map_eq_some_iff.mp h
        exact .write hcancel hs
    · cases h
  | next i limit now tie => exact controlStep_of_call rfl h
  | snapshot i => exact controlStep_of_call rfl h
  | exec i => exact controlStep_of_call rfl h
  | commit i =>
    simp only [controlStep, Option.bind_eq_some_iff] at h
    obtain ⟨t, hget, h⟩ := h
    obtain ⟨ht, rfl⟩ := Table.get?_eq_some.mp hget
    obtain ⟨service, hs, rfl⟩ := Option.map_eq_some_iff.mp h
    exact .commit ht hs
  | abort i => exact controlStep_of_call rfl h
  | enter run =>
    simp only [controlStep] at h
    split at h
    · next hmem =>
      cases h
      exact .enter hmem
    · cases h
  | get j =>
    simp only [controlStep, Option.bind_eq_some_iff] at h
    obtain ⟨e, he, h⟩ := h
    split at h
    · next hphase =>
      cases h
      exact .get he hphase
    · cases h
  | message j =>
    simp only [controlStep, Option.bind_eq_some_iff] at h
    obtain ⟨e, he, h⟩ := h
    split at h
    · next action actions hphase hmessage =>
      cases h
      exact .message he hphase hmessage
    · cases h

end NextRole
