import NextRole.Agents.Auth
import NextRole.Serial

/-!
# Creating a run through the API

`create_valid_run` of `api/models/run.py` with `Runs.put` and `Runs.cancel` of
`api/grpc/ops/runs.py`: the request that it sends, what it makes of the rows that
come back, and the cancel of other runs that follows.

## Main definitions

* `RunPayload`, `createRequest` — a payload and the request that is sent for it.
* `checkCreated` — what the rows that come back mean.
* `createValidRun` — the call with everything that happens next to it.

## Main results

* `Inserts.createValidRun` — how a call ends whose query inserts a run.
* `db_createValidRun` — the database after a call next to which nothing happens.
-/

namespace NextRole

/-- What becomes of the thread of a stateless run. -/
inductive OnCompletion
  | delete | keep
  deriving Repr, DecidableEq

/-- What `create_valid_run` reads of a payload; the other fields go into the
arguments of the run. -/
structure RunPayload where
  assistantId : Uuid
  metadata : Option (List (String × Json)) := none
  kwargs : List (String × Json) := []
  multitaskStrategy : Option MultitaskStrategy := none
  onCompletion : Option OnCompletion := none
  afterSeconds : Int := 0
  /-- `if_not_exists` is `create`. -/
  createIfNotExists : Bool := false
  /-- `command.resume` is given. -/
  resume : Bool := false
  configurable : List (String × Json) := []
  context : List (String × Json) := []
  streamMode : List String := []

structure HTTPException where
  statusCode : ℕ
  detail : String
  deriving Repr, DecidableEq

/-- The ways in which the call fails; `query` stands for an error of the service. -/
inductive CreateFailure
  | http (e : HTTPException)
  | notImplemented
  | query
  deriving Repr, DecidableEq

/-- Whether the thread is deleted when the run is done. -/
def RunPayload.temporary (payload : RunPayload) (threadId : Option Uuid) (temporary : Bool) : Bool :=
  (temporary || threadId.isNone) && payload.onCompletion.getD .delete = .delete

/-- `assign_defaults`: the strategy, and whether a run in flight prevents the insertion. -/
def assignDefaults (payload : RunPayload) : MultitaskStrategy × Bool :=
  let multitaskStrategy := payload.multitaskStrategy.getD .enqueue
  (multitaskStrategy, multitaskStrategy = .reject)

/-- A call of `create_valid_run`: `temporary` is the argument, `env` has the uuids
that are drawn. -/
structure CreateCall where
  caller : Caller := none
  threadId : Option Uuid := none
  payload : RunPayload
  temporary : Bool := false
  env : CreateEnv

/-- The request that `Runs.put` sends. -/
def createRequest (call : CreateCall) : CreateRunRequest where
  assistantId := call.payload.assistantId
  runId := some call.env.freshRunId
  threadId := call.threadId
  kwargs := (Json.obj call.payload.kwargs).set "temporary"
    (.bool (call.payload.temporary call.threadId call.temporary))
  metadata := stampOwner call.caller (.obj (call.payload.metadata.getD []))
  status := some .pending
  multitaskStrategy := some (assignDefaults call.payload).1
  createIfNotExists := call.payload.createIfNotExists
  preventInsertIfInflight := (assignDefaults call.payload).2
  afterSeconds := max call.payload.afterSeconds 0
  userId := call.caller
  threadFilters := authFilters call.caller

/-- The parameters of the query of the call. -/
def CreateCall.params (call : CreateCall) : CreateParams :=
  createParams (createRequest call) call.env

/-- The action with which a strategy cancels other runs. -/
def MultitaskStrategy.action? : MultitaskStrategy → Option CancelRunAction
  | interrupt => some .interrupt
  | rollback => some .rollback
  | _ => none

/-- The cancel that follows the insertion.  Without a thread id `Runs.cancel` raises,
and that is ignored. -/
def cancelInflight (call : CreateCall) (inflight : List Run) : Option CancelRunRequest :=
  match (assignDefaults call.payload).1.action?, call.threadId with
  | some action, some threadId =>
    if inflight.isEmpty then none
    else some {
      target := .runIds threadId (inflight.map Run.runId)
      action := action
      filters := authFilters call.caller }
  | _, _ => none

/-- What the rows of the response mean: the first one is the run, if it was inserted,
and the others are in its way. -/
def checkCreated (call : CreateCall) : List Run → Except CreateFailure (Run × Option CancelRunRequest)
  | [] => .error (.http ⟨404, "Thread or assistant not found."⟩)
  | first :: inflight =>
    if first.runId = call.env.freshRunId then .ok (first, cancelInflight call inflight)
    else if (assignDefaults call.payload).1 = .reject then
      .error (.http ⟨409, "Thread is already running a task. Wait for it to finish or choose a different multitask strategy."⟩)
    else .error .notImplemented

/-- The stream modes of a payload that only the second version of the streaming API has. -/
def v2Only (payload : RunPayload) : List String :=
  ["lifecycle", "tools"].filter fun mode => payload.streamMode.contains mode

/-- The checks before the query. -/
def validatePayload (call : CreateCall) : Option HTTPException :=
  if (call.threadId.isNone || call.temporary) && call.payload.resume then
    some ⟨400, "You must provide a thread_id when resuming."⟩
  else if !call.payload.configurable.isEmpty && !call.payload.context.isEmpty then
    some ⟨400, "Cannot specify both configurable and context. Prefer setting context alone. Context was introduced in LangGraph 0.6.0 and is the long term planned replacement for configurable."⟩
  else if !truthy (call.payload.configurable.lookup "__event_streaming_v2") &&
      !(v2Only call.payload).isEmpty then
    some ⟨422, "stream_mode entries [" ++
      ", ".intercalate ((v2Only call.payload).map fun mode => "'" ++ mode ++ "'") ++
      "] are only supported on the v2 event streaming endpoints."⟩
  else none

/-! ### The call and what happens next to it -/

/-- Other calls, each alone, between the steps of one call: before its cancel reads
the threads, before it writes the runs, and before it returns. -/
structure Meanwhile where
  beforeGate : List Rpc := []
  beforeWrite : List Rpc := []
  beforeReturn : List Rpc := []

/-- The database after some calls, one after the other. -/
def executeAll (rpcs : List Rpc) (d : Database) : Database :=
  rpcs.foldl (fun d rpc => execute rpc d) d

/-- The answer of a call, and the database and the control signals when it returns. -/
structure CreateEnd where
  result : Except CreateFailure Run
  db : Database
  signals : List ControlSignal := []

/-- All of them. -/
def Meanwhile.all (others : Meanwhile) : List Rpc :=
  others.beforeGate ++ others.beforeWrite ++ others.beforeReturn

/-- The cancel of other runs, with what happens next to it, from the database after
the insertion. -/
def cancelMeanwhile (request : CancelRunRequest) (others : Meanwhile) (now : Timestamp)
    (d : Database) : Database × List ControlSignal :=
  let gate := executeAll others.beforeGate d
  let targets := keptTargets request gate
  let write := executeAll others.beforeWrite gate
  (executeAll others.beforeReturn
    (execute (.cancelRuns (targets.map Prod.snd) request.action now) write),
    controlSignals targets request.action)

/-- `create_valid_run`. -/
def createValidRun (call : CreateCall) (others : Meanwhile) (now : Timestamp) (d : Database) :
    CreateEnd :=
  match validatePayload call with
  | some e => ⟨.error (.http e), executeAll others.all d, []⟩
  | none =>
    let inserted := execute (.createRun (createRequest call) call.env) d
    match createReply (createRequest call) call.env d with
    | none => ⟨.error .query, executeAll others.all inserted, []⟩
    | some rows =>
      match checkCreated call rows with
      | .error e => ⟨.error e, executeAll others.all inserted, []⟩
      | .ok (run, none) => ⟨.ok run, executeAll others.all inserted, []⟩
      | .ok (run, some request) =>
        let ended := cancelMeanwhile request others now inserted
        ⟨.ok run, ended.1, ended.2⟩

theorem CreateCall.get?_owner {call : CreateCall} {identity : String}
    (h : call.caller = some identity) :
    call.params.metadata.get? "owner" = some (.str identity) := by
  have hstamp := get?_stampOwner identity (call.payload.metadata.getD [])
  simp only [params, createParams, createRequest, h, setdefault]
  split
  · exact hstamp
  · rw [Json.get?_set_of_ne _ _ (by decide)]
    exact hstamp

/-! ### A call whose query inserts -/

/-- The checks pass, and the query inserts a run. -/
structure Inserts (call : CreateCall) (d : Database) : Prop where
  valid : validatePayload call = none
  noConflict : createConflicts call.params d d = false
  inserted : insertedRun call.params d d ≠ []

instance (call : CreateCall) (d : Database) : Decidable (Inserts call d) :=
  decidable_of_iff (validatePayload call = none ∧ createConflicts call.params d d = false ∧
    insertedRun call.params d d ≠ []) ⟨fun h => ⟨h.1, h.2.1, h.2.2⟩, fun h => ⟨h.1, h.2, h.3⟩⟩

theorem Inserts.singleton {call : CreateCall} {d : Database} (h : Inserts call d) :
    ∃ r, insertedRun call.params d d = [r] ∧ r.runId = call.env.freshRunId := by
  have hlen := h.noConflict
  have hne := h.inserted
  cases hins : insertedRun call.params d d with
  | nil => exact absurd hins hne
  | cons r rs =>
    cases rs with
    | nil =>
      have hmem : r ∈ insertedRun call.params d d := hins ▸ List.mem_cons_self
      have hid := runId_of_mem_insertedRun hmem
      exact ⟨r, rfl, hid⟩
    | cons r' rs => simp [createConflicts, hins] at hlen

theorem Inserts.checkCreated {call : CreateCall} {d : Database} (h : Inserts call d) :
    ∃ r rows, createReply (createRequest call) call.env d = some rows ∧
      NextRole.checkCreated call rows =
        .ok (r, cancelInflight call (inflightRuns call.params d)) := by
  obtain ⟨r, hins, hid⟩ := h.singleton
  have hconf : createConflicts (createParams (createRequest call) call.env) d d = false := h.noConflict
  refine ⟨r, insertedRun call.params d d ++ inflightRuns call.params d, ?_, ?_⟩
  · rw [createReply, if_neg (by simp [hconf])]
    rfl
  · rw [hins, List.singleton_append, NextRole.checkCreated, if_pos hid]

theorem Inserts.runId_ne {call : CreateCall} {d : Database} (h : Inserts call d) {r : Run}
    (hr : r ∈ d.run) : r.runId ≠ call.env.freshRunId := by
  intro hid
  have hconf := h.noConflict
  have hne : (insertedRun call.params d d).isEmpty = false :=
    List.isEmpty_eq_false_iff.mpr h.inserted
  have hsome : (d.run.get? call.params.runId).isSome = true := by
    rw [Option.isSome_iff_exists]
    exact ⟨r, Table.get?_eq_some.mpr ⟨hr, hid⟩⟩
  rw [createConflicts, hne, hsome] at hconf
  simp at hconf

/-- The state and the signals in which a call that inserts ends. -/
theorem Inserts.createValidRun {call : CreateCall} {d : Database} (h : Inserts call d)
    (others : Meanwhile) (now : Timestamp) :
    ∃ r, NextRole.createValidRun call others now d =
      let inserted := execute (.createRun (createRequest call) call.env) d
      match cancelInflight call (inflightRuns call.params d) with
      | none => ⟨.ok r, executeAll others.all inserted, []⟩
      | some request =>
        ⟨.ok r, (cancelMeanwhile request others now inserted).1,
          (cancelMeanwhile request others now inserted).2⟩ := by
  obtain ⟨r, rows, hreply, hcheck⟩ := h.checkCreated
  refine ⟨r, ?_⟩
  simp only [NextRole.createValidRun, h.valid, hreply, hcheck]
  cases cancelInflight call (inflightRuns call.params d) <;> rfl

/-- The calls that `create_valid_run` makes when nothing happens next to it: the query, and then
maybe a cancel. -/
theorem db_createValidRun (call : CreateCall) (now : Timestamp) (d : Database) :
    ∃ rpcs : List Rpc, (∀ rpc ∈ rpcs, rpc = .createRun (createRequest call) call.env ∨
        ∃ runIds action, rpc = .cancelRuns runIds action now) ∧
      (createValidRun call {} now d).db = executeAll rpcs d := by
  have hall : ({} : Meanwhile).all = [] := rfl
  have hnil : ∀ d : Database, executeAll [] d = d := fun _ => rfl
  have hone : executeAll [.createRun (createRequest call) call.env] d =
      execute (.createRun (createRequest call) call.env) d := rfl
  have hquery : ∀ rpc ∈ [Rpc.createRun (createRequest call) call.env],
      rpc = .createRun (createRequest call) call.env ∨
        ∃ runIds action, rpc = .cancelRuns runIds action now :=
    fun rpc hrpc => .inl (List.mem_singleton.mp hrpc)
  cases hvalid : validatePayload call with
  | some e =>
    refine ⟨[], fun rpc hrpc => absurd hrpc List.not_mem_nil, ?_⟩
    simp only [createValidRun, hvalid, hall]
  | none =>
    cases hreply : createReply (createRequest call) call.env d with
    | none =>
      refine ⟨_, hquery, ?_⟩
      simp only [createValidRun, hvalid, hreply, hall, hnil, hone]
    | some rows =>
      cases hcheck : checkCreated call rows with
      | error e =>
        refine ⟨_, hquery, ?_⟩
        simp only [createValidRun, hvalid, hreply, hcheck, hall, hnil, hone]
      | ok created =>
        obtain ⟨run, request⟩ := created
        cases request with
        | none =>
          refine ⟨_, hquery, ?_⟩
          simp only [createValidRun, hvalid, hreply, hcheck, hall, hnil, hone]
        | some request =>
          let cancel := Rpc.cancelRuns ((keptTargets request
            (execute (.createRun (createRequest call) call.env) d)).map Prod.snd) request.action now
          have htwo : executeAll [.createRun (createRequest call) call.env, cancel] d =
              execute cancel (execute (.createRun (createRequest call) call.env) d) := rfl
          refine ⟨[.createRun (createRequest call) call.env, cancel], ?_, ?_⟩
          · intro rpc hrpc
            rcases List.mem_cons.mp hrpc with hrpc | hrpc
            · exact .inl hrpc
            · rw [List.mem_singleton.mp hrpc]
              exact .inr ⟨_, _, rfl⟩
          · rw [htwo]
            simp only [createValidRun, hvalid, hreply, hcheck, cancelMeanwhile, hnil, cancel]

end NextRole
