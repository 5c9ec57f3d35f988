import NextRole.Lib.Transition
import NextRole.Api.Worker

/-!
# The events of an execution are published

`consume` of `api/stream.py` with its two ways of publishing: `_consume_inline` publishes each event
before it pulls the next one, `_consume_async_queue` gives them to a task that publishes them.  With
`Runs.Stream.publish` of `grpc/ops/runs.py`, and what `worker` of `api/worker.py` makes of the end.

## Main definitions

* `AnyException`, `Raised` — what can be raised, as far as it is told apart.
* `publish`, `PublishCall` — a call with its attempts.
* `Consumption` — a stream with what `consume` is given.
* `Consumption.consumeInline` — the inline path.
* `Consumption.consumeAsyncQueue` — the queued path, as a machine.
* `executionEnd` — how the execution of a run ends.
-/

namespace NextRole

/-! ### Exceptions -/

/-- The classes of exceptions that are told apart. -/
inductive ExceptionClass
  | streamPublish
  | timeout
  /-- `UserTimeout`, which carries the `TimeoutError`. -/
  | userTimeout
  | userRollback
  | userInterrupt
  /-- `RETRIABLE_EXCEPTIONS` and `GRPC_RETRIABLE_EXCEPTIONS`. -/
  | retriable
  | other
  deriving Repr, DecidableEq

/-- An `Exception`; of a group, with its first exception. -/
inductive AnyException
  | single (cls : ExceptionClass) (exception : RunException)
  | group (exception : RunException) (first : AnyException)
  deriving Repr, DecidableEq

/-- What can be raised; the last two are no `Exception`. -/
inductive Raised
  | exception (e : AnyException)
  | cancelled
  | base (exception : RunException)
  deriving Repr, DecidableEq

namespace AnyException

/-- `if isinstance(e, ExceptionGroup): e = e.exceptions[0]`. -/
def unwrap : AnyException → AnyException
  | .single cls exception => .single cls exception
  | .group _ first => first

/-- `isinstance(e, StreamPublishException)`. -/
def isStreamPublish : AnyException → Bool
  | .single .streamPublish _ => true
  | _ => false

/-- The name of the type and the message. -/
def described : AnyException → RunException
  | .single _ exception | .group exception _ => exception

end AnyException

/-! ### A call -/

/-- The codes of failed gRPC calls. -/
inductive GrpcStatus
  | cancelled | unknown | invalidArgument | deadlineExceeded | notFound | alreadyExists
  | permissionDenied | resourceExhausted | failedPrecondition | aborted | outOfRange | unimplemented
  | internal | unavailable | dataLoss | unauthenticated
  deriving Repr, DecidableEq

/-- `PUBLISH_RETRIABLE_STATUS_CODES`. -/
def publishRetriableStatusCodes : List GrpcStatus :=
  [.cancelled, .unavailable, .deadlineExceeded, .resourceExhausted, .aborted, .internal]

/-- `GRPC_STATUS_TO_HTTP_STATUS`, with its default. -/
def GrpcStatus.httpStatus : GrpcStatus → ℕ
  | .notFound => 404
  | .alreadyExists => 409
  | .invalidArgument => 422
  | .permissionDenied => 403
  | .unauthenticated => 401
  | _ => 500

/-- `_raise_stream_publish_exception`. -/
def streamPublishException (code : GrpcStatus) (details : String) : AnyException :=
  .single .streamPublish
    ⟨"StreamPublishException", "stream publish failed (" ++ toString code.httpStatus ++ "): " ++
      if details = "" then "None" else details⟩

/-- What an attempt comes back with; a failed one with the time then. -/
inductive PublishAttempt
  | ok
  | error (code : GrpcStatus) (details : String) (now : ℕ)
  deriving Repr, DecidableEq

/-- `Runs.Stream.publish`, once it has an answer that it does not retry. -/
def publish (deadline : ℕ) : List PublishAttempt → Option (Except AnyException Unit)
  | [] => none
  | .ok :: _ => some (.ok ())
  | .error code details now :: attempts =>
    if code ∉ publishRetriableStatusCodes ∨ deadline ≤ now then
      some (.error (streamPublishException code details))
    else publish deadline attempts

/-- A call of `Runs.Stream.publish` that returns or raises. -/
structure PublishCall where
  deadline : ℕ
  attempts : List PublishAttempt
  ends : (publish deadline attempts).isSome

/-- What the call returns or raises. -/
def PublishCall.result (call : PublishCall) : Except AnyException Unit :=
  (publish call.deadline call.attempts).get call.ends

/-- The call returns. -/
def PublishCall.succeeds (call : PublishCall) : Bool :=
  match call.result with
  | .ok _ => true
  | .error _ => false

/-! ### The stream -/

/-- What a call publishes. -/
structure PublishStreamEventRequest (β : Type) where
  eventType : String
  message : β
  resumable : Bool
  deriving Repr, DecidableEq

/-- A stream of events with what `consume` is given; `calls` are the calls of
`Runs.Stream.publish`, in their order. -/
structure Consumption (α β : Type) where
  events : List (String × α)
  /-- What the stream raises after the events; nothing when it is exhausted. -/
  ending : Option Raised
  resumable : Bool
  streamModes : List String
  calls : ℕ → PublishCall
  /-- `json_dumpb` of a payload, which can raise. -/
  dumpb : α → Except RunException β
  /-- `json_dumpb` of an exception. -/
  dumpbError : AnyException → Except RunException β
  /-- `LSD_PUBLISH_QUEUE_SIZE`. -/
  maxsize : ℕ

/-- How `consume` ends. -/
structure ConsumeEnd (β : Type) where
  published : List (PublishStreamEventRequest β) := []
  /-- The stream was pulled to its end, and raised nothing. -/
  exhausted : Bool := false
  raised : Option Raised := none
  deriving Repr, DecidableEq

namespace Consumption

variable {α β : Type} (c : Consumption α β)

/-- `stream_modes`, with those that `consume` adds. -/
def modes : List String :=
  "metadata" :: if "messages-tuple" ∈ c.streamModes then "messages" :: c.streamModes
    else c.streamModes

/-- What is published for an event. -/
def request (mode : String) (message : β) : PublishStreamEventRequest β where
  eventType := mode
  message := message
  resumable := c.resumable && String.ofList (mode.toList.takeWhile (· ≠ '|')) ∈ c.modes

/-- What is published for an exception. -/
def errorRequest (e : AnyException) : Option (PublishStreamEventRequest β) :=
  (c.dumpbError e).toOption.map fun message => ⟨"error", message, false⟩

/-! ### The inline path -/

/-- The `except` of `_consume_inline`: the error is published if that works, and a failure to
publish is suppressed. -/
def inlineException (n : ℕ) (e : AnyException) : ConsumeEnd β where
  published := if (c.calls n).succeeds then (c.errorRequest e.unwrap).toList else []
  raised := if e.unwrap.isStreamPublish then none else some (.exception e.unwrap)

/-- `_consume_inline`, from the call number `n`. -/
def inlineFrom (n : ℕ) : List (String × α) → ConsumeEnd β
  | [] =>
    match c.ending with
    | none => { exhausted := true }
    | some (.exception e) => c.inlineException n e
    | some raised => { raised := some raised }
  | (mode, payload) :: events =>
    match c.dumpb payload with
    | .error exception => c.inlineException n (.single .other exception)
    | .ok message =>
      match (c.calls n).result with
      | .error e => c.inlineException (n + 1) e
      | .ok _ =>
        let rest := inlineFrom (n + 1) events
        { rest with published := c.request mode message :: rest.published }

/-- `_consume_inline`. -/
def consumeInline : ConsumeEnd β := c.inlineFrom 0 c.events

end Consumption

/-! ### The queued path -/

/-- What `_consume_async_queue` is at. -/
inductive ConsumePhase (β : Type)
  /-- It pulls the stream. -/
  | streaming
  /-- `_enqueue` of an event. -/
  | enqueueing (request : PublishStreamEventRequest β)
  /-- `_enqueue` of the error. -/
  | failing (e : AnyException) (request : PublishStreamEventRequest β)
  /-- `_enqueue` of the sentinel. -/
  | closing (raised : Option Raised)
  /-- `await publisher_task`. -/
  | joining (raised : Option Raised)
  | done (raised : Option Raised)
  deriving DecidableEq

/-- The state of `_consume_async_queue` and its `_publish_worker`. -/
structure AsyncQueue (α β : Type) where
  events : List (String × α)
  phase : ConsumePhase β := .streaming
  /-- `publish_queue`; `none` is the sentinel. -/
  queue : List (Option (PublishStreamEventRequest β)) := []
  /-- The request that `_publish_worker` publishes. -/
  publishing : Option (PublishStreamEventRequest β) := none
  /-- How many calls were made. -/
  called : ℕ := 0
  /-- `_publish_worker` has returned. -/
  returned : Bool := false
  published : List (PublishStreamEventRequest β) := []
  exhausted : Bool := false
  deriving DecidableEq

/-- Which of the two tasks goes on. -/
inductive AsyncQueueAction
  | consumer | publisher
  deriving Repr, DecidableEq

namespace Consumption

variable {α β : Type} (c : Consumption α β)

/-- The `except` of `_consume_async_queue`. -/
def afterException (e : AnyException) : ConsumePhase β :=
  match c.errorRequest e.unwrap with
  | some request => .failing e.unwrap request
  | none => .closing (some (.exception e.unwrap))

/-- `publish_queue.put`, which waits where the queue is full. -/
def put (s : AsyncQueue α β) (item : Option (PublishStreamEventRequest β))
    (phase : ConsumePhase β) : Option (AsyncQueue α β) :=
  if 0 < c.maxsize ∧ c.maxsize ≤ s.queue.length then none
  else some { s with
    queue := s.queue ++ [item]
    phase := phase }

/-- `_consume_async_queue` goes on. -/
def consumerStep (s : AsyncQueue α β) : Option (AsyncQueue α β) :=
  match s.phase with
  | .streaming =>
    match s.events with
    | [] => match c.ending with
      | none => some { s with
          exhausted := true
          phase := .closing none }
      | some (.exception e) => some { s with phase := c.afterException e }
      | some raised => some { s with phase := .closing (some raised) }
    | (mode, payload) :: events =>
      match c.dumpb payload with
      | .error exception => some { s with
          events := events
          phase := c.afterException (.single .other exception) }
      | .ok message => some { s with
          events := events
          phase := .enqueueing (c.request mode message) }
  | .enqueueing request => c.put s (some request) .streaming
  | .failing e request => c.put s (some request) (.closing (some (.exception e)))
  | .closing raised => c.put s none (.joining raised)
  | .joining raised => if s.returned then some { s with phase := .done raised } else none
  | .done _ => none

/-- `_publish_worker` goes on; a failure to publish is logged. -/
def publisherStep (s : AsyncQueue α β) : Option (AsyncQueue α β) :=
  match s.publishing with
  | some request => some { s with
      publishing := none
      called := s.called + 1
      published := s.published ++ if (c.calls s.called).succeeds then [request] else [] }
  | none =>
    match s.queue with
    | [] => none
    | some request :: queue => some { s with
        queue := queue
        publishing := some request }
    | none :: queue => some { s with
        queue := queue
        returned := true }

/-- `_consume_async_queue` with its `_publish_worker`. -/
def consumeAsyncQueue : Machine (AsyncQueue α β) AsyncQueueAction where
  init s := s = { events := c.events }
  step s
    | .consumer => c.consumerStep s
    | .publisher => if s.returned then none else c.publisherStep s

end Consumption

/-- `FF_ASYNC_PUBLISH_QUEUE`. -/
inductive PublishPath
  | inline | asyncQueue
  deriving Repr, DecidableEq

/-- An end of `consume`. -/
def Consumption.Consumes {α β : Type} (c : Consumption α β) (e : ConsumeEnd β) :
    PublishPath → Prop
  | .inline => e = c.consumeInline
  | .asyncQueue => ∃ s, c.consumeAsyncQueue.Reachable Machine.free s ∧ s.phase = .done e.raised ∧
      s.published = e.published ∧ s.exhausted = e.exhausted

/-! ### The worker -/

/-- `wrap_user_errors`: a `TimeoutError` becomes a `UserTimeout`. -/
def wrapUserErrors : Raised → Raised
  | .exception (.single .timeout exception) => .exception (.single .userTimeout exception)
  | raised => raised

/-- The end of a run for what its execution raised; `none` where it is raised again. -/
def runEnd : Option Raised → Option RunEnd
  | none => some .success
  | some (.exception (.single .timeout exception)) => some (.timeout exception)
  | some (.exception (.single .userRollback _)) => some .rollback
  | some (.exception (.single .userInterrupt exception)) => some (.interrupted exception)
  | some (.exception (.single .retriable _)) | some .cancelled => some .retriable
  -- of a `UserTimeout`, the `TimeoutError` that it carries
  | some (.exception e) => some (.error e.described)
  | some (.base _) => none

/-- How the execution of a run ends. -/
def executionEnd {β : Type} (e : ConsumeEnd β) : Option RunEnd :=
  runEnd (e.raised.map wrapUserErrors)

end NextRole
