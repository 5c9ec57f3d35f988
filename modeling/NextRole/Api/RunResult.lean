import Mathlib.Data.List.Infix
import NextRole.Schema

/-!
# What waiting for a run returns

`_run_result_body` of `api/api/runs.py`, for the routes that wait for a run: the events of
the run are read to the end, and the answer is put together from the last chunk that was
kept, the chunks that seem to report interrupts, and the feedback.  The texts of the chunks
are read by `orjson`; a chunk stands here for the value that its text has.

## Main definitions

* `RunEvent` — an event of the stream of a run.
* `mentionsInterrupt` — the substring test.
* `Consumed`, `Consumed.consume` — what the loop keeps.
* `threadValuesFallback`, `mergeFeedback`, `mergeInterrupts`, `runResultBody`.
-/

namespace NextRole

/-- An event of the stream of a run: its mode and the value of its chunk. -/
structure RunEvent where
  mode : String
  chunk : Json
  deriving DecidableEq

/-- Why there is no answer: feedback for what is no object, or an error that cannot be read. -/
inductive ResultError
  | notAnObject | unreadable
  deriving DecidableEq

/-! ### Chunks -/

def interruptMarker : List Char := "__interrupt__".toList

def hasMarker (s : String) : Bool := Decidable.decide (interruptMarker <:+: s.toList)

mutual

/-- `b"__interrupt__" in chunk`: only a string or a key of the chunk has the marker in its
text, and no character of the marker is written with an escape. -/
def mentionsInterrupt : Json → Bool
  | .str s => hasMarker s
  | .arr xs => mentionsInterruptList xs
  | .obj kvs => mentionsInterruptFields kvs
  | _ => false

def mentionsInterruptList : List Json → Bool
  | [] => false
  | x :: xs => mentionsInterrupt x || mentionsInterruptList xs

def mentionsInterruptFields : List (String × Json) → Bool
  | [] => false
  | (k, x) :: kvs => hasMarker k || mentionsInterrupt x || mentionsInterruptFields kvs

end

/-- The interrupts that a chunk reports. -/
def reportedInterrupts (chunk : Json) : List Json :=
  match chunk.get? "__interrupt__" with
  | some (.arr interrupts) => interrupts
  | _ => []

def errorBody (error : Json) : Json := .obj [("__error__", error)]

def interruptBody (interrupts : List Json) : Json := .obj [("__interrupt__", .arr interrupts)]

/-- `_merge_interrupts`. -/
def mergeInterrupts (chunks : List Json) : Json := interruptBody (chunks.flatMap reportedInterrupts)

/-- `_merge_feedback`. -/
def mergeFeedback (body : Json) (feedback : Option Json) : Except ResultError Json :=
  match feedback, body with
  | none, body => .ok body
  | some feedback, .obj fields => .ok ((Json.obj fields).set "__feedback__" feedback)
  | some _, _ => .error .notAnObject

/-! ### The fallback -/

/-- The interrupts that a thread has, of all of its tasks. -/
def storedInterrupts : Json → List Json
  | .obj tasks => tasks.flatMap fun task =>
    match task.2 with
    | .arr interrupts => interrupts
    | _ => []
  | _ => []

/-- `_thread_values_fallback`, and `stateless_fallback` where there is no thread to read;
`loads` reads the text of an error. -/
def threadValuesFallback (loads : String → Option Json) : Option Thread → Except ResultError Json
  | none => .ok (.obj [])
  | some thread =>
    if thread.status = .error then
      match thread.error.bind loads with
      | some error => .ok (errorBody error)
      | none => .error .unreadable
    else if thread.status = .interrupted ∧ storedInterrupts thread.interrupts ≠ [] then
      .ok (interruptBody (storedInterrupts thread.interrupts))
    -- an interrupt before or after a node has no interrupts
    else if truthy thread.values then .ok (thread.values.getD .null)
    else .ok (.obj [])

/-! ### The loop -/

/-- What the loop over the events keeps. -/
structure Consumed where
  vchunk : Option Json := none
  fchunk : Option Json := none
  interruptChunks : List Json := []
  sawError : Bool := false
  deriving DecidableEq

namespace RunEvent

/-- The event is kept as values. -/
def KeptAsValues (e : RunEvent) : Prop :=
  e.mode = "values" ∨ (e.mode = "updates" ∧ mentionsInterrupt e.chunk = true)

instance (e : RunEvent) : Decidable e.KeptAsValues := inferInstanceAs (Decidable (_ ∨ _))

end RunEvent

/-- One turn of the loop. -/
def Consumed.consume (s : Consumed) (e : RunEvent) : Consumed :=
  if e.KeptAsValues then
    { s with
      vchunk := some e.chunk
      interruptChunks :=
        if mentionsInterrupt e.chunk then s.interruptChunks ++ [e.chunk] else s.interruptChunks }
  else if e.mode = "error" then
    { s with vchunk := some (errorBody e.chunk), sawError := true }
  else if e.mode = "feedback" then { s with fchunk := some e.chunk }
  else s

/-- The chunk that is answered with, if there is one. -/
def Consumed.lastChunk (s : Consumed) (fallback : Option (Except ResultError Json)) :
    Except ResultError (Option Json) :=
  if s.sawError then .ok s.vchunk
  else if s.interruptChunks.length > 1 then .ok (some (mergeInterrupts s.interruptChunks))
  else
    match s.interruptChunks.getLast?, s.vchunk, fallback with
    | some chunk, _, _ => .ok (some chunk)
    | none, some chunk, _ => .ok (some chunk)
    | none, none, some fallback => fallback.map some
    | none, none, none => .ok none

/-- `_run_result_body`: the answer to the events of a run. -/
def runResultBody (fallback : Option (Except ResultError Json)) (events : List RunEvent) :
    Except ResultError Json := do
  let s := events.foldl Consumed.consume {}
  match ← s.lastChunk fallback with
  | some chunk => mergeFeedback chunk s.fchunk
  | none =>
    .ok (match s.fchunk with
      | some feedback => .obj [("__feedback__", feedback)]
      | none => .obj [])

/-- `wait_run`, `join_run` and `wait_run_stateless`, after the run was created. -/
def waitRun (loads : String → Option Json) (thread : Option Thread) (events : List RunEvent) :
    Except ResultError Json :=
  runResultBody (some (threadValuesFallback loads thread)) events

end NextRole
