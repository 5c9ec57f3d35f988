import NextRole.Filters
import NextRole.Lib.Log
import NextRole.Lib.Transition
import Mathlib.Data.Prod.Lex

/-!
# Event streams

The streaming methods of `servicers/runs.py` and `servicers/threads.py` over Redis:
`_fanout_event` logs the structural events of a thread and publishes every event on a
channel of the run, `Runs.Stream` follows channels, and `Threads.Stream` replays the
log of a thread and then follows the channels of its runs.  Every step is one Redis
call, or one entry of a page that a handler has read.

## Main definitions

* `EntryId`, `streamIdAfter` — ids of log entries and their comparison.
* `StreamEvent`, `Publication`, `Channel` — what is published, and where.
* `shouldFilter`, `convert` — what a subscriber of a thread is shown.
* `ThreadStream`, `RunStream` — the two handlers.
* `streams` — publishers and subscribers over one Redis.

## Main results

* `streamIdAfter_text` — the comparison of two ids as texts is their order.
-/

namespace NextRole

/-! ### Ids of log entries -/

/-- The id of an entry of a Redis stream: milliseconds and a sequence number. -/
abbrev EntryId := ℕ ×ₗ ℕ

/-- The id `"0-0"`, below the id of every entry. -/
def EntryId.zero : EntryId := toLex (0, 0)

/-- The text `"<ms>-<seq>"` of an id. -/
def EntryId.text (id : EntryId) : String := toString (ofLex id).1 ++ "-" ++ toString (ofLex id).2

/-- `int` of a text of digits. -/
def int? (digits : List Char) : Option ℕ :=
  if digits ≠ [] ∧ digits.all Char.isDigit then some (Nat.ofDigitChars 10 digits 0) else none

/-- `parts` in `_stream_id_after`: the numbers around the first dash. -/
def parts (streamId : String) : ℕ ×ₗ ℕ :=
  let ms := streamId.toList.takeWhile (· ≠ '-')
  let seq := (streamId.toList.dropWhile (· ≠ '-')).drop 1
  match int? ms, int? (if seq = [] then ['0'] else seq) with
  | some ms, some seq => toLex (ms, seq)
  | _, _ => toLex (0, 0)

/-- `_stream_id_after`. -/
def streamIdAfter (candidate threshold : String) : Bool := parts threshold < parts candidate

theorem int?_toDigits (n : ℕ) : int? (Nat.toDigits 10 n) = some n := by
  have hdigits : (Nat.toDigits 10 n).all Char.isDigit = true := by
    rw [List.all_eq_true]
    intro c hc
    exact Nat.isDigit_of_mem_toDigits (by omega) (by omega) hc
  rw [int?, if_pos ⟨Nat.toDigits_ne_nil, hdigits⟩, Nat.ofDigitChars_ten_toDigits]

/-- The text of an id has its numbers as parts. -/
theorem parts_text (id : EntryId) : parts id.text = id := by
  have hne : ∀ n : ℕ, ∀ c ∈ Nat.toDigits 10 n, (c ≠ '-') := by
    intro n c hc hdash
    have hdigit := Nat.isDigit_of_mem_toDigits (by omega) (by omega) hc
    rw [hdash] at hdigit
    exact absurd hdigit (by decide)
  have htext : id.text.toList = Nat.toDigits 10 (ofLex id).1 ++ '-' :: Nat.toDigits 10 (ofLex id).2 := by
    simp [EntryId.text]
  have htake : id.text.toList.takeWhile (· ≠ '-') = Nat.toDigits 10 (ofLex id).1 := by
    rw [htext, List.takeWhile_append_of_pos (by simpa using hne _)]
    simp
  have hdrop : (id.text.toList.dropWhile (· ≠ '-')).drop 1 = Nat.toDigits 10 (ofLex id).2 := by
    rw [htext, List.dropWhile_append_of_pos (by simpa using hne _)]
    simp
  simp only [parts]
  rw [htake, hdrop, if_neg Nat.toDigits_ne_nil, int?_toDigits, int?_toDigits]
  rfl

@[simp] theorem streamIdAfter_text (candidate threshold : EntryId) :
    streamIdAfter candidate.text threshold.text = decide (threshold < candidate) := by
  rw [streamIdAfter, parts_text, parts_text]

/-! ### Events -/

/-- The bytes of a message as the handlers see them: a JSON text by its value, other
bytes as they are. -/
inductive Payload
  | json (value : Json)
  | bytes (raw : String)
  deriving DecidableEq

structure StreamEvent where
  eventType : String
  message : Payload
  runId : Option Uuid := none
  streamId : Option EntryId := none
  deriving DecidableEq

/-- The base type of an event, without the suffixes for a namespace and a kind. -/
def StreamEvent.baseType (ev : StreamEvent) : String :=
  String.ofList ((ev.eventType.toList.takeWhile (· ≠ '|')).takeWhile (· ≠ '/'))

/-- The chunked message events, which are not logged. -/
def StreamEvent.isChunk (ev : StreamEvent) : Bool := ev.baseType = "messages"

/-- The event with the id of its log entry. -/
def StreamEvent.stamp (ev : StreamEvent) (streamId : Option EntryId) : StreamEvent :=
  { ev with streamId }

@[simp] theorem StreamEvent.stamp_streamId (ev : StreamEvent) (streamId : Option EntryId) :
    (ev.stamp streamId).streamId = streamId := rfl

@[simp] theorem StreamEvent.stamp_isChunk (ev : StreamEvent) (streamId : Option EntryId) :
    (ev.stamp streamId).isChunk = ev.isChunk := rfl

/-- The end marker of a run. -/
def StreamEvent.isDone (ev : StreamEvent) : Bool :=
  ev.eventType = "control" ∧ ev.message = .bytes "done"

/-- `channel_run_stream`; without a run the channel has a literal `*` for its id. -/
structure Channel where
  threadId : Uuid
  runId : Option Uuid
  deriving DecidableEq

/-- The calls that publish an event: `Publish` and `MarkDone`. -/
inductive Publication
  | publish (threadId : Uuid) (runId : Option Uuid) (eventType : String) (message : Payload)
  | markDone (threadId runId : Uuid)

/-- The channel that an event is published on. -/
def Publication.channel : Publication → Channel
  | publish threadId runId _ _ => ⟨threadId, runId⟩
  | markDone threadId runId => ⟨threadId, some runId⟩

/-- The event of a call. -/
def Publication.event : Publication → StreamEvent
  | publish _ runId eventType message => { eventType, message, runId }
  | markDone _ runId => { eventType := "control", message := .bytes "done", runId := some runId }

/-- An entry of the log of a thread. -/
structure Entry where
  id : EntryId
  event : StreamEvent
  deriving DecidableEq

/-- How the logging part of `_fanout_event` ends: XADD and EXPIRE succeed, only XADD
does, or XADD fails.  The exception is suppressed; without it the published copy of the
event gets the id of its entry. -/
inductive LogOutcome
  | logged (id : EntryId)
  | unstamped (id : EntryId)
  | failed

/-- The id that XADD has returned. -/
def LogOutcome.entryId? : LogOutcome → Option EntryId
  | logged id | unstamped id => some id
  | failed => none

/-- The id that the published copy of the event carries. -/
def LogOutcome.stamp : LogOutcome → Option EntryId
  | logged id => some id
  | _ => none

/-! ### What a subscriber of a thread is shown -/

inductive ThreadStreamMode
  | unknown | lifecycle | runModes | stateUpdate
  deriving DecidableEq

/-- `should_filter`.  It has no result when it raises: a decoded message that is not an
object has no `get`, and only what a decoder raises is caught. -/
def shouldFilter (modes : List ThreadStreamMode) (eventName : String) (message : Payload) :
    Option Bool :=
  if modes = [] then some false
  else if .runModes ∈ modes ∧ eventName ≠ "state_update" then some false
  else if .stateUpdate ∈ modes ∧ eventName = "state_update" then some false
  else if .lifecycle ∈ modes ∧ eventName = "metadata" then
    match message with
    | .bytes _ => some true
    | .json (.obj d) =>
      if (Json.obj d).get? "status" = some (.str "run_done") then some false
      else if ((Json.obj d).get? "attempt").isSome && ((Json.obj d).get? "run_id").isSome then
        some false
      else some true
    | .json _ => none
  else some true

/-- The event type and the message that `convert` shows: the end marker of a run
becomes a metadata event. -/
def StreamEvent.shown (ev : StreamEvent) : String × Payload :=
  if ev.isDone then
    ("metadata", .json (.obj [("status", .str "run_done"),
      ("run_id", .str (ev.runId.elim "" Uuid.text))]))
  else (ev.eventType, ev.message)

/-- `convert`: nothing for a filtered event.  It has no result when `should_filter` raises. -/
def convert (modes : List ThreadStreamMode) (ev : StreamEvent) (streamId : Option EntryId) :
    Option (Option StreamEvent) :=
  (shouldFilter modes ev.shown.1 ev.shown.2).map fun filtered =>
    if filtered then none
    else some { eventType := ev.shown.1, message := ev.shown.2, runId := ev.runId, streamId }

/-! ### The handler of `Threads.Stream` -/

/-- An event that a handler has yielded, with the thread whose log or channel it was
read from; an answer to a request of the subscriber has none. -/
structure Yielded where
  source : Option Uuid
  event : StreamEvent

/-- The field `last_event_id` of a request. -/
inductive LastEventId
  | unset
  | beginning
  | after (id : EntryId)
  deriving DecidableEq

/-- Where replay starts, if there is any. -/
def LastEventId.replayFrom : LastEventId → Option EntryId
  | unset => none
  | beginning => some .zero
  | after id => some id

/-- Where the handler of a thread's stream stands: it reads the log from a cursor and
holds the rest of a page, or it follows the channels; an exception or the client has
ended it. -/
inductive Phase
  | replay (cursor : EntryId) (page : List Entry)
  | live
  | failed
  | closed
  deriving DecidableEq

structure StreamThreadRequest where
  threadId : Uuid
  filters : List AuthFilter := []
  streamModes : List ThreadStreamMode := []
  lastEventId : LastEventId := .unset

structure ThreadStream where
  request : StreamThreadRequest
  /-- How many messages had been published at PSUBSCRIBE. -/
  since : ℕ
  phase : Phase
  replayedUpTo : EntryId := .zero
  /-- What the subscription has received and the handler has not. -/
  buffer : List (Channel × StreamEvent) := []
  yielded : List Yielded := []

/-- The subscription to the channels of all runs of the thread. -/
def ThreadStream.matches (h : ThreadStream) (ch : Channel) : Bool :=
  ch.threadId = h.request.threadId

/-- A message that the subscription receives. -/
def ThreadStream.deliver (m : Channel × StreamEvent) (h : ThreadStream) : ThreadStream :=
  if h.matches m.1 then { h with buffer := h.buffer ++ [m] } else h

/-- The handler after PSUBSCRIBE. -/
def ThreadStream.opened (request : StreamThreadRequest) (since : ℕ) : ThreadStream where
  request
  since
  phase :=
    match request.lastEventId.replayFrom with
    | some cursor => .replay cursor []
    | none => .live

/-- Yielding an event as `convert` shows it. -/
def ThreadStream.emit (h : ThreadStream) (source : Uuid) (ev : StreamEvent)
    (streamId : Option EntryId) : ThreadStream :=
  match convert h.request.streamModes ev streamId with
  | none => { h with phase := .failed }
  | some none => h
  | some (some out) => { h with yielded := h.yielded ++ [⟨some source, out⟩] }

/-- Whether replay has delivered a live event. -/
def ThreadStream.covers (h : ThreadStream) (ev : StreamEvent) : Bool :=
  ev.streamId.any fun id => !streamIdAfter id.text h.replayedUpTo.text

/-- The next thing that the handler does: an entry of its page, the next XREAD, or a
message of the subscription. -/
def ThreadStream.next (h : ThreadStream) (log : List Entry) : Option ThreadStream :=
  match h.phase with
  | .replay cursor [] =>
    match (Log.after Entry.id cursor log).take 256 with
    | [] => some { h with phase := .live }
    | entry :: page => some { h with phase := .replay cursor (entry :: page) }
  | .replay _ (entry :: page) =>
    some (emit { h with phase := .replay entry.id page, replayedUpTo := entry.id }
      h.request.threadId entry.event (some entry.id))
  | .live =>
    match h.buffer with
    | [] => none
    | (ch, ev) :: buffer =>
      if h.covers ev then some { h with buffer }
      else some (emit { h with buffer } ch.threadId ev ev.streamId)
  | .failed | .closed => none

/-- What a subscriber is shown of an event, if its conversion has a result. -/
def display (modes : List ThreadStreamMode) (ev : StreamEvent) (streamId : Option EntryId) :
    Option StreamEvent :=
  (convert modes ev streamId).join

theorem display_eq_some {modes : List ThreadStreamMode} {ev out : StreamEvent}
    {streamId : Option EntryId} (h : display modes ev streamId = some out) :
    out = { eventType := ev.shown.1, message := ev.shown.2, runId := ev.runId, streamId } := by
  simp only [display, convert, Option.join_eq_some_iff, Option.map_eq_some_iff] at h
  obtain ⟨filtered, -, h⟩ := h
  split at h
  · cases h
  · exact (Option.some.inj h).symm

theorem display_streamId {modes : List ThreadStreamMode} {ev out : StreamEvent}
    {streamId : Option EntryId} (h : display modes ev streamId = some out) :
    out.streamId = streamId := by
  rw [display_eq_some h]

namespace ThreadStream

variable (h : ThreadStream) (source : Uuid) (ev : StreamEvent) (streamId : Option EntryId)

@[simp] theorem emit_request : (h.emit source ev streamId).request = h.request := by
  unfold emit
  split <;> rfl

@[simp] theorem emit_since : (h.emit source ev streamId).since = h.since := by
  unfold emit
  split <;> rfl

@[simp] theorem emit_replayedUpTo :
    (h.emit source ev streamId).replayedUpTo = h.replayedUpTo := by
  unfold emit
  split <;> rfl

@[simp] theorem emit_buffer : (h.emit source ev streamId).buffer = h.buffer := by
  unfold emit
  split <;> rfl

theorem emit_yielded :
    (h.emit source ev streamId).yielded = h.yielded ++
      ((display h.request.streamModes ev streamId).map (Yielded.mk (some source))).toList := by
  unfold emit display
  split
  · next hc => simp [hc]
  · next hc => simp [hc]
  · next hc => simp [hc]

@[simp] theorem deliver_request (m : Channel × StreamEvent) :
    (h.deliver m).request = h.request := by
  unfold deliver
  split <;> rfl

@[simp] theorem deliver_since (m : Channel × StreamEvent) : (h.deliver m).since = h.since := by
  unfold deliver
  split <;> rfl

@[simp] theorem deliver_phase (m : Channel × StreamEvent) : (h.deliver m).phase = h.phase := by
  unfold deliver
  split <;> rfl

@[simp] theorem deliver_replayedUpTo (m : Channel × StreamEvent) :
    (h.deliver m).replayedUpTo = h.replayedUpTo := by
  unfold deliver
  split <;> rfl

@[simp] theorem deliver_yielded (m : Channel × StreamEvent) :
    (h.deliver m).yielded = h.yielded := by
  unfold deliver
  split <;> rfl

theorem deliver_buffer (m : Channel × StreamEvent) :
    (h.deliver m).buffer = h.buffer ++ if h.matches m.1 then [m] else [] := by
  unfold deliver
  split
  · rfl
  · simp

theorem deliver_eq (m : Channel × StreamEvent) :
    h.deliver m = { h with buffer := (h.deliver m).buffer } := by
  unfold deliver
  split <;> rfl

theorem emit_phase :
    (h.emit source ev streamId).phase =
      if convert h.request.streamModes ev streamId = none then .failed else h.phase := by
  unfold emit
  split
  · next hc => rw [if_pos hc]
  · next hc => rw [if_neg (by rw [hc]; exact Option.some_ne_none _)]
  · next hc => rw [if_neg (by rw [hc]; exact Option.some_ne_none _)]

theorem phase_of_emit {phase : Phase} (hp : (h.emit source ev streamId).phase = phase)
    (hne : phase ≠ .failed) : h.phase = phase := by
  rw [emit_phase] at hp
  split at hp
  · exact absurd hp.symm hne
  · exact hp

variable {h} {h' : ThreadStream} {log : List Entry}

/-- **What the handler does next**: XREAD returns nothing or a page, the handler takes
an entry of its page, or it takes a message, which replay has covered or not. -/
theorem next_cases (hn : h.next log = some h') :
    (∃ cursor, h.phase = .replay cursor [] ∧ Log.after Entry.id cursor log = [] ∧
      h' = { h with phase := .live }) ∨
    (∃ cursor page, h.phase = .replay cursor [] ∧
      page = (Log.after Entry.id cursor log).take 256 ∧ page ≠ [] ∧
      h' = { h with phase := .replay cursor page }) ∨
    (∃ cursor entry page, h.phase = .replay cursor (entry :: page) ∧
      h' = emit { h with phase := .replay entry.id page, replayedUpTo := entry.id }
        h.request.threadId entry.event (some entry.id)) ∨
    (∃ ch ev buffer, h.phase = .live ∧ h.buffer = (ch, ev) :: buffer ∧ h.covers ev = true ∧
      h' = { h with buffer }) ∨
    (∃ ch ev buffer, h.phase = .live ∧ h.buffer = (ch, ev) :: buffer ∧ h.covers ev = false ∧
      h' = emit { h with buffer } ch.threadId ev ev.streamId) := by
  unfold next at hn
  split at hn
  · next cursor hphase =>
    split at hn
    · next hpage =>
      have hnil : Log.after Entry.id cursor log = [] := by simpa using hpage
      exact .inl ⟨cursor, hphase, hnil, (Option.some.inj hn).symm⟩
    · next entry page hpage =>
      exact .inr (.inl ⟨cursor, _, hphase, hpage.symm, by simp, (Option.some.inj hn).symm⟩)
  · next cursor entry page hphase =>
    exact .inr (.inr (.inl ⟨cursor, entry, page, hphase, (Option.some.inj hn).symm⟩))
  · next hphase =>
    split at hn
    · cases hn
    · next ch ev buffer hbuffer =>
      split at hn
      · next hc =>
        exact .inr (.inr (.inr (.inl ⟨ch, ev, buffer, hphase, hbuffer, hc, (Option.some.inj hn).symm⟩)))
      · next hc =>
        rw [Bool.not_eq_true] at hc
        exact .inr (.inr (.inr (.inr ⟨ch, ev, buffer, hphase, hbuffer, hc, (Option.some.inj hn).symm⟩)))
  · cases hn
  · cases hn

/-- A handler without a next step waits for a message or has ended. -/
theorem next_eq_none (hn : h.next log = none) :
    (h.phase = .live ∧ h.buffer = []) ∨ h.phase = .failed ∨ h.phase = .closed := by
  unfold next at hn
  split at hn
  · split at hn
    · cases hn
    · cases hn
  · cases hn
  · next hphase =>
    split at hn
    · next hbuffer => exact .inl ⟨hphase, hbuffer⟩
    · split at hn
      · cases hn
      · cases hn
  · next hphase => exact .inr (.inl hphase)
  · next hphase => exact .inr (.inr hphase)

theorem next_request (hn : h.next log = some h') : h'.request = h.request ∧ h'.since = h.since := by
  rcases next_cases hn with ⟨cursor, -, -, rfl⟩ | ⟨cursor, page, -, -, -, rfl⟩ |
    ⟨cursor, entry, page, -, rfl⟩ | ⟨ch, ev, buffer, -, -, -, rfl⟩ | ⟨ch, ev, buffer, -, -, -, rfl⟩
  · exact ⟨rfl, rfl⟩
  · exact ⟨rfl, rfl⟩
  · exact ⟨emit_request .., emit_since ..⟩
  · exact ⟨rfl, rfl⟩
  · exact ⟨emit_request .., emit_since ..⟩

theorem covers_eq_true {ev : StreamEvent} :
    h.covers ev = true ↔ ∃ id, ev.streamId = some id ∧ id ≤ h.replayedUpTo := by
  simp [covers, Option.any_eq_true]

end ThreadStream

/-! ### The handler of `Runs.Stream` -/

/-- Where the handler of a run's stream stands: it reads requests, or it follows its
channels, or it has returned. -/
inductive RunStreamPhase
  | requests | live | ended
  deriving DecidableEq

structure RunStream where
  /-- The filters of the subscriber, which its join request carries. -/
  filters : List AuthFilter
  channels : List Channel := []
  /-- The thread and the run that the last subscribe request names. -/
  named : Option (Uuid × Uuid) := none
  phase : RunStreamPhase := .requests
  idle : ℕ := 0
  buffer : List (Channel × StreamEvent) := []
  yielded : List Yielded := []

/-- A subscribe request. -/
def RunStream.subscribe (h : RunStream) (threadId runId : Uuid) : Option RunStream :=
  if h.phase = .requests then
    some { h with
      channels := ⟨threadId, some runId⟩ :: h.channels
      named := some (threadId, runId)
      yielded := h.yielded ++ [⟨none, { eventType := "control", message := .bytes "subscribed" }⟩] }
  else none

/-- A join request, or the end of the requests.  The filters of the request are not
looked at. -/
def RunStream.join (h : RunStream) : Option RunStream :=
  if h.phase = .requests then
    some { h with phase := if h.named.isNone then .ended else .live }
  else none

/-- A message of the subscription. -/
def RunStream.next (h : RunStream) : Option RunStream :=
  if h.phase = .live then
    match h.buffer with
    | [] => none
    | (ch, ev) :: buffer =>
      if ev.isDone then some { h with buffer, idle := 0, phase := .ended }
      else some { h with buffer, idle := 0, yielded := h.yielded ++ [⟨some ch.threadId, ev⟩] }
  else none

/-- A message that the subscription receives. -/
def RunStream.deliver (m : Channel × StreamEvent) (h : RunStream) : RunStream :=
  if m.1 ∈ h.channels then { h with buffer := h.buffer ++ [m] } else h

namespace RunStream

variable (h : RunStream) (m : Channel × StreamEvent)

@[simp] theorem deliver_filters : (h.deliver m).filters = h.filters := by
  unfold deliver
  split <;> rfl

@[simp] theorem deliver_channels : (h.deliver m).channels = h.channels := by
  unfold deliver
  split <;> rfl

@[simp] theorem deliver_yielded : (h.deliver m).yielded = h.yielded := by
  unfold deliver
  split <;> rfl

theorem deliver_buffer :
    (h.deliver m).buffer = h.buffer ++ if m.1 ∈ h.channels then [m] else [] := by
  unfold deliver
  split
  · rfl
  · simp

end RunStream

/-- `_run_finished`. -/
def runFinished (d : Database) (runId : Uuid) : Bool :=
  (d.run.get? runId).elim true fun r => !r.status.inflight

/-- A second without a message. -/
def RunStream.timeout (h : RunStream) (d : Database) : Option RunStream :=
  if h.phase = .live ∧ h.buffer = [] then
    some { h with
      idle := h.idle + 1
      phase := if 3 ≤ h.idle + 1 ∧ h.named.any (fun n => runFinished d n.2) then .ended else .live }
  else none

/-! ### Publishers and subscribers -/

/-- A streaming call. -/
inductive Conn
  | thread (h : ThreadStream)
  | run (h : RunStream)

/-- The filters of the subscriber. -/
def Conn.filters : Conn → List AuthFilter
  | thread h => h.request.filters
  | run h => h.filters

/-- What the call has yielded. -/
def Conn.yielded : Conn → List Yielded
  | thread h => h.yielded
  | run h => h.yielded

/-- What its subscription has received and the handler has not. -/
def Conn.buffer : Conn → List (Channel × StreamEvent)
  | thread h => h.buffer
  | run h => h.buffer

/-- Whether it has subscribed to a channel. -/
def Conn.subscribes (ch : Channel) : Conn → Bool
  | thread h => h.matches ch
  | run h => ch ∈ h.channels

/-- A published message reaches the subscriptions to its channel.  Nobody reads what
reaches a call that has ended. -/
def Conn.deliver (m : Channel × StreamEvent) : Conn → Conn
  | thread h => .thread (h.deliver m)
  | run h => .run (h.deliver m)

@[simp] theorem Conn.deliver_filters (m : Channel × StreamEvent) (conn : Conn) :
    (conn.deliver m).filters = conn.filters := by
  cases conn with
  | thread h => exact congrArg StreamThreadRequest.filters (h.deliver_request m)
  | run h => exact h.deliver_filters m

@[simp] theorem Conn.deliver_yielded (m : Channel × StreamEvent) (conn : Conn) :
    (conn.deliver m).yielded = conn.yielded := by
  cases conn with
  | thread h => exact h.deliver_yielded m
  | run h => exact h.deliver_yielded m

@[simp] theorem Conn.deliver_subscribes (m : Channel × StreamEvent) (conn : Conn) (ch : Channel) :
    (conn.deliver m).subscribes ch = conn.subscribes ch := by
  cases conn with
  | thread h => simp only [deliver, subscribes, ThreadStream.matches, ThreadStream.deliver_request]
  | run h => simp only [deliver, subscribes, RunStream.deliver_channels]

theorem Conn.deliver_buffer (m : Channel × StreamEvent) (conn : Conn) :
    (conn.deliver m).buffer = conn.buffer ++ if conn.subscribes m.1 then [m] else [] := by
  cases conn with
  | thread h => exact h.deliver_buffer m
  | run h =>
    simp only [subscribes, decide_eq_true_eq]
    exact h.deliver_buffer m

def Conn.subscribe (threadId runId : Uuid) : Conn → Option Conn
  | thread _ => none
  | run h => (h.subscribe threadId runId).map .run

def Conn.join : Conn → Option Conn
  | thread _ => none
  | run h => h.join.map .run

def Conn.next (log : Uuid → List Entry) : Conn → Option Conn
  | thread h => (h.next (log h.request.threadId)).map .thread
  | run h => h.next.map .run

/-- The handler of a thread's stream goes on waiting. -/
def Conn.timeout (d : Database) : Conn → Option Conn
  | thread h => some (.thread h)
  | run h => (h.timeout d).map .run

/-- The subscriber disconnects. -/
def Conn.close : Conn → Option Conn
  | thread h => some (.thread { h with phase := .closed })
  | run h => some (.run { h with phase := .ended })

structure Streams where
  /-- The log of a thread, oldest entry first. -/
  log : Uuid → List Entry := fun _ => []
  /-- The last id that XADD has given out for the log of a thread. -/
  lastId : Uuid → EntryId := fun _ => .zero
  /-- The calls of `_fanout_event` that have not published yet. -/
  inflight : List (Channel × StreamEvent) := []
  /-- What has been published, oldest first. -/
  published : List (Channel × StreamEvent) := []
  conns : List Conn := []

/-- Some thread stream of the connections satisfies `p`. -/
def Streams.anyThread (s : Streams) (p : ThreadStream → Bool) : Bool :=
  s.conns.any fun conn =>
    match conn with
    | .run _ => false
    | .thread h => p h

theorem Streams.exists_of_anyThread {s : Streams} {p : ThreadStream → Bool}
    (h : s.anyThread p = true) : ∃ h, Conn.thread h ∈ s.conns ∧ p h = true := by
  obtain ⟨conn, hconn, hp⟩ := List.any_eq_true.mp h
  cases conn with
  | run h => cases hp
  | thread h => exact ⟨h, hconn, hp⟩

/-- The logging part of `_fanout_event`. -/
def Streams.fanout (s : Streams) (call : Publication) (outcome : LogOutcome) : Option Streams :=
  let ch := call.channel
  let ev := call.event
  if ev.isChunk then some { s with inflight := s.inflight ++ [(ch, ev)] }
  else
    match outcome.entryId? with
    | none => some { s with inflight := s.inflight ++ [(ch, ev)] }
    | some id =>
      if s.lastId ch.threadId < id then some { s with
        log := Function.update s.log ch.threadId (s.log ch.threadId ++ [⟨id, ev⟩])
        lastId := Function.update s.lastId ch.threadId id
        inflight := s.inflight ++ [(ch, ev.stamp outcome.stamp)] }
      else none

/-- The publishing part; a failure is suppressed. -/
def Streams.publish (s : Streams) (i : ℕ) (succeeds : Bool) : Option Streams :=
  s.inflight[i]?.map fun m =>
    if succeeds then { s with
      inflight := s.inflight.eraseIdx i
      published := s.published ++ [m]
      conns := s.conns.map (Conn.deliver m) }
    else { s with inflight := s.inflight.eraseIdx i }

/-- A step of one call. -/
def Streams.modify (s : Streams) (c : ℕ) (f : Conn → Option Conn) : Option Streams :=
  s.conns[c]?.bind fun conn => (f conn).map fun conn' => { s with conns := s.conns.set c conn' }

inductive StreamAction
  | fanout (call : Publication) (outcome : LogOutcome)
  | publish (i : ℕ) (succeeds : Bool)
  /-- The log of a thread loses its oldest entries, all of them when its key expires. -/
  | trim (threadId : Uuid) (n : ℕ)
  | openThread (request : StreamThreadRequest)
  | openRun (filters : List AuthFilter)
  | subscribe (c : ℕ) (threadId runId : Uuid)
  | join (c : ℕ)
  | next (c : ℕ)
  | timeout (c : ℕ)
  | close (c : ℕ)

/-- One step over the database `d`. -/
def streamStep (d : Database) (s : Streams) : StreamAction → Option Streams
  | .fanout call outcome => s.fanout call outcome
  | .publish i succeeds => s.publish i succeeds
  | .trim threadId n =>
    some { s with log := Function.update s.log threadId ((s.log threadId).drop n) }
  | .openThread request =>
    -- the ownership gate is the `EXISTS` of a run's owner clause
    if threadOwnerClause request.filters d.thread request.threadId then
      some { s with conns := s.conns ++ [.thread (.opened request s.published.length)] }
    else some s
  | .openRun filters => some { s with conns := s.conns ++ [.run { filters }] }
  | .subscribe c threadId runId => s.modify c (Conn.subscribe threadId runId)
  | .join c => s.modify c Conn.join
  | .next c => s.modify c (Conn.next s.log)
  | .timeout c => s.modify c (Conn.timeout d)
  | .close c => s.modify c Conn.close

/-- Publishers and subscribers over one Redis, from an empty one. -/
def streams (d : Database) : Machine Streams StreamAction where
  init s := s = {}
  step := streamStep d

/-! ### What a step does to the calls -/

/-- A step of the call `c` of its own, given the logs. -/
inductive Conn.Step (d : Database) (log : Uuid → List Entry) (c : ℕ) :
    StreamAction → Conn → Conn → Prop
  | subscribe {h h' : RunStream} {threadId runId : Uuid} (hs : h.subscribe threadId runId = some h') :
      Step d log c (.subscribe c threadId runId) (.run h) (.run h')
  | join {h h' : RunStream} (hs : h.join = some h') : Step d log c (.join c) (.run h) (.run h')
  | nextThread {h h' : ThreadStream} (hs : h.next (log h.request.threadId) = some h') :
      Step d log c (.next c) (.thread h) (.thread h')
  | nextRun {h h' : RunStream} (hs : h.next = some h') : Step d log c (.next c) (.run h) (.run h')
  | timeoutThread {h : ThreadStream} : Step d log c (.timeout c) (.thread h) (.thread h)
  | timeoutRun {h h' : RunStream} (hs : h.timeout d = some h') :
      Step d log c (.timeout c) (.run h) (.run h')
  | closeThread {h : ThreadStream} :
      Step d log c (.close c) (.thread h) (.thread { h with phase := .closed })
  | closeRun {h : RunStream} : Step d log c (.close c) (.run h) (.run { h with phase := .ended })

theorem Streams.mem_modify {s s' : Streams} {c : ℕ} {f : Conn → Option Conn}
    (h : s.modify c f = some s') :
    ∃ conn conn', s.conns[c]? = some conn ∧ f conn = some conn' ∧
      s' = { s with conns := s.conns.set c conn' } := by
  simp only [modify, Option.bind_eq_some_iff, Option.map_eq_some_iff] at h
  obtain ⟨conn, hc, conn', hf, rfl⟩ := h
  exact ⟨conn, conn', hc, hf, rfl⟩

/-- **Logging an event**: a chunk and an event whose XADD fails are not logged. -/
theorem Streams.fanout_cases {s s' : Streams} {call : Publication} {outcome : LogOutcome}
    (h : s.fanout call outcome = some s') :
    ((call.event.isChunk = true ∨ outcome.entryId? = none) ∧
      s' = { s with inflight := s.inflight ++ [(call.channel, call.event)] }) ∨
    (∃ id, call.event.isChunk = false ∧ outcome.entryId? = some id ∧
      s.lastId call.channel.threadId < id ∧
      s' = { s with
        log := Function.update s.log call.channel.threadId
          (s.log call.channel.threadId ++ [⟨id, call.event⟩])
        lastId := Function.update s.lastId call.channel.threadId id
        inflight := s.inflight ++
          [(call.channel, call.event.stamp outcome.stamp)] }) := by
  simp only [fanout] at h
  split at h
  · next hchunk => exact .inl ⟨.inl hchunk, (Option.some.inj h).symm⟩
  · next hchunk =>
    rw [Bool.not_eq_true] at hchunk
    split at h
    · next hid => exact .inl ⟨.inr hid, (Option.some.inj h).symm⟩
    · next id hid =>
      split at h
      · next hlt => exact .inr ⟨id, hchunk, hid, hlt, (Option.some.inj h).symm⟩
      · cases h

theorem Streams.fanout_conns {s s' : Streams} {call : Publication} {outcome : LogOutcome}
    (h : s.fanout call outcome = some s') : s'.conns = s.conns := by
  rcases fanout_cases h with ⟨-, rfl⟩ | ⟨id, -, -, -, rfl⟩
  · rfl
  · rfl

theorem Streams.log_subset_fanout {s s' : Streams} {call : Publication} {outcome : LogOutcome}
    (h : s.fanout call outcome = some s') (threadId : Uuid) :
    s.log threadId ⊆ s'.log threadId := by
  rcases fanout_cases h with ⟨-, rfl⟩ | ⟨id, -, -, -, rfl⟩
  · exact List.Subset.refl _
  · by_cases hid : threadId = call.channel.threadId
    · simp only [hid, Function.update_self]
      exact List.subset_append_left ..
    · simp only [Function.update_of_ne hid]
      exact List.Subset.refl _

theorem Streams.publish_cases {s s' : Streams} {i : ℕ} {succeeds : Bool}
    (h : s.publish i succeeds = some s') :
    ∃ m, s.inflight[i]? = some m ∧
      ((succeeds = false ∧ s' = { s with inflight := s.inflight.eraseIdx i }) ∨
        (succeeds = true ∧ s' = { s with
          inflight := s.inflight.eraseIdx i
          published := s.published ++ [m]
          conns := s.conns.map (Conn.deliver m) })) := by
  obtain ⟨m, hm, rfl⟩ := Option.map_eq_some_iff.mp h
  refine ⟨m, hm, ?_⟩
  cases succeeds with
  | false => exact .inl ⟨rfl, rfl⟩
  | true => exact .inr ⟨rfl, rfl⟩

theorem connStep_of_modify {d : Database} {s s' : Streams} {a : StreamAction} {c : ℕ}
    {f : Conn → Option Conn} (hs : s.modify c f = some s')
    (hf : ∀ conn conn', f conn = some conn' → Conn.Step d s.log c a conn conn') :
    ∃ c conn conn', s.conns[c]? = some conn ∧ Conn.Step d s.log c a conn conn' ∧
      s' = { s with conns := s.conns.set c conn' } := by
  obtain ⟨conn, conn', hc, hconn, rfl⟩ := Streams.mem_modify hs
  exact ⟨c, conn, conn', hc, hf conn conn' hconn, rfl⟩

/-- **The steps**: Redis and every call receive something, a call is opened, or one call
makes a step of its own. -/
theorem streamStep_cases {d : Database} {s s' : Streams} {a : StreamAction}
    (hs : streamStep d s a = some s') :
    (∃ call outcome, a = .fanout call outcome ∧ s.fanout call outcome = some s') ∨
    (∃ i succeeds, a = .publish i succeeds ∧ s.publish i succeeds = some s') ∨
    (∃ threadId n, a = .trim threadId n ∧
      s' = { s with log := Function.update s.log threadId ((s.log threadId).drop n) }) ∨
    (∃ request, a = .openThread request ∧
      (s' = s ∨ (threadOwnerClause request.filters d.thread request.threadId = true ∧
        s' = { s with conns := s.conns ++ [.thread (.opened request s.published.length)] }))) ∨
    (∃ filters, a = .openRun filters ∧ s' = { s with conns := s.conns ++ [.run { filters }] }) ∨
    (∃ c conn conn', s.conns[c]? = some conn ∧ Conn.Step d s.log c a conn conn' ∧
      s' = { s with conns := s.conns.set c conn' }) := by
  cases a with
  | fanout call outcome => exact .inl ⟨_, _, rfl, hs⟩
  | publish i succeeds => exact .inr (.inl ⟨_, _, rfl, hs⟩)
  | trim threadId n => exact .inr (.inr (.inl ⟨_, _, rfl, (Option.some.inj hs).symm⟩))
  | openThread request =>
    refine .inr (.inr (.inr (.inl ⟨request, rfl, ?_⟩)))
    simp only [streamStep] at hs
    split at hs
    · next hgate => exact .inr ⟨hgate, (Option.some.inj hs).symm⟩
    · exact .inl (Option.some.inj hs).symm
  | openRun filters =>
    exact .inr (.inr (.inr (.inr (.inl ⟨_, rfl, (Option.some.inj hs).symm⟩))))
  | subscribe c threadId runId =>
    refine .inr (.inr (.inr (.inr (.inr (connStep_of_modify hs fun conn conn' hf => ?_)))))
    cases conn with
    | thread h => cases hf
    | run h =>
      obtain ⟨h', hh, rfl⟩ := Option.map_eq_some_iff.mp hf
      exact .subscribe hh
  | join c =>
    refine .inr (.inr (.inr (.inr (.inr (connStep_of_modify hs fun conn conn' hf => ?_)))))
    cases conn with
    | thread h => cases hf
    | run h =>
      obtain ⟨h', hh, rfl⟩ := Option.map_eq_some_iff.mp hf
      exact .join hh
  | next c =>
    refine .inr (.inr (.inr (.inr (.inr (connStep_of_modify hs fun conn conn' hf => ?_)))))
    cases conn with
    | thread h =>
      obtain ⟨h', hh, rfl⟩ := Option.map_eq_some_iff.mp hf
      exact .nextThread hh
    | run h =>
      obtain ⟨h', hh, rfl⟩ := Option.map_eq_some_iff.mp hf
      exact .nextRun hh
  | timeout c =>
    refine .inr (.inr (.inr (.inr (.inr (connStep_of_modify hs fun conn conn' hf => ?_)))))
    cases conn with
    | thread h =>
      cases hf
      exact .timeoutThread
    | run h =>
      obtain ⟨h', hh, rfl⟩ := Option.map_eq_some_iff.mp hf
      exact .timeoutRun hh
  | close c =>
    refine .inr (.inr (.inr (.inr (.inr (connStep_of_modify hs fun conn conn' hf => ?_)))))
    cases conn with
    | thread h =>
      cases hf
      exact .closeThread
    | run h =>
      cases hf
      exact .closeRun

end NextRole
