import NextRole.StreamBounds
import Mathlib.Data.List.Perm.Subperm

/-!
# The seam between replay and live events

A subscriber of `Threads.Stream` that starts at the beginning subscribes first, replays
the log page by page, and then takes from its subscription what replay has not covered.
The entries it has read and the live copies it still has to take make up the log, so at
rest it has been shown every structural event exactly once; chunks come from the
subscription alone.

The exception is an event of type `metadata` whose message is JSON but not an object:
it ends the handler of a subscriber to `lifecycle`.

## Main definitions

* `RedisSucceeds` — the steps in which no Redis call fails and no log is trimmed.
* `Raises` — the events that end the handler.
* `ExactlyOnce` — what a subscriber from the beginning has been shown.

## Main results

* `exactlyOnce_of_not_raises`, and `not_exactlyOnce` without the condition.
-/

namespace NextRole

/-! ### Events that end the handler -/

/-- JSON other than an object. -/
def Payload.isNonObject : Payload → Bool
  | .bytes _ => false
  | .json (.obj _) => false
  | .json _ => true

/-- The events on which `should_filter` raises for the modes of a subscriber. -/
def Raises (modes : List ThreadStreamMode) (ev : StreamEvent) : Prop :=
  .lifecycle ∈ modes ∧ .runModes ∉ modes ∧ ev.eventType = "metadata" ∧
    ev.message.isNonObject = true

instance (modes : List ThreadStreamMode) (ev : StreamEvent) : Decidable (Raises modes ev) :=
  inferInstanceAs (Decidable (_ ∧ _ ∧ _ ∧ _))

theorem shouldFilter_eq_none_iff {modes : List ThreadStreamMode} {eventName : String}
    {message : Payload} :
    shouldFilter modes eventName message = none ↔
      .lifecycle ∈ modes ∧ .runModes ∉ modes ∧ eventName = "metadata" ∧
        message.isNonObject = true := by
  unfold shouldFilter
  by_cases hnil : modes = []
  · simp [hnil]
  · rw [if_neg hnil]
    by_cases hmeta : eventName = "metadata"
    · subst hmeta
      by_cases hrun : .runModes ∈ modes
      · simp [hrun]
      · by_cases hlife : .lifecycle ∈ modes
        · rw [if_neg (fun h => hrun h.1), if_neg (by simp), if_pos ⟨hlife, rfl⟩]
          split
          · simp [Payload.isNonObject]
          · split_ifs <;> simp [Payload.isNonObject]
          · next value hvalue =>
            have hother : (Payload.json value).isNonObject = true := by
              cases value with
              | obj d => exact absurd rfl (hvalue d)
              | _ => rfl
            simp [hrun, hlife, hother]
        · simp [hrun, hlife]
    · simp only [hmeta, and_false, false_and, if_false, iff_false]
      split_ifs <;> simp

theorem convert_eq_none_iff {modes : List ThreadStreamMode} {ev : StreamEvent}
    {streamId : Option EntryId} : convert modes ev streamId = none ↔ Raises modes ev := by
  rw [convert, Option.map_eq_none_iff, shouldFilter_eq_none_iff]
  by_cases hdone : ev.isDone = true
  · have htype : ev.eventType = "control" := (of_decide_eq_true hdone).1
    simp [StreamEvent.shown, hdone, Raises, htype, Payload.isNonObject]
  · simp [StreamEvent.shown, hdone, Raises]

theorem isChunk_of_metadata {ev : StreamEvent} (h : ev.eventType = "metadata") :
    ev.isChunk = false := by
  rw [StreamEvent.isChunk, StreamEvent.baseType, h]
  decide +kernel

theorem isChunk_of_control {ev : StreamEvent} (h : ev.eventType = "control") :
    ev.isChunk = false := by
  rw [StreamEvent.isChunk, StreamEvent.baseType, h]
  decide +kernel

theorem not_raises_of_isChunk {modes : List ThreadStreamMode} {ev : StreamEvent}
    (h : ev.isChunk = true) : ¬ Raises modes ev := by
  rintro ⟨-, -, htype, -⟩
  rw [isChunk_of_metadata htype] at h
  cases h

/-! ### What is shown of the log and of messages -/

/-- What is shown of an entry of the log. -/
def Entry.display (modes : List ThreadStreamMode) (e : Entry) : Option StreamEvent :=
  NextRole.display modes e.event (some e.id)

/-- The copy of an entry that is published. -/
def Entry.copy (e : Entry) : StreamEvent := e.event.stamp (some e.id)

/-- What is shown of a message. -/
def displayMessage (modes : List ThreadStreamMode) (m : Channel × StreamEvent) :
    Option StreamEvent :=
  display modes m.2 m.2.streamId

theorem display_isChunk {modes : List ThreadStreamMode} {ev out : StreamEvent}
    {streamId : Option EntryId} (h : display modes ev streamId = some out) :
    out.isChunk = ev.isChunk := by
  rw [display_eq_some h]
  unfold StreamEvent.shown
  by_cases hdone : ev.isDone = true
  · have htype : ev.eventType = "control" := (of_decide_eq_true hdone).1
    rw [if_pos hdone, isChunk_of_control htype]
    exact isChunk_of_metadata rfl
  · rw [if_neg hdone]
    rfl

/-- The messages of a thread among some, structural ones or chunks. -/
def messagesOf (threadId : Uuid) (chunk : Bool) (ms : List (Channel × StreamEvent)) :
    List (Channel × StreamEvent) :=
  ms.filter fun m => m.1.threadId = threadId && m.2.isChunk = chunk

/-- What is shown of the entries of a log. -/
def displayLog (modes : List ThreadStreamMode) (log : List Entry) : List StreamEvent :=
  log.filterMap (Entry.display modes)

/-- What is shown of some messages. -/
def displayAll (modes : List ThreadStreamMode) (ms : List (Channel × StreamEvent)) :
    List StreamEvent :=
  ms.filterMap (displayMessage modes)

theorem displayLog_append (modes : List ThreadStreamMode) (log log' : List Entry) :
    displayLog modes (log ++ log') = displayLog modes log ++ displayLog modes log' :=
  List.filterMap_append ..

theorem displayAll_append (modes : List ThreadStreamMode) (ms ms' : List (Channel × StreamEvent)) :
    displayAll modes (ms ++ ms') = displayAll modes ms ++ displayAll modes ms' :=
  List.filterMap_append ..

theorem displayLog_singleton (modes : List ThreadStreamMode) (e : Entry) :
    displayLog modes [e] = (e.display modes).toList := by
  cases hd : e.display modes <;> simp [displayLog, hd]

theorem displayAll_cons (modes : List ThreadStreamMode) (m : Channel × StreamEvent)
    (ms : List (Channel × StreamEvent)) :
    displayAll modes (m :: ms) = (displayMessage modes m).toList ++ displayAll modes ms := by
  cases hd : displayMessage modes m <;> simp [displayAll, hd]

/-- What a subscriber has been shown, structural events or chunks. -/
def ThreadStream.shown (h : ThreadStream) (chunk : Bool) : List StreamEvent :=
  (h.yielded.map Yielded.event).filter fun ev => ev.isChunk = chunk

theorem ThreadStream.shown_emit (h : ThreadStream) (source : Uuid) (ev : StreamEvent)
    (streamId : Option EntryId) (chunk : Bool) :
    (h.emit source ev streamId).shown chunk = h.shown chunk ++
      if ev.isChunk = chunk then (display h.request.streamModes ev streamId).toList else [] := by
  unfold shown
  rw [emit_yielded, List.map_append, List.filter_append]
  cases hout : display h.request.streamModes ev streamId with
  | none => simp
  | some out =>
    have hchunk := display_isChunk hout
    by_cases hc : ev.isChunk = chunk
    · simp [hchunk, hc]
    · simp [hchunk, hc]

/-! ### The log and the messages -/

/-- No Redis call of a publisher fails, and no log is trimmed or expires. -/
def StreamAction.redisSucceeds : StreamAction → Bool
  | .fanout call outcome => call.event.isChunk || outcome.stamp.isSome
  | .publish _ succeeds => succeeds
  | .trim .. => false
  | _ => true

def RedisSucceeds (_ : Streams) (a : StreamAction) : Prop := a.redisSucceeds = true

instance (s : Streams) (a : StreamAction) : Decidable (RedisSucceeds s a) :=
  inferInstanceAs (Decidable (_ = true))

/-- The structural messages of a thread are copies of the entries of its log; chunks
carry no id. -/
structure Streams.Copied (s : Streams) : Prop where
  chunk : ∀ m ∈ s.published ++ s.inflight, m.2.isChunk = true → m.2.streamId = none
  copies : ∀ threadId, ((messagesOf threadId false (s.published ++ s.inflight)).map Prod.snd).Perm
    ((s.log threadId).map Entry.copy)

section

variable {d : Database} {s s' : Streams} {a : StreamAction} {threadId : Uuid}

theorem mem_messagesOf {chunk : Bool} {ms : List (Channel × StreamEvent)}
    {m : Channel × StreamEvent} :
    m ∈ messagesOf threadId chunk ms ↔ m ∈ ms ∧ m.1.threadId = threadId ∧ m.2.isChunk = chunk := by
  simp [messagesOf]

theorem messagesOf_cons (chunk : Bool) (m : Channel × StreamEvent)
    (ms : List (Channel × StreamEvent)) :
    messagesOf threadId chunk (m :: ms) =
      if m.1.threadId = threadId ∧ m.2.isChunk = chunk then m :: messagesOf threadId chunk ms
      else messagesOf threadId chunk ms := by
  simp [messagesOf, List.filter_cons]

theorem messagesOf_append (chunk : Bool) (ms ms' : List (Channel × StreamEvent)) :
    messagesOf threadId chunk (ms ++ ms') =
      messagesOf threadId chunk ms ++ messagesOf threadId chunk ms' := List.filter_append ..

theorem messagesOf_perm (chunk : Bool) {ms ms' : List (Channel × StreamEvent)} (h : ms.Perm ms') :
    (messagesOf threadId chunk ms).Perm (messagesOf threadId chunk ms') := h.filter _

theorem Streams.Copied.exists_entry (h : s.Copied) {m : Channel × StreamEvent}
    (hm : m ∈ s.published ++ s.inflight) (hchunk : m.2.isChunk = false) :
    ∃ e ∈ s.log m.1.threadId, e.copy = m.2 := by
  have hmem : m.2 ∈ (messagesOf m.1.threadId false (s.published ++ s.inflight)).map Prod.snd :=
    List.mem_map.mpr ⟨m, mem_messagesOf.mpr ⟨hm, rfl, hchunk⟩, rfl⟩
  exact List.mem_map.mp ((h.copies m.1.threadId).mem_iff.mp hmem)

/-- What a logging step does when Redis succeeds: a chunk is not logged, a structural
event is, and its copy carries the id. -/
theorem Streams.fanout_of_succeeds {call : Publication} {outcome : LogOutcome}
    (hOk : RedisSucceeds s (.fanout call outcome)) (hs : s.fanout call outcome = some s') :
    (call.event.isChunk = true ∧
      s' = { s with inflight := s.inflight ++ [(call.channel, call.event)] }) ∨
    (∃ id, call.event.isChunk = false ∧ s.lastId call.channel.threadId < id ∧
      s' = { s with
        log := Function.update s.log call.channel.threadId
          (s.log call.channel.threadId ++ [⟨id, call.event⟩])
        lastId := Function.update s.lastId call.channel.threadId id
        inflight := s.inflight ++ [(call.channel, Entry.copy ⟨id, call.event⟩)] }) := by
  simp only [RedisSucceeds, StreamAction.redisSucceeds, Bool.or_eq_true] at hOk
  rcases Streams.fanout_cases hs with ⟨hnot, rfl⟩ | ⟨id, hchunk, hid, hlt, rfl⟩
  · left
    refine ⟨?_, rfl⟩
    rcases hnot with hnot | hnot
    · exact hnot
    · refine hOk.resolve_right fun hstamp => ?_
      obtain ⟨id, hstamp⟩ := Option.isSome_iff_exists.mp hstamp
      rw [LogOutcome.entryId?_of_stamp hstamp] at hnot
      cases hnot
  · right
    refine ⟨id, hchunk, hlt, ?_⟩
    obtain ⟨id', hstamp⟩ := Option.isSome_iff_exists.mp (hOk.resolve_left (by simp [hchunk]))
    rw [LogOutcome.entryId?_of_stamp hstamp] at hid
    rw [hstamp, hid]
    rfl

theorem Streams.Copied.step (h : s.Copied) (hOk : RedisSucceeds s a)
    (hs : streamStep d s a = some s') : s'.Copied := by
  rcases streamStep_cases hs with ⟨call, outcome, rfl, hs⟩ | ⟨i, succeeds, rfl, hs⟩ | ⟨tid, n, rfl, rfl⟩ |
    ⟨request, -, rfl | ⟨-, rfl⟩⟩ | ⟨filters, -, rfl⟩ | ⟨c, conn₀, conn', hc, hstep, rfl⟩
  · rcases Streams.fanout_of_succeeds hOk hs with ⟨hchunk, rfl⟩ | ⟨id, hchunk, -, rfl⟩
    · refine ⟨fun m hm hm' => ?_, fun threadId => ?_⟩
      · rw [← List.append_assoc, List.mem_append, List.mem_singleton] at hm
        rcases hm with hm | rfl
        · exact h.chunk m hm hm'
        · exact call.event_streamId
      · have hnone : messagesOf threadId false [(call.channel, call.event)] = [] := by
          simp [messagesOf, hchunk]
        rw [← List.append_assoc, messagesOf_append, hnone, List.append_nil]
        exact h.copies threadId
    · refine ⟨fun m hm hm' => ?_, fun threadId => ?_⟩
      · rw [← List.append_assoc, List.mem_append, List.mem_singleton] at hm
        rcases hm with hm | rfl
        · exact h.chunk m hm hm'
        · rw [Entry.copy, StreamEvent.stamp_isChunk, hchunk] at hm'
          cases hm'
      · rw [← List.append_assoc, messagesOf_append, List.map_append]
        by_cases heq : threadId = call.channel.threadId
        · have hnew : messagesOf threadId false [(call.channel, Entry.copy ⟨id, call.event⟩)] =
              [(call.channel, Entry.copy ⟨id, call.event⟩)] := by
            simp [messagesOf, heq, Entry.copy, hchunk]
          rw [hnew]
          simp only [heq, Function.update_self, List.map_append, List.map_cons, List.map_nil]
          exact (h.copies _).append_right _
        · have hnone : messagesOf threadId false [(call.channel, Entry.copy ⟨id, call.event⟩)] = [] := by
            simp [messagesOf, Ne.symm heq]
          rw [hnone]
          simp only [Function.update_of_ne heq, List.map_nil, List.append_nil]
          exact h.copies threadId
  · obtain ⟨m, hm, ⟨rfl, rfl⟩ | ⟨-, rfl⟩⟩ := Streams.publish_cases hs
    · cases hOk
    · have hperm : (s.published ++ [m] ++ s.inflight.eraseIdx i).Perm (s.published ++ s.inflight) := by
        rw [List.append_assoc]
        exact (publish_perm hm).symm.append_left _
      refine ⟨fun m hm hm' => h.chunk m (hperm.mem_iff.mp hm) hm', fun threadId => ?_⟩
      exact ((messagesOf_perm false hperm).map _).trans (h.copies threadId)
  · cases hOk
  · exact h
  · exact ⟨h.chunk, h.copies⟩
  · exact ⟨h.chunk, h.copies⟩
  · exact ⟨h.chunk, h.copies⟩

end

/-! ### What a subscriber has been shown -/

namespace ThreadStream

/-- The live structural events that the subscriber still has to be shown. -/
def owed (s : Streams) (h : ThreadStream) : List (Channel × StreamEvent) :=
  (messagesOf h.request.threadId false (h.buffer ++ s.inflight)).filter fun m => !h.covers m.2

/-- During replay the handler has shown the part of the log that it has read, and holds
the beginning of the rest; after it, what it has shown and what it owes are the log. -/
structure Accounted (s : Streams) (h : ThreadStream) : Prop where
  replay : ∀ cursor page, h.phase = .replay cursor page →
    ∃ read rest, s.log h.request.threadId = read ++ rest ∧ cursor = Log.cursor Entry.id .zero read ∧
      h.replayedUpTo = cursor ∧ page <+: rest ∧ h.shown false = displayLog h.request.streamModes read
  live : h.phase = .live →
    (h.shown false ++ displayAll h.request.streamModes (h.owed s)).Perm (displayLog h.request.streamModes (s.log h.request.threadId))
  closed : h.phase = .closed →
    (h.shown false).Subperm (displayLog h.request.streamModes (s.log h.request.threadId))
  notFailed : h.phase ≠ .failed

/-- A subscriber from the beginning, against the log and the messages. -/
structure Seam (s : Streams) (h : ThreadStream) : Prop where
  since_le : h.since ≤ s.published.length
  buffered : ∀ m ∈ h.buffer, m ∈ s.published
  chunks : h.shown true ++ displayAll h.request.streamModes (messagesOf h.request.threadId true h.buffer) =
    displayAll h.request.streamModes (messagesOf h.request.threadId true (s.published.drop h.since))
  accounted : h.Accounted s

end ThreadStream

/-- The subscriber starts at the beginning, and no event of the log ends its handler. -/
structure FromBeginning (s : Streams) (h : ThreadStream) : Prop where
  beginning : h.request.lastEventId = .beginning
  harmless : ∀ e ∈ s.log h.request.threadId, ¬ Raises h.request.streamModes e.event

section

variable {d : Database} {s s' : Streams} {h : ThreadStream}

theorem ThreadStream.Accounted.subperm (hacc : h.Accounted s) :
    (h.shown false).Subperm (displayLog h.request.streamModes (s.log h.request.threadId)) := by
  cases hphase : h.phase with
  | replay cursor page =>
    obtain ⟨read, rest, hlog, -, -, -, hshown⟩ := hacc.replay cursor page hphase
    rw [hshown, hlog, displayLog_append]
    exact (List.sublist_append_left ..).subperm
  | live => exact (List.sublist_append_left ..).subperm.trans (hacc.live hphase).subperm
  | failed => exact absurd hphase hacc.notFailed
  | closed => exact hacc.closed hphase

/-! #### Publishers -/

theorem ThreadStream.Accounted.congr (hacc : h.Accounted s) {buffer : List (Channel × StreamEvent)}
    (hlog : s'.log h.request.threadId = s.log h.request.threadId)
    (howed : (ThreadStream.owed s' { h with buffer }).Perm (h.owed s)) :
    ThreadStream.Accounted s' { h with buffer } := by
  refine ⟨?_, fun hphase => ?_, ?_, hacc.notFailed⟩
  · simp only [hlog]
    exact hacc.replay
  · simp only [hlog]
    exact ((howed.filterMap _).append_left _).trans (hacc.live hphase)
  · simp only [hlog]
    exact hacc.closed

/-- A new entry of the log whose copy is on its way. -/
theorem ThreadStream.Accounted.logged (hacc : h.Accounted s) {e : Entry} {ch : Channel}
    (hch : ch.threadId = h.request.threadId) (hchunk : e.event.isChunk = false)
    (hnew : h.replayedUpTo < e.id)
    (hlog : s'.log h.request.threadId = s.log h.request.threadId ++ [e])
    (hinflight : s'.inflight = s.inflight ++ [(ch, e.copy)]) : h.Accounted s' := by
  have howed : h.owed s' = h.owed s ++ [(ch, e.copy)] := by
    have hmem : messagesOf h.request.threadId false [(ch, e.copy)] = [(ch, e.copy)] := by
      simp [messagesOf, hch, Entry.copy, hchunk]
    -- the entry is newer than all that was replayed
    have hcov : h.covers e.copy = false := by
      rw [← Bool.not_eq_true, ThreadStream.covers_eq_true]
      rintro ⟨id, hid, hle⟩
      obtain rfl := Option.some.inj hid
      exact absurd hnew (not_lt.mpr hle)
    rw [ThreadStream.owed, hinflight, ← List.append_assoc, messagesOf_append, hmem,
      List.filter_append]
    simp [ThreadStream.owed, hcov]
  have hdisplay : displayLog h.request.streamModes [e] = displayAll h.request.streamModes [(ch, e.copy)] := by
    rw [displayLog_singleton, displayAll_cons]
    exact (List.append_nil _).symm
  refine ⟨fun cursor page hphase => ?_, fun hphase => ?_, fun hphase => ?_, hacc.notFailed⟩
  · obtain ⟨read, rest, heq, hcursor, hup, hpage, hshown⟩ := hacc.replay cursor page hphase
    exact ⟨read, rest ++ [e], by rw [hlog, heq, List.append_assoc], hcursor, hup,
      hpage.trans (List.prefix_append ..), hshown⟩
  · rw [hlog, howed, displayLog_append, hdisplay, displayAll_append,
      ← List.append_assoc]
    exact (hacc.live hphase).append_right _
  · rw [hlog, displayLog_append]
    exact (hacc.closed hphase).trans (List.sublist_append_left ..).subperm

theorem ThreadStream.messagesOf_deliver (chunk : Bool) (m : Channel × StreamEvent) :
    messagesOf h.request.threadId chunk (h.deliver m).buffer =
      messagesOf h.request.threadId chunk h.buffer ++
        messagesOf h.request.threadId chunk [m] := by
  rw [ThreadStream.deliver_buffer, messagesOf_append]
  by_cases hm : h.matches m.1 = true
  · rw [if_pos hm]
  · have hne : m.1.threadId ≠ h.request.threadId := fun heq => hm (decide_eq_true heq)
    rw [if_neg hm]
    simp [messagesOf, hne]

/-- A message that is published, and delivered. -/
theorem ThreadStream.Seam.publish (hseam : h.Seam s) {i : ℕ} {m : Channel × StreamEvent}
    (hm : s.inflight[i]? = some m) (hlog : s'.log = s.log)
    (hinflight : s'.inflight = s.inflight.eraseIdx i) (hpublished : s'.published = s.published ++ [m]) :
    (h.deliver m).Seam s' := by
  rw [ThreadStream.deliver_eq]
  refine ⟨?_, fun m' hm' => ?_, ?_, hseam.accounted.congr (by rw [hlog]) ?_⟩
  · rw [hpublished, List.length_append]
    exact hseam.since_le.trans (Nat.le_add_right ..)
  · rw [ThreadStream.deliver_buffer, List.mem_append] at hm'
    rw [hpublished, List.mem_append]
    rcases hm' with hm' | hm'
    · exact .inl (hseam.buffered m' hm')
    · split at hm'
      · exact .inr hm'
      · cases hm'
  · have hdrop : (s.published ++ [m]).drop h.since = s.published.drop h.since ++ [m] :=
      List.drop_append_of_le_length hseam.since_le
    rw [hpublished, hdrop, messagesOf_append]
    have hbuffer := ThreadStream.messagesOf_deliver (h := h) true m
    have hchunks := hseam.chunks
    simp only [ThreadStream.shown] at hchunks ⊢
    rw [hbuffer, displayAll_append, ← List.append_assoc, hchunks, displayAll_append]
  · have hperm : (messagesOf h.request.threadId false ((h.deliver m).buffer ++ s'.inflight)).Perm
        (messagesOf h.request.threadId false (h.buffer ++ s.inflight)) := by
      rw [messagesOf_append, ThreadStream.messagesOf_deliver, List.append_assoc,
        ← messagesOf_append, messagesOf_append _ h.buffer, hinflight]
      exact (messagesOf_perm false (publish_perm hm).symm).append_left _
    exact hperm.filter _

/-! #### The handler -/

/-- Replay has reached the end of the log: nothing live is owed. -/
theorem ThreadStream.owed_eq_nil (hcopied : s.Copied) (hbounded : s.Bounded)
    (hbuffered : ∀ m ∈ h.buffer, m ∈ s.published)
    (hup : h.replayedUpTo = Log.cursor Entry.id .zero (s.log h.request.threadId)) :
    h.owed s = [] := by
  rw [ThreadStream.owed, List.filter_eq_nil_iff]
  intro m hm
  obtain ⟨hm, hid, hchunk⟩ := mem_messagesOf.mp hm
  have hmem : m ∈ s.published ++ s.inflight := by
    rcases List.mem_append.mp hm with hm | hm
    · exact List.mem_append_left _ (hbuffered m hm)
    · exact List.mem_append_right _ hm
  obtain ⟨e, he, hcopy⟩ := hcopied.exists_entry hmem hchunk
  rw [hid] at he
  have hcov : h.covers m.2 = true := by
    rw [ThreadStream.covers_eq_true]
    refine ⟨e.id, by rw [← hcopy]; rfl, ?_⟩
    rw [hup]
    exact (hbounded.log _).le_cursor he
  simp [hcov]

theorem Streams.Copied.isChunk_of_mem (hcopied : s.Copied) {threadId : Uuid} {e : Entry}
    (he : e ∈ s.log threadId) : e.event.isChunk = false := by
  have hmem : e.copy ∈ (s.log threadId).map Entry.copy := List.mem_map_of_mem he
  obtain ⟨m, hm, hcopy⟩ := List.mem_map.mp ((hcopied.copies threadId).mem_iff.mpr hmem)
  have hchunk := (mem_messagesOf.mp hm).2.2
  rw [hcopy] at hchunk
  exact hchunk

/-- A subscription that opens. -/
theorem ThreadStream.seam_opened {request : StreamThreadRequest}
    (hbeginning : request.lastEventId = .beginning) :
    ThreadStream.Seam s (.opened request s.published.length) := by
  have hphase : (ThreadStream.opened request s.published.length).phase = .replay .zero [] := by
    simp [ThreadStream.opened, hbeginning, LastEventId.replayFrom]
  refine ⟨le_rfl, (fun _ hmem => by cases hmem), ?_, fun cursor page heq => ?_, ?_, ?_, ?_⟩
  · simp [ThreadStream.opened, ThreadStream.shown]
  · rw [hphase] at heq
    cases heq
    exact ⟨[], _, rfl, rfl, rfl, List.nil_prefix, rfl⟩
  · rw [hphase]
    rintro ⟨⟩
  · rw [hphase]
    rintro ⟨⟩
  · rw [hphase]
    rintro ⟨⟩

/-- The end of replay. -/
theorem ThreadStream.Seam.finishReplay (hseam : h.Seam s) (hcopied : s.Copied)
    (hbounded : s.Bounded) {cursor : EntryId} (hphase : h.phase = .replay cursor [])
    (hnil : Log.after Entry.id cursor (s.log h.request.threadId) = []) :
    ThreadStream.Seam s { h with phase := .live } := by
  obtain ⟨read, rest, hlog, hcursor, hup, -, hshown⟩ := hseam.accounted.replay cursor [] hphase
  have hrest : rest = [] := by
    have hinc := hbounded.log h.request.threadId
    rw [hlog] at hinc hnil
    rwa [hcursor, hinc.after_cursor] at hnil
  rw [hrest, List.append_nil] at hlog
  refine ⟨hseam.since_le, hseam.buffered, hseam.chunks, nofun, fun _ => ?_, nofun, nofun⟩
  have howed : ThreadStream.owed s { h with phase := .live } = [] :=
    ThreadStream.owed_eq_nil hcopied hbounded hseam.buffered (by rw [hlog, ← hcursor]; exact hup)
  rw [howed, hlog]
  show (h.shown false ++ []).Perm (displayLog h.request.streamModes read)
  rw [hshown, List.append_nil]

/-- A page of the log. -/
theorem ThreadStream.Seam.readPage (hseam : h.Seam s) (hbounded : s.Bounded) {cursor : EntryId}
    {page : List Entry} (hphase : h.phase = .replay cursor [])
    (hpage : page = (Log.after Entry.id cursor (s.log h.request.threadId)).take 256) :
    ThreadStream.Seam s { h with phase := .replay cursor page } := by
  obtain ⟨read, rest, hlog, hcursor, hup, -, hshown⟩ := hseam.accounted.replay cursor [] hphase
  have hafter : Log.after Entry.id cursor (s.log h.request.threadId) = rest := by
    have hinc := hbounded.log h.request.threadId
    rw [hlog] at hinc ⊢
    rw [hcursor, hinc.after_cursor]
  refine ⟨hseam.since_le, hseam.buffered, hseam.chunks, fun cursor' page' heq => ?_, nofun, nofun,
    nofun⟩
  cases heq
  exact ⟨read, rest, hlog, hcursor, hup, by rw [hpage, hafter]; exact List.take_prefix .., hshown⟩

/-- An entry of a page. -/
theorem ThreadStream.Seam.readEntry (hseam : h.Seam s) (hcopied : s.Copied)
    (hharmless : ∀ e ∈ s.log h.request.threadId, ¬ Raises h.request.streamModes e.event)
    {cursor : EntryId} {entry : Entry} {page : List Entry}
    (hphase : h.phase = .replay cursor (entry :: page)) :
    ThreadStream.Seam s (ThreadStream.emit
      { h with phase := .replay entry.id page, replayedUpTo := entry.id }
      h.request.threadId entry.event (some entry.id)) := by
  obtain ⟨read, rest, hlog, hcursor, hup, ⟨tail, rfl⟩, hshown⟩ :=
    hseam.accounted.replay cursor _ hphase
  have hmem : entry ∈ s.log h.request.threadId := by
    rw [hlog]
    simp
  have hchunk := hcopied.isChunk_of_mem hmem
  have hphase' : (ThreadStream.emit { h with phase := .replay entry.id page, replayedUpTo := entry.id }
      h.request.threadId entry.event (some entry.id)).phase = .replay entry.id page := by
    rw [ThreadStream.emit_phase, if_neg]
    exact fun hnone => hharmless entry hmem (convert_eq_none_iff.mp hnone)
  refine ⟨?_, ?_, ?_, ?_, ?_, ?_, ?_⟩
  · simpa using hseam.since_le
  · simpa using hseam.buffered
  · have hsame : (ThreadStream.emit { h with phase := .replay entry.id page, replayedUpTo := entry.id }
        h.request.threadId entry.event (some entry.id)).shown true = h.shown true := by
      rw [ThreadStream.shown_emit, if_neg (by simp [hchunk]), List.append_nil]
      rfl
    rw [hsame]
    simpa using hseam.chunks
  · intro cursor' page' heq
    rw [hphase'] at heq
    cases heq
    refine ⟨read ++ [entry], page ++ tail, ?_, by simp, by simp, List.prefix_append .., ?_⟩
    · rw [ThreadStream.emit_request, hlog]
      simp
    · rw [ThreadStream.shown_emit, if_pos hchunk, displayLog_append]
      rw [displayLog_singleton, ThreadStream.emit_request]
      show h.shown false ++ _ = displayLog h.request.streamModes read ++ _
      rw [hshown]
      rfl
  · intro heq
    rw [hphase'] at heq
    cases heq
  · intro heq
    rw [hphase'] at heq
    cases heq
  · rw [hphase']
    nofun

/-- A message that replay has covered. -/
theorem ThreadStream.Seam.skip (hseam : h.Seam s) (hcopied : s.Copied) {m : Channel × StreamEvent}
    {buffer : List (Channel × StreamEvent)} (hbuffer : h.buffer = m :: buffer)
    (hcov : h.covers m.2 = true) : ThreadStream.Seam s { h with buffer } := by
  have hm : m ∈ s.published := hseam.buffered m (by rw [hbuffer]; exact List.mem_cons_self)
  have hchunk : m.2.isChunk = false := by
    rw [← Bool.not_eq_true]
    intro hchunk
    obtain ⟨id, hid, -⟩ := ThreadStream.covers_eq_true.mp hcov
    rw [hcopied.chunk m (List.mem_append_left _ hm) hchunk] at hid
    cases hid
  refine ⟨hseam.since_le, fun m' hm' => hseam.buffered m' ?_, ?_, hseam.accounted.congr rfl ?_⟩
  · rw [hbuffer]
    exact List.mem_cons_of_mem _ hm'
  · have hchunks := hseam.chunks
    rw [hbuffer, messagesOf_cons, if_neg (by simp [hchunk])] at hchunks
    exact hchunks
  · have howed : h.owed s = ThreadStream.owed s { h with buffer } := by
      rw [ThreadStream.owed, hbuffer, List.cons_append, messagesOf_cons]
      split
      · rw [List.filter_cons_of_neg (by simp [hcov])]
        rfl
      · rfl
    rw [howed]

/-- A message that the handler takes. -/
theorem ThreadStream.Seam.take (hseam : h.Seam s) (hcopied : s.Copied) {m : Channel × StreamEvent}
    {buffer : List (Channel × StreamEvent)} (hphase : h.phase = .live)
    (hbuffer : h.buffer = m :: buffer) (hcov : h.covers m.2 = false)
    (hthread : m.1.threadId = h.request.threadId)
    (hharmless : ∀ e ∈ s.log h.request.threadId, ¬ Raises h.request.streamModes e.event) :
    ThreadStream.Seam s
      (ThreadStream.emit { h with buffer } m.1.threadId m.2 m.2.streamId) := by
  have hm : m ∈ s.published := hseam.buffered m (by rw [hbuffer]; exact List.mem_cons_self)
  -- a chunk never raises, and a structural event is the copy of an entry
  have hnot : ¬ Raises h.request.streamModes m.2 := by
    cases hchunk : m.2.isChunk with
    | true => exact not_raises_of_isChunk hchunk
    | false =>
      obtain ⟨e, he, hcopy⟩ := hcopied.exists_entry (List.mem_append_left _ hm) hchunk
      rw [hthread] at he
      rw [← hcopy]
      exact hharmless e he
  have hlive : (ThreadStream.emit { h with buffer } m.1.threadId m.2 m.2.streamId).phase = .live := by
    rw [ThreadStream.emit_phase, if_neg, hphase]
    exact fun hnone => hnot (convert_eq_none_iff.mp hnone)
  have hmsgs : ∀ chunk ms, messagesOf h.request.threadId chunk (m :: ms) =
      if m.2.isChunk = chunk then m :: messagesOf h.request.threadId chunk ms
      else messagesOf h.request.threadId chunk ms := by
    intro chunk ms
    rw [messagesOf_cons]
    simp [hthread]
  refine ⟨?_, fun m' hm' => hseam.buffered m' ?_, ?_, ?_, ?_, ?_, ?_⟩
  · simpa using hseam.since_le
  · rw [ThreadStream.emit_buffer] at hm'
    rw [hbuffer]
    exact List.mem_cons_of_mem _ hm'
  · have hchunks := hseam.chunks
    rw [hbuffer, hmsgs] at hchunks
    simp only [ThreadStream.shown_emit, ThreadStream.emit_request, ThreadStream.emit_buffer,
      ThreadStream.emit_since]
    rw [← hchunks]
    by_cases hchunk : m.2.isChunk = true
    · rw [if_pos hchunk, if_pos hchunk, displayAll_cons, ← List.append_assoc]
      rfl
    · rw [if_neg hchunk, if_neg hchunk, List.append_nil]
      rfl
  · intro cursor page heq
    rw [hlive] at heq
    cases heq
  · intro _
    have howed : h.owed s = if m.2.isChunk = false then m :: ThreadStream.owed s { h with buffer }
        else ThreadStream.owed s { h with buffer } := by
      rw [ThreadStream.owed, hbuffer, List.cons_append, hmsgs]
      split
      · rw [List.filter_cons_of_pos (by simp [hcov])]
        rfl
      · rfl
    have hsame : ThreadStream.owed s (ThreadStream.emit { h with buffer } m.1.threadId m.2 m.2.streamId) =
        ThreadStream.owed s { h with buffer } := by
      simp [ThreadStream.owed, ThreadStream.covers]
    have hperm := hseam.accounted.live hphase
    rw [howed] at hperm
    simp only [ThreadStream.shown_emit, ThreadStream.emit_request, hsame]
    by_cases hchunk : m.2.isChunk = false
    · rw [if_pos hchunk, displayAll_cons, ← List.append_assoc] at hperm
      rw [if_pos hchunk]
      exact hperm
    · rw [if_neg hchunk] at hperm
      rw [if_neg hchunk, List.append_nil]
      exact hperm
  · intro heq
    rw [hlive] at heq
    cases heq
  · rw [hlive]
    rintro ⟨⟩

/-! #### Every call -/

/-- Every subscriber from the beginning is accounted for. -/
def Streams.Seams (s : Streams) : Prop :=
  ∀ h, Conn.thread h ∈ s.conns → FromBeginning s h → h.Seam s

/-- A handler that moves on. -/
theorem ThreadStream.Seam.next {h' : ThreadStream} (hseam : h.Seam s) (hfrom : FromBeginning s h)
    (hcopied : s.Copied) (hbounded : s.Bounded) (hconn : (Conn.thread h).Bounded s.lastId)
    (hn : h.next (s.log h.request.threadId) = some h') : h'.Seam s := by
  rcases ThreadStream.next_cases hn with ⟨cursor, hphase, hnil, rfl⟩ | ⟨cursor, page, hphase, hpage, -, rfl⟩ |
    ⟨cursor, entry, page, hphase, rfl⟩ | ⟨ch, ev, buffer, -, hbuffer, hcov, rfl⟩ |
    ⟨ch, ev, buffer, hphase, hbuffer, hcov, rfl⟩
  · exact hseam.finishReplay hcopied hbounded hphase hnil
  · exact hseam.readPage hbounded hphase hpage
  · exact hseam.readEntry hcopied hfrom.harmless hphase
  · exact hseam.skip hcopied hbuffer hcov
  · have hthread : ch.threadId = h.request.threadId := by
      have hsub := hconn.subscribed (ch, ev) (by simp only [Conn.buffer, hbuffer]; exact List.mem_cons_self)
      exact of_decide_eq_true hsub
    exact hseam.take hcopied hphase hbuffer hcov hthread hfrom.harmless

/-- A step of another party that leaves the logs and the messages of the thread. -/
theorem ThreadStream.Seam.fanout {call : Publication} {outcome : LogOutcome} (hseam : h.Seam s)
    (hreplayed : h.replayedUpTo ≤ s.lastId h.request.threadId)
    (hOk : RedisSucceeds s (.fanout call outcome)) (hs : s.fanout call outcome = some s') :
    h.Seam s' := by
  rcases Streams.fanout_of_succeeds hOk hs with ⟨hchunk, rfl⟩ | ⟨id, hchunk, hlt, rfl⟩
  · refine ⟨hseam.since_le, hseam.buffered, hseam.chunks, hseam.accounted.congr rfl ?_⟩
    have hnone : messagesOf h.request.threadId false [(call.channel, call.event)] = [] := by
      simp [messagesOf, hchunk]
    rw [ThreadStream.owed, ← List.append_assoc, messagesOf_append, hnone, List.append_nil]
    exact List.Perm.refl _
  · by_cases heq : call.channel.threadId = h.request.threadId
    · rw [heq] at hlt
      have hnew : h.replayedUpTo < (⟨id, call.event⟩ : Entry).id := hreplayed.trans_lt hlt
      have hentry : (⟨id, call.event⟩ : Entry).event.isChunk = false := hchunk
      refine ⟨hseam.since_le, hseam.buffered, hseam.chunks,
        hseam.accounted.logged heq hentry hnew ?_ rfl⟩
      simp only [heq, Function.update_self]
    · refine ⟨hseam.since_le, hseam.buffered, hseam.chunks, hseam.accounted.congr ?_ ?_⟩
      · simp only [Function.update_of_ne (Ne.symm heq)]
      · have hnone : messagesOf h.request.threadId false
            [(call.channel, Entry.copy ⟨id, call.event⟩)] = [] := by
          simp [messagesOf, heq]
        rw [ThreadStream.owed, ← List.append_assoc, messagesOf_append, hnone, List.append_nil]
        exact List.Perm.refl _

/-- **One step** keeps the account of every subscriber from the beginning. -/
theorem Streams.Seams.step {a : StreamAction} (hseams : s.Seams) (hcopied : s.Copied)
    (hbounded : s.Bounded) (hOk : RedisSucceeds s a) (hs : streamStep d s a = some s') :
    s'.Seams := by
  intro h hconn hfrom
  rcases streamStep_cases hs with ⟨call, outcome, rfl, hs⟩ | ⟨i, succeeds, rfl, hs⟩ | ⟨tid, n, rfl, rfl⟩ |
    ⟨request, -, rfl | ⟨-, rfl⟩⟩ | ⟨filters, -, rfl⟩ | ⟨c, conn₀, conn', hc, hstep, rfl⟩
  · -- an event is logged
    rw [Streams.fanout_conns hs] at hconn
    refine (hseams h hconn ⟨hfrom.beginning, fun e he => hfrom.harmless e ?_⟩).fanout
      ((hbounded.conns _ hconn).handler h rfl).replayed hOk hs
    exact Streams.log_subset_fanout hs _ he
  · -- an event is published
    obtain ⟨m, hm, ⟨rfl, rfl⟩ | ⟨-, rfl⟩⟩ := Streams.publish_cases hs
    · cases hOk
    · obtain ⟨conn₀, hconn₀, heq⟩ := List.mem_map.mp hconn
      cases conn₀ with
      | run h₀ => cases heq
      | thread h₀ =>
        obtain rfl := Conn.thread.inj heq
        have hfrom₀ : FromBeginning s h₀ :=
          ⟨by simpa using hfrom.beginning, by simpa using hfrom.harmless⟩
        exact (hseams h₀ hconn₀ hfrom₀).publish hm rfl rfl rfl
  · -- the log is trimmed
    cases hOk
  · exact hseams h hconn hfrom
  · -- a thread stream is opened
    rcases List.mem_append.mp hconn with hconn | hconn
    · have hold := hseams h hconn ⟨hfrom.beginning, hfrom.harmless⟩
      exact ⟨hold.since_le, hold.buffered, hold.chunks, hold.accounted.congr rfl (List.Perm.refl _)⟩
    · rw [List.mem_singleton] at hconn
      obtain rfl := Conn.thread.inj hconn
      exact ThreadStream.seam_opened hfrom.beginning
  · -- a run stream is opened
    rcases List.mem_append.mp hconn with hconn | hconn
    · have hold := hseams h hconn ⟨hfrom.beginning, hfrom.harmless⟩
      exact ⟨hold.since_le, hold.buffered, hold.chunks, hold.accounted.congr rfl (List.Perm.refl _)⟩
    · rw [List.mem_singleton] at hconn
      cases hconn
  · -- one connection moves
    have hown : h.Seam s := by
      rcases List.mem_or_eq_of_mem_set hconn with hconn | rfl
      · exact hseams h hconn ⟨hfrom.beginning, hfrom.harmless⟩
      · have hmem : conn₀ ∈ s.conns := List.mem_of_getElem? hc
        cases hstep with
        | @nextThread h₀ _ hn =>
          obtain ⟨hrequest, -⟩ := ThreadStream.next_request hn
          have hfrom₀ : FromBeginning s h₀ :=
            ⟨hrequest ▸ hfrom.beginning, hrequest ▸ hfrom.harmless⟩
          exact (hseams h₀ hmem hfrom₀).next hfrom₀ hcopied hbounded (hbounded.conns _ hmem) hn
        | timeoutThread => exact hseams h hmem ⟨hfrom.beginning, hfrom.harmless⟩
        | @closeThread h₀ =>
          have hold := hseams h₀ hmem ⟨hfrom.beginning, hfrom.harmless⟩
          exact ⟨hold.since_le, hold.buffered, hold.chunks, nofun, nofun,
            fun _ => hold.accounted.subperm, nofun⟩
    exact ⟨hown.since_le, hown.buffered, hown.chunks, hown.accounted.congr rfl (List.Perm.refl _)⟩

theorem seams_of_reachable (h : (streams d).Reachable RedisSucceeds s) : s.Copied ∧ s.Seams := by
  refine h.invariant (I := fun s => s.Copied ∧ s.Seams) ?_ ?_
  · rintro s rfl
    exact ⟨⟨nofun, fun _ => List.Perm.refl _⟩, nofun⟩
  · intro s a s' hr ih hOk hs
    exact ⟨ih.1.step hOk hs, ih.2.step ih.1 (bounded_of_reachable hr) hOk hs⟩

/-! ### Exactly once -/

/-- Nothing is on its way to the subscriber: no event of the thread is in flight, its
handler has no next step, and it is still there. -/
def ThreadStream.Settled (s : Streams) (h : ThreadStream) : Prop :=
  (∀ m ∈ s.inflight, m.1.threadId ≠ h.request.threadId) ∧
    h.next (s.log h.request.threadId) = none ∧ h.phase ≠ .closed

/-- Of the structural events of its thread the subscriber has been shown none twice, and
at rest all that pass its modes; of the chunks it is shown those that are published
after its subscription, in their order. -/
structure ExactlyOnce (s : Streams) (h : ThreadStream) : Prop where
  onlyPublished : (h.shown false).Subperm (displayAll h.request.streamModes
    (messagesOf h.request.threadId false (s.published ++ s.inflight)))
  distinct : ((h.shown false).map StreamEvent.streamId).Nodup
  onlyLive : h.shown true <+: displayAll h.request.streamModes
    (messagesOf h.request.threadId true (s.published.drop h.since))
  structural : h.Settled s → (h.shown false).Perm (displayAll h.request.streamModes
    (messagesOf h.request.threadId false s.published))
  chunks : h.Settled s → h.shown true = displayAll h.request.streamModes
    (messagesOf h.request.threadId true (s.published.drop h.since))

/-- What is shown of the log is what is shown of the messages. -/
theorem Streams.Copied.displayLog_perm (hcopied : s.Copied) (modes : List ThreadStreamMode)
    (threadId : Uuid) : (displayLog modes (s.log threadId)).Perm
      (displayAll modes (messagesOf threadId false (s.published ++ s.inflight))) := by
  have hall : ∀ ms : List (Channel × StreamEvent), displayAll modes ms =
      (ms.map Prod.snd).filterMap fun ev => display modes ev ev.streamId := by
    intro ms
    rw [List.filterMap_map]
    rfl
  have hlog : ∀ log : List Entry, displayLog modes log =
      (log.map Entry.copy).filterMap fun ev => display modes ev ev.streamId := by
    intro log
    rw [List.filterMap_map]
    rfl
  rw [hall, hlog]
  exact (hcopied.copies threadId).symm.filterMap _

theorem Streams.Bounded.nodup_displayLog (hbounded : s.Bounded) (modes : List ThreadStreamMode)
    (threadId : Uuid) : ((displayLog modes (s.log threadId)).map StreamEvent.streamId).Nodup := by
  rw [List.Nodup, List.pairwise_map, displayLog, List.pairwise_filterMap]
  refine (hbounded.log threadId).pairwise.imp fun {e f} hlt out hout out' hout' heq => ?_
  rw [display_streamId hout, display_streamId hout'] at heq
  exact hlt.ne (Option.some.inj heq)

/-- **The seam**: in every run in which Redis succeeds, a subscriber from the beginning
to whose handler no event of the thread is harmful is shown every event exactly once. -/
theorem exactlyOnce_of_not_raises (d : Database) {s : Streams}
    (hs : (streams d).Reachable RedisSucceeds s) {h : ThreadStream} (hconn : Conn.thread h ∈ s.conns)
    (hbeginning : h.request.lastEventId = .beginning)
    (hnot : ∀ m ∈ s.published ++ s.inflight, m.1.threadId = h.request.threadId →
      ¬ Raises h.request.streamModes m.2) : ExactlyOnce s h := by
  obtain ⟨hcopied, hseams⟩ := seams_of_reachable hs
  have hbounded := bounded_of_reachable hs
  have hharmless : ∀ e ∈ s.log h.request.threadId, ¬ Raises h.request.streamModes e.event := by
    intro e he
    have hmem := (hcopied.copies h.request.threadId).mem_iff.mpr (List.mem_map_of_mem he)
    obtain ⟨m, hm, hcopy⟩ := List.mem_map.mp hmem
    obtain ⟨hm, hthread, -⟩ := mem_messagesOf.mp hm
    have hraise := hnot m hm hthread
    rw [hcopy] at hraise
    exact hraise
  have hseam := hseams h hconn ⟨hbeginning, hharmless⟩
  have hsub := hseam.accounted.subperm
  have hperm := hcopied.displayLog_perm h.request.streamModes h.request.threadId
  have hrest : h.Settled s → h.phase = .live ∧ h.buffer = [] := by
    rintro ⟨-, hnext, hopen⟩
    rcases ThreadStream.next_eq_none hnext with hlive | hfailed | hclosed
    · exact hlive
    · exact absurd hfailed hseam.accounted.notFailed
    · exact absurd hclosed hopen
  refine ⟨hsub.trans hperm.subperm, ?_, ?_, fun hsettled => ?_, fun hsettled => ?_⟩
  · obtain ⟨l, hl, hsublist⟩ := hsub
    have hnodup := (hsublist.map StreamEvent.streamId).nodup
      (hbounded.nodup_displayLog h.request.streamModes h.request.threadId)
    exact (hl.map StreamEvent.streamId).nodup_iff.mp hnodup
  · rw [← hseam.chunks]
    exact List.prefix_append ..
  · obtain ⟨hlive, hbuffer⟩ := hrest hsettled
    have hnone : messagesOf h.request.threadId false s.inflight = [] := by
      rw [List.eq_nil_iff_forall_not_mem]
      intro m hm
      obtain ⟨hm, hthread, -⟩ := mem_messagesOf.mp hm
      exact hsettled.1 m hm hthread
    have hacc := hseam.accounted.live hlive
    rw [ThreadStream.owed, hbuffer, List.nil_append, hnone] at hacc
    rw [messagesOf_append, hnone, List.append_nil] at hperm
    simpa [displayAll] using hacc.trans hperm
  · obtain ⟨-, hbuffer⟩ := hrest hsettled
    have hchunks := hseam.chunks
    rw [hbuffer] at hchunks
    simpa [displayAll, messagesOf] using hchunks

end

/-! ### A run, and a harmful event -/

instance (s : Streams) (h : ThreadStream) : Decidable (h.Settled s) :=
  inferInstanceAs (Decidable (_ ∧ _ ∧ _))

/-- A subscriber of thread `1` from the beginning. -/
def followThread (modes : List ThreadStreamMode) : StreamThreadRequest where
  threadId := 1
  streamModes := modes
  lastEventId := .beginning

/-- An event is published before the subscription, one is logged before and published
after it, and a chunk and the end marker come after it. -/
def seamRun : List StreamAction :=
  [.fanout (.publish 1 (some 7) "values" (.json (.obj []))) (.logged (toLex (1, 0))), .publish 0 true,
    .fanout (.publish 1 (some 7) "updates" (.json (.obj []))) (.logged (toLex (1, 1))),
    .openThread (followThread []), .publish 0 true,
    .fanout (.publish 1 (some 7) "messages/partial" (.json (.arr []))) .failed, .publish 0 true,
    .next 0, .next 0, .next 0, .next 0, .next 0, .next 0,
    .fanout (.markDone 1 7) (.logged (toLex (2, 0))), .publish 0 true, .next 0]

/-- The subscriber is shown three structural events and the chunk. -/
theorem exactlyOnce_of_not_raises_witness :
    ∃ s h, (streams (Database.fresh Table.empty)).Reachable RedisSucceeds s ∧ Conn.thread h ∈ s.conns ∧
      h.Settled s ∧ (h.shown false).length = 3 ∧ (h.shown true).length = 1 ∧ ExactlyOnce s h := by
  obtain ⟨s, hs, hp⟩ := Machine.exists_reachable (streams (Database.fresh Table.empty)) RedisSucceeds
    (show (streams _).init {} from rfl) seamRun
    (fun s => s.anyThread fun h =>
      h.Settled s && (h.shown false).length = 3 && (h.shown true).length = 1 &&
        h.request.lastEventId = .beginning && decide (∀ m ∈ s.published ++ s.inflight,
          m.1.threadId = h.request.threadId → ¬ Raises h.request.streamModes m.2))
    (by decide +kernel)
  obtain ⟨h, hconn, hp⟩ := Streams.exists_of_anyThread hp
  simp only [Bool.and_eq_true, decide_eq_true_eq] at hp
  obtain ⟨⟨⟨⟨hsettled, hstruct⟩, hchunk⟩, hbeginning⟩, hnot⟩ := hp
  exact ⟨s, h, hs, hconn, hsettled, hstruct, hchunk,
    exactlyOnce_of_not_raises _ hs hconn hbeginning hnot⟩

/-- A metadata event whose message is an array ends the handler of a subscriber to
`lifecycle`, which does not get the end marker of the run. -/
theorem not_exactlyOnce : ¬ ∀ d s, (streams d).Reachable RedisSucceeds s → ∀ h,
    Conn.thread h ∈ s.conns → h.request.lastEventId = .beginning → ExactlyOnce s h := by
  intro hall
  obtain ⟨s, hs, hp⟩ := Machine.exists_reachable (streams (Database.fresh Table.empty)) RedisSucceeds
    (show (streams _).init {} from rfl)
    [.openThread (followThread [.lifecycle]),
      .fanout (.publish 1 (some 7) "metadata" (.json (.arr []))) (.logged (toLex (1, 0))),
      .publish 0 true, .fanout (.markDone 1 7) (.logged (toLex (2, 0))), .publish 0 true,
      .next 0, .next 0]
    (fun s => s.anyThread fun h =>
      h.Settled s && h.request.lastEventId = .beginning && h.shown false = [] &&
        (displayAll h.request.streamModes
          (messagesOf h.request.threadId false s.published)).length = 1)
    (by decide +kernel)
  obtain ⟨h, hconn, hp⟩ := Streams.exists_of_anyThread hp
  simp only [Bool.and_eq_true, decide_eq_true_eq] at hp
  obtain ⟨⟨⟨hsettled, hbeginning⟩, hnone⟩, hone⟩ := hp
  have hperm := (hall _ s hs h hconn hbeginning).structural hsettled
  rw [hnone] at hperm
  have hlen := hperm.length_eq
  rw [hone] at hlen
  cases hlen

end NextRole
