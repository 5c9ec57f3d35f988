import NextRole.StreamBounds

/-!
# Resuming a thread's stream

A subscriber of `Threads.Stream` that has received the event with id `X` resumes after
it.  What replay reads is after `X`, and live events are compared with the last id that
replay has read.  When replay reads nothing there is no such id, and an event up to `X`
that was logged before the subscription and published after it is shown once more.
With one publisher the ids that a subscriber is shown increase in any case.

## Main definitions

* `Resumes`, `Stamps` — the steps that the resumption of a stream is about.
* `SeamCovered` — replay reads an entry, or no event up to `X` is still to come.
* `Sequential` — an event of a thread is published before the next one is logged.
* `NoRedelivery`, `InOrder` — the two properties.

## Main results

* `resume_of_seamCovered`, and `not_noRedelivery` without the condition.
-/

namespace NextRole

/-! ### The steps of a run -/

/-- Who resumes after an id has received the event with it. -/
def Resumes (s : Streams) : StreamAction → Bool
  | .openThread request =>
    match request.lastEventId with
    | .after id => s.conns.any fun conn => conn.yielded.any fun y =>
        y.source = some request.threadId && y.event.streamId = some id
    | _ => true
  | _ => true

/-- The published copy of a logged event carries its id: EXPIRE succeeds when XADD does. -/
def Stamps : StreamAction → Bool
  | .fanout _ (.unstamped _) => false
  | _ => true

/-- An event of a thread is published before the next one is logged. -/
def Sequential (s : Streams) : StreamAction → Bool
  | .fanout call _ => s.inflight.all fun m => m.1.threadId ≠ call.channel.threadId
  | _ => true

/-- When the last XREAD of a resumed stream returns nothing, replay has read an entry, or
all live copies of events that are still to come are of events after the id. -/
def ThreadStream.SeamCovered (s : Streams) (h : ThreadStream) : Bool :=
  match h.request.lastEventId, h.phase with
  | .after last, .replay cursor [] =>
    (Log.after Entry.id cursor (s.log h.request.threadId)) ≠ [] || h.replayedUpTo ≠ .zero ||
      (h.buffer ++ s.inflight).all fun m =>
        m.1.threadId ≠ h.request.threadId || m.2.streamId.all (last < ·)
  | _, _ => true

/-- The handler that makes a step meets the condition. -/
def SeamCovered (s : Streams) : StreamAction → Bool
  | .next c =>
    match s.conns[c]? with
    | some (.thread h) => h.SeamCovered s
    | _ => true
  | _ => true

/-! ### The properties -/

/-- The ids of the structural events that a subscriber has been shown. -/
def ThreadStream.ids (h : ThreadStream) : List EntryId :=
  h.yielded.filterMap fun y => y.event.streamId

/-- No structural event up to the id that a stream resumes after is shown. -/
def NoRedelivery (s : Streams) : Prop :=
  ∀ h, Conn.thread h ∈ s.conns → ∀ last, h.request.lastEventId = .after last →
    ∀ id ∈ h.ids, last < id

/-- The ids that a subscriber of a thread is shown increase. -/
def InOrder (s : Streams) : Prop :=
  ∀ h, Conn.thread h ∈ s.conns → h.ids.Pairwise (· < ·)

theorem ThreadStream.ids_emit (h : ThreadStream) (source : Uuid) (ev : StreamEvent)
    (streamId : Option EntryId) :
    (h.emit source ev streamId).ids = h.ids ∨
      ∃ id, streamId = some id ∧ (h.emit source ev streamId).ids = h.ids ++ [id] := by
  unfold ids
  rw [emit_yielded]
  cases hout : display h.request.streamModes ev streamId with
  | none => simp
  | some out =>
    have hid := display_streamId hout
    cases hstream : streamId with
    | none => simp [hid, hstream]
    | some id => simp [hid, hstream]

theorem ThreadStream.mem_ids_emit {h : ThreadStream} {source : Uuid} {ev : StreamEvent}
    {streamId : Option EntryId} {id : EntryId} (hid : id ∈ (h.emit source ev streamId).ids) :
    id ∈ h.ids ∨ streamId = some id := by
  rcases h.ids_emit source ev streamId with hids | ⟨id', hid', hids⟩
  · rw [hids] at hid
    exact .inl hid
  · rw [hids, List.mem_append, List.mem_singleton] at hid
    rcases hid with hid | rfl
    · exact .inl hid
    · exact .inr hid'

theorem ThreadStream.pairwise_ids_emit {h : ThreadStream} {source : Uuid} {ev : StreamEvent}
    {streamId : Option EntryId} (hp : h.ids.Pairwise (· < ·))
    (hlt : ∀ id, streamId = some id → ∀ id' ∈ h.ids, id' < id) :
    (h.emit source ev streamId).ids.Pairwise (· < ·) := by
  rcases h.ids_emit source ev streamId with hids | ⟨id, hid, hids⟩
  · rw [hids]
    exact hp
  · rw [hids, List.pairwise_append]
    refine ⟨hp, List.pairwise_singleton .., fun id' hid' x hx => ?_⟩
    rw [List.mem_singleton.mp hx]
    exact hlt id hid id' hid'

/-! ### No event up to the resumption point -/

/-- A stream that resumes after `last`: what replay holds is after it, and so are the
live copies to come if replay has read nothing. -/
structure ThreadStream.Beyond (s : Streams) (last : EntryId) (h : ThreadStream) : Prop where
  le_lastId : last ≤ s.lastId h.request.threadId
  shown : ∀ id ∈ h.ids, last < id
  replay : ∀ cursor page, h.phase = .replay cursor page → last ≤ cursor ∧ ∀ e ∈ page, last < e.id
  replayedUpTo : h.replayedUpTo = .zero ∨ last < h.replayedUpTo
  live : h.phase = .live → h.replayedUpTo = .zero → ∀ m ∈ h.buffer ++ s.inflight,
    m.1.threadId = h.request.threadId → ∀ id, m.2.streamId = some id → last < id

/-- Every resumed stream. -/
def Streams.AllBeyond (s : Streams) : Prop :=
  ∀ h, Conn.thread h ∈ s.conns → ∀ last, h.request.lastEventId = .after last → h.Beyond s last

section

variable {d : Database} {s s' : Streams} {h : ThreadStream} {last : EntryId} {a : StreamAction}

/-- Logging gives the copy of an event a new id or none. -/
theorem ThreadStream.Beyond.fanout {call : Publication} {outcome : LogOutcome}
    (hb : h.Beyond s last) (hs : s.fanout call outcome = some s') : h.Beyond s' last := by
  have hle := Streams.lastId_le_fanout hs h.request.threadId
  refine ⟨hb.le_lastId.trans hle, hb.shown, hb.replay, hb.replayedUpTo,
    fun hlive hzero m hm hthread id hid => ?_⟩
  have hold := hb.live hlive hzero
  obtain ⟨m', hinflight, -, hnew⟩ := Streams.inflight_fanout hs
  rw [hinflight, ← List.append_assoc, List.mem_append, List.mem_singleton] at hm
  rcases hm with hm | rfl
  · exact hold m hm hthread id hid
  · have hlt := hnew id hid
    rw [hthread] at hlt
    exact hb.le_lastId.trans_lt hlt

/-- Publishing moves a message in flight to the buffer, or loses it. -/
theorem ThreadStream.Beyond.publish {i : ℕ} {m : Channel × StreamEvent} {buffer : List (Channel × StreamEvent)}
    (hb : h.Beyond s last) (hm : s.inflight[i]? = some m)
    (hbuffer : ∀ m' ∈ buffer, m' ∈ h.buffer ∨ m' = m) (hlastId : s'.lastId = s.lastId)
    (hinflight : s'.inflight = s.inflight.eraseIdx i) :
    ThreadStream.Beyond s' last { h with buffer } := by
  refine ⟨by rw [hlastId]; exact hb.le_lastId, hb.shown, hb.replay, hb.replayedUpTo,
    fun hlive hzero m' hm' => hb.live hlive hzero m' ?_⟩
  rw [hinflight] at hm'
  rcases List.mem_append.mp hm' with hm' | hm'
  · rcases hbuffer m' hm' with hm' | rfl
    · exact List.mem_append_left _ hm'
    · exact List.mem_append_right _ (List.mem_of_getElem? hm)
  · exact List.mem_append_right _ (List.mem_of_mem_eraseIdx hm')

/-- The handler moves on from a state that meets the condition. -/
theorem ThreadStream.Beyond.next {h' : ThreadStream} (hb : h.Beyond s last)
    (hlast : h.request.lastEventId = .after last) (hcov : h.SeamCovered s = true)
    (hconn : (Conn.thread h).Bounded s.lastId)
    (hn : h.next (s.log h.request.threadId) = some h') : h'.Beyond s last := by
  rcases ThreadStream.next_cases hn with ⟨cursor, hphase, hnil, rfl⟩ | ⟨cursor, page, hphase, rfl, -, rfl⟩ |
    ⟨cursor, entry, page, hphase, rfl⟩ | ⟨ch, ev, buffer, hphase, hbuffer, hcovers, rfl⟩ |
    ⟨ch, ev, buffer, hphase, hbuffer, hcovers, rfl⟩
  · -- the replay is over
    refine ⟨hb.le_lastId, hb.shown, nofun, hb.replayedUpTo, fun _ hzero m hm hthread id hid => ?_⟩
    simp only [ThreadStream.SeamCovered, hlast, hphase] at hcov
    have hall : (h.buffer ++ s.inflight).all (fun m => m.1.threadId ≠ h.request.threadId ||
        m.2.streamId.all (last < ·)) = true := by
      simpa [hnil, show h.replayedUpTo = .zero from hzero] using hcov
    have hm' := List.all_eq_true.mp hall m hm
    simpa [show m.1.threadId = h.request.threadId from hthread, hid] using hm'
  · -- a page is read
    obtain ⟨hle, -⟩ := hb.replay cursor [] hphase
    refine ⟨hb.le_lastId, hb.shown, fun cursor' page' heq => ?_, hb.replayedUpTo, nofun⟩
    cases heq
    exact ⟨hle, fun e he => hle.trans_lt (Log.mem_after.mp (List.mem_of_mem_take he)).2⟩
  · -- an entry of the page is shown
    obtain ⟨-, hpage⟩ := hb.replay cursor _ hphase
    have hentry := hpage entry List.mem_cons_self
    refine ⟨?_, fun id hid => ?_, fun cursor' page' heq => ?_, ?_, fun hlive => ?_⟩
    · simpa using hb.le_lastId
    · rcases ThreadStream.mem_ids_emit hid with hid | hid
      · exact hb.shown id hid
      · obtain rfl := Option.some.inj hid
        exact hentry
    · have hphase' := ThreadStream.phase_of_emit _ _ _ _ heq nofun
      cases hphase'
      exact ⟨hentry.le, fun e he => hpage e (List.mem_cons_of_mem _ he)⟩
    · rw [ThreadStream.emit_replayedUpTo]
      exact .inr hentry
    · have hphase' := ThreadStream.phase_of_emit _ _ _ _ hlive nofun
      cases hphase'
  · -- a buffered event is skipped
    refine ⟨hb.le_lastId, hb.shown, hb.replay, hb.replayedUpTo, fun _ hzero m hm => ?_⟩
    refine hb.live hphase hzero m ?_
    rw [hbuffer]
    exact List.mem_cons_of_mem _ hm
  · -- a buffered event is shown
    have hmem : (ch, ev) ∈ h.buffer := by
      rw [hbuffer]
      exact List.mem_cons_self
    have hthread : ch.threadId = h.request.threadId := of_decide_eq_true (hconn.subscribed _ hmem)
    have hnew : ∀ id, ev.streamId = some id → last < id := by
      intro id hid
      rcases hb.replayedUpTo with hzero | hlt
      · exact hb.live hphase hzero (ch, ev) (List.mem_append_left _ hmem) hthread id hid
      · refine hlt.trans (not_le.mp fun hle => ?_)
        rw [ThreadStream.covers_eq_true.mpr ⟨id, hid, hle⟩] at hcovers
        cases hcovers
    refine ⟨?_, fun id hid => ?_, fun cursor page heq => ?_, ?_, fun _ hzero m hm => ?_⟩
    · simpa using hb.le_lastId
    · rcases ThreadStream.mem_ids_emit hid with hid | hid
      · exact hb.shown id hid
      · exact hnew id hid
    · have hphase' := ThreadStream.phase_of_emit _ _ _ _ heq nofun
      rw [hphase] at hphase'
      cases hphase'
    · rw [ThreadStream.emit_replayedUpTo]
      exact hb.replayedUpTo
    · rw [ThreadStream.emit_replayedUpTo] at hzero
      rw [ThreadStream.emit_buffer] at hm
      rw [ThreadStream.emit_request]
      refine hb.live hphase hzero m ?_
      rw [hbuffer]
      exact List.mem_cons_of_mem _ hm

theorem Streams.Bounded.le_lastId_of_resumes (hbounded : s.Bounded) {request : StreamThreadRequest}
    (hresumes : Resumes s (.openThread request) = true) (hlast : request.lastEventId = .after last) :
    last ≤ s.lastId request.threadId := by
  simp only [Resumes, hlast, List.any_eq_true, Bool.and_eq_true, decide_eq_true_eq] at hresumes
  obtain ⟨conn, hconn, y, hy, hsource, hid⟩ := hresumes
  exact (hbounded.conns conn hconn).yielded y hy request.threadId last hsource hid

theorem SeamCovered.of_next {c : ℕ} (hc : s.conns[c]? = some (.thread h))
    (hcov : SeamCovered s (.next c) = true) : h.SeamCovered s = true := by
  simpa [SeamCovered, hc] using hcov

/-- **One step** that meets the conditions. -/
theorem Streams.AllBeyond.step (hall : s.AllBeyond) (hbounded : s.Bounded)
    (hresumes : Resumes s a = true) (hcov : SeamCovered s a = true)
    (hs : streamStep d s a = some s') : s'.AllBeyond := by
  intro h hconn last hlast
  rcases streamStep_cases hs with ⟨call, outcome, -, hs⟩ | ⟨i, succeeds, -, hs⟩ | ⟨tid, n, -, rfl⟩ |
    ⟨request, rfl, rfl | ⟨-, rfl⟩⟩ | ⟨filters, -, rfl⟩ | ⟨c, conn₀, conn', hc, hstep, rfl⟩
  · -- an event is logged
    rw [Streams.fanout_conns hs] at hconn
    exact (hall h hconn last hlast).fanout hs
  · -- an event is published
    obtain ⟨m, hm, ⟨-, rfl⟩ | ⟨-, rfl⟩⟩ := Streams.publish_cases hs
    · exact (hall h hconn last hlast).publish hm (fun m' hm' => .inl hm') rfl rfl
    · obtain ⟨conn₀, hconn₀, heq⟩ := List.mem_map.mp hconn
      cases conn₀ with
      | run h₀ => cases heq
      | thread h₀ =>
        obtain rfl := Conn.thread.inj heq
        rw [ThreadStream.deliver_request] at hlast
        have hb := hall h₀ hconn₀ last hlast
        rw [ThreadStream.deliver_eq]
        refine hb.publish hm (fun m' hm' => ?_) rfl rfl
        rw [ThreadStream.deliver_buffer, List.mem_append] at hm'
        rcases hm' with hm' | hm'
        · exact .inl hm'
        · split at hm'
          · exact .inr (List.mem_singleton.mp hm')
          · cases hm'
  · -- the log is trimmed
    have hb := hall h hconn last hlast
    exact ⟨hb.le_lastId, hb.shown, hb.replay, hb.replayedUpTo, hb.live⟩
  · exact hall h hconn last hlast
  · -- a thread stream is opened
    rcases List.mem_append.mp hconn with hconn | hconn
    · have hb := hall h hconn last hlast
      exact ⟨hb.le_lastId, hb.shown, hb.replay, hb.replayedUpTo, hb.live⟩
    · rw [List.mem_singleton] at hconn
      obtain rfl := Conn.thread.inj hconn
      have hlast' : request.lastEventId = .after last := hlast
      have hphase : (ThreadStream.opened request s.published.length).phase = .replay last [] := by
        simp [ThreadStream.opened, hlast', LastEventId.replayFrom]
      refine ⟨hbounded.le_lastId_of_resumes hresumes hlast', (fun _ hmem => by cases hmem),
        fun cursor page heq => ?_, .inl rfl, fun hlive => ?_⟩
      · rw [hphase] at heq
        cases heq
        exact ⟨le_rfl, fun _ hmem => by cases hmem⟩
      · rw [hphase] at hlive
        cases hlive
  · -- a run stream is opened
    rcases List.mem_append.mp hconn with hconn | hconn
    · have hb := hall h hconn last hlast
      exact ⟨hb.le_lastId, hb.shown, hb.replay, hb.replayedUpTo, hb.live⟩
    · rw [List.mem_singleton] at hconn
      cases hconn
  · -- one connection moves
    have hown : h.Beyond s last := by
      rcases List.mem_or_eq_of_mem_set hconn with hconn | rfl
      · exact hall h hconn last hlast
      · have hmem : conn₀ ∈ s.conns := List.mem_of_getElem? hc
        cases hstep with
        | @nextThread h₀ _ hn =>
          obtain ⟨hrequest, -⟩ := ThreadStream.next_request hn
          rw [hrequest] at hlast
          exact (hall h₀ hmem last hlast).next hlast (SeamCovered.of_next hc hcov)
            (hbounded.conns _ hmem) hn
        | timeoutThread => exact hall h hmem last hlast
        | closeThread =>
          have hb := hall _ hmem last hlast
          exact ⟨hb.le_lastId, hb.shown, (fun _ _ heq => by cases heq), hb.replayedUpTo,
            fun heq => by cases heq⟩
    exact ⟨hown.le_lastId, hown.shown, hown.replay, hown.replayedUpTo, hown.live⟩

end

/-! ### One publisher -/

/-- The ids of some messages of a thread. -/
def idsOf (threadId : Uuid) (ms : List (Channel × StreamEvent)) : List EntryId :=
  (ms.filter fun m => m.1.threadId = threadId).filterMap fun m => m.2.streamId

theorem mem_idsOf {threadId : Uuid} {ms : List (Channel × StreamEvent)} {id : EntryId} :
    id ∈ idsOf threadId ms ↔ ∃ m ∈ ms, m.1.threadId = threadId ∧ m.2.streamId = some id := by
  simp [idsOf, and_assoc]

theorem idsOf_append (threadId : Uuid) (ms ms' : List (Channel × StreamEvent)) :
    idsOf threadId (ms ++ ms') = idsOf threadId ms ++ idsOf threadId ms' := by
  simp [idsOf]

theorem idsOf_cons (threadId : Uuid) (m : Channel × StreamEvent)
    (ms : List (Channel × StreamEvent)) :
    idsOf threadId (m :: ms) =
      (if m.1.threadId = threadId then m.2.streamId.toList else []) ++ idsOf threadId ms := by
  by_cases hm : m.1.threadId = threadId
  · cases hid : m.2.streamId <;> simp [idsOf, hm, hid]
  · simp [idsOf, hm]

theorem idsOf_sublist {threadId : Uuid} {ms ms' : List (Channel × StreamEvent)}
    (h : ms.Sublist ms') : (idsOf threadId ms).Sublist (idsOf threadId ms') :=
  (h.filter _).filterMap _

/-- At most one event of a thread is in flight. -/
def Streams.OneInFlight (s : Streams) : Prop :=
  ∀ threadId, (s.inflight.filter fun m => m.1.threadId = threadId).length ≤ 1

/-- The ids that the subscriber has been shown, those on their way to it, and those of
the page it reads increase. -/
structure ThreadStream.Ordered (s : Streams) (h : ThreadStream) : Prop where
  shown : h.ids.Pairwise (· < ·)
  bounded : ∀ id ∈ h.ids, id ≤ s.lastId h.request.threadId
  coming : (idsOf h.request.threadId (h.buffer ++ s.inflight)).Pairwise (· < ·)
  replay : ∀ cursor page, h.phase = .replay cursor page → h.replayedUpTo ≤ cursor ∧
    (∀ id ∈ h.ids, id ≤ h.replayedUpTo) ∧ Log.Increasing Entry.id cursor page
  live : h.phase = .live → ∀ id ∈ h.ids, ∀ id' ∈ idsOf h.request.threadId (h.buffer ++ s.inflight),
    h.replayedUpTo < id' → id < id'

section

variable {d : Database} {s s' : Streams} {h : ThreadStream} {a : StreamAction}

theorem Streams.Bounded.le_of_coming (hbounded : s.Bounded) (hconn : Conn.thread h ∈ s.conns)
    {id : EntryId} (hid : id ∈ idsOf h.request.threadId (h.buffer ++ s.inflight)) :
    id ≤ s.lastId h.request.threadId := by
  obtain ⟨m, hm, hthread, hid⟩ := mem_idsOf.mp hid
  rw [← hthread]
  rcases List.mem_append.mp hm with hm | hm
  · exact (hbounded.conns _ hconn).buffered m hm id hid
  · exact hbounded.inflight m hm id hid

/-- The ids that a logging step puts in flight come last. -/
theorem ThreadStream.Ordered.fanout {call : Publication} {outcome : LogOutcome} (ho : h.Ordered s)
    (hle : ∀ id ∈ idsOf h.request.threadId (h.buffer ++ s.inflight), id ≤ s.lastId h.request.threadId)
    (hs : s.fanout call outcome = some s') : h.Ordered s' := by
  have hbound := Streams.lastId_le_fanout hs h.request.threadId
  obtain ⟨m, hinflight, -, hnew⟩ := Streams.inflight_fanout hs
  have hids : idsOf h.request.threadId (h.buffer ++ s'.inflight) =
      idsOf h.request.threadId (h.buffer ++ s.inflight) ++ idsOf h.request.threadId [m] := by
    rw [hinflight, ← List.append_assoc, idsOf_append]
  have hlast : ∀ id ∈ idsOf h.request.threadId [m], s.lastId h.request.threadId < id := by
    intro id hid
    obtain ⟨m', hm', hthread, hid'⟩ := mem_idsOf.mp hid
    obtain rfl := List.mem_singleton.mp hm'
    rw [← hthread]
    exact hnew id hid'
  have hone : (idsOf h.request.threadId [m]).Pairwise (· < ·) := by
    rw [idsOf_cons]
    split
    · cases m.2.streamId <;> simp [idsOf]
    · simp [idsOf]
  refine ⟨ho.shown, fun id hid => (ho.bounded id hid).trans hbound, ?_, ho.replay,
    fun hlive id hid id' hid' hlt => ?_⟩
  · rw [hids, List.pairwise_append]
    exact ⟨ho.coming, hone, fun id hid id' hid' => (hle id hid).trans_lt (hlast id' hid')⟩
  · rw [hids, List.mem_append] at hid'
    rcases hid' with hid' | hid'
    · exact ho.live hlive id hid id' hid' hlt
    · exact (ho.bounded id hid).trans_lt (hlast id' hid')

theorem ThreadStream.Ordered.sublist {buffer : List (Channel × StreamEvent)} (ho : h.Ordered s)
    (hlastId : s'.lastId = s.lastId)
    (hsub : (idsOf h.request.threadId (buffer ++ s'.inflight)).Sublist
      (idsOf h.request.threadId (h.buffer ++ s.inflight))) :
    ThreadStream.Ordered s' { h with buffer } := by
  refine ⟨ho.shown, ?_, ho.coming.sublist hsub, ho.replay, fun hlive id hid id' hid' =>
    ho.live hlive id hid id' (hsub.subset hid')⟩
  rw [hlastId]
  exact ho.bounded

/-- The only message of a thread in flight is published: the messages of the thread on
their way to a subscriber stay the same. -/
theorem Streams.OneInFlight.idsOf_publish (hone : s.OneInFlight) {i : ℕ}
    {m : Channel × StreamEvent} (hm : s.inflight[i]? = some m) :
    idsOf h.request.threadId ((h.deliver m).buffer ++ s.inflight.eraseIdx i) =
      idsOf h.request.threadId (h.buffer ++ s.inflight) := by
  have hsub : ((s.inflight.eraseIdx i).filter fun m => m.1.threadId = h.request.threadId).Sublist
      (s.inflight.filter fun m => m.1.threadId = h.request.threadId) :=
    (List.eraseIdx_sublist ..).filter _
  have hperm := (publish_perm hm).filter fun m => m.1.threadId = h.request.threadId
  rw [ThreadStream.deliver_buffer]
  by_cases hthread : m.1.threadId = h.request.threadId
  · rw [if_pos (show h.matches m.1 = true from decide_eq_true hthread)]
    have hlen := hone h.request.threadId
    rw [List.filter_cons_of_pos (by simpa using hthread)] at hperm
    have hnil : ((s.inflight.eraseIdx i).filter fun m => m.1.threadId = h.request.threadId) = [] := by
      rw [← List.length_eq_zero_iff]
      have := hperm.length_eq
      rw [List.length_cons] at this
      omega
    rw [hnil] at hperm
    simp only [idsOf, List.filter_append, hnil, List.perm_singleton.mp hperm]
    simp [hthread]
  · rw [if_neg (show ¬ h.matches m.1 = true from fun heq => hthread (of_decide_eq_true heq)),
      List.append_nil]
    rw [List.filter_cons_of_neg (by simpa using hthread)] at hperm
    have hsame := hsub.eq_of_length hperm.symm.length_eq
    simp only [idsOf, List.filter_append, hsame]

/-- The handler moves on. -/
theorem ThreadStream.Ordered.next {h' : ThreadStream} (ho : h.Ordered s) (hbounded : s.Bounded)
    (hconn : (Conn.thread h).Bounded s.lastId)
    (hn : h.next (s.log h.request.threadId) = some h') : h'.Ordered s := by
  rcases ThreadStream.next_cases hn with ⟨cursor, hphase, -, rfl⟩ | ⟨cursor, page, hphase, rfl, -, rfl⟩ |
    ⟨cursor, entry, page, hphase, rfl⟩ | ⟨ch, ev, buffer, hphase, hbuffer, -, rfl⟩ |
    ⟨ch, ev, buffer, hphase, hbuffer, hcovers, rfl⟩
  · -- the replay is over
    obtain ⟨-, hup, -⟩ := ho.replay cursor [] hphase
    exact ⟨ho.shown, ho.bounded, ho.coming, nofun, fun _ id hid id' _ hlt => (hup id hid).trans_lt hlt⟩
  · -- a page is read
    obtain ⟨hle, hup, -⟩ := ho.replay cursor [] hphase
    refine ⟨ho.shown, ho.bounded, ho.coming, fun cursor' page' heq => ?_, nofun⟩
    cases heq
    refine ⟨hle, hup, fun e he => (Log.mem_after.mp (List.mem_of_mem_take he)).2, ?_⟩
    exact ((hbounded.log _).sublist ((List.take_sublist ..).trans (Log.after_sublist _))).pairwise
  · -- an entry of the page is shown
    obtain ⟨hle, hup, hpage⟩ := ho.replay cursor _ hphase
    have hentry := hpage.above entry List.mem_cons_self
    have hlt : ∀ id ∈ h.ids, id < entry.id := fun id hid => ((hup id hid).trans hle).trans_lt hentry
    refine ⟨ThreadStream.pairwise_ids_emit ho.shown ?_, fun id hid => ?_, ?_, fun cursor' page' heq => ?_,
      fun hlive => ?_⟩
    · intro id hid
      obtain rfl := Option.some.inj hid
      exact hlt
    · rw [ThreadStream.emit_request]
      rcases ThreadStream.mem_ids_emit hid with hid | hid
      · exact ho.bounded id hid
      · obtain rfl := Option.some.inj hid
        exact (hconn.handler h rfl).paged cursor _ hphase entry List.mem_cons_self
    · simpa using ho.coming
    · have hphase' := ThreadStream.phase_of_emit _ _ _ _ heq nofun
      cases hphase'
      rw [ThreadStream.emit_replayedUpTo]
      refine ⟨le_rfl, fun id hid => ?_, fun e he => ?_, hpage.pairwise.of_cons⟩
      · rcases ThreadStream.mem_ids_emit hid with hid | hid
        · exact (hlt id hid).le
        · exact (Option.some.inj hid).symm.le
      · exact List.rel_of_pairwise_cons hpage.pairwise he
    · have hphase' := ThreadStream.phase_of_emit _ _ _ _ hlive nofun
      cases hphase'
  · -- a buffered event is skipped
    refine ho.sublist rfl (idsOf_sublist ?_)
    rw [hbuffer]
    exact (List.sublist_cons_self ..).append_right _
  · -- a buffered event is shown
    have hmem : (ch, ev) ∈ h.buffer := by
      rw [hbuffer]
      exact List.mem_cons_self
    have hthread : ch.threadId = h.request.threadId := of_decide_eq_true (hconn.subscribed _ hmem)
    have hcoming : idsOf h.request.threadId (h.buffer ++ s.inflight) =
        ev.streamId.toList ++ idsOf h.request.threadId (buffer ++ s.inflight) := by
      rw [hbuffer, List.cons_append, idsOf_cons, if_pos hthread]
    have hpairs := ho.coming
    rw [hcoming, List.pairwise_append] at hpairs
    obtain ⟨-, hrest, hfirst⟩ := hpairs
    have hnew : ∀ id, ev.streamId = some id → h.replayedUpTo < id := by
      intro id hid
      rw [← not_le]
      intro hle
      rw [ThreadStream.covers_eq_true.mpr ⟨id, hid, hle⟩] at hcovers
      cases hcovers
    have hin : ∀ id, ev.streamId = some id →
        id ∈ idsOf h.request.threadId (h.buffer ++ s.inflight) := by
      intro id hid
      rw [hcoming, hid]
      simp
    refine ⟨ThreadStream.pairwise_ids_emit ho.shown ?_, fun id hid => ?_, ?_, fun cursor page heq => ?_,
      fun _ id hid id' hid' hlt => ?_⟩
    · intro id hid id' hid'
      exact ho.live hphase id' hid' id (hin id hid) (hnew id hid)
    · rw [ThreadStream.emit_request]
      rcases ThreadStream.mem_ids_emit hid with hid | hid
      · exact ho.bounded id hid
      · rw [← hthread]
        exact hconn.buffered (ch, ev) hmem id hid
    · simpa using hrest
    · have hphase' := ThreadStream.phase_of_emit _ _ _ _ heq nofun
      rw [hphase] at hphase'
      cases hphase'
    · rw [ThreadStream.emit_request, ThreadStream.emit_buffer] at hid'
      rw [ThreadStream.emit_replayedUpTo] at hlt
      rcases ThreadStream.mem_ids_emit hid with hid | hid
      · refine ho.live hphase id hid id' ?_ hlt
        rw [hcoming]
        exact List.mem_append_right _ hid'
      · exact hfirst id (by simp [hid]) id' hid'

/-- **One step** of a publisher that publishes before it logs the next event. -/
theorem Streams.OneInFlight.step (hone : s.OneInFlight) (hseq : Sequential s a = true)
    (hs : streamStep d s a = some s') : s'.OneInFlight := by
  intro threadId
  rcases streamStep_cases hs with ⟨call, outcome, rfl, hs⟩ | ⟨i, succeeds, -, hs⟩ | ⟨tid, n, -, rfl⟩ |
    ⟨request, -, rfl | ⟨-, rfl⟩⟩ | ⟨filters, -, rfl⟩ | ⟨c, conn₀, conn', hc, hstep, rfl⟩
  · obtain ⟨m, hinflight, hch, -⟩ := Streams.inflight_fanout hs
    rw [hinflight, List.filter_append, List.length_append]
    by_cases hthread : m.1.threadId = threadId
    · have hnil : (s.inflight.filter fun m => m.1.threadId = threadId) = [] := by
        rw [List.filter_eq_nil_iff]
        intro m' hm' heq
        simp only [Sequential, List.all_eq_true, decide_eq_true_eq] at hseq
        refine hseq m' hm' ?_
        rw [← hch, hthread]
        exact of_decide_eq_true heq
      rw [hnil]
      simp [hthread]
    · have := hone threadId
      simpa [hthread] using this
  · obtain ⟨m, -, ⟨-, rfl⟩ | ⟨-, rfl⟩⟩ := Streams.publish_cases hs
    · exact ((List.eraseIdx_sublist ..).filter _).length_le.trans (hone threadId)
    · exact ((List.eraseIdx_sublist ..).filter _).length_le.trans (hone threadId)
  · exact hone threadId
  · exact hone threadId
  · exact hone threadId
  · exact hone threadId
  · exact hone threadId

/-- **One step** keeps every subscriber's ids in order. -/
theorem ordered_step (hall : ∀ h, Conn.thread h ∈ s.conns → h.Ordered s) (hone : s.OneInFlight)
    (hbounded : s.Bounded) (hs : streamStep d s a = some s') :
    ∀ h, Conn.thread h ∈ s'.conns → h.Ordered s' := by
  intro h hconn
  rcases streamStep_cases hs with ⟨call, outcome, -, hs⟩ | ⟨i, succeeds, -, hs⟩ | ⟨tid, n, -, rfl⟩ |
    ⟨request, -, rfl | ⟨-, rfl⟩⟩ | ⟨filters, -, rfl⟩ | ⟨c, conn₀, conn', hc, hstep, rfl⟩
  · -- an event is logged
    rw [Streams.fanout_conns hs] at hconn
    exact (hall h hconn).fanout (fun id hid => hbounded.le_of_coming hconn hid) hs
  · -- an event is published
    obtain ⟨m, hm, ⟨-, rfl⟩ | ⟨-, rfl⟩⟩ := Streams.publish_cases hs
    · exact (hall h hconn).sublist rfl (idsOf_sublist ((List.eraseIdx_sublist ..).append_left _))
    · obtain ⟨conn₀, hconn₀, heq⟩ := List.mem_map.mp hconn
      cases conn₀ with
      | run h₀ => cases heq
      | thread h₀ =>
        obtain rfl := Conn.thread.inj heq
        rw [ThreadStream.deliver_eq]
        refine (hall h₀ hconn₀).sublist rfl ?_
        rw [hone.idsOf_publish hm]
  · -- the log is trimmed
    exact (hall h hconn).sublist rfl (List.Sublist.refl _)
  · exact hall h hconn
  · -- a thread stream is opened: at most one id is in flight
    rcases List.mem_append.mp hconn with hconn | hconn
    · exact (hall h hconn).sublist rfl (List.Sublist.refl _)
    · rw [List.mem_singleton] at hconn
      obtain rfl := Conn.thread.inj hconn
      refine ⟨List.Pairwise.nil, (fun _ hmem => by cases hmem), ?_, fun cursor page hphase => ?_,
        fun _ _ hmem => by cases hmem⟩
      · have hlen := hone request.threadId
        have hshort : (idsOf request.threadId s.inflight).length ≤ 1 :=
          (List.length_filterMap_le ..).trans hlen
        have hids : idsOf request.threadId ((ThreadStream.opened request s.published.length).buffer ++ s.inflight) =
            idsOf request.threadId s.inflight := rfl
        show (idsOf request.threadId _).Pairwise _
        rw [hids]
        rcases Nat.le_one_iff_eq_zero_or_eq_one.mp hshort with hzero | hone
        · rw [List.length_eq_zero_iff.mp hzero]
          exact List.Pairwise.nil
        · obtain ⟨id, hid⟩ := List.length_eq_one_iff.mp hone
          rw [hid]
          exact List.pairwise_singleton ..
      · simp only [ThreadStream.opened] at hphase
        split at hphase
        · cases hphase
          exact ⟨EntryId.zero_le _, (fun _ hmem => by cases hmem), Log.Increasing.nil⟩
        · cases hphase
  · -- a run stream is opened
    rcases List.mem_append.mp hconn with hconn | hconn
    · exact (hall h hconn).sublist rfl (List.Sublist.refl _)
    · rw [List.mem_singleton] at hconn
      cases hconn
  · -- one connection moves
    have hown : h.Ordered s := by
      rcases List.mem_or_eq_of_mem_set hconn with hconn | rfl
      · exact hall h hconn
      · have hmem : conn₀ ∈ s.conns := List.mem_of_getElem? hc
        cases hstep with
        | nextThread hn => exact (hall _ hmem).next hbounded (hbounded.conns _ hmem) hn
        | timeoutThread => exact hall h hmem
        | closeThread =>
          have ho := hall _ hmem
          exact ⟨ho.shown, ho.bounded, ho.coming, (fun _ _ heq => by cases heq),
            fun heq => by cases heq⟩
    exact hown.sublist rfl (List.Sublist.refl _)

/-- **Resumption**: no event up to the id is shown in a run whose resumed streams meet the
condition, and in a run with one publisher the ids increase. -/
theorem resume_of_seamCovered (d : Database) (s : Streams) :
    ((streams d).Reachable
      (fun s a => Resumes s a = true ∧ Stamps a = true ∧ SeamCovered s a = true) s →
        NoRedelivery s) ∧
    ((streams d).Reachable
      (fun s a => Resumes s a = true ∧ Stamps a = true ∧ Sequential s a = true) s →
        InOrder s) := by
  constructor
  · intro h
    have hall : s.AllBeyond := by
      refine h.invariant (I := Streams.AllBeyond) ?_ ?_
      · rintro s rfl
        exact nofun
      · intro s a s' hr ih hOk hs
        exact ih.step (bounded_of_reachable hr) hOk.1 hOk.2.2 hs
    exact fun h hconn last hlast => (hall h hconn last hlast).shown
  · intro h
    have hall : s.OneInFlight ∧ ∀ h, Conn.thread h ∈ s.conns → h.Ordered s := by
      refine h.invariant
        (I := fun s => s.OneInFlight ∧ ∀ h, Conn.thread h ∈ s.conns → h.Ordered s) ?_ ?_
      · rintro s rfl
        exact ⟨fun _ => Nat.zero_le _, nofun⟩
      · intro s a s' hr ih hOk hs
        exact ⟨ih.1.step hOk.2.2 hs, ordered_step ih.2 ih.1 (bounded_of_reachable hr) hs⟩
    exact fun h hconn => (hall.2 h hconn).shown

end

/-! ### A subscriber that resumes -/

/-- A subscriber of thread `1` reads the first event from the log, before it is
published, disconnects and resumes after it. -/
def resumeRun : List StreamAction :=
  [.openThread { threadId := 1, lastEventId := .beginning },
    .fanout (.publish 1 (some 7) "values" (.json (.obj []))) (.logged (toLex (1, 0))),
    .next 0, .next 0, .close 0,
    .openThread { threadId := 1, lastEventId := .after (toLex (1, 0)) }]

/-- Published before the resumed stream has finished replay, and with a second event in
the log, the first event is not shown again. -/
theorem resume_of_seamCovered_witness :
    ∃ s, (streams (Database.fresh Table.empty)).Reachable
      (fun s a => Resumes s a = true ∧ Stamps a = true ∧ SeamCovered s a = true) s ∧
      NoRedelivery s ∧ InOrder s ∧ ∃ h, Conn.thread h ∈ s.conns ∧
        h.request.lastEventId = .after (toLex (1, 0)) ∧ h.ids = [toLex (1, 1)] := by
  obtain ⟨s, hs, hp⟩ := Machine.exists_reachable (streams (Database.fresh Table.empty))
    (fun s a => Resumes s a = true ∧ (Stamps a = true ∧ SeamCovered s a = true) ∧ Sequential s a = true)
    (show (streams _).init {} from rfl)
    (resumeRun ++ [.publish 0 true,
      .fanout (.publish 1 (some 7) "updates" (.json (.obj []))) (.logged (toLex (1, 1))),
      .next 1, .next 1, .next 1, .publish 0 true, .next 1, .next 1])
    (fun s => s.anyThread fun h =>
      h.request.lastEventId = .after (toLex (1, 0)) && h.ids = [toLex (1, 1)])
    (by decide +kernel)
  obtain ⟨h, hconn, hp⟩ := Streams.exists_of_anyThread hp
  simp only [Bool.and_eq_true, decide_eq_true_eq] at hp
  have hcov : (streams (Database.fresh Table.empty)).Reachable
      (fun s a => Resumes s a = true ∧ Stamps a = true ∧ SeamCovered s a = true) s :=
    hs.mono fun s a hOk => ⟨hOk.1, hOk.2.1⟩
  have hseq : (streams (Database.fresh Table.empty)).Reachable
      (fun s a => Resumes s a = true ∧ Stamps a = true ∧ Sequential s a = true) s :=
    hs.mono fun s a hOk => ⟨hOk.1, hOk.2.1.1, hOk.2.2⟩
  exact ⟨s, hcov, (resume_of_seamCovered _ s).1 hcov, (resume_of_seamCovered _ s).2 hseq, h, hconn, hp⟩

/-- Published after the resumed stream has found nothing to replay, it is. -/
theorem not_noRedelivery : ¬ ∀ d s, (streams d).Reachable
    (fun s a => Resumes s a = true ∧ Stamps a = true ∧ Sequential s a = true) s → NoRedelivery s := by
  intro hall
  obtain ⟨s, hs, hp⟩ := Machine.exists_reachable (streams (Database.fresh Table.empty))
    (fun s a => Resumes s a = true ∧ Stamps a = true ∧ Sequential s a = true)
    (show (streams _).init {} from rfl)
    (resumeRun ++ [.next 1, .publish 0 true, .next 1])
    (fun s => s.anyThread fun h =>
      h.request.lastEventId = .after (toLex (1, 0)) && h.ids = [toLex (1, 0)])
    (by decide +kernel)
  obtain ⟨h, hconn, hp⟩ := Streams.exists_of_anyThread hp
  simp only [Bool.and_eq_true, decide_eq_true_eq] at hp
  have hlt := hall _ s hs h hconn _ hp.1 (toLex (1, 0)) (by rw [hp.2]; simp)
  exact absurd hlt (lt_irrefl _)

end NextRole
