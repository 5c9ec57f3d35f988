import NextRole.Rpc
import NextRole.StreamBounds
import NextRole.StreamSeam
import NextRole.Agents.Auth

/-!
# Threads that are created again

The rows of a thread are in PostgreSQL and its event log is in Redis.  `Threads.Delete`
removes the rows and leaves the log, which goes when its key expires.  The gate of
`Threads.Stream` looks at the rows, so whoever creates a thread under a deleted id passes
it, and replay shows what is left of the log of the thread before.

## Main definitions

* `TwoStores`, `twoStores` — the services and the streams, with the marks of deletes.
* `ReplaysNothing` — a stream shows nothing from before the delete.
* `LogExpired` — a request for replay finds nothing that was logged before the delete.

## Main results

* `replaysNothing_of_logExpired`, and `not_replaysNothing` without the condition.
-/

namespace NextRole

/-! ### The two stores -/

/-- What Redis had at the delete of a thread: the last id in the thread's log, and how
many messages had been published. -/
structure Mark where
  lastId : EntryId
  published : ℕ
  deriving DecidableEq

/-- The services and the streams.  The marks are written at the deletes and creations of
threads and at the openings of streams; nothing reads them. -/
structure TwoStores where
  services : ServiceState
  streams : Streams := {}
  /-- The mark of a thread's last delete. -/
  deletedAt : Uuid → Option Mark := fun _ => none
  /-- The mark of the last delete that a creation of the thread has followed. -/
  recreatedAt : Uuid → Option Mark := fun _ => none
  /-- That mark of its thread when a stream was opened. -/
  openedAt : ℕ → Option Mark := fun _ => none

inductive StoresAction
  | service (a : ReadCommitted.Action Rpc)
  | stream (a : StreamAction)

/-- Whether the thread has a row. -/
def Database.hasThread (d : Database) (threadId : Uuid) : Bool := (d.thread.get? threadId).isSome

/-- The state after a step of a transaction. -/
def TwoStores.served (s : TwoStores) (services : ServiceState) : TwoStores :=
  let deletedAt := fun threadId =>
    if s.services.db.hasThread threadId && !services.db.hasThread threadId then
      some ⟨s.streams.lastId threadId, s.streams.published.length⟩
    else s.deletedAt threadId
  let recreatedAt := fun threadId =>
    if !s.services.db.hasThread threadId && services.db.hasThread threadId then deletedAt threadId
    else s.recreatedAt threadId
  { s with services, deletedAt, recreatedAt }

/-- The state after a step of Redis or of a streaming call. -/
def TwoStores.streamed (s : TwoStores) (a : StreamAction) (streams : Streams) : TwoStores :=
  match a with
  | .openThread request =>
    { s with
      streams
      openedAt :=
        Function.update s.openedAt s.streams.conns.length (s.recreatedAt request.threadId) }
  | _ => { s with streams }

def storesStep (s : TwoStores) : StoresAction → Option TwoStores
  | .service a => (ReadCommitted.step statements s.services a).map s.served
  | .stream a => (streamStep s.services.db s.streams a).map (s.streamed a)

/-- Calls over a database that satisfies `init`, and streams over an empty Redis. -/
def twoStores (init : Database → Prop) : Machine TwoStores StoresAction where
  init s := ∃ d, init d ∧ s = { services := ⟨d, .empty⟩ }
  step := storesStep

/-! ### What is shown of the thread before -/

/-- Each event that the stream has yielded was logged after the mark, or it is a message
that was published after it. -/
def ThreadStream.FreshSince (mark : Mark) (published : List (Channel × StreamEvent))
    (h : ThreadStream) : Prop :=
  ∀ y ∈ h.yielded, (∃ id, y.event.streamId = some id ∧ mark.lastId < id) ∨
    ∃ m ∈ published.drop mark.published, h.matches m.1 = true ∧
      displayMessage h.request.streamModes m = some y.event

/-- **No replay of the thread before**: a stream that was opened on a thread that had been
deleted and created again shows nothing from before the delete. -/
def ReplaysNothing (s : TwoStores) : Prop :=
  ∀ c h mark, s.streams.conns[c]? = some (.thread h) → s.openedAt c = some mark →
    h.FreshSince mark s.streams.published

/-- A request for the events of a thread that has been created again finds, after the id
that it names, no entry with something to show from before the delete. -/
def LogExpired (s : TwoStores) (a : StoresAction) : Prop :=
  ∀ request, a = .stream (.openThread request) →
    threadOwnerClause request.filters s.services.db.thread request.threadId = true →
    ∀ mark ∈ s.recreatedAt request.threadId, ∀ cursor ∈ request.lastEventId.replayFrom,
      ∀ e ∈ s.streams.log request.threadId, cursor < e.id →
        (e.display request.streamModes).isSome = true → mark.lastId < e.id

/-- Redis has gone on since the mark. -/
structure Mark.Past (threadId : Uuid) (s : Streams) (mark : Mark) : Prop where
  lastId : mark.lastId ≤ s.lastId threadId
  published : mark.published ≤ s.published.length

/-- What a stream has shown, and what it has received and may still read, is from after
the mark. -/
structure ThreadStream.Renewed (s : Streams) (mark : Mark) (h : ThreadStream) : Prop where
  past : mark.Past h.request.threadId s
  fresh : h.FreshSince mark s.published
  buffered : ∀ m ∈ h.buffer, h.matches m.1 = true ∧ m ∈ s.published.drop mark.published
  logged : ∀ start, h.request.lastEventId.replayFrom = some start →
    ∀ e ∈ s.log h.request.threadId, start < e.id →
      (e.display h.request.streamModes).isSome = true → mark.lastId < e.id
  paged : ∀ cursor page, h.phase = .replay cursor page →
    ∃ start, h.request.lastEventId.replayFrom = some start ∧ start ≤ cursor ∧
      ∀ e ∈ page, start < e.id ∧
        ((e.display h.request.streamModes).isSome = true → mark.lastId < e.id)

/-! ### Redis over a step -/

/-- Ids go up, messages stay published, and what is new in a log has a new id. -/
structure Streams.GoesOn (s s' : Streams) : Prop where
  lastId : ∀ threadId, s.lastId threadId ≤ s'.lastId threadId
  published : s.published <+: s'.published
  log : ∀ threadId, ∀ e ∈ s'.log threadId, e ∈ s.log threadId ∨ s.lastId threadId < e.id

section

variable {d : Database} {s s' : Streams} {a : StreamAction} {mark : Mark} {h : ThreadStream}
  {threadId : Uuid}

theorem Streams.GoesOn.rfl : s.GoesOn s :=
  ⟨fun _ => le_rfl, List.prefix_rfl, fun _ _ he => .inl he⟩

theorem Streams.GoesOn.fanout {call : Publication} {outcome : LogOutcome}
    (hs : s.fanout call outcome = some s') : s.GoesOn s' := by
  have hle := Streams.lastId_le_fanout hs
  rcases Streams.fanout_cases hs with ⟨-, rfl⟩ | ⟨id, -, -, hlt, rfl⟩
  · exact ⟨hle, List.prefix_rfl, fun _ _ he => .inl he⟩
  · refine ⟨hle, List.prefix_rfl, fun k e he => ?_⟩
    by_cases hk : k = call.channel.threadId
    · simp only [hk, Function.update_self, List.mem_append, List.mem_singleton] at he ⊢
      rcases he with he | rfl
      · exact .inl he
      · exact .inr hlt
    · simp only [Function.update_of_ne hk] at he
      exact .inl he

/-- Every step lets Redis go on. -/
theorem Streams.GoesOn.step (hs : streamStep d s a = some s') : s.GoesOn s' := by
  rcases streamStep_cases hs with ⟨call, outcome, -, hs⟩ | ⟨i, succeeds, -, hs⟩ | ⟨tid, n, -, rfl⟩ |
    ⟨request, -, rfl | ⟨-, rfl⟩⟩ | ⟨filters, -, rfl⟩ | ⟨c, conn₀, conn', -, -, rfl⟩
  · exact .fanout hs
  · obtain ⟨m, -, ⟨-, rfl⟩ | ⟨-, rfl⟩⟩ := Streams.publish_cases hs
    · exact ⟨fun _ => le_rfl, List.prefix_rfl, fun _ _ he => .inl he⟩
    · exact ⟨fun _ => le_rfl, List.prefix_append .., fun _ _ he => .inl he⟩
  · refine ⟨fun _ => le_rfl, List.prefix_rfl, fun k e he => .inl ?_⟩
    by_cases hk : k = tid
    · simp only [hk, Function.update_self] at he ⊢
      exact List.mem_of_mem_drop he
    · simpa only [Function.update_of_ne hk] using he
  · exact .rfl
  · exact ⟨fun _ => le_rfl, List.prefix_rfl, fun _ _ he => .inl he⟩
  · exact ⟨fun _ => le_rfl, List.prefix_rfl, fun _ _ he => .inl he⟩
  · exact ⟨fun _ => le_rfl, List.prefix_rfl, fun _ _ he => .inl he⟩

theorem Mark.Past.goesOn (hp : mark.Past threadId s) (hg : s.GoesOn s') :
    mark.Past threadId s' :=
  ⟨hp.lastId.trans (hg.lastId threadId), hp.published.trans hg.published.length_le⟩

theorem Streams.GoesOn.drop_subset (hg : s.GoesOn s') (n : ℕ) :
    s.published.drop n ⊆ s'.published.drop n := by
  obtain ⟨ms, hms⟩ := hg.published
  rw [← hms, List.drop_append]
  exact List.subset_append_left ..

/-! ### One stream -/

theorem ThreadStream.Renewed.goesOn (hr : h.Renewed s mark) (hg : s.GoesOn s') :
    h.Renewed s' mark := by
  refine ⟨hr.past.goesOn hg, fun y hy => ?_, fun m hm => ?_, fun start hstart e he hlt hshown => ?_,
    hr.paged⟩
  · rcases hr.fresh y hy with hid | ⟨m, hm, hshown⟩
    · exact .inl hid
    · exact .inr ⟨m, hg.drop_subset _ hm, hshown⟩
  · obtain ⟨hmatches, hm⟩ := hr.buffered m hm
    exact ⟨hmatches, hg.drop_subset _ hm⟩
  · rcases hg.log _ e he with he | hnew
    · exact hr.logged start hstart e he hlt hshown
    · exact hr.past.lastId.trans_lt hnew

/-- A message that is published after the mark is received. -/
theorem ThreadStream.Renewed.deliver {m : Channel × StreamEvent} (hr : h.Renewed s mark)
    (hm : m ∈ s.published.drop mark.published) : (h.deliver m).Renewed s mark := by
  rw [ThreadStream.deliver_eq]
  refine ⟨hr.past, hr.fresh, fun m' hm' => ?_, hr.logged, hr.paged⟩
  simp only [ThreadStream.deliver_buffer, List.mem_append] at hm'
  rcases hm' with hm' | hm'
  · exact hr.buffered m' hm'
  · split at hm'
    · next hmatches =>
      rw [List.mem_singleton.mp hm']
      exact ⟨hmatches, hm⟩
    · cases hm'

/-- Yielding what is from after the mark. -/
theorem ThreadStream.Renewed.emit {source : Uuid} {ev : StreamEvent} {streamId : Option EntryId}
    (hr : h.Renewed s mark)
    (hnew : ∀ out, display h.request.streamModes ev streamId = some out →
      (∃ id, out.streamId = some id ∧ mark.lastId < id) ∨
        ∃ m ∈ s.published.drop mark.published, h.matches m.1 = true ∧
          displayMessage h.request.streamModes m = some out) :
    (h.emit source ev streamId).Renewed s mark := by
  constructor
  case past =>
    rw [ThreadStream.emit_request]
    exact hr.past
  case fresh =>
    intro y hy
    simp only [ThreadStream.matches, ThreadStream.emit_request]
    rw [ThreadStream.emit_yielded, List.mem_append] at hy
    rcases hy with hy | hy
    · exact hr.fresh y hy
    · simp only [Option.mem_toList, Option.map_eq_some_iff] at hy
      obtain ⟨out, hout, rfl⟩ := hy
      exact hnew out hout
  case buffered =>
    intro m hm
    rw [ThreadStream.emit_buffer] at hm
    simp only [ThreadStream.matches, ThreadStream.emit_request]
    exact hr.buffered m hm
  case logged =>
    rw [ThreadStream.emit_request]
    exact hr.logged
  case paged =>
    intro cursor page hphase
    rw [ThreadStream.emit_request]
    exact hr.paged cursor page (ThreadStream.phase_of_emit h source ev streamId hphase
      (fun heq => by cases heq))

/-- The handler moves on. -/
theorem ThreadStream.Renewed.next {h' : ThreadStream} (hr : h.Renewed s mark)
    (hn : h.next (s.log h.request.threadId) = some h') : h'.Renewed s mark := by
  rcases ThreadStream.next_cases hn with ⟨cursor, -, -, rfl⟩ | ⟨cursor, page, hphase, rfl, -, rfl⟩ |
    ⟨cursor, entry, page, hphase, rfl⟩ | ⟨ch, ev, buffer, -, hbuffer, -, rfl⟩ |
    ⟨ch, ev, buffer, -, hbuffer, -, rfl⟩
  · -- the replay is over
    exact ⟨hr.past, hr.fresh, hr.buffered, hr.logged, nofun⟩
  · -- a page is read, which starts after the id that the request names
    obtain ⟨start, hstart, hle, -⟩ := hr.paged cursor [] hphase
    refine ⟨hr.past, hr.fresh, hr.buffered, hr.logged, fun cursor' page' heq => ?_⟩
    cases heq
    refine ⟨start, hstart, hle, fun e he => ?_⟩
    obtain ⟨hlog, hlt⟩ := Log.mem_after.mp (List.mem_of_mem_take he)
    exact ⟨hle.trans_lt hlt, hr.logged start hstart e hlog (hle.trans_lt hlt)⟩
  · -- an entry of the page is shown
    obtain ⟨start, hstart, -, hpage⟩ := hr.paged cursor _ hphase
    obtain ⟨hlt, hentry⟩ := hpage entry List.mem_cons_self
    have hread : ThreadStream.Renewed s mark
        { h with phase := .replay entry.id page, replayedUpTo := entry.id } := by
      refine ⟨hr.past, hr.fresh, hr.buffered, hr.logged, fun cursor' page' heq => ?_⟩
      cases heq
      exact ⟨start, hstart, hlt.le, fun e he => hpage e (List.mem_cons_of_mem _ he)⟩
    refine hread.emit fun out hout => .inl ⟨entry.id, display_streamId hout, hentry ?_⟩
    exact Option.isSome_iff_exists.mpr ⟨out, hout⟩
  · -- a message is skipped
    refine ⟨hr.past, hr.fresh, fun m hm => hr.buffered m ?_, hr.logged, hr.paged⟩
    rw [hbuffer]
    exact List.mem_cons_of_mem _ hm
  · -- a message is shown
    obtain ⟨hmatches, hpublished⟩ := hr.buffered (ch, ev) (hbuffer ▸ List.mem_cons_self)
    have hrest : ThreadStream.Renewed s mark { h with buffer } := by
      refine ⟨hr.past, hr.fresh, fun m hm => hr.buffered m ?_, hr.logged, hr.paged⟩
      rw [hbuffer]
      exact List.mem_cons_of_mem _ hm
    exact hrest.emit fun out hout => .inr ⟨(ch, ev), hpublished, hmatches, hout⟩

theorem ThreadStream.Renewed.step {h' : ThreadStream} {c : ℕ} {conn : Conn}
    (hr : ∀ h, conn = .thread h → h.Renewed s mark)
    (hs : Conn.Step d s.log c a conn (.thread h')) : h'.Renewed s mark := by
  cases hs with
  | nextThread hn => exact (hr _ rfl).next hn
  | timeoutThread => exact hr _ rfl
  | closeThread =>
    have hold := hr _ rfl
    exact ⟨hold.past, hold.fresh, hold.buffered, hold.logged, nofun⟩

/-- A stream that is opened where replay finds nothing from before the mark. -/
theorem ThreadStream.Renewed.opened {request : StreamThreadRequest}
    (hp : mark.Past request.threadId s)
    (hlog : ∀ start, request.lastEventId.replayFrom = some start →
      ∀ e ∈ s.log request.threadId, start < e.id →
        (e.display request.streamModes).isSome = true → mark.lastId < e.id) (since : ℕ) :
    (ThreadStream.opened request since).Renewed s mark := by
  refine ⟨hp, (fun _ hmem => by cases hmem), (fun _ hmem => by cases hmem), hlog,
    fun cursor page hphase => ?_⟩
  simp only [ThreadStream.opened] at hphase
  split at hphase
  · next hstart =>
    cases hphase
    exact ⟨_, hstart, le_rfl, fun _ hmem => by cases hmem⟩
  · cases hphase

/-- **One step** for a stream that was there before. -/
theorem ThreadStream.Renewed.streamStep {c : ℕ}
    (hr : ∀ h, s.conns[c]? = some (.thread h) → h.Renewed s mark)
    (hs : streamStep d s a = some s') (hlt : c < s.conns.length)
    (hc : s'.conns[c]? = some (.thread h)) : h.Renewed s' mark := by
  have hg := Streams.GoesOn.step hs
  rcases streamStep_cases hs with ⟨call, outcome, -, hs⟩ | ⟨i, succeeds, -, hs⟩ | ⟨tid, n, -, rfl⟩ |
    ⟨request, -, rfl | ⟨-, rfl⟩⟩ | ⟨filters, -, rfl⟩ | ⟨c₀, conn₀, conn', hc₀, hstep, rfl⟩
  · rw [Streams.fanout_conns hs] at hc
    exact (hr h hc).goesOn hg
  · obtain ⟨m, -, ⟨-, rfl⟩ | ⟨-, rfl⟩⟩ := Streams.publish_cases hs
    · exact (hr h hc).goesOn hg
    · simp only [List.getElem?_map, Option.map_eq_some_iff] at hc
      obtain ⟨conn, hconn, heq⟩ := hc
      cases conn with
      | run h₀ => cases heq
      | thread h₀ =>
        obtain rfl := Conn.thread.inj heq
        have hold := hr h₀ hconn
        refine (hold.goesOn hg).deliver ?_
        rw [List.drop_append_of_le_length hold.past.published]
        exact List.mem_append_right _ (List.mem_singleton_self m)
  · exact (hr h hc).goesOn hg
  · exact hr h hc
  · exact (hr h (List.getElem?_append_left hlt ▸ hc)).goesOn hg
  · exact (hr h (List.getElem?_append_left hlt ▸ hc)).goesOn hg
  · by_cases heq : c₀ = c
    · subst heq
      simp only [List.getElem?_set_self hlt] at hc
      obtain rfl := Option.some.inj hc
      refine ThreadStream.Renewed.goesOn (.step (fun h₀ hh => ?_) hstep) hg
      exact hr h₀ (hh ▸ hc₀)
    · simp only [List.getElem?_set_ne heq] at hc
      exact (hr h hc).goesOn hg

/-- A stream that was not there before has just been opened. -/
theorem opened_of_streamStep {c : ℕ} (hs : NextRole.streamStep d s a = some s')
    (hle : s.conns.length ≤ c) (hc : s'.conns[c]? = some (.thread h)) :
    ∃ request, a = .openThread request ∧ c = s.conns.length ∧
      threadOwnerClause request.filters d.thread request.threadId = true ∧
      h = .opened request s.published.length := by
  have hnone : s.conns[c]? = none := List.getElem?_eq_none hle
  rcases streamStep_cases hs with ⟨call, outcome, -, hs⟩ | ⟨i, succeeds, -, hs⟩ | ⟨tid, n, -, rfl⟩ |
    ⟨request, rfl, rfl | ⟨hgate, rfl⟩⟩ | ⟨filters, -, rfl⟩ | ⟨c₀, conn₀, conn', -, -, rfl⟩
  · rw [Streams.fanout_conns hs, hnone] at hc
    cases hc
  · obtain ⟨m, -, ⟨-, rfl⟩ | ⟨-, rfl⟩⟩ := Streams.publish_cases hs
    · exact absurd (hnone.symm.trans hc) nofun
    · simp [hnone] at hc
  · exact absurd (hnone.symm.trans hc) nofun
  · exact absurd (hnone.symm.trans hc) nofun
  · simp only [List.getElem?_append_right hle, List.getElem?_singleton] at hc
    split at hc
    · next hzero =>
      obtain rfl := Conn.thread.inj (Option.some.inj hc)
      exact ⟨request, rfl, by omega, hgate, rfl⟩
    · cases hc
  · simp only [List.getElem?_append_right hle, List.getElem?_singleton] at hc
    split at hc
    · cases hc
    · cases hc
  · have hlen : (s.conns.set c₀ conn').length ≤ c := by simpa using hle
    rw [List.getElem?_eq_none hlen] at hc
    cases hc

end

/-! ### Both stores -/

/-- The marks are of the past, and every stream opened after one is renewed. -/
structure TwoStores.Renewed (s : TwoStores) : Prop where
  deleted : ∀ threadId mark, s.deletedAt threadId = some mark → mark.Past threadId s.streams
  recreated : ∀ threadId mark, s.recreatedAt threadId = some mark → mark.Past threadId s.streams
  opened : ∀ c h mark, s.streams.conns[c]? = some (.thread h) → s.openedAt c = some mark →
    h.Renewed s.streams mark

section

variable {s s' : TwoStores}

/-- A step of a transaction writes marks of the present. -/
theorem TwoStores.Renewed.served (hs : s.Renewed) (services : ServiceState) :
    (s.served services).Renewed := by
  have hdeleted : ∀ threadId mark, (s.served services).deletedAt threadId = some mark →
      mark.Past threadId s.streams := by
    intro threadId mark hmark
    simp only [TwoStores.served] at hmark
    split at hmark
    · cases hmark
      exact ⟨le_rfl, le_rfl⟩
    · exact hs.deleted threadId mark hmark
  refine ⟨hdeleted, fun threadId mark hmark => ?_, hs.opened⟩
  simp only [TwoStores.served] at hmark
  split at hmark
  · exact hdeleted threadId mark hmark
  · exact hs.recreated threadId mark hmark

theorem TwoStores.streamed_marks (a : StreamAction) (t : Streams) :
    (s.streamed a t).streams = t ∧ (s.streamed a t).deletedAt = s.deletedAt ∧
      (s.streamed a t).recreatedAt = s.recreatedAt ∧
      ∀ c < s.streams.conns.length, (s.streamed a t).openedAt c = s.openedAt c := by
  unfold TwoStores.streamed
  split
  · exact ⟨rfl, rfl, rfl, fun c hc => Function.update_of_ne hc.ne _ _⟩
  · exact ⟨rfl, rfl, rfl, fun _ _ => rfl⟩

/-- **One step** that meets the condition. -/
theorem TwoStores.Renewed.step {a : StoresAction} (hs : s.Renewed) (hOk : LogExpired s a)
    (hstep : storesStep s a = some s') : s'.Renewed := by
  cases a with
  | service a =>
    obtain ⟨services, -, rfl⟩ := Option.map_eq_some_iff.mp hstep
    exact hs.served services
  | stream a =>
    obtain ⟨t, ht, rfl⟩ := Option.map_eq_some_iff.mp hstep
    have hg := Streams.GoesOn.step ht
    obtain ⟨hstreams, hdeleted, hrecreated, hopened⟩ := s.streamed_marks a t
    constructor
    case deleted =>
      intro threadId mark hmark
      rw [hstreams]
      exact (hs.deleted threadId mark (hdeleted ▸ hmark)).goesOn hg
    case recreated =>
      intro threadId mark hmark
      rw [hstreams]
      exact (hs.recreated threadId mark (hrecreated ▸ hmark)).goesOn hg
    case opened =>
      intro c h mark hc hmark
      rw [hstreams] at hc ⊢
      by_cases hlt : c < s.streams.conns.length
      · rw [hopened c hlt] at hmark
        exact .streamStep (fun h₀ hh => hs.opened c h₀ mark hh hmark) ht hlt hc
      · -- the stream has just been opened, on a thread with this mark
        obtain ⟨request, rfl, rfl, hgate, rfl⟩ := opened_of_streamStep ht (not_lt.mp hlt) hc
        have hmark' : s.recreatedAt request.threadId = some mark := by
          simpa [TwoStores.streamed] using hmark
        have hpast := hs.recreated request.threadId mark hmark'
        refine ThreadStream.Renewed.goesOn (.opened hpast (fun start hstart => ?_) _) hg
        exact hOk request rfl hgate mark hmark' start hstart

end

/-- **Every run** all of whose requests for replay find the log of the thread before
expired. -/
theorem replaysNothing_of_logExpired {init : Database → Prop} {s : TwoStores}
    (h : (twoStores init).Reachable LogExpired s) : ReplaysNothing s := by
  have hinv : s.Renewed := by
    refine h.invariant ?_ fun s a s' _ ih hOk hs => ih.step hOk hs
    rintro s ⟨d, -, rfl⟩
    exact ⟨nofun, nofun, nofun⟩
  exact fun c h mark hc hmark => (hinv.opened c h mark hc hmark).fresh

/-! ### Another user creates the thread again -/

/-- A call whose statements run with nothing between. -/
def inOneGo (rpc : Rpc) : List StoresAction :=
  let steps := (statements rpc).flatMap fun _ => [.service (.snapshot 0), .service (.exec 0)]
  .service (.begin 0 rpc) :: steps ++ [.service (.commit 0)]

/-- An event of thread `10` is logged and published. -/
def publishOn (id : EntryId) : List StoresAction :=
  [.stream (.fanout (.publish 10 (some 7) "values" (.json (.obj []))) (.logged id)),
    .stream (.publish 0 true)]

/-- Alice's thread `10` and an event of it, and the delete. -/
def deletedThread : List StoresAction :=
  inOneGo (.createThread 10 (.obj [("owner", .str "alice")]) 0) ++ publishOn (toLex (1, 0)) ++
    inOneGo (.deleteThread 10 (ownerFilter "alice"))

/-- Bob creates thread `10`. -/
def recreatedThread : List StoresAction :=
  inOneGo (.createThread 10 (.obj [("owner", .str "bob")]) 1)

/-- Bob asks for the events of thread `10` from the beginning. -/
def replayOfBob : List StoresAction :=
  [.stream (.openThread {
      threadId := 10, filters := ownerFilter "bob", lastEventId := .beginning }),
    .stream (.next 0), .stream (.next 0)]

instance (s : TwoStores) (a : StoresAction) : Decidable (LogExpired s a) :=
  match a with
  | .stream (.openThread request) =>
    decidable_of_iff
      (threadOwnerClause request.filters s.services.db.thread request.threadId = true →
        ∀ mark ∈ s.recreatedAt request.threadId, ∀ cursor ∈ request.lastEventId.replayFrom,
          ∀ e ∈ s.streams.log request.threadId, cursor < e.id →
            (e.display request.streamModes).isSome = true → mark.lastId < e.id)
      ⟨fun h r hr => by cases hr; exact h, fun h => h request rfl⟩
  | .service _ | .stream (.fanout ..) | .stream (.publish ..) | .stream (.trim ..)
  | .stream (.openRun ..) | .stream (.subscribe ..) | .stream (.join ..) | .stream (.next ..)
  | .stream (.timeout ..) | .stream (.close ..) => isTrue nofun

/-- Once the key of the log has expired, Bob is shown the event of his own thread. -/
theorem replaysNothing_expired :
    ∃ s, (twoStores EmptyStore).Reachable LogExpired s ∧ ReplaysNothing s ∧
      s.openedAt 0 = some ⟨toLex (1, 0), 1⟩ ∧
      ∃ conn ∈ s.streams.conns, conn.yielded.length = 1 := by
  obtain ⟨s, hs, hp⟩ := Machine.exists_reachable (twoStores EmptyStore) LogExpired
    (show (twoStores EmptyStore).init { services := ⟨Database.fresh Table.empty, .empty⟩ } from
      ⟨_, ⟨rfl, rfl⟩, rfl⟩)
    (deletedThread ++ [.stream (.trim 10 1)] ++ recreatedThread ++ publishOn (toLex (2, 0)) ++
      replayOfBob)
    (fun s => s.openedAt 0 = some ⟨toLex (1, 0), 1⟩ &&
      s.streams.conns.any fun conn => conn.yielded.length = 1) (by decide +kernel)
  simp only [Bool.and_eq_true, decide_eq_true_eq, List.any_eq_true] at hp
  exact ⟨s, hs, replaysNothing_of_logExpired hs, hp⟩

/-- The stream of a thread, if the connection is one. -/
def Conn.threadStream : Conn → Option ThreadStream
  | .thread h => some h
  | .run _ => none

/-- Bob is shown the event of Alice's thread. -/
theorem not_replaysNothing :
    ¬ ∀ init s, (twoStores init).Reachable Machine.free s → ReplaysNothing s := by
  intro hall
  obtain ⟨s, hs, hp⟩ := Machine.exists_reachable (twoStores EmptyStore) Machine.free
    (show (twoStores EmptyStore).init { services := ⟨Database.fresh Table.empty, .empty⟩ } from
      ⟨_, ⟨rfl, rfl⟩, rfl⟩)
    (deletedThread ++ recreatedThread ++ replayOfBob)
    (fun s => s.openedAt 0 = some ⟨toLex (1, 0), 1⟩ && s.streams.published.length = 1 &&
      s.streams.conns[0]?.any fun conn => conn.threadStream.any fun h =>
        h.yielded.any fun y => y.event.streamId = some (toLex (1, 0)))
    (by decide +kernel)
  simp only [Bool.and_eq_true, decide_eq_true_eq, Option.any_eq_true] at hp
  obtain ⟨⟨hmark, hpublished⟩, conn, hconn, h, hstream, hshown⟩ := hp
  cases conn with
  | run _ => cases hstream
  | thread h =>
    cases hstream
    simp only [List.any_eq_true, decide_eq_true_eq] at hshown
    obtain ⟨y, hy, hid⟩ := hshown
    rcases hall EmptyStore s hs 0 h _ hconn hmark y hy with ⟨id, hid', hlt⟩ | ⟨m, hm, -⟩
    · rw [hid] at hid'
      exact absurd hlt (Option.some.inj hid' ▸ lt_irrefl _)
    · rw [List.drop_eq_nil_of_le hpublished.le] at hm
      cases hm

end NextRole
