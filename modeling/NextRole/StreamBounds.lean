import NextRole.Servicers.Streams
import Mathlib.Data.List.Perm.Subperm

/-!
# The ids that streams carry

XADD gives out increasing ids, so the id of whatever a thread's log, its publishers or
its subscribers hold is at most the last one given out.

## Main definitions

* `Streams.Bounded` — the bounds on a state.

## Main results

* `Streams.Bounded.step`, `bounded_of_reachable`.
-/

namespace NextRole

theorem EntryId.zero_le (id : EntryId) : EntryId.zero ≤ id := by
  rw [EntryId.zero, Prod.Lex.le_iff]
  rcases Nat.eq_zero_or_pos (ofLex id).1 with h | h
  · exact .inr ⟨h.symm, Nat.zero_le _⟩
  · exact .inl h

/-- What a handler has replayed, and holds to replay. -/
structure ThreadStream.Bounded (lastId : EntryId) (h : ThreadStream) : Prop where
  replayed : h.replayedUpTo ≤ lastId
  paged : ∀ cursor page, h.phase = .replay cursor page → ∀ e ∈ page, e.id ≤ lastId

/-- The events that a call has received and yielded. -/
structure Conn.Bounded (lastId : Uuid → EntryId) (conn : Conn) : Prop where
  subscribed : ∀ m ∈ conn.buffer, conn.subscribes m.1 = true
  buffered : ∀ m ∈ conn.buffer, ∀ id, m.2.streamId = some id → id ≤ lastId m.1.threadId
  yielded : ∀ y ∈ conn.yielded, ∀ source id, y.source = some source →
    y.event.streamId = some id → id ≤ lastId source
  handler : ∀ h, conn = .thread h → h.Bounded (lastId h.request.threadId)

structure Streams.Bounded (s : Streams) : Prop where
  log : ∀ threadId, Log.Increasing Entry.id .zero (s.log threadId)
  logged : ∀ threadId, ∀ e ∈ s.log threadId, e.id ≤ s.lastId threadId
  inflight : ∀ m ∈ s.inflight, ∀ id, m.2.streamId = some id → id ≤ s.lastId m.1.threadId
  conns : ∀ conn ∈ s.conns, conn.Bounded s.lastId

/-! ### One call -/

section

variable {lastId lastId' : Uuid → EntryId}

theorem ThreadStream.Bounded.mono {h : ThreadStream} {id id' : EntryId} (hb : h.Bounded id)
    (hle : id ≤ id') : h.Bounded id' :=
  ⟨hb.replayed.trans hle, fun cursor page hphase e he => (hb.paged cursor page hphase e he).trans hle⟩

theorem Conn.Bounded.mono {conn : Conn} (h : conn.Bounded lastId)
    (hle : ∀ threadId, lastId threadId ≤ lastId' threadId) : conn.Bounded lastId' where
  subscribed := h.subscribed
  buffered m hm id hid := (h.buffered m hm id hid).trans (hle _)
  yielded y hy source id hs hid := (h.yielded y hy source id hs hid).trans (hle _)
  handler h₀ heq := (h.handler h₀ heq).mono (hle _)

theorem Conn.Bounded.deliver {conn : Conn} (h : conn.Bounded lastId) {m : Channel × StreamEvent}
    (hm : ∀ id, m.2.streamId = some id → id ≤ lastId m.1.threadId) :
    (conn.deliver m).Bounded lastId := by
  have hnew : ∀ m' ∈ (conn.deliver m).buffer, m' ∈ conn.buffer ∨
      (conn.subscribes m.1 = true ∧ m' = m) := by
    intro m' hm'
    rw [Conn.deliver_buffer, List.mem_append] at hm'
    rcases hm' with hm' | hm'
    · exact .inl hm'
    · split at hm'
      · next hsub => exact .inr ⟨hsub, List.mem_singleton.mp hm'⟩
      · cases hm'
  refine ⟨fun m' hm' => ?_, fun m' hm' => ?_, ?_, fun h₀ heq => ?_⟩
  · rw [Conn.deliver_subscribes]
    rcases hnew m' hm' with hm' | ⟨hsub, rfl⟩
    · exact h.subscribed m' hm'
    · exact hsub
  · rcases hnew m' hm' with hm' | ⟨-, rfl⟩
    · exact h.buffered m' hm'
    · exact hm
  · rw [Conn.deliver_yielded]
    exact h.yielded
  · cases conn with
    | run h₁ => cases heq
    | thread h₁ =>
      obtain rfl := Conn.thread.inj heq
      have hb := h.handler h₁ rfl
      refine ⟨?_, fun cursor page hphase => ?_⟩
      · simpa using hb.replayed
      · rw [ThreadStream.deliver_phase] at hphase
        simpa using hb.paged cursor page hphase

/-- Yielding an event with an id that has been given out. -/
theorem Conn.Bounded.emit {h : ThreadStream} (hb : (Conn.thread h).Bounded lastId)
    {source : Uuid} {streamId : Option EntryId} (ev : StreamEvent)
    (hid : ∀ id, streamId = some id → id ≤ lastId source) :
    (Conn.thread (h.emit source ev streamId)).Bounded lastId := by
  refine ⟨fun m hm => ?_, fun m hm => ?_, fun y hy source' id hsource hy' => ?_, fun h₀ heq => ?_⟩
  · simp only [Conn.buffer, ThreadStream.emit_buffer] at hm
    simp only [Conn.subscribes, ThreadStream.matches, ThreadStream.emit_request]
    exact hb.subscribed m hm
  · simp only [Conn.buffer, ThreadStream.emit_buffer] at hm
    exact hb.buffered m hm
  · simp only [Conn.yielded, ThreadStream.emit_yielded, List.mem_append] at hy
    rcases hy with hy | hy
    · exact hb.yielded y hy source' id hsource hy'
    · simp only [Option.mem_toList, Option.map_eq_some_iff] at hy
      obtain ⟨out, hout, rfl⟩ := hy
      cases hsource
      exact hid id ((display_streamId hout).symm.trans hy')
  · obtain rfl := Conn.thread.inj heq
    have hh := hb.handler h rfl
    refine ⟨?_, fun cursor page hphase => ?_⟩
    · simpa using hh.replayed
    · simpa using hh.paged cursor page (ThreadStream.phase_of_emit h source ev streamId hphase
        (fun heq => by cases heq))

theorem Conn.Bounded.drop {h : ThreadStream} (hb : (Conn.thread h).Bounded lastId)
    {m : Channel × StreamEvent} {buffer : List (Channel × StreamEvent)}
    (hbuffer : h.buffer = m :: buffer) : (Conn.thread { h with buffer }).Bounded lastId := by
  have hsub : ∀ m' ∈ buffer, m' ∈ (Conn.thread h).buffer := by
    intro m' hm'
    simp only [Conn.buffer, hbuffer]
    exact List.mem_cons_of_mem _ hm'
  refine ⟨fun m' hm' => hb.subscribed m' (hsub m' hm'), fun m' hm' => hb.buffered m' (hsub m' hm'),
    hb.yielded, fun h₀ heq => ?_⟩
  obtain rfl := Conn.thread.inj heq
  exact ⟨(hb.handler h rfl).replayed, (hb.handler h rfl).paged⟩

/-- A step of a call of its own. -/
theorem Conn.Bounded.step {d : Database} {log : Uuid → List Entry} {c : ℕ} {a : StreamAction}
    {conn conn' : Conn} (h : conn.Bounded lastId)
    (hlog : ∀ threadId, ∀ e ∈ log threadId, e.id ≤ lastId threadId)
    (hs : Conn.Step d log c a conn conn') : conn'.Bounded lastId := by
  cases hs with
  | subscribe hs =>
    unfold RunStream.subscribe at hs
    split at hs
    · cases hs
      refine ⟨fun m hm => ?_, h.buffered, fun y hy source id hsource hid => ?_, nofun⟩
      · have hold : m.1 ∈ _ := of_decide_eq_true (h.subscribed m hm)
        exact decide_eq_true (List.mem_cons_of_mem _ hold)
      · simp only [Conn.yielded, List.mem_append, List.mem_singleton] at hy
        rcases hy with hy | rfl
        · exact h.yielded y hy source id hsource hid
        · cases hsource
    · cases hs
  | join hs =>
    unfold RunStream.join at hs
    split at hs
    · cases hs
      exact ⟨h.subscribed, h.buffered, h.yielded, nofun⟩
    · cases hs
  | @nextThread h₀ h' hs =>
    have hh := h.handler h₀ rfl
    rcases ThreadStream.next_cases hs with ⟨cursor, -, -, rfl⟩ | ⟨cursor, page, -, rfl, -, rfl⟩ |
      ⟨cursor, entry, page, hphase, rfl⟩ | ⟨ch, ev, buffer, -, hb, -, rfl⟩ |
      ⟨ch, ev, buffer, -, hb, -, rfl⟩
    · -- the replay is over
      refine ⟨h.subscribed, h.buffered, h.yielded, fun h₁ heq => ?_⟩
      obtain rfl := Conn.thread.inj heq
      exact ⟨hh.replayed, nofun⟩
    · -- a page is read
      refine ⟨h.subscribed, h.buffered, h.yielded, fun h₁ heq => ?_⟩
      obtain rfl := Conn.thread.inj heq
      refine ⟨hh.replayed, fun cursor' page' hphase e he => ?_⟩
      cases hphase
      exact hlog _ e (Log.mem_after.mp (List.mem_of_mem_take he)).1
    · -- an entry of the page is shown
      have hpage := hh.paged cursor (entry :: page) hphase
      have hread : (Conn.thread { h₀ with phase := .replay entry.id page, replayedUpTo := entry.id }).Bounded lastId := by
        refine ⟨h.subscribed, h.buffered, h.yielded, fun h₁ heq => ?_⟩
        obtain rfl := Conn.thread.inj heq
        refine ⟨hpage entry List.mem_cons_self, fun cursor' page' hphase' e he => ?_⟩
        cases hphase'
        exact hpage e (List.mem_cons_of_mem _ he)
      refine hread.emit _ fun id hid => ?_
      cases hid
      exact hpage entry List.mem_cons_self
    · -- a buffered event is skipped
      exact h.drop hb
    · -- a buffered event is shown
      refine (h.drop hb).emit _ (h.buffered (ch, ev) ?_)
      simp only [Conn.buffer, hb]
      exact List.mem_cons_self
  | @nextRun h₀ h' hs =>
    unfold RunStream.next at hs
    split at hs
    · split at hs
      · cases hs
      · next ch ev buffer hb =>
        have hsub : ∀ m' ∈ (ch, ev) :: buffer, m' ∈ (Conn.run h₀).buffer := by
          intro m' hm'
          simpa only [Conn.buffer, hb] using hm'
        have hrest : ∀ m' ∈ buffer, m' ∈ (Conn.run h₀).buffer :=
          fun m' hm' => hsub m' (List.mem_cons_of_mem _ hm')
        split at hs
        · cases hs
          exact ⟨fun m hm => h.subscribed m (hrest m hm), fun m hm => h.buffered m (hrest m hm),
            h.yielded, nofun⟩
        · cases hs
          refine ⟨fun m hm => h.subscribed m (hrest m hm), fun m hm => h.buffered m (hrest m hm),
            fun y hy source id hsource hid => ?_, nofun⟩
          simp only [Conn.yielded, List.mem_append, List.mem_singleton] at hy
          rcases hy with hy | rfl
          · exact h.yielded y hy source id hsource hid
          · cases hsource
            exact h.buffered (ch, ev) (hsub _ List.mem_cons_self) id hid
    · cases hs
  | timeoutThread => exact h
  | timeoutRun hs =>
    unfold RunStream.timeout at hs
    split at hs
    · cases hs
      exact ⟨h.subscribed, h.buffered, h.yielded, nofun⟩
    · cases hs
  | closeThread =>
    refine ⟨h.subscribed, h.buffered, h.yielded, fun h₀ heq => ?_⟩
    obtain rfl := Conn.thread.inj heq
    exact ⟨(h.handler _ rfl).replayed, nofun⟩
  | closeRun => exact ⟨h.subscribed, h.buffered, h.yielded, nofun⟩

end

/-! ### Every state -/

theorem Streams.lastId_le_fanout {s s' : Streams} {call : Publication} {outcome : LogOutcome}
    (hs : s.fanout call outcome = some s') (threadId : Uuid) :
    s.lastId threadId ≤ s'.lastId threadId := by
  rcases fanout_cases hs with ⟨-, rfl⟩ | ⟨id, -, -, hlt, rfl⟩
  · exact le_rfl
  · by_cases hid : threadId = call.channel.threadId
    · simp only [hid, Function.update_self]
      exact hlt.le
    · simp only [Function.update_of_ne hid, le_refl]

theorem Publication.event_streamId (call : Publication) : call.event.streamId = none := by
  cases call <;> rfl

theorem LogOutcome.entryId?_of_stamp {outcome : LogOutcome} {id : EntryId}
    (h : outcome.stamp = some id) : outcome.entryId? = some id := by
  cases outcome with
  | logged id' => exact h
  | unstamped id' => cases h
  | failed => cases h

/-- The message that a logging step puts in flight carries a new id or none. -/
theorem Streams.inflight_fanout {s s' : Streams} {call : Publication} {outcome : LogOutcome}
    (hs : s.fanout call outcome = some s') :
    ∃ m, s'.inflight = s.inflight ++ [m] ∧ m.1 = call.channel ∧
      ∀ id, m.2.streamId = some id → s.lastId m.1.threadId < id := by
  rcases fanout_cases hs with ⟨-, rfl⟩ | ⟨id, -, hid, hlt, rfl⟩
  · refine ⟨_, rfl, rfl, fun id hid => ?_⟩
    rw [call.event_streamId] at hid
    cases hid
  · refine ⟨_, rfl, rfl, fun id' hid' => ?_⟩
    rw [LogOutcome.entryId?_of_stamp hid'] at hid
    obtain rfl := Option.some.inj hid
    exact hlt

/-- Logging an event gives out a new last id. -/
theorem Streams.Bounded.fanout {s s' : Streams} {call : Publication} {outcome : LogOutcome}
    (h : s.Bounded) (hs : s.fanout call outcome = some s') : s'.Bounded := by
  have hle := Streams.lastId_le_fanout hs
  have hconns : ∀ conn ∈ s'.conns, conn.Bounded s'.lastId := by
    intro conn hconn
    rw [Streams.fanout_conns hs] at hconn
    exact (h.conns conn hconn).mono hle
  have hold : ∀ m ∈ s.inflight, ∀ id, m.2.streamId = some id → id ≤ s'.lastId m.1.threadId :=
    fun m hm id hid => (h.inflight m hm id hid).trans (hle _)
  rcases Streams.fanout_cases hs with ⟨-, rfl⟩ | ⟨id, -, hid, hlt, rfl⟩
  · refine ⟨h.log, h.logged, fun m hm id hm' => ?_, hconns⟩
    rcases List.mem_append.mp hm with hm | hm
    · exact hold m hm id hm'
    · rw [List.mem_singleton] at hm
      rw [hm, call.event_streamId] at hm'
      cases hm'
  · refine ⟨fun threadId => ?_, fun threadId e he => ?_, fun m hm id' hm' => ?_, hconns⟩
    · by_cases heq : threadId = call.channel.threadId
      · simp only [heq, Function.update_self]
        refine (h.log _).concat ((EntryId.zero_le _).trans_lt hlt) fun x hx => ?_
        exact (h.logged _ x hx).trans_lt hlt
      · simp only [Function.update_of_ne heq]
        exact h.log threadId
    · by_cases heq : threadId = call.channel.threadId
      · simp only [heq, Function.update_self, List.mem_append, List.mem_singleton] at he ⊢
        rcases he with he | rfl
        · exact (h.logged _ e he).trans hlt.le
        · exact le_rfl
      · simp only [Function.update_of_ne heq] at he ⊢
        exact h.logged threadId e he
    · rcases List.mem_append.mp hm with hm | hm
      · exact hold m hm id' hm'
      · rw [List.mem_singleton] at hm
        obtain rfl := hm
        have hid' := LogOutcome.entryId?_of_stamp hm'
        rw [hid] at hid'
        obtain rfl := Option.some.inj hid'
        simp

theorem publish_perm {s : Streams} {i : ℕ} {m : Channel × StreamEvent} (hm : s.inflight[i]? = some m) :
    s.inflight.Perm (m :: s.inflight.eraseIdx i) := by
  obtain ⟨hi, rfl⟩ := List.getElem?_eq_some_iff.mp hm
  exact (List.getElem_cons_eraseIdx_perm hi).symm

/-- **One step** keeps the bounds. -/
theorem Streams.Bounded.step {d : Database} {s s' : Streams} {a : StreamAction} (h : s.Bounded)
    (hs : streamStep d s a = some s') : s'.Bounded := by
  rcases streamStep_cases hs with ⟨call, outcome, -, hs⟩ | ⟨i, succeeds, -, hs⟩ | ⟨tid, n, -, rfl⟩ |
    ⟨request, -, rfl | ⟨-, rfl⟩⟩ | ⟨filters, -, rfl⟩ | ⟨c, conn₀, conn', hc, hstep, rfl⟩
  · exact h.fanout hs
  · obtain ⟨m, hm, ⟨-, rfl⟩ | ⟨-, rfl⟩⟩ := Streams.publish_cases hs
    · exact ⟨h.log, h.logged, fun m hm => h.inflight m (List.mem_of_mem_eraseIdx hm), h.conns⟩
    · refine ⟨h.log, h.logged, fun m hm => h.inflight m (List.mem_of_mem_eraseIdx hm),
        fun conn hconn => ?_⟩
      obtain ⟨conn₀, hconn₀, rfl⟩ := List.mem_map.mp hconn
      exact (h.conns conn₀ hconn₀).deliver (h.inflight m (List.mem_of_getElem? hm))
  · refine ⟨fun threadId => ?_, fun threadId e he => ?_, h.inflight, h.conns⟩
    · by_cases heq : threadId = tid
      · simp only [heq, Function.update_self]
        exact (h.log tid).sublist (List.drop_sublist ..)
      · simp only [Function.update_of_ne heq]
        exact h.log threadId
    · by_cases heq : threadId = tid
      · simp only [heq, Function.update_self] at he ⊢
        exact h.logged tid e (List.mem_of_mem_drop he)
      · simp only [Function.update_of_ne heq] at he
        exact h.logged threadId e he
  · exact h
  · refine ⟨h.log, h.logged, h.inflight, fun conn hconn => ?_⟩
    rcases List.mem_append.mp hconn with hconn | hconn
    · exact h.conns conn hconn
    · rw [List.mem_singleton] at hconn
      rw [hconn]
      refine ⟨nofun, nofun, nofun, fun h₀ heq => ?_⟩
      obtain rfl := Conn.thread.inj heq
      refine ⟨EntryId.zero_le _, fun cursor page hphase e he => ?_⟩
      simp only [ThreadStream.opened] at hphase
      split at hphase
      · cases hphase
        cases he
      · cases hphase
  · refine ⟨h.log, h.logged, h.inflight, fun conn hconn => ?_⟩
    rcases List.mem_append.mp hconn with hconn | hconn
    · exact h.conns conn hconn
    · rw [List.mem_singleton] at hconn
      rw [hconn]
      exact ⟨nofun, nofun, nofun, nofun⟩
  · refine ⟨h.log, h.logged, h.inflight, fun conn hconn => ?_⟩
    rcases List.mem_or_eq_of_mem_set hconn with hconn | rfl
    · exact h.conns conn hconn
    · exact (h.conns conn₀ (List.mem_of_getElem? hc)).step h.logged hstep

/-- **Every state**. -/
theorem bounded_of_reachable {d : Database} {Ok : Streams → StreamAction → Prop} {s : Streams}
    (h : (streams d).Reachable Ok s) : s.Bounded := by
  refine h.invariant ?_ fun s a s' _ ih _ hs => ih.step hs
  rintro s rfl
  exact ⟨fun _ => Log.Increasing.nil, nofun, nofun, nofun⟩

end NextRole
