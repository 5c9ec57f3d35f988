import NextRole.Servicers.Streams
import NextRole.Agents.Auth

/-!
# Who sees the events of a thread

`Threads.Stream` looks at the owner of the thread before it subscribes.  `Runs.Stream`
subscribes to the channel of any thread and run that a request names and does not look
at the filters of the join request.  So the events of a thread reach only who may see
it as long as every subscribe request names a thread that the subscriber may see; who
names the thread and run of somebody else receives their events.

## Main definitions

* `MaySee` — the filters of a subscriber admit a thread.
* `Isolated` — nobody has been shown an event of a thread that they may not see.
* `NamesVisible` — the subscribe requests that name a thread of the subscriber's.

## Main results

* `isolated_of_namesVisible`, and `not_isolated` without the condition.
-/

namespace NextRole

/-- The filters admit the thread, if it exists. -/
def MaySee (d : Database) (filters : List AuthFilter) (threadId : Uuid) : Prop :=
  ∀ t ∈ d.thread, t.threadId = threadId → admits filters t.metadata = true

instance (d : Database) (filters : List AuthFilter) (threadId : Uuid) :
    Decidable (MaySee d filters threadId) :=
  inferInstanceAs (Decidable (∀ t ∈ d.thread.rows, t.threadId = threadId →
    admits filters t.metadata = true))

/-- What the subscriber has been shown of a thread is of one that they may see. -/
def Conn.Isolated (d : Database) (conn : Conn) : Prop :=
  ∀ y ∈ conn.yielded, ∀ threadId, y.source = some threadId → MaySee d conn.filters threadId

/-- No event of a thread has been yielded to a subscriber whose filters do not match it. -/
def Isolated (d : Database) (s : Streams) : Prop := ∀ conn ∈ s.conns, conn.Isolated d

/-- A subscribe request to `Runs.Stream` names a thread that the subscriber may see. -/
def NamesVisible (d : Database) (s : Streams) (a : StreamAction) : Prop :=
  ∀ c threadId runId, a = .subscribe c threadId runId →
    ∀ conn, s.conns[c]? = some conn → MaySee d conn.filters threadId

/-- A call whose subscriptions, and what came over them, are of visible threads. -/
structure Conn.SeesVisible (d : Database) (conn : Conn) : Prop where
  subscribed : ∀ ch, conn.subscribes ch = true → MaySee d conn.filters ch.threadId
  buffered : ∀ m ∈ conn.buffer, MaySee d conn.filters m.1.threadId
  isolated : conn.Isolated d

/-- The gate of `Threads.Stream`. -/
theorem maySee_of_threadOwnerClause {d : Database} {filters : List AuthFilter} {threadId : Uuid}
    (h : threadOwnerClause filters d.thread threadId = true) : MaySee d filters threadId := by
  intro t ht hid
  rw [← hid, threadOwnerClause_eq_true ht] at h
  exact h

section

variable {d : Database}

theorem Conn.SeesVisible.of_buffer {conn : Conn} (h : conn.SeesVisible d)
    {m : Channel × StreamEvent} {buffer : List (Channel × StreamEvent)}
    (hb : conn.buffer = m :: buffer) :
    MaySee d conn.filters m.1.threadId ∧ ∀ m' ∈ buffer, MaySee d conn.filters m'.1.threadId := by
  have hall := h.buffered
  rw [hb] at hall
  exact List.forall_mem_cons.mp hall

/-- A message reaches only who has subscribed to its channel. -/
theorem Conn.SeesVisible.deliver {conn : Conn} (h : conn.SeesVisible d)
    (m : Channel × StreamEvent) : (conn.deliver m).SeesVisible d := by
  refine ⟨fun ch hch => ?_, fun m' hm' => ?_, ?_⟩
  · rw [Conn.deliver_subscribes] at hch
    rw [Conn.deliver_filters]
    exact h.subscribed ch hch
  · rw [Conn.deliver_buffer, List.mem_append] at hm'
    rw [Conn.deliver_filters]
    rcases hm' with hm' | hm'
    · exact h.buffered m' hm'
    · split at hm'
      · next hsub =>
        rw [List.mem_singleton] at hm'
        rw [hm']
        exact h.subscribed m.1 hsub
      · cases hm'
  · unfold Conn.Isolated
    rw [Conn.deliver_filters, Conn.deliver_yielded]
    exact h.isolated

/-- Yielding an event that came from a visible thread. -/
theorem Conn.SeesVisible.emit {h : ThreadStream} (hs : (Conn.thread h).SeesVisible d)
    {source : Uuid} (hsource : MaySee d h.request.filters source) (ev : StreamEvent)
    (streamId : Option EntryId) : (Conn.thread (h.emit source ev streamId)).SeesVisible d := by
  refine ⟨fun ch hch => ?_, fun m hm => ?_, fun y hy threadId hy' => ?_⟩
  · simp only [Conn.subscribes, ThreadStream.matches, ThreadStream.emit_request] at hch
    simp only [Conn.filters, ThreadStream.emit_request]
    exact hs.subscribed ch hch
  · simp only [Conn.buffer, ThreadStream.emit_buffer] at hm
    simp only [Conn.filters, ThreadStream.emit_request]
    exact hs.buffered m hm
  · simp only [Conn.yielded, ThreadStream.emit_yielded, List.mem_append] at hy
    simp only [Conn.filters, ThreadStream.emit_request]
    rcases hy with hy | hy
    · exact hs.isolated y hy threadId hy'
    · obtain ⟨out, -, rfl⟩ := by simpa [Option.mem_toList] using hy
      cases hy'
      exact hsource

/-- A step of a call of its own. -/
theorem Conn.SeesVisible.step {s : Streams} {c : ℕ} {a : StreamAction} {conn conn' : Conn}
    (h : conn.SeesVisible d) (hc : s.conns[c]? = some conn) (hOk : NamesVisible d s a)
    (hs : Conn.Step d s.log c a conn conn') : conn'.SeesVisible d := by
  cases hs with
  | @subscribe h₀ h' threadId runId hs =>
    have hsee := hOk c threadId runId rfl _ hc
    unfold RunStream.subscribe at hs
    split at hs
    · cases hs
      refine ⟨fun ch hch => ?_, h.buffered, fun y hy threadId' hy' => ?_⟩
      · simp only [Conn.subscribes, List.mem_cons, decide_eq_true_eq] at hch
        rcases hch with rfl | hch
        · exact hsee
        · exact h.subscribed ch (by simpa [Conn.subscribes] using hch)
      · simp only [Conn.yielded, List.mem_append, List.mem_singleton] at hy
        rcases hy with hy | rfl
        · exact h.isolated y hy threadId' hy'
        · cases hy'
    · cases hs
  | join hs =>
    unfold RunStream.join at hs
    split at hs
    · cases hs
      exact ⟨h.subscribed, h.buffered, h.isolated⟩
    · cases hs
  | @nextThread h₀ h' hs =>
    have hown : MaySee d h₀.request.filters h₀.request.threadId :=
      h.subscribed ⟨h₀.request.threadId, none⟩ (by simp [Conn.subscribes, ThreadStream.matches])
    rcases ThreadStream.next_cases hs with ⟨cursor, -, -, rfl⟩ | ⟨cursor, page, -, -, -, rfl⟩ |
      ⟨cursor, entry, page, -, rfl⟩ | ⟨ch, ev, buffer, -, hb, -, rfl⟩ |
      ⟨ch, ev, buffer, -, hb, -, rfl⟩
    · -- the replay is over
      exact ⟨h.subscribed, h.buffered, h.isolated⟩
    · -- a page is read
      exact ⟨h.subscribed, h.buffered, h.isolated⟩
    · -- an entry of the page is shown
      have hread : (Conn.thread { h₀ with phase := .replay entry.id page, replayedUpTo := entry.id }).SeesVisible d :=
        ⟨h.subscribed, h.buffered, h.isolated⟩
      exact hread.emit hown _ _
    · -- a buffered event is skipped
      obtain ⟨-, hbuffer⟩ := h.of_buffer hb
      exact ⟨h.subscribed, hbuffer, h.isolated⟩
    · -- a buffered event is shown
      obtain ⟨hsee, hbuffer⟩ := h.of_buffer hb
      have htaken : (Conn.thread { h₀ with buffer }).SeesVisible d :=
        ⟨h.subscribed, hbuffer, h.isolated⟩
      exact htaken.emit hsee _ _
  | @nextRun h₀ h' hs =>
    unfold RunStream.next at hs
    split at hs
    · split at hs
      · cases hs
      · next ch ev buffer hb =>
        obtain ⟨hsee, hbuffer⟩ := h.of_buffer hb
        split at hs
        · cases hs
          exact ⟨h.subscribed, hbuffer, h.isolated⟩
        · cases hs
          refine ⟨h.subscribed, hbuffer, fun y hy threadId hy' => ?_⟩
          simp only [Conn.yielded, List.mem_append, List.mem_singleton] at hy
          rcases hy with hy | rfl
          · exact h.isolated y hy threadId hy'
          · cases hy'
            exact hsee
    · cases hs
  | timeoutThread => exact h
  | timeoutRun hs =>
    unfold RunStream.timeout at hs
    split at hs
    · cases hs
      exact ⟨h.subscribed, h.buffered, h.isolated⟩
    · cases hs
  | closeThread => exact ⟨h.subscribed, h.buffered, h.isolated⟩
  | closeRun => exact ⟨h.subscribed, h.buffered, h.isolated⟩

/-- **One step** keeps every call to visible threads. -/
theorem seesVisible_step {s s' : Streams} {a : StreamAction}
    (h : ∀ conn ∈ s.conns, conn.SeesVisible d) (hOk : NamesVisible d s a)
    (hs : streamStep d s a = some s') : ∀ conn ∈ s'.conns, conn.SeesVisible d := by
  intro conn hconn
  rcases streamStep_cases hs with ⟨call, outcome, -, hs⟩ | ⟨i, succeeds, -, hs⟩ | ⟨tid, n, -, rfl⟩ |
    ⟨request, -, rfl | ⟨hgate, rfl⟩⟩ | ⟨filters, -, rfl⟩ | ⟨c, conn₀, conn', hc, hstep, rfl⟩
  · rw [Streams.fanout_conns hs] at hconn
    exact h conn hconn
  · obtain ⟨m, -, ⟨-, rfl⟩ | ⟨-, rfl⟩⟩ := Streams.publish_cases hs
    · exact h conn hconn
    · obtain ⟨conn₀, hconn₀, rfl⟩ := List.mem_map.mp hconn
      exact (h conn₀ hconn₀).deliver m
  · exact h conn hconn
  · exact h conn hconn
  · rcases List.mem_append.mp hconn with hconn | hconn
    · exact h conn hconn
    · rw [List.mem_singleton] at hconn
      rw [hconn]
      refine ⟨fun ch hch => ?_, by simp [Conn.buffer, ThreadStream.opened],
        fun y hy => absurd hy List.not_mem_nil⟩
      have hid : ch.threadId = request.threadId := of_decide_eq_true hch
      rw [hid]
      exact maySee_of_threadOwnerClause hgate
  · rcases List.mem_append.mp hconn with hconn | hconn
    · exact h conn hconn
    · rw [List.mem_singleton] at hconn
      rw [hconn]
      exact ⟨by simp [Conn.subscribes], by simp [Conn.buffer], fun y hy => absurd hy List.not_mem_nil⟩
  · rcases List.mem_or_eq_of_mem_set hconn with hconn | rfl
    · exact h conn hconn
    · exact (h conn₀ (List.mem_of_getElem? hc)).step hc hOk hstep

/-- **Runs whose subscribe requests name visible threads**: no event of a thread is
yielded to a subscriber whose filters do not match it, whatever else is done in which
order. -/
theorem isolated_of_namesVisible (d : Database) {s : Streams}
    (h : (streams d).Reachable (NamesVisible d) s) : Isolated d s := by
  have hinv : ∀ conn ∈ s.conns, conn.SeesVisible d := by
    refine h.invariant ?_ fun s a s' _ ih hOk hs => seesVisible_step ih hOk hs
    rintro s rfl conn hconn
    cases hconn
  exact fun conn hconn => (hinv conn hconn).isolated

end

/-! ### Another user's thread -/

/-- A store with a thread of Alice's. -/
def alicesThread : Database :=
  { Database.fresh Table.empty with
    thread := Table.empty.put { threadId := 1, metadata := .obj [("owner", .str "alice")] } }

/-- A subscriber reads the events of run `7` of thread `1` through `Runs.Stream`. -/
def joinRun (filters : List AuthFilter) : List StreamAction :=
  [.openRun filters, .subscribe 0 1 7, .join 0,
    .fanout (.publish 1 (some 7) "values" (.json (.obj []))) (.logged (toLex (1, 0))),
    .publish 0 true, .next 0]

instance (d : Database) (s : Streams) (a : StreamAction) : Decidable (NamesVisible d s a) :=
  match a with
  | .subscribe c threadId runId =>
    decidable_of_iff (∀ conn ∈ s.conns[c]?, MaySee d conn.filters threadId)
      ⟨fun h c' t r ha conn hc => by cases ha; exact h conn hc, fun h conn hc => h c _ _ rfl conn hc⟩
  | .fanout .. | .publish .. | .trim .. | .openThread .. | .openRun .. | .join .. | .next ..
  | .timeout .. | .close .. => isTrue nofun

/-- Alice herself is shown the event of her run. -/
theorem isolated_of_namesVisible_witness :
    ∃ s, (streams alicesThread).Reachable (NamesVisible alicesThread) s ∧
      Isolated alicesThread s ∧ ∃ conn ∈ s.conns, conn.yielded.length = 2 := by
  obtain ⟨s, hs, hp⟩ := Machine.exists_reachable (streams alicesThread) (NamesVisible alicesThread)
    (show (streams alicesThread).init {} from rfl) (joinRun (ownerFilter "alice"))
    (fun s => s.conns.any fun conn => conn.yielded.length = 2) (by decide +kernel)
  exact ⟨s, hs, isolated_of_namesVisible alicesThread hs, by simpa using hp⟩

/-- Bob names Alice's thread and run, and is shown the event. -/
theorem not_isolated : ¬ ∀ d s, (streams d).Reachable Machine.free s → Isolated d s := by
  intro h
  obtain ⟨s, hs, hp⟩ := Machine.exists_reachable (streams alicesThread) Machine.free
    (show (streams alicesThread).init {} from rfl) (joinRun (ownerFilter "bob"))
    (fun s => s.conns.any fun conn => conn.yielded.any fun y =>
      y.source = some 1 && !decide (MaySee alicesThread conn.filters 1)) (by decide +kernel)
  simp only [List.any_eq_true, Bool.and_eq_true, decide_eq_true_eq, Bool.not_eq_true',
    decide_eq_false_iff_not] at hp
  obtain ⟨conn, hconn, y, hy, hsource, hnot⟩ := hp
  exact hnot (h alicesThread s hs conn hconn y hy 1 hsource)

end NextRole
