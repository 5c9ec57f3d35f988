import Mathlib.Data.List.DropRight
import NextRole.Api.ProtocolEvents
import NextRole.Lib.Transition

/-!
# Delivering the events of a session

`_push_event`, `install_subscription_with_replay` and `_send_json` of
`event_streaming/session.py`.  The tasks of a session share one transport and change only
at a send that is awaited: a push is one step, and a replay is one step up to each event
that it sends.

## Main definitions

* `Replay`, `Delivery` — a call that awaits a send, and the state of a session.
* `Delivery.push`, `Delivery.subscribe`, `Delivery.resume`, `Delivery.unsubscribe`.
* `delivery` — the session as a machine.
* `Replay.pending` — what a replay has still to send.

## Main results

* `Delivery.Sound`, `sound_of_reachable` — what holds of every run.
-/

namespace NextRole

/-! ### State -/

/-- A call of `install_subscription_with_replay` that awaits a send. -/
structure Replay where
  sub : Subscription
  /-- The position of the last event that it has read. -/
  cursor : ℤ
  /-- `snapshot_seq`. -/
  snapshot : ℕ
  /-- What it has read and not sent. -/
  remaining : List ProtocolEvent
  deriving DecidableEq

/-- A session, as far as it delivers events. -/
structure Delivery where
  maxBufferSize : ℕ
  nextSeq : ℕ
  buffer : List ProtocolEvent := []
  /-- The subscriptions in the order of their ids in the dict. -/
  subscriptions : List Subscription := []
  transportBroken : Bool := false
  /-- The calls that await a send, in no order that matters. -/
  replays : List Replay := []
  /-- The next object. -/
  nextRef : ℕ := 0
  /-- All events pushed. -/
  pushed : List ProtocolEvent := []
  /-- The events passed to `_send_json`. -/
  sent : List ProtocolEvent := []
  /-- The events that the transport has taken. -/
  written : List ProtocolEvent := []
  deriving DecidableEq

/-- How a send ends. -/
inductive SendOutcome
  | written | unserializable | failed
  deriving DecidableEq

namespace Delivery

variable (s : Delivery)

/-! ### Operations -/

/-- `_send_json`. -/
def sendJson (e : ProtocolEvent) (o : SendOutcome) : Delivery :=
  let s := { s with sent := s.sent ++ [e] }
  match o with
  | .unserializable => s
  | .failed => { s with transportBroken := true }
  | .written => if s.transportBroken then s else { s with written := s.written ++ [e] }

/-- The event that `_create_event` makes next. -/
def stamp (draft : ProtocolEvent) : ProtocolEvent := { draft with seq := s.nextSeq + 1 }

/-- The first subscription that gets an event live. -/
def liveSubscription (e : ProtocolEvent) : Option Subscription :=
  s.subscriptions.find? fun sub => sub.active && sub.matches e

/-- `_push_event` of an event that `_create_event` makes. -/
def push (draft : ProtocolEvent) (o : SendOutcome) : Delivery :=
  let e := s.stamp draft
  let s := { s with
    nextSeq := s.nextSeq + 1
    buffer := (s.buffer ++ [e]).rtake s.maxBufferSize
    pushed := s.pushed ++ [e] }
  if (s.liveSubscription e).isSome then s.sendJson e o else s

/-- `subscription.active = True`. -/
def activate (ref : ℕ) : Delivery :=
  { s with subscriptions := s.subscriptions.map fun sub =>
      if sub.ref = ref then { sub with active := true } else sub }

/-- `self.subscriptions[subscription.id] = subscription`. -/
def setSubscription (sub : Subscription) : Delivery :=
  if s.subscriptions.any fun x => x.id = sub.id then
    { s with subscriptions := s.subscriptions.map fun x => if x.id = sub.id then sub else x }
  else { s with subscriptions := s.subscriptions ++ [sub] }

/-- The events that a replay reads from the buffer. -/
def drain (sub : Subscription) (cursor : ℤ) (snapshot : ℕ) : List ProtocolEvent :=
  s.buffer.filter fun e => cursor < e.seq && e.seq ≤ snapshot && sub.matches e

/-- A turn of the loop of the replay, up to the first event that it sends. -/
def readBuffer (sub : Subscription) (cursor : ℤ) (snapshot : ℕ) (o : SendOutcome) : Delivery :=
  match s.drain sub cursor snapshot with
  | [] => s.activate sub.ref
  | e :: rest =>
    { s.sendJson e o with
      replays := s.replays ++ [⟨sub, ((e :: rest).getLast (by simp)).seq, snapshot, rest⟩] }

/-- `since` is older than what the buffer holds. -/
def gap (since : Option ℤ) : Bool :=
  match since, s.buffer with
  | some since, e :: _ => since + 1 < e.seq
  | _, _ => false

/-- The subscription object of a call. -/
def newSubscription (sub : Subscription) : Subscription :=
  { sub with active := false, ref := s.nextRef }

/-- `install_subscription_with_replay`, up to its first send.  A gap is an error that
leaves the session as it is. -/
def subscribe (sub : Subscription) (since : Option ℤ) (o : SendOutcome) : Delivery :=
  if s.gap since then s
  else
    let sub := s.newSubscription sub
    let s := { s.setSubscription sub with nextRef := s.nextRef + 1 }
    s.readBuffer sub (since.getD 0) s.nextSeq o

/-- A replay after the send that it awaits, up to its next one. -/
def resume (i : ℕ) (o : SendOutcome) : Option Delivery :=
  match s.replays[i]? with
  | none => none
  | some r =>
    let s := { s with replays := s.replays.eraseIdx i }
    match r.remaining with
    | e :: rest =>
      some { s.sendJson e o with replays := s.replays ++ [{ r with remaining := rest }] }
    | [] =>
      if r.snapshot < s.nextSeq then some (s.readBuffer r.sub r.cursor s.nextSeq o)
      else some (s.activate r.sub.ref)

/-- `subscription.unsubscribe`. -/
def unsubscribe (id : String) : Delivery :=
  { s with subscriptions := s.subscriptions.filter fun sub => sub.id ≠ id }

end Delivery

/-! ### Runs -/

/-- A step of the session. -/
inductive DeliveryAction
  | push (draft : ProtocolEvent) (o : SendOutcome)
  | subscribe (sub : Subscription) (since : Option ℤ) (o : SendOutcome)
  | resume (i : ℕ) (o : SendOutcome)
  | unsubscribe (id : String)
  deriving DecidableEq

/-- A session before its first event: it may carry on a sequence and subscriptions. -/
structure Delivery.Starts (s : Delivery) : Prop where
  size : 0 < s.maxBufferSize
  buffer : s.buffer = []
  replays : s.replays = []
  refs : ∀ sub ∈ s.subscriptions, sub.ref < s.nextRef
  pushed : s.pushed = []
  sent : s.sent = []
  written : s.written = []

/-- The session as a machine. -/
def delivery : Machine Delivery DeliveryAction where
  init := Delivery.Starts
  step s
    | .push draft o => some (s.push draft o)
    | .subscribe sub since o => some (s.subscribe sub since o)
    | .resume i o => s.resume i o
    | .unsubscribe id => some (s.unsubscribe id)

/-! ### What an operation leaves alone -/

namespace Delivery

section

variable (s : Delivery) (e : ProtocolEvent) (o : SendOutcome)

@[simp] theorem sent_sendJson : (s.sendJson e o).sent = s.sent ++ [e] := by
  cases o
  · simp only [sendJson]
    split <;> rfl
  · rfl
  · rfl

theorem sendJson_eq : ∃ broken written, (written = s.written ∨ written = s.written ++ [e]) ∧
    s.sendJson e o =
      { s with sent := s.sent ++ [e], transportBroken := broken, written := written } := by
  cases o
  · simp only [sendJson]
    split
    · exact ⟨s.transportBroken, s.written, .inl rfl, rfl⟩
    · exact ⟨s.transportBroken, s.written ++ [e], .inr rfl, rfl⟩
  · exact ⟨s.transportBroken, s.written, .inl rfl, rfl⟩
  · exact ⟨true, s.written, .inl rfl, rfl⟩

@[simp] theorem nextSeq_sendJson : (s.sendJson e o).nextSeq = s.nextSeq := by
  obtain ⟨_, _, -, h⟩ := sendJson_eq s e o
  rw [h]

@[simp] theorem buffer_sendJson : (s.sendJson e o).buffer = s.buffer := by
  obtain ⟨_, _, -, h⟩ := sendJson_eq s e o
  rw [h]

@[simp] theorem nextRef_sendJson : (s.sendJson e o).nextRef = s.nextRef := by
  obtain ⟨_, _, -, h⟩ := sendJson_eq s e o
  rw [h]

@[simp] theorem subscriptions_sendJson : (s.sendJson e o).subscriptions = s.subscriptions := by
  obtain ⟨_, _, -, h⟩ := sendJson_eq s e o
  rw [h]

@[simp] theorem pushed_sendJson : (s.sendJson e o).pushed = s.pushed := by
  obtain ⟨_, _, -, h⟩ := sendJson_eq s e o
  rw [h]

@[simp] theorem replays_sendJson : (s.sendJson e o).replays = s.replays := by
  obtain ⟨_, _, -, h⟩ := sendJson_eq s e o
  rw [h]

end

variable {s : Delivery} {e : ProtocolEvent} {o : SendOutcome} {sub : Subscription}
  {cursor : ℤ} {snapshot : ℕ}

@[simp] theorem mem_drain : e ∈ s.drain sub cursor snapshot ↔
    e ∈ s.buffer ∧ cursor < e.seq ∧ e.seq ≤ snapshot ∧ sub.matches e = true := by
  simp [drain, and_assoc]

theorem setSubscription_eq (s : Delivery) (sub : Subscription) : ∃ subscriptions,
    s.setSubscription sub = { s with subscriptions := subscriptions } := by
  unfold setSubscription
  split
  · exact ⟨_, rfl⟩
  · exact ⟨_, rfl⟩

theorem readBuffer_cases (s : Delivery) (sub : Subscription) (cursor : ℤ) (snapshot : ℕ)
    (o : SendOutcome) :
    (s.drain sub cursor snapshot = [] ∧ s.readBuffer sub cursor snapshot o = s.activate sub.ref) ∨
      ∃ e rest, s.drain sub cursor snapshot = e :: rest ∧
        s.readBuffer sub cursor snapshot o =
          { s.sendJson e o with
            replays := s.replays ++ [⟨sub, ((e :: rest).getLast (by simp)).seq, snapshot, rest⟩] } := by
  unfold readBuffer
  split
  · next h => exact .inl ⟨h, rfl⟩
  · next e rest h => exact .inr ⟨e, rest, h, rfl⟩

/-- What a resumed replay does. -/
theorem resume_cases {i : ℕ} {s' : Delivery} (h : s.resume i o = some s') :
    ∃ r ∈ s.replays, s.replays[i]? = some r ∧
      let s₀ := { s with replays := s.replays.eraseIdx i }
      (∃ e rest, r.remaining = e :: rest ∧
          s' = { s₀.sendJson e o with replays := s₀.replays ++ [{ r with remaining := rest }] }) ∨
        (r.remaining = [] ∧ r.snapshot < s.nextSeq ∧
          s' = s₀.readBuffer r.sub r.cursor s.nextSeq o) ∨
        (r.remaining = [] ∧ s.nextSeq ≤ r.snapshot ∧ s' = s₀.activate r.sub.ref) := by
  unfold resume at h
  split at h
  · cases h
  · next r hr =>
    refine ⟨r, List.mem_of_getElem? hr, hr, ?_⟩
    simp only at h
    split at h
    · next e rest hrem => exact .inl ⟨e, rest, hrem, (Option.some.inj h).symm⟩
    · next hrem =>
      split at h
      · next hlt => exact .inr (.inl ⟨hrem, hlt, (Option.some.inj h).symm⟩)
      · next hlt => exact .inr (.inr ⟨hrem, not_lt.mp hlt, (Option.some.inj h).symm⟩)

end Delivery

/-! ### What holds of every run -/

theorem exists_split_eraseIdx {α : Type*} {l : List α} {i : ℕ} {a : α} (h : l[i]? = some a) :
    ∃ before after, l = before ++ a :: after ∧ l.eraseIdx i = before ++ after := by
  obtain ⟨hlt, hget⟩ := List.getElem?_eq_some_iff.mp h
  refine ⟨l.take i, l.drop (i + 1), ?_, List.eraseIdx_eq_take_drop_succ l i⟩
  rw [← hget, List.cons_getElem_drop_succ, List.take_append_drop]

/-- The events have increasing positions. -/
abbrev SeqIncreasing (events : List ProtocolEvent) : Prop :=
  events.Pairwise fun e f => e.seq < f.seq

theorem SeqIncreasing.le_getLast {events : List ProtocolEvent} (h : SeqIncreasing events)
    (hne : events ≠ []) {e : ProtocolEvent} (he : e ∈ events) :
    e.seq ≤ (events.getLast hne).seq := by
  rw [← List.dropLast_append_getLast hne] at h he
  rcases List.mem_append.mp he with he | he
  · exact ((List.pairwise_append.mp h).2.2 e he _ (List.mem_singleton_self _)).le
  · rw [List.mem_singleton.mp he]

/-- A replay has read what matches up to its snapshot. -/
structure Replay.Sound (buffer : List ProtocolEvent) (nextSeq : ℕ) (r : Replay) : Prop where
  snapshot_le : r.snapshot ≤ nextSeq
  cursor_le : r.cursor ≤ r.snapshot
  increasing : SeqIncreasing r.remaining
  remaining_le : ∀ e ∈ r.remaining, e.seq ≤ r.snapshot
  read : ∀ e ∈ buffer, r.cursor < e.seq → r.sub.matches e = true → r.snapshot < e.seq

/-- The buffer is the end of what was pushed, and every replay is sound. -/
structure Delivery.Sound (s : Delivery) : Prop where
  size : 0 < s.maxBufferSize
  suffix : s.buffer <:+ s.pushed
  nonempty : s.buffer = [] → s.pushed = []
  increasing : SeqIncreasing s.pushed
  pushed_le : ∀ e ∈ s.pushed, e.seq ≤ s.nextSeq
  sent_le : ∀ e ∈ s.sent, e.seq ≤ s.nextSeq
  written_le : ∀ e ∈ s.written, e.seq ≤ s.nextSeq
  replays : ∀ r ∈ s.replays, r.Sound s.buffer s.nextSeq
  refs : ∀ sub ∈ s.subscriptions, sub.ref < s.nextRef
  replay_refs : ∀ r ∈ s.replays, r.sub.ref < s.nextRef
  distinct : (s.replays.map fun r => r.sub.ref).Nodup

/-- What a replay has still to send: what it has read, and what it will read. -/
def Replay.pending (buffer : List ProtocolEvent) (r : Replay) : List ProtocolEvent :=
  r.remaining ++ buffer.filter fun e => r.snapshot < e.seq && r.sub.matches e

@[simp] theorem Replay.mem_pending {buffer : List ProtocolEvent} {r : Replay} {e : ProtocolEvent} :
    e ∈ r.pending buffer ↔
      e ∈ r.remaining ∨ (e ∈ buffer ∧ r.snapshot < e.seq ∧ r.sub.matches e = true) := by
  simp [Replay.pending]

namespace Delivery.Sound

variable {s s' : Delivery} {o : SendOutcome} {sub : Subscription} {cursor : ℤ}

theorem buffer_increasing (h : s.Sound) : SeqIncreasing s.buffer :=
  h.increasing.sublist h.suffix.sublist

theorem buffer_le (h : s.Sound) {e : ProtocolEvent} (he : e ∈ s.buffer) : e.seq ≤ s.nextSeq :=
  h.pushed_le e (h.suffix.subset he)

theorem rtake_concat {n : ℕ} (hn : 0 < n) (l : List ProtocolEvent) (e : ProtocolEvent) :
    ∃ kept, (l ++ [e]).rtake n = kept ++ [e] ∧ kept <:+ l := by
  obtain ⟨m, rfl⟩ := Nat.exists_eq_succ_of_ne_zero hn.ne'
  exact ⟨l.rtake m, List.rtake_concat_succ l m e, List.drop_suffix _ _⟩

theorem sendJson (h : s.Sound) {e : ProtocolEvent} (he : e.seq ≤ s.nextSeq) (o : SendOutcome) :
    (s.sendJson e o).Sound := by
  obtain ⟨broken, written, hw, heq⟩ := s.sendJson_eq e o
  rw [heq]
  have hconcat : ∀ {l : List ProtocolEvent}, (∀ x ∈ l, x.seq ≤ s.nextSeq) →
      ∀ x ∈ l ++ [e], x.seq ≤ s.nextSeq := by
    intro l hl x hx
    rcases List.mem_append.mp hx with hx | hx
    · exact hl x hx
    · rw [List.mem_singleton.mp hx]
      exact he
  refine ⟨h.size, h.suffix, h.nonempty, h.increasing, h.pushed_le, hconcat h.sent_le,
    fun x hx => ?_, h.replays, h.refs, h.replay_refs, h.distinct⟩
  rcases hw with rfl | rfl
  · exact h.written_le x hx
  · exact hconcat h.written_le x hx

/-- A new call that awaits a send. -/
theorem await (h : s.Sound) {r : Replay} (hr : r.Sound s.buffer s.nextSeq)
    (href : r.sub.ref < s.nextRef) (hnew : ∀ x ∈ s.replays, x.sub.ref ≠ r.sub.ref) :
    Delivery.Sound { s with replays := s.replays ++ [r] } where
  size := h.size
  suffix := h.suffix
  nonempty := h.nonempty
  increasing := h.increasing
  pushed_le := h.pushed_le
  sent_le := h.sent_le
  written_le := h.written_le
  replays x hx := by
    rcases List.mem_append.mp hx with hx | hx
    · exact h.replays x hx
    · exact List.mem_singleton.mp hx ▸ hr
  refs := h.refs
  replay_refs x hx := by
    rcases List.mem_append.mp hx with hx | hx
    · exact h.replay_refs x hx
    · exact List.mem_singleton.mp hx ▸ href
  distinct := by
    rw [List.map_append]
    refine List.nodup_append.mpr ⟨h.distinct, List.nodup_singleton _, fun a ha b hb => ?_⟩
    obtain ⟨x, hx, rfl⟩ := List.mem_map.mp ha
    rw [List.mem_singleton.mp hb]
    exact hnew x hx

/-- The calls that await a send, without one of them. -/
theorem erase (h : s.Sound) (i : ℕ) :
    Delivery.Sound { s with replays := s.replays.eraseIdx i } where
  size := h.size
  suffix := h.suffix
  nonempty := h.nonempty
  increasing := h.increasing
  pushed_le := h.pushed_le
  sent_le := h.sent_le
  written_le := h.written_le
  replays x hx := h.replays x (List.mem_of_mem_eraseIdx hx)
  refs := h.refs
  replay_refs x hx := h.replay_refs x (List.mem_of_mem_eraseIdx hx)
  distinct := h.distinct.sublist ((List.eraseIdx_sublist _ _).map _)

/-- Other subscriptions. -/
theorem subscriptions (h : s.Sound) {subscriptions : List Subscription} {nextRef : ℕ}
    (hle : s.nextRef ≤ nextRef) (hrefs : ∀ sub ∈ subscriptions, sub.ref < nextRef) :
    Delivery.Sound { s with subscriptions := subscriptions, nextRef := nextRef } where
  size := h.size
  suffix := h.suffix
  nonempty := h.nonempty
  increasing := h.increasing
  pushed_le := h.pushed_le
  sent_le := h.sent_le
  written_le := h.written_le
  replays := h.replays
  refs := hrefs
  replay_refs x hx := (h.replay_refs x hx).trans_le hle
  distinct := h.distinct

theorem activate (h : s.Sound) (ref : ℕ) : (s.activate ref).Sound := by
  refine h.subscriptions le_rfl fun sub hsub => ?_
  obtain ⟨x, hx, rfl⟩ := List.mem_map.mp hsub
  split
  · exact h.refs x hx
  · exact h.refs x hx

theorem push (h : s.Sound) (draft : ProtocolEvent) (o : SendOutcome) : (s.push draft o).Sound := by
  obtain ⟨kept, hring, hkept⟩ := rtake_concat h.size s.buffer (s.stamp draft)
  have hlt : ∀ e ∈ s.pushed, e.seq < (s.stamp draft).seq := fun e he =>
    Nat.lt_succ_of_le (h.pushed_le e he)
  have hsound : Delivery.Sound { s with
      nextSeq := s.nextSeq + 1
      buffer := (s.buffer ++ [s.stamp draft]).rtake s.maxBufferSize
      pushed := s.pushed ++ [s.stamp draft] } := by
    refine ⟨h.size, ?_, fun hnil => ?_, ?_, fun e he => ?_,
      fun e he => (h.sent_le e he).trans (Nat.le_succ _),
      fun e he => (h.written_le e he).trans (Nat.le_succ _), fun r hr => ?_, h.refs, h.replay_refs,
      h.distinct⟩
    · simp only [hring]
      exact List.suffix_append_self_iff.mpr (hkept.trans h.suffix)
    · simp [hring] at hnil
    · exact List.pairwise_append.mpr ⟨h.increasing, List.pairwise_singleton _ _,
        fun e he f hf => List.mem_singleton.mp hf ▸ hlt e he⟩
    · rcases List.mem_append.mp he with he | he
      · exact (hlt e he).le
      · rw [List.mem_singleton.mp he]
        exact le_rfl
    · have hr := h.replays r hr
      refine ⟨hr.snapshot_le.trans (Nat.le_succ _), hr.cursor_le, hr.increasing, hr.remaining_le,
        fun e he hlt hm => ?_⟩
      simp only [hring] at he
      rcases List.mem_append.mp he with he | he
      · exact hr.read e (hkept.subset he) hlt hm
      · rw [List.mem_singleton.mp he]
        exact Nat.lt_succ_of_le hr.snapshot_le
  simp only [Delivery.push]
  split
  · exact hsound.sendJson le_rfl o
  · exact hsound

/-- A turn of the loop reads up to the end of the buffer. -/
theorem readBuffer (h : s.Sound) (href : sub.ref < s.nextRef)
    (hnew : ∀ x ∈ s.replays, x.sub.ref ≠ sub.ref) (cursor : ℤ) (o : SendOutcome) :
    (s.readBuffer sub cursor s.nextSeq o).Sound := by
  rcases s.readBuffer_cases sub cursor s.nextSeq o with ⟨-, heq⟩ | ⟨e, rest, hdrain, heq⟩
  · rw [heq]
    exact h.activate sub.ref
  · rw [heq]
    have hmem : ∀ x ∈ e :: rest, x ∈ s.buffer ∧ cursor < x.seq ∧ x.seq ≤ s.nextSeq ∧
        sub.matches x = true := fun x hx => mem_drain.mp (hdrain ▸ hx)
    have hinc : SeqIncreasing (e :: rest) := by
      rw [← hdrain]
      exact h.buffer_increasing.sublist List.filter_sublist
    have hlast := hmem _ (List.getLast_mem (List.cons_ne_nil e rest))
    have hsend := h.sendJson (hmem e List.mem_cons_self).2.2.1 o
    have hr : Replay.Sound (s.sendJson e o).buffer (s.sendJson e o).nextSeq
        ⟨sub, ((e :: rest).getLast (List.cons_ne_nil e rest)).seq, s.nextSeq, rest⟩ := by
      refine ⟨by simp, Int.ofNat_le.mpr hlast.2.2.1, hinc.of_cons,
        fun x hx => (hmem x (List.mem_cons_of_mem e hx)).2.2.1, fun x hx hlt hm => ?_⟩
      rw [buffer_sendJson] at hx
      by_contra hle
      simp only at hlt
      -- what the turn has read is not after its last event
      have hx : x ∈ e :: rest := hdrain ▸ mem_drain.mpr
        ⟨hx, by omega, not_lt.mp hle, hm⟩
      have hxle := hinc.le_getLast (List.cons_ne_nil e rest) hx
      omega
    have hawait := hsend.await hr (by simpa using href) (by simpa using hnew)
    rwa [replays_sendJson] at hawait

/-- The subscription of a new call. -/
theorem install (h : s.Sound) (sub : Subscription) :
    Delivery.Sound { s.setSubscription (s.newSubscription sub) with nextRef := s.nextRef + 1 } := by
  unfold Delivery.setSubscription
  split
  · refine h.subscriptions (Nat.le_succ _) fun x hx => ?_
    obtain ⟨y, hy, rfl⟩ := List.mem_map.mp hx
    split
    · exact Nat.lt_succ_self _
    · exact (h.refs y hy).trans (Nat.lt_succ_self _)
  · refine h.subscriptions (Nat.le_succ _) fun x hx => ?_
    rcases List.mem_append.mp hx with hx | hx
    · exact (h.refs x hx).trans (Nat.lt_succ_self _)
    · rw [List.mem_singleton.mp hx]
      exact Nat.lt_succ_self _

theorem subscribe (h : s.Sound) (sub : Subscription) (since : Option ℤ) (o : SendOutcome) :
    (s.subscribe sub since o).Sound := by
  unfold Delivery.subscribe
  split
  · exact h
  · refine (h.install sub).readBuffer (Nat.lt_succ_self _) (fun x hx => ?_) _ o
    obtain ⟨subscriptions, heq⟩ := s.setSubscription_eq (s.newSubscription sub)
    rw [heq] at hx
    exact (h.replay_refs x hx).ne

theorem mem_eraseIdx_of_ne {i : ℕ} {r x : Replay} (hi : s.replays[i]? = some r)
    (hx : x ∈ s.replays) (hne : x.sub.ref ≠ r.sub.ref) : x ∈ s.replays.eraseIdx i := by
  obtain ⟨before, after, hsplit, herase⟩ := exists_split_eraseIdx hi
  rw [hsplit] at hx
  rw [herase]
  rcases List.mem_append.mp hx with hx | hx
  · exact List.mem_append_left _ hx
  · exact List.mem_append_right _ ((List.mem_cons.mp hx).resolve_left fun h => hne (h ▸ rfl))

theorem ne_of_mem_eraseIdx (h : s.Sound) {i : ℕ} {r x : Replay} (hi : s.replays[i]? = some r)
    (hx : x ∈ s.replays.eraseIdx i) : x.sub.ref ≠ r.sub.ref := by
  obtain ⟨before, after, hsplit, herase⟩ := exists_split_eraseIdx hi
  have hdistinct := h.distinct
  rw [hsplit, List.map_append, List.map_cons, List.nodup_middle, List.nodup_cons,
    ← List.map_append] at hdistinct
  rw [herase] at hx
  exact fun he => hdistinct.1 (List.mem_map.mpr ⟨x, hx, he⟩)

theorem resume (h : s.Sound) {i : ℕ} (hs : s.resume i o = some s') : s'.Sound := by
  obtain ⟨r, hr, hi, hcases⟩ := resume_cases hs
  have herase := h.erase i
  have hsound := h.replays r hr
  have hnew : ∀ x ∈ s.replays.eraseIdx i, x.sub.ref ≠ r.sub.ref := fun x hx =>
    h.ne_of_mem_eraseIdx hi hx
  rcases hcases with ⟨e, rest, hrem, rfl⟩ | ⟨-, -, rfl⟩ | ⟨-, -, rfl⟩
  · have hle : e.seq ≤ s.nextSeq :=
      (hsound.remaining_le e (hrem ▸ List.mem_cons_self)).trans hsound.snapshot_le
    have hsend := herase.sendJson hle o
    have hr' : Replay.Sound s.buffer s.nextSeq { r with remaining := rest } :=
      ⟨hsound.snapshot_le, hsound.cursor_le, (hrem ▸ hsound.increasing : SeqIncreasing (e :: rest)).of_cons,
        fun x hx => hsound.remaining_le x (hrem ▸ List.mem_cons_of_mem e hx), hsound.read⟩
    have hawait := hsend.await (r := { r with remaining := rest }) (by simpa using hr')
      (by simpa using h.replay_refs r hr) (by simpa using hnew)
    rwa [replays_sendJson] at hawait
  · exact herase.readBuffer (h.replay_refs r hr) hnew r.cursor o
  · exact herase.activate r.sub.ref

theorem unsubscribe (h : s.Sound) (id : String) : (s.unsubscribe id).Sound :=
  h.subscriptions le_rfl fun sub hsub => h.refs sub (List.mem_filter.mp hsub).1

theorem step {a : DeliveryAction} (h : s.Sound) (hs : delivery.step s a = some s') :
    s'.Sound := by
  cases a with
  | push draft o =>
    cases hs
    exact h.push draft o
  | subscribe sub since o =>
    cases hs
    exact h.subscribe sub since o
  | resume i o => exact h.resume hs
  | unsubscribe id =>
    cases hs
    exact h.unsubscribe id

theorem of_starts (h : s.Starts) : s.Sound where
  size := h.size
  suffix := h.buffer ▸ List.nil_suffix
  nonempty _ := h.pushed
  increasing := h.pushed ▸ List.Pairwise.nil
  pushed_le := by simp [h.pushed]
  sent_le := by simp [h.sent]
  written_le := by simp [h.written]
  replays := by simp [h.replays]
  refs := h.refs
  replay_refs := by simp [h.replays]
  distinct := by simp [h.replays]

end Delivery.Sound

/-- **Every session is sound**, in every state that it reaches. -/
theorem sound_of_reachable {Ok : Delivery → DeliveryAction → Prop} {s : Delivery}
    (h : delivery.Reachable Ok s) : s.Sound :=
  h.invariant (fun _ => .of_starts) fun _ _ _ _ hI _ hs => hI.step hs

end NextRole
