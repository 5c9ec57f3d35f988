import NextRole.Api.EventDelivery

/-!
# One transport, each event once and in order

A live event goes to the transport once, whatever subscriptions match it.  A replay
resends what the buffer holds to the same transport, without regard to what it has taken
already, and live events pass a replay that awaits a send.  So the transport gets the
events once and in order as long as a replay has nothing to send that is not after what
was written, and nothing else is written before it has sent it.

## Main definitions

* `Replay.Owes` — a replay has events to send.
* `Orderly` — the pushes and subscribe calls that keep the order.
* `Ordered` — the transport has increasing positions, and what is owed is after them.

## Main results

* `written_of_orderly`, and `not_written_increasing` without the condition.
-/

namespace NextRole

/-- A replay has read, or will read, an event that it has not sent. -/
def Replay.Owes (buffer : List ProtocolEvent) (r : Replay) : Prop := r.pending buffer ≠ []

instance (buffer : List ProtocolEvent) (r : Replay) : Decidable (r.Owes buffer) :=
  inferInstanceAs (Decidable (_ ≠ _))

/-- The steps that keep the order.  With a new event at most one replay has events to
send, and none if the event is written live.  A new subscription replays only events that
are after all that was written, while no other replay has events to send. -/
def Orderly (s : Delivery) : DeliveryAction → Prop
  | .push draft _ =>
    let e := s.stamp draft
    let owing := s.replays.filter fun r => r.Owes s.buffer ∨ r.sub.matches e = true
    owing.length ≤ 1 ∧ ((s.liveSubscription e).isSome = true → owing = [])
  | .subscribe sub since _ =>
    s.gap since = true ∨ s.drain sub (since.getD 0) s.nextSeq = [] ∨
      ((∀ r ∈ s.replays, ¬ r.Owes s.buffer) ∧
        ∀ e ∈ s.drain sub (since.getD 0) s.nextSeq, ∀ w ∈ s.written, w.seq < e.seq)
  | .resume _ _ | .unsubscribe _ => True

instance (s : Delivery) (a : DeliveryAction) : Decidable (Orderly s a) := by
  cases a <;> unfold Orderly <;> infer_instance

/-- What the transport has taken has increasing positions, what a replay owes is after
it, and at most one replay owes anything. -/
structure Ordered (s : Delivery) : Prop where
  increasing : SeqIncreasing s.written
  ahead : ∀ r ∈ s.replays, ∀ e ∈ r.pending s.buffer, ∀ w ∈ s.written, w.seq < e.seq
  alone : s.replays.Pairwise fun r r' => ¬ (r.Owes s.buffer ∧ r'.Owes s.buffer)

/-- At most one element with a property: no two have it. -/
theorem pairwise_of_length_filter_le_one {α : Type*} {p : α → Prop} [DecidablePred p] {l : List α}
    (h : (l.filter p).length ≤ 1) : l.Pairwise fun a b => ¬ (p a ∧ p b) := by
  induction l with
  | nil => exact .nil
  | cons a l ih =>
    rw [List.filter_cons] at h
    split at h
    · next ha =>
      have hnil : l.filter p = [] := List.length_eq_zero_iff.mp (by simpa using h)
      refine List.pairwise_cons.mpr ⟨fun b hb hab => ?_, ih (by simp [hnil])⟩
      exact absurd (decide_eq_true hab.2) (List.filter_eq_nil_iff.mp hnil b hb)
    · next ha =>
      exact List.pairwise_cons.mpr ⟨fun b _ hab => ha (decide_eq_true hab.1), ih h⟩

namespace Ordered

variable {s s' : Delivery} {o : SendOutcome}

theorem erase (h : Ordered s) (i : ℕ) : Ordered { s with replays := s.replays.eraseIdx i } where
  increasing := h.increasing
  ahead r hr := h.ahead r (List.mem_of_mem_eraseIdx hr)
  alone := h.alone.sublist (List.eraseIdx_sublist _ _)

theorem not_owes_of_mem_eraseIdx (h : Ordered s) {i : ℕ} {r x : Replay}
    (hi : s.replays[i]? = some r) (hr : r.Owes s.buffer) (hx : x ∈ s.replays.eraseIdx i) :
    ¬ x.Owes s.buffer := by
  obtain ⟨before, after, hsplit, herase⟩ := exists_split_eraseIdx hi
  have halone := h.alone
  rw [hsplit] at halone
  obtain ⟨-, hafter, hbefore⟩ := List.pairwise_append.mp halone
  rw [herase] at hx
  rcases List.mem_append.mp hx with hx | hx
  · exact fun ho => hbefore x hx r List.mem_cons_self ⟨ho, hr⟩
  · exact fun ho => (List.pairwise_cons.mp hafter).1 x hx ⟨hr, ho⟩

/-- A replay sends the first event that it owes, while the others owe nothing. -/
theorem send (h : Ordered s) (hidle : ∀ x ∈ s.replays, ¬ x.Owes s.buffer) {e : ProtocolEvent}
    {r : Replay} (he : ∀ w ∈ s.written, w.seq < e.seq)
    (hr : ∀ x ∈ r.pending s.buffer, e.seq < x.seq) (o : SendOutcome) :
    Ordered { s.sendJson e o with replays := s.replays ++ [r] } := by
  obtain ⟨broken, written, hw, heq⟩ := s.sendJson_eq e o
  rw [heq]
  have hwritten : ∀ w ∈ written, w ∈ s.written ∨ w = e := by
    rcases hw with rfl | rfl
    · exact fun w hw => .inl hw
    · intro w hw
      exact (List.mem_append.mp hw).imp_right List.mem_singleton.mp
  refine ⟨?_, fun x hx f hf w hw => ?_, ?_⟩
  · rcases hw with rfl | rfl
    · exact h.increasing
    · exact List.pairwise_append.mpr ⟨h.increasing, List.pairwise_singleton _ _,
        fun w hw f hf => List.mem_singleton.mp hf ▸ he w hw⟩
  · rcases List.mem_append.mp hx with hx | hx
    · exact absurd (List.ne_nil_of_mem hf) (hidle x hx)
    · rw [List.mem_singleton.mp hx] at hf
      rcases hwritten w hw with hw | rfl
      · exact (he w hw).trans (hr f hf)
      · exact hr f hf
  · refine List.pairwise_append.mpr ⟨h.alone, List.pairwise_singleton _ _, ?_⟩
    exact fun x hx _ _ howes => hidle x hx howes.1

/-- A turn of the loop of a replay that owes all that it reads. -/
theorem readBuffer (h : Ordered s) (hs : s.Sound) {sub : Subscription} {cursor : ℤ}
    (howed : s.drain sub cursor s.nextSeq = [] ∨ (∀ x ∈ s.replays, ¬ x.Owes s.buffer) ∧
      ∀ e ∈ s.drain sub cursor s.nextSeq, ∀ w ∈ s.written, w.seq < e.seq) (o : SendOutcome) :
    Ordered (s.readBuffer sub cursor s.nextSeq o) := by
  rcases s.readBuffer_cases sub cursor s.nextSeq o with ⟨-, heq⟩ | ⟨e, rest, hdrain, heq⟩
  · rw [heq]
    exact ⟨h.increasing, h.ahead, h.alone⟩
  · rw [heq]
    rw [hdrain] at howed
    obtain ⟨hidle, hafter⟩ := howed.resolve_left (List.cons_ne_nil e rest)
    have hinc : SeqIncreasing (e :: rest) := by
      rw [← hdrain]
      exact hs.buffer_increasing.sublist List.filter_sublist
    refine h.send hidle (hafter e List.mem_cons_self) (fun x hx => ?_) o
    rcases Replay.mem_pending.mp hx with hx | ⟨hx, hlt, -⟩
    · exact (List.pairwise_cons.mp hinc).1 x hx
    · -- the turn has read to the end of the buffer
      exact absurd (hs.buffer_le hx) (not_le.mpr hlt)

theorem push (h : Ordered s) (hs : s.Sound) {draft : ProtocolEvent}
    (hord : Orderly s (.push draft o)) : Ordered (s.push draft o) := by
  obtain ⟨hone, hlive⟩ := hord
  obtain ⟨kept, hring, hkept⟩ := Delivery.Sound.rtake_concat hs.size s.buffer (s.stamp draft)
  have hnew : ∀ w ∈ s.written, w.seq < (s.stamp draft).seq := fun w hw =>
    Nat.lt_succ_of_le (hs.written_le w hw)
  have hpending : ∀ r : Replay, ∀ x ∈ r.pending (kept ++ [s.stamp draft]),
      x ∈ r.pending s.buffer ∨ (x = s.stamp draft ∧ r.sub.matches (s.stamp draft) = true) := by
    intro r x hx
    rw [Replay.mem_pending] at hx ⊢
    rcases hx with hx | ⟨hx, hlt, hm⟩
    · exact .inl (.inl hx)
    · rcases List.mem_append.mp hx with hx | hx
      · exact .inl (.inr ⟨hkept.subset hx, hlt, hm⟩)
      · obtain rfl := List.mem_singleton.mp hx
        exact .inr ⟨rfl, hm⟩
  have howes : ∀ r : Replay, r.Owes (kept ++ [s.stamp draft]) →
      r.Owes s.buffer ∨ r.sub.matches (s.stamp draft) = true := by
    intro r hr
    obtain ⟨x, hx⟩ := List.exists_mem_of_ne_nil _ hr
    exact (hpending r x hx).imp List.ne_nil_of_mem And.right
  have hordered : Ordered { s with
      nextSeq := s.nextSeq + 1
      buffer := (s.buffer ++ [s.stamp draft]).rtake s.maxBufferSize
      pushed := s.pushed ++ [s.stamp draft] } := by
    simp only [hring]
    refine ⟨h.increasing, fun r hr x hx w hw => ?_, ?_⟩
    · rcases hpending r x hx with hx | ⟨rfl, -⟩
      · exact h.ahead r hr x hx w hw
      · exact hnew w hw
    · exact (pairwise_of_length_filter_le_one hone).imp fun hnot hboth =>
        hnot ⟨howes _ hboth.1, howes _ hboth.2⟩
  simp only [Delivery.push]
  split
  · next hsome =>
    have hnone := hlive hsome
    have hidle : ∀ r ∈ s.replays, ¬ r.Owes (kept ++ [s.stamp draft]) := by
      intro r hr ho
      exact absurd (decide_eq_true (howes r ho)) (List.filter_eq_nil_iff.mp hnone r hr)
    simp only [hring] at hordered ⊢
    obtain ⟨broken, written, hw, heq⟩ := Delivery.sendJson_eq { s with
      nextSeq := s.nextSeq + 1
      buffer := kept ++ [s.stamp draft]
      pushed := s.pushed ++ [s.stamp draft] } (s.stamp draft) o
    rw [heq]
    refine ⟨?_, fun r hr x hx => absurd (List.ne_nil_of_mem hx) (hidle r hr), hordered.alone⟩
    rcases hw with rfl | rfl
    · exact h.increasing
    · exact List.pairwise_append.mpr ⟨h.increasing, List.pairwise_singleton _ _,
        fun w hw f hf => List.mem_singleton.mp hf ▸ hnew w hw⟩
  · exact hordered

theorem subscribe (h : Ordered s) (hs : s.Sound) {sub : Subscription} {since : Option ℤ}
    (hord : Orderly s (.subscribe sub since o)) : Ordered (s.subscribe sub since o) := by
  unfold Delivery.subscribe
  split
  · exact h
  · next hgap =>
    have hinstall := hs.install sub
    obtain ⟨subscriptions, heq⟩ := s.setSubscription_eq (s.newSubscription sub)
    simp only [heq] at hinstall ⊢
    have hord' : Ordered { s with subscriptions := subscriptions, nextRef := s.nextRef + 1 } :=
      ⟨h.increasing, h.ahead, h.alone⟩
    refine hord'.readBuffer hinstall ?_ o
    exact hord.resolve_left hgap

theorem resume (h : Ordered s) (hs : s.Sound) {i : ℕ} (hstep : s.resume i o = some s') :
    Ordered s' := by
  obtain ⟨r, hr, hi, hcases⟩ := Delivery.resume_cases hstep
  have hsound := hs.replays r hr
  have herase := h.erase i
  rcases hcases with ⟨e, rest, hrem, rfl⟩ | ⟨hrem, hlt, rfl⟩ | ⟨-, -, rfl⟩
  · have hmem : e ∈ r.pending s.buffer := Replay.mem_pending.mpr (.inl (hrem ▸ List.mem_cons_self))
    have howes : r.Owes s.buffer := List.ne_nil_of_mem hmem
    refine herase.send (fun x hx => h.not_owes_of_mem_eraseIdx hi howes hx)
      (h.ahead r hr e hmem) (fun x hx => ?_) o
    rcases Replay.mem_pending.mp hx with hx | ⟨hx, hlt, -⟩
    · exact (List.pairwise_cons.mp (hrem ▸ hsound.increasing)).1 x hx
    · exact (hsound.remaining_le e (hrem ▸ List.mem_cons_self)).trans_lt hlt
  · refine herase.readBuffer (hs.erase i) ?_ o
    rcases Decidable.em (r.Owes s.buffer) with howes | hidle
    · refine .inr ⟨fun x hx => h.not_owes_of_mem_eraseIdx hi howes hx, fun e he => ?_⟩
      obtain ⟨he, hcur, -, hm⟩ := Delivery.mem_drain.mp he
      exact h.ahead r hr e (Replay.mem_pending.mpr (.inr ⟨he, hsound.read e he hcur hm, hm⟩))
    · refine .inl (List.eq_nil_iff_forall_not_mem.mpr fun e he => hidle ?_)
      obtain ⟨he, hcur, -, hm⟩ := Delivery.mem_drain.mp he
      exact List.ne_nil_of_mem (Replay.mem_pending.mpr (.inr ⟨he, hsound.read e he hcur hm, hm⟩))
  · exact ⟨herase.increasing, herase.ahead, herase.alone⟩

theorem of_starts (h : s.Starts) : Ordered s where
  increasing := h.written ▸ List.Pairwise.nil
  ahead := by simp [h.replays]
  alone := h.replays ▸ List.Pairwise.nil

end Ordered

theorem ordered_of_reachable {s : Delivery} (h : delivery.Reachable Orderly s) : Ordered s := by
  refine h.invariant (fun _ => .of_starts) fun s a s' hreach hI hord hstep => ?_
  have hs := sound_of_reachable hreach
  cases a with
  | push draft o =>
    cases hstep
    exact hI.push hs hord
  | subscribe sub since o =>
    cases hstep
    exact hI.subscribe hs hord
  | resume i o => exact hI.resume hs hstep
  | unsubscribe id =>
    cases hstep
    exact ⟨hI.increasing, hI.ahead, hI.alone⟩

/-- In every run whose pushes and subscribe calls keep the order, the transport gets every
event at most once, and in the order of their positions. -/
theorem written_of_orderly {s : Delivery} (h : delivery.Reachable Orderly s) :
    s.written.Nodup ∧ SeqIncreasing s.written := by
  have hinc := (ordered_of_reachable h).increasing
  exact ⟨hinc.imp fun hlt heq => absurd (heq ▸ hlt) (lt_irrefl _), hinc⟩

/-- A session with room for some events and some active subscriptions to `values`. -/
def valuesSession (maxBufferSize : ℕ) (ids : List String) : Delivery where
  maxBufferSize := maxBufferSize
  nextSeq := 0
  subscriptions := ids.map fun id => { id := id, channels := ["values"], active := true }
  nextRef := 1

theorem valuesSession_starts {maxBufferSize : ℕ} (h : 0 < maxBufferSize) (ids : List String) :
    (valuesSession maxBufferSize ids).Starts := by
  refine ⟨h, rfl, rfl, fun sub hsub => ?_, rfl, rfl, rfl⟩
  obtain ⟨id, -, rfl⟩ := List.mem_map.mp hsub
  exact Nat.one_pos

/-- An event of the channel `values`. -/
def valuesEvent : ProtocolEvent := { method := "values" }

/-- A subscription of the channel `values`. -/
def valuesSubscription (id : String) : Subscription := { id := id, channels := ["values"] }

/-- A client that resumes after what it has, and gets the next event live. -/
theorem written_resumed :
    ∃ s : Delivery, delivery.Reachable Orderly s ∧ s.written.length = 3 ∧
      (s.written.Nodup ∧ SeqIncreasing s.written) := by
  obtain ⟨s, h, hs⟩ := delivery.exists_reachable Orderly
    (valuesSession_starts (show 0 < 5 by decide) [])
    [.push valuesEvent .written, .push valuesEvent .written,
      .subscribe (valuesSubscription "a") (some 0) .written, .resume 0 .written,
      .resume 0 .written, .push valuesEvent .written]
    (fun s => s.written.length = 3) (by decide +kernel)
  exact ⟨s, h, of_decide_eq_true hs, written_of_orderly h⟩

/-- Two subscriptions to one channel: the event that the first got live is replayed to
the second over the same transport. -/
theorem not_written_increasing :
    ∃ s : Delivery, delivery.Reachable Machine.free s ∧
      ¬ (s.written.Nodup ∧ SeqIncreasing s.written) := by
  obtain ⟨s, h, hs⟩ := delivery.exists_reachable Machine.free
    (valuesSession_starts (show 0 < 5 by decide) ["a"])
    [.push valuesEvent .written, .subscribe (valuesSubscription "b") none .written]
    (fun s => ¬ s.written.Nodup) (by decide +kernel)
  exact ⟨s, h, fun hall => of_decide_eq_true hs hall.1⟩

end NextRole
