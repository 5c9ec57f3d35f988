import NextRole.TransportOrder

/-!
# Resuming by a cursor

A replay that starts without a gap finds every event after the cursor in the buffer.  It
reads the buffer, sends what it has read, and reads again what arrived in the meantime.
The check for a gap is not made again: what arrives and is evicted while the replay awaits
its sends is skipped.  As long as no push evicts an event that a replay has yet to read,
nothing is.

## Main definitions

* `NothingSkipped` — a call that has returned has sent what matches after its cursor.
* `KeepsOwed` — no push evicts what the call has yet to read.
* `Resuming` — what has not been sent is pending.

## Main results

* `nothingSkipped_of_reachable`, and `not_nothingSkipped` without the condition.
-/

namespace NextRole

/-- Once the call that `sub` and `since` made in `s₀` has returned, every matching event
after the cursor, from before the call or after it, has been sent since the call. -/
def NothingSkipped (s₀ : Delivery) (sub : Subscription) (since : ℤ) (s : Delivery) : Prop :=
  (∀ r ∈ s.replays, r.sub.ref ≠ s₀.nextRef) →
    ∀ e ∈ s.pushed, since < e.seq → sub.matches e = true → e ∈ s.sent.drop s₀.sent.length

/-- The events that a push evicts from the buffer. -/
def Delivery.evicted (s : Delivery) (draft : ProtocolEvent) : List ProtocolEvent :=
  (s.buffer ++ [s.stamp draft]).rdrop s.maxBufferSize

/-- A push evicts no matching event that the call has yet to read, unless another
subscription got it live.  Nobody else takes the id of the subscription. -/
def KeepsOwed (id : String) (ref : ℕ) (s : Delivery) : DeliveryAction → Prop
  | .push draft _ => ∀ e ∈ s.evicted draft, ∀ r ∈ s.replays, r.sub.ref = ref →
      r.snapshot < e.seq → r.sub.matches e = true → e ∈ s.sent
  | .subscribe sub _ _ => sub.id ≠ id
  | .resume _ _ => True
  | .unsubscribe other => other ≠ id

instance (id : String) (ref : ℕ) (s : Delivery) (a : DeliveryAction) :
    Decidable (KeepsOwed id ref s a) := by
  match a with
  | .push .. | .subscribe .. | .resume .. | .unsubscribe _ => unfold KeepsOwed; infer_instance

/-- The session from some state on. -/
def deliveryFrom (s₁ : Delivery) : Machine Delivery DeliveryAction :=
  { delivery with init := fun s => s = s₁ }

/-- What matches after the cursor has been sent since the call, or the call has it to
send.  The call has its subscription in the dict, active or with a replay to come. -/
structure Resuming (s₀ : Delivery) (sub : Subscription) (since : ℤ) (s : Delivery) : Prop where
  base : s₀.sent <+: s.sent
  owed : ∀ e ∈ s.pushed, since < e.seq → sub.matches e = true →
    e ∈ s.sent.drop s₀.sent.length ∨
      ∃ r ∈ s.replays, r.sub.ref = s₀.nextRef ∧ e ∈ r.pending s.buffer
  waiting : ∀ r ∈ s.replays, r.sub.ref = s₀.nextRef →
    r.sub = s₀.newSubscription sub ∧ s₀.nextSeq ≤ r.snapshot
  installed : ∃ x ∈ s.subscriptions, x.id = sub.id ∧ x.ref = s₀.nextRef ∧
    (∀ e, x.matches e = sub.matches e) ∧
      (x.active = true ∨ ∃ r ∈ s.replays, r.sub.ref = s₀.nextRef)

namespace Resuming

variable {s₀ s s' : Delivery} {sub : Subscription} {since : ℤ} {o : SendOutcome}

theorem mem_drop_concat {base sent : List ProtocolEvent} {e x : ProtocolEvent}
    (hbase : base <+: sent) : e ∈ (sent ++ [x]).drop base.length ↔
      e ∈ sent.drop base.length ∨ e = x := by
  rw [List.drop_append_of_le_length hbase.length_le, List.mem_append, List.mem_singleton]

theorem mem_drop_of_lt (h : Resuming s₀ sub since s) (h₀ : s₀.Sound) {e : ProtocolEvent}
    (he : e ∈ s.sent) (hlt : s₀.nextSeq < e.seq) : e ∈ s.sent.drop s₀.sent.length := by
  obtain ⟨tail, htail⟩ := h.base
  rw [← htail] at he ⊢
  rw [List.drop_left]
  exact (List.mem_append.mp he).resolve_left fun hmem =>
    absurd (h₀.sent_le e hmem) (not_le.mpr hlt)

theorem nothingSkipped (h : Resuming s₀ sub since s) : NothingSkipped s₀ sub since s := by
  intro hdone e he hlt hm
  rcases h.owed e he hlt hm with hsent | ⟨r, hr, href, -⟩
  · exact hsent
  · exact absurd href (hdone r hr)

/-- Without a gap, what is after the cursor is in the buffer. -/
theorem mem_buffer_of_not_gap (h₀ : s₀.Sound) (hgap : ¬ s₀.gap (some since) = true)
    {e : ProtocolEvent} (he : e ∈ s₀.pushed) (hlt : since < e.seq) : e ∈ s₀.buffer := by
  obtain ⟨evicted, hsplit⟩ := h₀.suffix
  cases hbuf : s₀.buffer with
  | nil => exact absurd (h₀.nonempty hbuf) (List.ne_nil_of_mem he)
  | cons first rest =>
    have hfirst : (first.seq : ℤ) ≤ since + 1 := by
      simpa [Delivery.gap, hbuf] using hgap
    have hinc := h₀.increasing
    rw [← hsplit, hbuf] at he hinc
    rcases List.mem_append.mp he with he | he
    · have hbefore := (List.pairwise_append.mp hinc).2.2 e he first List.mem_cons_self
      omega
    · exact he

/-- A call that has sent all that it owes returns, and its subscription becomes active. -/
theorem activate (hbase : s₀.sent <+: s.sent)
    (hsent : ∀ e ∈ s.pushed, since < e.seq → sub.matches e = true →
      e ∈ s.sent.drop s₀.sent.length)
    (hnone : ∀ r ∈ s.replays, r.sub.ref ≠ s₀.nextRef)
    (hinst : ∃ x ∈ s.subscriptions, x.id = sub.id ∧ x.ref = s₀.nextRef ∧
      ∀ e, x.matches e = sub.matches e) : Resuming s₀ sub since (s.activate s₀.nextRef) where
  base := hbase
  owed e he hlt hm := .inl (hsent e he hlt hm)
  waiting r hr href := absurd href (hnone r hr)
  installed := by
    obtain ⟨x, hx, hid, href, hm⟩ := hinst
    exact ⟨{ x with active := true }, List.mem_map.mpr ⟨x, hx, if_pos href⟩, hid, href, hm,
      .inl rfl⟩

/-- A turn of the loop of the call, where the buffer holds all that has not been sent. -/
theorem readBuffer (hs : s.Sound) (hbase : s₀.sent <+: s.sent) {cursor : ℤ}
    (howed : ∀ e ∈ s.pushed, since < e.seq → sub.matches e = true →
      e ∈ s.sent.drop s₀.sent.length ∨ (e ∈ s.buffer ∧ cursor < e.seq))
    (hnone : ∀ r ∈ s.replays, r.sub.ref ≠ s₀.nextRef) (hseq : s₀.nextSeq ≤ s.nextSeq)
    (hinst : ∃ x ∈ s.subscriptions, x.id = sub.id ∧ x.ref = s₀.nextRef ∧
      ∀ e, x.matches e = sub.matches e) :
    Resuming s₀ sub since (s.readBuffer (s₀.newSubscription sub) cursor s.nextSeq o) := by
  have hdrain : ∀ e ∈ s.pushed, since < e.seq → sub.matches e = true →
      e ∈ s.sent.drop s₀.sent.length ∨
        e ∈ s.drain (s₀.newSubscription sub) cursor s.nextSeq := by
    intro e he hlt hm
    refine (howed e he hlt hm).imp_right fun ⟨hbuf, hcur⟩ => ?_
    exact Delivery.mem_drain.mpr ⟨hbuf, hcur, hs.pushed_le e he, hm⟩
  rcases s.readBuffer_cases (s₀.newSubscription sub) cursor s.nextSeq o with
    ⟨hnil, heq⟩ | ⟨first, rest, hcons, heq⟩
  · rw [heq]
    refine activate hbase (fun e he hlt hm => ?_) hnone hinst
    exact (hdrain e he hlt hm).resolve_right (hnil ▸ List.not_mem_nil)
  · rw [heq]
    refine ⟨?_, fun e he hlt hm => ?_, fun r hr href => ?_, ?_⟩
    · rw [Delivery.sent_sendJson]
      exact hbase.trans (List.prefix_append _ _)
    · rw [Delivery.pushed_sendJson] at he
      rw [Delivery.sent_sendJson, mem_drop_concat hbase]
      rcases hdrain e he hlt hm with hsent | hread
      · exact .inl (.inl hsent)
      · rw [hcons] at hread
        rcases List.mem_cons.mp hread with rfl | hread
        · exact .inl (.inr rfl)
        · exact .inr ⟨_, List.mem_append_right _ (List.mem_singleton_self _), rfl,
            Replay.mem_pending.mpr (.inl hread)⟩
    · rcases List.mem_append.mp hr with hr | hr
      · exact absurd href (hnone r hr)
      · obtain rfl := List.mem_singleton.mp hr
        exact ⟨rfl, hseq⟩
    · obtain ⟨x, hx, hid, href, hm⟩ := hinst
      refine ⟨x, by simpa using hx, hid, href, hm, .inr ⟨_, List.mem_append_right _
        (List.mem_singleton_self _), rfl⟩⟩

/-- A step of another call. -/
theorem frame (h : Resuming s₀ sub since s) (hpushed : s'.pushed = s.pushed)
    (hbuffer : s'.buffer = s.buffer) (hsent : s.sent <+: s'.sent)
    (hreplays : ∀ r : Replay, r.sub.ref = s₀.nextRef → (r ∈ s'.replays ↔ r ∈ s.replays))
    (hsubs : ∀ x ∈ s.subscriptions, x.id = sub.id → x.ref = s₀.nextRef →
      x ∈ s'.subscriptions) : Resuming s₀ sub since s' where
  base := h.base.trans hsent
  owed e he hlt hm := by
    rw [hpushed] at he
    rcases h.owed e he hlt hm with he | ⟨r, hr, href, he⟩
    · exact .inl ((hsent.drop _).subset he)
    · exact .inr ⟨r, (hreplays r href).mpr hr, href, hbuffer ▸ he⟩
  waiting r hr href := h.waiting r ((hreplays r href).mp hr) href
  installed := by
    obtain ⟨x, hx, hid, href, hm, hactive⟩ := h.installed
    refine ⟨x, hsubs x hx hid href, hid, href, hm, hactive.imp_right ?_⟩
    exact fun ⟨r, hr, hrefr⟩ => ⟨r, (hreplays r hrefr).mpr hr, hrefr⟩

theorem activate_other (h : Resuming s₀ sub since s) {ref : ℕ} (hne : ref ≠ s₀.nextRef) :
    Resuming s₀ sub since (s.activate ref) := by
  refine h.frame rfl rfl (List.prefix_refl _) (fun _ _ => Iff.rfl) fun x hx _ href => ?_
  exact List.mem_map.mpr ⟨x, hx, if_neg (href ▸ hne.symm)⟩

theorem send_other (h : Resuming s₀ sub since s) {r : Replay} (hne : r.sub.ref ≠ s₀.nextRef)
    (e : ProtocolEvent) :
    Resuming s₀ sub since { s.sendJson e o with replays := s.replays ++ [r] } := by
  refine h.frame (s.pushed_sendJson e o) (s.buffer_sendJson e o) ?_ (fun x hx => ?_)
    fun x hx _ _ => ?_
  · rw [Delivery.sent_sendJson]
    exact List.prefix_append _ _
  · rw [List.mem_append, List.mem_singleton, or_iff_left]
    exact fun heq => hne (heq ▸ hx)
  · rw [Delivery.subscriptions_sendJson]
    exact hx

theorem readBuffer_other (h : Resuming s₀ sub since s) {other : Subscription}
    (hne : other.ref ≠ s₀.nextRef) (cursor : ℤ) (snapshot : ℕ) :
    Resuming s₀ sub since (s.readBuffer other cursor snapshot o) := by
  rcases s.readBuffer_cases other cursor snapshot o with ⟨-, heq⟩ | ⟨e, rest, -, heq⟩
  · rw [heq]
    exact h.activate_other hne
  · rw [heq]
    exact h.send_other hne e

/-- The first read of the call, in the state that it finds. -/
theorem of_subscribe (h₀ : s₀.Sound) (hgap : ¬ s₀.gap (some since) = true) :
    Resuming s₀ sub since (s₀.subscribe sub (some since) o) := by
  have hinstall := h₀.install sub
  obtain ⟨subscriptions, heq⟩ := s₀.setSubscription_eq (s₀.newSubscription sub)
  have hinst : ∃ x ∈ (s₀.setSubscription (s₀.newSubscription sub)).subscriptions,
      x.id = sub.id ∧ x.ref = s₀.nextRef ∧ ∀ e, x.matches e = sub.matches e := by
    refine ⟨s₀.newSubscription sub, ?_, rfl, rfl, fun _ => rfl⟩
    unfold Delivery.setSubscription
    split
    · next hany =>
      obtain ⟨x, hx, hid⟩ := List.any_eq_true.mp hany
      exact List.mem_map.mpr ⟨x, hx, if_pos (of_decide_eq_true hid)⟩
    · exact List.mem_append_right _ (List.mem_singleton_self _)
  rw [heq] at hinst
  simp only [Delivery.subscribe, if_neg hgap, heq] at hinstall ⊢
  have hbase : s₀.sent <+: s₀.sent := List.prefix_refl _
  refine readBuffer hinstall (hbase :) (fun e he hlt _ => ?_) (fun r hr => ?_) le_rfl hinst
  · exact .inr ⟨mem_buffer_of_not_gap h₀ hgap he hlt, hlt⟩
  · exact (h₀.replay_refs r hr).ne

/-- What a push evicts has been sent, and what it adds is sent live or pending. -/
theorem push (h : Resuming s₀ sub since s) (h₀ : s₀.Sound) (hs : s.Sound)
    {draft : ProtocolEvent} (hkeep : KeepsOwed sub.id s₀.nextRef s (.push draft o)) :
    Resuming s₀ sub since (s.push draft o) := by
  have hsize : s.maxBufferSize ≠ 0 := hs.size.ne'
  have hnew : s.stamp draft ∈ (s.buffer ++ [s.stamp draft]).rtake s.maxBufferSize := by
    obtain ⟨kept, hring, -⟩ := Delivery.Sound.rtake_concat hs.size s.buffer (s.stamp draft)
    rw [hring]
    exact List.mem_append_right _ (List.mem_singleton_self _)
  -- what was pending still is, unless it was evicted
  have hpending : ∀ r ∈ s.replays, r.sub.ref = s₀.nextRef → ∀ e ∈ r.pending s.buffer,
      e ∈ s.sent.drop s₀.sent.length ∨
        e ∈ r.pending ((s.buffer ++ [s.stamp draft]).rtake s.maxBufferSize) := by
    intro r hr href e he
    rcases Replay.mem_pending.mp he with he | ⟨he, hlt, hm⟩
    · exact .inr (Replay.mem_pending.mpr (.inl he))
    · have hsplit : e ∈ (s.buffer ++ [s.stamp draft]).rdrop s.maxBufferSize ++
          (s.buffer ++ [s.stamp draft]).rtake s.maxBufferSize := by
        rw [List.rdrop, List.rtake, List.take_append_drop]
        exact List.mem_append_left _ he
      rcases List.mem_append.mp hsplit with hevicted | hkept
      · refine .inl (h.mem_drop_of_lt h₀ (hkeep e hevicted r hr href hlt hm) ?_)
        exact (h.waiting r hr href).2.trans_lt hlt
      · exact .inr (Replay.mem_pending.mpr (.inr ⟨hkept, hlt, hm⟩))
  have howed : ∀ e ∈ s.pushed, since < e.seq → sub.matches e = true →
      e ∈ s.sent.drop s₀.sent.length ∨ ∃ r ∈ s.replays, r.sub.ref = s₀.nextRef ∧
        e ∈ r.pending ((s.buffer ++ [s.stamp draft]).rtake s.maxBufferSize) := by
    intro e he hlt hm
    rcases h.owed e he hlt hm with he | ⟨r, hr, href, he⟩
    · exact .inl he
    · exact (hpending r hr href e he).imp_right fun he => ⟨r, hr, href, he⟩
  simp only [Delivery.push]
  split
  · refine ⟨?_, fun e he hlt hm => ?_, by simpa using h.waiting, by simpa using h.installed⟩
    · rw [Delivery.sent_sendJson]
      exact h.base.trans (List.prefix_append _ _)
    · rw [Delivery.pushed_sendJson] at he
      simp only [Delivery.sent_sendJson, Delivery.replays_sendJson, Delivery.buffer_sendJson,
        mem_drop_concat h.base]
      rcases List.mem_append.mp he with he | he
      · exact (howed e he hlt hm).imp_left .inl
      · exact .inl (.inr (List.mem_singleton.mp he))
  · next hlive =>
    refine ⟨h.base, fun e he hlt hm => ?_, h.waiting, h.installed⟩
    rcases List.mem_append.mp he with he | he
    · exact howed e he hlt hm
    · -- the subscription is not active, so the call waits
      obtain rfl := List.mem_singleton.mp he
      obtain ⟨x, hx, -, -, hxm, hactive | ⟨r, hr, href⟩⟩ := h.installed
      · refine absurd (List.find?_isSome.mpr ⟨x, hx, ?_⟩) hlive
        rw [hactive, hxm, hm]
        rfl
      · refine .inr ⟨r, hr, href, Replay.mem_pending.mpr (.inr ⟨hnew, ?_, ?_⟩)⟩
        · exact Nat.lt_succ_of_le (hs.replays r hr).snapshot_le
        · rw [(h.waiting r hr href).1]
          exact hm

/-- The call goes on after a send. -/
theorem resume (h : Resuming s₀ sub since s) (hs : s.Sound) {i : ℕ}
    (hstep : s.resume i o = some s') : Resuming s₀ sub since s' := by
  obtain ⟨r, hr, hi, hcases⟩ := Delivery.resume_cases hstep
  have hsound := hs.replays r hr
  rcases eq_or_ne r.sub.ref s₀.nextRef with href | hne
  · obtain ⟨hsub, hseq⟩ := h.waiting r hr href
    have hnone : ∀ x ∈ s.replays.eraseIdx i, x.sub.ref ≠ s₀.nextRef := fun x hx =>
      href ▸ hs.ne_of_mem_eraseIdx hi hx
    have hinst : ∃ x ∈ s.subscriptions, x.id = sub.id ∧ x.ref = s₀.nextRef ∧
        ∀ e, x.matches e = sub.matches e := by
      obtain ⟨x, hx, hid, hxref, hm, -⟩ := h.installed
      exact ⟨x, hx, hid, hxref, hm⟩
    -- only this call owes anything
    have howed : ∀ e ∈ s.pushed, since < e.seq → sub.matches e = true →
        e ∈ s.sent.drop s₀.sent.length ∨ e ∈ r.pending s.buffer := by
      intro e he hlt hm
      refine (h.owed e he hlt hm).imp_right fun ⟨x, hx, hxref, he⟩ => ?_
      obtain rfl := List.inj_on_of_nodup_map hs.distinct hx hr (hxref.trans href.symm)
      exact he
    rcases hcases with ⟨e, rest, hrem, rfl⟩ | ⟨hrem, hlt, rfl⟩ | ⟨hrem, hle, rfl⟩
    · refine ⟨?_, fun x hx hlt hm => ?_, fun x hx hxref => ?_, ?_⟩
      · rw [Delivery.sent_sendJson]
        exact h.base.trans (List.prefix_append _ _)
      · rw [Delivery.pushed_sendJson] at hx
        simp only [Delivery.sent_sendJson, Delivery.buffer_sendJson, mem_drop_concat h.base]
        rcases howed x hx hlt hm with hx | hx
        · exact .inl (.inl hx)
        · rcases Replay.mem_pending.mp hx with hx | hx
          · rw [hrem] at hx
            rcases List.mem_cons.mp hx with rfl | hx
            · exact .inl (.inr rfl)
            · exact .inr ⟨_, List.mem_append_right _ (List.mem_singleton_self _), href,
                Replay.mem_pending.mpr (.inl hx)⟩
          · exact .inr ⟨_, List.mem_append_right _ (List.mem_singleton_self _), href,
              Replay.mem_pending.mpr (.inr hx)⟩
      · rcases List.mem_append.mp hx with hx | hx
        · exact absurd hxref (hnone x hx)
        · obtain rfl := List.mem_singleton.mp hx
          exact ⟨hsub, hseq⟩
      · obtain ⟨x, hx, hid, hxref, hm⟩ := hinst
        exact ⟨x, by simpa using hx, hid, hxref, hm, .inr ⟨_, List.mem_append_right _
          (List.mem_singleton_self _), href⟩⟩
    · rw [hsub]
      refine readBuffer (hs.erase i) h.base (fun e he hlt' hm => ?_) hnone
        (hseq.trans hsound.snapshot_le) hinst
      refine (howed e he hlt' hm).imp_right fun he => ?_
      rw [Replay.mem_pending, hrem] at he
      obtain ⟨hbuf, hsnap, -⟩ := he.resolve_left List.not_mem_nil
      have hcur := hsound.cursor_le
      exact ⟨hbuf, by omega⟩
    · rw [href]
      refine activate h.base (fun e he hlt hm => ?_) hnone hinst
      refine (howed e he hlt hm).resolve_right fun he => ?_
      rw [Replay.mem_pending, hrem] at he
      obtain ⟨hbuf, hsnap, -⟩ := he.resolve_left List.not_mem_nil
      exact absurd ((hs.buffer_le hbuf).trans hle) (not_le.mpr hsnap)
  · have herase : Resuming s₀ sub since { s with replays := s.replays.eraseIdx i } := by
      refine h.frame rfl rfl (List.prefix_refl _) (fun x hx => ⟨List.mem_of_mem_eraseIdx, ?_⟩)
        fun x hx _ _ => hx
      exact fun hmem => Delivery.Sound.mem_eraseIdx_of_ne hi hmem (hx ▸ hne.symm)
    rcases hcases with ⟨e, rest, -, rfl⟩ | ⟨-, -, rfl⟩ | ⟨-, -, rfl⟩
    · exact herase.send_other (r := { r with remaining := rest }) hne e
    · exact herase.readBuffer_other hne r.cursor s.nextSeq
    · exact herase.activate_other hne

/-- A call for another id. -/
theorem subscribe (h : Resuming s₀ sub since s) (hs : s.Sound) {other : Subscription}
    (hid : other.id ≠ sub.id) (since' : Option ℤ) :
    Resuming s₀ sub since (s.subscribe other since' o) := by
  unfold Delivery.subscribe
  split
  · exact h
  · have hne : s.nextRef ≠ s₀.nextRef := by
      obtain ⟨x, hx, -, href, -⟩ := h.installed
      exact href ▸ (hs.refs x hx).ne'
    have hinstall : Resuming s₀ sub since
        { s.setSubscription (s.newSubscription other) with nextRef := s.nextRef + 1 } := by
      unfold Delivery.setSubscription
      split
      · refine h.frame rfl rfl (List.prefix_refl _) (fun _ _ => Iff.rfl) fun x hx hxid _ => ?_
        exact List.mem_map.mpr ⟨x, hx, if_neg fun heq => hid (heq.symm.trans hxid)⟩
      · exact h.frame rfl rfl (List.prefix_refl _) (fun _ _ => Iff.rfl)
          fun x hx _ _ => List.mem_append_left _ hx
    exact hinstall.readBuffer_other hne _ _

theorem step {a : DeliveryAction} (h : Resuming s₀ sub since s) (h₀ : s₀.Sound) (hs : s.Sound)
    (hkeep : KeepsOwed sub.id s₀.nextRef s a) (hstep : delivery.step s a = some s') :
    Resuming s₀ sub since s' := by
  cases a with
  | push draft o =>
    cases hstep
    exact h.push h₀ hs hkeep
  | subscribe other since' o =>
    cases hstep
    exact h.subscribe hs hkeep since'
  | resume i o => exact h.resume hs hstep
  | unsubscribe id =>
    cases hstep
    refine h.frame rfl rfl (List.prefix_refl _) (fun _ _ => Iff.rfl) fun x hx hxid _ => ?_
    exact List.mem_filter.mpr ⟨hx, decide_eq_true fun heq => hkeep (heq.symm.trans hxid)⟩

end Resuming

/-- A call with a cursor in any state that a session reaches either raises `ResumeGap`
and changes nothing, or skips nothing, in every run after it that evicts nothing that the
call has yet to read. -/
theorem nothingSkipped_of_reachable {s₀ : Delivery} (h₀ : delivery.Reachable Machine.free s₀)
    (sub : Subscription) (since : ℤ) (o : SendOutcome) :
    (s₀.gap (some since) = true ∧ s₀.subscribe sub (some since) o = s₀) ∨
      ∀ s, (deliveryFrom (s₀.subscribe sub (some since) o)).Reachable
        (KeepsOwed sub.id s₀.nextRef) s → NothingSkipped s₀ sub since s := by
  have hs₀ := sound_of_reachable h₀
  rcases Decidable.em (s₀.gap (some since) = true) with hgap | hgap
  · exact .inl ⟨hgap, if_pos hgap⟩
  · refine .inr fun s hs => ?_
    have hboth : s.Sound ∧ Resuming s₀ sub since s := by
      refine Machine.Reachable.invariant (I := fun t => t.Sound ∧ Resuming s₀ sub since t)
        (fun t ht => ?_) (fun t a t' _ ⟨hsound, hI⟩ hkeep hstep => ?_) hs
      · subst ht
        exact ⟨hs₀.subscribe sub (some since) o, .of_subscribe hs₀ hgap⟩
      · exact ⟨hsound.step hstep, hI.step hs₀ hsound hkeep hstep⟩
    exact hboth.2.nothingSkipped

/-- A replay of two events, while a third arrives. -/
theorem nothingSkipped_values :
    let s₀ := ((valuesSession 5 []).push valuesEvent .written).push valuesEvent .written
    ∃ s, (deliveryFrom (s₀.subscribe (valuesSubscription "a") (some 0) .written)).Reachable
        (KeepsOwed "a" 1) s ∧ s.replays = [] ∧ s.pushed.length = 3 ∧
      NothingSkipped s₀ (valuesSubscription "a") 0 s := by
  intro s₀
  have h₀ : delivery.Reachable Machine.free s₀ :=
    .step (.step (.init (valuesSession_starts (show 0 < 5 by decide) []))
      (a := .push valuesEvent .written) trivial rfl) (a := .push valuesEvent .written) trivial rfl
  obtain ⟨s, h, hs⟩ := (deliveryFrom (s₀.subscribe (valuesSubscription "a") (some 0)
      .written)).exists_reachable (KeepsOwed "a" 1) rfl
    [.push valuesEvent .written, .resume 0 .written, .resume 0 .written, .resume 0 .written]
    (fun s => s.replays = [] ∧ s.pushed.length = 3) (by decide +kernel)
  obtain ⟨hdone, hlength⟩ := of_decide_eq_true hs
  have hgap : ¬ (s₀.gap (some 0) = true ∧
      s₀.subscribe (valuesSubscription "a") (some 0) .written = s₀) := by decide +kernel
  refine ⟨s, h, hdone, hlength, ?_⟩
  exact (nothingSkipped_of_reachable h₀ (valuesSubscription "a") 0 .written).resolve_left hgap s h

/-- A step that a replay may see while it awaits a send. -/
def IsPushOrResume (_ : Delivery) : DeliveryAction → Prop
  | .push _ _ | .resume _ _ => True
  | .subscribe _ _ _ | .unsubscribe _ => False

instance (s : Delivery) : DecidablePred (IsPushOrResume s)
  | .push .. | .resume .. => inferInstanceAs (Decidable True)
  | .subscribe .. | .unsubscribe _ => inferInstanceAs (Decidable False)

/-- A buffer of one event: of two events that arrive while the replay sends, the first is
evicted before the replay reads again. -/
theorem not_nothingSkipped :
    ∃ s₀, delivery.Reachable Machine.free s₀ ∧ s₀.gap (some 0) = false ∧
      ∃ s, (deliveryFrom (s₀.subscribe (valuesSubscription "a") (some 0) .written)).Reachable
          IsPushOrResume s ∧
        ¬ NothingSkipped s₀ (valuesSubscription "a") 0 s := by
  have hpushed : delivery.Reachable Machine.free
      ((valuesSession 1 []).push valuesEvent .written) :=
    .step (.init (valuesSession_starts (show 0 < 1 by decide) []))
      (a := .push valuesEvent .written) trivial rfl
  obtain ⟨s, h, hs⟩ := (deliveryFrom (((valuesSession 1 []).push valuesEvent .written).subscribe
      (valuesSubscription "a") (some 0) .written)).exists_reachable IsPushOrResume rfl
    [.push valuesEvent .written, .push valuesEvent .written, .resume 0 .written,
      .resume 0 .written]
    (fun s => s.replays = [] ∧ ∃ e ∈ s.pushed, e.seq = 2 ∧ e.method = "values" ∧ e ∉ s.sent)
    (by decide +kernel)
  obtain ⟨hdone, e, he, hseq, hmethod, hsent⟩ := of_decide_eq_true hs
  refine ⟨_, hpushed, by decide +kernel, s, h, fun hall => hsent ?_⟩
  have hm : (valuesSubscription "a").matches e = true := by
    simp [Subscription.matches, valuesSubscription, hmethod, isSupportedChannel,
      supportedChannels]
  have hall := hall (by simp [hdone]) e he (by omega) hm
  exact List.mem_of_mem_drop hall

end NextRole
