import NextRole.ExclusiveClaims
import NextRole.Servicers.Control

/-!
# Cancels are not lost

A cancel that races with the claim of its run either finds the row pending, and then no
claim returns the run, or the worker that got the run learns of the cancel from the key
or from the channel.  The key is there for 60 seconds only: a stream that subscribes
after the message and looks at the key after that time waits for ever.

## Main definitions

* `Timely` — a stream subscribed before a message or looked at the key in time.
* `StartedInTime` — a stream subscribed while the key was there.
* `Yields` — a stream yields one event and returns.
* `NotLost` — a run is never returned, or the streams opened for it yield the action.

## Main results

* `yields_iff_timely` — the streams that yield the action are the timely ones.
* `notLost_of_done` — **a cancel that has returned is not lost on timely streams**.
* `not_notLost` — a stream that is started in time and waits for ever.
* `cancel_alone` — with nothing next to it a cancel is `cancel`.
-/

namespace NextRole

open ReadCommitted

/-! ### The rows -/

/-- The calls of this race. -/
def Rpc.claimsOrCancels : Rpc → Bool
  | .next .. | .cancelRuns .. => true
  | _ => false

/-- The guard that only these calls are made. -/
def ClaimsAndCancels (_ : ServiceState) : Action Rpc → Prop
  | .begin _ rpc => rpc.claimsOrCancels = true
  | _ => True

/-- No run becomes pending. -/
def PendingBefore (d d' : Database) : Prop := ∀ r ∈ d'.run, r.status = .pending → r ∈ d.run

section

variable {init : Database → Prop} {s : ServiceState}

theorem claimsOrCancels_of_reachable (hs : (services init).Reachable ClaimsAndCancels s) :
    ∀ t ∈ s.txns, t.rpc.claimsOrCancels = true :=
  rpc_of_reachable (fun s i rpc (h : ClaimsAndCancels s (.begin i rpc)) => h) hs

theorem pendingBefore_commit (hs : (services init).Reachable ClaimsAndCancels s)
    {t : Txn Rpc Database RowKey} (ht : t ∈ s.txns) :
    PendingBefore s.db (applyAll s.db (t.writes statements)) := by
  intro r hr hpending
  rcases run_of_applyAll hr with hput | ⟨-, hold⟩
  · obtain ⟨ρ, rest, -, -, hwrite⟩ := Txn.runWrite hput
    have hrpc := claimsOrCancels_of_reachable hs t ht
    generalize t.rpc = rpc at hwrite hrpc
    cases hwrite with
    | next => cases hpending
    | cancelRuns => cases hpending
    | _ => cases hrpc
  · exact hold

theorem pendingBefore_of_reachable (hs : (services init).Reachable ClaimsAndCancels s) :
    History PendingBefore s :=
  history_of_reachable (fun _ _ hr _ => hr)
    (fun _ _ _ hab hbc r hr hpending => hab r (hbc r hr hpending) hpending)
    (fun _ hs' _ ht _ _ => pendingBefore_commit hs' ht) hs

/-- After the write of a cancel none of its runs is pending: one that is, was pending all
the time, so the write has found it. -/
theorem not_pending_of_cancelRuns (hs : (services init).Reachable ClaimsAndCancels s)
    {t : Txn Rpc Database RowKey} (ht : t ∈ s.txns) (hc : t.complete statements = true)
    {runIds : List Uuid} {action : CancelRunAction} {now : Timestamp}
    (hrpc : t.rpc = .cancelRuns runIds action now) {r : Run}
    (hr : r ∈ (applyAll s.db (t.writes statements)).run) (hid : r.runId ∈ runIds) :
    r.status ≠ .pending := by
  intro hpending
  have hq : statements t.rpc = [cancelRuns runIds action now] := by
    rw [hrpc]
    rfl
  rcases run_of_applyAll hr with hput | ⟨hnot, hold⟩
  · obtain ⟨ρ, rest, -, -, hwrite⟩ := Txn.runWrite hput
    rw [hrpc] at hwrite
    cases hwrite
    cases hpending
  · obtain ⟨ρ, hdone⟩ : ∃ ρ, t.done = [ρ] := by
      rw [ReadCommitted.Txn.complete, hq] at hc
      exact List.length_eq_one_iff.mp (by simpa using hc)
    obtain ⟨hsnap, hcur⟩ := (pendingBefore_of_reachable hs t ht).2 ρ (hdone ▸ List.mem_singleton_self ρ)
    -- the row satisfies the condition both in the snapshot and when the write finished
    have hmem : r ∈ runTable.rechecked (fun _ r => r.runId ∈ runIds && r.status = .pending)
        ρ.snap ρ.cur := by
      have hread := hcur r hold hpending
      exact Relation.mem_rechecked.mpr
        ⟨hread, by simp [hid, hpending], r, hsnap r hread hpending, by simp [hid, hpending], rfl⟩
    refine hnot ?_
    rw [Txn.writes_single statements hq hdone]
    cases action with
    | rollback => exact List.mem_map.mpr ⟨_, Relation.mem_delete.mpr ⟨r, hmem, rfl⟩, rfl⟩
    | interrupt => exact List.mem_map.mpr ⟨_, Relation.mem_update.mpr ⟨r, hmem, rfl⟩, rfl⟩

end

/-! ### Which streams learn of the cancel -/

/-- A stream has been sent a message since it subscribed, or it has looked at the key
before the 60 seconds of the key were over. -/
def Timely (s : ControlState) (e : EnterStream) : Prop :=
  s.messages e ≠ [] ∨
    ∃ t, e.readAt = some t ∧ ∀ k, s.keys e.channel = some k → k.alive t = true

/-- A stream has subscribed before the 60 seconds of the key were over. -/
def StartedInTime (s : ControlState) (e : EnterStream) : Prop :=
  ∀ k, s.keys e.channel = some k → k.alive e.subscribedAt = true

/-- Stream `j` has returned after it yielded this one event, or it does so when it takes
the message that it has been sent. -/
def Yields (request : CancelRunRequest) (s : ControlState) (j : ℕ) (action : CancelRunAction) :
    Prop :=
  ∃ s' e, (s' = s ∨ controlStep request s (.message j) = some s') ∧ s'.streams[j]? = some e ∧
    e.phase = .returned ∧ e.yielded = [action]

/-- From the state `s` on, no claim returns the run and none has, or every stream opened
for it that is `Counted` yields the action, once it has looked at the key. -/
def NotLost (request : CancelRunRequest) (d : Database)
    (Counted : ControlState → EnterStream → Prop) (s : ControlState) (runId : Uuid) : Prop :=
  (∀ as s', (control request d).run s as = some s' → ∀ r ∈ s'.returned, r.runId ≠ runId) ∨
    ∀ as s', (control request d).run s as = some s' → ∀ j e, s'.streams[j]? = some e →
      e.runId = runId → e.phase ≠ .subscribed → Counted s' e → Yields request s' j request.action

/-! ### The rows in the race -/

section

variable {request : CancelRunRequest} {d : Database} {s s' : ControlState}

/-- What is true of the database and of the runs that are returned. -/
structure CancelRows (d : Database) (s : ControlState) : Prop where
  reachable : (services (· = d)).Reachable ClaimsAndCancels s.service
  cancelling : ∀ t ∈ s.service.txns, ∀ runIds action now, t.rpc = .cancelRuns runIds action now →
    ∃ targets, (s.cancel = .writing targets ∨ s.cancel = .done targets) ∧
      runIds = targets.map Prod.snd
  /-- When the cancel has returned, its runs are not pending. -/
  settled : ∀ targets, s.cancel = .done targets → ∀ r ∈ s.service.db.run,
    r.runId ∈ targets.map Prod.snd → r.status ≠ .pending
  known : ∀ r ∈ s.returned, ∃ r₀ ∈ d.run, r₀.runId = r.runId ∧ r₀.threadId = r.threadId

theorem CancelRows.congr (h : CancelRows d s) (hservice : s'.service = s.service)
    (hcancel : s'.cancel = s.cancel) (hreturned : s'.returned = s.returned) : CancelRows d s' := by
  obtain ⟨service, clock, keys, published, cancel, returned, streams⟩ := s'
  cases hservice
  cases hcancel
  cases hreturned
  exact ⟨h.reachable, h.cancelling, h.settled, h.known⟩

theorem CancelRows.phase (h : CancelRows d s) (hbefore : ∀ targets, s.cancel ≠ .writing targets ∧
    s.cancel ≠ .done targets) (phase : CancelPhase)
    (hafter : ∀ targets, phase = .done targets → targets = []) :
    CancelRows d { s with cancel := phase } := by
  refine ⟨h.reachable, fun t ht runIds action now hrpc => ?_, fun targets hdone r hr hid => ?_,
    h.known⟩
  · obtain ⟨targets, hcancel | hcancel, -⟩ := h.cancelling t ht runIds action now hrpc
    · exact absurd hcancel (hbefore targets).1
    · exact absurd hcancel (hbefore targets).2
  · rw [hafter targets hdone] at hid
    exact absurd hid List.not_mem_nil

theorem CancelRows.pending (h : CancelRows d s) : PendingBefore d s.service.db := by
  refine db_of_reachable (fun d' hd => ?_) (fun u hu hI t ht _ _ r hr hpending => ?_) h.reachable
  · subst hd
    exact fun r hr _ => hr
  · exact hI r (pendingBefore_commit hu ht r hr hpending) hpending

/-- A step that does not commit changes no row, and begins claims only. -/
theorem call_of_call? {a : ControlAction} {b : Action Rpc} (hb : a.call? = some b)
    {u u' : ServiceState} (hs : step statements u b = some u') :
    u'.db = u.db ∧ ClaimsAndCancels u b ∧
      ∀ t ∈ u'.txns, (∃ t₀ ∈ u.txns, t₀.rpc = t.rpc) ∨ ∃ limit now tie, t.rpc = .next limit now tie := by
  have herase : ∀ i, ∀ t ∈ u.txns.erase i, (∃ t₀ ∈ u.txns, t₀.rpc = t.rpc) ∨
      ∃ limit now tie, t.rpc = .next limit now tie :=
    fun i t ht => Or.inl ⟨t, (Table.mem_erase.mp ht).1, rfl⟩
  have hput : ∀ t₀ ∈ u.txns, ∀ t₁ : Txn Rpc Database RowKey, t₁.rpc = t₀.rpc →
      ∀ t ∈ u.txns.put t₁, (∃ t₀ ∈ u.txns, t₀.rpc = t.rpc) ∨
        ∃ limit now tie, t.rpc = .next limit now tie := by
    intro t₀ ht₀ t₁ hrpc t ht
    rcases Table.mem_put.mp ht with rfl | ⟨ht, -⟩
    · exact Or.inl ⟨t₀, ht₀, hrpc.symm⟩
    · exact Or.inl ⟨t, ht, rfl⟩
  cases step_sound statements hs with
  | @begin i rpc hi =>
    cases a with
    | next i limit now tie =>
      cases hb
      refine ⟨rfl, rfl, fun t ht => ?_⟩
      rcases Table.mem_put.mp ht with rfl | ⟨ht, -⟩
      · exact Or.inr ⟨limit, now, tie, rfl⟩
      · exact Or.inl ⟨t, ht, rfl⟩
    | _ => cases hb
  | @snapshot t₀ ht₀ hn => exact ⟨rfl, trivial, hput t₀ ht₀ _ rfl⟩
  | @exec t₀ σ q ws ht₀ hσ hq hws hfree => exact ⟨rfl, trivial, hput t₀ ht₀ _ rfl⟩
  | fail ht => exact ⟨rfl, trivial, herase _⟩
  | commit ht hc => cases a <;> cases hb
  | abort => exact ⟨rfl, trivial, herase _⟩

theorem CancelPhase.commit_eq_done {phase : CancelPhase} {rpc : Rpc} {targets : List (Uuid × Uuid)}
    (h : phase.commit rpc = .done targets) : phase = .done targets ∨
      phase = .writing targets ∧ ∃ runIds action now, rpc = .cancelRuns runIds action now := by
  unfold commit at h
  split at h
  · cases h
    exact Or.inr ⟨rfl, _, _, _, rfl⟩
  · exact Or.inl h

theorem CancelPhase.commit_eq {phase phase' : CancelPhase} {rpc : Rpc}
    (h : phase.commit rpc = phase') (hne : ∀ targets, phase' ≠ .done targets) : phase = phase' := by
  unfold commit at h
  split at h
  · exact absurd h.symm (hne _)
  · exact h

theorem CancelRows.commit (h : CancelRows d s) {t : Txn Rpc Database RowKey} (ht : t ∈ s.service.txns)
    {service : ServiceState} (hs : step statements s.service (.commit t.id) = some service) :
    CancelRows d { s with
      service := service, returned := s.returned ++ claimReply t
      cancel := s.cancel.commit t.rpc } := by
  have hreach : (services (· = d)).Reachable ClaimsAndCancels service :=
    h.reachable.step (a := .commit t.id) trivial hs
  have hcommit : Step statements s.service (.commit t.id) service := step_sound statements hs
  generalize hid : t.id = i at hcommit
  cases hcommit with
  | @commit u hu hc =>
    obtain rfl := Table.eq_of_key ht hu hid
    refine ⟨hreach, fun u hu runIds action now hrpc => ?_, fun targets hdone r hr hmem => ?_,
      fun r hr => ?_⟩
    · obtain ⟨targets, hcancel, hids⟩ :=
        h.cancelling u (Table.mem_erase.mp hu).1 runIds action now hrpc
      -- another transaction of the cancel would find the same targets
      refine ⟨targets, ?_, hids⟩
      rcases hcancel with hcancel | hcancel
      · show s.cancel.commit t.rpc = _ ∨ s.cancel.commit t.rpc = _
        rw [hcancel]
        cases t.rpc <;> simp [CancelPhase.commit]
      · show s.cancel.commit t.rpc = _ ∨ s.cancel.commit t.rpc = _
        rw [hcancel]
        exact Or.inr rfl
    · rcases CancelPhase.commit_eq_done hdone with hdone | ⟨hwriting, runIds, action, now, hrpc⟩
      · intro hpending
        exact h.settled targets hdone r (pendingBefore_commit h.reachable ht r hr hpending) hmem
          hpending
      · obtain ⟨targets', hcancel, rfl⟩ := h.cancelling t ht runIds action now hrpc
        obtain rfl : targets = targets' := by simpa [hwriting] using hcancel
        exact not_pending_of_cancelRuns h.reachable ht hc hrpc hr hmem
    · rcases List.mem_append.mp hr with hold | hnew
      · exact h.known r hold
      · obtain ⟨-, r₀, hr₀, hpending, now, rfl⟩ := pending_of_mem_claimReply h.reachable ht hnew
        exact ⟨r₀, h.pending r₀ hr₀ hpending, rfl, rfl⟩

theorem CancelRows.step (h : CancelRows d s) {a : ControlAction} (hs : ControlStep request s a s') :
    CancelRows d s' := by
  cases hs with
  | tick hle => exact h.congr rfl rfl rfl
  | select hcancel => exact h.phase (by simp [hcancel]) _ (by simp)
  | gate hcancel hkept => exact h.phase (by simp [hcancel]) _ (by simp)
  | set hcancel => exact (h.phase (by simp [hcancel]) _ (by simp)).congr rfl rfl rfl
  | publish hcancel => exact (h.phase (by simp [hcancel]) _ (by simp)).congr rfl rfl rfl
  | skip hcancel => exact h.phase (by simp [hcancel]) _ (by simp)
  | @write i now targets service hcancel hs =>
    have hphase := h.phase (by simp [hcancel]) (.writing targets) (by simp)
    have hreach : (services (· = d)).Reachable ClaimsAndCancels service :=
      h.reachable.step (a := .begin i (.cancelRuns (targets.map Prod.snd) request.action now)) rfl hs
    cases step_sound statements hs with
    | begin hi =>
      refine ⟨hreach, fun t ht runIds action now' hrpc => ?_, hphase.settled, hphase.known⟩
      rcases Table.mem_put.mp ht with rfl | ⟨ht, -⟩
      · cases hrpc
        exact ⟨targets, Or.inl rfl, rfl⟩
      · exact hphase.cancelling t ht runIds action now' hrpc
  | @call a b service hb hs =>
    obtain ⟨hdb, hOk, htxns⟩ := call_of_call? hb hs
    refine ⟨h.reachable.step hOk hs, fun t ht runIds action now hrpc => ?_,
      fun targets hdone r hr => ?_, h.known⟩
    · rcases htxns t ht with ⟨t₀, ht₀, heq⟩ | ⟨limit, now', tie, heq⟩
      · exact h.cancelling t₀ ht₀ runIds action now (heq.trans hrpc)
      · rw [heq] at hrpc
        cases hrpc
    · exact h.settled targets hdone r (hdb ▸ hr)
  | commit ht hs => exact h.commit ht hs
  | enter hmem => exact h.congr rfl rfl rfl
  | get he hphase => exact h.congr rfl rfl rfl
  | message he hphase hmessage => exact h.congr rfl rfl rfl

theorem rows_of_reachable (h : (control request d).Reachable Machine.free s) : CancelRows d s := by
  refine h.invariant (fun s hs => ?_) fun s a s' _ hI _ hs => hI.step (controlStep_sound hs)
  rw [show s = _ from hs]
  refine ⟨.init ⟨rfl, rfl⟩, fun t ht => ?_, nofun, nofun⟩
  exact absurd ht (Table.not_mem_empty t)

/-! ### The keys and the messages -/

/-- The key of a channel is set and its message is next. -/
def Publishing (s : ControlState) (channel : Uuid × Uuid) : Prop :=
  ∃ targets signal ops, s.cancel = .sending targets (.publish signal :: ops) ∧
    signal.channel = channel

/-- What is true of an open stream. -/
structure StreamOk (request : CancelRunRequest) (s : ControlState) (e : EnterStream) : Prop where
  since : e.since ≤ s.published.length
  ofRun : ∃ r ∈ s.returned, r.threadId = e.threadId ∧ r.runId = e.runId
  past : ∀ t, e.readAt = some t → t ≤ s.clock
  subscribed : e.phase = .subscribed → e.yielded = []
  /-- A stream that waits has a message or gets one, or was too late at the key. -/
  listening : e.phase = .listening → e.yielded = [] ∧ (s.messages e ≠ [] ∨
    Publishing s e.channel ∨ ∃ t, e.readAt = some t ∧
      ∀ k, s.keys e.channel = some k → k.alive t = false)
  returned : e.phase = .returned → e.yielded = [request.action] ∧ Timely s e

/-- What is true of the keys, the messages and the streams. -/
structure Signals (request : CancelRunRequest) (s : ControlState) : Prop where
  sent : ∀ signal ∈ s.published, signal.action = request.action
  keyed : ∀ c k, s.keys c = some k → k.value = request.action
  /-- The calls that are left are those for the rest of the targets, perhaps after the
  message of a target whose key is set. -/
  sending : ∀ targets ops, s.cancel = .sending targets ops →
    ∃ past rest, controlSignals targets request.action = past ++ rest ∧
      (∀ signal ∈ past, s.keys signal.channel ≠ none) ∧
        (ops = cancelOps rest ∨ ∃ signal ∈ past, ops = .publish signal :: cancelOps rest)
  finished : ∀ targets, s.cancel = .writing targets ∨ s.cancel = .done targets →
    ∀ target ∈ targets, s.keys target ≠ none
  streams : ∀ e ∈ s.streams, StreamOk request s e

theorem action_of_mem_controlSignals {targets : List (Uuid × Uuid)} {action : CancelRunAction}
    {signal : ControlSignal} (h : signal ∈ controlSignals targets action) :
    signal.action = action := by
  obtain ⟨target, -, rfl⟩ := List.mem_map.mp h
  rfl

theorem messages_mono {e : EnterStream} (hpub : s.published <+: s'.published)
    (h : s.messages e ≠ []) : s'.messages e ≠ [] := by
  obtain ⟨more, hpub⟩ := hpub
  unfold ControlState.messages at h ⊢
  rw [← hpub, List.drop_append, List.filter_append, List.map_append]
  simp only [ne_eq, List.append_eq_nil_iff, not_and]
  exact fun hnil => absurd hnil h

theorem messages_publish {e : EnterStream} (h : e.since ≤ s.published.length)
    {signal : ControlSignal} (hchannel : signal.channel = e.channel)
    (hpub : s'.published = s.published ++ [signal]) : s'.messages e ≠ [] := by
  unfold ControlState.messages
  rw [hpub, List.drop_append_of_le_length h, List.filter_append, List.map_append]
  simp [hchannel]

theorem Timely.mono {e : EnterStream} (h : Timely s e) (hpub : s.published <+: s'.published)
    (hkeys : s'.keys = s.keys) : Timely s' e := by
  rcases h with hmessage | ⟨t, hread, halive⟩
  · exact Or.inl (messages_mono hpub hmessage)
  · exact Or.inr ⟨t, hread, hkeys ▸ halive⟩

/-- Steps that set no key keep what is true of a stream. -/
theorem StreamOk.mono {e : EnterStream} (h : StreamOk request s e) (hclock : s.clock ≤ s'.clock)
    (hpub : s.published <+: s'.published) (hkeys : s'.keys = s.keys)
    (hreturned : s.returned ⊆ s'.returned)
    (hnext : Publishing s e.channel → Publishing s' e.channel ∨ s'.messages e ≠ []) :
    StreamOk request s' e := by
  refine ⟨h.since.trans hpub.length_le, ?_, fun t ht => (h.past t ht).trans hclock, h.subscribed,
    fun hphase => ⟨(h.listening hphase).1, ?_⟩,
    fun hphase => ⟨(h.returned hphase).1, (h.returned hphase).2.mono hpub hkeys⟩⟩
  · obtain ⟨r, hr, hr'⟩ := h.ofRun
    exact ⟨r, hreturned hr, hr'⟩
  · rw [hkeys]
    rcases (h.listening hphase).2 with hmessage | hpublishing | hlate
    · exact Or.inl (messages_mono hpub hmessage)
    · rcases hnext hpublishing with hstill | hmessage
      · exact Or.inr (Or.inl hstill)
      · exact Or.inl hmessage
    · exact Or.inr (Or.inr hlate)

/-- Steps of other parties keep what is true of the keys, messages and streams. -/
theorem Signals.congr (h : Signals request s) (hclock : s.clock ≤ s'.clock)
    (hpub : s'.published = s.published) (hkeys : s'.keys = s.keys) (hcancel : s'.cancel = s.cancel)
    (hreturned : s.returned ⊆ s'.returned) (hstreams : s'.streams = s.streams) :
    Signals request s' := by
  refine ⟨hpub ▸ h.sent, hkeys ▸ h.keyed, ?_, ?_, fun e he => ?_⟩
  · rw [hcancel, hkeys]
    exact h.sending
  · rw [hcancel, hkeys]
    exact h.finished
  · refine (h.streams e (hstreams ▸ he)).mono hclock (hpub ▸ List.prefix_refl _) hkeys hreturned ?_
    rintro ⟨targets, signal, ops, hsending, hchannel⟩
    exact Or.inl ⟨targets, signal, ops, hcancel.trans hsending, hchannel⟩

/-- A change of the phase by which no message is next and none is sent. -/
theorem Signals.phase (h : Signals request s) (phase : CancelPhase)
    (hnot : ∀ targets signal ops, s.cancel ≠ .sending targets (.publish signal :: ops))
    (hsending : ∀ targets ops, phase = .sending targets ops →
      ops = cancelOps (controlSignals targets request.action))
    (hfinished : ∀ targets, phase = .writing targets ∨ phase = .done targets →
      ∀ target ∈ targets, s.keys target ≠ none) :
    Signals request { s with cancel := phase } := by
  refine ⟨h.sent, h.keyed, fun targets ops hphase => ?_, hfinished, fun e he => ?_⟩
  · exact ⟨[], _, rfl, by simp, Or.inl (hsending targets ops hphase)⟩
  · refine (h.streams e he).mono le_rfl (List.prefix_refl _) rfl (List.Subset.refl _) ?_
    rintro ⟨targets, signal, ops, hcancel, -⟩
    exact absurd hcancel (hnot targets signal ops)

theorem Signals.keys_of_sent (h : Signals request s) {targets : List (Uuid × Uuid)}
    (hcancel : s.cancel = .sending targets []) : ∀ target ∈ targets, s.keys target ≠ none := by
  obtain ⟨past, rest, hsignals, hkeys, hops | ⟨signal, -, hops⟩⟩ := h.sending targets [] hcancel
  · have hrest : rest = [] := by
      cases rest with
      | nil => rfl
      | cons signal rest => simp [cancelOps] at hops
    intro target htarget
    rw [hrest, List.append_nil] at hsignals
    exact hkeys ⟨target.1, target.2, request.action⟩ (hsignals ▸ List.mem_map_of_mem htarget)
  · cases hops

/-- The state after the key of a signal is set, with its message next. -/
def ControlState.setKey (s : ControlState) (targets : List (Uuid × Uuid)) (signal : ControlSignal)
    (ops : List CancelOp) : ControlState :=
  { s with
    keys := Function.update s.keys signal.channel (some (controlKey s.clock signal.action))
    cancel := .sending targets (.publish signal :: ops) }

@[simp] theorem setKey_keys_self (targets : List (Uuid × Uuid)) (signal : ControlSignal)
    (ops : List CancelOp) : (s.setKey targets signal ops).keys signal.channel =
      some (controlKey s.clock signal.action) :=
  Function.update_self _ _ _

theorem setKey_keys_of_ne (targets : List (Uuid × Uuid)) {signal : ControlSignal}
    (ops : List CancelOp) {c : Uuid × Uuid} (h : c ≠ signal.channel) :
    (s.setKey targets signal ops).keys c = s.keys c :=
  Function.update_of_ne h _ _

theorem alive_controlKey {now t : Timestamp} (action : CancelRunAction) (h : t ≤ now) :
    (controlKey now action).alive t = true :=
  decide_eq_true (lt_of_le_of_lt h (Int.lt_add_of_pos_right _ (by decide)))

theorem StreamOk.set {e : EnterStream} (h : StreamOk request s e) {targets : List (Uuid × Uuid)}
    {signal : ControlSignal} {ops : List CancelOp}
    (hcancel : s.cancel = .sending targets (.set signal :: .publish signal :: ops)) :
    StreamOk request (s.setKey targets signal ops) e := by
  refine ⟨h.since, h.ofRun, h.past, h.subscribed, fun hphase => ?_, fun hphase => ?_⟩
  · obtain ⟨hnone, hwait⟩ := h.listening hphase
    refine ⟨hnone, ?_⟩
    -- a stream on this channel gets the message next
    by_cases heq : e.channel = signal.channel
    · exact Or.inr (Or.inl ⟨targets, signal, _, rfl, heq.symm⟩)
    · rw [setKey_keys_of_ne targets ops heq]
      rcases hwait with hmessage | ⟨targets', signal', ops', hsending, -⟩ | hlate
      · exact Or.inl hmessage
      · rw [hcancel] at hsending
        cases hsending
      · exact Or.inr (Or.inr hlate)
  · obtain ⟨hyielded, hmessage | ⟨t, hread, halive⟩⟩ := h.returned hphase
    · exact ⟨hyielded, Or.inl hmessage⟩
    · refine ⟨hyielded, Or.inr ⟨t, hread, fun k hk => ?_⟩⟩
      -- on this channel the time of the key is put off
      by_cases heq : e.channel = signal.channel
      · rw [heq, setKey_keys_self] at hk
        cases hk
        exact alive_controlKey _ (h.past t hread)
      · rw [setKey_keys_of_ne targets ops heq] at hk
        exact halive k hk

theorem Signals.set (h : Signals request s) {targets : List (Uuid × Uuid)} {signal : ControlSignal}
    {ops : List CancelOp} (hcancel : s.cancel = .sending targets (.set signal :: ops)) :
    Signals request { s with
      keys := Function.update s.keys signal.channel (some (controlKey s.clock signal.action))
      cancel := .sending targets ops } := by
  obtain ⟨past, rest, hsignals, hkeys, hops⟩ := h.sending targets _ hcancel
  -- the message of the key that is set comes next
  obtain ⟨rest', rfl, rfl⟩ : ∃ rest', rest = signal :: rest' ∧ ops = .publish signal :: cancelOps rest' := by
    rcases hops with hops | ⟨signal', -, hops⟩
    · cases rest with
      | nil => cases hops
      | cons signal' rest' =>
        cases hops
        exact ⟨rest', rfl, rfl⟩
    · cases hops
  have haction : signal.action = request.action :=
    action_of_mem_controlSignals (hsignals ▸ List.mem_append_right _ List.mem_cons_self)
  show Signals request (s.setKey targets signal (cancelOps rest'))
  refine ⟨h.sent, fun c k hk => ?_, fun targets' ops' hphase => ?_, nofun,
    fun e he => (h.streams e he).set hcancel⟩
  · by_cases heq : c = signal.channel
    · rw [heq, setKey_keys_self] at hk
      cases hk
      exact haction
    · rw [setKey_keys_of_ne _ _ heq] at hk
      exact h.keyed c k hk
  · cases hphase
    refine ⟨past ++ [signal], rest', by simp [hsignals], fun signal' hmem => ?_,
      Or.inr ⟨signal, by simp, rfl⟩⟩
    by_cases heq : signal'.channel = signal.channel
    · simp [heq]
    · rw [setKey_keys_of_ne _ _ heq]
      rcases List.mem_append.mp hmem with hmem | hmem
      · exact hkeys signal' hmem
      · exact absurd (congrArg _ (List.mem_singleton.mp hmem)) heq

theorem Signals.publish (h : Signals request s) {targets : List (Uuid × Uuid)}
    {signal : ControlSignal} {ops : List CancelOp}
    (hcancel : s.cancel = .sending targets (.publish signal :: ops)) :
    Signals request
      { s with published := s.published ++ [signal], cancel := .sending targets ops } := by
  obtain ⟨past, rest, hsignals, hkeys, hops⟩ := h.sending targets _ hcancel
  obtain ⟨hmem, rfl⟩ : signal ∈ past ∧ ops = cancelOps rest := by
    rcases hops with hops | ⟨signal', hmem, hops⟩
    · cases rest <;> cases hops
    · cases hops
      exact ⟨hmem, rfl⟩
  have haction : signal.action = request.action :=
    action_of_mem_controlSignals (hsignals ▸ List.mem_append_left _ hmem)
  refine ⟨fun signal' hsent => ?_, h.keyed, fun targets' ops' hphase => ?_, nofun, fun e he => ?_⟩
  · rcases List.mem_append.mp hsent with hsent | hsent
    · exact h.sent signal' hsent
    · rw [List.mem_singleton.mp hsent, haction]
  · cases hphase
    exact ⟨past, rest, hsignals, hkeys, Or.inl rfl⟩
  · have hok := h.streams e he
    refine hok.mono le_rfl (List.prefix_append _ _) rfl (List.Subset.refl _) ?_
    rintro ⟨targets', signal', ops', hsending, hchannel⟩
    obtain rfl : signal = signal' := by
      rw [hcancel] at hsending
      cases hsending
      rfl
    exact Or.inr (messages_publish hok.since hchannel rfl)

theorem StreamOk.subscribe {r : Run} (hr : r ∈ s.returned) :
    StreamOk request s (subscribe s r) :=
  ⟨le_rfl, ⟨r, hr, rfl, rfl⟩, nofun, fun _ => rfl, nofun, nofun⟩

/-- A stream that finds the key returns with its value, and one that does not listens. -/
theorem StreamOk.get {e : EnterStream} (hs : Signals request s) (h : StreamOk request s e)
    (hphase : e.phase = .subscribed) :
    StreamOk request s (e.get s.clock (Expiring.read s.clock (s.keys e.channel))) := by
  have hnone := h.subscribed hphase
  cases hread : Expiring.read s.clock (s.keys e.channel) with
  | none =>
    refine ⟨h.since, h.ofRun, ?_, nofun, fun _ => ⟨hnone, Or.inr (Or.inr ?_)⟩, nofun⟩
    · rintro t ⟨⟩
      exact le_rfl
    · exact ⟨s.clock, rfl, Expiring.read_eq_none.mp hread⟩
  | some action =>
    obtain ⟨k, hk, halive, rfl⟩ := Expiring.read_eq_some.mp hread
    refine ⟨h.since, h.ofRun, ?_, nofun, nofun, fun _ => ⟨?_, Or.inr ⟨s.clock, rfl, fun k' hk' => ?_⟩⟩⟩
    · rintro t ⟨⟩
      exact le_rfl
    · show e.yielded ++ [k.value] = _
      rw [hnone, hs.keyed e.channel k hk, List.nil_append]
    · obtain rfl : k = k' := Option.some.inj (hk.symm.trans hk')
      exact halive

theorem Signals.action_of_mem (h : Signals request s) {e : EnterStream} {action : CancelRunAction}
    (hmem : action ∈ s.messages e) : action = request.action := by
  obtain ⟨signal, hsignal, rfl⟩ := List.mem_map.mp hmem
  exact h.sent signal (List.mem_of_mem_drop (List.mem_filter.mp hsignal).1)

theorem StreamOk.message {e : EnterStream} (hs : Signals request s) (h : StreamOk request s e)
    (hphase : e.phase = .listening) {action : CancelRunAction} {actions : List CancelRunAction}
    (hmessage : s.messages e = action :: actions) : StreamOk request s (e.finish action) := by
  refine ⟨h.since, h.ofRun, h.past, nofun, nofun, fun _ => ⟨?_, Or.inl ?_⟩⟩
  · show e.yielded ++ [action] = _
    have hmem : action ∈ s.messages e := hmessage ▸ List.mem_cons_self
    rw [(h.listening hphase).1, hs.action_of_mem hmem, List.nil_append]
  · show s.messages e ≠ []
    simp [hmessage]

theorem Signals.replace (h : Signals request s) (j : ℕ) {e : EnterStream}
    (he : StreamOk request s e) : Signals request (s.replace j e) := by
  refine ⟨h.sent, h.keyed, h.sending, h.finished, fun e' he' => ?_⟩
  have hok : StreamOk request s e' := by
    rcases List.mem_or_eq_of_mem_set he' with hold | rfl
    · exact h.streams e' hold
    · exact he
  exact ⟨hok.since, hok.ofRun, hok.past, hok.subscribed, hok.listening, hok.returned⟩

theorem Signals.enter (h : Signals request s) {r : Run} (hr : r ∈ s.returned) :
    Signals request { s with streams := s.streams ++ [NextRole.subscribe s r] } := by
  refine ⟨h.sent, h.keyed, h.sending, h.finished, fun e he => ?_⟩
  have hok : StreamOk request s e := by
    rcases List.mem_append.mp he with hold | hnew
    · exact h.streams e hold
    · rw [List.mem_singleton.mp hnew]
      exact .subscribe hr
  exact ⟨hok.since, hok.ofRun, hok.past, hok.subscribed, hok.listening, hok.returned⟩

theorem Signals.commit (h : Signals request s) (t : Txn Rpc Database RowKey)
    (service : ServiceState) : Signals request { s with
      service := service, returned := s.returned ++ claimReply t
      cancel := s.cancel.commit t.rpc } := by
  refine ⟨h.sent, h.keyed, fun targets ops hphase => h.sending targets ops ?_,
    fun targets hphase => h.finished targets ?_, fun e he => ?_⟩
  · exact CancelPhase.commit_eq hphase (by simp)
  · rcases hphase with hphase | hphase
    · exact Or.inl (CancelPhase.commit_eq hphase (by simp))
    · rcases CancelPhase.commit_eq_done hphase with hdone | ⟨hwriting, -⟩
      · exact Or.inr hdone
      · exact Or.inl hwriting
  · refine (h.streams e he).mono le_rfl (List.prefix_refl _) rfl (List.subset_append_left _ _) ?_
    rintro ⟨targets, signal, ops, hsending, hchannel⟩
    refine Or.inl ⟨targets, signal, ops, ?_, hchannel⟩
    show s.cancel.commit t.rpc = _
    rw [hsending]
    rfl

theorem Signals.step (h : Signals request s) {a : ControlAction} (hs : ControlStep request s a s') :
    Signals request s' := by
  cases hs with
  | tick hle => exact h.congr hle rfl rfl rfl (List.Subset.refl _) rfl
  | select hcancel => exact h.phase _ (by simp [hcancel]) (by simp) (by simp)
  | gate hcancel hkept =>
    refine h.phase _ (by simp [hcancel]) (fun targets ops hphase => ?_) (by simp)
    cases hphase
    rfl
  | set hcancel => exact h.set hcancel
  | publish hcancel => exact h.publish hcancel
  | skip hcancel => exact h.phase _ (by simp [hcancel]) (by simp) (by simp)
  | @write i now targets service hcancel hs =>
    refine (h.phase (.writing targets) (by simp [hcancel]) (by simp) ?_).congr
      le_rfl rfl rfl rfl (List.Subset.refl _) rfl
    rintro targets' (hphase | hphase)
    · cases hphase
      exact h.keys_of_sent hcancel
    · cases hphase
  | call hb hs => exact h.congr le_rfl rfl rfl rfl (List.Subset.refl _) rfl
  | commit ht hs => exact h.commit _ _
  | enter hmem => exact h.enter hmem
  | get he hphase =>
    exact h.replace _ ((h.streams _ (List.mem_of_getElem? he)).get h hphase)
  | message he hphase hmessage =>
    exact h.replace _ ((h.streams _ (List.mem_of_getElem? he)).message h hphase hmessage)

theorem signals_of_reachable (h : (control request d).Reachable Machine.free s) :
    Signals request s := by
  refine h.invariant (fun s hs => ?_) fun s a s' _ hI _ hs => hI.step (controlStep_sound hs)
  rw [show s = _ from hs]
  exact ⟨nofun, nofun, nofun, by simp, nofun⟩

/-! ### What a cancel that has returned leaves -/

/-- Steps keep that the cancel has returned. -/
theorem done_step {targets : List (Uuid × Uuid)} (hdone : s.cancel = .done targets)
    {a : ControlAction} (hs : ControlStep request s a s') : s'.cancel = .done targets := by
  cases hs with
  | select hcancel => simp [hdone] at hcancel
  | gate hcancel hkept => simp [hdone] at hcancel
  | set hcancel => simp [hdone] at hcancel
  | publish hcancel => simp [hdone] at hcancel
  | skip hcancel => simp [hdone] at hcancel
  | write hcancel hs => simp [hdone] at hcancel
  | commit ht hs =>
    show s.cancel.commit _ = _
    rw [hdone]
    rfl
  | _ => exact hdone

/-- No claim returns a run of a cancel that has returned. -/
theorem returned_step (h : CancelRows d s) {targets : List (Uuid × Uuid)}
    (hdone : s.cancel = .done targets) {runId : Uuid} (hmem : runId ∈ targets.map Prod.snd)
    (hnot : ∀ r ∈ s.returned, r.runId ≠ runId) {a : ControlAction}
    (hs : ControlStep request s a s') : ∀ r ∈ s'.returned, r.runId ≠ runId := by
  cases hs with
  | @commit t service ht hs =>
    intro r hr
    rcases List.mem_append.mp hr with hold | hnew
    · exact hnot r hold
    · obtain ⟨-, r₀, hr₀, hpending, now, rfl⟩ := pending_of_mem_claimReply h.reachable ht hnew
      rintro rfl
      exact h.settled targets hdone r₀ hr₀ hmem hpending
  | _ => exact hnot

theorem done_run {targets : List (Uuid × Uuid)} (hs : (control request d).Reachable Machine.free s)
    (hdone : s.cancel = .done targets) {as : List ControlAction}
    (hrun : (control request d).run s as = some s') :
    s'.cancel = .done targets ∧ ∀ runId ∈ targets.map Prod.snd,
      (∀ r ∈ s.returned, r.runId ≠ runId) → ∀ r ∈ s'.returned, r.runId ≠ runId := by
  induction as generalizing s with
  | nil =>
    cases hrun
    exact ⟨hdone, fun _ _ h => h⟩
  | cons a as ih =>
    rw [Machine.run, Option.bind_eq_some_iff] at hrun
    obtain ⟨u, hu, hrun⟩ := hrun
    have hstep : ControlStep request s a u := controlStep_sound hu
    obtain ⟨hdone', hreturned⟩ := ih (hs.step trivial hu) (done_step hdone hstep) hrun
    refine ⟨hdone', fun runId hmem hnot => hreturned runId hmem ?_⟩
    exact returned_step (rows_of_reachable hs) hdone hmem hnot hstep

/-- **When the cancel has returned, the streams on its channels that have looked at the
key yield its action exactly if they are timely.** -/
theorem yields_iff_timely (h : Signals request s) {targets : List (Uuid × Uuid)}
    (hdone : s.cancel = .done targets) {j : ℕ} {e : EnterStream} (he : s.streams[j]? = some e)
    (hmem : e.channel ∈ targets) (hphase : e.phase ≠ .subscribed) :
    Yields request s j request.action ↔ Timely s e := by
  have hok := h.streams e (List.mem_of_getElem? he)
  constructor
  · rintro ⟨s', e', rfl | hstep, he', hreturned, -⟩
    · obtain rfl : e = e' := Option.some.inj (he.symm.trans he')
      exact (hok.returned hreturned).2
    · cases controlStep_sound hstep with
      | @message _ e₀ action actions he₀ _ hmessage =>
        obtain rfl : e = e₀ := Option.some.inj (he.symm.trans he₀)
        exact Or.inl (by simp [hmessage])
      | call hb hs => cases hb
  · intro htimely
    cases hcase : e.phase with
    | subscribed => exact absurd hcase hphase
    | returned => exact ⟨s, e, Or.inl rfl, he, hcase, (hok.returned hcase).1⟩
    | listening =>
      obtain ⟨hnone, hwait⟩ := hok.listening hcase
      have hmessage : s.messages e ≠ [] := by
        rcases hwait with hmessage | ⟨targets', signal, ops, hsending, -⟩ | ⟨t, hread, hlate⟩
        · exact hmessage
        · rw [hdone] at hsending
          cases hsending
        · rcases htimely with hmessage | ⟨t', hread', halive⟩
          · exact hmessage
          · -- the key that it did not find has been there since
            obtain rfl : t = t' := Option.some.inj (hread.symm.trans hread')
            obtain ⟨k, hk⟩ := Option.ne_none_iff_exists'.mp
              (h.finished targets (Or.inr hdone) e.channel hmem)
            have hgone := hlate k hk
            rw [halive k hk] at hgone
            cases hgone
      obtain ⟨action, actions, hcons⟩ := List.exists_cons_of_ne_nil hmessage
      have haction : action ∈ s.messages e := hcons ▸ List.mem_cons_self
      refine ⟨s.replace j (e.finish action), e.finish action, Or.inr ?_, ?_, rfl, ?_⟩
      · simp [controlStep, he, hcase, hcons]
      · exact List.getElem?_set_self (List.getElem?_eq_some_iff.mp he).1
      · show e.yielded ++ [action] = _
        rw [hnone, h.action_of_mem haction, List.nil_append]

theorem channel_of_stream (hs : (control request d).Reachable Machine.free s) {R : Run}
    (hR : R ∈ d.run) {j : ℕ} {e : EnterStream} (he : s.streams[j]? = some e)
    (hid : e.runId = R.runId) : e.channel = (R.threadId, R.runId) := by
  obtain ⟨r, hr, htid, hrid⟩ :=
    ((signals_of_reachable hs).streams e (List.mem_of_getElem? he)).ofRun
  obtain ⟨r₀, hr₀, hid₀, htid₀⟩ := (rows_of_reachable hs).known r hr
  obtain rfl : r₀ = R := Table.eq_of_key hr₀ hR ((hid₀.trans hrid).trans hid)
  rw [EnterStream.channel, ← htid, ← hrid, hid₀, htid₀]

/-- **A cancel is not lost on timely streams**: whatever claims and streams it races with,
when a cancel of a run has returned, no claim has returned the run and none will, or
every stream opened for the run that is timely yields one event, with the action of the
request. -/
theorem notLost_of_done (hs : (control request d).Reachable Machine.free s)
    {targets : List (Uuid × Uuid)} (hdone : s.cancel = .done targets) {R : Run} (hR : R ∈ d.run)
    (hmem : (R.threadId, R.runId) ∈ targets) : NotLost request d Timely s R.runId := by
  by_cases hreturned : ∀ r ∈ s.returned, r.runId ≠ R.runId
  · left
    intro as s' hrun
    exact (done_run hs hdone hrun).2 R.runId (List.mem_map.mpr ⟨_, hmem, rfl⟩) hreturned
  · right
    intro as s' hrun j e he hid hphase htimely
    have hs' : (control request d).Reachable Machine.free s' := hs.run (fun _ _ _ => trivial) hrun
    refine (yields_iff_timely (signals_of_reachable hs') (done_run hs hdone hrun).1 he ?_ hphase).mpr
      htimely
    rw [channel_of_stream hs' hR he hid]
    exact hmem

end

/-! ### A cancel with nothing next to it -/

/-- The steps of a cancel that runs alone. -/
def cancelAlone (request : CancelRunRequest) (now : Timestamp) (d : Database) : List ControlAction :=
  [.select, .gate] ++ List.replicate (2 * (keptTargets request d).length) .redis ++
    .write 0 now :: if keptTargets request d = [] then [] else [.snapshot 0, .exec 0, .commit 0]

section

variable {request : CancelRunRequest} {d : Database} {s : ControlState}

/-- The calls of Redis, one target after the other. -/
theorem run_redis {targets : List (Uuid × Uuid)} {signals : List ControlSignal}
    (hcancel : s.cancel = .sending targets (cancelOps signals)) :
    ∃ keys, (control request d).run s (List.replicate (2 * signals.length) .redis) =
      some { s with
        keys := keys, published := s.published ++ signals, cancel := .sending targets [] } := by
  induction signals generalizing s with
  | nil =>
    obtain ⟨service, clock, keys, published, cancel, returned, streams⟩ := s
    cases hcancel
    exact ⟨keys, by simp [Machine.run, cancelOps]⟩
  | cons signal signals ih =>
    let s₁ := s.setKey targets signal (cancelOps signals)
    let s₂ : ControlState :=
      { s₁ with published := s.published ++ [signal], cancel := .sending targets (cancelOps signals) }
    have hset : (control request d).step s .redis = some s₁ := by
      have hops : s.cancel = .sending targets (.set signal :: .publish signal :: cancelOps signals) :=
        hcancel
      simp only [control, controlStep, hops]
      rfl
    have hpublish : (control request d).step s₁ .redis = some s₂ := rfl
    obtain ⟨keys, hrun⟩ := @ih s₂ rfl
    refine ⟨keys, ?_⟩
    rw [List.length_cons, Nat.mul_add, Nat.mul_one, List.replicate_succ, List.replicate_succ,
      Machine.run, hset, Option.bind_some, Machine.run, hpublish, Option.bind_some, hrun]
    simp [s₂, s₁, ControlState.setKey]

theorem execute_cancelRuns_nil (action : CancelRunAction) (now : Timestamp) (d : Database) :
    execute (.cancelRuns [] action now) d = d := by
  rw [execute_single (q := cancelRuns [] action now) rfl]
  have hnone : (cancelRuns [] action now d [] d).writes.getD [] = [] := by
    cases action <;> simp [cancelRuns, Relation.delete, Relation.update, Relation.rechecked_self,
      Table.select]
  rw [hnone, applyAll_nil]

/-- **With nothing next to it, a cancel is `cancel`**: its steps leave the database and
send the signals that `cancel` computes at once. -/
theorem cancel_alone (clock now : Timestamp) :
    ∃ keys, (control request d).run { service := ⟨d, .empty⟩, clock := clock }
      (cancelAlone request now d) = some {
        service := ⟨(cancel request now d).1, .empty⟩
        clock := clock
        keys := keys
        published := (cancel request now d).2
        cancel := .done (keptTargets request d) } := by
  let kept := keptTargets request d
  let signals := controlSignals kept request.action
  let rpc : Rpc := .cancelRuns (kept.map Prod.snd) request.action now
  let found : ControlState :=
    { service := ⟨d, .empty⟩, clock := clock, cancel := .sending kept (cancelOps signals) }
  have hfind : (control request d).run { service := ⟨d, .empty⟩, clock := clock } [.select, .gate] =
      some found := rfl
  obtain ⟨keys, hredis⟩ := @run_redis request d found kept signals rfl
  rw [show signals.length = kept.length from List.length_map _] at hredis
  refine ⟨keys, ?_⟩
  rw [cancelAlone, Machine.run_append, Machine.run_append, hfind, Option.bind_some, hredis,
    Option.bind_some]
  by_cases hkept : keptTargets request d = []
  · have hdb : (cancel request now d).1 = d := by
      rw [cancel, hkept]
      exact execute_cancelRuns_nil _ _ _
    -- `if run_ids` skips the write
    rw [if_pos hkept, hdb, hkept]
    simp [Machine.run, control, controlStep, found, signals, kept, cancel, hkept]
  · let writing (service : ServiceState) : ControlState :=
      { service := service, clock := clock, keys := keys, published := signals, cancel := .writing kept }
    have hwrite : controlStep request { found with
        keys := keys, published := found.published ++ signals, cancel := .sending kept [] }
        (.write 0 now) = some (writing (State.alone d ⟨0, rpc, [], none⟩)) := by
      simp only [controlStep, if_neg (show kept ≠ [] from hkept)]
      rfl
    have hsnapshot : step statements (State.alone d ⟨0, rpc, [], none⟩) (.snapshot 0) =
        some (State.alone d ⟨0, rpc, [], some d⟩) := step_snapshot_alone d rpc [] Nat.one_pos
    have hexec : step statements (State.alone d ⟨0, rpc, [], some d⟩) (.exec 0) =
        some (State.alone d ⟨0, rpc, [⟨d, [], d⟩], none⟩) := by
      rw [step_exec_alone d rpc [] rfl]
      cases request.action <;> rfl
    have hcommit : step statements (State.alone d ⟨0, rpc, [⟨d, [], d⟩], none⟩) (.commit 0) =
        some ⟨(cancel request now d).1, Table.empty⟩ := by
      rw [step_commit_alone d rpc _ rfl, cancel, execute_single rfl]
      rfl
    have hget := get?_alone d (⟨0, rpc, [⟨d, [], d⟩], none⟩ : Txn Rpc Database RowKey)
    simp only at hget
    rw [if_neg hkept]
    simp only [Machine.run, control, hwrite, Option.bind_some]
    simp only [controlStep, ControlState.call, writing, hsnapshot, hexec, hget, hcommit,
      Option.map_some, Option.bind_some]
    rfl

end

/-! ### One run and one cancel -/

/-- A database with one pending run. -/
def pendingOne : Database :=
  { oneThread with run := Table.empty.put { runId := 100, threadId := 10, assistantId := 1 } }

/-- The interrupt of this run. -/
def cancelOne : CancelRunRequest := { target := .runIds 10 [100] }

/-- The claim of the run ends after the cancel has read its targets. -/
def raceOnce : List ControlAction :=
  [.next 0 1 5 id, .snapshot 0, .exec 0, .select, .gate, .redis, .redis, .commit 0,
    .write 1 6, .snapshot 1, .exec 1, .commit 1]

/-- The claimed run, as it is returned. -/
def claimedOne : Run := setRunning 5 { runId := 100, threadId := 10, assistantId := 1 }

theorem notLost_of_done_witness :
    ∃ s, (control cancelOne pendingOne).Reachable Machine.free s ∧
      NotLost cancelOne pendingOne Timely s 100 ∧ claimedOne ∈ s.returned ∧
        s.streams.map EnterStream.yielded = [[.interrupt]] := by
  obtain ⟨s, hs, hp⟩ := (control cancelOne pendingOne).exists_reachable Machine.free
    (show (control cancelOne pendingOne).init { service := ⟨pendingOne, .empty⟩, clock := 0 } from rfl)
    (raceOnce ++ [.tick 59000000, .enter claimedOne, .get 0])
    (fun s => s.cancel = .done [(10, 100)] ∧ claimedOne ∈ s.returned ∧
      s.streams.map EnterStream.yielded = [[.interrupt]]) (by decide +kernel)
  obtain ⟨hdone, hreturned, hyielded⟩ := of_decide_eq_true hp
  have hR : ({ runId := 100, threadId := 10, assistantId := 1 } : Run) ∈ pendingOne.run := by decide
  exact ⟨s, hs, notLost_of_done hs hdone hR (List.mem_singleton_self _), hreturned, hyielded⟩

/-- A stream that subscribes after 59 seconds and looks at the key after 61 waits for
ever. -/
theorem not_notLost :
    ¬ ∀ request d s targets R, (control request d).Reachable Machine.free s →
      s.cancel = .done targets → R ∈ d.run → R.status = .pending →
        (R.threadId, R.runId) ∈ targets → NotLost request d StartedInTime s R.runId := by
  intro h
  obtain ⟨s, hs, hp⟩ := (control cancelOne pendingOne).exists_reachable Machine.free
    (show (control cancelOne pendingOne).init { service := ⟨pendingOne, .empty⟩, clock := 0 } from rfl)
    (raceOnce ++ [.tick 59000000, .enter claimedOne, .tick 61000000, .get 0])
    (fun s => s.cancel = .done [(10, 100)] ∧ claimedOne ∈ s.returned ∧
      s.keys (10, 100) = some (controlKey 0 .interrupt) ∧
        s.streams = [⟨10, 100, 1, 59000000, some 61000000, .listening, []⟩] ∧
          (controlStep cancelOne s (.message 0)).isNone) (by decide +kernel)
  obtain ⟨hdone, hreturned, hkey, hstreams, hstuck⟩ := of_decide_eq_true hp
  have hR : ({ runId := 100, threadId := 10, assistantId := 1 } : Run) ∈ pendingOne.run := by decide
  rcases h _ _ s _ _ hs hdone hR rfl (List.mem_singleton_self _) with hnever | hyields
  · exact hnever [] s rfl claimedOne hreturned rfl
  · have hstream : s.streams[0]? = some ⟨10, 100, 1, 59000000, some 61000000, .listening, []⟩ := by
      rw [hstreams]
      rfl
    obtain ⟨s', e, rfl | hstep, he, hphase, -⟩ := hyields [] s rfl 0 _ hstream rfl (by simp) (by
      intro k hk
      rw [show s.keys (10, 100) = some k from hk] at hkey
      cases hkey
      decide)
    · rw [hstream] at he
      cases he
      cases hphase
    · rw [hstep] at hstuck
      cases hstuck

end NextRole
