import NextRole.Api.Consume

/-!
# A run that succeeds ran to its end

The queued path gives every event of the stream to the task that publishes them, and ends as the
stream does, whatever fails to be published.  The inline path takes the first failure to publish for
its end, and a stream that ends with such a failure for one that is exhausted.

## Main definitions

* `Consumption.handed` — what a stream gives to be published, and how it ends.
* `Consumption.RunsToEnd` — a success means that the stream was exhausted.
* `Consumption.SameWhenPublished` — both paths do the same where nothing fails to be published.
* `Consumption.Undisturbed` — the condition on the inline path.

## Main results

* `Consumption.inlineFrom_exhausted_iff` — the inline path, by induction over the events.
* `Consumption.HandsOver.step` — both tasks of the queued path keep what is handed over.
* `Consumption.exists_consumes` — the queued path ends.
* `Consumption.runsToEnd_iff` — when a success means that the stream was exhausted.
-/

namespace NextRole

/-! ### A call -/

/-- A call that raises, raises a `StreamPublishException`. -/
theorem publish_eq_error {deadline : ℕ} {attempts : List PublishAttempt} {e : AnyException}
    (h : publish deadline attempts = some (.error e)) : e.unwrap.isStreamPublish = true := by
  induction attempts with
  | nil => cases h
  | cons attempt attempts ih =>
    cases attempt with
    | ok => cases h
    | error code details now =>
      rw [publish] at h
      split at h
      · cases h
        rfl
      · exact ih h

theorem PublishCall.result_of_succeeds {call : PublishCall} (h : call.succeeds = true) :
    call.result = .ok () := by
  rw [succeeds] at h
  split at h
  · next hresult => exact hresult
  · cases h

theorem PublishCall.result_of_not_succeeds {call : PublishCall} (h : call.succeeds = false) :
    ∃ e, call.result = .error e ∧ e.unwrap.isStreamPublish = true := by
  rw [succeeds] at h
  split at h
  · cases h
  · next e hresult =>
    exact ⟨e, hresult, publish_eq_error (Option.some_get call.ends ▸ congrArg some hresult)⟩

namespace Consumption

variable {α β : Type} (c : Consumption α β)

/-! ### What a stream gives -/

/-- An exception ends the stream, and is published. -/
def failed (e : AnyException) : ConsumeEnd β where
  published := (c.errorRequest e.unwrap).toList
  raised := some (.exception e.unwrap)

/-- What the events give to be published, and how the stream ends. -/
def handedFrom : List (String × α) → ConsumeEnd β
  | [] =>
    match c.ending with
    | none => { exhausted := true }
    | some (.exception e) => c.failed e
    | some raised => { raised := some raised }
  | (mode, payload) :: events =>
    match c.dumpb payload with
    | .error exception => c.failed (.single .other exception)
    | .ok message =>
      { handedFrom events with
        published := c.request mode message :: (handedFrom events).published }

/-- What the stream gives. -/
def handed : ConsumeEnd β := c.handedFrom c.events

/-- How many events there are before one that `json_dumpb` cannot serialize. -/
def serialized (events : List (String × α)) : ℕ :=
  (events.takeWhile fun event => (c.dumpb event.2).isOk).length

/-- The stream ends with a failure to publish. -/
def EndsUnpublished : Prop :=
  ∃ e, c.ending = some (.exception e) ∧ e.unwrap.isStreamPublish = true

/-- Every event is serialized, and the stream ends with a failure to publish. -/
def Swallowed (events : List (String × α)) : Prop :=
  c.serialized events = events.length ∧ c.EndsUnpublished

/-- The events are published from the call number `n` on, up to the end of the stream or an event
that is not serialized, and the end is no failure to publish. -/
def UndisturbedFrom (n : ℕ) (events : List (String × α)) : Prop :=
  (∀ i < c.serialized events, (c.calls (n + i)).succeeds = true) ∧ ¬ c.Swallowed events

/-- No event fails to be published, and the stream does not end with a failure to publish. -/
def Undisturbed : Prop := c.UndisturbedFrom 0 c.events

theorem serialized_of_error {mode : String} {payload : α} {events : List (String × α)}
    {exception : RunException} (h : c.dumpb payload = .error exception) :
    c.serialized ((mode, payload) :: events) = 0 := by
  rw [serialized, List.takeWhile_cons_of_neg (by simp [h, Except.isOk, Except.toBool])]
  rfl

theorem serialized_of_ok {mode : String} {payload : α} {events : List (String × α)} {message : β}
    (h : c.dumpb payload = .ok message) :
    c.serialized ((mode, payload) :: events) = c.serialized events + 1 := by
  rw [serialized, List.takeWhile_cons_of_pos (by simp [h, Except.isOk, Except.toBool])]
  rfl

theorem swallowed_of_error {mode : String} {payload : α} {events : List (String × α)}
    {exception : RunException} (h : c.dumpb payload = .error exception) :
    ¬ c.Swallowed ((mode, payload) :: events) := by
  rintro ⟨hlen, -⟩
  rw [c.serialized_of_error h] at hlen
  cases hlen

theorem swallowed_of_ok {mode : String} {payload : α} {events : List (String × α)} {message : β}
    (h : c.dumpb payload = .ok message) :
    c.Swallowed ((mode, payload) :: events) ↔ c.Swallowed events := by
  rw [Swallowed, Swallowed, c.serialized_of_ok h, List.length_cons, Nat.add_right_cancel_iff]

theorem swallowed_nil : c.Swallowed [] ↔ c.EndsUnpublished :=
  ⟨And.right, fun h => ⟨rfl, h⟩⟩

theorem handedFrom_of_error {mode : String} {payload : α} {events : List (String × α)}
    {exception : RunException} (h : c.dumpb payload = .error exception) :
    c.handedFrom ((mode, payload) :: events) = c.failed (.single .other exception) := by
  rw [handedFrom, h]

theorem handedFrom_of_ok {mode : String} {payload : α} {events : List (String × α)} {message : β}
    (h : c.dumpb payload = .ok message) :
    c.handedFrom ((mode, payload) :: events) =
      { c.handedFrom events with
        published := c.request mode message :: (c.handedFrom events).published } := by
  rw [handedFrom, h]

/-! ### The inline path -/

theorem inlineFrom_of_error {n : ℕ} {mode : String} {payload : α} {events : List (String × α)}
    {exception : RunException} (h : c.dumpb payload = .error exception) :
    c.inlineFrom n ((mode, payload) :: events) =
      c.inlineException n (.single .other exception) := by
  rw [inlineFrom, h]

theorem raised_inlineFrom {n : ℕ} {mode : String} {payload : α} {events : List (String × α)}
    {message : β} (h : c.dumpb payload = .ok message) (hcall : (c.calls n).succeeds = false) :
    (c.inlineFrom n ((mode, payload) :: events)).raised = none ∧
      (c.inlineFrom n ((mode, payload) :: events)).exhausted = false := by
  obtain ⟨e, hresult, hpublish⟩ := PublishCall.result_of_not_succeeds hcall
  rw [inlineFrom, h]
  dsimp only
  rw [hresult]
  exact ⟨if_pos hpublish, rfl⟩

theorem inlineFrom_of_ok {n : ℕ} {mode : String} {payload : α} {events : List (String × α)}
    {message : β} (h : c.dumpb payload = .ok message) (hcall : (c.calls n).succeeds = true) :
    c.inlineFrom n ((mode, payload) :: events) =
      { c.inlineFrom (n + 1) events with
        published := c.request mode message :: (c.inlineFrom (n + 1) events).published } := by
  rw [inlineFrom, h]
  dsimp only
  rw [PublishCall.result_of_succeeds hcall]

/-- **The inline path**: it returns with the stream exhausted only where nothing disturbs it. -/
theorem inlineFrom_exhausted_iff (n : ℕ) (events : List (String × α)) :
    ((c.inlineFrom n events).raised = none → (c.inlineFrom n events).exhausted = true) ↔
      c.UndisturbedFrom n events := by
  induction events generalizing n with
  | nil =>
    have hcalls : ∀ i < c.serialized [], (c.calls (n + i)).succeeds = true :=
      fun i hi => absurd hi (Nat.not_lt_zero i)
    rw [UndisturbedFrom, swallowed_nil, EndsUnpublished, inlineFrom, and_iff_right hcalls]
    cases hending : c.ending with
    | none => simp
    | some raised =>
      cases raised with
      | exception e =>
        cases hpublish : e.unwrap.isStreamPublish <;> simp [inlineException, hpublish]
      | cancelled => simp
      | base exception => simp
  | cons event events ih =>
    obtain ⟨mode, payload⟩ := event
    rw [UndisturbedFrom]
    cases hdump : c.dumpb payload with
    | error exception =>
      rw [c.inlineFrom_of_error hdump, c.serialized_of_error hdump]
      refine iff_of_true (fun h => ?_)
        ⟨fun i hi => absurd hi (Nat.not_lt_zero i), c.swallowed_of_error hdump⟩
      cases h
    | ok message =>
      rw [c.serialized_of_ok hdump, c.swallowed_of_ok hdump]
      cases hcall : (c.calls n).succeeds with
      | false =>
        obtain ⟨hraised, hexhausted⟩ : (c.inlineFrom n ((mode, payload) :: events)).raised = none ∧
            (c.inlineFrom n ((mode, payload) :: events)).exhausted = false :=
          c.raised_inlineFrom hdump hcall
        refine iff_of_false (fun h => ?_) fun h => ?_
        · exact absurd (h hraised) (hexhausted ▸ Bool.false_ne_true)
        · exact absurd (h.1 0 (Nat.succ_pos _)) (hcall ▸ Bool.false_ne_true)
      | true =>
        rw [c.inlineFrom_of_ok hdump hcall]
        refine (ih (n + 1)).trans (and_congr_left' ⟨fun h i hi => ?_, fun h i hi => ?_⟩)
        · cases i with
          | zero => exact hcall
          | succ i =>
            have hi' := h i (Nat.lt_of_succ_lt_succ hi)
            rwa [Nat.add_right_comm] at hi'
        · have hi' := h (i + 1) (Nat.succ_lt_succ hi)
          rwa [← Nat.add_assoc, Nat.add_right_comm] at hi'

/-- Where every call succeeds, the inline path publishes what the stream gives; it differs where the
stream ends with a failure to publish. -/
theorem inlineFrom_of_succeeds (hcalls : ∀ n, (c.calls n).succeeds = true) (n : ℕ)
    (events : List (String × α)) :
    (¬ c.Swallowed events → c.inlineFrom n events = c.handedFrom events) ∧
      (c.Swallowed events →
        (c.inlineFrom n events).raised = none ∧ (c.handedFrom events).raised ≠ none) := by
  induction events generalizing n with
  | nil =>
    rw [swallowed_nil, EndsUnpublished, inlineFrom, handedFrom]
    cases hending : c.ending with
    | none => exact ⟨fun _ => rfl, fun ⟨_, h, _⟩ => nomatch h⟩
    | some raised =>
      cases raised with
      | exception e =>
        constructor
        · intro h
          have hpublish : ¬ e.unwrap.isStreamPublish = true := fun hpublish => h ⟨e, rfl, hpublish⟩
          simp only [inlineException, failed, hcalls, if_true, if_neg hpublish]
        · rintro ⟨e', heq, hpublish⟩
          cases heq
          exact ⟨if_pos hpublish, fun h => nomatch h⟩
      | cancelled => exact ⟨fun _ => rfl, fun ⟨_, h, _⟩ => nomatch h⟩
      | base exception => exact ⟨fun _ => rfl, fun ⟨_, h, _⟩ => nomatch h⟩
  | cons event events ih =>
    obtain ⟨mode, payload⟩ := event
    cases hdump : c.dumpb payload with
    | error exception =>
      rw [c.inlineFrom_of_error hdump, c.handedFrom_of_error hdump]
      refine ⟨fun _ => ?_, fun h => absurd h (c.swallowed_of_error hdump)⟩
      simp [inlineException, failed, hcalls, AnyException.unwrap, AnyException.isStreamPublish]
    | ok message =>
      obtain ⟨hsame, hraised⟩ := ih (n + 1)
      rw [c.swallowed_of_ok hdump, c.inlineFrom_of_ok hdump (hcalls n), c.handedFrom_of_ok hdump]
      refine ⟨fun h => ?_, hraised⟩
      rw [hsame h]

end Consumption

/-! ### The queued path -/

/-- `_consume_async_queue` does not pull the stream any more. -/
def ConsumePhase.closed {β : Type} : ConsumePhase β → Bool
  | .streaming | .enqueueing _ | .failing _ _ => false
  | .closing _ | .joining _ | .done _ => true

/-- The sentinel was put. -/
def ConsumePhase.joined {β : Type} : ConsumePhase β → Bool
  | .joining _ | .done _ => true
  | _ => false

/-- A bound on the steps that a phase still takes without the events. -/
def ConsumePhase.steps {β : Type} : ConsumePhase β → ℕ
  | .enqueueing _ => 11
  | .streaming => 8
  | .failing _ _ => 7
  | .closing _ => 4
  | .joining _ => 1
  | .done _ => 0

namespace Consumption

variable {α β : Type} (c : Consumption α β) {s s' : AsyncQueue α β}
  {sent queued : List (PublishStreamEventRequest β)}

/-- The requests whose call succeeds. -/
def accepted (requests : List (PublishStreamEventRequest β)) : List (PublishStreamEventRequest β) :=
  (requests.zipIdx.filter fun request => (c.calls request.2).succeeds).map Prod.fst

theorem accepted_append_singleton (request : PublishStreamEventRequest β) :
    c.accepted (sent ++ [request]) =
      c.accepted sent ++ if (c.calls sent.length).succeeds then [request] else [] := by
  rw [accepted, List.zipIdx_append, List.filter_append, List.map_append, ← accepted]
  congr 1
  cases hcall : (c.calls sent.length).succeeds <;> simp [hcall]

theorem accepted_eq (hcalls : ∀ n, (c.calls n).succeeds = true)
    (requests : List (PublishStreamEventRequest β)) : c.accepted requests = requests := by
  rw [accepted, List.filter_eq_self.mpr fun _ _ => hcalls _, List.zipIdx_map_fst]

/-- What is still to be put, and how the path ends. -/
def rest (s : AsyncQueue α β) : ConsumeEnd β :=
  match s.phase with
  | .streaming => c.handedFrom s.events
  | .enqueueing request =>
    { c.handedFrom s.events with published := request :: (c.handedFrom s.events).published }
  | .failing e request => { published := [request], raised := some (.exception e) }
  | .closing raised | .joining raised | .done raised =>
    { exhausted := s.exhausted, raised := raised }

/-- What the stream gives is what was published or failed to be, what is in the queue, and what is
still to be put. -/
structure HandsOver (s : AsyncQueue α β) (sent queued : List (PublishStreamEventRequest β)) :
    Prop where
  handed : c.handed = { c.rest s with
    published := sent ++ s.publishing.toList ++ queued ++ (c.rest s).published }
  queue : s.queue = queued.map some ++ if s.phase.joined && !s.returned then [none] else []
  called : s.called = sent.length
  published : s.published = c.accepted sent
  early : s.phase.closed = false → s.exhausted = false
  returned : s.returned = true → s.phase.joined = true ∧ queued = [] ∧ s.publishing = none
  done : ∀ raised, s.phase = .done raised → s.returned = true

theorem handsOver_init : c.HandsOver { events := c.events } [] [] where
  handed := rfl
  queue := rfl
  called := rfl
  published := rfl
  early _ := rfl
  returned h := nomatch h
  done _ h := nomatch h

theorem rest_afterException {e : AnyException} {events : List (String × α)}
    (h : s.exhausted = false) :
    c.rest { s with
      events := events
      phase := c.afterException e } = c.failed e := by
  rw [failed, afterException]
  cases hrequest : c.errorRequest e.unwrap with
  | none => simp [rest, h]
  | some request => rfl

theorem joined_afterException (e : AnyException) : (c.afterException e).joined = false := by
  rw [afterException]
  split <;> rfl

theorem afterException_ne_done (e : AnyException) (raised : Option Raised) :
    c.afterException e ≠ .done raised := by
  rw [afterException]
  split <;> exact fun h => nomatch h

variable {c}

/-- The consumer goes on without the queue. -/
theorem HandsOver.goOn (h : c.HandsOver s sent queued) {events : List (String × α)}
    {phase : ConsumePhase β} {exhausted : Bool} (hjoined : s.phase.joined = false)
    (hjoined' : phase.joined = false) (hdone : ∀ raised, phase ≠ .done raised)
    (hearly : phase.closed = false → exhausted = false)
    (hrest : c.rest { s with
      events := events
      phase := phase
      exhausted := exhausted } = c.rest s) :
    c.HandsOver { s with
      events := events
      phase := phase
      exhausted := exhausted } sent queued where
  handed := by
    rw [hrest]
    exact h.handed
  queue := by
    have hqueue := h.queue
    rw [hjoined] at hqueue
    simpa [hjoined'] using hqueue
  called := h.called
  published := h.published
  early := hearly
  returned hreturned := absurd (h.returned hreturned).1 (hjoined ▸ Bool.false_ne_true)
  done raised heq := absurd heq (hdone raised)

/-- A request is put. -/
theorem HandsOver.put (h : c.HandsOver s sent queued) {request : PublishStreamEventRequest β}
    {phase : ConsumePhase β} (hjoined : s.phase.joined = false) (hjoined' : phase.joined = false)
    (hdone : ∀ raised, phase ≠ .done raised) (hearly : phase.closed = false → s.exhausted = false)
    (hrest : c.rest s = { c.rest { s with phase := phase } with
      published := request :: (c.rest { s with phase := phase }).published })
    (hs : c.put s (some request) phase = some s') :
    c.HandsOver s' sent (queued ++ [request]) := by
  rw [Consumption.put] at hs
  split at hs
  · cases hs
  · obtain rfl := Option.some.inj hs
    exact {
      handed := by
        rw [h.handed, hrest]
        simp only [List.append_assoc, List.singleton_append]
        rfl
      queue := by
        have hqueue := h.queue
        rw [hjoined] at hqueue
        simpa [hjoined'] using hqueue
      called := h.called
      published := h.published
      early := hearly
      returned := fun hreturned =>
        absurd (h.returned hreturned).1 (hjoined ▸ Bool.false_ne_true)
      done := fun raised heq => absurd heq (hdone raised) }

/-- `_consume_async_queue` goes on. -/
theorem HandsOver.consumerStep (h : c.HandsOver s sent queued) (hs : c.consumerStep s = some s') :
    ∃ queued, c.HandsOver s' sent queued := by
  have hexhausted := h.early
  rw [Consumption.consumerStep] at hs
  split at hs
  · next hphase =>
    rw [hphase] at hexhausted
    have hjoined : s.phase.joined = false := hphase ▸ rfl
    have hstreaming : c.rest s = c.handedFrom s.events := by rw [rest, hphase]
    split at hs
    · next hevents =>
      rw [hevents, handedFrom] at hstreaming
      split at hs
      · next hending =>
        obtain rfl := Option.some.inj hs
        refine ⟨queued, h.goOn hjoined rfl (fun _ heq => by cases heq)
          (fun heq => by cases heq) ?_⟩
        rw [hstreaming, hending]
        rfl
      · next e hending =>
        obtain rfl := Option.some.inj hs
        refine ⟨queued, h.goOn hjoined (c.joined_afterException e) (c.afterException_ne_done e)
          (fun _ => hexhausted rfl) ?_⟩
        rw [hstreaming, hending]
        exact c.rest_afterException (hexhausted rfl)
      · next raised hraised hending =>
        obtain rfl := Option.some.inj hs
        refine ⟨queued, h.goOn hjoined rfl (fun _ heq => by cases heq)
          (fun heq => by cases heq) ?_⟩
        rw [hstreaming, hending]
        cases raised with
        | exception e => exact absurd rfl (hraised e)
        | cancelled => simp [rest, hexhausted rfl]
        | base exception => simp [rest, hexhausted rfl]
    · next mode payload events hevents =>
      rw [hevents] at hstreaming
      split at hs
      · next exception hdump =>
        obtain rfl := Option.some.inj hs
        refine ⟨queued, h.goOn hjoined (c.joined_afterException _) (c.afterException_ne_done _)
          (fun _ => hexhausted rfl) ?_⟩
        rw [hstreaming, c.handedFrom_of_error hdump]
        exact c.rest_afterException (hexhausted rfl)
      · next message hdump =>
        obtain rfl := Option.some.inj hs
        refine ⟨queued, h.goOn hjoined rfl (fun _ heq => by cases heq)
          (fun _ => hexhausted rfl) ?_⟩
        rw [hstreaming, c.handedFrom_of_ok hdump]
        rfl
  · next request hphase =>
    rw [hphase] at hexhausted
    refine ⟨_, h.put (hphase ▸ rfl) rfl (fun _ heq => ?_) (fun _ => hexhausted rfl) ?_ hs⟩
    · cases heq
    simp only [rest, hphase]
  · next e request hphase =>
    rw [hphase] at hexhausted
    refine ⟨_, h.put (hphase ▸ rfl) rfl (fun _ heq => ?_) (fun _ => hexhausted rfl) ?_ hs⟩
    · cases heq
    simp only [rest, hphase, hexhausted rfl]
  · next raised hphase =>
    rw [Consumption.put] at hs
    split at hs
    · cases hs
    · have hreturned : s.returned = false := by
        refine Bool.eq_false_iff.mpr fun hreturned => ?_
        have hjoined := (h.returned hreturned).1
        rw [hphase] at hjoined
        cases hjoined
      have hhanded := h.handed
      have hqueue := h.queue
      simp only [rest, hphase] at hhanded hqueue
      obtain rfl := Option.some.inj hs
      exact ⟨queued, {
        handed := hhanded
        queue := by
          rw [hqueue, hreturned]
          simp [ConsumePhase.joined]
        called := h.called
        published := h.published
        early := fun heq => Bool.noConfusion heq
        returned := fun heq => absurd (hreturned.symm.trans heq) Bool.false_ne_true
        done := fun _ heq => ConsumePhase.noConfusion rfl (heq_of_eq heq) }⟩
  · next raised hphase =>
    split at hs
    · next hreturned =>
      have hhanded := h.handed
      have hqueue := h.queue
      simp only [rest, hphase] at hhanded hqueue
      obtain rfl := Option.some.inj hs
      exact ⟨queued, {
        handed := hhanded
        queue := hqueue
        called := h.called
        published := h.published
        early := fun heq => Bool.noConfusion heq
        returned := fun _ => ⟨rfl, (h.returned hreturned).2⟩
        done := fun _ _ => hreturned }⟩
    · cases hs
  · cases hs

/-- `_publish_worker` goes on. -/
theorem HandsOver.publisherStep (h : c.HandsOver s sent queued) (hreturned : s.returned = false)
    (hs : c.publisherStep s = some s') : ∃ sent queued, c.HandsOver s' sent queued := by
  have hhanded := h.handed
  have hqueue := h.queue
  rw [hreturned, Bool.not_false, Bool.and_true] at hqueue
  have hdone : ∀ raised, s.phase ≠ .done raised :=
    fun raised heq => absurd (h.done raised heq) (hreturned ▸ Bool.false_ne_true)
  rw [Consumption.publisherStep] at hs
  split at hs
  · next request hpublishing =>
    obtain rfl := Option.some.inj hs
    refine ⟨sent ++ [request], queued, {
      handed := ?_
      queue := h.queue
      called := by rw [h.called, List.length_append, List.length_singleton]
      published := by rw [h.published, h.called, accepted_append_singleton]
      early := h.early
      returned := fun heq => absurd heq (hreturned ▸ Bool.false_ne_true)
      done := h.done }⟩
    rw [hhanded, hpublishing]
    simp only [Option.toList_some, Option.toList_none, List.append_nil]
    rfl
  · next hpublishing =>
    rw [hpublishing] at hhanded
    split at hs
    · cases hs
    · next request queue hitems =>
      obtain rfl := Option.some.inj hs
      rw [hitems] at hqueue
      cases queued with
      | nil =>
        -- the sentinel is no request
        rw [List.map_nil, List.nil_append] at hqueue
        split at hqueue <;> cases hqueue
      | cons request' queued =>
        rw [List.map_cons, List.cons_append, List.cons.injEq, Option.some.injEq] at hqueue
        obtain ⟨rfl, hqueue⟩ := hqueue
        refine ⟨sent, queued, {
          handed := ?_
          queue := by rw [hreturned, Bool.not_false, Bool.and_true, hqueue]
          called := h.called
          published := h.published
          early := h.early
          returned := fun heq => absurd heq (hreturned ▸ Bool.false_ne_true)
          done := h.done }⟩
        rw [hhanded]
        simp only [Option.toList_some, Option.toList_none, List.append_nil, List.append_assoc,
          List.singleton_append]
        rfl
    · next queue hitems =>
      obtain rfl := Option.some.inj hs
      rw [hitems] at hqueue
      cases queued with
      | nil =>
        rw [List.map_nil, List.nil_append] at hqueue
        split at hqueue
        · next hjoined =>
          obtain rfl := List.cons.inj hqueue |>.2
          exact ⟨sent, [], {
            handed := by
              rw [hhanded, hpublishing]
              rfl
            queue := by simp
            called := h.called
            published := h.published
            early := h.early
            returned := fun _ => ⟨hjoined, rfl, hpublishing⟩
            done := fun _ _ => rfl }⟩
        · cases hqueue
      | cons request queued =>
        rw [List.map_cons, List.cons_append] at hqueue
        cases hqueue

/-- **Both tasks keep what is handed over.** -/
theorem HandsOver.step (h : c.HandsOver s sent queued) {a : AsyncQueueAction}
    (hs : c.consumeAsyncQueue.step s a = some s') : ∃ sent queued, c.HandsOver s' sent queued := by
  cases a with
  | consumer => exact ⟨sent, h.consumerStep hs⟩
  | publisher =>
    simp only [consumeAsyncQueue] at hs
    split at hs
    · cases hs
    · next hreturned => exact h.publisherStep (Bool.eq_false_iff.mpr hreturned) hs

theorem handsOver_of_reachable (hs : c.consumeAsyncQueue.Reachable Machine.free s) :
    ∃ sent queued, c.HandsOver s sent queued := by
  refine hs.invariant (I := fun s => ∃ sent queued, c.HandsOver s sent queued) ?_
    fun s a s' _ ⟨sent, queued, h⟩ _ hstep => h.step hstep
  rintro _ rfl
  exact ⟨[], [], c.handsOver_init⟩

/-- **The queued path ends as the stream does**, with the requests published whose call succeeds. -/
theorem HandsOver.end_eq (h : c.HandsOver s sent queued) {raised : Option Raised}
    (hphase : s.phase = .done raised) :
    raised = c.handed.raised ∧ s.exhausted = c.handed.exhausted ∧
      s.published = c.accepted c.handed.published := by
  obtain ⟨-, rfl, hpublishing⟩ := h.returned (h.done raised hphase)
  have hhanded := h.handed
  rw [hpublishing] at hhanded
  simp only [rest, hphase, Option.toList_none, List.append_nil] at hhanded
  rw [hhanded]
  exact ⟨rfl, rfl, h.published⟩

/-! ### The queued path ends -/

/-- A bound on the steps that are left: an event is pulled, put, taken and published. -/
def steps (s : AsyncQueue α β) : ℕ :=
  4 * s.events.length + s.phase.steps + 2 * s.queue.length + s.publishing.toList.length

theorem steps_afterException (e : AnyException) : (c.afterException e).steps ≤ 7 := by
  rw [afterException]
  split <;> simp [ConsumePhase.steps]

theorem steps_put {item : Option (PublishStreamEventRequest β)} {phase : ConsumePhase β}
    (hphase : phase.steps + 2 < s.phase.steps) (hs : c.put s item phase = some s') :
    steps s' < steps s := by
  rw [Consumption.put] at hs
  split at hs
  · cases hs
  · obtain rfl := Option.some.inj hs
    simp only [steps, List.length_append, List.length_singleton]
    omega

/-- Every step leaves fewer. -/
theorem steps_lt {a : AsyncQueueAction} (hs : c.consumeAsyncQueue.step s a = some s') :
    steps s' < steps s := by
  cases a with
  | consumer =>
    replace hs : c.consumerStep s = some s' := hs
    rw [Consumption.consumerStep] at hs
    split at hs
    · next hphase =>
      have hstreaming : s.phase.steps = 8 := hphase ▸ rfl
      split at hs
      · next hevents =>
        split at hs
        · obtain rfl := Option.some.inj hs
          simp [steps, hphase, ConsumePhase.steps]
        · next e hending =>
          obtain rfl := Option.some.inj hs
          have hafter := c.steps_afterException e
          simp only [steps]
          omega
        · obtain rfl := Option.some.inj hs
          simp [steps, hphase, ConsumePhase.steps]
      · next mode payload events hevents =>
        split at hs
        · next exception hdump =>
          obtain rfl := Option.some.inj hs
          have hafter := c.steps_afterException (.single .other exception)
          simp only [steps, hevents, List.length_cons]
          omega
        · obtain rfl := Option.some.inj hs
          simp only [steps, hphase, hevents, ConsumePhase.steps, List.length_cons]
          omega
    · next hphase => exact steps_put (by simp [hphase, ConsumePhase.steps]) hs
    · next hphase => exact steps_put (by simp [hphase, ConsumePhase.steps]) hs
    · next hphase => exact steps_put (by simp [hphase, ConsumePhase.steps]) hs
    · next hphase =>
      split at hs
      · obtain rfl := Option.some.inj hs
        simp [steps, hphase, ConsumePhase.steps]
      · cases hs
    · cases hs
  | publisher =>
    simp only [consumeAsyncQueue] at hs
    split at hs
    · cases hs
    · rw [Consumption.publisherStep] at hs
      split at hs
      · next hpublishing =>
        obtain rfl := Option.some.inj hs
        simp [steps, hpublishing]
      · next hpublishing =>
        split at hs
        · cases hs
        · next hitems =>
          obtain rfl := Option.some.inj hs
          simp only [steps, hitems, hpublishing, List.length_cons, Option.toList_some,
            Option.toList_none, List.length_nil]
          omega
        · next hitems =>
          obtain rfl := Option.some.inj hs
          simp only [steps, hitems, List.length_cons]
          omega

theorem exists_publisherStep (hreturned : s.returned = false) (hqueue : s.queue ≠ []) :
    ∃ s', c.consumeAsyncQueue.step s .publisher = some s' := by
  simp only [consumeAsyncQueue, hreturned, Bool.false_eq_true, if_false]
  rw [Consumption.publisherStep]
  split
  · exact ⟨_, rfl⟩
  · split
    · next hnil => exact absurd hnil hqueue
    · exact ⟨_, rfl⟩
    · exact ⟨_, rfl⟩

/-- Where the consumer waits for room in the queue, the publisher goes on. -/
theorem HandsOver.exists_step_of_put (h : c.HandsOver s sent queued)
    {item : Option (PublishStreamEventRequest β)} {phase : ConsumePhase β}
    (hjoined : s.phase.joined = false) (hstep : c.consumerStep s = c.put s item phase) :
    ∃ a s', c.consumeAsyncQueue.step s a = some s' := by
  by_cases hfull : 0 < c.maxsize ∧ c.maxsize ≤ s.queue.length
  · have hreturned : s.returned = false :=
      Bool.eq_false_iff.mpr fun heq => absurd (h.returned heq).1 (hjoined ▸ Bool.false_ne_true)
    have hqueue : s.queue ≠ [] := by
      rintro heq
      rw [heq] at hfull
      exact absurd hfull.1 (Nat.not_lt.mpr hfull.2)
    exact ⟨_, c.exists_publisherStep hreturned hqueue⟩
  · exact ⟨.consumer, _, hstep.trans (if_neg hfull)⟩

/-- **No deadlock**: while the path has not ended, one of the tasks goes on. -/
theorem HandsOver.exists_step (h : c.HandsOver s sent queued) :
    (∃ raised, s.phase = .done raised) ∨ ∃ a s', c.consumeAsyncQueue.step s a = some s' := by
  cases hphase : s.phase with
  | done raised => exact .inl ⟨raised, rfl⟩
  | streaming =>
    refine .inr ⟨.consumer, ?_⟩
    simp only [consumeAsyncQueue, Consumption.consumerStep, hphase]
    split
    · split <;> exact ⟨_, rfl⟩
    · split <;> exact ⟨_, rfl⟩
  | enqueueing request =>
    have hstep : c.consumerStep s = c.put s (some request) .streaming := by
      rw [Consumption.consumerStep, hphase]
    exact .inr (h.exists_step_of_put (hphase ▸ rfl) hstep)
  | failing e request =>
    have hstep : c.consumerStep s = c.put s (some request) (.closing (some (.exception e))) := by
      rw [Consumption.consumerStep, hphase]
    exact .inr (h.exists_step_of_put (hphase ▸ rfl) hstep)
  | closing raised =>
    have hstep : c.consumerStep s = c.put s none (.joining raised) := by
      rw [Consumption.consumerStep, hphase]
    exact .inr (h.exists_step_of_put (hphase ▸ rfl) hstep)
  | joining raised =>
    right
    cases hreturned : s.returned with
    | true =>
      refine ⟨.consumer, { s with phase := .done raised }, ?_⟩
      simp only [consumeAsyncQueue, Consumption.consumerStep, hphase, hreturned, if_true]
    | false =>
      have hqueue := h.queue
      rw [hphase, hreturned] at hqueue
      exact ⟨_, c.exists_publisherStep hreturned (by simp [hqueue, ConsumePhase.joined])⟩

variable (c)

/-- **The queued path ends.** -/
theorem exists_consumes : ∃ e, c.Consumes e .asyncQueue := by
  have hinit : c.consumeAsyncQueue.Reachable Machine.free { events := c.events } := .init rfl
  obtain ⟨s, hs, raised, hphase⟩ := hinit.exists_end
    (F := fun s => ∃ raised, s.phase = .done raised) steps fun s hs => by
      obtain ⟨sent, queued, h⟩ := handsOver_of_reachable hs
      exact h.exists_step.imp_right fun ⟨a, s', hstep⟩ => ⟨a, s', trivial, hstep, steps_lt hstep⟩
  exact ⟨⟨s.published, s.exhausted, raised⟩, s, hs, hphase, rfl, rfl⟩

variable {c}

theorem eq_of_consumes {e : ConsumeEnd β} (h : c.Consumes e .asyncQueue) :
    e = { c.handed with published := c.accepted c.handed.published } := by
  obtain ⟨s, hs, hphase, hpublished, hexhausted⟩ := h
  obtain ⟨sent, queued, h⟩ := handsOver_of_reachable hs
  obtain ⟨hraised, hexhausted', hpublished'⟩ := h.end_eq hphase
  cases e
  simp only [ConsumeEnd.mk.injEq]
  exact ⟨hpublished.symm.trans hpublished', hexhausted.symm.trans hexhausted', hraised⟩

variable (c)

/-- A stream that raises nothing is exhausted. -/
theorem exhausted_handedFrom {events : List (String × α)}
    (h : (c.handedFrom events).raised = none) : (c.handedFrom events).exhausted = true := by
  induction events with
  | nil =>
    rw [handedFrom] at h ⊢
    split at h
    · rfl
    · cases h
    · cases h
  | cons event events ih =>
    obtain ⟨mode, payload⟩ := event
    cases hdump : c.dumpb payload with
    | error exception =>
      rw [c.handedFrom_of_error hdump] at h
      cases h
    | ok message =>
      rw [c.handedFrom_of_ok hdump] at h ⊢
      exact ih h

end Consumption

/-! ### The worker -/

theorem runEnd_eq_success {raised : Option Raised} (h : runEnd raised = some .success) :
    raised = none := by
  unfold runEnd at h
  split at h <;> first | rfl | cases h

theorem executionEnd_eq_success {β : Type} {e : ConsumeEnd β}
    (h : executionEnd e = some .success) : e.raised = none :=
  Option.map_eq_none_iff.mp (runEnd_eq_success h)

theorem attemptEnd_eq_success {maxRetries attempt : ℕ} {run : Run} {execution : RunEnd}
    (h : attemptEnd maxRetries attempt run execution = .success) : execution = .success := by
  rw [attemptEnd] at h
  split at h
  · cases h
  · exact h

namespace Consumption

variable {α β : Type} (c : Consumption α β)

/-- The run is a success only if the stream was exhausted. -/
def RunsToEnd (path : PublishPath) : Prop :=
  ∀ e, c.Consumes e path → ∀ (maxRetries attempt : ℕ) (run : Run) (execution : RunEnd),
    executionEnd e = some execution → attemptEnd maxRetries attempt run execution = .success →
      e.exhausted = true

/-- Where no call fails, both paths publish the same and end the same way. -/
def SameWhenPublished : Prop :=
  (∀ n, (c.calls n).succeeds = true) → ∀ e, c.Consumes e .asyncQueue → e = c.consumeInline

/-- A success is a `consume` that returns. -/
theorem runsToEnd_of_raised {path : PublishPath} :
    c.RunsToEnd path ↔ ∀ e, c.Consumes e path → e.raised = none → e.exhausted = true := by
  constructor
  · intro h e he hraised
    refine h e he 0 0 { runId := 0, threadId := 0, assistantId := 0 } .success ?_ rfl
    rw [executionEnd, hraised]
    rfl
  · intro h e he maxRetries attempt run execution hexecution hattempt
    obtain rfl := attemptEnd_eq_success hattempt
    exact h e he (executionEnd_eq_success hexecution)

/-- **A run that succeeds ran to its end**: on the queued path always, on the inline path where no
event fails to be published and the stream does not end with a failure to publish.  Where no call
fails, the paths publish the same and end the same way, unless the stream ends with a failure to
publish.  The queued path ends. -/
theorem runsToEnd_iff :
    (∀ path, c.RunsToEnd path ↔ path = .asyncQueue ∨ c.Undisturbed) ∧
      (c.SameWhenPublished ↔
        (∃ n, (c.calls n).succeeds = false) ∨ ¬ c.Swallowed c.events) ∧
      ∃ e, c.Consumes e .asyncQueue := by
  refine ⟨fun path => ?_, ?_, c.exists_consumes⟩
  · rw [c.runsToEnd_of_raised]
    cases path with
    | asyncQueue =>
      refine iff_of_true (fun e he hraised => ?_) (.inl rfl)
      rw [eq_of_consumes he] at hraised ⊢
      exact c.exhausted_handedFrom hraised
    | inline =>
      have hinline := c.inlineFrom_exhausted_iff 0 c.events
      constructor
      · exact fun h => .inr (hinline.mp (h _ rfl))
      · rintro (hpath | h) e rfl hraised
        · cases hpath
        · exact hinline.mpr h hraised
  · constructor
    · intro h
      by_cases hcalls : ∃ n, (c.calls n).succeeds = false
      · exact .inl hcalls
      · replace hcalls : ∀ n, (c.calls n).succeeds = true :=
          fun n => Bool.eq_true_of_not_eq_false fun hn => hcalls ⟨n, hn⟩
        refine .inr fun hswallowed => ?_
        obtain ⟨e, he⟩ := c.exists_consumes
        obtain ⟨hnone, hsome⟩ := (c.inlineFrom_of_succeeds hcalls 0 c.events).2 hswallowed
        have hraised := congrArg ConsumeEnd.raised ((eq_of_consumes he).symm.trans (h hcalls e he))
        exact hsome (hraised.trans hnone)
    · rintro (⟨n, hn⟩ | hswallowed) hcalls e he
      · exact absurd (hcalls n) (hn ▸ Bool.false_ne_true)
      · have hsame := (c.inlineFrom_of_succeeds hcalls 0 c.events).1 hswallowed
        rw [eq_of_consumes he, c.accepted_eq hcalls]
        exact hsame.symm

/-- A call whose first attempt fails with a code that is not retried. -/
def failedCall : PublishCall := ⟨10, [.error .invalidArgument "thread_id" 0], rfl⟩

/-- Two events; the first fails to be published. -/
def twoEvents : Consumption String String where
  events := [("metadata", "1"), ("values", "2")]
  ending := none
  resumable := false
  streamModes := ["values"]
  calls n := if n = 0 then failedCall else ⟨10, [.ok], rfl⟩
  dumpb := .ok
  dumpbError e := .ok e.described.message
  maxsize := 100

/-- A stream that ends with a group whose first exception is a failure to publish. -/
def endsUnpublished : Consumption String String :=
  { twoEvents with
    ending := some (.exception (.group ⟨"ExceptionGroup", "unhandled errors"⟩
      (streamPublishException .unavailable "")))
    calls := fun _ => ⟨10, [.ok], rfl⟩ }

/-- The run is a success after its first event; and where nothing fails to be published, the paths
do not end the same way. -/
theorem not_runsToEnd :
    (¬ ∀ path, twoEvents.RunsToEnd path) ∧ ¬ endsUnpublished.SameWhenPublished := by
  constructor
  · intro h
    have hexhausted := h .inline _ rfl 3 1 { runId := 1, threadId := 1, assistantId := 1 }
      .success (by decide) rfl
    exact absurd hexhausted (by decide)
  · intro h
    obtain ⟨e, he⟩ := endsUnpublished.exists_consumes
    have hraised := congrArg ConsumeEnd.raised
      ((eq_of_consumes he).symm.trans (h (fun _ => rfl) e he))
    exact absurd hraised (by decide)

/-- **The queue loses and reorders nothing**: whichever task moves next, the calls so far are those
of the first requests of the stream, what was accepted of them is published, and what is called now
and what waits come next. -/
theorem published_inOrder {s : AsyncQueue α β}
    (hs : c.consumeAsyncQueue.Reachable Machine.free s) :
    ∃ sent, s.called = sent.length ∧ s.published = c.accepted sent ∧
      sent ++ s.publishing.toList ++ s.queue.filterMap id <+: c.handed.published := by
  obtain ⟨sent, queued, h⟩ := handsOver_of_reachable hs
  have hqueued : s.queue.filterMap id = queued := by
    rw [h.queue, List.filterMap_append, List.filterMap_map]
    split <;> simp
  refine ⟨sent, h.called, h.published, ?_⟩
  rw [hqueued, h.handed]
  exact List.prefix_append _ _

/-- The first call has failed, and the second event is being published. -/
theorem published_inOrder_twoEvents : ∃ s, twoEvents.consumeAsyncQueue.Reachable Machine.free s ∧
    (s.called = 1 ∧ s.publishing.isSome = true) ∧
      ∃ sent, s.called = sent.length ∧ s.published = twoEvents.accepted sent ∧
        sent ++ s.publishing.toList ++ s.queue.filterMap id <+: twoEvents.handed.published := by
  obtain ⟨s, hs, hp⟩ := Machine.exists_reachable twoEvents.consumeAsyncQueue Machine.free
    (show twoEvents.consumeAsyncQueue.init { events := twoEvents.events } from rfl)
    [.consumer, .consumer, .consumer, .consumer, .publisher, .publisher, .publisher]
    (fun s => s.called = 1 && s.publishing.isSome) (by decide +kernel)
  simp only [Bool.and_eq_true, decide_eq_true_eq] at hp
  exact ⟨s, hs, hp, published_inOrder _ hs⟩

end Consumption

end NextRole
