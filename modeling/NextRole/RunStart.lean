import NextRole.Api.EventStreaming
import NextRole.Api.Runs

/-!
# What `run.start` takes for the answer to an interrupt

An input is the answer to an interrupt when the thread waits for one.  The code asks
three sources: the state of the thread, the interrupts that the session has seen, and
the status of the run that the connection is bound to.  A run that was cancelled has
the status `interrupted` too, and then a new input becomes the answer to an interrupt
that does not exist.

* `AsResume`, `AsInput` — the two ways in which a payload carries an input.
* `ThreadRunManager.stateless` — the connection of a single request.
* `StartSound` — the input is a resume only if the thread waits for one, and the
  stateless connection builds the same payload.
* `startSound_iff` — **so it is exactly when the thread waits for an input, or neither
  the bound run nor the session says that it does**.
* `not_startSound` — an input after a cancel.
-/

namespace NextRole

/-- The payload carries the input as the answer to an interrupt. -/
def AsResume (payload input : Json) : Prop :=
  payload.get? "command" = some (.obj [("resume", input)]) ∧ payload.get? "input" = some .null

/-- The payload carries the input as input of the graph. -/
def AsInput (payload input : Json) : Prop :=
  payload.get? "input" = some input ∧ payload.get? "command" = some .null

/-- The connection of a single request, which has neither a session nor a run. -/
def ThreadRunManager.stateless (manager : ThreadRunManager) : ThreadRunManager :=
  { manager with session := none, currentRunId := none }

/-- A payload carries the input as it should, and the stateless connection builds it too. -/
structure StartSound (supported : Bool) (manager : ThreadRunManager) (d : Database)
    (fetched : Option (List StateTask)) (assistantId : String) (params input payload : Json) :
    Prop where
  carried : AsResume payload input ∨ AsInput payload input
  resume : AsResume payload input → fetched.any hasInterrupts = true
  stateless : createOrResumeRun supported manager.stateless d fetched assistantId params = .ok payload

/-- Neither the bound run nor the session claims an interrupt. -/
def ClaimsNoInterrupt (manager : ThreadRunManager) (d : Database) : Prop :=
  (∀ run ∈ fetchCurrentRun manager d, run.status ≠ .interrupted) ∧
    ∀ session ∈ manager.session, session.pendingInterrupts = []

/-! ### The two payloads -/

theorem asResume_startPayload {assistantId : String} {params config input : Json}
    {checkpointId : Option String} (h : param params "input" = some input) :
    AsResume (startPayload assistantId params config checkpointId true) input := by
  simp [AsResume, startPayload, h, orNull, List.lookup_cons]

theorem asInput_startPayload {assistantId : String} {params config input : Json}
    {checkpointId : Option String} (h : param params "input" = some input) :
    AsInput (startPayload assistantId params config checkpointId false) input := by
  simp [AsInput, startPayload, h, orNull, List.lookup_cons]

theorem AsInput.not_asResume {payload input : Json} (h : AsInput payload input) :
    ¬ AsResume payload input := by
  intro hresume
  have hcommand := hresume.1.symm.trans h.2
  cases hcommand

theorem isResume_stateless {manager : ThreadRunManager} {d : Database}
    {fetched : Option (List StateTask)} {params input : Json}
    (h : param params "input" = some input) :
    isResume manager.stateless d fetched params = fetched.any hasInterrupts := by
  simp [isResume, h, fetchCurrentRun, ThreadRunManager.stateless, hasPendingInterrupts]

/-- What the other two sources say counts only where the state says nothing. -/
theorem isResume_eq_iff {manager : ThreadRunManager} {d : Database}
    {fetched : Option (List StateTask)} {params input : Json}
    (h : param params "input" = some input) :
    isResume manager d fetched params = fetched.any hasInterrupts ↔
      fetched.any hasInterrupts = true ∨ ClaimsNoInterrupt manager d := by
  have hsplit : isResume manager d fetched params =
      ((fetchCurrentRun manager d).any (fun run => run.status = .interrupted) ||
        (manager.session.any (fun session => !session.pendingInterrupts.isEmpty) ||
          fetched.any hasInterrupts)) := by
    simp [isResume, h, hasPendingInterrupts]
  have hclaims : ClaimsNoInterrupt manager d ↔
      (fetchCurrentRun manager d).any (fun run => run.status = .interrupted) = false ∧
        manager.session.any (fun session => !session.pendingInterrupts.isEmpty) = false := by
    simp [ClaimsNoInterrupt, Option.any_eq_false]
  rw [hsplit, hclaims]
  cases fetched.any hasInterrupts <;> simp

/-- What a start that succeeds builds. -/
theorem createOrResumeRun_eq_ok {supported : Bool} {manager : ThreadRunManager} {d : Database}
    {fetched : Option (List StateTask)} {assistantId : String} {params payload : Json}
    (h : createOrResumeRun supported manager d fetched assistantId params = .ok payload) :
    ∃ config checkpointId, payload = startPayload assistantId params config checkpointId
        (isResume manager d fetched params) ∧
      createOrResumeRun supported manager.stateless d fetched assistantId params =
        .ok (startPayload assistantId params config checkpointId
          (isResume manager.stateless d fetched params)) := by
  unfold createOrResumeRun at h ⊢
  have hid : manager.stateless.threadId = manager.threadId := rfl
  rw [hid]
  cases supported with
  | false => cases h
  | true =>
    rw [if_pos rfl] at h ⊢
    cases hconfig : runConfig manager.threadId params with
    | error e =>
      rw [hconfig] at h
      cases h
    | ok config =>
      rw [hconfig] at h
      cases hcheckpoint : checkpointIdFromRunStartConfig params with
      | error e =>
        rw [hcheckpoint] at h
        cases h
      | ok checkpointId =>
        rw [hcheckpoint] at h
        cases h
        exact ⟨config, checkpointId, rfl, rfl⟩

/-- **`run.start` swallows no input** and the connections agree, for a run that is
created from a non-null input, iff the state of the thread has a pending interrupt or
neither the status of the bound run nor the session claims one. -/
theorem startSound_iff {supported : Bool} {manager : ThreadRunManager} {d : Database}
    {fetched : Option (List StateTask)} {assistantId : String} {params input payload : Json}
    (hinput : param params "input" = some input)
    (hok : createOrResumeRun supported manager d fetched assistantId params = .ok payload) :
    StartSound supported manager d fetched assistantId params input payload ↔
      fetched.any hasInterrupts = true ∨ ClaimsNoInterrupt manager d := by
  rw [← isResume_eq_iff hinput]
  obtain ⟨config, checkpointId, hpayload, hstateless⟩ := createOrResumeRun_eq_ok hok
  rw [isResume_stateless hinput] at hstateless
  have hresume := @asResume_startPayload assistantId params config input checkpointId hinput
  have hasInput := @asInput_startPayload assistantId params config input checkpointId hinput
  constructor
  · rintro ⟨-, -, hsame⟩
    have heq := Except.ok.inj (hstateless.symm.trans hsame)
    rw [hpayload] at heq
    -- the two payloads differ where the answers do
    cases hb : isResume manager d fetched params <;> cases hp : fetched.any hasInterrupts
    · rfl
    · rw [hb, hp] at heq
      exact absurd (heq ▸ hresume) hasInput.not_asResume
    · rw [hb, hp] at heq
      exact absurd (heq.symm ▸ hresume) hasInput.not_asResume
    · rfl
  · intro heq
    rw [heq] at hpayload
    subst hpayload
    refine ⟨?_, ?_, hstateless⟩
    · cases fetched.any hasInterrupts with
      | true => exact Or.inl hresume
      | false => exact Or.inr hasInput
    · intro h
      cases hp : fetched.any hasInterrupts with
      | true => rfl
      | false =>
        rw [hp] at h
        exact absurd h hasInput.not_asResume

/-! ### After a cancel -/

/-- A run of `oneThread` is created and cancelled while it is pending. -/
def cancelledRun : Database :=
  executeAll [enqueue 100, .cancelRuns [100] .interrupt 1] oneThread

/-- A connection to its thread that has seen it. -/
def boundManager : ThreadRunManager := { threadId := 10, currentRunId := some 100 }

/-- A new message for the thread. -/
def newMessage : Json := .obj [("input", .str "hello")]

/-- A connection that has not seen the run builds what it should. -/
theorem startSound_iff_witness :
    ∃ payload, StartSound true { threadId := 10 } cancelledRun (some []) "1" newMessage
        (.str "hello") payload ↔
      (some ([] : List StateTask)).any hasInterrupts = true ∨
        ClaimsNoInterrupt { threadId := 10 } cancelledRun :=
  ⟨_, startSound_iff rfl rfl⟩

/-- On the connection that has seen the cancelled run, the message becomes the answer
to an interrupt. -/
theorem not_startSound :
    ¬ ∀ (rpcs : List Rpc) (manager : ThreadRunManager) (fetched : List StateTask)
      (assistantId : String) (params input payload : Json), param params "input" = some input →
        createOrResumeRun true manager (executeAll rpcs oneThread) (some fetched) assistantId params =
            .ok payload →
          StartSound true manager (executeAll rpcs oneThread) (some fetched) assistantId params input
            payload := by
  intro h
  have hsound := h [enqueue 100, .cancelRuns [100] .interrupt 1] boundManager [] "1" newMessage
    (.str "hello") _ rfl rfl
  have hresume : isResume boundManager cancelledRun (some []) newMessage = true := by decide +kernel
  have hcarried := hsound.resume ⟨by decide +kernel, by decide +kernel⟩
  cases hcarried

end NextRole
