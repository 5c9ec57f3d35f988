import NextRole.Api.CronAuth

/-!
# What a cron is bound to

The API asks the handlers of the deployment which threads and which assistants the caller may read,
and sends the filters with the request.  `Create` reads none of them: whatever the tables admit is
inserted.

## Main definitions

* `CreateCronMessage` — the request with its filters.
* `CronHandlers`, `cronMessage` — what `Crons.put` sends.
* `MayUse`, `CronBound` — what the caller may use, and a row that is bound to it.

## Main results

* `putCron_eq` — the routes send such a message.
* `cronBound_iff` — **when a cron is bound to what its creator may use**, and `not_cronBound`.
-/

namespace NextRole

/-- A `CreateCronRequest` as it is sent, with the filters that the handlers of the API gave. -/
structure CreateCronMessage extends CreateCronRequest where
  filters : List AuthFilter := []
  assistantFilters : List AuthFilter := []
  threadFilters : List AuthFilter := []

/-- `Create`: the statement has no condition of the filters. -/
def CreateCronMessage.create (croniter : String → Timestamp → Option Timestamp)
    (message : CreateCronMessage) (freshId : Uuid) (now : Timestamp) (d : Database) :
    Except CreateCronFailure (Cron × Database) :=
  createCron croniter message.toCreateCronRequest freshId now d

/-! ### What the API sends -/

/-- The handlers of a deployment: what they make of the metadata of a cron that is created, and the
filters that they return; `none` is an exception. -/
structure CronHandlers where
  stamp : Json → Json
  createsCron : Json → Option (List AuthFilter)
  readsAssistant : Json → Option (List AuthFilter)
  readsThread : Uuid → Json → Option (List AuthFilter)

/-- The message of `Crons.put`.  No handler is asked about a system assistant, and about a thread
only if there is one. -/
def cronMessage (deployment : CronDeployment) (handlers : CronHandlers) (isSystem : Json → Bool)
    (caller : Caller) (threadId : Option Uuid) (body : CronPatch) : Option CreateCronMessage := do
  let assistantId ← (body.others.lookup "assistant_id").bind deployment.getAssistantId
  let schedule ← body.schedule
  let metadata := handlers.stamp (.obj (body.metadata.getD []))
  let filters ← handlers.createsCron metadata
  let assistantFilters ←
    if isSystem assistantId then some [] else handlers.readsAssistant assistantId
  let threadFilters ←
    match threadId with
    | none => some []
    | some threadId => handlers.readsThread threadId metadata
  let payload := (body.withDefaults assistantId).dict.map fun kv =>
    if kv.1 = "metadata" then (kv.1, metadata) else kv
  let p ← payloadDictToProto deployment.host payload
  some {
    payload := p
    schedule := schedule
    threadId := threadId
    userId := caller
    endTime := body.endTime.map IsoTime.instant
    metadataJson := if truthy (some metadata) then some metadata else none
    onRunCompleted := if threadId.isNone then some (body.onRunCompleted.getD .delete) else none
    enabled := body.enabled.getD true
    timezone := body.timezone
    filters := filters
    assistantFilters := assistantFilters
    threadFilters := threadFilters }

/-- The handlers of `agents/auth.py`. -/
def ownerHandlers (caller : Caller) : CronHandlers where
  stamp := stampOwner caller
  createsCron _ := some (authFilters caller)
  readsAssistant _ := some (authFilters caller)
  readsThread _ _ := some (authFilters caller)

/-- The routes of this deployment send the message that its handlers give. -/
theorem putCron_eq (deployment : CronDeployment) (isSystem : Json → Bool) (caller : Caller)
    (threadId : Option Uuid) (body : CronPatch) (freshId : Uuid) (now : Timestamp) (d : Database) :
    putCron deployment caller threadId body freshId now d =
      (cronMessage deployment (ownerHandlers caller) isSystem caller threadId body).bind
        fun message => (message.create deployment.croniter freshId now d).toOption := by
  unfold putCron cronMessage
  cases ((body.others.lookup "assistant_id").bind deployment.getAssistantId) with
  | none => rfl
  | some assistantId =>
    cases body.schedule with
    | none => rfl
    | some schedule =>
      simp only [Option.bind_eq_bind, Option.bind_some, ownerHandlers]
      -- the filters are given whether or not the assistant is of the system and a thread is named
      cases hpayload : payloadDictToProto deployment.host ((body.withDefaults assistantId).dict.map
          fun kv => if kv.1 = "metadata"
            then (kv.1, stampOwner caller (.obj (body.metadata.getD []))) else kv) with
      | none => cases isSystem assistantId <;> cases threadId <;> simp
      | some p =>
        cases isSystem assistantId <;> cases threadId <;> rfl

/-! ### What a cron is bound to -/

/-- What the caller may use: the thread that is named, if any, is there and the filters for threads
admit it, and so is the assistant that is named, unless it is a system assistant. -/
structure MayUse (threadFilters assistantFilters : List AuthFilter) (system : List Uuid)
    (d : Database) (threadId : Option Uuid) (assistantId : Option Json) : Prop where
  thread : ∀ k, threadId = some k →
    ∃ t ∈ d.thread, t.threadId = k ∧ admits threadFilters t.metadata = true
  assistant : ∃ a ∈ d.assistant, assistantId = some (.str a.assistantId.text) ∧
    (a.assistantId ∈ system ∨ admits assistantFilters a.metadata = true)

/-- A cron is bound to what its creator may use. -/
def CronBound (message : CreateCronMessage) (system : List Uuid) (d : Database) (c : Cron) : Prop :=
  MayUse message.threadFilters message.assistantFilters system d c.threadId
    (c.payload.get? "assistant_id")

theorem assistantId_row (request : CreateCronRequest) (cronId : Uuid) (assistantId : Option Uuid)
    (nextRunDate : Timestamp) :
    (request.row cronId assistantId nextRunDate).payload.get? "assistant_id" =
      request.payload.toDict.get? "assistant_id" := by
  rw [CreateCronRequest.row, CreateCronRequest.storedPayload]
  show (Json.set request.payload.toDict "config" _).get? "assistant_id" = _
  exact Json.get?_set_of_ne _ _ (by decide)

theorem mayUse_put {threadFilters assistantFilters : List AuthFilter} {system : List Uuid}
    {d : Database} {threadId : Option Uuid} {assistantId : Option Json} (c : Cron) :
    MayUse threadFilters assistantFilters system { d with cron := d.cron.put c } threadId
        assistantId ↔
      MayUse threadFilters assistantFilters system d threadId assistantId :=
  ⟨fun h => ⟨h.thread, h.assistant⟩, fun h => ⟨h.thread, h.assistant⟩⟩

/-- A request that is admitted and inserts a bound cron alone names what may be used. -/
theorem mayUse_of_cronBound {croniter : String → Timestamp → Option Timestamp}
    {message : CreateCronMessage} {system : List Uuid} {freshId : Uuid} {now : Timestamp}
    {d : Database}
    (h : ∀ c d', message.create croniter freshId now d = .ok (c, d') →
      CronBound message system d' c)
    (hschedule : croniter message.schedule now ≠ none) (hadmitted : message.Admitted freshId d) :
    MayUse message.threadFilters message.assistantFilters system d message.threadId
      (message.payload.toDict.get? "assistant_id") := by
  obtain ⟨nextRunDate, hnext⟩ := Option.ne_none_iff_exists'.mp hschedule
  obtain ⟨assistantId, hassistant⟩ := Option.isSome_iff_exists.mp hadmitted.2.1
  have hbound := h _ _ (createCron_eq_ok.mpr
    ⟨hadmitted, nextRunDate, assistantId, hnext, hassistant, rfl, rfl⟩)
  rw [CronBound, assistantId_row, mayUse_put] at hbound
  exact hbound

/-- **When a cron is bound to what its creator may use**: exactly if the request names such a thread
and such an assistant, or the schedule is invalid or the tables do not admit the row. -/
theorem cronBound_iff (croniter : String → Timestamp → Option Timestamp)
    (message : CreateCronMessage) (system : List Uuid) (freshId : Uuid) (now : Timestamp)
    (d : Database) :
    (∀ c d', message.create croniter freshId now d = .ok (c, d') → CronBound message system d' c) ↔
      croniter message.schedule now = none ∨ ¬ message.Admitted freshId d ∨
        MayUse message.threadFilters message.assistantFilters system d message.threadId
          (message.payload.toDict.get? "assistant_id") := by
  constructor
  · intro h
    rw [or_iff_not_imp_left, or_iff_not_imp_left, not_not]
    exact mayUse_of_cronBound h
  · intro h c d' hcreate
    obtain ⟨hadmitted, nextRunDate, assistantId, hnext, -, rfl, rfl⟩ := createCron_eq_ok.mp hcreate
    rw [CronBound, assistantId_row, mayUse_put]
    rcases h with hschedule | hnot | hmay
    · rw [hnext] at hschedule
      cases hschedule
    · exact absurd hadmitted hnot
    · exact hmay

/-! ### A thread of someone else -/

/-- A thread of `alice`, and an assistant of the system. -/
def aliceStore : Database :=
  { Database.fresh (Table.empty.put { assistantId := 7, graphId := "agent" }) with
    thread := Table.empty.put { threadId := 1, metadata := .obj [("owner", .str "alice")] } }

/-- `bob` asks for a cron on that thread. -/
def bobCron : CreateCronMessage where
  payload := { assistantId := Uuid.text 7 }
  schedule := "* * * * *"
  threadId := some 1
  userId := some "bob"
  threadFilters := ownerFilter "bob"
  assistantFilters := []

/-- The cron is inserted on the thread of `alice`. -/
theorem not_cronBound : ¬ ∀ (croniter : String → Timestamp → Option Timestamp)
    (message : CreateCronMessage) (system : List Uuid) (freshId : Uuid) (now : Timestamp)
    (d : Database) (c : Cron) (d' : Database),
    message.create croniter freshId now d = .ok (c, d') → CronBound message system d' c := by
  intro h
  have hmay := mayUse_of_cronBound (fun c d' => h (fun _ now => some (now + 60)) bobCron [7] 5 0
    aliceStore c d') (by decide) ⟨by decide +kernel, by decide +kernel, by decide +kernel⟩
  obtain ⟨t, ht, -, hadmits⟩ := hmay.thread 1 rfl
  have hnone : ∀ t ∈ aliceStore.thread, admits bobCron.threadFilters t.metadata = false := by
    decide +kernel
  rw [hnone t ht] at hadmits
  cases hadmits

end NextRole
