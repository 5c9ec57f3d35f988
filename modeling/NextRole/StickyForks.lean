import NextRole.RunMerge
import NextRole.Runtime.Checkpoint

/-!
# Forks on a thread

A request that names a checkpoint, or that is made through the second version of the streaming
API, has keys in its configurable that are meant for its run.  The query of `Create` stores the
configuration of the request on a thread that is not busy, and merges that of the thread into
every later run.

## Main definitions

* `requestKeys` — the keys of a fork, and the flag of the second version.
* `AsAsked` — a row has such keys only if its own request does.
* `FindsNone` — the thread and the assistant of a request have none that it does not ask for.
* `AskedAtFirst` — no request of a thread asks for keys that a later one does not ask for.

## Main results

* `asAsked_iff` — the rows of a request are as asked iff it finds none.
* `stored_after` — the keys of a thread are those that some earlier request asked for.
* `forksAsAsked_iff` — the runs of requests whose rows are as asked.
* `not_forksAsAsked` — a run after a fork.
-/

namespace NextRole

/-! ### The keys -/

/-- The keys that a request sets for its own run: those of a fork, and the flag of the second
version. -/
def requestKeys : List (List String) :=
  [["checkpoint_id", "checkpoint_ns", "checkpoint_map"], [eventStreamingV2ConfigKey]]

/-- Some of the keys has a value. -/
def holds (keys : List String) (get : String → Option Json) : Bool :=
  keys.any fun k => (get k).isSome

theorem holds_iff {keys : List String} {get : String → Option Json} :
    holds keys get = true ↔ ∃ k ∈ keys, ∃ v, get k = some v := by
  simp [holds, Option.isSome_iff_exists]

theorem holds_eq_false {keys : List String} {get : String → Option Json} :
    holds keys get = false ↔ ∀ k ∈ keys, get k = none := by
  simp [holds]

/-- The request of a call has some of the keys. -/
def CreateCall.asks (call : CreateCall) (keys : List String) : Bool :=
  holds keys (configurableOf call.params.config).get?

/-- A row has the keys of a request only if its own request does. -/
def AsAsked (call : CreateCall) (run : Run) : Prop :=
  ∀ keys ∈ requestKeys, holds keys run.configurable? = true → call.asks keys = true

/-- The thread and the assistant of a run have no keys that its request does not ask for. -/
def FindsNone (d : Database) (call : CreateCall) : Prop :=
  ∀ assistant, createAssistant call.params d = some assistant →
    ∀ thread ∈ runThread call.params d d, mergeable thread assistant = true →
      ∀ keys ∈ requestKeys, call.asks keys = false →
        holds keys (configurableOf thread.config).get? = false ∧
          holds keys (configurableOf assistant.config).get? = false

/-- A call that a request makes: through the first version with its own payload, through the
second with that of `createOrResumeRun`. -/
def Requested (call : CreateCall) : Prop :=
  ∃ host context threadId temporary payload,
    createCall host context threadId temporary payload = some call

/-! ### One request -/

theorem get?_runConfigurable_eq_none {keys : List String} (hkeys : keys ∈ requestKeys)
    {k : String} (hk : k ∈ keys) (p : CreateParams) (thread : Thread) (assistant : Assistant) :
    (runConfigurable p thread assistant).get? k = none := by
  have hne : k ≠ "run_id" ∧ k ≠ "thread_id" ∧ k ≠ "graph_id" ∧ k ≠ "assistant_id" ∧
      k ≠ "user_id" := by
    refine ⟨?_, ?_, ?_, ?_, ?_⟩ <;> (rintro rfl; revert keys; decide)
  have hbeq : ∀ k', k ≠ k' → (k == k') = false := fun k' h => by simpa using h
  simp [runConfigurable, Json.get?, List.lookup_cons, hbeq, hne]

/-- The rows of a call are as asked iff what is stored has no keys that it does not ask for. -/
theorem asAsked_insertRun_iff {call : CreateCall} (hcall : Requested call) (thread : Thread)
    (assistant : Assistant) :
    AsAsked call (insertRun call.params thread assistant) ↔
      (mergeable thread assistant = true → ∀ keys ∈ requestKeys, call.asks keys = false →
        holds keys (configurableOf thread.config).get? = false ∧
          holds keys (configurableOf assistant.config).get? = false) := by
  obtain ⟨host, context, threadId, temporary, payload, hcall⟩ := hcall
  obtain ⟨hconfig, hconf⟩ := createCall_configurable hcall
  have hrow := @configurable?_insertRun call.params thread assistant call.isObj_kwargs hconfig hconf
  constructor
  · intro h hstored keys hkeys hasks
    have hnone : holds keys (insertRun call.params thread assistant).configurable? = false := by
      by_contra hrow
      rw [h keys hkeys (by simpa using hrow)] at hasks
      cases hasks
    have hrow' : ∀ k ∈ keys, (configurableOf thread.config).get? k = none ∧
        (configurableOf assistant.config).get? k = none := by
      intro k hk
      have hget := holds_eq_false.mp hnone k hk
      rw [hrow, if_pos hstored, Option.or_eq_none_iff, Option.or_eq_none_iff,
        Option.or_eq_none_iff] at hget
      exact hget.2.2
    exact ⟨holds_eq_false.mpr fun k hk => (hrow' k hk).1,
      holds_eq_false.mpr fun k hk => (hrow' k hk).2⟩
  · intro h keys hkeys hholds
    obtain ⟨k, hk, v, hv⟩ := holds_iff.mp hholds
    rw [hrow] at hv
    by_cases hstored : mergeable thread assistant = true
    · rw [if_pos hstored, get?_runConfigurable_eq_none hkeys hk, Option.none_or] at hv
      by_contra hasks
      obtain ⟨hthread, hassistant⟩ := h hstored keys hkeys (by simpa using hasks)
      have hown : (configurableOf call.params.config).get? k = none :=
        holds_eq_false.mp (by simpa [CreateCall.asks] using hasks) k hk
      rw [hown, holds_eq_false.mp hthread k hk, holds_eq_false.mp hassistant k hk] at hv
      cases hv
    · rw [if_neg hstored] at hv
      cases hv

/-- The rows that a call inserts are as asked iff it finds no other keys. -/
theorem asAsked_iff {call : CreateCall} (hcall : Requested call) {d : Database}
    (hinserts : Inserts call d) :
    (∀ run ∈ insertedRun call.params d d, AsAsked call run) ↔ FindsNone d call := by
  obtain ⟨run, hrun, -⟩ := hinserts.singleton
  have hprevent : call.params.prevent = true → inflightRuns call.params d = [] :=
    (mem_insertedRun.mp (hrun ▸ List.mem_singleton_self run)).1
  constructor
  · intro h assistant hassistant thread hthread
    exact (asAsked_insertRun_iff hcall thread assistant).mp
      (h _ (mem_insertedRun.mpr ⟨hprevent, thread, hthread, assistant, hassistant, rfl⟩))
  · intro h run hrun
    obtain ⟨-, thread, hthread, assistant, hassistant, rfl⟩ := mem_insertedRun.mp hrun
    exact (asAsked_insertRun_iff hcall thread assistant).mpr (h assistant hassistant thread hthread)

/-! ### What is stored -/

/-- Whether a call leaves the configuration of every thread as it is. -/
def Rpc.setsNoConfig : Rpc → Bool
  | .createRun .. | .copyThread .. => false
  | _ => true

theorem get?_concat_cases {i j : Json} {k : String} {v : Json} (h : (i.concat j).get? k = some v) :
    j.get? k = some v ∨ i.get? k = some v := by
  cases i <;> cases j <;> try cases h
  rename_i l r
  rw [Json.get?_concat] at h
  exact (Option.or_eq_some_iff.mp h).imp id And.right

theorem get?_configurableOf_concat {config configurable : Json} {k : String} {v : Json}
    (h : (configurableOf (config.concat (.obj [("configurable", configurable)]))).get? k = some v) :
    configurable.get? k = some v := by
  cases config with
  | obj kvs =>
    rw [configurableOf, Json.get?_concat] at h
    exact h
  | _ => cases h

theorem holds_insertThread {p : CreateParams} {assistant : Assistant} {keys : List String}
    (h : holds keys (configurableOf (insertThread p assistant).config).get? = true) :
    holds keys (configurableOf p.config).get? = true ∨
      holds keys (configurableOf assistant.config).get? = true := by
  obtain ⟨k, hk, v, hv⟩ := holds_iff.mp h
  rcases get?_concat_cases (get?_configurableOf_concat hv) with hrequest | hassistant
  · exact .inl (holds_iff.mpr ⟨k, hk, v, hrequest⟩)
  · exact .inr (holds_iff.mpr ⟨k, hk, v, hassistant⟩)

/-- The keys of a thread after a call has stored its configuration there. -/
theorem holds_refreshThread {p : CreateParams} {assistant : Assistant} {thread : Thread}
    {keys : List String}
    (h : holds keys (configurableOf (refreshThread p assistant thread).config).get? = true) :
    holds keys (configurableOf p.config).get? = true ∨
      holds keys (configurableOf thread.config).get? = true ∨
        holds keys (configurableOf assistant.config).get? = true := by
  obtain ⟨k, hk, v, hv⟩ := holds_iff.mp h
  rcases get?_concat_cases (get?_configurableOf_concat hv) with hrequest | hstored
  · exact .inl (holds_iff.mpr ⟨k, hk, v, hrequest⟩)
  · rcases get?_concat_cases hstored with hthread | hassistant
    · exact .inr (.inl (holds_iff.mpr ⟨k, hk, v, hthread⟩))
    · exact .inr (.inr (holds_iff.mpr ⟨k, hk, v, hassistant⟩))

/-- The configuration of a thread after a call that sets none. -/
theorem config_of_execute {rpc : Rpc} (hrpc : rpc.setsNoConfig = true) {d : Database} {t : Thread}
    (h : t ∈ (execute rpc d).thread) :
    t.config = .obj [] ∨ ∃ t₀ ∈ d.thread, t₀.threadId = t.threadId ∧ t₀.config = t.config := by
  rcases thread_of_execute h with hold | ⟨d', hd', hwrite⟩
  · exact .inr ⟨t, hold, rfl, rfl⟩
  · cases hwrite with
    | createThread hnone => exact .inl rfl
    | patchThread ht₀ hid hadm =>
      rw [hd'] at ht₀
      exact .inr ⟨_, ht₀, rfl, rfl⟩
    | setThreadStatus ht₀ hid =>
      rw [hd'] at ht₀
      exact .inr ⟨_, ht₀, rfl, rfl⟩
    | setJointStatus ht₀ hid =>
      rw [hd'] at ht₀
      exact .inr ⟨_, ht₀, rfl, rfl⟩
    | insert | refresh | copyThread => cases hrpc

/-- A thread after the query of a call: it was there before, or has the configuration that the
query inserts or stores. -/
theorem config_of_createRun {request : CreateRunRequest} {env : CreateEnv} {d : Database}
    {t : Thread} (h : t ∈ (execute (.createRun request env) d).thread) :
    t ∈ d.thread ∨ ∃ assistant ∈ d.assistant, t.threadId = (createParams request env).threadId ∧
      (t = insertThread (createParams request env) assistant ∨
        ∃ t₀ ∈ d.thread, t = refreshThread (createParams request env) assistant t₀) := by
  rw [execute_createRun] at h
  rcases thread_of_applyAll h with hput | ⟨-, hold⟩
  · refine .inr ?_
    rcases mem_createRun hput with ⟨t', ht', heq⟩ | ⟨r, -, heq⟩ | ⟨t', ht', heq⟩
    · obtain rfl : t = t' := by simpa using heq
      obtain ⟨-, -, assistant, hassistant, rfl⟩ := insertedThread_eq_some.mp ht'
      have hmem := (Table.get?_eq_some.mp (Option.filter_eq_some_iff.mp hassistant).1).1
      exact ⟨assistant, hmem, rfl, .inl rfl⟩
    · cases heq
    · obtain rfl : t = t' := by simpa using heq
      obtain ⟨t₀, ht₀, assistant, hassistant, rfl⟩ := mem_updatedThread.mp ht'
      obtain ⟨hmem, hrun, -⟩ := Relation.mem_rechecked.mp ht₀
      have hid : t₀.threadId = (createParams request env).threadId := by
        simp only [Bool.and_eq_true, List.any_eq_true, decide_eq_true_eq] at hrun
        obtain ⟨⟨r, hr, hid⟩, -⟩ := hrun
        rw [← hid, threadId_of_mem_insertedRun hr]
      exact ⟨assistant, (Table.get?_eq_some.mp hassistant).1, hid, .inr ⟨t₀, hmem, rfl⟩⟩
  · exact .inl hold

/-! ### Requests one after the other -/

/-- A request, or another call between two of them. -/
inductive ThreadStep
  | create (call : CreateCall) (now : Timestamp)
  | other (rpc : Rpc) (h : rpc.setsNoConfig = true)

/-- The database after a step. -/
def ThreadStep.after (d : Database) : ThreadStep → Database
  | .create call now => (createValidRun call {} now d).db
  | .other rpc _ => execute rpc d

theorem db_after_create (call : CreateCall) (now : Timestamp) (d : Database) :
    ∃ rpcs : List Rpc, (∀ rpc ∈ rpcs, rpc = .createRun (createRequest call) call.env ∨
        rpc.setsNoConfig = true) ∧
      (createValidRun call {} now d).db = executeAll rpcs d := by
  obtain ⟨rpcs, hrpcs, hdb⟩ := db_createValidRun call now d
  refine ⟨rpcs, fun rpc hrpc => (hrpcs rpc hrpc).imp id ?_, hdb⟩
  rintro ⟨runIds, action, rfl⟩
  rfl

/-- Some request of the steps, on a thread, asks for keys. -/
def askedIn (steps : List ThreadStep) (threadId : Uuid) (keys : List String) : Prop :=
  ∃ call now, .create call now ∈ steps ∧ call.params.threadId = threadId ∧ call.asks keys = true

/-- The assistants have no keys of a request, and a thread has those alone that were asked for. -/
structure KeysAsked (asked : Uuid → List String → Prop) (d : Database) : Prop where
  assistant : ∀ a ∈ d.assistant, ∀ keys ∈ requestKeys,
    holds keys (configurableOf a.config).get? = false
  thread : ∀ t ∈ d.thread, ∀ keys ∈ requestKeys,
    holds keys (configurableOf t.config).get? = true → asked t.threadId keys

section Stored

variable {asked asked' : Uuid → List String → Prop} {call : CreateCall} {d : Database}

theorem KeysAsked.mono (h : KeysAsked asked d)
    (hasked : ∀ threadId keys, asked threadId keys → asked' threadId keys) : KeysAsked asked' d :=
  ⟨h.assistant, fun t ht keys hkeys hholds => hasked _ _ (h.thread t ht keys hkeys hholds)⟩

theorem KeysAsked.other (h : KeysAsked asked d) {rpc : Rpc} (hrpc : rpc.setsNoConfig = true) :
    KeysAsked asked (execute rpc d) := by
  refine ⟨fun a ha => h.assistant a (assistant_execute rpc d ▸ ha), ?_⟩
  intro t ht keys hkeys hholds
  rcases config_of_execute hrpc ht with hempty | ⟨t₀, ht₀, hid, hconfig⟩
  · rw [hempty] at hholds
    obtain ⟨k, -, v, hv⟩ := holds_iff.mp hholds
    cases hv
  · rw [← hid]
    exact h.thread t₀ ht₀ keys hkeys (hconfig ▸ hholds)

/-- The query of a request adds the keys that the request asks for. -/
theorem KeysAsked.query (h : KeysAsked asked d)
    (hcall : ∀ keys, call.asks keys = true → asked call.params.threadId keys) :
    KeysAsked asked (execute (.createRun (createRequest call) call.env) d) := by
  refine ⟨fun a ha => h.assistant a (assistant_execute _ d ▸ ha), ?_⟩
  intro t ht keys hkeys hholds
  have hassistant : ∀ a ∈ d.assistant, ¬ holds keys (configurableOf a.config).get? = true := by
    intro a ha
    simp [h.assistant a ha keys hkeys]
  rcases config_of_createRun ht with hold | ⟨a, ha, hid, rfl | ⟨t₀, ht₀, rfl⟩⟩
  · exact h.thread t hold keys hkeys hholds
  · rcases holds_insertThread hholds with hown | hstored
    · exact hcall keys hown
    · exact absurd hstored (hassistant a ha)
  · rcases holds_refreshThread hholds with hown | hthread | hstored
    · rw [hid]
      exact hcall keys hown
    · exact h.thread t₀ ht₀ keys hkeys hthread
    · exact absurd hstored (hassistant a ha)

theorem KeysAsked.executeAll (hcall : ∀ keys, call.asks keys = true → asked call.params.threadId keys)
    {rpcs : List Rpc} (hrpcs : ∀ rpc ∈ rpcs, rpc = .createRun (createRequest call) call.env ∨
      rpc.setsNoConfig = true) (h : KeysAsked asked d) :
    KeysAsked asked (NextRole.executeAll rpcs d) := by
  induction rpcs generalizing d with
  | nil => exact h
  | cons rpc rpcs ih =>
    obtain ⟨hrpc, hrest⟩ := List.forall_mem_cons.mp hrpcs
    rcases hrpc with rfl | hrpc
    · exact ih hrest (h.query hcall)
    · exact ih hrest (h.other hrpc)

/-- After a step a thread has the keys that it had, and those that the step asks for. -/
theorem KeysAsked.after {pre : List ThreadStep} (h : KeysAsked (askedIn pre) d)
    (step : ThreadStep) : KeysAsked (askedIn (pre ++ [step])) (step.after d) := by
  have hmono : KeysAsked (askedIn (pre ++ [step])) d := h.mono
    fun threadId keys ⟨call, now, hmem, hasked⟩ =>
      ⟨call, now, List.mem_append_left _ hmem, hasked⟩
  cases step with
  | create call now =>
    obtain ⟨rpcs, hrpcs, hdb⟩ := db_after_create call now d
    rw [ThreadStep.after, hdb]
    refine KeysAsked.executeAll (fun keys hasks => ?_) hrpcs hmono
    exact ⟨call, now, List.mem_append_right _ (List.mem_singleton_self _), rfl, hasks⟩
  | other rpc hrpc => exact hmono.other hrpc

theorem stored_after (h : KeysAsked (fun _ _ => False) d) (pre : List ThreadStep) :
    KeysAsked (askedIn pre) (pre.foldl ThreadStep.after d) := by
  induction pre using List.reverseRecOn with
  | nil => exact h.mono fun _ _ hfalse => hfalse.elim
  | append_singleton pre step ih =>
    rw [List.foldl_append, List.foldl_cons, List.foldl_nil]
    exact ih.after step

/-- A request that asks for all that was asked for on its thread finds no other keys. -/
theorem KeysAsked.findsNone (h : KeysAsked asked d)
    (hcall : ∀ keys ∈ requestKeys, asked call.params.threadId keys → call.asks keys = true) :
    FindsNone d call := by
  intro assistant hassistant thread hthread _ keys hkeys hasks
  have hmem := (Table.get?_eq_some.mp (Option.filter_eq_some_iff.mp hassistant).1).1
  have hnone := h.assistant assistant hmem keys hkeys
  refine ⟨?_, hnone⟩
  by_contra hholds
  rcases mem_runThread.mp hthread with ⟨hstored, hid, -⟩ | hinserted
  · have hasked := h.thread thread hstored keys hkeys (by simpa using hholds)
    rw [hid] at hasked
    rw [hcall keys hkeys hasked] at hasks
    cases hasks
  · obtain ⟨-, -, a, ha, rfl⟩ := insertedThread_eq_some.mp hinserted
    obtain rfl : assistant = a := Option.some.inj (hassistant.symm.trans ha)
    rcases holds_insertThread (by simpa using hholds) with hown | hassistant
    · rw [show call.asks keys = true from hown] at hasks
      cases hasks
    · rw [hnone] at hassistant
      cases hassistant

end Stored

/-- The rows that the requests of a run insert are as asked. -/
def ForksAsAsked (d : Database) (steps : List ThreadStep) : Prop :=
  ∀ pre call now, pre ++ [.create call now] <+: steps →
    Inserts call (pre.foldl ThreadStep.after d) →
      ∀ run ∈ insertedRun call.params (pre.foldl ThreadStep.after d)
        (pre.foldl ThreadStep.after d), AsAsked call run

/-- A request asks for the keys that an earlier one of its thread asked for. -/
def AlwaysAsked (steps : List ThreadStep) : Prop :=
  ∀ pre call now, pre ++ [.create call now] <+: steps → ∀ keys ∈ requestKeys,
    askedIn pre call.params.threadId keys → call.asks keys = true

/-- The rows of a run are as asked iff every request finds no other keys; and from a database
without such keys it is enough that each one asks for those that earlier ones of its thread did. -/
theorem forksAsAsked_iff (d : Database) (steps : List ThreadStep)
    (hsteps : ∀ call now, .create call now ∈ steps → Requested call) :
    (ForksAsAsked d steps ↔ ∀ pre call now, pre ++ [.create call now] <+: steps →
      Inserts call (pre.foldl ThreadStep.after d) →
        FindsNone (pre.foldl ThreadStep.after d) call) ∧
    (KeysAsked (fun _ _ => False) d → AlwaysAsked steps → ForksAsAsked d steps) := by
  have hrequested : ∀ pre call now, pre ++ [.create call now] <+: steps → Requested call :=
    fun pre call now hpre => hsteps call now
      (hpre.subset (List.mem_append_right _ (List.mem_singleton_self _)))
  constructor
  · constructor
    · intro h pre call now hpre hinserts
      exact (asAsked_iff (hrequested pre call now hpre) hinserts).mp (h pre call now hpre hinserts)
    · intro h pre call now hpre hinserts
      exact (asAsked_iff (hrequested pre call now hpre) hinserts).mpr
        (h pre call now hpre hinserts)
  · intro hnone halways pre call now hpre hinserts
    exact (asAsked_iff (hrequested pre call now hpre) hinserts).mpr
      ((stored_after hnone pre).findsNone (halways pre call now hpre))

/-! ### A run after a fork -/

/-- The payload of a run of alice, which may name a checkpoint. -/
def forkPayload (checkpoint : Option String) : List (String × Json) :=
  payloadWith [] ++ [("if_not_exists", .str "create")] ++
    field "checkpoint" (checkpoint.map fun id => .obj [("checkpoint_id", .str id)])

/-- Two runs one after the other. -/
def twoRuns (first second : CreateCall) : List ThreadStep :=
  [.create first 1, .other (finish 100) rfl, .create second 7]

theorem requested_of_twoRuns {first second : CreateCall} (h₁ : Requested first)
    (h₂ : Requested second) (call : CreateCall) (now : Timestamp)
    (h : .create call now ∈ twoRuns first second) : Requested call := by
  simp only [twoRuns, List.mem_cons, List.not_mem_nil, or_false, ThreadStep.create.injEq,
    reduceCtorEq, false_or] at h
  rcases h with ⟨rfl, -⟩ | ⟨rfl, -⟩
  · exact h₁
  · exact h₂

/-- Two runs that name no checkpoint. -/
theorem forksAsAsked_twoRuns : ∃ first second : CreateCall, Requested first ∧ Requested second ∧
    Inserts second ([.create first 1, .other (finish 100) rfl].foldl ThreadStep.after
      oneAssistant) ∧ ForksAsAsked oneAssistant (twoRuns first second) := by
  let first := (createCall agentHost (requestOfAlice 100) (some 10) false
    (forkPayload none)).get (by decide +kernel)
  let second := (createCall agentHost (requestOfAlice 101) (some 10) false
    (forkPayload none)).get (by decide +kernel)
  have h₁ : Requested first := ⟨_, _, _, _, _, (Option.some_get _).symm⟩
  have h₂ : Requested second := ⟨_, _, _, _, _, (Option.some_get _).symm⟩
  have hnone : ∀ keys ∈ requestKeys, first.asks keys = false ∧ second.asks keys = false := by
    decide +kernel
  have hstored : KeysAsked (fun _ _ => False) oneAssistant :=
    ⟨by decide +kernel, fun t ht => absurd ht List.not_mem_nil⟩
  refine ⟨first, second, h₁, h₂, by decide +kernel,
    (forksAsAsked_iff oneAssistant (twoRuns first second)
      (requested_of_twoRuns h₁ h₂)).2 hstored ?_⟩
  rintro pre call now hpre keys hkeys ⟨earlier, t, hmem, -, hasks⟩
  have hsteps := hpre.subset (List.mem_append_left _ hmem)
  simp only [twoRuns, List.mem_cons, List.not_mem_nil, or_false, ThreadStep.create.injEq,
    reduceCtorEq, false_or] at hsteps
  obtain ⟨hfirst, hsecond⟩ := hnone keys hkeys
  rcases hsteps with ⟨rfl, -⟩ | ⟨rfl, -⟩
  · rw [hfirst] at hasks
    cases hasks
  · rw [hsecond] at hasks
    cases hasks

/-- The second run names no checkpoint, and its row has that of the first. -/
theorem not_forksAsAsked : ¬ ∀ (d : Database) (steps : List ThreadStep),
    (∀ call now, .create call now ∈ steps → Requested call) → ForksAsAsked d steps := by
  intro h
  let first := (createCall agentHost (requestOfAlice 100) (some 10) false
    (forkPayload (some "7"))).get (by decide +kernel)
  let second := (createCall agentHost (requestOfAlice 101) (some 10) false
    (forkPayload none)).get (by decide +kernel)
  have h₁ : Requested first := ⟨_, _, _, _, _, (Option.some_get _).symm⟩
  have h₂ : Requested second := ⟨_, _, _, _, _, (Option.some_get _).symm⟩
  have hrows := h oneAssistant (twoRuns first second) (requested_of_twoRuns h₁ h₂)
    [.create first 1, .other (finish 100) rfl] second 7 List.prefix_rfl (by decide +kernel)
  let d := [.create first 1, .other (finish 100) rfl].foldl ThreadStep.after oneAssistant
  have hforked : ∃ run ∈ insertedRun second.params d d,
      holds ["checkpoint_id", "checkpoint_ns", "checkpoint_map"] run.configurable? = true := by
    decide +kernel
  obtain ⟨run, hrun, hholds⟩ := hforked
  have hasks : second.asks ["checkpoint_id", "checkpoint_ns", "checkpoint_map"] = false := by
    decide +kernel
  rw [hrows run hrun _ List.mem_cons_self hholds] at hasks
  cases hasks

end NextRole
