import NextRole.Frontend.ToolCalls

/-!
# What a subagent's card shows

Each call that is no task is shown once, as the first of its representations has it.  A complete
call of a message is shown as the tools channel has it; an entry of `tool_call_chunks` is shown as
pending, whatever the tools channel says.

## Main definitions

* `IsNestedCall` — the calls that a card has to show.
* `NestedCallsTrue` — each of them is shown once, with the status and the result of the tools
  channel.
* `StreamsFirst` — a call that first comes as an entry of `tool_call_chunks`.

## Main results

* `flatten_nestedBatches` — the calls that are shown are the first ones of their ids.
* `nestedCallsTrue_iff` — **a card is right exactly if no call that streams first has a status**.
* `not_nestedCallsTrue` — a call that has finished is shown as pending.
-/

namespace NextRole

open List

/-! ### The calls of a message -/

/-- The ids of complete calls. -/
def callIds (toolCalls : List ToolCall) : List String :=
  (toolCalls.filter fun tc => isNested tc.id tc.name).map ToolCall.id

/-- The ids of calls whose arguments stream. -/
def chunkIds (chunks : List ToolCallChunk) : List String :=
  (chunks.filter fun chunk => isNested chunk.id chunk.name).map ToolCallChunk.id

/-- The ids of the calls of a message. -/
def StreamMessage.issuedIds (message : StreamMessage) : List String :=
  match message.body with
  | .ai toolCalls chunks => callIds toolCalls ++ chunkIds chunks
  | _ => []

/-- What a card has to show: a call of a message, or one of the tools channel. -/
def IsNestedCall (assembled : List AssembledToolCall) (messages : List StreamMessage)
    (id : String) : Prop :=
  (∃ message ∈ messages, id ∈ message.issuedIds) ∨ ∃ tc ∈ assembled, tc.name ≠ "task" ∧ tc.id = id

/-- Each call is shown once, as the tools channel has it. -/
structure NestedCallsTrue (js : JsText) (assembled : List AssembledToolCall)
    (messages : List StreamMessage) : Prop where
  once : ((nestedBatches js assembled messages).flatten.map fun c => c.id).Nodup
  complete : ∀ id, id ∈ (nestedBatches js assembled messages).flatten.map (fun c => c.id) ↔
    IsNestedCall assembled messages id
  truthful : ∀ call ∈ (nestedBatches js assembled messages).flatten, ∀ entry,
    (fromTools js assembled).get? call.id = some entry →
      call.status = entry.status ∧ call.result = entry.result

/-- A call that no message carries before one that has it among its chunks alone. -/
def StreamsFirst (messages : List StreamMessage) (id : String) : Prop :=
  ∃ before message after toolCalls chunks, messages = before ++ message :: after ∧
    message.body = .ai toolCalls chunks ∧ (∀ m ∈ before, id ∉ m.issuedIds) ∧
      id ∉ callIds toolCalls ∧ id ∈ chunkIds chunks

/-! ### The loops -/

/-- The complete calls as they are shown. -/
def shownCalls (entries : Dict String ShownCall) (toolCalls : List ToolCall) : List ShownCall :=
  (toolCalls.filter fun tc => isNested tc.id tc.name).map fun tc =>
    (entries.get? tc.id).getD
      { id := tc.id, name := tc.name, args := argsOrEmpty tc.args, status := .pending }

/-- The calls whose arguments stream as they are shown. -/
def shownChunks (js : JsText) (chunks : List ToolCallChunk) : List ShownCall :=
  (chunks.filter fun chunk => isNested chunk.id chunk.name).map fun chunk =>
    { id := chunk.id, name := chunk.name, args := parsePartialArgs js chunk.args,
      status := .pending }

/-- The calls of a message as they are shown. -/
def shownOf (js : JsText) (entries : Dict String ShownCall) (message : StreamMessage) :
    List ShownCall :=
  match message.body with
  | .ai toolCalls chunks => shownCalls entries toolCalls ++ shownChunks js chunks
  | _ => []

section Loops

variable {js : JsText} {entries : Dict String ShownCall}

/-- The key of a call that is shown. -/
abbrev shownId (call : ShownCall) : String := call.id

variable (hentries : ∀ id call, entries.get? id = some call → call.id = id)

include hentries

theorem id_shown (tc : ToolCall) : ((entries.get? tc.id).getD
    { id := tc.id, name := tc.name, args := argsOrEmpty tc.args, status := .pending }).id =
      tc.id := by
  cases h : entries.get? tc.id with
  | none => rfl
  | some call => exact hentries _ _ h

theorem foldl_pushToolCall (toolCalls : List ToolCall) (state : List ShownCall × List String) :
    toolCalls.foldl (pushToolCall entries) state =
      (shownCalls entries toolCalls).foldl (firstsStep shownId) state := by
  rw [shownCalls, foldl_map, foldl_filter]
  congr 1
  funext state tc
  rw [firstsStep, shownId, id_shown hentries]
  by_cases hnested : isNested tc.id tc.name = true <;> by_cases hseen : tc.id ∈ state.2 <;>
    simp [pushToolCall, hnested, hseen]

theorem map_shownCalls (toolCalls : List ToolCall) :
    (shownCalls entries toolCalls).map shownId = callIds toolCalls := by
  rw [shownCalls, callIds, map_map]
  exact map_congr_left fun tc _ => id_shown hentries tc

omit hentries

theorem foldl_pushChunk (chunks : List ToolCallChunk) (state : List ShownCall × List String) :
    chunks.foldl (pushChunk js) state =
      (shownChunks js chunks).foldl (firstsStep shownId) state := by
  rw [shownChunks, foldl_map, foldl_filter]
  congr 1
  funext state chunk
  rw [firstsStep]
  by_cases hnested : isNested chunk.id chunk.name = true <;>
    by_cases hseen : chunk.id ∈ state.2 <;> simp [pushChunk, hnested, hseen]

theorem map_shownChunks (chunks : List ToolCallChunk) :
    (shownChunks js chunks).map shownId = chunkIds chunks := by
  rw [shownChunks, chunkIds, map_map]
  rfl

include hentries

theorem map_shownOf (message : StreamMessage) :
    (shownOf js entries message).map shownId = message.issuedIds := by
  rw [shownOf, StreamMessage.issuedIds]
  split
  · rw [map_append, map_shownCalls hentries, map_shownChunks]
  · rfl

/-- One message: what it adds is the first calls of their ids. -/
theorem pushBatch_eq (message : StreamMessage) (state : List (List ShownCall) × List String) :
    (pushBatch js entries state message).1.flatten =
        state.1.flatten ++ firsts shownId state.2 (shownOf js entries message) ∧
      (pushBatch js entries state message).2 =
        state.2 ++ (firsts shownId state.2 (shownOf js entries message)).map shownId := by
  cases hbody : message.body with
  | ai toolCalls chunks =>
    have hbatch : chunks.foldl (pushChunk js)
        (toolCalls.foldl (pushToolCall entries) ([], state.2)) =
          (firsts shownId state.2 (shownCalls entries toolCalls ++ shownChunks js chunks),
            state.2 ++ (firsts shownId state.2
              (shownCalls entries toolCalls ++ shownChunks js chunks)).map shownId) := by
      rw [foldl_pushChunk, foldl_pushToolCall hentries, ← foldl_append, foldl_firstsStep,
        nil_append]
    simp only [pushBatch, shownOf, hbody, hbatch]
    refine ⟨?_, trivial⟩
    split
    · rw [flatten_append, flatten_singleton]
    · next hlength =>
      have hnil := length_eq_zero_iff.mp (Nat.eq_zero_of_not_pos hlength)
      rw [hnil, append_nil]
  | tool toolCallId => simp [pushBatch, shownOf, hbody]
  | human => simp [pushBatch, shownOf, hbody]
  | other => simp [pushBatch, shownOf, hbody]

/-- All messages. -/
theorem foldl_pushBatch (messages : List StreamMessage)
    (state : List (List ShownCall) × List String) :
    (messages.foldl (pushBatch js entries) state).1.flatten =
        state.1.flatten ++ firsts shownId state.2 (messages.flatMap (shownOf js entries)) ∧
      (messages.foldl (pushBatch js entries) state).2 = state.2 ++
        (firsts shownId state.2 (messages.flatMap (shownOf js entries))).map shownId := by
  induction messages generalizing state with
  | nil => simp
  | cons message messages ih =>
    obtain ⟨hbatches, hseen⟩ := @pushBatch_eq js entries hentries message state
    obtain ⟨hbatches', hseen'⟩ := ih (pushBatch js entries state message)
    rw [foldl_cons, flatMap_cons, firsts_append]
    rw [hbatches, hseen] at hbatches'
    rw [hseen] at hseen'
    refine ⟨?_, ?_⟩
    · rw [hbatches', append_assoc]
    · rw [hseen', map_append, append_assoc]

end Loops

/-! ### The tools channel -/

section

variable (js : JsText) (assembled : List AssembledToolCall) (messages : List StreamMessage)

theorem id_of_fromTools (id : String) (call : ShownCall)
    (h : (fromTools js assembled).get? id = some call) : call.id = id := by
  rcases Dict.mem_of_get?_setAll h with hmem | hnone
  · obtain ⟨tc, -, htc⟩ := mem_map.mp hmem
    cases htc
    rfl
  · cases hnone

theorem mem_keys_fromTools {id : String} : id ∈ (fromTools js assembled).values.map shownId ↔
    ∃ tc ∈ assembled, tc.name ≠ "task" ∧ tc.id = id := by
  have hsome := @Dict.isSome_get?_setAll String ShownCall _
    ((assembled.filter fun tc => tc.name ≠ "task").map fun tc => (tc.id, tc.shown js)) {} id
  have hmem : id ∈ (fromTools js assembled).values.map shownId ↔
      ((fromTools js assembled).get? id).isSome = true := by
    rw [Option.isSome_iff_exists, mem_map]
    constructor
    · rintro ⟨call, hcall, rfl⟩
      obtain ⟨k, hk⟩ := Dict.mem_values.mp hcall
      have hget := Dict.get?_eq_some_iff.mpr hk
      rw [shownId, id_of_fromTools js assembled k call hget]
      exact ⟨call, hget⟩
    · rintro ⟨call, hget⟩
      exact ⟨call, Dict.mem_values.mpr ⟨id, Dict.get?_eq_some_iff.mp hget⟩,
        id_of_fromTools js assembled id call hget⟩
  rw [hmem, fromTools, hsome, map_map, mem_map]
  simp [Dict.get?, and_assoc]

/-- **The calls that are shown are the first ones of their ids**: those of the messages, and then
those of the tools channel. -/
theorem flatten_nestedBatches : (nestedBatches js assembled messages).flatten =
    firsts shownId [] (messages.flatMap (shownOf js (fromTools js assembled)) ++
      (fromTools js assembled).values) := by
  obtain ⟨hbatches, hseen⟩ :=
    @foldl_pushBatch js _ (id_of_fromTools js assembled) messages ([], [])
  have hids : ∀ e ∈ (fromTools js assembled).entries, e.2.id = e.1 := fun e he =>
    id_of_fromTools js assembled e.1 e.2 (Dict.get?_eq_some_iff.mpr he)
  have hnodup : ((fromTools js assembled).values.map shownId).Nodup := by
    rw [Dict.values, map_map]
    exact (map_congr_left hids) ▸ (fromTools js assembled).nodup
  rw [nestedBatches, flatten_append, hbatches, hseen, firsts_append, firsts_of_nodup hnodup,
    nil_append, flatten_nil, nil_append, Dict.values, filter_map]
  refine congrArg _ ?_
  have hsingle : ∀ l : List (String × ShownCall),
      (l.map fun e => [e.2]).flatten = l.map Prod.snd := by
    intro l
    induction l with
    | nil => rfl
    | cons e l ih => rw [map_cons, flatten_cons, ih, map_cons, singleton_append]
  rw [hsingle]
  refine congrArg _ (filter_congr fun e he => ?_)
  rw [Function.comp_apply, shownId, hids e he, contains_eq_mem, decide_not]

/-! ### What is shown -/

variable {js assembled messages}

/-- A call that streams first is shown as one of its chunks. -/
theorem exists_of_streamsFirst {id : String} (h : StreamsFirst messages id) :
    ∃ call ∈ (nestedBatches js assembled messages).flatten,
      call.id = id ∧ call.status = .pending ∧ call.result = none := by
  obtain ⟨before, message, after, toolCalls, chunks, rfl, hbody, hbefore, hcalls, hchunks⟩ := h
  have hentries := id_of_fromTools js assembled
  rw [← @map_shownChunks js] at hchunks
  obtain ⟨call, hcall, rfl⟩ := mem_map.mp (mem_map_firsts.mpr ⟨not_mem_nil, hchunks⟩)
  have hmessage : call ∈ firsts shownId [] (shownOf js (fromTools js assembled) message) := by
    rw [shownOf, hbody]
    refine mem_firsts_append_iff.mpr (.inr ⟨hcall, ?_⟩)
    rwa [map_shownCalls hentries]
  refine ⟨call, ?_, rfl, ?_⟩
  · rw [flatten_nestedBatches]
    refine mem_firsts_append_iff.mpr (.inl (mem_firsts_flatMap_iff.mpr
      ⟨before, message, after, rfl, fun m hm => ?_, hmessage⟩))
    rw [map_shownOf hentries]
    exact hbefore m hm
  · obtain ⟨chunk, -, rfl⟩ := mem_map.mp (mem_of_mem_firsts hcall)
    exact ⟨rfl, rfl⟩

/-- A call is shown as the tools channel has it, or it streams first and is shown as pending. -/
theorem shown_eq_or {call entry : ShownCall}
    (h : call ∈ (nestedBatches js assembled messages).flatten)
    (hentry : (fromTools js assembled).get? call.id = some entry) :
    call = entry ∨ StreamsFirst messages call.id ∧ call.status = .pending ∧ call.result = none := by
  have hentries := id_of_fromTools js assembled
  rw [flatten_nestedBatches] at h
  rcases mem_firsts_append_iff.mp h with h | ⟨h, -⟩
  · obtain ⟨before, message, after, rfl, hbefore, hmessage⟩ := mem_firsts_flatMap_iff.mp h
    simp only [map_shownOf hentries] at hbefore
    rw [shownOf] at hmessage
    split at hmessage
    · next toolCalls chunks hbody =>
      rcases mem_firsts_append_iff.mp hmessage with hcall | ⟨hcall, hnot⟩
      · obtain ⟨tc, -, rfl⟩ := mem_map.mp (mem_of_mem_firsts hcall)
        rw [id_shown hentries] at hentry
        rw [hentry]
        exact .inl rfl
      · rw [map_shownCalls hentries] at hnot
        have hchunk := mem_of_mem_firsts hcall
        have hid : call.id ∈ chunkIds chunks := by
          rw [← @map_shownChunks js]
          exact mem_map_of_mem hchunk
        obtain ⟨chunk, -, rfl⟩ := mem_map.mp hchunk
        exact .inr ⟨⟨before, message, after, toolCalls, chunks, rfl, hbody, hbefore, hnot, hid⟩,
          rfl, rfl⟩
    · cases hmessage
  · obtain ⟨k, hk⟩ := Dict.mem_values.mp (mem_of_mem_firsts h)
    have hget := Dict.get?_eq_some_iff.mpr hk
    rw [hentries k call hget, hget] at hentry
    exact .inl (Option.some.inj hentry)

variable (js assembled messages)

/-- **A card is right exactly if the tools channel has nothing to say yet of a call that streams
first.** -/
theorem nestedCallsTrue_iff : NestedCallsTrue js assembled messages ↔
    ∀ id entry, (fromTools js assembled).get? id = some entry → StreamsFirst messages id →
      entry.status = .pending ∧ entry.result = none := by
  constructor
  · intro h id entry hentry hfirst
    obtain ⟨call, hcall, rfl, hstatus, hresult⟩ :=
      @exists_of_streamsFirst js assembled messages id hfirst
    obtain ⟨hstatus', hresult'⟩ := h.truthful call hcall entry hentry
    exact ⟨hstatus'.symm.trans hstatus, hresult'.symm.trans hresult⟩
  · intro h
    refine ⟨?_, fun id => ?_, fun call hcall entry hentry => ?_⟩
    · rw [flatten_nestedBatches]
      exact nodup_firsts _ _
    · rw [flatten_nestedBatches, mem_map_firsts, map_append, mem_append, mem_keys_fromTools,
        IsNestedCall, map_flatMap, mem_flatMap]
      simp only [map_shownOf (id_of_fromTools js assembled), not_mem_nil, not_false_eq_true,
        true_and]
    · rcases shown_eq_or hcall hentry with rfl | ⟨hfirst, hstatus, hresult⟩
      · exact ⟨rfl, rfl⟩
      · obtain ⟨hstatus', hresult'⟩ := h call.id entry hentry hfirst
        exact ⟨hstatus.trans hstatus'.symm, hresult.trans hresult'.symm⟩

end

/-! ### A call that has finished -/

/-- A text is read as an empty object, and an object is written as such. -/
def plainText : JsText where
  parsePartialJson _ := .obj []
  stringify _ := "\x7b\x7d"
  toText _ := "[object Object]"

/-- The search of a subagent whose last chunk is its only trace among the messages. -/
def streamedSearch : StreamMessage where
  id := "m1"
  body := .ai [] [{ id := "c1", name := "web_search", args := "\x7b" }]

/-- The same search on the tools channel. -/
def finishedSearch : AssembledToolCall where
  id := "c1"
  name := "web_search"
  output := .str "3 results"
  status := .finished

/-- A call that has finished is shown as pending. -/
theorem not_nestedCallsTrue : ¬ ∀ js assembled messages, NestedCallsTrue js assembled messages := by
  intro h
  have htrue := (h plainText [finishedSearch] [streamedSearch]).truthful
  have hcall := htrue { id := "c1", name := "web_search", args := .obj [], status := .pending }
    (by decide) (finishedSearch.shown plainText) (by decide)
  exact absurd hcall.1 (by decide)

end NextRole
