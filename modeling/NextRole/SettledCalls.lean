import Mathlib.Data.List.Pairwise
import NextRole.Frontend.Transcript

/-!
# The calls of a transcript after their answers

The loop of `processedMessages` settles each call by the messages that answer it after it was
issued.  A call whose first answer is the one that the cache has of it becomes the cached call, with
the name and the arguments that it had then.

## Main definitions

* `StreamMessage.issued`, `answersTo` — the calls of a message, and what answers a call.
* `settle`, `entriesOf` — the calls after their answers, where some were cached.
* `Processing.Ok` — what the loop keeps.

## Main results

* `Processing.Ok.show`, `Processing.Ok.put`, `Processing.Ok.skip` — a message that is shown, one
  that answers a call, and any other one.
* `ok_processing` — **the loop settles the calls**.
-/

namespace NextRole

variable {js : JsText} {ids : List String} {old : String → Option ShownCall}
  {messages : List StreamMessage} {message : StreamMessage}

/-! ### Calls and answers -/

/-- A message that is in the map. -/
def StreamMessage.isShown (message : StreamMessage) : Bool :=
  match message.body with
  | .ai _ _ | .human => true
  | _ => false

/-- The calls of a message before anything answers them. -/
def StreamMessage.issued (js : JsText) (ids : List String) (message : StreamMessage) :
    List ShownCall :=
  match message.body with
  | .ai toolCalls chunks => toolCallsWithStatus js ids toolCalls chunks
  | _ => []

/-- The text with which a message answers a call. -/
def StreamMessage.answerTo (message : StreamMessage) (toolCallId : String) : Option String :=
  match message.body with
  | .tool id => if id = toolCallId && id ≠ "" then some message.text else none
  | _ => none

/-- The texts with which messages answer a call. -/
def answersTo (toolCallId : String) (messages : List StreamMessage) : List String :=
  messages.filterMap fun message => message.answerTo toolCallId

/-- A call with one more answer: with the first one it may be the cached call. -/
def answerStep (cached : Option ShownCall) (call : ShownCall) (result : String) : ShownCall :=
  if call.status = .completed then call.answered result
  else (cached.filter fun c => c.hasResult result).getD (call.answered result)

/-- A call after its answers. -/
def settle (cached : Option ShownCall) (call : ShownCall) (results : List String) : ShownCall :=
  results.foldl (answerStep cached) call

/-- The messages that are shown with their calls, each after the answers that follow it. -/
def entriesOf (js : JsText) (ids : List String) (old : String → Option ShownCall) :
    List StreamMessage → List (StreamMessage × List ShownCall)
  | [] => []
  | message :: rest =>
    if message.isShown then
      (message, (message.issued js ids).map fun call =>
        settle (old call.id) call (answersTo call.id rest)) :: entriesOf js ids old rest
    else entriesOf js ids old rest

/-- A cache has each call under its id. -/
def KeyedById (old : String → Option ShownCall) : Prop := ∀ id call, old id = some call → call.id = id

theorem keyed_none : KeyedById fun _ => none := fun _ _ h => nomatch h

theorem status_of_mem_issued {call : ShownCall} (h : call ∈ message.issued js ids) :
    call.status ≠ .completed := by
  have hstatus : ∀ id, statusFor ids id ≠ .completed := by
    intro id
    unfold statusFor
    split <;> nofun
  unfold StreamMessage.issued at h
  split at h
  · rw [toolCallsWithStatus, List.mem_append, List.mem_map, List.mem_map] at h
    rcases h with ⟨tc, -, rfl⟩ | ⟨c, -, rfl⟩
    · exact hstatus tc.id
    · exact hstatus c.id
  · cases h

theorem id_answerStep {cached : Option ShownCall} {call : ShownCall}
    (h : ∀ c ∈ cached, c.id = call.id) (result : String) :
    (answerStep cached call result).id = call.id := by
  unfold answerStep
  split
  · rfl
  · cases hc : cached.filter fun c => c.hasResult result with
    | none => rfl
    | some c => exact h c (Option.filter_eq_some_iff.mp hc).1

theorem id_settle {cached : Option ShownCall} {call : ShownCall}
    (h : ∀ c ∈ cached, c.id = call.id) (results : List String) :
    (settle cached call results).id = call.id := by
  induction results generalizing call with
  | nil => rfl
  | cons result results ih =>
    have hstep := id_answerStep h result
    exact (ih (by rwa [hstep])).trans hstep

theorem status_answerStep (cached : Option ShownCall) (call : ShownCall) (result : String) :
    (answerStep cached call result).status = .completed := by
  unfold answerStep
  split
  · rfl
  · cases hc : cached.filter fun c => c.hasResult result with
    | none => rfl
    | some c =>
      have hresult := (Option.filter_eq_some_iff.mp hc).2
      rw [ShownCall.hasResult, Bool.and_eq_true, decide_eq_true_eq] at hresult
      exact hresult.1

/-- The ids of the calls that messages issue. -/
def issuedCallIds (js : JsText) (ids : List String) (messages : List StreamMessage) : List String :=
  messages.flatMap fun message => (message.issued js ids).map fun call => call.id

theorem issued_of_not_isShown (h : message.isShown = false) : message.issued js ids = [] := by
  unfold StreamMessage.isShown at h
  unfold StreamMessage.issued
  split at h
  · cases h
  · cases h
  · next hai _ =>
    split
    · next toolCalls chunks hbody => exact absurd hbody (hai toolCalls chunks)
    · rfl

theorem flatMap_ids_entriesOf (h : KeyedById old) (messages : List StreamMessage) :
    ((entriesOf js ids old messages).flatMap fun e => e.2.map fun call => call.id) =
      issuedCallIds js ids messages := by
  induction messages with
  | nil => rfl
  | cons message rest ih =>
    rw [entriesOf, issuedCallIds, List.flatMap_cons, ← issuedCallIds, ← ih]
    split
    · rw [List.flatMap_cons, List.map_map]
      refine congrArg (· ++ _) (List.map_congr_left fun call _ => ?_)
      exact id_settle (h call.id) _
    · next hshown =>
      rw [issued_of_not_isShown (Bool.not_eq_true _ ▸ hshown)]
      rfl

/-! ### One more message -/

theorem answersTo_concat (toolCallId : String) (messages : List StreamMessage)
    (message : StreamMessage) : answersTo toolCallId (messages ++ [message]) =
      answersTo toolCallId messages ++ (message.answerTo toolCallId).toList := by
  rw [answersTo, List.filterMap_append]
  cases h : message.answerTo toolCallId <;> simp [answersTo, h]

/-- A message that answers changes the call that it answers. -/
theorem entriesOf_concat (h : KeyedById old) (messages : List StreamMessage) (message : StreamMessage) :
    entriesOf js ids old (messages ++ [message]) =
      ((entriesOf js ids old messages).map fun e => (e.1, e.2.map fun call =>
        (message.answerTo call.id).elim call (answerStep (old call.id) call))) ++
          if message.isShown then [(message, message.issued js ids)] else [] := by
  induction messages with
  | nil =>
    have hid : ((message.issued js ids).map fun call =>
        settle (old call.id) call (answersTo call.id [])) = message.issued js ids :=
      List.map_id _
    simp only [List.nil_append, entriesOf, List.map_nil, hid]
  | cons first rest ih =>
    rw [List.cons_append, entriesOf, entriesOf, ih]
    split
    · rw [List.map_cons, List.map_map, List.cons_append]
      refine congrArg (fun calls => (first, calls) :: _) (List.map_congr_left fun call _ => ?_)
      rw [answersTo_concat, settle, List.foldl_append, ← settle, Function.comp_apply,
        id_settle (h call.id)]
      cases message.answerTo call.id <;> rfl
    · rfl

/-! ### The loop over the messages -/

/-- What is found is a call of an entry. -/
theorem findToolCall_eq_some {entries : List (String × MessageEntry)} {toolCallId : String}
    {e : String × MessageEntry} {i : ℕ} {tc : ToolCallRef}
    (h : findToolCall entries toolCallId = some (e, i, tc)) :
    e ∈ entries ∧ e.2.toolCalls[i]? = some tc ∧ tc.value.id = toolCallId := by
  obtain ⟨e', he', h⟩ := List.exists_of_findSome?_eq_some h
  obtain ⟨i', hi', h⟩ := Option.bind_eq_some_iff.mp h
  obtain ⟨tc', htc', h⟩ := Option.map_eq_some_iff.mp h
  cases h
  obtain ⟨hlt, hid, -⟩ := List.findIdx?_eq_some_iff_getElem.mp hi'
  obtain ⟨_, hget⟩ := List.getElem?_eq_some_iff.mp htc'
  rw [hget, decide_eq_true_eq] at hid
  exact ⟨he', htc', hid⟩

theorem findToolCall_eq_none {entries : List (String × MessageEntry)} {toolCallId : String}
    (h : findToolCall entries toolCallId = none) :
    ∀ e ∈ entries, ∀ tc ∈ e.2.toolCalls, tc.value.id ≠ toolCallId := by
  intro e he tc htc hid
  have hnone := List.findSome?_eq_none_iff.mp h e he
  cases hidx : e.2.toolCalls.findIdx? fun tc => tc.value.id = toolCallId with
  | none =>
    have hnot := List.findIdx?_eq_none_iff.mp hidx tc htc
    rw [decide_eq_false_iff_not] at hnot
    exact hnot hid
  | some i =>
    obtain ⟨hlt, -⟩ := List.findIdx?_eq_some_iff_getElem.mp hidx
    rw [hidx, Option.bind_some, List.getElem?_eq_getElem hlt] at hnone
    cases hnone

/-- In a list in which one element at most has a key, putting another in its place changes the
element with the key. -/
theorem set_eq_map {α κ : Type*} [DecidableEq κ] {key : α → κ} {l : List α} {i : ℕ} {a : α}
    (hl : (l.map key).Nodup) (hi : l[i]? = some a) (b : α) :
    l.set i b = l.map fun x => if key x = key a then b else x := by
  induction l generalizing i with
  | nil => cases hi
  | cons x l ih =>
    rw [List.map_cons, List.nodup_cons] at hl
    cases i with
    | zero =>
      cases hi
      rw [List.set_cons_zero, List.map_cons, if_pos rfl]
      refine congrArg (b :: ·) ((List.map_congr_left fun y hy => ?_).trans (List.map_id l)).symm
      refine if_neg fun heq => hl.1 ?_
      rw [← heq]
      exact List.mem_map_of_mem hy
    | succ i =>
      rw [List.getElem?_cons_succ] at hi
      have hne : key x ≠ key a := fun heq =>
        hl.1 (heq ▸ List.mem_map_of_mem (List.mem_of_getElem? hi))
      rw [List.set_cons_succ, List.map_cons, if_neg hne, ih hl.2 hi]

/-- An entry with another call in the place of the one with the id. -/
def MessageEntry.replace (data : MessageEntry) (toolCallId : String) (next : ToolCallRef) :
    MessageEntry :=
  { data with
    toolCalls := data.toolCalls.map fun tc => if tc.value.id = toolCallId then next else tc }

/-- The ids of the calls of entries. -/
def entryCallIds (entries : List (String × MessageEntry)) : List String :=
  entries.flatMap fun e => e.2.toolCalls.map fun tc => tc.value.id

theorem replace_of_forall_ne {data : MessageEntry} {toolCallId : String} (next : ToolCallRef)
    (h : ∀ tc ∈ data.toolCalls, tc.value.id ≠ toolCallId) :
    data.replace toolCallId next = data := by
  have hsame : (data.toolCalls.map fun tc => if tc.value.id = toolCallId then next else tc) =
      data.toolCalls :=
    (List.map_congr_left fun tc htc => if_neg (h tc htc)).trans (List.map_id data.toolCalls)
  rw [MessageEntry.replace, hsame]

/-- Where each id is there once, putting a call in the place of another is done in all entries. -/
theorem entries_putToolCall {s : Processing} {e : String × MessageEntry} {i : ℕ}
    {tc : ToolCallRef} (hnodup : (entryCallIds s.messageMap.entries).Nodup)
    (he : e ∈ s.messageMap.entries) (hi : e.2.toolCalls[i]? = some tc) (next : ToolCallRef) :
    (s.putToolCall e i next).messageMap.entries =
      s.messageMap.entries.map fun e => (e.1, e.2.replace tc.value.id next) := by
  have hkeys := s.messageMap.nodup
  refine (Dict.setEntries_of_mem hkeys (List.mem_map_of_mem he)).trans ?_
  refine List.map_congr_left fun e' he' => ?_
  have hcalls : (e.2.toolCalls.map fun tc => tc.value.id).Nodup :=
    (List.nodup_flatMap.mp hnodup).1 e he
  split
  · next hkey =>
    -- the entry with the call
    have heq : e' = e := List.inj_on_of_nodup_map hkeys he' he hkey
    rw [heq, MessageEntry.replace, ← set_eq_map hcalls hi]
  · next hkey =>
    -- another entry has no call with this id
    rw [replace_of_forall_ne]
    intro tc' htc' hid
    have hne : e' ≠ e := fun heq => hkey (heq ▸ rfl)
    have hsymm : Std.Symm (Function.onFun List.Disjoint fun e : String × MessageEntry =>
        e.2.toolCalls.map fun tc => tc.value.id) := ⟨fun _ _ h _ ha hb => h hb ha⟩
    exact (List.nodup_flatMap.mp hnodup).2.forall he' he hne (List.mem_map_of_mem htc')
      (hid ▸ List.mem_map_of_mem (List.mem_of_getElem? hi))

/-! ### What the loop keeps -/

/-- What an earlier render left of a call. -/
def Caches.oldCall (c : Caches) (id : String) : Option ShownCall :=
  (c.toolCallCache.get? id).map Obj.value

/-- A cache of calls has objects that were made, under the ids of their calls. -/
def CallsOk (calls : List ShownCall) (cache : Dict String ToolCallRef) : Prop :=
  ∀ id tc, cache.get? id = some tc → tc.Made calls ∧ tc.value.id = id

/-- An entry without the identities. -/
def MessageEntry.view (data : MessageEntry) : StreamMessage × List ShownCall :=
  (data.message, data.toolCalls.map Obj.value)

/-- The loop after some messages: the entries have the calls as these settle them, and of a call
that is answered the cache has what its entry has. -/
structure Processing.Ok (js : JsText) (ids : List String) (c : Caches)
    (messages : List StreamMessage) (s : Processing) : Prop where
  grows : c.calls <+: s.calls
  entries : (s.messageMap.entries.map fun e => e.2.view) = entriesOf js ids c.oldCall messages
  keys : ∀ e ∈ s.messageMap.entries, e.1 = e.2.message.id
  made : ∀ e ∈ s.messageMap.entries, ∀ tc ∈ e.2.toolCalls, tc.Made s.calls
  calls : CallsOk s.calls s.toolCallCache
  old : ∀ id, id ∉ issuedCallIds js ids messages →
    (s.toolCallCache.get? id).map Obj.value = c.oldCall id
  cached : ∀ e ∈ entriesOf js ids c.oldCall messages, ∀ call ∈ e.2,
    (s.toolCallCache.get? call.id).map Obj.value =
      if call.status = .completed then some call else c.oldCall call.id

theorem CallsOk.keyed {c : Caches} (h : CallsOk c.calls c.toolCallCache) : KeyedById c.oldCall := by
  intro id call hcall
  obtain ⟨tc, htc, rfl⟩ := Option.map_eq_some_iff.mp hcall
  exact (h id tc htc).2

theorem Processing.Ok.entryCallIds_eq {c : Caches} {s : Processing}
    (h : s.Ok js ids c messages) (hkeyed : KeyedById c.oldCall) :
    entryCallIds s.messageMap.entries = issuedCallIds js ids messages := by
  rw [← flatMap_ids_entriesOf hkeyed, ← h.entries, List.flatMap_map, entryCallIds]
  simp only [MessageEntry.view, List.map_map]
  rfl

theorem mem_of_mem_entriesOf {e : StreamMessage × List ShownCall}
    (h : e ∈ entriesOf js ids old messages) : e.1 ∈ messages := by
  induction messages with
  | nil => cases h
  | cons message rest ih =>
    rw [entriesOf] at h
    split at h
    · rcases List.mem_cons.mp h with rfl | h
      · exact List.mem_cons_self
      · exact List.mem_cons_of_mem _ (ih h)
    · exact List.mem_cons_of_mem _ (ih h)

theorem answerTo_of_isShown (h : message.isShown = true) (id : String) :
    message.answerTo id = none := by
  unfold StreamMessage.isShown at h
  unfold StreamMessage.answerTo
  split at h <;> simp_all

theorem issuedCallIds_concat (messages : List StreamMessage) (message : StreamMessage) :
    issuedCallIds js ids (messages ++ [message]) =
      issuedCallIds js ids messages ++ (message.issued js ids).map fun call => call.id := by
  rw [issuedCallIds, List.flatMap_append, List.flatMap_singleton, ← issuedCallIds]

/-- A message that is shown is one more entry. -/
theorem Processing.Ok.show {c : Caches} {s : Processing} (h : s.Ok js ids c messages)
    (hkeyed : KeyedById c.oldCall) (hshown : message.isShown = true)
    (hid : message.id ∉ messages.map StreamMessage.id)
    (hcalls : (issuedCallIds js ids (messages ++ [message])).Nodup) {made : List ToolCallRef}
    {calls : List ShownCall} (hgrows : s.calls <+: calls) (hmade : ∀ tc ∈ made, tc.Made calls)
    (hvalues : made.map Obj.value = message.issued js ids) :
    Processing.Ok js ids c (messages ++ [message])
      { s with calls, messageMap := s.messageMap.set message.id ⟨message, made⟩ } := by
  have hentriesOf : entriesOf js ids c.oldCall (messages ++ [message]) =
      entriesOf js ids c.oldCall messages ++ [(message, message.issued js ids)] := by
    rw [entriesOf_concat hkeyed, if_pos hshown]
    simp only [answerTo_of_isShown hshown, Option.elim_none, List.map_id']
  have hkey : message.id ∉ s.messageMap.entries.map Prod.fst := by
    intro hmem
    obtain ⟨e, he, heq⟩ := List.mem_map.mp hmem
    have hview : e.2.view ∈ entriesOf js ids c.oldCall messages := by
      rw [← h.entries]
      exact List.mem_map_of_mem he
    apply hid
    rw [← heq, h.keys e he]
    exact List.mem_map_of_mem (mem_of_mem_entriesOf hview)
  have hset : (s.messageMap.set message.id ⟨message, made⟩).entries =
      s.messageMap.entries ++ [(message.id, ⟨message, made⟩)] := Dict.setEntries_of_notMem hkey
  rw [issuedCallIds_concat, List.nodup_append] at hcalls
  constructor
  · exact h.grows.trans hgrows
  · rw [hset, List.map_append, h.entries, hentriesOf, List.map_singleton, MessageEntry.view,
      hvalues]
  · rw [hset, List.forall_mem_append, List.forall_mem_singleton]
    exact ⟨h.keys, rfl⟩
  · rw [hset, List.forall_mem_append, List.forall_mem_singleton]
    exact ⟨fun e he tc htc => (h.made e he tc htc).mono hgrows, hmade⟩
  · intro id tc htc
    exact (h.calls id tc htc).imp_left fun hold => hold.mono hgrows
  · intro id hnot
    rw [issuedCallIds_concat, List.mem_append, not_or] at hnot
    exact h.old id hnot.1
  · rw [hentriesOf, List.forall_mem_append, List.forall_mem_singleton]
    refine ⟨h.cached, fun call hcall => ?_⟩
    -- the calls of the message are new, and nothing has answered them
    rw [if_neg (status_of_mem_issued hcall)]
    apply h.old
    exact fun hmem => hcalls.2.2 _ hmem _ (List.mem_map_of_mem hcall) rfl

theorem issued_of_tool {toolCallId : String} (h : message.body = .tool toolCallId) :
    message.issued js ids = [] := by
  rw [StreamMessage.issued, h]

theorem answerTo_of_tool {toolCallId : String} (h : message.body = .tool toolCallId)
    (hid : toolCallId ≠ "") (id : String) :
    message.answerTo id = if id = toolCallId then some message.text else none := by
  simp [StreamMessage.answerTo, h, hid, eq_comm]

/-- The view of an entry in which the call with an id was replaced. -/
theorem view_replace {data : MessageEntry} {toolCallId : String} {tc next : ToolCallRef}
    {step : ShownCall → ShownCall}
    (hunique : ∀ tc' ∈ data.toolCalls, tc'.value.id = toolCallId → tc' = tc)
    (hnext : next.value = step tc.value) :
    (data.replace toolCallId next).view = (data.message, (data.toolCalls.map Obj.value).map
      fun call => if call.id = toolCallId then step call else call) := by
  rw [MessageEntry.view, MessageEntry.replace, List.map_map, List.map_map]
  refine congrArg _ (List.map_congr_left fun tc' htc' => ?_)
  rw [Function.comp_apply, Function.comp_apply]
  by_cases hid : tc'.value.id = toolCallId
  · rw [if_pos hid, if_pos hid, hnext, hunique tc' htc' hid]
  · rw [if_neg hid, if_neg hid]

/-- A call is found, and another one is put in its place. -/
theorem Processing.Ok.put {c : Caches} {s s' : Processing} (h : s.Ok js ids c messages)
    (hkeyed : KeyedById c.oldCall) (hcalls : (issuedCallIds js ids messages).Nodup)
    {toolCallId : String} (hid : toolCallId ≠ "") (hbody : message.body = .tool toolCallId)
    {e : String × MessageEntry} {i : ℕ} {tc next : ToolCallRef}
    (hfound : findToolCall s.messageMap.entries toolCallId = some (e, i, tc))
    (hmap : s'.messageMap = s.messageMap) (hgrows : s.calls <+: s'.calls)
    (hcache : CallsOk s'.calls s'.toolCallCache)
    (hnext : next.value = answerStep (c.oldCall toolCallId) tc.value message.text)
    (hget : s'.toolCallCache.get? toolCallId = some next)
    (hothers : ∀ id, id ≠ toolCallId → s'.toolCallCache.get? id = s.toolCallCache.get? id) :
    (s'.putToolCall e i next).Ok js ids c (messages ++ [message]) := by
  obtain ⟨he, hi, hfoundId⟩ := findToolCall_eq_some hfound
  have hissued : issuedCallIds js ids (messages ++ [message]) = issuedCallIds js ids messages := by
    rw [issuedCallIds_concat, issued_of_tool hbody, List.map_nil, List.append_nil]
  have hnodup : (entryCallIds s.messageMap.entries).Nodup := by
    rwa [h.entryCallIds_eq hkeyed]
  have hunique : ∀ e ∈ s.messageMap.entries, ∀ tc' ∈ e.2.toolCalls,
      tc'.value.id = toolCallId → tc' = tc := by
    intro e' he' tc' htc' hid'
    rw [entryCallIds, ← List.map_flatMap] at hnodup
    exact List.inj_on_of_nodup_map hnodup (List.mem_flatMap.mpr ⟨e', he', htc'⟩)
      (List.mem_flatMap.mpr ⟨e, he, List.mem_of_getElem? hi⟩) (hid'.trans hfoundId.symm)
  have hset : (s'.putToolCall e i next).messageMap.entries =
      s.messageMap.entries.map fun e => (e.1, e.2.replace toolCallId next) := by
    rw [← hmap] at he hnodup ⊢
    rw [entries_putToolCall hnodup he hi, hfoundId]
  have hentriesOf : entriesOf js ids c.oldCall (messages ++ [message]) =
      (entriesOf js ids c.oldCall messages).map fun e => (e.1, e.2.map fun call =>
        if call.id = toolCallId then answerStep (c.oldCall toolCallId) call message.text
        else call) := by
    have hnot : message.isShown = false := by rw [StreamMessage.isShown, hbody]
    rw [entriesOf_concat hkeyed, hnot, if_neg Bool.false_ne_true, List.append_nil]
    refine List.map_congr_left fun e _ => congrArg _ (List.map_congr_left fun call _ => ?_)
    rw [answerTo_of_tool hbody hid]
    by_cases hcall : call.id = toolCallId
    · rw [if_pos hcall, if_pos hcall, hcall, Option.elim_some]
    · rw [if_neg hcall, if_neg hcall, Option.elim_none]
  constructor
  · exact h.grows.trans hgrows
  · rw [hset, hentriesOf, ← h.entries, List.map_map, List.map_map]
    refine List.map_congr_left fun e' he' => ?_
    exact view_replace (hunique e' he') hnext
  · rw [hset, List.forall_mem_map]
    exact h.keys
  · rw [hset, List.forall_mem_map]
    intro e' he' tc' htc'
    obtain ⟨tc₀, htc₀, rfl⟩ := List.mem_map.mp htc'
    split
    · exact (hcache toolCallId next hget).1
    · exact (h.made e' he' tc₀ htc₀).mono hgrows
  · exact hcache
  · intro id hnot
    rw [hissued] at hnot
    have hne : id ≠ toolCallId := by
      rintro rfl
      apply hnot
      rw [← h.entryCallIds_eq hkeyed, ← hfoundId]
      exact List.mem_flatMap.mpr ⟨e, he, List.mem_map_of_mem (List.mem_of_getElem? hi)⟩
    exact (congrArg _ (hothers id hne)).trans (h.old id hnot)
  · rw [hentriesOf, List.forall_mem_map]
    intro e' he' call' hcall'
    obtain ⟨call, hcall, rfl⟩ := List.mem_map.mp hcall'
    by_cases hcallId : call.id = toolCallId
    · -- the call that is answered is the one that was found
      rw [← h.entries] at he'
      obtain ⟨e₀, he₀, rfl⟩ := List.mem_map.mp he'
      obtain ⟨tc₀, htc₀, rfl⟩ := List.mem_map.mp hcall
      obtain rfl := hunique e₀ he₀ tc₀ htc₀ hcallId
      have hstatus := status_answerStep (c.oldCall toolCallId) tc₀.value message.text
      rw [if_pos hcallId, if_pos hstatus, ← hnext, (hcache toolCallId next hget).2]
      exact congrArg _ hget
    · rw [if_neg hcallId]
      exact (congrArg _ (hothers call.id hcallId)).trans (h.cached e' he' call hcall)

/-- A message that is not shown and answers no call. -/
theorem Processing.Ok.skip {c : Caches} {s : Processing} (h : s.Ok js ids c messages)
    (hkeyed : KeyedById c.oldCall) (hnot : message.isShown = false)
    (hanswer : ∀ e ∈ entriesOf js ids c.oldCall messages, ∀ call ∈ e.2,
      message.answerTo call.id = none) : s.Ok js ids c (messages ++ [message]) := by
  have hentriesOf : entriesOf js ids c.oldCall (messages ++ [message]) =
      entriesOf js ids c.oldCall messages := by
    rw [entriesOf_concat hkeyed, hnot, if_neg Bool.false_ne_true, List.append_nil]
    refine (List.map_congr_left fun e he => ?_).trans (List.map_id _)
    refine congrArg (Prod.mk e.1) ((List.map_congr_left fun call hcall => ?_).trans (List.map_id _))
    rw [hanswer e he call hcall, Option.elim_none, id_eq]
  have hissued : issuedCallIds js ids (messages ++ [message]) = issuedCallIds js ids messages := by
    rw [issuedCallIds_concat, issued_of_not_isShown hnot, List.map_nil, List.append_nil]
  refine ⟨h.grows, ?_, h.keys, h.made, h.calls, ?_, ?_⟩
  · rw [hentriesOf]
    exact h.entries
  · rw [hissued]
    exact h.old
  · rw [hentriesOf]
    exact h.cached

theorem answered_of_hasResult {call : ShownCall} {result : String}
    (h : call.hasResult result = true) : call.answered result = call := by
  rw [ShownCall.hasResult, Bool.and_eq_true, decide_eq_true_eq, decide_eq_true_eq] at h
  rw [ShownCall.answered, ← h.1, ← h.2]

/-- A message of a tool. -/
theorem Processing.Ok.answer {c : Caches} {s : Processing} (h : s.Ok js ids c messages)
    (hkeyed : KeyedById c.oldCall) (hcalls : (issuedCallIds js ids messages).Nodup)
    {toolCallId : String} (hid : toolCallId ≠ "") (hbody : message.body = .tool toolCallId) :
    (answerCall s toolCallId message.text).Ok js ids c (messages ++ [message]) := by
  cases hfound : findToolCall s.messageMap.entries toolCallId with
  | none =>
    rw [answerCall, hfound]
    refine h.skip hkeyed (by rw [StreamMessage.isShown, hbody]) fun e he call hcall => ?_
    rw [← h.entries] at he
    obtain ⟨e₀, he₀, rfl⟩ := List.mem_map.mp he
    obtain ⟨tc, htc, rfl⟩ := List.mem_map.mp hcall
    rw [answerTo_of_tool hbody hid, if_neg (findToolCall_eq_none hfound e₀ he₀ tc htc)]
  | some found =>
    obtain ⟨e, i, tc⟩ := found
    obtain ⟨he, hi, hfoundId⟩ := findToolCall_eq_some hfound
    -- what the cache has of the call that was found
    have hview : e.2.view ∈ entriesOf js ids c.oldCall messages := by
      rw [← h.entries]
      exact List.mem_map_of_mem he
    have hcached := h.cached _ hview tc.value (List.mem_map_of_mem (List.mem_of_getElem? hi))
    rw [hfoundId] at hcached
    rw [answerCall, hfound]
    cases hfilter : (s.toolCallCache.get? toolCallId).filter
        fun cached => cached.value.hasResult message.text with
    | some cached =>
      obtain ⟨hget, hresult⟩ := Option.filter_eq_some_iff.mp hfilter
      rw [hget, Option.map_some] at hcached
      refine h.put hkeyed hcalls hid hbody hfound rfl (List.prefix_refl _) h.calls ?_ hget
        fun _ _ => rfl
      rw [answerStep]
      by_cases hstatus : tc.value.status = .completed
      · rw [if_pos hstatus] at hcached ⊢
        rw [← Option.some.inj hcached, answered_of_hasResult hresult]
      · rw [if_neg hstatus] at hcached ⊢
        rw [← hcached, Option.filter_some, if_pos hresult, Option.getD_some]
    | none =>
      refine h.put hkeyed hcalls hid hbody hfound rfl (Obj.extends_make _ _) ?_ ?_
        (Dict.get?_set_self _ _ _) fun id hne => Dict.get?_set_of_ne _ _ hne
      · refine Dict.forall_set ⟨Obj.made_make _ _, hfoundId⟩ fun id tc' _ htc' => ?_
        exact (h.calls id tc' htc').imp_left fun hold => hold.mono (Obj.extends_make _ _)
      · change tc.value.answered message.text = _
        rw [answerStep]
        by_cases hstatus : tc.value.status = .completed
        · rw [if_pos hstatus]
        · rw [if_neg hstatus] at hcached ⊢
          have hold : (c.oldCall toolCallId).filter (fun call => call.hasResult message.text) =
              none := by
            rw [← hcached, Option.filter_map]
            exact congrArg _ hfilter
          rw [hold, Option.getD_none]

theorem Processing.Ok.process {c : Caches} {s : Processing} (h : s.Ok js ids c messages)
    (hkeyed : KeyedById c.oldCall) (hid : message.id ∉ messages.map StreamMessage.id)
    (hcalls : (issuedCallIds js ids (messages ++ [message])).Nodup) :
    (processMessage js ids s message).Ok js ids c (messages ++ [message]) := by
  have hbefore : (issuedCallIds js ids messages).Nodup := by
    rw [issuedCallIds_concat] at hcalls
    exact (List.nodup_append.mp hcalls).1
  cases hbody : message.body with
  | ai toolCalls chunks =>
    have hshown : message.isShown = true := by rw [StreamMessage.isShown, hbody]
    rw [processMessage, hbody]
    refine h.show hkeyed hshown hid hcalls (Obj.extends_makeAll _ _)
      (fun tc htc => Obj.made_of_mem_makeAll htc) ?_
    rw [Obj.map_value_makeAll, StreamMessage.issued, hbody]
  | tool toolCallId =>
    rw [processMessage, hbody]
    dsimp only
    split
    · next hempty =>
      refine h.skip hkeyed (by rw [StreamMessage.isShown, hbody]) fun e _ call _ => ?_
      simp [StreamMessage.answerTo, hbody, hempty]
    · next hne => exact h.answer hkeyed hbefore hne hbody
  | human =>
    have hshown : message.isShown = true := by rw [StreamMessage.isShown, hbody]
    rw [processMessage, hbody]
    refine h.show hkeyed hshown hid hcalls (List.prefix_refl _) nofun ?_
    rw [StreamMessage.issued, hbody, List.map_nil]
  | other =>
    rw [processMessage, hbody]
    refine h.skip hkeyed (by rw [StreamMessage.isShown, hbody]) fun e _ call _ => ?_
    rw [StreamMessage.answerTo, hbody]

/-- **The loop settles the calls** as the answers and the cache say. -/
theorem ok_processing {c : Caches} (hc : CallsOk c.calls c.toolCallCache)
    (hids : (messages.map StreamMessage.id).Nodup)
    (hcalls : (issuedCallIds js ids messages).Nodup) :
    (messages.foldl (processMessage js ids)
      { calls := c.calls, toolCallCache := c.toolCallCache }).Ok js ids c messages := by
  induction messages using List.reverseRecOn with
  | nil => exact ⟨List.prefix_refl _, rfl, nofun, nofun, hc, fun _ _ => rfl, nofun⟩
  | append_singleton messages message ih =>
    have hbefore := hcalls
    rw [issuedCallIds_concat, List.nodup_append] at hbefore
    rw [List.map_append, List.nodup_append] at hids
    rw [List.foldl_append]
    refine (ih hids.1 hbefore.1).process hc.keyed ?_ hcalls
    exact fun hmem => hids.2.2 _ hmem message.id (by simp) rfl

end NextRole
