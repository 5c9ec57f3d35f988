import NextRole.SettledCalls

/-!
# What the caches of a transcript leave

An array that is kept has the calls that a new one would have, and so have the batches of a group:
apart from the cache of calls, no cache changes a value of what a render computes.

## Main definitions

* `Transcript.view`, `plainView` — what is computed, without the identities.
* `Caches.Ok` — the caches have objects that were made, each with its parts.

## Main results

* `render_spec` — **what a render computes**, and that it keeps the caches in order.
* `ok_renderAll` — the caches are in order after every history of renders.
-/

namespace NextRole

variable {js : JsText} {ids : List String}

/-! ### Arrays -/

/-- An array was made, and so were its calls. -/
structure ArrayOk (calls : List ShownCall) (arrays : List (List ToolCallRef))
    (array : ToolCallArray) : Prop where
  made : array.Made arrays
  parts : ∀ tc ∈ array.value, tc.Made calls

theorem ArrayOk.mono {calls calls' : List ShownCall} {arrays arrays' : List (List ToolCallRef)}
    {array : ToolCallArray} (h : ArrayOk calls arrays array) (hcalls : calls <+: calls')
    (harrays : arrays <+: arrays') : ArrayOk calls' arrays' array :=
  ⟨h.made.mono harrays, fun tc htc => (h.parts tc htc).mono hcalls⟩

/-- The arrays that are cached. -/
def ArraysOk (calls : List ShownCall) (arrays : List (List ToolCallRef))
    (cache : Dict String ToolCallArray) : Prop :=
  ∀ id array, cache.get? id = some array → ArrayOk calls arrays array

/-- The array that is kept has the calls of the message. -/
theorem keepArray_spec {calls : List ShownCall} {s : ArrayState} {data : MessageEntry}
    (hs : ArraysOk calls s.arrays s.arrayCache) (hdata : ∀ tc ∈ data.toolCalls, tc.Made calls) :
    (keepArray s data).1.value = data.toolCalls ∧ s.arrays <+: (keepArray s data).2.arrays ∧
      ArraysOk calls (keepArray s data).2.arrays (keepArray s data).2.arrayCache ∧
        (keepArray s data).1.Made (keepArray s data).2.arrays := by
  unfold keepArray
  split
  · refine ⟨rfl, Obj.extends_make _ _, ?_, Obj.made_make _ _⟩
    exact fun id array harray =>
      (hs id array harray).mono (List.prefix_refl _) (Obj.extends_make _ _)
  · have hparts : ∀ array ∈ s.arrayCache.get? data.message.id, ∀ tc ∈ array.value, tc.Made calls :=
      fun array harray => (hs _ array harray).parts
    have hvalue := Obj.value_keep hparts hdata s.arrays
    have hmade := Obj.made_keep (fun array harray => (hs data.message.id array harray).made)
      data.toolCalls
    have hgrows := Obj.extends_keep (s.arrayCache.get? data.message.id) s.arrays data.toolCalls
    refine ⟨hvalue, hgrows, ?_, hmade⟩
    refine Dict.forall_set ⟨hmade, ?_⟩ fun id array _ harray => ?_
    · rw [hvalue]
      exact hdata
    · exact (hs id array harray).mono (List.prefix_refl _) hgrows

/-- The messages with what each has beside it, and whether the type of the previous one was
another. -/
def withAvatars {β : Type} (previous : Option Bool) :
    List (StreamMessage × β) → List (StreamMessage × β × Bool)
  | [] => []
  | (message, b) :: rest =>
    (message, b, decide (previous ≠ some message.isHuman)) ::
      withAvatars (some message.isHuman) rest

/-- The arrays that are kept have the calls of the messages. -/
theorem keepArrays_spec {calls : List ShownCall} {s : ArrayState}
    {processedArray : List MessageEntry} (hs : ArraysOk calls s.arrays s.arrayCache)
    (hdata : ∀ data ∈ processedArray, ∀ tc ∈ data.toolCalls, tc.Made calls)
    (previous : Option Bool) :
    (keepArrays previous s processedArray).1.map
        (fun p => (p.message, p.toolCalls.value, p.showAvatar)) =
      withAvatars previous (processedArray.map fun data => (data.message, data.toolCalls)) ∧
      s.arrays <+: (keepArrays previous s processedArray).2.arrays ∧
      ArraysOk calls (keepArrays previous s processedArray).2.arrays
        (keepArrays previous s processedArray).2.arrayCache ∧
      ∀ p ∈ (keepArrays previous s processedArray).1,
        ArrayOk calls (keepArrays previous s processedArray).2.arrays p.toolCalls := by
  induction processedArray generalizing s previous with
  | nil => exact ⟨rfl, List.prefix_refl _, hs, nofun⟩
  | cons data rest ih =>
    rw [List.forall_mem_cons] at hdata
    obtain ⟨hvalue, hgrows, hok, hmade⟩ := keepArray_spec hs hdata.1
    obtain ⟨hvalues, hgrows', hok', hall⟩ := ih hok hdata.2 (some data.message.isHuman)
    rw [keepArrays]
    refine ⟨?_, hgrows.trans hgrows', hok', ?_⟩
    · rw [List.map_cons, hvalues, List.map_cons, withAvatars, hvalue]
    · rw [List.forall_mem_cons]
      refine ⟨⟨hmade.mono hgrows', ?_⟩, hall⟩
      rw [hvalue]
      exact hdata.1

/-! ### Groups -/

/-- The calls that are no cards are cached with the array that they are from. -/
structure RegularOk (calls : List ShownCall) (arrays : List (List ToolCallRef))
    (cached : RegularCalls) : Prop where
  source : ArrayOk calls arrays cached.source
  regular : cached.regular.Made arrays
  value : cached.regular.value = cached.source.value.filter fun tc => tc.value.isRegular

def RegularsOk (calls : List ShownCall) (arrays : List (List ToolCallRef))
    (cache : Dict String RegularCalls) : Prop :=
  ∀ id cached, cache.get? id = some cached → RegularOk calls arrays cached

theorem RegularOk.parts {calls : List ShownCall} {arrays : List (List ToolCallRef)}
    {cached : RegularCalls} (h : RegularOk calls arrays cached) :
    ∀ tc ∈ cached.regular.value, tc.Made calls := by
  rw [h.value]
  exact fun tc htc => h.source.parts tc (List.mem_of_mem_filter htc)

theorem RegularOk.mono {calls calls' : List ShownCall} {arrays arrays' : List (List ToolCallRef)}
    {cached : RegularCalls} (h : RegularOk calls arrays cached) (hcalls : calls <+: calls')
    (harrays : arrays <+: arrays') : RegularOk calls' arrays' cached :=
  ⟨h.source.mono hcalls harrays, h.regular.mono harrays, h.value⟩

/-- The calls of an array that are no cards, whatever was cached. -/
theorem regularCalls_spec {calls : List ShownCall} {arrays : List (List ToolCallRef)}
    {cached : Option RegularCalls} {toolCalls : ToolCallArray}
    (hcached : ∀ c ∈ cached, RegularOk calls arrays c) (harray : ArrayOk calls arrays toolCalls) :
    (regularCalls cached arrays toolCalls).1.value =
        toolCalls.value.filter (fun tc => tc.value.isRegular) ∧
      arrays <+: (regularCalls cached arrays toolCalls).2 ∧
      (regularCalls cached arrays toolCalls).1.Made (regularCalls cached arrays toolCalls).2 := by
  have hparts : ∀ tc ∈ toolCalls.value.filter (fun tc => tc.value.isRegular), tc.Made calls :=
    fun tc htc => harray.parts tc (List.mem_of_mem_filter htc)
  unfold regularCalls
  split
  · next c =>
    have hc := hcached c rfl
    split
    · next hsame =>
      -- the array is the cached one, and so are its calls
      have heq := Obj.eq_of_same hc.source.made harray.made hsame
      exact ⟨heq ▸ hc.value, List.prefix_refl _, hc.regular⟩
    · refine ⟨Obj.value_keep ?_ hparts _, Obj.extends_keep _ _ _, Obj.made_keep ?_ _⟩
      · rintro _ ⟨⟩
        exact hc.parts
      · rintro _ ⟨⟩
        exact hc.regular
  · refine ⟨Obj.value_keep ?_ hparts _, Obj.extends_keep _ _ _, Obj.made_keep ?_ _⟩ <;> nofun

/-- The calls of an array without the identities. -/
def callsOf (array : ToolCallArray) : List ShownCall := array.value.map Obj.value

/-- What a message with its calls is for the groups. -/
def pieceOf (e : StreamMessage × List ShownCall) : Piece String (List ShownCall) :=
  let skipped := e.1.id = "" || e.1.isHuman
  let regular := e.2.filter ShownCall.isRegular
  { key := e.1.id
    cutsBefore := skipped || e.1.isVisible
    batch := if !skipped && regular.length > 0 then some regular else none
    cutsAfter := !skipped && e.2.any ShownCall.spawns }

/-- A message adds its calls that are no cards. -/
theorem map_groupRegular {groups : Gathered String ToolCallArray} {p : ProcessedMessage}
    {regular : ToolCallArray} (hskip : (p.message.id = "" || p.message.isHuman) = false)
    (hvalue : regular.value = p.toolCalls.value.filter fun tc => tc.value.isRegular) :
    (groupRegular groups p regular).map callsOf =
      (groups.map callsOf).add (pieceOf (p.message, callsOf p.toolCalls)) := by
  have hregular : (callsOf p.toolCalls).filter ShownCall.isRegular = callsOf regular := by
    rw [callsOf, callsOf, hvalue, List.filter_map]
    rfl
  have hspawns : ((callsOf p.toolCalls).any ShownCall.spawns) =
      p.toolCalls.value.any fun tc => tc.value.spawns := by
    rw [callsOf, List.any_map]
    rfl
  have hlength : (callsOf regular).length = regular.value.length := List.length_map _
  rw [groupRegular, Gathered.add, pieceOf]
  dsimp only
  simp only [hskip, hregular, hspawns, hlength, Bool.false_or, Bool.not_false, Bool.true_and]
  -- what the message cuts before its calls, whether it has some, and what it cuts after them
  cases p.message.isVisible <;> by_cases hlen : regular.value.length > 0 <;>
    cases p.toolCalls.value.any fun tc => tc.value.spawns <;> simp [hlen]

theorem all_groupRegular {groups : Gathered String ToolCallArray} {p : ProcessedMessage}
    {regular : ToolCallArray} {P : ToolCallArray → Prop} (h : groups.All P) (hregular : P regular) :
    (groupRegular groups p regular).All P := by
  have hopened : (if p.message.isVisible then groups.cut else groups).All P := by
    split
    · exact h.cut
    · exact h
  have hfilled : (if regular.value.length > 0 then
      (if p.message.isVisible then groups.cut else groups).push p.message.id regular
      else if p.message.isVisible then groups.cut else groups).All P := by
    split
    · exact hopened.push hregular _
    · exact hopened
  rw [groupRegular]
  split
  · exact hfilled.cut
  · exact hfilled

/-- The cache and the groups have arrays that were made. -/
structure GroupState.Ok (calls : List ShownCall) (s : GroupState) : Prop where
  regular : RegularsOk calls s.arrays s.regularCache
  made : s.groups.All fun array => array.Made s.arrays

/-- One pass adds the message to the groups, whatever was cached. -/
theorem groupMessage_spec {calls : List ShownCall} {s : GroupState} {p : ProcessedMessage}
    (hs : s.Ok calls) (hp : ArrayOk calls s.arrays p.toolCalls) :
    (groupMessage s p).groups.map callsOf =
        (s.groups.map callsOf).add (pieceOf (p.message, callsOf p.toolCalls)) ∧
      s.arrays <+: (groupMessage s p).arrays ∧ (groupMessage s p).Ok calls := by
  cases hskip : p.message.id = "" || p.message.isHuman with
  | true =>
    have hgroup : groupMessage s p = { s with groups := s.groups.cut } := if_pos hskip
    rw [hgroup]
    refine ⟨?_, List.prefix_refl _, hs.regular, hs.made.cut⟩
    simp [Gathered.add, pieceOf, hskip]
  | false =>
    obtain ⟨hvalue, hgrows, hmade⟩ := regularCalls_spec (hs.regular p.message.id) hp
    have hgroup : groupMessage s p =
        { arrays := (regularCalls (s.regularCache.get? p.message.id) s.arrays p.toolCalls).2
          regularCache := s.regularCache.set p.message.id
            ⟨p.toolCalls, (regularCalls (s.regularCache.get? p.message.id) s.arrays p.toolCalls).1⟩
          groups := groupRegular s.groups p
            (regularCalls (s.regularCache.get? p.message.id) s.arrays p.toolCalls).1
          seenMessageIds := s.seenMessageIds ++ [p.message.id] } :=
      if_neg (by rw [hskip]; exact Bool.false_ne_true)
    rw [hgroup]
    refine ⟨map_groupRegular hskip hvalue, hgrows, ?_, ?_⟩
    · refine Dict.forall_set ⟨hp.mono (List.prefix_refl _) hgrows, hmade, hvalue⟩ ?_
      exact fun id cached _ hcached =>
        (hs.regular id cached hcached).mono (List.prefix_refl _) hgrows
    · exact all_groupRegular (hs.made.mono fun array harray => harray.mono hgrows) hmade

/-- The loop makes the groups of the messages. -/
theorem groupMessages_spec {calls : List ShownCall} {s : GroupState} {ps : List ProcessedMessage}
    (hs : s.Ok calls) (hps : ∀ p ∈ ps, ArrayOk calls s.arrays p.toolCalls) :
    (ps.foldl groupMessage s).groups.map callsOf =
        (ps.map fun p => pieceOf (p.message, callsOf p.toolCalls)).foldl Gathered.add
          (s.groups.map callsOf) ∧
      s.arrays <+: (ps.foldl groupMessage s).arrays ∧ (ps.foldl groupMessage s).Ok calls := by
  induction ps generalizing s with
  | nil => exact ⟨rfl, List.prefix_refl _, hs⟩
  | cons p ps ih =>
    rw [List.forall_mem_cons] at hps
    obtain ⟨hgroups, hgrows, hok⟩ := groupMessage_spec hs hps.1
    have hrest : ∀ p' ∈ ps, ArrayOk calls (groupMessage s p).arrays p'.toolCalls :=
      fun p' hp' => (hps.2 p' hp').mono (List.prefix_refl _) hgrows
    obtain ⟨hgroups', hgrows', hok'⟩ := ih hok hrest
    refine ⟨?_, hgrows.trans hgrows', hok'⟩
    rw [List.foldl_cons, hgroups', hgroups, List.map_cons, List.foldl_cons]

/-! ### Batches -/

/-- The batches that are cached, with their arrays. -/
def BatchesOk (arrays : List (List ToolCallRef)) (batches : List (List ToolCallArray))
    (cache : Dict String ToolBatches) : Prop :=
  ∀ id group, cache.get? id = some group →
    group.Made batches ∧ ∀ array ∈ group.value, array.Made arrays

/-- The batches that are kept are those of the groups. -/
theorem keepBatches_spec {arrays : List (List ToolCallRef)} {s : BatchState}
    {byHead : List (String × List ToolCallArray)}
    (hs : BatchesOk arrays s.batches s.batchesCache)
    (hbatches : ∀ e ∈ byHead, ∀ array ∈ e.2, array.Made arrays) :
    (keepBatches s byHead).1.map (fun e => (e.1, e.2.value)) = byHead ∧
      s.batches <+: (keepBatches s byHead).2.batches ∧
      BatchesOk arrays (keepBatches s byHead).2.batches (keepBatches s byHead).2.batchesCache := by
  induction byHead generalizing s with
  | nil => exact ⟨rfl, List.prefix_refl _, hs⟩
  | cons e byHead ih =>
    obtain ⟨headId, batches⟩ := e
    rw [List.forall_mem_cons] at hbatches
    have hvalue := Obj.value_keep (fun group hgroup => (hs headId group hgroup).2) hbatches.1
      s.batches
    have hmade := Obj.made_keep (fun group hgroup => (hs headId group hgroup).1) batches
    have hgrows := Obj.extends_keep (s.batchesCache.get? headId) s.batches batches
    have hok : BatchesOk arrays (Obj.keep (s.batchesCache.get? headId) s.batches batches).2
        (s.batchesCache.set headId
          (Obj.keep (s.batchesCache.get? headId) s.batches batches).1) := by
      refine Dict.forall_set ⟨hmade, ?_⟩ fun id group _ hgroup => ?_
      · rw [hvalue]
        exact hbatches.1
      · exact (hs id group hgroup).imp_left fun hold => hold.mono hgrows
    let next : BatchState := ⟨(Obj.keep (s.batchesCache.get? headId) s.batches batches).2,
      s.batchesCache.set headId (Obj.keep (s.batchesCache.get? headId) s.batches batches).1⟩
    obtain ⟨hvalues, hgrows', hok'⟩ := ih (s := next) hok hbatches.2
    rw [keepBatches]
    refine ⟨?_, hgrows.trans hgrows', hok'⟩
    rw [List.map_cons, hvalues, hvalue]

/-! ### A render -/

/-- What is computed, without the identities. -/
structure TranscriptView where
  messages : List (StreamMessage × List ShownCall × Bool)
  groups : List (String × List (List ShownCall))
  openEndedHeadId : Option String
  deriving DecidableEq

def Transcript.view (t : Transcript) : TranscriptView where
  messages := t.processedMessages.map fun p => (p.message, callsOf p.toolCalls, p.showAvatar)
  groups := t.toolBatchesByHead.map fun e => (e.1, e.2.value.map callsOf)
  openEndedHeadId := t.openEndedHeadId

/-- What is computed from messages and their calls. -/
def plainView (entries : List (StreamMessage × List ShownCall)) : TranscriptView where
  messages := withAvatars none entries
  groups := (Gathered.gather (entries.map pieceOf)).byHead.entries
  openEndedHeadId := (Gathered.gather (entries.map pieceOf)).current.map Prod.fst

/-- The caches have objects that were made, each with its parts. -/
structure Caches.Ok (c : Caches) : Prop where
  calls : CallsOk c.calls c.toolCallCache
  arrays : ArraysOk c.calls c.arrays c.toolCallArrayCache
  regular : RegularsOk c.calls c.arrays c.regularToolCallsCache
  batches : BatchesOk c.arrays c.batches c.toolBatchesCache

/-- What the theorems assume of the messages: those that are shown have ids, and no two messages
and no two calls have the same. -/
structure Render.Distinct (js : JsText) (r : Render) : Prop where
  present : ∀ message ∈ r.messages, message.isShown = true → message.id ≠ ""
  messages : (r.messages.map StreamMessage.id).Nodup
  calls : (issuedCallIds js r.interruptedToolCallIds r.messages).Nodup

theorem withAvatars_map {β β' : Type} (f : β → β') (previous : Option Bool)
    (l : List (StreamMessage × β)) :
    withAvatars previous (l.map fun e => (e.1, f e.2)) =
      (withAvatars previous l).map fun e => (e.1, f e.2.1, e.2.2) := by
  induction l generalizing previous with
  | nil => rfl
  | cons e l ih => exact congrArg (_ :: ·) (ih (some e.1.isHuman))

theorem map_withAvatars {β : Type} (previous : Option Bool) (l : List (StreamMessage × β)) :
    (withAvatars previous l).map (fun e => (e.1, e.2.1)) = l := by
  induction l generalizing previous with
  | nil => rfl
  | cons e l ih => exact congrArg (_ :: ·) (ih (some e.1.isHuman))

/-- **What a render computes**: the view of the settled calls.  The caches stay in order. -/
theorem render_spec {c : Caches} (hc : c.Ok) {r : Render} (hr : r.Distinct js) :
    (render js c r).1.view =
        plainView (entriesOf js r.interruptedToolCallIds c.oldCall r.messages) ∧
      (render js c r).2.Ok := by
  -- the loop over the messages
  have hprocessing := ok_processing hc.calls hr.messages hr.calls
  revert hprocessing
  rw [render]
  dsimp only
  generalize r.messages.foldl (processMessage js r.interruptedToolCallIds) _ = processing
  intro hprocessing
  have hentries : (processing.messageMap.values.map MessageEntry.view) =
      entriesOf js r.interruptedToolCallIds c.oldCall r.messages := by
    rw [← hprocessing.entries, Dict.values, List.map_map]
    rfl
  have hdata : ∀ data ∈ processing.messageMap.values, ∀ tc ∈ data.toolCalls,
      tc.Made processing.calls := by
    intro data hdata
    obtain ⟨id, hmem⟩ := Dict.mem_values.mp hdata
    exact hprocessing.made _ hmem
  -- the arrays
  have harrays : ArraysOk processing.calls c.arrays c.toolCallArrayCache :=
    fun id array harray => (hc.arrays id array harray).mono hprocessing.grows (List.prefix_refl _)
  have hkept := keepArrays_spec (s := ⟨c.arrays, c.toolCallArrayCache⟩) harrays hdata none
  revert hkept
  generalize keepArrays none ⟨c.arrays, c.toolCallArrayCache⟩ processing.messageMap.values = kept
  rintro ⟨hvalues, hgrows, hkeptOk, hkept⟩
  -- the groups
  have hgroup := groupMessages_spec
    (s := { arrays := kept.2.arrays, regularCache := c.regularToolCallsCache })
    ⟨fun id cached hcached => (hc.regular id cached hcached).mono hprocessing.grows hgrows,
      (fun _ he => by cases he), (fun _ hgroup => by cases hgroup)⟩ hkept
  revert hgroup
  generalize kept.1.foldl groupMessage _ = grouping
  rintro ⟨hgroups, hgrows', hgrouping⟩
  -- the batches
  have hbatches : BatchesOk grouping.arrays c.batches c.toolBatchesCache :=
    fun id group hgroup => (hc.batches id group hgroup).imp_right fun hold array harray =>
      (hold array harray).mono (hgrows.trans hgrows')
  have hbatch := keepBatches_spec (s := ⟨c.batches, c.toolBatchesCache⟩) hbatches
    hgrouping.made.byHead
  revert hbatch
  generalize keepBatches ⟨c.batches, c.toolBatchesCache⟩ grouping.groups.byHead.entries = batches
  rintro ⟨hbatchValues, hgrows'', hbatchOk⟩
  have hmessages : kept.1.map (fun p => (p.message, callsOf p.toolCalls, p.showAvatar)) =
      withAvatars none (entriesOf js r.interruptedToolCallIds c.oldCall r.messages) := by
    have hmap := withAvatars_map (List.map Obj.value) none
      (processing.messageMap.values.map fun data => (data.message, data.toolCalls))
    rw [List.map_map, ← hvalues, List.map_map] at hmap
    rw [← hentries]
    exact hmap.symm
  have hentriesOf : kept.1.map (fun p => (p.message, callsOf p.toolCalls)) =
      entriesOf js r.interruptedToolCallIds c.oldCall r.messages := by
    rw [← map_withAvatars none (entriesOf js r.interruptedToolCallIds c.oldCall r.messages),
      ← hmessages, List.map_map]
    rfl
  have hgather : grouping.groups.map callsOf = Gathered.gather
      ((entriesOf js r.interruptedToolCallIds c.oldCall r.messages).map pieceOf) := by
    rw [hgroups, ← hentriesOf, List.map_map]
    rfl
  constructor
  · rw [Transcript.view, plainView, ← hgather, hmessages]
    refine congrArg₂ (TranscriptView.mk _) ?_ ?_
    · rw [Gathered.map, Dict.entries_mapValues, ← hbatchValues, List.map_map]
      rfl
    · rw [Gathered.map, Option.map_map]
      rfl
  · refine ⟨hprocessing.calls, ?_, ?_, ?_⟩
    · intro id array harray
      exact (hkeptOk id array (Dict.get?_of_get?_filter harray)).mono (List.prefix_refl _) hgrows'
    · intro id cached hcached
      exact hgrouping.regular id cached (Dict.get?_of_get?_filter hcached)
    · intro id group hgroup
      exact hbatchOk id group (Dict.get?_of_get?_filter hgroup)

theorem ok_empty : ({} : Caches).Ok := ⟨nofun, nofun, nofun, nofun⟩

theorem ok_renderAll {history : List Render} (h : ∀ r ∈ history, r.Distinct js) :
    (renderAll js history).Ok := by
  induction history using List.reverseRecOn with
  | nil => exact ok_empty
  | append_singleton history r ih =>
    rw [List.forall_mem_append, List.forall_mem_singleton] at h
    rw [renderAll, List.foldl_append]
    exact (render_spec (ih h.1) h.2).2

end NextRole
