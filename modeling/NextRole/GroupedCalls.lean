import NextRole.NestedCalls
import NextRole.TranscriptCaches

/-!
# The groups of tool calls

Each call that has no card of its own is to be in one group, as it is now, whatever earlier renders
left in the caches.  Two slips break this: a call that is answered again as it was before stays as
it was cached, and a `task` call without a subagent has neither a card nor a group.

## Main definitions

* `currentEntries` — the messages that are shown, with their calls as they are now.
* `GroupsConserve` — what the groups have to be, for one render.
* `UpToDate` — no cached call is stale, and each `task` call has its subagent.
* `EveryRender` — a property of each render of a history, in the caches that it finds.

## Main results

* `settle_eq_iff` — when a cached call makes no difference.
* `groupsConserve_iff` — **the groups are right exactly if the render is up to date**.
* `groupsConserve_everyRender_iff` — the same of all renders of a history.
* `not_groupsConserve` — a call whose arguments changed is shown with the old ones.
-/

namespace NextRole

variable {js : JsText} {ids : List String} {old : String → Option ShownCall}
  {messages : List StreamMessage} {c : Caches} {r : Render}

/-! ### What has to be shown -/

/-- A call as it is now: with the last text that answers it. -/
def ShownCall.now (call : ShownCall) (results : List String) : ShownCall :=
  match results.getLast? with
  | some result => call.answered result
  | none => call

/-- The messages that are shown, with their calls as they are now. -/
def currentEntries (js : JsText) (ids : List String) :
    List StreamMessage → List (StreamMessage × List ShownCall)
  | [] => []
  | message :: rest =>
    if message.isShown then
      (message, (message.issued js ids).map fun call => call.now (answersTo call.id rest)) ::
        currentEntries js ids rest
    else currentEntries js ids rest

/-- A call is rendered as its own card: `taskToolCalls` and `chartToolCalls` of `ChatMessage`. -/
def ShownCall.hasCard (call : ShownCall) : Bool := call.spawns || call.name = "create_chart"

/-- The calls of a message that are to be in a group. -/
def groupedCalls (e : StreamMessage × List ShownCall) : List ShownCall :=
  e.2.filter fun call => !call.hasCard

/-- A group is a run of messages: no text, no message of a human and no spawn lies inside it. -/
def IsOneRun (entries : List (StreamMessage × List ShownCall)) (headId : String)
    (batches : List (List ShownCall)) : Prop :=
  ∃ before first rest after, entries = before ++ first :: rest ++ after ∧ first.1.id = headId ∧
    first.1.isHuman = false ∧
      batches = ((first :: rest).map groupedCalls).filter (fun batch => batch ≠ []) ∧
        (∀ e ∈ rest, e.1.isHuman = false ∧ e.1.isVisible = false) ∧
          ∀ e ∈ (first :: rest).dropLast, ∀ call ∈ e.2, call.spawns = false

/-- The groups of a render: they have the calls without a card in the order of the messages, each
once and as it is now; each is one run; and empty caches would have given the same. -/
structure GroupsConserve (js : JsText) (c : Caches) (r : Render) : Prop where
  conserved : (render js c r).1.view.groups.flatMap (fun group => group.2.flatten) =
    (currentEntries js r.interruptedToolCallIds r.messages).flatMap groupedCalls
  once : ((render js c r).1.view.groups.flatMap fun group =>
    group.2.flatten.map fun call => call.id).Nodup
  run : ∀ group ∈ (render js c r).1.view.groups,
    IsOneRun (currentEntries js r.interruptedToolCallIds r.messages) group.1 group.2
  cacheFree : (render js c r).1.view = (render js {} r).1.view

/-- The cache has a call as it was answered first, and has it with another name or other
arguments. -/
def ShownCall.Stale (call cached : ShownCall) (results : List String) : Prop :=
  ∃ result ∈ results.head?, cached.hasResult result = true ∧
    ¬ (cached.name = call.name ∧ cached.args = call.args)

/-- No cached call is stale, and each `task` call has its subagent. -/
structure UpToDate (js : JsText) (c : Caches) (r : Render) : Prop where
  fresh : ∀ message after, message :: after <:+ r.messages →
    ∀ call ∈ message.issued js r.interruptedToolCallIds, ∀ cached ∈ c.oldCall call.id,
      ¬ call.Stale cached (answersTo call.id after)
  named : ∀ message ∈ r.messages, ∀ call ∈ message.issued js r.interruptedToolCallIds,
    call.name = "task" → call.hasSubagent = true

/-- A property of each render of a history, in the caches that the earlier ones left. -/
def EveryRender (js : JsText) (P : Caches → Render → Prop) (history : List Render) : Prop :=
  ∀ before r after, history = before ++ r :: after → P (renderAll js before) r

/-! ### Calls that were cached -/

theorem settle_of_completed {call : ShownCall} (h : call.status = .completed)
    (cached : Option ShownCall) (results : List String) :
    settle cached call results = call.now results := by
  induction results using List.reverseRecOn with
  | nil => rfl
  | append_singleton results result ih =>
    have hstatus : (settle cached call results).status = .completed := by
      rw [ih, ShownCall.now]
      split
      · rfl
      · exact h
    have hlast : settle cached call (results ++ [result]) =
        (settle cached call results).answered result := by
      rw [settle, List.foldl_append]
      exact if_pos hstatus
    rw [hlast, ih, ShownCall.now, ShownCall.now, List.getLast?_concat]
    split <;> rfl

theorem settle_cons (cached : Option ShownCall) (call : ShownCall) (result : String)
    (rest : List String) :
    settle cached call (result :: rest) = (answerStep cached call result).now rest :=
  settle_of_completed (status_answerStep cached call result) cached rest

theorem now_cons (call : ShownCall) (result : String) (rest : List String) :
    call.now (result :: rest) = (call.answered result).now rest := by
  rw [ShownCall.now, ShownCall.now, List.getLast?_cons]
  cases rest.getLast? <;> rfl

theorem settle_none {call : ShownCall} (h : call.status ≠ .completed) (results : List String) :
    settle none call results = call.now results := by
  cases results with
  | nil => rfl
  | cons result rest =>
    rw [settle_cons, now_cons, answerStep, if_neg h]
    rfl

theorem now_name_args (call : ShownCall) (results : List String) :
    (call.now results).id = call.id ∧ (call.now results).name = call.name ∧
      (call.now results).args = call.args := by
  unfold ShownCall.now
  split <;> exact ⟨rfl, rfl, rfl⟩

/-- A cached call makes no difference exactly if it is not stale. -/
theorem settle_eq_iff {call : ShownCall} (hstatus : call.status ≠ .completed)
    {cached : Option ShownCall} (hid : ∀ o ∈ cached, o.id = call.id) (results : List String) :
    settle cached call results = settle none call results ↔
      ∀ o ∈ cached, ¬ call.Stale o results := by
  rw [settle_none hstatus]
  cases results with
  | nil => simp [settle, ShownCall.now, ShownCall.Stale]
  | cons result rest =>
    rw [settle_cons, now_cons, answerStep, if_neg hstatus]
    cases hfilter : cached.filter fun o => o.hasResult result with
    | none =>
      -- the first answer is not the one that is cached
      refine iff_of_true rfl fun o ho => ?_
      rintro ⟨result', hresult', hhas, -⟩
      cases hresult'
      exact Option.filter_eq_none_iff.mp hfilter o ho hhas
    | some o =>
      obtain ⟨ho, hhas⟩ := Option.filter_eq_some_iff.mp hfilter
      rw [Option.getD_some]
      constructor
      · rintro heq o' ho' ⟨result', -, -, hstale⟩
        cases ho.symm.trans ho'
        obtain ⟨-, hname, hargs⟩ := now_name_args o rest
        obtain ⟨-, hname', hargs'⟩ := now_name_args (call.answered result) rest
        rw [heq] at hname hargs
        exact hstale ⟨hname.symm.trans hname', hargs.symm.trans hargs'⟩
      · intro hfresh
        have hsame : o.name = call.name ∧ o.args = call.args := by
          by_contra hne
          exact hfresh o ho ⟨result, rfl, hhas, hne⟩
        have hsameId : o.id = call.id := hid o ho
        -- an object with the result, the id, the name and the arguments is the answered call
        have heq : o = call.answered result := by
          rw [← answered_of_hasResult hhas]
          obtain ⟨⟨id, name, args⟩, status, result₀⟩ := o
          obtain ⟨rfl, rfl⟩ := hsame
          cases hsameId
          rfl
        rw [heq]

/-! ### Entries -/

/-- What holds of each message with those after it. -/
theorem forall_suffix_cons {P : StreamMessage → List StreamMessage → Prop}
    {message : StreamMessage} {rest : List StreamMessage} :
    (∀ m after, m :: after <:+ message :: rest → P m after) ↔
      P message rest ∧ ∀ m after, m :: after <:+ rest → P m after := by
  constructor
  · intro h
    exact ⟨h message rest (List.suffix_refl _), fun m after hsuffix =>
      h m after (hsuffix.trans (List.suffix_cons _ _))⟩
  · rintro ⟨hfirst, hrest⟩ m after hsuffix
    rcases List.suffix_cons_iff.mp hsuffix with heq | hsuffix
    · cases heq
      exact hfirst
    · exact hrest m after hsuffix

theorem entriesOf_none (js : JsText) (ids : List String) (messages : List StreamMessage) :
    entriesOf js ids (fun _ => none) messages = currentEntries js ids messages := by
  induction messages with
  | nil => rfl
  | cons message rest ih =>
    rw [entriesOf, currentEntries, ih]
    split
    · refine congrArg (fun calls => (message, calls) :: _)
        (List.map_congr_left fun call hcall => ?_)
      exact settle_none (status_of_mem_issued hcall) _
    · rfl

/-- **The calls are as they are now** exactly if no cached one is stale. -/
theorem entriesOf_eq_iff (hkeyed : KeyedById old) (js : JsText) (ids : List String)
    (messages : List StreamMessage) :
    entriesOf js ids old messages = currentEntries js ids messages ↔
      ∀ message after, message :: after <:+ messages → ∀ call ∈ message.issued js ids,
        ∀ cached ∈ old call.id, ¬ call.Stale cached (answersTo call.id after) := by
  rw [← entriesOf_none]
  induction messages with
  | nil => simp [entriesOf]
  | cons message rest ih =>
    rw [forall_suffix_cons, ← ih, entriesOf, entriesOf]
    have hcall : ∀ call ∈ message.issued js ids,
        settle (old call.id) call (answersTo call.id rest) =
          settle none call (answersTo call.id rest) ↔
            ∀ cached ∈ old call.id, ¬ call.Stale cached (answersTo call.id rest) :=
      fun call hcall => settle_eq_iff (status_of_mem_issued hcall) (hkeyed call.id) _
    split
    · rw [List.cons.injEq, Prod.mk.injEq, List.map_inj_left]
      simp only [true_and]
      exact and_congr_left fun _ => forall₂_congr hcall
    · next hshown =>
      rw [issued_of_not_isShown (Bool.not_eq_true _ ▸ hshown)]
      simp

/-- What a render's entries are. -/
theorem mem_entriesOf {e : StreamMessage × List ShownCall}
    (h : e ∈ entriesOf js ids old messages) :
    e.1.isShown = true ∧ ∃ after, e.1 :: after <:+ messages ∧
      e.2 = (e.1.issued js ids).map fun call =>
        settle (old call.id) call (answersTo call.id after) := by
  induction messages with
  | nil => cases h
  | cons message rest ih =>
    rw [entriesOf] at h
    split at h
    · next hshown =>
      rcases List.mem_cons.mp h with rfl | h
      · exact ⟨hshown, rest, List.suffix_refl _, rfl⟩
      · obtain ⟨hshown', after, hsuffix, hcalls⟩ := ih h
        exact ⟨hshown', after, hsuffix.trans (List.suffix_cons _ _), hcalls⟩
    · obtain ⟨hshown', after, hsuffix, hcalls⟩ := ih h
      exact ⟨hshown', after, hsuffix.trans (List.suffix_cons _ _), hcalls⟩

theorem exists_mem_entriesOf {message : StreamMessage} {after : List StreamMessage}
    (h : message :: after <:+ messages) (hshown : message.isShown = true) (js : JsText)
    (ids : List String) (old : String → Option ShownCall) :
    (message, (message.issued js ids).map fun call =>
      settle (old call.id) call (answersTo call.id after)) ∈ entriesOf js ids old messages := by
  induction messages with
  | nil => exact absurd (List.suffix_nil.mp h) (List.cons_ne_nil _ _)
  | cons first rest ih =>
    rw [entriesOf]
    rcases List.suffix_cons_iff.mp h with heq | h
    · cases heq
      rw [if_pos hshown]
      exact List.mem_cons_self
    · split
      · exact List.mem_cons_of_mem _ (ih h)
      · exact ih h

theorem map_fst_entriesOf (js : JsText) (ids : List String) (old : String → Option ShownCall)
    (messages : List StreamMessage) :
    (entriesOf js ids old messages).map Prod.fst =
      messages.filter fun message => message.isShown := by
  induction messages with
  | nil => rfl
  | cons message rest ih =>
    rw [entriesOf, List.filter_cons]
    split
    · exact congrArg (message :: ·) ih
    · exact ih

/-! ### Groups -/

/-- The entries have ids, and only a model's message has calls. -/
def EntriesOk (entries : List (StreamMessage × List ShownCall)) : Prop :=
  ∀ e ∈ entries, e.1.id ≠ "" ∧ (e.1.isHuman = true → e.2 = [])

theorem Render.Distinct.entriesOk (hr : r.Distinct js) (ids : List String)
    (old : String → Option ShownCall) : EntriesOk (entriesOf js ids old r.messages) := by
  intro e he
  obtain ⟨hshown, after, -, hcalls⟩ := mem_entriesOf he
  refine ⟨hr.present _ (mem_of_mem_entriesOf he) hshown, fun hhuman => ?_⟩
  have hissued : e.1.issued js ids = [] := by
    unfold StreamMessage.isHuman at hhuman
    unfold StreamMessage.issued
    split at hhuman
    · next hbody => rw [hbody]
    · cases hhuman
  rw [hcalls, hissued, List.map_nil]

theorem Render.Distinct.nodup_keys (hr : r.Distinct js) (ids : List String)
    (old : String → Option ShownCall) :
    (((entriesOf js ids old r.messages).map pieceOf).map Piece.key).Nodup := by
  have hkeys : ((entriesOf js ids old r.messages).map pieceOf).map Piece.key =
      ((entriesOf js ids old r.messages).map Prod.fst).map StreamMessage.id := by
    rw [List.map_map, List.map_map]
    rfl
  rw [hkeys, map_fst_entriesOf]
  exact hr.messages.sublist (List.filter_sublist.map _)

theorem batch_pieceOf {e : StreamMessage × List ShownCall} (hid : e.1.id ≠ "")
    (hhuman : e.1.isHuman = true → e.2 = []) :
    (pieceOf e).batch =
      if e.2.filter ShownCall.isRegular ≠ [] then some (e.2.filter ShownCall.isRegular)
      else none := by
  cases h : e.1.isHuman with
  | true => simp [pieceOf, h, hhuman h]
  | false => simp [pieceOf, h, hid, List.length_pos_iff]

theorem filterMap_batch {entries : List (StreamMessage × List ShownCall)} (h : EntriesOk entries) :
    (entries.map pieceOf).filterMap Piece.batch =
      (entries.map fun e => e.2.filter ShownCall.isRegular).filter fun batch => batch ≠ [] := by
  induction entries with
  | nil => rfl
  | cons e entries ih =>
    obtain ⟨he, hentries⟩ := List.forall_mem_cons.mp h
    rw [List.map_cons, List.filterMap_cons, batch_pieceOf he.1 he.2, List.map_cons,
      List.filter_cons, ih hentries]
    by_cases hnil : e.2.filter ShownCall.isRegular = [] <;> simp [hnil]

/-- The calls of the groups are those that are no cards. -/
theorem flatMap_groups {entries : List (StreamMessage × List ShownCall)} (h : EntriesOk entries)
    (hkeys : ((entries.map pieceOf).map Piece.key).Nodup) :
    (plainView entries).groups.flatMap (fun group => group.2.flatten) =
      entries.flatMap fun e => e.2.filter ShownCall.isRegular := by
  have hbatches := Gathered.flatMap_gather hkeys
  rw [filterMap_batch h] at hbatches
  calc (plainView entries).groups.flatMap (fun group => group.2.flatten)
      = ((plainView entries).groups.flatMap Prod.snd).flatten := by
        rw [List.flatMap_def, List.flatMap_def, List.flatten_flatten, List.map_map]
        rfl
    _ = (entries.map fun e => e.2.filter ShownCall.isRegular).flatten := by
        rw [plainView, hbatches, List.flatten_filter_ne_nil]
    _ = entries.flatMap fun e => e.2.filter ShownCall.isRegular := List.flatMap_def.symm

/-- A group of the view is one run of the entries. -/
theorem isOneRun_plainView {entries : List (StreamMessage × List ShownCall)} (h : EntriesOk entries)
    (hkeys : ((entries.map pieceOf).map Piece.key).Nodup)
    (hregular : ∀ e ∈ entries, e.2.filter ShownCall.isRegular = groupedCalls e)
    {group : String × List (List ShownCall)} (hgroup : group ∈ (plainView entries).groups) :
    IsOneRun entries group.1 group.2 := by
  obtain ⟨before, first, rest, after, hsplit, hkey, hfirst, hbatches, hbefore, hafter⟩ :=
    Gathered.isRun_gather hkeys hgroup
  -- the pieces of the run are those of a run of the entries
  obtain ⟨left, after', rfl, hleft, -⟩ := List.map_eq_append_iff.mp hsplit
  obtain ⟨before', run, rfl, -, hrun⟩ := List.map_eq_append_iff.mp hleft
  obtain ⟨first', rest', rfl, rfl, rfl⟩ := List.map_eq_cons_iff.mp hrun
  have hok : EntriesOk (first' :: rest') := fun e he =>
    h e (List.mem_append_left _ (List.mem_append_right _ he))
  have hfirstHuman : first'.1.isHuman = false := by
    by_contra hhuman
    rw [Bool.not_eq_false] at hhuman
    rw [pieceOf, hhuman] at hfirst
    simp at hfirst
  have hrest : ∀ e ∈ rest', e.1.isHuman = false ∧ e.1.isVisible = false := by
    intro e he
    have hcut := hbefore _ (List.mem_map_of_mem he)
    rw [pieceOf, Bool.or_eq_false_iff, Bool.or_eq_false_iff] at hcut
    exact ⟨hcut.1.2, hcut.2⟩
  refine ⟨before', first', rest', after', rfl, hkey, hfirstHuman, ?_, hrest, ?_⟩
  · rw [hbatches, ← List.map_cons, filterMap_batch hok]
    refine congrArg (List.filter _) (List.map_congr_left fun e he => ?_)
    exact hregular e (List.mem_append_left _ (List.mem_append_right _ he))
  · intro e he call hcall
    have hmem : pieceOf e ∈ (pieceOf first' :: rest'.map pieceOf).dropLast := by
      rw [← List.map_cons, ← List.map_dropLast]
      exact List.mem_map_of_mem he
    have hhuman : e.1.isHuman = false := by
      rcases List.mem_cons.mp ((List.dropLast_sublist _).mem he) with rfl | he
      · exact hfirstHuman
      · exact (hrest e he).1
    have hid := (hok e ((List.dropLast_sublist _).mem he)).1
    have hcut := hafter _ hmem
    simp only [pieceOf, hhuman, hid, decide_false, Bool.or_false, Bool.not_false, Bool.true_and,
      List.any_eq_false] at hcut
    exact Bool.not_eq_true _ ▸ hcut call hcall

/-! ### Renders -/

/-- Where each `task` call has its subagent, the calls without a card are those that are no
cards. -/
theorem isRegular_eq {call : ShownCall} (h : call.name = "task" → call.hasSubagent = true) :
    call.isRegular = !call.hasCard := by
  unfold ShownCall.isRegular ShownCall.hasCard ShownCall.spawns cardToolNames
  by_cases htask : call.name = "task"
  · simp [htask, h htask]
  · simp [htask]

theorem mem_currentEntries {e : StreamMessage × List ShownCall}
    (h : e ∈ currentEntries js ids messages) {call : ShownCall} (hcall : call ∈ e.2) :
    ∃ issued ∈ e.1.issued js ids, ∃ results, call = issued.now results := by
  rw [← entriesOf_none] at h
  obtain ⟨-, after, -, hcalls⟩ := mem_entriesOf h
  rw [hcalls] at hcall
  obtain ⟨issued, hissued, rfl⟩ := List.mem_map.mp hcall
  exact ⟨issued, hissued, _, settle_none (status_of_mem_issued hissued) _⟩

theorem exists_mem_currentEntries (hmessage : message ∈ messages) {call : ShownCall}
    (hcall : call ∈ message.issued js ids) :
    ∃ e ∈ currentEntries js ids messages, ∃ results, call.now results ∈ e.2 := by
  obtain ⟨before, after, rfl⟩ := List.append_of_mem hmessage
  have hshown : message.isShown = true := by
    by_contra hnot
    rw [issued_of_not_isShown (Bool.not_eq_true _ ▸ hnot)] at hcall
    cases hcall
  have hmem := exists_mem_entriesOf (List.suffix_append before (message :: after)) hshown js ids
    fun _ => none
  rw [entriesOf_none] at hmem
  refine ⟨_, hmem, answersTo call.id after, ?_⟩
  rw [← settle_none (status_of_mem_issued hcall)]
  exact List.mem_map_of_mem hcall

theorem hasSubagent_now (call : ShownCall) (results : List String) :
    (call.now results).hasSubagent = call.hasSubagent := by
  rw [ShownCall.hasSubagent, (now_name_args call results).2.2, ShownCall.hasSubagent]

theorem isRegular_of_named (h : ∀ message ∈ messages, ∀ call ∈ message.issued js ids,
    call.name = "task" → call.hasSubagent = true) {e : StreamMessage × List ShownCall}
    (he : e ∈ currentEntries js ids messages) :
    e.2.filter ShownCall.isRegular = groupedCalls e := by
  refine List.filter_congr fun call hcall => isRegular_eq fun htask => ?_
  obtain ⟨issued, hissued, results, rfl⟩ := mem_currentEntries he hcall
  rw [← entriesOf_none] at he
  rw [hasSubagent_now]
  rw [(now_name_args issued results).2.1] at htask
  exact h e.1 (mem_of_mem_entriesOf he) issued hissued htask

/-- A render whose groups have all calls without a card names the subagent of each `task` call. -/
theorem named_of_conserved {entries : List (StreamMessage × List ShownCall)}
    (h : (entries.flatMap fun e => e.2.filter ShownCall.isRegular) =
      (currentEntries js ids messages).flatMap groupedCalls) (hmessage : message ∈ messages)
    {call : ShownCall} (hcall : call ∈ message.issued js ids) (htask : call.name = "task") :
    call.hasSubagent = true := by
  by_contra hnot
  obtain ⟨e, he, results, hnow⟩ := exists_mem_currentEntries hmessage hcall
  have hname : (call.now results).name = "task" := (now_name_args call results).2.1.trans htask
  -- the call has no card, so that it is in a group
  have hmem : call.now results ∈ (currentEntries js ids messages).flatMap groupedCalls := by
    refine List.mem_flatMap.mpr ⟨e, he, List.mem_filter.mpr ⟨hnow, ?_⟩⟩
    rw [← hasSubagent_now call results] at hnot
    simp [ShownCall.hasCard, ShownCall.spawns, hname, hnot]
  -- and what is in a group is no card
  rw [← h] at hmem
  obtain ⟨e', -, hmem⟩ := List.mem_flatMap.mp hmem
  have hregular := (List.mem_filter.mp hmem).2
  simp [ShownCall.isRegular, cardToolNames, hname] at hregular

/-- **The groups are right exactly if the render is up to date.** -/
theorem groupsConserve_iff (hc : c.Ok) (hr : r.Distinct js) :
    GroupsConserve js c r ↔ UpToDate js c r := by
  have hview := (render_spec hc hr).1
  have hplain : (render js {} r).1.view =
      plainView (currentEntries js r.interruptedToolCallIds r.messages) := by
    rw [← entriesOf_none]
    exact (render_spec ok_empty hr).1
  have hiff := entriesOf_eq_iff hc.calls.keyed js r.interruptedToolCallIds r.messages
  have hok := hr.entriesOk r.interruptedToolCallIds c.oldCall
  have hkeys := hr.nodup_keys r.interruptedToolCallIds c.oldCall
  have hgroups := flatMap_groups hok hkeys
  rw [← hview] at hgroups
  constructor
  · intro h
    have hmessages := congrArg TranscriptView.messages
      (hview.symm.trans (h.cacheFree.trans hplain))
    have hentries : entriesOf js r.interruptedToolCallIds c.oldCall r.messages =
        currentEntries js r.interruptedToolCallIds r.messages := by
      rw [← map_withAvatars none (entriesOf _ _ _ _), ← map_withAvatars none (currentEntries _ _ _)]
      exact congrArg _ hmessages
    refine ⟨hiff.mp hentries, fun message hmessage call hcall htask => ?_⟩
    exact named_of_conserved (hgroups.symm.trans h.conserved) hmessage hcall htask
  · intro h
    have hentries := hiff.mpr h.fresh
    have hregular := fun e he => isRegular_of_named h.named (e := e) he
    rw [hentries] at hview hok hkeys hgroups
    constructor
    · rw [hgroups, List.flatMap_def, List.flatMap_def, List.map_congr_left hregular]
    · rw [← List.map_flatMap, hgroups, ← List.filter_flatMap]
      refine List.Nodup.sublist (List.filter_sublist.map _) ?_
      rw [List.map_flatMap, ← entriesOf_none, flatMap_ids_entriesOf keyed_none]
      exact hr.calls
    · intro group hgroup
      rw [hview] at hgroup
      exact isOneRun_plainView hok hkeys hregular hgroup
    · rw [hview, hplain]

/-- **In every history** of renders with distinct ids, all groups are right exactly if all renders
are up to date. -/
theorem groupsConserve_everyRender_iff (js : JsText) {history : List Render}
    (h : ∀ r ∈ history, r.Distinct js) :
    EveryRender js (GroupsConserve js) history ↔ EveryRender js (UpToDate js) history := by
  refine forall₃_congr fun before r after => forall_congr' fun hsplit => ?_
  rw [hsplit, List.forall_mem_append, List.forall_mem_cons] at h
  exact groupsConserve_iff (ok_renderAll h.1) h.2.1

/-! ### Two histories -/

/-- The ids of a search. -/
def searchCall (pattern : String) : StreamMessage where
  id := "m1"
  body := .ai [{ id := "c1", name := "grep", args := .obj [("pattern", .str pattern)] }] []

/-- The search has found nothing. -/
def searchResult : StreamMessage where
  id := "t1"
  text := "No matches found"
  body := .tool "c1"

/-- The model says so. -/
def searchReport : StreamMessage where
  id := "m2"
  text := "Nothing there."
  body := .ai [] []

/-- A search, and then the report on it. -/
def growingHistory : List Render :=
  [{ messages := [searchCall "salary", searchResult] },
    { messages := [searchCall "salary", searchResult, searchReport] }]

/-- A search, and the same one edited: it has found nothing again. -/
def editedHistory : List Render :=
  [{ messages := [searchCall "salary", searchResult] },
    { messages := [searchCall "wage", searchResult] }]

theorem distinct_of_forall {history : List Render}
    (h : ∀ r ∈ history, (∀ message ∈ r.messages, message.isShown = true → message.id ≠ "") ∧
      (r.messages.map StreamMessage.id).Nodup ∧
        (issuedCallIds js r.interruptedToolCallIds r.messages).Nodup) :
    ∀ r ∈ history, r.Distinct js :=
  fun r hr => ⟨(h r hr).1, (h r hr).2.1, (h r hr).2.2⟩

theorem groupsConserve_growingHistory :
    EveryRender plainText (GroupsConserve plainText) growingHistory := by
  have hdistinct : ∀ r ∈ growingHistory, r.Distinct plainText := distinct_of_forall (by decide)
  refine (groupsConserve_everyRender_iff plainText hdistinct).mpr ?_
  intro before r after hsplit
  rw [hsplit, List.forall_mem_append] at hdistinct
  have hiff := entriesOf_eq_iff (ok_renderAll hdistinct.1).calls.keyed plainText
    r.interruptedToolCallIds r.messages
  match before, hsplit with
  | [], hsplit =>
    cases hsplit
    exact ⟨hiff.mp (by decide), by decide⟩
  | [_], hsplit =>
    cases hsplit
    exact ⟨hiff.mp (by decide), by decide⟩
  | _ :: _ :: more, hsplit =>
    have hlength := congrArg List.length hsplit
    simp only [growingHistory, List.length_append, List.length_cons, List.length_nil] at hlength
    omega

/-- The edited search is shown with its old pattern. -/
theorem not_groupsConserve : ¬ ∀ js history, (∀ r ∈ history, Render.Distinct js r) →
    EveryRender js (GroupsConserve js) history := by
  intro h
  have hrender := h plainText editedHistory (distinct_of_forall (by decide))
    [{ messages := [searchCall "salary", searchResult] }]
    { messages := [searchCall "wage", searchResult] } [] rfl
  exact absurd hrender.conserved (by decide)

end NextRole
