import NextRole.Api.RunResult

/-!
# Waiting returns the outcome of a run

An event is taken for a report of interrupts when its text mentions the marker anywhere, the
answer is the last chunk that was kept, and the interrupts of several chunks are joined
without a look at what they repeat.  So the answer is the outcome of the run only where the
last report after an error is an error, the marker occurs in reports of interrupts alone, and
no interrupt is reported twice.

## Main definitions

* `RunOutcome` — an error, pending interrupts, or values.
* `RunOutcome.ofEvents`, `RunOutcome.Answer` — the outcome of a run and its answer.
* `ReadsLike` — two chunks that read the same once feedback is added.
* `PlainEvents` — the condition.

## Main results

* `foldl_consume` — what the loop keeps of the events.
* `returnsOutcome_iff`, and `not_returnsOutcome` for a message with the marker in its text.
-/

namespace NextRole

/-! ### The outcome of a run -/

/-- How a run ended. -/
inductive RunOutcome
  | error (error : Json)
  | interrupts (pending : List Json)
  | values (values : Json)

/-- The chunks of the error events. -/
def errorChunks (events : List RunEvent) : List Json :=
  (events.filter fun e => e.mode = "error").map RunEvent.chunk

/-- The chunks of the values events. -/
def valuesChunks (events : List RunEvent) : List Json :=
  (events.filter fun e => e.mode = "values").map RunEvent.chunk

/-- The feedback of a run. -/
def feedbackOf (events : List RunEvent) : Option Json :=
  ((events.filter fun e => e.mode = "feedback").map RunEvent.chunk).getLast?

/-- The interrupts that the values and updates events report. -/
def pendingInterrupts (events : List RunEvent) : List Json :=
  (events.filter fun e => e.mode = "values" ∨ e.mode = "updates").flatMap fun e =>
    reportedInterrupts e.chunk

/-- The values of a thread, or an empty object where it has none. -/
def reportedValues : Option Json → Json
  | none | some .null => .obj []
  | some values => values

/-- What a thread says of the run: its error, its interrupts, or its values. -/
def threadReport (loads : String → Option Json) : Option Thread → Json
  | none => .obj []
  | some thread =>
    if thread.status = .error then errorBody ((thread.error.bind loads).getD .null)
    else if thread.status = .interrupted ∧ storedInterrupts thread.interrupts ≠ [] then
      interruptBody (storedInterrupts thread.interrupts)
    else reportedValues thread.values

namespace RunOutcome

/-- An error before all else, then interrupts, then the last values. -/
def ofEvents (loads : String → Option Json) (thread : Option Thread) (events : List RunEvent) :
    RunOutcome :=
  match (errorChunks events).getLast? with
  | some e => .error e
  | none =>
    if pendingInterrupts events ≠ [] then .interrupts (pendingInterrupts events)
    else .values ((valuesChunks events).getLast?.getD (threadReport loads thread))

/-- An object with the feedback. -/
def withFeedback (body : Json) (feedback : Option Json) : Json :=
  match feedback, body with
  | some feedback, .obj fields => (Json.obj fields).set "__feedback__" feedback
  | _, body => body

/-- The answer that says how a run ended; each pending interrupt occurs in it once. -/
def Answer (feedback : Option Json) : RunOutcome → Json → Prop
  | .error e, body => body = withFeedback (errorBody e) feedback
  | .interrupts pending, body => ∃ each : List Json, each.Nodup ∧
    (∀ i, i ∈ each ↔ i ∈ pending) ∧ body = withFeedback (interruptBody each) feedback
  | .values v, body => body = withFeedback v feedback

end RunOutcome

/-- Waiting for a run answers with its outcome. -/
def ReturnsOutcome (loads : String → Option Json) (thread : Option Thread)
    (events : List RunEvent) : Prop :=
  ∃ body, waitRun loads thread events = .ok body ∧
    (RunOutcome.ofEvents loads thread events).Answer (feedbackOf events) body

/-! ### What the loop keeps -/

/-- The values, the updates that mention the marker, and the errors. -/
def reports (events : List RunEvent) : List RunEvent :=
  events.filter fun e => e.KeptAsValues ∨ e.mode = "error"

/-- A report as the loop keeps it. -/
def RunEvent.kept (e : RunEvent) : Json := if e.mode = "error" then errorBody e.chunk else e.chunk

/-- The chunks that mention the marker. -/
def markedChunks (events : List RunEvent) : List Json :=
  (events.filter fun e =>
    (e.mode = "values" ∨ e.mode = "updates") ∧ mentionsInterrupt e.chunk = true).map RunEvent.chunk

theorem filter_concat {α : Type*} (p : α → Prop) [DecidablePred p] (l : List α) (a : α) :
    (l ++ [a]).filter (fun x => Decidable.decide (p x)) =
      if p a then l.filter (fun x => Decidable.decide (p x)) ++ [a]
      else l.filter fun x => Decidable.decide (p x) := by
  rw [List.filter_append]
  by_cases h : p a <;> simp [h]

/-- What the loop keeps of the events. -/
theorem foldl_consume (events : List RunEvent) :
    events.foldl Consumed.consume {} =
      { vchunk := (reports events).getLast?.map RunEvent.kept
        fchunk := feedbackOf events
        interruptChunks := markedChunks events
        sawError := !(errorChunks events).isEmpty } := by
  induction events using List.reverseRecOn with
  | nil => rfl
  | append_singleton events e ih =>
    rw [List.foldl_append, ih, List.foldl_cons, List.foldl_nil]
    simp only [reports, feedbackOf, markedChunks, errorChunks, filter_concat, Consumed.consume,
      RunEvent.KeptAsValues]
    by_cases hvalues : e.mode = "values"
    · by_cases hmark : mentionsInterrupt e.chunk = true <;> simp [hvalues, hmark, RunEvent.kept]
    by_cases hupdates : e.mode = "updates"
    · by_cases hmark : mentionsInterrupt e.chunk = true <;> simp [hupdates, hmark, RunEvent.kept]
    by_cases herror : e.mode = "error"
    · simp [herror, RunEvent.kept]
    by_cases hfeedback : e.mode = "feedback"
    · simp [hfeedback]
    · simp [hvalues, hupdates, herror, hfeedback]

/-! ### Chunks that read the same -/

/-- Two chunks read the same once feedback is added: without feedback they are equal, with
feedback they are objects that differ at most in the field `__feedback__`. -/
def ReadsLike (feedback : Option Json) (p q : Json) : Prop :=
  match feedback with
  | none => p = q
  | some _ => ∃ l r, p = .obj l ∧ q = .obj r ∧
    l.filter (fun kv => kv.1 ≠ "__feedback__") = r.filter fun kv => kv.1 ≠ "__feedback__"

section ReadsLike

variable {feedback : Option Json} {p q : Json}

theorem readsLike_obj (feedback : Option Json) (l : List (String × Json)) :
    ReadsLike feedback (.obj l) (.obj l) := by
  cases feedback with
  | none => rfl
  | some f => exact ⟨l, l, rfl, rfl, rfl⟩

theorem not_readsLike_of_ne_obj {l : List (String × Json)} (h : ∀ r, q ≠ .obj r) :
    ¬ ReadsLike feedback (.obj l) q := by
  cases feedback with
  | none => exact fun heq => h l (Eq.symm heq)
  | some f =>
    rintro ⟨-, r, -, hr, -⟩
    exact h r hr

theorem set_feedback (l : List (String × Json)) (f : Json) :
    (Json.obj l).set "__feedback__" f =
      .obj (l.filter (fun kv => kv.1 ≠ "__feedback__") ++ [("__feedback__", f)]) := by
  have hsame : l.filter (fun kv => (List.lookup kv.1 [("__feedback__", f)]).isNone) =
      l.filter fun kv => kv.1 ≠ "__feedback__" := by
    refine List.filter_congr fun kv _ => ?_
    by_cases h : kv.1 = "__feedback__"
    · simp [h]
    · have hne : (kv.1 == "__feedback__") = false := beq_false_of_ne h
      simp [List.lookup_cons, hne, h]
  rw [Json.set, Json.merge, hsame]

/-- What is answered with a chunk is what the other one gives iff they read the same. -/
theorem mergeFeedback_eq_iff :
    mergeFeedback p feedback = .ok (RunOutcome.withFeedback q feedback) ↔ ReadsLike feedback p q := by
  cases feedback with
  | none => simp [mergeFeedback, RunOutcome.withFeedback, ReadsLike]
  | some f =>
    constructor
    · intro h
      cases p with
      | obj l =>
        cases q with
        | obj r =>
          refine ⟨l, r, rfl, rfl, ?_⟩
          have hset := Except.ok.inj h
          rw [RunOutcome.withFeedback, set_feedback, set_feedback] at hset
          exact List.append_cancel_right (Json.obj.inj hset)
        | _ => exact absurd (Except.ok.inj h) (by rw [set_feedback]; exact nofun)
      | _ => cases h
    · rintro ⟨l, r, rfl, rfl, hfilter⟩
      rw [mergeFeedback, RunOutcome.withFeedback, set_feedback, set_feedback, hfilter]

/-- A chunk that reads like the body of some interrupts reports them. -/
theorem ReadsLike.reportedInterrupts {interrupts : List Json}
    (h : ReadsLike feedback p (interruptBody interrupts)) : reportedInterrupts p = interrupts := by
  cases feedback with
  | none =>
    obtain rfl : p = interruptBody interrupts := h
    rfl
  | some f =>
    obtain ⟨l, r, rfl, hr, hfilter⟩ := h
    obtain rfl := Json.obj.inj hr
    have hlookup := congrArg (List.lookup "__interrupt__") hfilter
    have hfield : l.lookup "__interrupt__" = some (.arr interrupts) := by
      have hl := Json.lookup_filter (fun k => Decidable.decide (k ≠ "__feedback__")) l "__interrupt__"
      exact (hl.symm.trans hlookup).trans rfl
    rw [NextRole.reportedInterrupts, Json.get?_obj, hfield]

end ReadsLike

/-! ### The condition -/

/-- The report of a thread can be read: an error that it ended with is JSON, and values that
count as false are null or an empty object. -/
def ThreadReads (loads : String → Option Json) : Option Thread → Prop
  | none => True
  | some thread =>
    if thread.status = .error then (thread.error.bind loads).isSome = true
    else (thread.status = .interrupted ∧ storedInterrupts thread.interrupts ≠ []) ∨
      truthy thread.values = true ∨ thread.values = none ∨ thread.values = some .null ∨
      thread.values = some (.obj [])

/-- After an error the last report is an error, or reads like the last one. -/
def ErrorIsLast (events : List RunEvent) (error : Json) : Prop :=
  ∃ r, (reports events).getLast? = some r ∧
    (r.mode = "error" ∨ ReadsLike (feedbackOf events) r.chunk (errorBody error))

/-- No interrupt is reported twice, and a single chunk with the marker is the report of the
interrupts and nothing else. -/
def ReportedOnce (events : List RunEvent) : Prop :=
  (pendingInterrupts events).Nodup ∧
    (1 < (markedChunks events).length ∨ ∃ p, markedChunks events = [p] ∧
      ReadsLike (feedbackOf events) p (interruptBody (pendingInterrupts events)))

/-- Without interrupts: no chunk has the marker, and there is an object for the feedback; or
the one chunk that has it, or for several the empty report, reads like the values. -/
def ValuesAreLast (loads : String → Option Json) (thread : Option Thread)
    (events : List RunEvent) : Prop :=
  let values := (valuesChunks events).getLast?.getD (threadReport loads thread)
  (markedChunks events = [] ∧ (valuesChunks events = [] → ThreadReads loads thread) ∧
      ReadsLike (feedbackOf events) values values) ∨
    (∃ p, markedChunks events = [p] ∧ ReadsLike (feedbackOf events) p values) ∨
    (1 < (markedChunks events).length ∧ ReadsLike (feedbackOf events) (interruptBody []) values)

/-- The events under which waiting answers with the outcome. -/
def PlainEvents (loads : String → Option Json) (thread : Option Thread)
    (events : List RunEvent) : Prop :=
  match (errorChunks events).getLast? with
  | some error => ErrorIsLast events error
  | none =>
    if pendingInterrupts events ≠ [] then ReportedOnce events
    else ValuesAreLast loads thread events

/-! ### The three outcomes -/

section Outcomes

variable {loads : String → Option Json} {thread : Option Thread} {events : List RunEvent}

theorem waitRun_of_lastChunk {chunk : Json}
    (h : (events.foldl Consumed.consume {}).lastChunk (some (threadValuesFallback loads thread)) =
      .ok (some chunk)) : waitRun loads thread events = mergeFeedback chunk (feedbackOf events) := by
  unfold waitRun runResultBody
  dsimp only
  rw [h, foldl_consume]
  rfl

theorem waitRun_of_error {e : ResultError}
    (h : (events.foldl Consumed.consume {}).lastChunk (some (threadValuesFallback loads thread)) =
      .error e) : waitRun loads thread events = .error e := by
  unfold waitRun runResultBody
  dsimp only
  rw [h]
  rfl

/-- A chunk with the field has the marker in its text. -/
theorem mentionsInterrupt_of_get? {chunk v : Json} (h : chunk.get? "__interrupt__" = some v) :
    mentionsInterrupt chunk = true := by
  cases chunk with
  | obj kvs =>
    rw [Json.get?_obj] at h
    rw [mentionsInterrupt]
    induction kvs with
    | nil => cases h
    | cons kv kvs ih =>
      obtain ⟨k, x⟩ := kv
      rw [List.lookup_cons] at h
      rw [mentionsInterruptFields]
      split at h
      · next hk =>
        have hkey : hasMarker k = true := by
          rw [← beq_iff_eq.mp hk]
          decide
        rw [hkey, Bool.true_or, Bool.true_or]
      · rw [ih h, Bool.or_true]
  | _ => cases h

theorem reportedInterrupts_eq_nil {chunk : Json} (h : mentionsInterrupt chunk ≠ true) :
    reportedInterrupts chunk = [] := by
  unfold reportedInterrupts
  split
  · next hget => exact absurd (mentionsInterrupt_of_get? hget) h
  · rfl

/-- The chunks with the marker report the pending interrupts. -/
theorem flatMap_markedChunks (events : List RunEvent) :
    (markedChunks events).flatMap reportedInterrupts = pendingInterrupts events := by
  unfold markedChunks pendingInterrupts
  induction events with
  | nil => rfl
  | cons e events ih =>
    rw [List.filter_cons, List.filter_cons]
    by_cases hmode : e.mode = "values" ∨ e.mode = "updates"
    · rw [if_pos (decide_eq_true hmode), List.flatMap_cons]
      by_cases hmark : mentionsInterrupt e.chunk = true
      · rw [if_pos (decide_eq_true ⟨hmode, hmark⟩), List.map_cons, List.flatMap_cons, ih]
      · rw [if_neg fun h => hmark (of_decide_eq_true h).2, ih, reportedInterrupts_eq_nil hmark]
        rfl
    · rw [if_neg fun h => hmode (of_decide_eq_true h),
        if_neg fun h => hmode (of_decide_eq_true h).1, ih]

theorem getLast?_errorChunks {r : RunEvent} (h : (reports events).getLast? = some r)
    (herror : r.mode = "error") : (errorChunks events).getLast? = some r.chunk := by
  obtain ⟨before, hbefore⟩ := List.getLast?_eq_some_iff.mp h
  have hfilter : (reports events).filter (fun e => e.mode = "error") =
      events.filter fun e => e.mode = "error" := by
    rw [reports, List.filter_filter]
    refine List.filter_congr fun e _ => ?_
    by_cases he : e.mode = "error" <;> simp [he]
  rw [errorChunks, ← hfilter, hbefore, filter_concat, if_pos herror, List.map_append]
  exact List.getLast?_concat

theorem exists_report {error : Json} (h : (errorChunks events).getLast? = some error) :
    ∃ r, (reports events).getLast? = some r := by
  obtain ⟨e, he, -⟩ := List.mem_map.mp (List.mem_of_getLast? h)
  obtain ⟨he, hmode⟩ := List.mem_filter.mp he
  have hreport : e ∈ reports events :=
    List.mem_filter.mpr ⟨he, decide_eq_true (.inr (of_decide_eq_true hmode))⟩
  exact ⟨_, List.getLast?_eq_getLast_of_ne_nil (List.ne_nil_of_mem hreport)⟩

theorem returns_error_iff {error : Json} (h : (errorChunks events).getLast? = some error) :
    (∃ body, waitRun loads thread events = .ok body ∧
      (RunOutcome.error error).Answer (feedbackOf events) body) ↔ ErrorIsLast events error := by
  obtain ⟨r, hr⟩ := exists_report h
  have hsaw : (errorChunks events).isEmpty = false := by
    rw [List.isEmpty_eq_false_iff]
    exact List.ne_nil_of_mem (List.mem_of_getLast? h)
  have hlast : (events.foldl Consumed.consume {}).lastChunk
      (some (threadValuesFallback loads thread)) = .ok (some r.kept) := by
    rw [foldl_consume]
    refine (if_pos ?_).trans ?_
    · rw [hsaw, Bool.not_false]
    · rw [hr, Option.map_some]
  have hlike : ReadsLike (feedbackOf events) r.kept (errorBody error) ↔
      r.mode = "error" ∨ ReadsLike (feedbackOf events) r.chunk (errorBody error) := by
    unfold RunEvent.kept
    by_cases hmode : r.mode = "error"
    · have hchunk := Option.some.inj ((getLast?_errorChunks hr hmode).symm.trans h)
      rw [if_pos hmode, hchunk]
      exact iff_of_true (readsLike_obj _ _) (.inl hmode)
    · rw [if_neg hmode]
      exact (or_iff_right hmode).symm
  rw [waitRun_of_lastChunk hlast]
  constructor
  · rintro ⟨body, hbody, rfl⟩
    exact ⟨r, hr, hlike.mp (mergeFeedback_eq_iff.mp hbody)⟩
  · rintro ⟨r', hr', hor⟩
    obtain rfl := Option.some.inj (hr.symm.trans hr')
    exact ⟨_, mergeFeedback_eq_iff.mpr (hlike.mpr hor), rfl⟩

/-- Without errors and markers the reports are the values. -/
theorem getLast?_reports (herrors : errorChunks events = []) (hmarked : markedChunks events = []) :
    (reports events).getLast?.map RunEvent.kept = (valuesChunks events).getLast? := by
  have herror : ∀ e ∈ events, e.mode ≠ "error" := by
    intro e he hmode
    exact of_decide_eq_false (Bool.eq_false_iff.mpr
      (List.filter_eq_nil_iff.mp (List.map_eq_nil_iff.mp herrors) e he)) hmode
  have hmark : ∀ e ∈ events, e.mode = "updates" → mentionsInterrupt e.chunk ≠ true := by
    intro e he hmode htext
    exact of_decide_eq_false (Bool.eq_false_iff.mpr
      (List.filter_eq_nil_iff.mp (List.map_eq_nil_iff.mp hmarked) e he)) ⟨.inr hmode, htext⟩
  have hreports : reports events = events.filter fun e => e.mode = "values" := by
    refine List.filter_congr fun e he => decide_eq_decide.mpr ⟨?_, fun h => .inl (.inl h)⟩
    rintro ((hvalues | ⟨hupdates, htext⟩) | hmode)
    · exact hvalues
    · exact absurd htext (hmark e he hupdates)
    · exact absurd hmode (herror e he)
  rw [valuesChunks, List.getLast?_map, ← hreports]
  cases hlast : (reports events).getLast? with
  | none => rfl
  | some e =>
    have hmem := (List.mem_filter.mp (List.mem_of_getLast? hlast)).1
    rw [Option.map_some, Option.map_some, RunEvent.kept, if_neg (herror e hmem)]

/-- Without an error the last chunk depends on how many chunks have the marker. -/
theorem lastChunk_of_no_error (loads : String → Option Json) (thread : Option Thread)
    (h : (errorChunks events).getLast? = none) :
    (events.foldl Consumed.consume {}).lastChunk (some (threadValuesFallback loads thread)) =
      match markedChunks events with
      | [] =>
        match (valuesChunks events).getLast? with
        | some chunk => .ok (some chunk)
        | none => (threadValuesFallback loads thread).map some
      | [p] => .ok (some p)
      | _ :: _ :: _ => .ok (some (interruptBody (pendingInterrupts events))) := by
  have hnil : errorChunks events = [] := List.getLast?_eq_none_iff.mp h
  rw [foldl_consume, hnil]
  unfold Consumed.lastChunk
  rw [if_neg (by simp)]
  cases hmarked : markedChunks events with
  | nil =>
    dsimp only
    rw [getLast?_reports hnil hmarked]
    cases (valuesChunks events).getLast? <;> rfl
  | cons p rest =>
    cases rest with
    | nil => rfl
    | cons q rest =>
      rw [← flatMap_markedChunks, hmarked]
      rfl

/-- The values of a thread are read, or count as false without being an object. -/
theorem reportedValues_cases (values : Option Json) :
    ((if truthy values then values.getD .null else .obj []) = reportedValues values ∧
        (truthy values = true ∨ values = none ∨ values = some .null ∨ values = some (.obj []))) ∨
      (¬ (truthy values = true ∨ values = none ∨ values = some .null ∨
          values = some (.obj [])) ∧
        (if truthy values then values.getD .null else .obj []) = .obj [] ∧
        ∀ l, reportedValues values ≠ .obj l) := by
  by_cases htruthy : truthy values = true
  · refine .inl ⟨?_, .inl htruthy⟩
    rw [if_pos htruthy]
    match values with
    | none => cases htruthy
    | some .null => cases htruthy
    | some (.bool _) | some (.num _) | some (.str _) | some (.arr _) | some (.obj _) => rfl
  · rw [if_neg htruthy, or_iff_right htruthy]
    match values with
    | none => exact .inl ⟨rfl, .inl rfl⟩
    | some .null => exact .inl ⟨rfl, .inr (.inl rfl)⟩
    | some (.obj []) => exact .inl ⟨rfl, .inr (.inr rfl)⟩
    | some (.obj (kv :: kvs)) => exact absurd rfl htruthy
    | some (.bool _) | some (.num _) | some (.str _) | some (.arr _) =>
      exact .inr ⟨by simp, rfl, by simp [reportedValues]⟩

/-- The report of a thread is read, or it is no object or an error that cannot be read. -/
theorem threadValuesFallback_cases (loads : String → Option Json) (thread : Option Thread) :
    (threadValuesFallback loads thread = .ok (threadReport loads thread) ∧
        ThreadReads loads thread) ∨
      (¬ ThreadReads loads thread ∧
        (threadValuesFallback loads thread = .error .unreadable ∨
          threadValuesFallback loads thread = .ok (.obj []) ∧
            ∀ l, threadReport loads thread ≠ .obj l)) := by
  cases thread with
  | none => exact .inl ⟨rfl, trivial⟩
  | some thread =>
    unfold threadValuesFallback threadReport ThreadReads
    dsimp only
    by_cases herror : thread.status = .error
    · rw [if_pos herror, if_pos herror, if_pos herror]
      cases thread.error.bind loads <;> simp
    · rw [if_neg herror, if_neg herror, if_neg herror]
      by_cases hinterrupted : thread.status = .interrupted ∧
          storedInterrupts thread.interrupts ≠ []
      · rw [if_pos hinterrupted, if_pos hinterrupted]
        exact .inl ⟨rfl, .inl hinterrupted⟩
      · rw [if_neg hinterrupted, if_neg hinterrupted, or_iff_right hinterrupted]
        have hvalues := reportedValues_cases thread.values
        rw [← apply_ite Except.ok]
        rcases hvalues with ⟨hread, hcases⟩ | ⟨hcases, hread, hreport⟩
        · exact .inl ⟨congrArg _ hread, hcases⟩
        · exact .inr ⟨hcases, .inr ⟨congrArg _ hread, hreport⟩⟩

/-- A chunk answers for interrupts iff it reads like their report and none is twice. -/
theorem answers_interrupts_iff {feedback : Option Json} {p : Json} {pending : List Json}
    (hp : reportedInterrupts p = pending) :
    (∃ body, mergeFeedback p feedback = .ok body ∧
      (RunOutcome.interrupts pending).Answer feedback body) ↔
      pending.Nodup ∧ ReadsLike feedback p (interruptBody pending) := by
  constructor
  · rintro ⟨body, hbody, each, hnodup, -, rfl⟩
    have hlike := mergeFeedback_eq_iff.mp hbody
    obtain rfl : pending = each := hp.symm.trans hlike.reportedInterrupts
    exact ⟨hnodup, hlike⟩
  · rintro ⟨hnodup, hlike⟩
    exact ⟨_, mergeFeedback_eq_iff.mpr hlike, pending, hnodup, fun _ => Iff.rfl, rfl⟩

theorem returns_interrupts_iff (h : (errorChunks events).getLast? = none)
    (hpending : pendingInterrupts events ≠ []) :
    (∃ body, waitRun loads thread events = .ok body ∧
      (RunOutcome.interrupts (pendingInterrupts events)).Answer (feedbackOf events) body) ↔
      ReportedOnce events := by
  have hlast := lastChunk_of_no_error loads thread h
  have hreported := flatMap_markedChunks events
  unfold ReportedOnce
  match hmarked : markedChunks events with
  | [] =>
    rw [hmarked] at hreported
    exact absurd hreported.symm hpending
  | [p] =>
    rw [hmarked] at hlast hreported
    have hp : reportedInterrupts p = pendingInterrupts events := by
      rw [← hreported, List.flatMap_singleton]
    rw [waitRun_of_lastChunk hlast, answers_interrupts_iff hp]
    simp
  | p :: q :: rest =>
    rw [hmarked] at hlast
    have hp : reportedInterrupts (interruptBody (pendingInterrupts events)) =
        pendingInterrupts events := rfl
    rw [waitRun_of_lastChunk hlast, answers_interrupts_iff hp]
    have hlength : 1 < (p :: q :: rest).length := by simp
    exact and_congr_right fun _ => iff_of_true (readsLike_obj _ _) (.inl hlength)

theorem returns_values_iff (h : (errorChunks events).getLast? = none)
    (hpending : pendingInterrupts events = []) :
    (∃ body, waitRun loads thread events = .ok body ∧
      (RunOutcome.values ((valuesChunks events).getLast?.getD (threadReport loads thread))).Answer
        (feedbackOf events) body) ↔ ValuesAreLast loads thread events := by
  have hlast := lastChunk_of_no_error loads thread h
  have hanswer : ∀ {p v : Json}, (∃ body, mergeFeedback p (feedbackOf events) = .ok body ∧
      (RunOutcome.values v).Answer (feedbackOf events) body) ↔
        ReadsLike (feedbackOf events) p v := by
    intro p v
    rw [← mergeFeedback_eq_iff]
    exact ⟨fun ⟨_, hbody, heq⟩ => heq ▸ hbody, fun hbody => ⟨_, hbody, rfl⟩⟩
  unfold ValuesAreLast
  dsimp only
  match hmarked : markedChunks events with
  | [] =>
    rw [hmarked] at hlast
    dsimp only at hlast
    cases hvalues : (valuesChunks events).getLast? with
    | some chunk =>
      have hne : valuesChunks events ≠ [] := List.ne_nil_of_mem (List.mem_of_getLast? hvalues)
      rw [hvalues] at hlast
      rw [waitRun_of_lastChunk hlast, hanswer]
      simp [hne]
    | none =>
      have hnil : valuesChunks events = [] := List.getLast?_eq_none_iff.mp hvalues
      rw [hvalues] at hlast
      dsimp only at hlast
      rw [Option.getD_none]
      rcases threadValuesFallback_cases loads thread with ⟨hread, hreads⟩ |
        ⟨hreads, hread | ⟨hread, hreport⟩⟩
      · have hok := hlast.trans (congrArg (Except.map some) hread)
        rw [waitRun_of_lastChunk hok, hanswer]
        simp [hreads]
      · have herror := hlast.trans (congrArg (Except.map some) hread)
        rw [waitRun_of_error herror]
        simp [hnil, hreads]
      · have hok := hlast.trans (congrArg (Except.map some) hread)
        rw [waitRun_of_lastChunk hok, hanswer]
        simp [hnil, hreads, not_readsLike_of_ne_obj hreport]
  | [p] =>
    rw [hmarked] at hlast
    rw [waitRun_of_lastChunk hlast, hanswer]
    simp
  | p :: q :: rest =>
    rw [hmarked] at hlast
    rw [waitRun_of_lastChunk hlast, hanswer, hpending]
    simp

end Outcomes

/-- Two values events whose messages are about the marker. -/
def markerInMessages : List RunEvent :=
  [⟨"values", .obj [("messages", .arr [.str "what is __interrupt__?"])]⟩,
    ⟨"values", .obj [("messages", .arr [.str "what is __interrupt__?", .str "a key"])]⟩]

end NextRole
