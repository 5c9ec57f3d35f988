import NextRole.Conversion.Thread

/-!
# A thread survives the wire

What the API reads of a row is what the row has, except where a value that is empty in some way is
taken for one that is missing: the value `null` of an interrupt is sent as `{}`, an optional field
of an interrupt is dropped if it is empty or false, and metadata or a configuration that is
false, zero, an empty text or an empty list is read as `{}`.

## Main definitions

* `SameData`, `SameInterrupt`, `SameThread` — what is the same on both sides.
* `SurvivesWire` — a row that comes back.
* `ThreadRow.WireSafe` — nothing of a row is taken for something that is missing.

## Main results

* `survivesWire_iff` — **when a thread survives the wire**, and `not_survivesWire`.
-/

namespace NextRole

/-! ### What is the same -/

/-- The decoder takes an empty object for null. -/
def withoutEmpty (j : Json) : Json := if j = .obj [] then .null else j

/-- The same data, where an empty object and null are one. -/
def SameData (a b : Json) : Prop := (withoutEmpty a).Equal (withoutEmpty b)

/-- The same interrupt; an empty object and null are two values. -/
structure SameInterrupt (a b : Interrupt) : Prop where
  id : a.id = b.id
  value : a.value.Equal b.value
  when : a.when = b.when
  resumable : a.resumable = b.resumable
  ns : a.ns = b.ns

/-- The same values, metadata, configuration, error and interrupts. -/
structure SameThread (row : ThreadRow) (thread : ApiThread) : Prop where
  metadata : SameData row.metadata thread.metadata
  config : SameData row.config thread.config
  values : SameData row.values thread.values
  error : SameData (row.error.getD .null) thread.error
  interrupts : ∀ taskId, Option.Rel (List.Forall₂ SameInterrupt) (row.interrupts.get? taskId)
    (thread.interrupts.get? taskId)

/-- A row is sent, and what is read is the same. -/
def SurvivesWire (orjson : Orjson) (row : ThreadRow) : Prop :=
  ∃ proto thread, threadToProto orjson row = some proto ∧ protoToThread proto = some thread ∧
    SameThread row thread

/-! ### Values -/

/-- Equal values are both empty or false, or neither is. -/
theorem truthy_of_equal {a b : Json} (h : a.Equal b) : truthy (some a) = truthy (some b) := by
  cases h with
  | refl => rfl
  | arr h =>
    cases h with
    | nil => rfl
    | cons _ _ => rfl
  | @obj l r h =>
    cases l with
    | nil =>
      cases r with
      | nil => rfl
      | cons e r =>
        have hrel := h e.1
        rw [List.lookup_nil, List.lookup_cons, beq_self_eq_true] at hrel
        cases hrel
    | cons e l =>
      cases r with
      | nil =>
        have hrel := h e.1
        rw [List.lookup_nil, List.lookup_cons, beq_self_eq_true] at hrel
        cases hrel
      | cons _ _ => rfl

theorem eq_empty_iff_of_equal {a b : Json} (h : a.Equal b) : a = .obj [] ↔ b = .obj [] := by
  have htruthy := truthy_of_equal h
  cases h with
  | refl => rfl
  | arr _ => simp
  | @obj l r _ => cases l <;> cases r <;> simp_all [truthy]

theorem sameData_of_equal {a b : Json} (h : a.Equal b) : SameData a b := by
  rw [SameData, withoutEmpty, withoutEmpty]
  by_cases ha : a = .obj []
  · rw [if_pos ha, if_pos ((eq_empty_iff_of_equal h).mp ha)]
    exact .refl _
  · rw [if_neg ha, if_neg fun hb => ha ((eq_empty_iff_of_equal h).mpr hb)]
    exact h

theorem withoutEmpty_withoutEmpty (j : Json) : withoutEmpty (withoutEmpty j) = withoutEmpty j := by
  unfold withoutEmpty
  split <;> simp_all

theorem sameData_fragmentToValue {a b : Json} (h : a.Equal b) :
    SameData a (fragmentToValue (some b)) := by
  have hsame := sameData_of_equal h
  show (withoutEmpty a).Equal (withoutEmpty (withoutEmpty b))
  rw [withoutEmpty_withoutEmpty]
  exact hsame

/-- What is written of a value is equal to it, or it is `{}` for null. -/
theorem equal_of_jsonBytes {orjson : Orjson} {j b : Json} (h : jsonBytes orjson j = some b) :
    if j = .null then b = .obj [] else j.Equal b := by
  rw [jsonBytes] at h
  by_cases hnull : j = .null
  · rw [if_pos hnull, orjson.empty] at h
    rw [if_pos hnull]
    cases h
    rfl
  · rw [if_neg hnull] at h
    rw [if_neg hnull]
    exact orjson.equal h

theorem isSome_jsonBytes {orjson : Orjson} {j : Json} :
    (jsonBytes orjson j).isSome = true ↔ (orjson.dumps j).isSome = true := by
  rw [jsonBytes]
  split
  · next h => rw [h, orjson.empty, orjson.null]; rfl
  · rfl

/-- Metadata and configurations: something is read of them as it was unless it is taken for
missing. -/
def KeptByOr (j : Json) : Prop := truthy (some j) = true ∨ j = .null ∨ j = .obj []

theorem sameData_orElse {orjson : Orjson} {j b : Json} (h : jsonBytes orjson j = some b) :
    SameData j (orElse (fragmentToValue (some b)) (.obj [])) ↔ KeptByOr j := by
  have hb := equal_of_jsonBytes h
  by_cases hnull : j = .null
  · rw [if_pos hnull] at hb
    subst hnull hb
    exact iff_of_true (.refl _) (.inr (.inl rfl))
  · rw [if_neg hnull] at hb
    have htruthy := truthy_of_equal hb
    by_cases hempty : j = .obj []
    · have := (eq_empty_iff_of_equal hb).mp hempty
      subst hempty this
      exact iff_of_true (.refl _) (.inr (.inr rfl))
    · have hb' : b ≠ .obj [] := fun h => hempty ((eq_empty_iff_of_equal hb).mpr h)
      rw [fragmentToValue, if_neg hb', orElse]
      cases hj : truthy (some j) with
      | true =>
        rw [if_pos (htruthy.symm.trans hj)]
        exact iff_of_true (sameData_of_equal hb) (.inl hj)
      | false =>
        rw [← htruthy, hj, if_neg Bool.false_ne_true]
        refine iff_of_false (fun hsame => ?_) ?_
        · rw [SameData, withoutEmpty, if_neg hempty, withoutEmpty, if_pos rfl] at hsame
          cases hsame
          exact hnull rfl
        · rintro (h | h | h)
          · rw [hj] at h
            cases h
          · exact hnull h
          · exact hempty h

theorem sameData_values {orjson : Orjson} {j : Json} {b : Fragment}
    (h : valuesToProto orjson j = some b) : SameData j (fragmentToValue b) := by
  rw [valuesToProto] at h
  by_cases hnull : j = .null
  · rw [if_pos hnull] at h
    cases h
    subst hnull
    exact .refl _
  · rw [if_neg hnull] at h
    obtain ⟨v, hv, rfl⟩ := Option.map_eq_some_iff.mp h
    have hb := equal_of_jsonBytes hv
    rw [if_neg hnull] at hb
    exact sameData_fragmentToValue hb

/-! ### Interrupts -/

/-- Nothing of an interrupt is taken for something that is missing. -/
structure Interrupt.WireSafe (it : Interrupt) : Prop where
  id : it.id ≠ some ""
  value : it.value ≠ .null
  when : it.when ≠ some ""
  resumable : it.resumable ≠ some false
  ns : it.ns ≠ some []

theorem filter_ne_empty_iff (v : Option String) : v = v.filter (· ≠ "") ↔ v ≠ some "" := by
  cases v with
  | none => simp
  | some t =>
    by_cases ht : t = ""
    · subst ht
      decide
    · simp [Option.filter_some, ht]

/-- An interrupt comes back exactly if nothing of it is taken for something that is missing. -/
theorem sameInterrupt_iff {orjson : Orjson} {it : Interrupt} {m : InterruptMessage}
    (h : interruptToProto orjson it = some m) :
    SameInterrupt it (protoInterruptToDict m) ↔ it.WireSafe := by
  obtain ⟨value, hvalue, h⟩ := Option.bind_eq_some_iff.mp h
  cases h
  have hb := equal_of_jsonBytes hvalue
  have hns : (it.ns = if it.ns.getD [] = [] then none else some (it.ns.getD [])) ↔
      it.ns ≠ some [] := by
    rcases it.ns with _ | ns
    · simp
    · by_cases hns : ns = [] <;> simp [hns]
  have hresumable : it.resumable = it.resumable.filter (· = true) ↔ it.resumable ≠ some false := by
    rcases it.resumable with _ | _ | _ <;> decide
  have hequal : it.value.Equal value ↔ it.value ≠ .null := by
    split at hb
    · next hnull =>
      rw [hnull, hb]
      exact iff_of_false nofun (not_not_intro rfl)
    · next hnull => exact iff_of_true hb hnull
  constructor
  · intro hsame
    exact ⟨(filter_ne_empty_iff _).mp hsame.id, hequal.mp hsame.value,
      (filter_ne_empty_iff _).mp hsame.when, hresumable.mp hsame.resumable, hns.mp hsame.ns⟩
  · intro hsafe
    exact ⟨(filter_ne_empty_iff _).mpr hsafe.id, hequal.mpr hsafe.value,
      (filter_ne_empty_iff _).mpr hsafe.when, hresumable.mpr hsafe.resumable, hns.mpr hsafe.ns⟩

theorem forall₂_sameInterrupt_iff {orjson : Orjson} {items : List Interrupt}
    {ms : List InterruptMessage} (h : items.mapM (interruptToProto orjson) = some ms) :
    List.Forall₂ SameInterrupt items (ms.map protoInterruptToDict) ↔
      ∀ it ∈ items, it.WireSafe := by
  have hrel := Dict.forall₂_of_mapM h
  clear h
  induction hrel with
  | nil => simp
  | cons hhead _ ih =>
    rw [List.map_cons, List.forall₂_cons, List.forall_mem_cons, sameInterrupt_iff hhead]
    exact and_congr_right fun _ => ih

/-- The interrupts of a row come back exactly if each of them does. -/
theorem sameInterrupts_iff {orjson : Orjson} {interrupts : Dict String (List Interrupt)}
    {ms : Dict String (List InterruptMessage)}
    (h : (interrupts.mapValues? fun items => items.mapM (interruptToProto orjson)) = some ms) :
    (∀ taskId, Option.Rel (List.Forall₂ SameInterrupt) (interrupts.get? taskId)
        ((protoInterruptsToDict ms).get? taskId)) ↔
      ∀ e ∈ interrupts.entries, ∀ it ∈ e.2, it.WireSafe := by
  have hrel := Dict.rel_of_mapValues? h
  simp only [protoInterruptsToDict, Dict.get?_mapValues]
  constructor
  · intro hsame e he
    have hget := Dict.get?_eq_some_iff.mpr he
    have hsent := hrel e.1
    have hread := hsame e.1
    rw [hget] at hsent hread
    rcases hm : ms.get? e.1 with _ | sent
    · rw [hm] at hsent
      cases hsent
    · rw [hm] at hsent hread
      cases hsent with
      | some hsent =>
        cases hread with
        | some hread => exact (forall₂_sameInterrupt_iff hsent).mp hread
  · intro hsafe taskId
    have hsent := hrel taskId
    rcases hget : interrupts.get? taskId with _ | items
    · rw [hget] at hsent
      cases hm : ms.get? taskId with
      | none => exact .none
      | some sent =>
        rw [hm] at hsent
        cases hsent
    · rw [hget] at hsent
      cases hm : ms.get? taskId with
      | none =>
        rw [hm] at hsent
        cases hsent
      | some sent =>
        rw [hm] at hsent
        cases hsent with
        | some hsent =>
          have hitems := hsafe _ (Dict.get?_eq_some_iff.mp hget)
          exact .some ((forall₂_sameInterrupt_iff hsent).mpr hitems)

/-! ### Threads -/

/-- Everything of a row is written. -/
structure ThreadRow.Written (orjson : Orjson) (row : ThreadRow) : Prop where
  metadata : (orjson.dumps row.metadata).isSome = true
  config : (orjson.dumps row.config).isSome = true
  values : (orjson.dumps row.values).isSome = true
  interrupts : ∀ e ∈ row.interrupts.entries, ∀ it ∈ e.2, (orjson.dumps it.value).isSome = true

/-- Nothing of a row is taken for something that is missing. -/
structure ThreadRow.WireSafe (row : ThreadRow) : Prop where
  metadata : KeptByOr row.metadata
  config : KeptByOr row.config
  interrupts : ∀ e ∈ row.interrupts.entries, ∀ it ∈ e.2, it.WireSafe

theorem isSome_interruptToProto {orjson : Orjson} {it : Interrupt} :
    (interruptToProto orjson it).isSome = true ↔ (orjson.dumps it.value).isSome = true := by
  rw [← isSome_jsonBytes, interruptToProto]
  cases jsonBytes orjson it.value <;> simp

/-- **What is sent of a row.** -/
theorem threadToProto_eq_some {orjson : Orjson} {row : ThreadRow} {proto : ThreadMessage} :
    threadToProto orjson row = some proto ↔ ∃ metadata config values interrupts,
      jsonBytes orjson row.metadata = some metadata ∧ jsonBytes orjson row.config = some config ∧
      valuesToProto orjson row.values = some values ∧
      (row.interrupts.mapValues? fun items => items.mapM (interruptToProto orjson)) =
        some interrupts ∧
      proto = {
        threadId := some row.threadId
        status := row.status.getD .idle
        createdAt := row.createdAt
        updatedAt := row.updatedAt
        stateUpdatedAt := row.stateUpdatedAt
        metadata := some metadata
        config := some config
        values := values
        error := row.error
        interrupts := interrupts } := by
  simp only [threadToProto, Option.bind_eq_bind, Option.bind_eq_some_iff]
  constructor
  · rintro ⟨metadata, hmetadata, config, hconfig, values, hvalues, interrupts, hinterrupts, h⟩
    cases h
    exact ⟨metadata, config, values, interrupts, hmetadata, hconfig, hvalues, hinterrupts, rfl⟩
  · rintro ⟨metadata, config, values, interrupts, hmetadata, hconfig, hvalues, hinterrupts, rfl⟩
    exact ⟨metadata, hmetadata, config, hconfig, values, hvalues, interrupts, hinterrupts, rfl⟩

/-- A row is sent exactly if everything of it is written. -/
theorem isSome_threadToProto {orjson : Orjson} {row : ThreadRow} :
    (threadToProto orjson row).isSome = true ↔ row.Written orjson := by
  have hvalues : (valuesToProto orjson row.values).isSome = true ↔
      (orjson.dumps row.values).isSome = true := by
    rw [valuesToProto]
    split
    · next h => simp [h, orjson.null]
    · rw [Option.isSome_map, isSome_jsonBytes]
  have hinterrupts : (row.interrupts.mapValues? fun items =>
      items.mapM (interruptToProto orjson)).isSome = true ↔
      ∀ e ∈ row.interrupts.entries, ∀ it ∈ e.2, (orjson.dumps it.value).isSome = true := by
    simp only [Dict.isSome_mapValues?, Dict.isSome_mapM, isSome_interruptToProto]
  constructor
  · intro h
    obtain ⟨proto, hproto⟩ := Option.isSome_iff_exists.mp h
    obtain ⟨metadata, config, values, interrupts, hm, hc, hv, hi, -⟩ :=
      threadToProto_eq_some.mp hproto
    exact ⟨isSome_jsonBytes.mp (hm ▸ rfl), isSome_jsonBytes.mp (hc ▸ rfl), hvalues.mp (hv ▸ rfl),
      hinterrupts.mp (hi ▸ rfl)⟩
  · intro hwritten
    obtain ⟨metadata, hm⟩ := Option.isSome_iff_exists.mp (isSome_jsonBytes.mpr hwritten.metadata)
    obtain ⟨config, hc⟩ := Option.isSome_iff_exists.mp (isSome_jsonBytes.mpr hwritten.config)
    obtain ⟨values, hv⟩ := Option.isSome_iff_exists.mp (hvalues.mpr hwritten.values)
    obtain ⟨interrupts, hi⟩ := Option.isSome_iff_exists.mp (hinterrupts.mpr hwritten.interrupts)
    exact Option.isSome_iff_exists.mpr
      ⟨_, threadToProto_eq_some.mpr ⟨metadata, config, values, interrupts, hm, hc, hv, hi, rfl⟩⟩

/-- What is read of what was sent is the same exactly if nothing of the row is taken for something
that is missing. -/
theorem sameThread_iff {orjson : Orjson} {row : ThreadRow} {proto : ThreadMessage}
    {thread : ApiThread} (hproto : threadToProto orjson row = some proto)
    (hthread : protoToThread proto = some thread) : SameThread row thread ↔ row.WireSafe := by
  obtain ⟨metadata, config, values, interrupts, hm, hc, hv, hi, rfl⟩ :=
    threadToProto_eq_some.mp hproto
  cases hthread
  constructor
  · intro hsame
    exact ⟨(sameData_orElse hm).mp hsame.metadata, (sameData_orElse hc).mp hsame.config,
      (sameInterrupts_iff hi).mp hsame.interrupts⟩
  · intro hsafe
    refine ⟨(sameData_orElse hm).mpr hsafe.metadata, (sameData_orElse hc).mpr hsafe.config,
      sameData_values hv, ?_, (sameInterrupts_iff hi).mpr hsafe.interrupts⟩
    -- the text of the error is sent as it is
    cases herror : row.error with
    | none => exact .refl _
    | some error => exact sameData_fragmentToValue (.refl error)

/-- **When a thread survives the wire**: exactly if everything of it is written and nothing is
taken for something that is missing. -/
theorem survivesWire_iff (orjson : Orjson) (row : ThreadRow) :
    SurvivesWire orjson row ↔ row.Written orjson ∧ row.WireSafe := by
  constructor
  · rintro ⟨proto, thread, hproto, hthread, hsame⟩
    exact ⟨isSome_threadToProto.mp (hproto ▸ rfl), (sameThread_iff hproto hthread).mp hsame⟩
  · rintro ⟨hwritten, hsafe⟩
    obtain ⟨proto, hproto⟩ := Option.isSome_iff_exists.mp (isSome_threadToProto.mpr hwritten)
    obtain ⟨thread, hthread⟩ : ∃ thread, protoToThread proto = some thread := by
      obtain ⟨_, _, _, _, -, -, -, -, rfl⟩ := threadToProto_eq_some.mp hproto
      exact ⟨_, rfl⟩
    exact ⟨proto, thread, hproto, hthread, (sameThread_iff hproto hthread).mpr hsafe⟩

/-- The value of an interrupt is `null`. -/
def nullInterrupt : ThreadRow where
  threadId := 1
  interrupts := Dict.set {} "task" [{ id := some "a" }]

/-- It is read as `{}`. -/
theorem not_survivesWire : ¬ ∀ orjson row, SurvivesWire orjson row := by
  intro h
  obtain ⟨proto, thread, hproto, hthread, hsame⟩ :=
    h ⟨some, fun h => by cases h; exact .refl _, rfl, rfl⟩ nullInterrupt
  have hsafe := (sameThread_iff hproto hthread).mp hsame
  have hmem : ("task", [{ id := some "a" }]) ∈ nullInterrupt.interrupts.entries := by decide
  exact (hsafe.interrupts _ hmem _ List.mem_cons_self).value rfl

end NextRole
