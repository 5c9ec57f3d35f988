import Mathlib.Data.List.Dedup
import NextRole.Runtime.PutWrites

/-!
# The last write of a slot

A row of `checkpoint_writes` is replaced only by one with its channel and its serialization type.
So what a read returns of a slot is the last put among those that have the channel and the type of
the first one, over the connection of the saver and in batches alike.

## Main definitions

* `writeClass` — the channel and the serialization type of a put.

## Main results

* `checkpointWrites_saverAfter` — what is stored after some steps.
* `pendingWrites_saverAfter` — **what a read returns**, and `not_lastPutWins`.
-/

namespace NextRole

variable {Value : Type} {format : WriteFormat Value} {storable : QueueItem → Bool}

/-- The channel and the serialization type of a put. -/
def writeClass (format : WriteFormat Value) (put : SlotPut Value) : String × String :=
  (put.channel, (format.dumpsTyped put.value).1)

/-! ### What is stored -/

theorem key_row (put : SlotPut Value) : Keyed.key (put.row format) = Keyed.key put := rfl

/-- The upsert of a write replaces a row of its channel and type. -/
theorem upsertWrite_eq (t : Table CheckpointWrite) (w : CheckpointWrite) :
    upsertWrite t w = t.upsertSame (fun w => (w.channel, w.type)) w := by
  rw [upsertWrite, Table.upsertSame]
  cases hget : t.get? (Keyed.key w) with
  | none => rfl
  | some w₀ =>
    obtain ⟨-, hkey⟩ := Table.get?_eq_some.mp hget
    simp only [Prod.mk.injEq]
    by_cases h : w₀.channel = w.channel ∧ w₀.type = w.type
    · rw [if_pos h, if_pos h]
      -- the rows have one key, channel and type, so the new blob makes them equal
      have hw : { w₀ with blob := w.blob } = w := by
        cases w
        cases w₀
        simp only [Keyed.key, Prod.mk.injEq] at hkey h
        obtain ⟨rfl, rfl, rfl, rfl, rfl⟩ := hkey
        obtain ⟨rfl, rfl⟩ := h
        rfl
      rw [hw]
    · rw [if_neg h, if_neg h]

theorem writes_item (call : SaverCall Value) :
    (call.item format).writes = (call.puts format).map (SlotPut.row format) := by
  cases call with
  | aputWrites call =>
    rw [SaverCall.item, CheckpointQueueItem.writes, List.filterMap_map, SaverCall.puts, dumpWrites]
    exact List.filterMap_some
  | aput checkpoint blobs =>
    rw [SaverCall.item, CheckpointQueueItem.writes, SaverCall.puts]
    simp [List.filterMap_map]

/-- A step upserts its writes one after the other, whichever way it takes. -/
theorem checkpointWrites_execute {d d' : Database} {step : SaverStep Value}
    (h : step.execute format storable d = some d') :
    d'.checkpointWrites = ((step.calls.flatMap (SaverCall.puts format)).map
      (SlotPut.row format)).foldl upsertWrite d.checkpointWrites := by
  have hputs : ∀ {bs cs ws}, executePuts storable bs cs ws d = some d' →
      d'.checkpointWrites = ws.foldl upsertWrite d.checkpointWrites := by
    intro bs cs ws h
    obtain ⟨_, -, h⟩ := Option.bind_eq_some_iff.mp h
    obtain ⟨_, -, h⟩ := Option.bind_eq_some_iff.mp h
    obtain ⟨writeTable, hwrites, h⟩ := Option.bind_eq_some_iff.mp h
    cases h
    exact upsertAll_eq_some hwrites
  cases step with
  | direct call =>
    rw [hputs h, writes_item, SaverStep.calls, List.flatMap_singleton]
  | batch calls =>
    rw [hputs h, SaverStep.calls, List.flatMap_map, List.map_flatMap]
    simp only [writes_item]

/-- **What is stored after some steps**: what was put, upserted one after the other. -/
theorem checkpointWrites_saverAfter (d : Database) (steps : List (SaverStep Value)) :
    (saverAfter format storable d steps).1.checkpointWrites =
      ((saverAfter format storable d steps).2.map (SlotPut.row format)).foldl
        (Table.upsertSame fun w => (w.channel, w.type)) .empty := by
  have hupsert : upsertWrite = Table.upsertSame fun w => (w.channel, w.type) :=
    funext fun t => funext fun w => upsertWrite_eq t w
  induction steps using List.reverseRecOn with
  | nil => rfl
  | append_singleton steps step ih =>
    rw [saverAfter, List.foldl_append, ← saverAfter, List.foldl_cons, List.foldl_nil, saverStep]
    split
    · exact ih
    · next d' h =>
      rw [checkpointWrites_execute h, List.map_append, List.foldl_append, ← ih, hupsert]

theorem get?_saverAfter (d : Database) (steps : List (SaverStep Value)) (slot : Slot) :
    (saverAfter format storable d steps).1.checkpointWrites.get? slot =
      (Table.lastSame (writeClass format) (saverAfter format storable d steps).2 slot).map
        (SlotPut.row format) := by
  rw [checkpointWrites_saverAfter, Table.get?_upserts, Table.lastSame_map _ key_row]
  rfl

/-! ### What is read -/

/-- The slots of a table, in the order of a read. -/
theorem map_order_writesAt {d : Database} {puts : List (SlotPut Value)}
    (hrows : ∀ slot, (d.checkpointWrites.get? slot).isSome = true ↔ ∃ p ∈ puts, p.slot = slot)
    (threadId : Uuid) (ns : String) (checkpointId : Uuid) :
    (writesAt d threadId ns checkpointId).map StoredWrite.order =
      slotsAt puts threadId ns checkpointId := by
  rw [writesAt, List.map_insertionSort _ (· ≤ ·) StoredWrite.order _ fun _ _ _ _ => Iff.rfl, slotsAt]
  refine List.insertionSort_congr (fun slot : ℕ ×ₗ ℤ => slot) ?_ (List.nodup_dedup _)
    (fun _ _ _ _ h => h) fun slot => ?_
  · rw [List.map_map]
    exact (d.checkpointWrites.nodup_select _).map_on fun w hw w' hw' h => eq_of_order hw hw' h
  · rw [List.mem_dedup]
    simp only [List.mem_map, Table.mem_select, List.mem_filter, decide_eq_true_eq]
    constructor
    · rintro ⟨_, ⟨w, ⟨hw, hon⟩, rfl⟩, rfl⟩
      obtain ⟨ht, hns, hid⟩ := isOn_eq_true.mp hon
      have hsome := (hrows (Keyed.key w)).mp (Table.mem_iff_get?.mp hw ▸ rfl)
      obtain ⟨p, hp, hslot⟩ := hsome
      refine ⟨p, ⟨hp, ?_⟩, ?_⟩
      · rw [hslot]
        exact ⟨ht, hns, hid⟩
      · rw [hslot]
        rfl
    · rintro ⟨p, ⟨hp, ht, hns, hid⟩, rfl⟩
      obtain ⟨w, hw⟩ := Option.isSome_iff_exists.mp ((hrows p.slot).mpr ⟨p, hp, rfl⟩)
      obtain ⟨hmem, hkey⟩ := Table.get?_eq_some.mp hw
      refine ⟨w.stored, ⟨w, ⟨hmem, isOn_eq_true.mpr ?_⟩, rfl⟩, ?_⟩
      · rw [← ht, ← hns, ← hid, ← hkey]
        exact ⟨rfl, rfl, rfl⟩
      · rw [← hkey]
        rfl

theorem filterMap_map_eq_self {α β : Type} {f : α → β} {g : β → Option α} {l : List α}
    (h : ∀ a ∈ l, g (f a) = some a) : (l.map f).filterMap g = l := by
  rw [List.filterMap_map]
  exact (List.filterMap_congr h).trans List.filterMap_some

/-- A table that has rows for the slots that were put is read slot by slot. -/
theorem writesAt_eq {d : Database} {puts : List (SlotPut Value)}
    (hrows : ∀ slot, (d.checkpointWrites.get? slot).isSome = true ↔ ∃ p ∈ puts, p.slot = slot)
    (threadId : Uuid) (ns : String) (checkpointId : Uuid) :
    writesAt d threadId ns checkpointId =
      (slotsAt puts threadId ns checkpointId).filterMap fun slot =>
        (d.checkpointWrites.get? (threadId, ns, checkpointId, ofLex slot)).map
          CheckpointWrite.stored := by
  rw [← map_order_writesAt hrows]
  refine (filterMap_map_eq_self fun x hx => ?_).symm
  rw [writesAt, List.mem_insertionSort] at hx
  obtain ⟨w, hw, rfl⟩ := List.mem_map.mp hx
  obtain ⟨hmem, hon⟩ := Table.mem_select.mp hw
  obtain ⟨rfl, rfl, rfl⟩ := isOn_eq_true.mp hon
  exact congrArg _ (Table.mem_iff_get?.mp hmem)

theorem isSome_get?_saverAfter (d : Database) (steps : List (SaverStep Value)) (slot : Slot) :
    ((saverAfter format storable d steps).1.checkpointWrites.get? slot).isSome = true ↔
      ∃ p ∈ (saverAfter format storable d steps).2, p.slot = slot := by
  rw [get?_saverAfter, Option.isSome_map, Table.isSome_lastSame]
  rfl

/-- What is read of each slot is what stays of it. -/
theorem loadWrites_saverAfter (d : Database) (steps : List (SaverStep Value)) (threadId : Uuid)
    (ns : String) (checkpointId : Uuid) :
    loadWrites format.loadsTyped
        (writesAt (saverAfter format storable d steps).1 threadId ns checkpointId) =
      pendingWritesBy (Table.lastSame (writeClass format) (saverAfter format storable d steps).2)
        (saverAfter format storable d steps).2 threadId ns checkpointId := by
  rw [writesAt_eq (isSome_get?_saverAfter d steps), loadWrites, List.map_filterMap, pendingWritesBy]
  refine List.filterMap_congr fun slot _ => ?_
  rw [get?_saverAfter, Option.map_map, Option.map_map]
  cases hstays : Table.lastSame (writeClass format) (saverAfter format storable d steps).2
      (threadId, ns, checkpointId, ofLex slot) with
  | none => rfl
  | some p =>
    obtain ⟨⟨-, hkey⟩, -⟩ := Table.lastSame_eq_some _ hstays
    have hslot : p.slot = (threadId, ns, checkpointId, ofLex slot) := hkey
    simp [SlotPut.row, CheckpointWrite.stored, hslot, format.loads_dumps]

/-! ### The last put -/

/-- Two picks of something for each element are equal exactly if they are so for each. -/
theorem filterMap_eq_iff {α β : Type} {f g : α → Option β} {l : List α}
    (hf : ∀ a ∈ l, (f a).isSome = true) (hg : ∀ a ∈ l, (g a).isSome = true) :
    l.filterMap f = l.filterMap g ↔ ∀ a ∈ l, f a = g a := by
  refine ⟨fun h => ?_, List.filterMap_congr⟩
  induction l with
  | nil => nofun
  | cons a l ih =>
    rw [List.forall_mem_cons] at hf hg ⊢
    obtain ⟨b, hb⟩ := Option.isSome_iff_exists.mp hf.1
    obtain ⟨c, hc⟩ := Option.isSome_iff_exists.mp hg.1
    rw [List.filterMap_cons_some hb, List.filterMap_cons_some hc, List.cons.injEq] at h
    exact ⟨by rw [hb, hc, h.1], ih hf.2 hg.2 h.2⟩

theorem mem_slotsAt {puts : List (SlotPut Value)} {threadId checkpointId : Uuid} {ns : String}
    {slot : ℕ ×ₗ ℤ} : slot ∈ slotsAt puts threadId ns checkpointId ↔
      ∃ p ∈ puts, p.slot = (threadId, ns, checkpointId, ofLex slot) := by
  rw [slotsAt, List.mem_insertionSort, List.mem_dedup]
  simp only [List.mem_map, List.mem_filter, decide_eq_true_eq]
  constructor
  · rintro ⟨p, ⟨hp, rfl, rfl, rfl⟩, rfl⟩
    exact ⟨p, hp, rfl⟩
  · rintro ⟨p, hp, hslot⟩
    refine ⟨p, ⟨hp, ?_⟩, ?_⟩
    · rw [hslot]
      exact ⟨rfl, rfl, rfl⟩
    · rw [hslot]
      rfl

/-- What stays of each slot is the last put to it exactly if a read of any checkpoint returns
that. -/
theorem lastSame_eq_lastOf_iff_read {puts : List (SlotPut Value)} :
    (∀ threadId ns checkpointId,
        pendingWritesBy (Table.lastSame (writeClass format) puts) puts threadId ns checkpointId =
          pendingWritesBy (Table.lastOf puts) puts threadId ns checkpointId) ↔
      ∀ slot, Table.lastSame (writeClass format) puts slot = Table.lastOf puts slot := by
  constructor
  · intro h slot
    by_cases hput : ∃ p ∈ puts, Keyed.key p = slot
    · obtain ⟨p, hp, rfl⟩ := hput
      obtain ⟨q, hq⟩ := Option.isSome_iff_exists.mp
        ((Table.isSome_lastSame (writeClass format)).mpr ⟨p, hp, rfl⟩)
      obtain ⟨r, hr⟩ := Option.isSome_iff_exists.mp (Table.isSome_lastOf.mpr ⟨p, hp, rfl⟩)
      have hread := (filterMap_eq_iff (fun slot hslot => ?_) fun slot hslot => ?_).mp
        (h p.slot.1 p.slot.2.1 p.slot.2.2.1) (toLex p.slot.2.2.2) (mem_slotsAt.mpr ⟨p, hp, rfl⟩)
      · have hread' : (Table.lastSame (writeClass format) puts (Keyed.key p)).map
            (fun p' => (p.slot.2.2.2.1, p'.channel, p'.value)) =
            (Table.lastOf puts (Keyed.key p)).map
              fun p' => (p.slot.2.2.2.1, p'.channel, p'.value) := hread
        rw [hq, hr, Option.map_some, Option.map_some, Option.some.injEq, Prod.mk.injEq,
          Prod.mk.injEq] at hread'
        -- the two puts are to one slot, with one channel and one value
        obtain ⟨⟨-, hqslot⟩, -⟩ := Table.lastSame_eq_some _ hq
        obtain ⟨-, hrslot⟩ := Table.lastOf_eq_some hr
        rw [hq, hr]
        cases q
        cases r
        simp only [Keyed.key] at hqslot hrslot hread'
        obtain ⟨-, rfl, rfl⟩ := hread'
        rw [hqslot, hrslot]
      · rw [Option.isSome_map, Table.isSome_lastSame]
        exact mem_slotsAt.mp hslot
      · rw [Option.isSome_map, Table.isSome_lastOf]
        exact mem_slotsAt.mp hslot
    · have hnone := Table.firstOf_eq_none.mpr fun p hp hkey => hput ⟨p, hp, hkey⟩
      rw [(Table.lastSame_eq_none _).mpr hnone]
      cases hlast : Table.lastOf puts slot with
      | none => rfl
      | some r => exact absurd ⟨r, Table.lastOf_eq_some hlast⟩ hput
  · intro h threadId ns checkpointId
    rw [funext h]

/-- **What a read returns**: of each slot that was put, the last put with the channel and the
serialization type of the first one.  It is the last put to each slot exactly if that has them. -/
theorem pendingWrites_saverAfter (format : WriteFormat Value) (storable : QueueItem → Bool)
    (d : Database) (steps : List (SaverStep Value)) :
    (∀ threadId ns checkpointId, loadWrites format.loadsTyped
        (writesAt (saverAfter format storable d steps).1 threadId ns checkpointId) =
      pendingWritesBy (Table.lastSame (writeClass format) (saverAfter format storable d steps).2)
        (saverAfter format storable d steps).2 threadId ns checkpointId) ∧
    ((∀ threadId ns checkpointId, loadWrites format.loadsTyped
        (writesAt (saverAfter format storable d steps).1 threadId ns checkpointId) =
      pendingWritesBy (Table.lastOf (saverAfter format storable d steps).2)
        (saverAfter format storable d steps).2 threadId ns checkpointId) ↔
      ∀ slot first last, Table.firstOf (saverAfter format storable d steps).2 slot = some first →
        Table.lastOf (saverAfter format storable d steps).2 slot = some last →
        writeClass format last = writeClass format first) := by
  refine ⟨loadWrites_saverAfter d steps, ?_⟩
  simp only [loadWrites_saverAfter, lastSame_eq_lastOf_iff_read, Table.lastSame_eq_lastOf_iff]

/-! ### A task that is executed again -/

/-- Texts and null, each with a type of its own. -/
def textFormat : WriteFormat (Option String) where
  dumpsTyped v := v.elim ("null", "") fun text => ("msgpack", text)
  loadsTyped type blob := if type = "null" then none else blob
  loads_dumps v := by cases v <;> rfl
  type_ne_empty v := by cases v <;> simp
  writesIdxMap channel := if channel = "__error__" then some (-1) else none

/-- A task puts null, and a text when it is executed again. -/
def retriedTask (value : Option String) : PutWrites (Option String) where
  threadId := 1
  checkpointNs := ""
  checkpointId := 2
  taskId := 3
  writes := [("answer", value)]

/-- The text is not stored. -/
theorem not_lastPutWins : ¬ ∀ (steps : List (SaverStep (Option String)))
    (threadId : Uuid) (ns : String) (checkpointId : Uuid),
    let s := saverAfter textFormat (fun _ => true) (Database.fresh .empty) steps
    loadWrites textFormat.loadsTyped (writesAt s.1 threadId ns checkpointId) =
      pendingWritesBy (Table.lastOf s.2) s.2 threadId ns checkpointId := by
  intro h
  have hread := h [.batch [.aputWrites (retriedTask none)],
    .batch [.aputWrites (retriedTask (some "yes"))]] 1 "" 2
  revert hread
  decide +kernel

end NextRole
