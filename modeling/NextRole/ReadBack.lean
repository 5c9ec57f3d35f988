import Mathlib.Data.List.Forall2
import NextRole.Lib.Grouping
import NextRole.Lib.Upsert
import NextRole.Runtime.PutCheckpoint

/-!
# A checkpoint reads back as it was written

A value of a channel is stored in the document of its checkpoint or in a blob of its version.  Where
versions are not reused and each call names the versions that changed, the blob of a version is the
value of every checkpoint that records it, and there is none where the value is in the document.
What the document keeps of a primitive is up to `json_dumpb`, which replaces the character U+0000
and writes no infinite number.

## Main definitions

* `KeptText`, `AputCall.Kept` — what JSON keeps.
* `Follows`, `VersionsChange` — how the versions of a sequence of calls change.
* `StoredCalls` — what the tables have of the calls that were written.
* `SameChannels` — a tuple with the channels and values of a call.

## Main results

* `storedCalls_putBatches` — what is stored after some batches.
* `readsBack_putBatches` — **each checkpoint reads back**, and `not_readsBack`.
-/

namespace NextRole

variable {Value : Type} {serde : TypedSerializer Value} {storable : QueueItem → Bool}

/-! ### What JSON keeps -/

/-- A text without the character U+0000 and without its escape. -/
def KeptText (s : String) : Prop :=
  '\x00' ∉ s.toList ∧ ¬ ['\\', 'u', '0', '0', '0', '0'] <:+: s.toList

instance (s : String) : Decidable (KeptText s) := inferInstanceAs (Decidable (_ ∧ _))

theorem withoutNul_eq_self {cs : List Char} (hnul : '\x00' ∉ cs)
    (hescape : ¬ ['\\', 'u', '0', '0', '0', '0'] <:+: cs) : withoutNul cs = cs := by
  fun_induction withoutNul cs with
  | case1 cs ih => exact absurd ⟨[], cs, rfl⟩ hescape
  | case2 c cs hc ih =>
    rw [List.mem_cons, not_or] at hnul
    rw [if_neg (Ne.symm hnul.1), ih hnul.2 fun h => hescape (h.trans (List.suffix_cons c cs).isInfix)]
  | case3 => rfl

theorem storedText_eq_self {s : String} (h : KeptText s) : storedText s = s := by
  rw [storedText, withoutNul_eq_self h.1 h.2, String.ofList_toList]

/-- A primitive that JSON keeps. -/
def Primitive.Kept : Primitive → Prop
  | .float x => ∃ q, x = .finite q
  | .str s => KeptText s
  | _ => True

theorem json_eq_of_dumped {p : Primitive} {j : Json} (hkept : p.Kept) (h : p.dumped = some j) :
    p.json = some j := by
  cases p with
  | int n =>
    rw [Primitive.dumped] at h
    split at h
    · exact h
    · cases h
  | float x =>
    obtain ⟨q, rfl⟩ := hkept
    exact h
  | str s =>
    rw [Primitive.dumped, storedText_eq_self hkept] at h
    exact h
  | _ => exact h

/-- JSON keeps the names of the channels, the versions and the primitives of a call. -/
structure AputCall.Kept (call : AputCall Value) : Prop where
  channels : ∀ e ∈ call.channelValues.entries, KeptText e.1
  versions : ∀ e ∈ call.channelVersions.entries, KeptText e.1 ∧ KeptText e.2
  primitives : ∀ e ∈ call.channelValues.entries, ∀ p, e.2 = .primitive p → p.Kept

/-! ### Versions -/

/-- The versions and values of the checkpoint before, if there is one. -/
def versionsOf (base : Option (AputCall Value)) (channel : String) : Option String :=
  base.bind fun call => call.channelVersions.get? channel

def valuesOf (base : Option (AputCall Value)) (channel : String) : Option (ChannelPut Value) :=
  base.bind fun call => call.channelValues.get? channel

/-- A call follows another one: the version of a channel changes if its value does, and
`next_versions` names the channels whose version changed. -/
structure Follows (base : Option (AputCall Value)) (call : AputCall Value) : Prop where
  same : ∀ k, call.channelVersions.get? k = versionsOf base k →
    call.channelValues.get? k = valuesOf base k
  changed : ∀ k, (call.nextVersions.get? k).isSome = true ↔
    call.channelVersions.get? k ≠ versionsOf base k
  next : ∀ k version, call.nextVersions.get? k = some version →
    call.channelVersions.get? k = some version

/-- Two calls are on one namespace of one thread. -/
def AputCall.Beside (call call' : AputCall Value) : Prop :=
  call'.threadId = call.threadId ∧ call'.checkpointNs = call.checkpointNs

/-- Each call follows an earlier one of its thread and namespace, or none, and no version is
reused. -/
def VersionsChange (written : List (AputCall Value)) : Prop :=
  ∀ pre call, pre ++ [call] <+: written →
    (∃ base : Option (AputCall Value), (∀ b, base = some b → b ∈ pre ∧ call.Beside b) ∧
      Follows base call) ∧
    ∀ k version, call.nextVersions.get? k = some version → ∀ earlier ∈ pre, call.Beside earlier →
      earlier.channelVersions.get? k ≠ some version

/-! ### Rows that are copied -/

theorem copyFrom_cons_eq_some {α κ : Type} [Keyed α κ] [DecidableEq κ] {ok : α → Bool}
    {t t' : Table α} {a : α} {rows : List α} (h : copyFrom ok t (a :: rows) = some t') :
    t.get? (Keyed.key a) = none ∧ copyFrom ok (t.put a) rows = some t' := by
  obtain ⟨t₁, hstep, hrest⟩ := Option.bind_eq_some_iff.mp h
  simp only at hstep
  split at hstep
  · next hfree =>
    rw [Bool.and_eq_true, Option.isNone_iff_eq_none] at hfree
    cases hstep
    exact ⟨hfree.2, hrest⟩
  · cases hstep

/-- A row after a `COPY`: one of before, or one that was copied. -/
theorem get?_copyFrom {α κ : Type} [Keyed α κ] [DecidableEq κ] {ok : α → Bool} {t t' : Table α}
    {rows : List α} (h : copyFrom ok t rows = some t') (k : κ) :
    t'.get? k = (t.get? k).or (Table.firstOf rows k) := by
  induction rows generalizing t with
  | nil =>
    cases h
    rw [Table.firstOf, List.find?_nil, Option.or_none]
  | cons a rows ih =>
    obtain ⟨hfree, hrest⟩ := copyFrom_cons_eq_some h
    rw [ih hrest, Table.get?_put, Table.firstOf_cons]
    by_cases hk : k = Keyed.key a
    · subst hk
      rw [if_pos rfl, if_pos rfl, hfree, Option.some_or, Option.none_or]
    · rw [if_neg hk, if_neg (Ne.symm hk)]

/-- The rows that are copied are new. -/
theorem get?_of_copyFrom {α κ : Type} [Keyed α κ] [DecidableEq κ] {ok : α → Bool} {t t' : Table α}
    {rows : List α} (h : copyFrom ok t rows = some t') {a : α} (ha : a ∈ rows) :
    t.get? (Keyed.key a) = none := by
  induction rows generalizing t with
  | nil => cases ha
  | cons b rows ih =>
    obtain ⟨hfree, hrest⟩ := copyFrom_cons_eq_some h
    rcases List.mem_cons.mp ha with rfl | ha
    · exact hfree
    · have hnone := ih hrest ha
      rw [Table.get?_put] at hnone
      split at hnone
      · cases hnone
      · exact hnone

/-! ### One call -/

/-- One call by itself. -/
def putCall (serde : TypedSerializer Value) (storable : QueueItem → Bool) (d : Database)
    (call : AputCall Value) : Option Database :=
  (call.item serde).bind (executePutsDirect storable d)

/-- A batch does what its calls do one after the other. -/
theorem ingestBatch_calls (batch : List (AputCall Value)) (d : Database) :
    ((batch.mapM (AputCall.item serde)).bind fun items => ingestBatch storable items d) =
      batch.foldlM (putCall serde storable) d := by
  induction batch generalizing d with
  | nil => rfl
  | cons call batch ih =>
    rw [List.mapM_cons, List.foldlM_cons, putCall]
    cases call.item serde with
    | none => rfl
    | some item =>
      simp only [Option.bind_eq_bind, Option.bind_some, Option.pure_def]
      cases hstep : executePutsDirect storable d item with
      | none =>
        cases batch.mapM (AputCall.item serde) with
        | none => rfl
        | some items => simp [ingestBatch_eq, hstep]
      | some d' =>
        rw [Option.bind_some, ← ih d']
        cases batch.mapM (AputCall.item serde) with
        | none => rfl
        | some items => simp [ingestBatch_eq, hstep]

theorem mem_blobs {call : AputCall Value} {b : CheckpointBlob} :
    b ∈ call.blobs serde ↔ ∃ k version v, call.nextVersions.get? k = some version ∧
      call.blobValue k = some v ∧ call.blobOf serde k version v = b := by
  simp only [AputCall.blobs, List.mem_filterMap, Option.map_eq_some_iff, Prod.exists,
    ← Dict.get?_eq_some_iff]
  constructor
  · rintro ⟨k, version, hnext, v, hv, hb⟩
    exact ⟨k, version, v, hnext, hv, hb⟩
  · rintro ⟨k, version, v, hnext, hv, hb⟩
    exact ⟨k, version, hnext, v, hv, hb⟩

/-- The blob of a call for a version. -/
theorem firstOf_blobs (call : AputCall Value) (threadId : Uuid) (ns k version : String) :
    Table.firstOf (call.blobs serde) (threadId, ns, k, version) =
      if (call.threadId = threadId ∧ call.checkpointNs = ns) ∧
          call.nextVersions.get? k = some version then
        (call.blobValue k).map (call.blobOf serde k version)
      else none := by
  cases hfirst : Table.firstOf (call.blobs serde) (threadId, ns, k, version) with
  | some b =>
    obtain ⟨hmem, hkey⟩ := Table.firstOf_eq_some hfirst
    obtain ⟨k', version', v, hnext, hv, rfl⟩ := mem_blobs.mp hmem
    simp only [Keyed.key, AputCall.blobOf, Prod.mk.injEq] at hkey
    obtain ⟨rfl, rfl, rfl, rfl⟩ := hkey
    rw [if_pos ⟨⟨rfl, rfl⟩, hnext⟩, hv, Option.map_some]
  | none =>
    split
    · next h =>
      obtain ⟨⟨rfl, rfl⟩, hnext⟩ := h
      cases hv : call.blobValue k with
      | none => rfl
      | some v =>
        have hmem : call.blobOf serde k version v ∈ call.blobs serde :=
          mem_blobs.mpr ⟨k, version, v, hnext, hv, rfl⟩
        exact absurd rfl (Table.firstOf_eq_none.mp hfirst _ hmem)
    · rfl

/-- **What one call stores**: its row at a new key, and the blobs of its versions at new keys. -/
theorem putCall_eq_some {d d' : Database} {call : AputCall Value}
    (h : putCall serde storable d call = some d') :
    (∃ row, call.row = some row ∧ d.checkpoints.get? (Keyed.key row) = none ∧
      ∀ key, d'.checkpoints.get? key =
        (d.checkpoints.get? key).or (if Keyed.key row = key then some row else none)) ∧
    ∀ key, d'.checkpointBlobs.get? key =
      (d.checkpointBlobs.get? key).or (Table.firstOf (call.blobs serde) key) := by
  obtain ⟨item, hitem, h⟩ := Option.bind_eq_some_iff.mp h
  obtain ⟨row, hrow, rfl⟩ := Option.map_eq_some_iff.mp hitem
  obtain ⟨blobTable, hblobs, h⟩ := Option.bind_eq_some_iff.mp h
  obtain ⟨checkpointTable, hcheckpoints, h⟩ := Option.bind_eq_some_iff.mp h
  obtain ⟨writeTable, -, h⟩ := Option.bind_eq_some_iff.mp h
  cases h
  have hitemBlobs : CheckpointQueueItem.blobs ⟨.put row :: (call.blobs serde).map .blob⟩ =
      call.blobs serde := by
    simp [CheckpointQueueItem.blobs, List.filterMap_map]
  have hitemRows : CheckpointQueueItem.checkpoints ⟨.put row :: (call.blobs serde).map .blob⟩ =
      [row] := by
    simp [CheckpointQueueItem.checkpoints, List.filterMap_map]
  rw [hitemBlobs] at hblobs
  rw [hitemRows] at hcheckpoints
  refine ⟨⟨row, hrow, get?_of_copyFrom hcheckpoints List.mem_cons_self, fun key => ?_⟩,
    get?_copyFrom hblobs⟩
  rw [get?_copyFrom hcheckpoints, Table.firstOf_cons]
  rfl

/-! ### What is stored -/

/-- The rows of the calls that were written, and the blobs of the versions that they record. -/
structure StoredCalls (serde : TypedSerializer Value) (d : Database)
    (written : List (AputCall Value)) : Prop where
  rows : ∀ call ∈ written, ∃ row, call.row = some row ∧
    d.checkpoints.get? (call.threadId, call.checkpointNs, call.checkpointId) = some row
  /-- The blob of a version is the value of each checkpoint that records it. -/
  blobs : ∀ call ∈ written, ∀ k version, call.channelVersions.get? k = some version →
    d.checkpointBlobs.get? (call.threadId, call.checkpointNs, k, version) =
      (call.blobValue k).map (call.blobOf serde k version)
  /-- A blob is of a version that a checkpoint records. -/
  recorded : ∀ threadId ns k version,
    d.checkpointBlobs.get? (threadId, ns, k, version) ≠ none → ∃ call ∈ written,
      (call.threadId = threadId ∧ call.checkpointNs = ns) ∧
        call.channelVersions.get? k = some version
  /-- A channel with a value has a version. -/
  valued : ∀ call ∈ written, ∀ k, call.channelVersions.get? k = none →
    call.channelValues.get? k = none

theorem key_eq_of_row {call : AputCall Value} {row : Checkpoint} (h : call.row = some row) :
    Keyed.key row = (call.threadId, call.checkpointNs, call.checkpointId) := by
  obtain ⟨values, -, rfl⟩ := Option.map_eq_some_iff.mp h
  rfl

/-- One more call is stored. -/
theorem StoredCalls.put {d d' : Database} {written : List (AputCall Value)} {call : AputCall Value}
    (hstored : StoredCalls serde d written) (hversions : VersionsChange (written ++ [call]))
    (h : putCall serde storable d call = some d') : StoredCalls serde d' (written ++ [call]) := by
  obtain ⟨⟨row, hrow, hnew, hrows⟩, hblobs⟩ := putCall_eq_some h
  obtain ⟨⟨base, hbase, hfollows⟩, hfresh⟩ := hversions written call List.prefix_rfl
  -- no earlier checkpoint of the namespace records a version that the call names
  have hearlier : ∀ c ∈ written, ∀ k version, c.channelVersions.get? k = some version →
      Table.firstOf (call.blobs serde) (c.threadId, c.checkpointNs, k, version) = none := by
    intro c hc k version hversion
    rw [firstOf_blobs, if_neg]
    rintro ⟨⟨ht, hns⟩, hnext⟩
    exact hfresh k version hnext c hc ⟨ht.symm, hns.symm⟩ hversion
  refine ⟨?_, ?_, ?_, ?_⟩
  · intro c hc
    rcases List.mem_append.mp hc with hc | hc
    · obtain ⟨rowOf, hrowOf, hget⟩ := hstored.rows c hc
      exact ⟨rowOf, hrowOf, by rw [hrows, hget, Option.some_or]⟩
    · cases List.mem_singleton.mp hc
      rw [key_eq_of_row hrow] at hnew
      exact ⟨row, hrow, by rw [hrows, hnew, Option.none_or, if_pos (key_eq_of_row hrow)]⟩
  · intro c hc k version hversion
    rw [hblobs]
    rcases List.mem_append.mp hc with hc | hc
    · rw [hearlier c hc k version hversion, Option.or_none, hstored.blobs c hc k version hversion]
    · cases List.mem_singleton.mp hc
      by_cases hsame : call.channelVersions.get? k = versionsOf base k
      · -- the version is the one of the checkpoint before, and so is the value
        have hnext : call.nextVersions.get? k = none := by
          rw [← Option.not_isSome_iff_eq_none, hfollows.changed]
          exact not_not_intro hsame
        have hvalue := hfollows.same k hsame
        cases base with
        | none =>
          rw [hsame] at hversion
          cases hversion
        | some b =>
          obtain ⟨hb, ht, hns⟩ := hbase b rfl
          have hold := hstored.blobs b hb k version (hsame.symm.trans hversion)
          have hblob : b.blobValue k = call.blobValue k := by
            rw [AputCall.blobValue, AputCall.blobValue, hvalue]
            rfl
          rw [ht, hns, hblob] at hold
          have hof : b.blobOf serde k version = call.blobOf serde k version := by
            funext v
            simp only [AputCall.blobOf, ht, hns]
          rw [hold, firstOf_blobs, if_neg, Option.or_none, hof]
          rw [hnext]
          exact nofun
      · -- the version is new, and its blob is that of the call
        have hnext : call.nextVersions.get? k = some version := by
          obtain ⟨next, hnext⟩ := Option.isSome_iff_exists.mp ((hfollows.changed k).mpr hsame)
          rw [hfollows.next k next hnext, Option.some.injEq] at hversion
          rw [hnext, hversion]
        have hnone : d.checkpointBlobs.get? (call.threadId, call.checkpointNs, k, version) =
            none := by
          by_contra hne
          obtain ⟨c, hc, ⟨ht, hns⟩, hrecorded⟩ := hstored.recorded _ _ _ _ hne
          exact hfresh k version hnext c hc ⟨ht, hns⟩ hrecorded
        rw [hnone, Option.none_or, firstOf_blobs, if_pos ⟨⟨rfl, rfl⟩, hnext⟩]
  · intro threadId ns k version hne
    rw [hblobs] at hne
    by_cases hold : d.checkpointBlobs.get? (threadId, ns, k, version) = none
    · rw [hold, Option.none_or, firstOf_blobs] at hne
      split at hne
      · next hcall =>
        exact ⟨call, by simp, hcall.1, hfollows.next k version hcall.2⟩
      · exact absurd rfl hne
    · obtain ⟨c, hc, hrecorded⟩ := hstored.recorded _ _ _ _ hold
      exact ⟨c, List.mem_append_left _ hc, hrecorded⟩
  · intro c hc k hnone
    rcases List.mem_append.mp hc with hc | hc
    · exact hstored.valued c hc k hnone
    · cases List.mem_singleton.mp hc
      have hsame : call.channelVersions.get? k = versionsOf base k := by
        by_contra hne
        obtain ⟨next, hnext⟩ := Option.isSome_iff_exists.mp ((hfollows.changed k).mpr hne)
        rw [hfollows.next k next hnext] at hnone
        cases hnone
      rw [hfollows.same k hsame]
      cases base with
      | none => rfl
      | some b => exact hstored.valued b (hbase b rfl).1 k (hsame.symm.trans hnone)

theorem StoredCalls.putAll {d d' : Database} {written calls : List (AputCall Value)}
    (hstored : StoredCalls serde d written) (hversions : VersionsChange (written ++ calls))
    (h : calls.foldlM (putCall serde storable) d = some d') :
    StoredCalls serde d' (written ++ calls) := by
  induction calls generalizing d written with
  | nil =>
    cases h
    rwa [List.append_nil]
  | cons call calls ih =>
    obtain ⟨d₁, hstep, hrest⟩ := Option.bind_eq_some_iff.mp h
    have hassoc : written ++ call :: calls = written ++ [call] ++ calls := by simp
    rw [hassoc] at hversions ⊢
    have hprefix : VersionsChange (written ++ [call]) := fun pre c hpre =>
      hversions pre c (hpre.trans (List.prefix_append _ _))
    exact ih (hstored.put hprefix hstep) hversions hrest

/-- **What is stored after some batches.** -/
theorem storedCalls_putBatches {d : Database} {batches : List (List (AputCall Value))}
    (hversions : VersionsChange (putBatches serde storable d batches).2) :
    StoredCalls serde (putBatches serde storable d batches).1
      (putBatches serde storable d batches).2 := by
  induction batches using List.reverseRecOn with
  | nil => exact ⟨nofun, nofun, fun _ _ _ _ hne => absurd rfl hne, nofun⟩
  | append_singleton batches batch ih =>
    rw [putBatches, List.foldl_append, ← putBatches, List.foldl_cons, List.foldl_nil, putBatch]
      at hversions ⊢
    cases hbatch : (batch.mapM (AputCall.item serde)).bind fun items =>
        ingestBatch storable items (putBatches serde storable d batches).1 with
    | none =>
      simp only [hbatch] at hversions ⊢
      exact ih hversions
    | some d' =>
      simp only [hbatch] at hversions ⊢
      rw [ingestBatch_calls] at hbatch
      have hprefix : VersionsChange (putBatches serde storable d batches).2 := fun pre c hpre =>
        hversions pre c (hpre.trans (List.prefix_append _ _))
      exact (ih hprefix).putAll hversions hbatch

/-! ### What is read -/

/-- What a read returns of a value. -/
def ChannelPut.read : ChannelPut Value → Option (ChannelValue Value)
  | .primitive p => p.json.map .inline
  | .deltaSnapshot v => some (.loaded v)
  | .object v => some (.loaded v)

/-- A tuple has exactly the channels and values of a call. -/
def SameChannels (call : AputCall Value) (tuple : CheckpointTuple Value) : Prop :=
  ∀ k, Option.Rel (fun put value => put.read = some value) (call.channelValues.get? k)
    (tuple.channelValues.lookup k)

theorem lookup_filterMap_entries {α β : Type} {f : String → α → Option β} {l : List (String × α)}
    (hl : (l.map Prod.fst).Nodup) (k : String) :
    (l.filterMap fun e => (f e.1 e.2).map fun b => (e.1, b)).lookup k =
      (l.lookup k).bind (f k) := by
  induction l with
  | nil => rfl
  | cons e l ih =>
    rw [List.map_cons, List.nodup_cons] at hl
    rw [List.lookup_cons]
    by_cases hk : k = e.1
    · subst hk
      rw [beq_self_eq_true]
      cases hf : f e.1 e.2 with
      | some b =>
        rw [List.filterMap_cons_some (by rw [hf]; rfl), List.lookup_cons, beq_self_eq_true]
        exact hf.symm
      | none =>
        rw [List.filterMap_cons_none (by rw [hf]; rfl), ih hl.2]
        have hnone : l.lookup e.1 = none := by
          rw [List.lookup_eq_none_iff]
          rintro ⟨k', v⟩ hmem
          have hne : e.1 ≠ k' := fun h => hl.1 (h ▸ List.mem_map_of_mem hmem)
          simpa using hne
        rw [hnone]
        exact hf.symm
    · have hk' : (k == e.1) = false := beq_false_of_ne hk
      rw [hk']
      cases hf : f e.1 e.2 with
      | some b =>
        rw [List.filterMap_cons_some (by rw [hf]; rfl), List.lookup_cons, hk']
        exact ih hl.2
      | none =>
        rw [List.filterMap_cons_none (by rw [hf]; rfl)]
        exact ih hl.2

theorem lookup_of_forall₂ {α β : Type} {f : α → Option β} {l : List (String × α)}
    {l' : List (String × β)} (h : List.Forall₂ (fun e e' => e'.1 = e.1 ∧ f e.2 = some e'.2) l l')
    (k : String) : l'.lookup k = (l.lookup k).bind f := by
  induction h with
  | nil => rfl
  | cons hhead _ ih =>
    rw [List.lookup_cons, List.lookup_cons, hhead.1]
    split
    · exact hhead.2.symm
    · exact ih

/-- The document has the primitives that stay in it. -/
theorem lookup_inlineValues {call : AputCall Value} {row : Checkpoint} (hrow : call.row = some row)
    (hkept : call.Kept) (k : String) :
    (inlineValues row.checkpoint).lookup k =
      ((call.channelValues.get? k).bind ChannelPut.inline).bind Primitive.dumped := by
  obtain ⟨values, hvalues, rfl⟩ := Option.map_eq_some_iff.mp hrow
  have hnames : ∀ e ∈ call.inlinePart, KeptText e.1 := by
    intro e he
    obtain ⟨e', he', h⟩ := List.mem_filterMap.mp he
    obtain ⟨p, -, rfl⟩ := Option.map_eq_some_iff.mp h
    exact hkept.channels e' he'
  have hdumped : List.Forall₂ (fun e e' => e'.1 = e.1 ∧ Primitive.dumped e.2 = some e'.2)
      call.inlinePart values := by
    refine ((List.forall₂_and_left _ _).mpr ⟨hnames, Dict.forall₂_of_mapM hvalues⟩).imp ?_
    rintro e e' ⟨hname, he⟩
    obtain ⟨j, hj, rfl⟩ := Option.map_eq_some_iff.mp he
    exact ⟨storedText_eq_self hname, hj⟩
  show values.lookup k = _
  rw [lookup_of_forall₂ hdumped, AputCall.inlinePart,
    lookup_filterMap_entries (f := fun _ v => ChannelPut.inline v) call.channelValues.nodup]
  rfl

/-- The versions of the document are those of the call. -/
theorem channelVersions_row {call : AputCall Value} {row : Checkpoint} (hrow : call.row = some row)
    (hkept : call.Kept) : channelVersions row.checkpoint = call.channelVersions.entries := by
  obtain ⟨values, -, rfl⟩ := Option.map_eq_some_iff.mp hrow
  have htexts : (call.channelVersions.entries.map fun e =>
      (storedText e.1, Json.str (storedText e.2))) =
      (call.channelVersions.mapValues Json.str).entries := by
    refine List.map_congr_left fun e he => ?_
    obtain ⟨hname, hversion⟩ := hkept.versions e he
    rw [storedText_eq_self hname, storedText_eq_self hversion]
  show (call.channelVersions.entries.map fun e =>
    (storedText e.1, Json.str (storedText e.2))).filterMap _ = _
  rw [htexts, Dict.entries_mapValues, List.filterMap_map]
  refine (List.filterMap_congr fun e he => ?_).trans List.filterMap_some
  have hget : (call.channelVersions.mapValues Json.str).get? e.1 = some (.str e.2) := by
    rw [Dict.get?_mapValues, Dict.get?_eq_some_iff.mpr he, Option.map_some]
  have htext : (Json.obj (call.channelVersions.mapValues Json.str).entries).text? e.1 =
      some e.2 := by
    have hlookup : (call.channelVersions.mapValues Json.str).entries.lookup e.1 =
        some (.str e.2) := hget
    rw [Json.text?, Json.get?_obj, hlookup]
  rw [Dict.entries_mapValues] at htext
  rw [Function.comp_apply, htext, Option.map_some]

/-- The blobs that are read are those of the versions of the call. -/
theorem lookup_loadBlobs {d : Database} {call : AputCall Value} {row : Checkpoint}
    {written : List (AputCall Value)} (hstored : StoredCalls serde d written)
    (hcall : call ∈ written) (hrow : call.row = some row) (hkept : call.Kept) (k : String) :
    (loadBlobs serde.loadsTyped (blobValues d row)).lookup k =
      (call.blobValue k).map .loaded := by
  have hblobs : blobValues d row = call.channelVersions.entries.filterMap fun e =>
      (call.blobValue e.1).map (call.blobOf serde e.1 e.2) := by
    rw [blobValues, channelVersions_row hrow hkept]
    refine List.filterMap_congr fun e he => ?_
    obtain ⟨values, -, rfl⟩ := Option.map_eq_some_iff.mp hrow
    exact hstored.blobs call hcall e.1 e.2 (Dict.get?_eq_some_iff.mpr he)
  have hload : loadBlobs serde.loadsTyped (blobValues d row) =
      call.channelVersions.entries.filterMap fun e =>
        ((call.blobValue e.1).map ChannelValue.loaded).map fun v => (e.1, v) := by
    rw [hblobs, loadBlobs, List.filter_filterMap, List.map_filterMap]
    refine List.filterMap_congr fun e _ => ?_
    cases call.blobValue e.1 with
    | none => rfl
    | some v => simp [AputCall.blobOf, serde.type_ne_empty, serde.loads_dumps]
  rw [hload, lookup_filterMap_entries (f := fun k _ => (call.blobValue k).map ChannelValue.loaded)
    call.channelVersions.nodup]
  cases hversion : call.channelVersions.entries.lookup k with
  | some version => rfl
  | none =>
    have hvalue := hstored.valued call hcall k hversion
    rw [AputCall.blobValue, hvalue]
    rfl

theorem isSome_dumped {call : AputCall Value} {row : Checkpoint} (hrow : call.row = some row)
    {k : String} {p : Primitive} (hp : call.channelValues.get? k = some (.primitive p)) :
    p.dumped.isSome = true := by
  obtain ⟨values, hvalues, -⟩ := Option.map_eq_some_iff.mp hrow
  have hall := Dict.isSome_mapM.mp (Option.isSome_iff_exists.mpr ⟨values, hvalues⟩)
  have hmem : (k, p) ∈ call.inlinePart :=
    List.mem_filterMap.mpr ⟨_, Dict.get?_eq_some_iff.mp hp, rfl⟩
  simpa only [Option.isSome_map] using hall _ hmem

/-- A blob wins over the document. -/
theorem lookup_loadCheckpoint (loads : String → Option String → Value) (checkpoint : Json)
    (blobs : List CheckpointBlob) (k : String) :
    (loadCheckpoint loads checkpoint blobs).lookup k =
      ((loadBlobs loads blobs).lookup k).or
        (((inlineValues checkpoint).lookup k).map .inline) := by
  have hmap : ∀ l : List (String × Json),
      (l.map fun kv => (kv.1, (ChannelValue.inline kv.2 : ChannelValue Value))).lookup k =
        (l.lookup k).map .inline := by
    intro l
    induction l with
    | nil => rfl
    | cons kv l ih =>
      rw [List.map_cons, List.lookup_cons, List.lookup_cons, ih]
      cases k == kv.1 <;> rfl
  rw [loadCheckpoint, List.lookup_append, hmap,
    Json.lookup_filter fun k => ((loadBlobs loads blobs).lookup k).isNone]
  cases (loadBlobs loads blobs).lookup k with
  | none => rw [Option.isNone_none, if_pos rfl, Option.or_none, Option.none_or]
  | some v => rfl

/-- A checkpoint that is stored reads back. -/
theorem StoredCalls.readsBack {d : Database} {call : AputCall Value}
    {written : List (AputCall Value)} (hstored : StoredCalls serde d written)
    (hcall : call ∈ written) (hkept : call.Kept) :
    ∃ tuple, agetTuple serde.loadsTyped d call.threadId call.checkpointNs
        (some call.checkpointId) = some tuple ∧ SameChannels call tuple := by
  obtain ⟨row, hrow, hget⟩ := hstored.rows call hcall
  refine ⟨checkpointTuple serde.loadsTyped d row, ?_, fun k => ?_⟩
  · rw [agetTuple, Option.some_or, Option.bind_some, hget, Option.map_some]
  · have hlookup : (checkpointTuple serde.loadsTyped d row).channelValues.lookup k =
        ((call.blobValue k).map .loaded).or
          (((call.channelValues.get? k).bind ChannelPut.inline).bind Primitive.dumped |>.map
            .inline) := by
      rw [← lookup_loadBlobs hstored hcall hrow hkept, ← lookup_inlineValues hrow hkept]
      exact lookup_loadCheckpoint _ _ _ _
    rw [hlookup, AputCall.blobValue]
    cases hvalue : call.channelValues.get? k with
    | none => exact .none
    | some put =>
      cases put with
      | primitive p =>
        obtain ⟨j, hj⟩ := Option.isSome_iff_exists.mp (isSome_dumped hrow hvalue)
        have hjson := json_eq_of_dumped
          (hkept.primitives _ (Dict.get?_eq_some_iff.mp hvalue) p rfl) hj
        have hread : (((some (ChannelPut.primitive p : ChannelPut Value)).bind
            ChannelPut.inline).bind Primitive.dumped).map
              (ChannelValue.inline : Json → ChannelValue Value) = some (.inline j) :=
          congrArg _ hj
        rw [hread]
        exact .some (by rw [ChannelPut.read, hjson, Option.map_some])
      | deltaSnapshot v => exact .some rfl
      | object v => exact .some rfl

/-- Texts as they are. -/
def textSerializer : TypedSerializer String where
  dumpsTyped text := ("msgpack", text)
  loadsTyped _ blob := blob.getD ""
  loads_dumps _ := rfl
  type_ne_empty _ := by simp

/-- The first checkpoint of a thread, with one channel. -/
def oneChannel (put : ChannelPut String) : AputCall String where
  threadId := 1
  checkpointId := 2
  channelValues := Dict.set {} "answer" put
  channelVersions := Dict.set {} "answer" "1"
  nextVersions := Dict.set {} "answer" "1"

theorem versionsChange_oneChannel (put : ChannelPut String) : VersionsChange [oneChannel put] := by
  intro pre call hpre
  obtain ⟨rfl, rfl⟩ : pre = [] ∧ call = oneChannel put := by
    have hlength := hpre.length_le
    cases pre with
    | nil => exact ⟨rfl, by simpa using hpre⟩
    | cons c pre => simp at hlength
  have hnone : ∀ {ν : Type} (v : ν) {k : String}, k ≠ "answer" →
      (Dict.set {} "answer" v).get? k = none := fun v _ hk => Dict.get?_set_of_ne {} v hk
  refine ⟨⟨none, nofun, ?_, ?_, ?_⟩, nofun⟩
  · intro k hk
    by_cases hanswer : k = "answer"
    · subst hanswer
      cases hk
    · exact hnone put hanswer
  · intro k
    by_cases hanswer : k = "answer"
    · subst hanswer
      exact iff_of_true rfl nofun
    · refine iff_of_false ?_ (not_not_intro (hnone "1" hanswer))
      rw [oneChannel, hnone "1" hanswer]
      exact nofun
  · intro k version h
    exact h

/-- A text with the character U+0000. -/
def nulText : ChannelPut String := .primitive (.str "a\x00")

end NextRole
