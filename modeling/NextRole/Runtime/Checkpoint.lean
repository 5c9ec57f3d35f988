import Mathlib.Data.Prod.Lex
import NextRole.Lib.Rank
import NextRole.Schema

/-!
# Reading a checkpoint

How `runtime_postgres/checkpoint.py` reads the state of a thread back from the three
checkpoint tables.  A read joins the versions that a checkpoint records with the blobs
of the thread, keeps the primitives that are stored inline, and lists the pending writes
of the checkpoint.  The value of a delta channel is rebuilt from its ancestors: WALK
follows the parents back to a stored value, FETCH reads the writes on the way.

The helpers that advance the walk are not part of the repository.  They are a parameter
here, of which `FollowsChain` says what the comments of the module say.  No encryption
is configured, and the pinned version of the graph library omits pending sends.

## Main definitions

* `CheckpointTuple`, `agetTuple` — a checkpoint with its values and pending writes.
* `WalkRow`, `Walked`, `chainFrom`, `FollowsChain` — the walk of a delta channel.
* `DeltaChannelHistory`, `agetDeltaChannelHistory` — what a delta channel is rebuilt from.
* `SameRows` — the checkpoint rows of a thread are those of another.

## Main results

* `agetTuple_congr`, `agetDeltaChannelHistory_congr` — a read depends on these rows only.
-/

namespace NextRole

/-! ### Channel values and pending writes -/

/-- The value of a channel: a primitive kept inline, or what the serializer loads. -/
inductive ChannelValue (Value : Type)
  | inline (v : Json)
  | loaded (v : Value)
  deriving Repr, DecidableEq

/-- What a read returns of a checkpoint. -/
structure CheckpointTuple (Value : Type) where
  threadId : Uuid
  checkpointNs : String
  checkpointId : Uuid
  checkpoint : Json
  channelValues : List (String × ChannelValue Value)
  metadata : Json
  parentCheckpointId : Option Uuid
  pendingWrites : List (Uuid × String × Value)
  deriving Repr, DecidableEq

/-- `jsonb_each_text(checkpoint -> 'channel_versions')`. -/
def channelVersions (checkpoint : Json) : List (String × String) :=
  match checkpoint.get? "channel_versions" with
  | some (.obj kvs) => kvs.filterMap fun kv => ((Json.obj kvs).text? kv.1).map (kv.1, ·)
  | _ => []

/-- `checkpoint -> 'channel_values'`. -/
def inlineValues (checkpoint : Json) : List (String × Json) :=
  match checkpoint.get? "channel_values" with
  | some (.obj kvs) => kvs
  | _ => []

/-- The blobs of the versions that a checkpoint records. -/
def blobValues (d : Database) (c : Checkpoint) : List CheckpointBlob :=
  (channelVersions c.checkpoint).filterMap fun cv =>
    d.checkpointBlobs.get? (c.threadId, c.checkpointNs, cv.1, cv.2)

/-- The columns of a checkpoint write that a read takes. -/
structure StoredWrite where
  taskId : Uuid
  idx : ℤ
  channel : String
  type : String
  blob : String
  deriving Repr, DecidableEq

def CheckpointWrite.stored (w : CheckpointWrite) : StoredWrite :=
  ⟨w.taskId, w.idx, w.channel, w.type, w.blob⟩

/-- The columns of `ORDER BY task_id, idx`. -/
def StoredWrite.order (w : StoredWrite) : ℕ ×ₗ ℤ := toLex (w.taskId, w.idx)

/-- Whether a write is one of the checkpoint. -/
def CheckpointWrite.isOn (threadId : Uuid) (ns : String) (checkpointId : Uuid)
    (w : CheckpointWrite) : Bool :=
  w.threadId = threadId && w.checkpointNs = ns && w.checkpointId = checkpointId

/-- The writes of a checkpoint, ordered by task and index. -/
def writesAt (d : Database) (threadId : Uuid) (ns : String) (checkpointId : Uuid) :
    List StoredWrite :=
  ((d.checkpointWrites.select (CheckpointWrite.isOn threadId ns checkpointId)).map
    CheckpointWrite.stored).insertionSort fun w w' => w.order ≤ w'.order

section

variable {Value : Type} (loads : String → Option String → Value)

def loadBlobs (blobs : List CheckpointBlob) : List (String × ChannelValue Value) :=
  (blobs.filter fun b => b.type ≠ "empty").map fun b => (b.channel, .loaded (loads b.type b.blob))

def loadWrites (writes : List StoredWrite) : List (Uuid × String × Value) :=
  writes.map fun w => (w.taskId, w.channel, loads w.type (some w.blob))

/-- The channel values of a checkpoint: those stored inline, overridden by the blobs. -/
def loadCheckpoint (checkpoint : Json) (blobs : List CheckpointBlob) :
    List (String × ChannelValue Value) :=
  let loaded := loadBlobs loads blobs
  ((inlineValues checkpoint).filter fun kv => (loaded.lookup kv.1).isNone).map
    (fun kv => (kv.1, .inline kv.2)) ++ loaded

/-- The tuple of a row. -/
def checkpointTuple (d : Database) (c : Checkpoint) : CheckpointTuple Value where
  threadId := c.threadId
  checkpointNs := c.checkpointNs
  checkpointId := c.checkpointId
  checkpoint := c.checkpoint
  channelValues := loadCheckpoint loads c.checkpoint (blobValues d c)
  metadata := c.metadata
  parentCheckpointId := c.parentCheckpointId
  pendingWrites := loadWrites loads (writesAt d c.threadId c.checkpointNs c.checkpointId)

end

/-! ### The latest checkpoint -/

/-- A checkpoint is the latest one of a namespace of a thread. -/
def IsLatest (d : Database) (threadId : Uuid) (ns : String) (c : Checkpoint) : Prop :=
  (c ∈ d.checkpoints ∧ c.threadId = threadId ∧ c.checkpointNs = ns) ∧
    ∀ c' ∈ d.checkpoints, c'.threadId = threadId → c'.checkpointNs = ns →
      c'.checkpointId ≤ c.checkpointId

instance (d : Database) (threadId : Uuid) (ns : String) (c : Checkpoint) :
    Decidable (IsLatest d threadId ns c) :=
  inferInstanceAs (Decidable (_ ∧ ∀ c' ∈ d.checkpoints, _ → _ → _))

/-- The checkpoints of a namespace. -/
def namespaceRows (d : Database) (threadId : Uuid) (ns : String) : List Checkpoint :=
  d.checkpoints.select fun c => c.threadId = threadId && c.checkpointNs = ns

/-- `ORDER BY checkpoint_id DESC LIMIT 1`. -/
def latestId (d : Database) (threadId : Uuid) (ns : String) : Option Uuid :=
  ((namespaceRows d threadId ns).map Checkpoint.checkpointId).max?

theorem mem_namespaceRows {d : Database} {threadId : Uuid} {ns : String} {c : Checkpoint} :
    c ∈ namespaceRows d threadId ns ↔
      c ∈ d.checkpoints ∧ c.threadId = threadId ∧ c.checkpointNs = ns := by
  simp [namespaceRows]

theorem get?_checkpoints_eq_some {d : Database} {threadId id : Uuid} {ns : String} {c : Checkpoint} :
    d.checkpoints.get? (threadId, ns, id) = some c ↔
      c ∈ namespaceRows d threadId ns ∧ c.checkpointId = id := by
  rw [Table.get?_eq_some, mem_namespaceRows]
  simp only [Keyed.key, Prod.mk.injEq]
  tauto

theorem latestId_eq_some {d : Database} {threadId id : Uuid} {ns : String} :
    latestId d threadId ns = some id ↔ ∃ c, IsLatest d threadId ns c ∧ c.checkpointId = id := by
  rw [latestId, List.max?_eq_some_iff]
  simp only [List.mem_map, mem_namespaceRows]
  constructor
  · rintro ⟨⟨c, hc, rfl⟩, hmax⟩
    exact ⟨c, ⟨hc, fun c' hc' ht hns => hmax _ ⟨c', ⟨hc', ht, hns⟩, rfl⟩⟩, rfl⟩
  · rintro ⟨c, ⟨hc, hmax⟩, rfl⟩
    refine ⟨⟨c, hc, rfl⟩, ?_⟩
    rintro _ ⟨c', ⟨hc', ht, hns⟩, rfl⟩
    exact hmax c' hc' ht hns

theorem latestId_of_isLatest {d : Database} {threadId : Uuid} {ns : String} {c : Checkpoint}
    (h : IsLatest d threadId ns c) : latestId d threadId ns = some c.checkpointId :=
  latestId_eq_some.mpr ⟨c, h, rfl⟩

/-- `aget_tuple`: the checkpoint of the given id, or else the latest one. -/
def agetTuple {Value : Type} (loads : String → Option String → Value) (d : Database)
    (threadId : Uuid) (ns : String) (checkpointId : Option Uuid) : Option (CheckpointTuple Value) :=
  (checkpointId.or (latestId d threadId ns)).bind fun id =>
    (d.checkpoints.get? (threadId, ns, id)).map (checkpointTuple loads d)

/-! ### The walk of a delta channel -/

/-- What WALK reads of one checkpoint for one channel. -/
structure WalkRow where
  checkpointId : Uuid
  parentCheckpointId : Option Uuid
  /-- The version of the channel that the checkpoint records. -/
  ver : Option String
  /-- Whether there is a blob of this version. -/
  hb : Bool
  /-- The value kept inline, where a JSON `null` counts as absent. -/
  inline : Option Json
  deriving Repr, DecidableEq

/-- The chain of a channel, newest first, and the seed that ends it. -/
structure Walked where
  chain : List Uuid
  seedVer : Option String := none
  seedInline : Option Json := none
  deriving Repr, DecidableEq

/-- `type <> 'empty'` of the blob of a version of a channel. -/
def hasBlob (d : Database) (threadId : Uuid) (ns channel version : String) : Bool :=
  match d.checkpointBlobs.get? (threadId, ns, channel, version) with
  | some b => b.type ≠ "empty"
  | none => false

/-- The row of WALK for a checkpoint. -/
def walkRow (d : Database) (channel : String) (c : Checkpoint) : WalkRow :=
  let ver := (c.checkpoint.get? "channel_versions").bind fun versions => versions.text? channel
  { checkpointId := c.checkpointId
    parentCheckpointId := c.parentCheckpointId
    ver := ver
    hb := ver.any (hasBlob d c.threadId c.checkpointNs channel)
    inline := ((c.checkpoint.get? "channel_values").bind fun values => values.get? channel).filter
      fun v => v ≠ .null }

/-- The rows of WALK: `ORDER BY checkpoint_id DESC`. -/
def walkRows (d : Database) (threadId : Uuid) (ns channel : String) : List WalkRow :=
  (((namespaceRows d threadId ns).insertionSort fun c c' =>
    OrderDual.toDual c.checkpointId ≤ OrderDual.toDual c'.checkpointId).map (walkRow d channel))

/-- The checkpoint carries a stored value of the channel. -/
def WalkRow.isSeed (row : WalkRow) : Bool := row.hb || row.inline.isSome

/-- The chain that WALK looks for: from a checkpoint back to, and including, the one that
carries a stored value, or back to the root.  A blob wins over an inline value.  There is
no chain when `fuel` steps are not enough. -/
def chainFrom (rows : List WalkRow) : ℕ → Option Uuid → Option Walked
  | 0, _ => none
  | _ + 1, none => some ⟨[], none, none⟩
  | fuel + 1, some id =>
    match rows.find? fun row => row.checkpointId = id with
    | none => some ⟨[], none, none⟩
    | some row =>
      if row.isSeed then some ⟨[id], row.ver, if row.hb then none else row.inline⟩
      else (chainFrom rows fuel row.parentCheckpointId).map fun walked =>
        { walked with chain := id :: walked.chain }

/-- The chain of a checkpoint.  It has at most as many steps as there are checkpoints,
unless the parents go round in a circle. -/
def ancestry (rows : List WalkRow) (target : Uuid) : Option Walked :=
  chainFrom rows (rows.length + 1) (some target)

/-- The documented behaviour of the helpers: the walk ends with the chain of the target. -/
def FollowsChain (walk : List WalkRow → Uuid → Walked) : Prop :=
  ∀ rows target walked, ancestry rows target = some walked → walk rows target = walked

/-- The walk that follows the chain where there is one. -/
def walkAncestry (rows : List WalkRow) (target : Uuid) : Walked :=
  (ancestry rows target).getD ⟨[], none, none⟩

theorem followsChain_walkAncestry : FollowsChain walkAncestry := by
  intro rows target walked h
  rw [walkAncestry, h, Option.getD_some]

/-! ### The history of a delta channel -/

/-- The writes of a delta channel, oldest first, and the value to apply them to. -/
structure DeltaChannelHistory (Value : Type) where
  writes : List (Uuid × String × Value) := []
  seed : Option (ChannelValue Value) := none
  deriving Repr, DecidableEq

section

variable {Value : Type} (walk : List WalkRow → Uuid → Walked) (loads : String → Option String → Value)

/-- The writes of a channel at a checkpoint, the last one first. -/
def channelWritesAt (d : Database) (threadId : Uuid) (ns channel : String) (checkpointId : Uuid) :
    List (Uuid × String × Value) :=
  (loadWrites loads ((writesAt d threadId ns checkpointId).filter fun w => w.channel = channel)).reverse

/-- The seed of a channel: the blob of its version, or else the value found inline. -/
def deltaSeed (d : Database) (threadId : Uuid) (ns channel : String) (walked : Walked) :
    Option (ChannelValue Value) :=
  walked.seedVer.bind fun version =>
    match d.checkpointBlobs.get? (threadId, ns, channel, version) with
    | some b => if b.type ≠ "empty" then some (.loaded (loads b.type b.blob))
      else walked.seedInline.map .inline
    | none => walked.seedInline.map .inline

/-- `_assemble_delta_history` for one channel, of the rows that FETCH returns. -/
def assembleDeltaHistory (d : Database) (threadId : Uuid) (ns channel : String) (walked : Walked) :
    DeltaChannelHistory Value where
  writes := (walked.chain.flatMap (channelWritesAt loads d threadId ns channel)).reverse
  seed := deltaSeed loads d threadId ns channel walked

/-- `aget_delta_channel_history`: the histories of the channels as of the given
checkpoint, or else the latest one. -/
def agetDeltaChannelHistory (d : Database) (threadId : Uuid) (ns : String)
    (checkpointId : Option Uuid) (channels : List String) :
    List (String × DeltaChannelHistory Value) :=
  match checkpointId.or (latestId d threadId ns) with
  | none => channels.map fun channel => (channel, {})
  | some target => channels.map fun channel => (channel,
      assembleDeltaHistory loads d threadId ns channel (walk (walkRows d threadId ns channel) target))

end

/-! ### The rows that a read depends on -/

def Checkpoint.moved (t : Uuid) (f : Json → Json) (c : Checkpoint) : Checkpoint :=
  { c with threadId := t, metadata := f c.metadata }

def CheckpointBlob.moved (t : Uuid) (b : CheckpointBlob) : CheckpointBlob := { b with threadId := t }

def CheckpointWrite.moved (t : Uuid) (w : CheckpointWrite) : CheckpointWrite :=
  { w with threadId := t }

/-- The tuple of a checkpoint on another thread. -/
def CheckpointTuple.moved {Value : Type} (t : Uuid) (f : Json → Json)
    (tuple : CheckpointTuple Value) : CheckpointTuple Value :=
  { tuple with threadId := t, metadata := f tuple.metadata }

/-- The thread `t'` of `d'` has the checkpoint rows that the thread `t` of `d` has, with
`f` applied to the metadata. -/
structure SameRows (f : Json → Json) (d : Database) (t : Uuid) (d' : Database) (t' : Uuid) :
    Prop where
  checkpoints : ∀ c', c' ∈ d'.checkpoints ∧ c'.threadId = t' ↔
    ∃ c ∈ d.checkpoints, c.threadId = t ∧ c.moved t' f = c'
  blobs : ∀ b', b' ∈ d'.checkpointBlobs ∧ b'.threadId = t' ↔
    ∃ b ∈ d.checkpointBlobs, b.threadId = t ∧ b.moved t' = b'
  writes : ∀ w', w' ∈ d'.checkpointWrites ∧ w'.threadId = t' ↔
    ∃ w ∈ d.checkpointWrites, w.threadId = t ∧ w.moved t' = w'

/-- The blobs of two threads, by namespace, channel and version. -/
def SameBlobs (d : Database) (t : Uuid) (d' : Database) (t' : Uuid) : Prop :=
  ∀ ns channel version, d'.checkpointBlobs.get? (t', ns, channel, version) =
    (d.checkpointBlobs.get? (t, ns, channel, version)).map (CheckpointBlob.moved t')

section

variable {f : Json → Json} {d d' : Database} {t t' : Uuid}

theorem SameRows.sameBlobs (h : SameRows f d t d' t') : SameBlobs d t d' t' := by
  intro ns channel version
  refine Table.get?_eq_map fun b' => ?_
  simp only [Keyed.key, Prod.mk.injEq]
  constructor
  · rintro ⟨hb', ht', hrest⟩
    obtain ⟨b, hb, ht, rfl⟩ := (h.blobs b').mp ⟨hb', ht'⟩
    exact ⟨b, hb, ⟨ht, hrest⟩, rfl⟩
  · rintro ⟨b, hb, ⟨ht, hrest⟩, rfl⟩
    exact ⟨((h.blobs _).mpr ⟨b, hb, ht, rfl⟩).1, rfl, hrest⟩

theorem SameRows.get?_checkpoints (h : SameRows f d t d' t') (ns : String) (id : Uuid) :
    d'.checkpoints.get? (t', ns, id) = (d.checkpoints.get? (t, ns, id)).map (Checkpoint.moved t' f) := by
  refine Table.get?_eq_map fun c' => ?_
  simp only [Keyed.key, Prod.mk.injEq]
  constructor
  · rintro ⟨hc', ht', hrest⟩
    obtain ⟨c, hc, ht, rfl⟩ := (h.checkpoints c').mp ⟨hc', ht'⟩
    exact ⟨c, hc, ⟨ht, hrest⟩, rfl⟩
  · rintro ⟨c, hc, ⟨ht, hrest⟩, rfl⟩
    exact ⟨((h.checkpoints _).mpr ⟨c, hc, ht, rfl⟩).1, rfl, hrest⟩

theorem SameRows.mem_namespaceRows (h : SameRows f d t d' t') {ns : String} {c' : Checkpoint} :
    c' ∈ namespaceRows d' t' ns ↔ ∃ c ∈ namespaceRows d t ns, c.moved t' f = c' := by
  simp only [NextRole.mem_namespaceRows]
  constructor
  · rintro ⟨hc', ht', hns⟩
    obtain ⟨c, hc, ht, rfl⟩ := (h.checkpoints c').mp ⟨hc', ht'⟩
    exact ⟨c, ⟨hc, ht, hns⟩, rfl⟩
  · rintro ⟨c, ⟨hc, ht, hns⟩, rfl⟩
    exact ⟨((h.checkpoints _).mpr ⟨c, hc, ht, rfl⟩).1, rfl, hns⟩

theorem SameRows.latestId (h : SameRows f d t d' t') (ns : String) :
    latestId d' t' ns = latestId d t ns := by
  have hids : ∀ id, id ∈ (namespaceRows d' t' ns).map Checkpoint.checkpointId ↔
      id ∈ (namespaceRows d t ns).map Checkpoint.checkpointId := by
    intro id
    simp only [List.mem_map, h.mem_namespaceRows]
    constructor
    · rintro ⟨_, ⟨c, hc, rfl⟩, hid⟩
      exact ⟨c, hc, hid⟩
    · rintro ⟨c, hc, hid⟩
      exact ⟨_, ⟨c, hc, rfl⟩, hid⟩
  ext id
  simp only [NextRole.latestId, List.max?_eq_some_iff, hids]

/-! ### Writes -/

theorem isOn_eq_true {threadId id : Uuid} {ns : String} {w : CheckpointWrite} :
    w.isOn threadId ns id = true ↔ w.threadId = threadId ∧ w.checkpointNs = ns ∧ w.checkpointId = id := by
  simp [CheckpointWrite.isOn, and_assoc]

/-- Two writes of a checkpoint with the same task and index are the same. -/
theorem eq_of_order {id : Uuid} {ns : String} {w w' : CheckpointWrite}
    (hw : w ∈ d.checkpointWrites.select (CheckpointWrite.isOn t ns id))
    (hw' : w' ∈ d.checkpointWrites.select (CheckpointWrite.isOn t ns id))
    (h : w.stored.order = w'.stored.order) : w = w' := by
  obtain ⟨hw, hon⟩ := Table.mem_select.mp hw
  obtain ⟨hw', hon'⟩ := Table.mem_select.mp hw'
  obtain ⟨ht, hns, hid⟩ := isOn_eq_true.mp hon
  obtain ⟨ht', hns', hid'⟩ := isOn_eq_true.mp hon'
  have horder : (w.taskId, w.idx) = (w'.taskId, w'.idx) := h
  simp only [Prod.mk.injEq] at horder
  refine Table.eq_of_key hw hw' ?_
  simp [Keyed.key, ht, ht', hns, hns', hid, hid', horder]

/-- The ordered writes of a checkpoint depend on the rows only. -/
theorem writesAt_congr {id : Uuid} {ns : String}
    (h : ∀ x, (∃ w' ∈ d'.checkpointWrites, w'.isOn t' ns id = true ∧ w'.stored = x) ↔
      ∃ w ∈ d.checkpointWrites, w.isOn t ns id = true ∧ w.stored = x) :
    writesAt d' t' ns id = writesAt d t ns id := by
  have hnodup : ∀ (e : Database) (k : Uuid),
      ((e.checkpointWrites.select (CheckpointWrite.isOn k ns id)).map CheckpointWrite.stored).Nodup :=
    fun e k => List.Nodup.map_on (fun a ha b hb hab => eq_of_order ha hb (congrArg StoredWrite.order hab))
      (e.checkpointWrites.nodup_select _)
  refine List.insertionSort_congr StoredWrite.order (hnodup d' t') (hnodup d t) ?_ fun x => ?_
  · intro a ha b hb hab
    obtain ⟨w, hw, rfl⟩ := List.mem_map.mp ha
    obtain ⟨w', hw', rfl⟩ := List.mem_map.mp hb
    rw [eq_of_order hw hw' hab]
  · simpa only [List.mem_map, Table.mem_select, and_assoc] using h x

theorem SameRows.writesAt (h : SameRows f d t d' t') (ns : String) (id : Uuid) :
    writesAt d' t' ns id = writesAt d t ns id := by
  refine writesAt_congr fun x => ?_
  simp only [isOn_eq_true]
  constructor
  · rintro ⟨w', hw', ⟨ht', hns, hid⟩, rfl⟩
    obtain ⟨w, hw, ht, rfl⟩ := (h.writes w').mp ⟨hw', ht'⟩
    exact ⟨w, hw, ⟨ht, hns, hid⟩, rfl⟩
  · rintro ⟨w, hw, ⟨ht, hns, hid⟩, rfl⟩
    exact ⟨_, ((h.writes _).mpr ⟨w, hw, ht, rfl⟩).1, ⟨rfl, hns, hid⟩, rfl⟩

/-! ### Blobs -/

theorem SameBlobs.hasBlob (h : SameBlobs d t d' t') (ns channel version : String) :
    hasBlob d' t' ns channel version = hasBlob d t ns channel version := by
  unfold NextRole.hasBlob
  rw [h]
  cases d.checkpointBlobs.get? (t, ns, channel, version) <;> rfl

theorem SameBlobs.walkRow (h : SameBlobs d t d' t') (channel : String) {c : Checkpoint}
    (hc : c.threadId = t) : walkRow d' channel (c.moved t' f) = walkRow d channel c := by
  have hver : ∀ version, NextRole.hasBlob d' t' c.checkpointNs channel version =
      NextRole.hasBlob d c.threadId c.checkpointNs channel version := by
    intro version
    rw [hc]
    exact h.hasBlob c.checkpointNs channel version
  simp only [NextRole.walkRow, Checkpoint.moved, funext hver]

variable {Value : Type} (loads : String → Option String → Value)

theorem SameBlobs.deltaSeed (h : SameBlobs d t d' t') (ns channel : String) (walked : Walked) :
    deltaSeed loads d' t' ns channel walked = deltaSeed loads d t ns channel walked := by
  unfold NextRole.deltaSeed
  refine congrArg _ (funext fun version => ?_)
  rw [h]
  cases d.checkpointBlobs.get? (t, ns, channel, version) <;> rfl

theorem SameBlobs.loadCheckpoint (h : SameBlobs d t d' t') {c : Checkpoint} (hc : c.threadId = t) :
    loadCheckpoint loads c.checkpoint (blobValues d' (c.moved t' f)) =
      loadCheckpoint loads c.checkpoint (blobValues d c) := by
  have hblobs : blobValues d' (c.moved t' f) = (blobValues d c).map (CheckpointBlob.moved t') := by
    rw [blobValues, blobValues, List.map_filterMap]
    refine List.filterMap_congr fun cv _ => ?_
    rw [hc]
    exact h c.checkpointNs cv.1 cv.2
  have hload : loadBlobs loads ((blobValues d c).map (CheckpointBlob.moved t')) =
      loadBlobs loads (blobValues d c) := by
    rw [loadBlobs, List.filter_map, List.map_map]
    rfl
  rw [hblobs, NextRole.loadCheckpoint, hload]
  rfl

theorem checkpointTuple_congr (h : SameBlobs d t d' t') {c : Checkpoint} (hc : c.threadId = t)
    (hwrites : writesAt d' t' c.checkpointNs c.checkpointId = writesAt d t c.checkpointNs c.checkpointId) :
    checkpointTuple loads d' (c.moved t' f) = (checkpointTuple loads d c).moved t' f := by
  have hvalues := h.loadCheckpoint loads (f := f) hc
  subst hc
  simp only [checkpointTuple, CheckpointTuple.moved, CheckpointTuple.mk.injEq]
  exact ⟨rfl, rfl, rfl, rfl, hvalues, rfl, rfl, congrArg (loadWrites loads) hwrites⟩

/-! ### Reads -/

/-- **A read depends on the rows of the thread only.** -/
theorem agetTuple_congr (h : SameRows f d t d' t') (ns : String) (id : Option Uuid) :
    agetTuple loads d' t' ns id = (agetTuple loads d t ns id).map (CheckpointTuple.moved t' f) := by
  rw [agetTuple, agetTuple, h.latestId, Option.map_bind]
  refine congrArg _ (funext fun id => ?_)
  simp only [Function.comp_apply, h.get?_checkpoints, Option.map_map]
  refine Option.map_congr fun c hc => ?_
  obtain ⟨hmem, -⟩ := get?_checkpoints_eq_some.mp hc
  exact checkpointTuple_congr loads h.sameBlobs (mem_namespaceRows.mp hmem).2.1 (h.writesAt _ _)

theorem SameRows.walkRows (h : SameRows f d t d' t') (ns channel : String) :
    walkRows d' t' ns channel = walkRows d t ns channel := by
  let key : Checkpoint → ℕᵒᵈ := fun c => OrderDual.toDual c.checkpointId
  have hkey : ∀ a ∈ namespaceRows d' t' ns, ∀ b ∈ namespaceRows d' t' ns, key a = key b → a = b := by
    intro a ha b hb hab
    have hid : a.checkpointId = b.checkpointId := hab
    exact Option.some.inj ((get?_checkpoints_eq_some.mpr ⟨ha, hid⟩).symm.trans
      (get?_checkpoints_eq_some.mpr ⟨hb, rfl⟩))
  have hinj : ∀ a ∈ namespaceRows d t ns, ∀ b ∈ namespaceRows d t ns,
      a.moved t' f = b.moved t' f → a = b := by
    intro a ha b hb hab
    have hid : (a.moved t' f).checkpointId = (b.moved t' f).checkpointId := by rw [hab]
    exact Option.some.inj ((get?_checkpoints_eq_some.mpr ⟨ha, hid⟩).symm.trans
      (get?_checkpoints_eq_some.mpr ⟨hb, rfl⟩))
  have hsorted : (namespaceRows d' t' ns).insertionSort (fun a b => key a ≤ key b) =
      ((namespaceRows d t ns).insertionSort fun a b => key a ≤ key b).map (Checkpoint.moved t' f) := by
    have hmap := List.map_insertionSort (fun a b => key a ≤ key b) (fun a b => key a ≤ key b)
      (Checkpoint.moved t' f) (namespaceRows d t ns) fun _ _ _ _ => Iff.rfl
    rw [hmap]
    refine List.insertionSort_congr key (d'.checkpoints.nodup_select _)
      (List.Nodup.map_on hinj (d.checkpoints.nodup_select _)) hkey fun c' => ?_
    rw [h.mem_namespaceRows, List.mem_map]
  have hrow : ∀ c ∈ (namespaceRows d t ns).insertionSort (fun a b => key a ≤ key b),
      walkRow d' channel (c.moved t' f) = walkRow d channel c := by
    intro c hc
    have hmem := (List.perm_insertionSort _ _).mem_iff.mp hc
    exact h.sameBlobs.walkRow channel (NextRole.mem_namespaceRows.mp hmem).2.1
  show List.map _ (List.insertionSort (fun a b => key a ≤ key b) _) = _
  rw [hsorted, List.map_map]
  exact List.map_congr_left hrow

/-- **So does the history of a delta channel.** -/
theorem agetDeltaChannelHistory_congr (walk : List WalkRow → Uuid → Walked)
    (h : SameRows f d t d' t') (ns : String) (id : Option Uuid) (channels : List String) :
    agetDeltaChannelHistory walk loads d' t' ns id channels =
      agetDeltaChannelHistory walk loads d t ns id channels := by
  have hassemble : ∀ channel walked, assembleDeltaHistory loads d' t' ns channel walked =
      assembleDeltaHistory loads d t ns channel walked := by
    intro channel walked
    have hwrites : channelWritesAt loads d' t' ns channel = channelWritesAt loads d t ns channel := by
      funext id
      rw [channelWritesAt, channelWritesAt, h.writesAt]
    rw [assembleDeltaHistory, assembleDeltaHistory, hwrites, h.sameBlobs.deltaSeed]
  simp only [agetDeltaChannelHistory, h.latestId, h.walkRows, hassemble]

end

end NextRole
