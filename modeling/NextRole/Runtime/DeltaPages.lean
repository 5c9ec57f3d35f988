import Mathlib.Data.List.Dedup
import NextRole.Lib.Ancestors
import NextRole.Runtime.Checkpoint

/-!
# The history of a delta channel, page by page

`aget_delta_channel_history` of `runtime_postgres/checkpoint.py`: WALK reads the checkpoints of a
namespace page by page, the newest first, and after each page the walk of each channel goes on
along the parents that were recorded; FETCH reads the writes and the seeds of all channels at once,
and `_assemble_delta_history` puts them together.

`_try_advance_walks` is not part of the repository.  It is a parameter here, and so is the order in
which PostgreSQL returns the rows of a `UNION ALL`.  No encryption is configured.

## Main definitions

* `StageRow`, `stagePage` — the rows of WALK.
* `followParents`, `DeltaHelpers` — what the walks are after some pages.
* `walkLoop` — the loop over the pages.
* `DeltaFetchRow`, `fetchRows`, `assembleHistory` — FETCH and what is made of it.
* `agetDeltaHistory` — `aget_delta_channel_history`.
-/

namespace NextRole

/-! ### WALK -/

/-- A row of WALK, with the columns `ver_i`, `hb_i` and `inline_i` of each channel. -/
structure StageRow where
  checkpointId : Uuid
  parentCheckpointId : Option Uuid
  readings : List (String × Option String × Bool × Option Json)

/-- The columns of one channel. -/
def StageRow.reading (row : StageRow) (channel : String) : WalkRow :=
  let columns := (row.readings.lookup channel).getD (none, false, none)
  { checkpointId := row.checkpointId
    parentCheckpointId := row.parentCheckpointId
    ver := columns.1
    hb := columns.2.1
    inline := columns.2.2 }

/-- The row of WALK for a checkpoint. -/
def stageRow (d : Database) (channels : List String) (c : Checkpoint) : StageRow where
  checkpointId := c.checkpointId
  parentCheckpointId := c.parentCheckpointId
  readings := channels.map fun channel =>
    let row := walkRow d channel c
    (channel, row.ver, row.hb, row.inline)

/-- The checkpoints of a namespace, `ORDER BY checkpoint_id DESC`. -/
def newestFirst (d : Database) (threadId : Uuid) (ns : String) : List Checkpoint :=
  (namespaceRows d threadId ns).insertionSort fun c c' =>
    OrderDual.toDual c.checkpointId ≤ OrderDual.toDual c'.checkpointId

/-- A page of WALK: the newest checkpoints before the cursor. -/
def stagePage (d : Database) (threadId : Uuid) (ns : String) (channels : List String)
    (pageSize : ℕ) (cursor : Option Uuid) : List StageRow :=
  (((newestFirst d threadId ns).filter fun c => cursor.all fun id => c.checkpointId < id).take
    pageSize).map (stageRow d channels)

/-! ### The walks -/

/-- No checkpoint is its own ancestor. -/
def IsTree (rows : List StageRow) : Prop :=
  ∃ rank : Uuid → ℕ, ∀ row ∈ rows, ∀ parent, row.parentCheckpointId = some parent →
    rank parent < rank row.checkpointId

/-- The walk of a channel along the parents that were recorded, from the parent of the target. -/
def followParents (rows : List StageRow) (target : Uuid) (channel : String) : Walked :=
  match rows.find? fun row => row.checkpointId = target with
  | none => ⟨[], none, none⟩
  | some row =>
    (chainFrom (rows.map fun row => row.reading channel) (rows.length + 1)
      row.parentCheckpointId).getD ⟨[], none, none⟩

/-- The row of a checkpoint, of those that were recorded. -/
def findRow (rows : List WalkRow) (id : Uuid) : Option WalkRow :=
  rows.find? fun row => row.checkpointId = id

/-- The walk of a channel ends among the recorded rows, at a stored value or at the root. -/
def WalkEnds (rows : List StageRow) (target : Uuid) (channel : String) : Prop :=
  ∃ row ∈ rows.find? fun row => row.checkpointId = target,
    AncestryEnds (findRow (rows.map fun row => row.reading channel)) WalkRow.parentCheckpointId
      WalkRow.isSeed row.parentCheckpointId

/-- The walks after some pages, each of which is recorded before the walks go on. -/
def advancePages {σ : Type} (advance : List StageRow → σ → σ) (start : σ)
    (pages : List (List StageRow)) : List StageRow × σ :=
  pages.foldl (fun s page => (s.1 ++ page, advance (s.1 ++ page) s.2)) ([], start)

/-- `_try_advance_walks`, with what it keeps of the walks; and the order of a `UNION ALL`.  A
channel is in the set `seeded` only when its walk has ended. -/
structure DeltaHelpers where
  Walks : Type
  start : Walks
  /-- `_try_advance_walks`, of the rows that were recorded. -/
  tryAdvanceWalks : Uuid → List String → List StageRow → Walks → Walks
  /-- The entries of `chain_by_ch`, `seed_ver_by_ch` and `seed_inline_by_ch`. -/
  walked : Walks → String → Walked
  follows : ∀ target channels (pages : List (List StageRow)), IsTree pages.flatten →
    ∀ channel ∈ channels,
      walked (advancePages (tryAdvanceWalks target channels) start pages).2 channel =
        followParents pages.flatten target channel
  /-- The channel is in the set `seeded`. -/
  seeded : Walks → String → Bool
  seeded_ends : ∀ target channels (pages : List (List StageRow)), IsTree pages.flatten →
    ∀ channel ∈ channels,
      seeded (advancePages (tryAdvanceWalks target channels) start pages).2 channel = true →
        WalkEnds pages.flatten target channel
  unionOrder : {α : Type} → List α → List α
  union_perm : ∀ {α : Type} (rows : List α), (unionOrder rows).Perm rows

variable (helpers : DeltaHelpers)

/-- `len(seeded) == len(channels)`. -/
def DeltaHelpers.allSeeded (channels : List String) (walks : helpers.Walks) : Bool :=
  (channels.dedup.filter (helpers.seeded walks)).length = channels.length

/-- The loop over the pages, of at most `fuel` pages.  `_ingest_stage1_page` records a page and
returns its oldest checkpoint. -/
def walkLoop (d : Database) (threadId : Uuid) (ns : String) (channels : List String)
    (pageSize : ℕ) (target : Uuid) : ℕ → List StageRow → helpers.Walks → Option Uuid →
      helpers.Walks
  | 0, _, walks, _ => walks
  | fuel + 1, recorded, walks, cursor =>
    let page := stagePage d threadId ns channels pageSize cursor
    if page = [] then walks
    else
      let recorded := recorded ++ page
      let walks := helpers.tryAdvanceWalks target channels recorded walks
      if helpers.allSeeded channels walks || page.length < pageSize then walks
      else
        walkLoop d threadId ns channels pageSize target fuel recorded walks
          (page.map StageRow.checkpointId).min?

/-! ### FETCH -/

/-- A row of FETCH: a write, or the blob of a seed. -/
inductive DeltaFetchRow
  | write (w : CheckpointWrite)
  | seed (b : CheckpointBlob)

/-- The branches of FETCH: the writes of each channel that has a chain, and the blob of each
channel that has a seed version. -/
def fetchRows (d : Database) (threadId : Uuid) (ns : String) (channels : List String)
    (walked : String → Walked) : List DeltaFetchRow :=
  ((channels.filter fun channel => (walked channel).chain ≠ []).flatMap fun channel =>
    (d.checkpointWrites.select fun w => w.threadId = threadId && w.checkpointNs = ns &&
      w.channel = channel && (walked channel).chain.contains w.checkpointId).map .write) ++
  ((channels.filter fun channel => (walked channel).seedVer.isSome).flatMap fun channel =>
    (d.checkpointBlobs.select fun b => b.threadId = threadId && b.checkpointNs = ns &&
      b.channel = channel && some b.version = (walked channel).seedVer).map .seed)

/-- The write of a row, if it is in `writes_by_ch_by_cid[ch][cid]`. -/
def DeltaFetchRow.write? (channel : String) (checkpointId : Uuid) :
    DeltaFetchRow → Option StoredWrite
  | write w =>
    if w.channel = channel ∧ w.checkpointId = checkpointId then some w.stored else none
  | seed _ => none

/-- The blob of a row, if it is put at `seed_blob_by_ver[ch, ver]`. -/
def DeltaFetchRow.seed? (channel version : String) : DeltaFetchRow → Option CheckpointBlob
  | write _ => none
  | seed b => if b.channel = channel ∧ b.version = version then some b else none

/-- The writes of a channel at a checkpoint, `ws.sort(…, reverse=True)`. -/
def fetchedWrites (rows : List DeltaFetchRow) (channel : String) (checkpointId : Uuid) :
    List StoredWrite :=
  (rows.filterMap (DeltaFetchRow.write? channel checkpointId)).insertionSort fun w w' =>
    w'.order ≤ w.order

/-- `seed_blob_by_ver.get((ch, seed_version))`, where the last row of a key stays. -/
def fetchedSeed (rows : List DeltaFetchRow) (channel version : String) : Option CheckpointBlob :=
  (rows.filterMap (DeltaFetchRow.seed? channel version)).getLast?

section

variable {Value : Type} (loads : String → Option String → Value)

/-- The entry of `_assemble_delta_history` for a channel. -/
def assembleHistory (rows : List DeltaFetchRow) (walked : Walked) (channel : String) :
    DeltaChannelHistory Value where
  writes := (walked.chain.flatMap fun checkpointId =>
    (fetchedWrites rows channel checkpointId).map fun w =>
      (w.taskId, channel, loads w.type (some w.blob))).reverse
  seed := walked.seedVer.bind fun version =>
    match (fetchedSeed rows channel version).filter fun b => b.type ≠ "empty" with
    | some b => some (.loaded (loads b.type b.blob))
    | none => walked.seedInline.map .inline

/-- `aget_delta_channel_history`. -/
def agetDeltaHistory (d : Database) (threadId : Uuid) (ns : String) (checkpointId : Option Uuid)
    (channels : List String) (pageSize : ℕ) : List (String × DeltaChannelHistory Value) :=
  match checkpointId.or (latestId d threadId ns) with
  | none => channels.map fun channel => (channel, {})
  | some target =>
    let walks := walkLoop helpers d threadId ns channels pageSize target
      ((namespaceRows d threadId ns).length + 1) [] helpers.start none
    let rows := helpers.unionOrder
      (fetchRows d threadId ns channels (helpers.walked walks))
    channels.map fun channel =>
      (channel, assembleHistory loads rows (helpers.walked walks channel) channel)

end

end NextRole
