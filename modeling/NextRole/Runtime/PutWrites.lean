import NextRole.Lib.Upsert
import NextRole.Runtime.PutCheckpoint

/-!
# The writes of tasks

`aput_writes` of `runtime_postgres/checkpoint.py`: `_dump_writes` numbers the writes of a task by
their position, or by their channel where that is a special one, and the rows are upserted, over
the connection of the saver or in a batch of the queue.

## Main definitions

* `WriteFormat` — the serializer and the numbers of special channels.
* `PutWrites`, `dumpWrites` — a call of `aput_writes` and its rows.
* `SaverCall`, `SaverStep`, `saverStep` — calls, and what is stored at once.
* `SlotPut`, `pendingWritesBy` — what was put to a slot, and what a read would return of it.
-/

namespace NextRole

/-- The serializer and `WRITES_IDX_MAP`. -/
structure WriteFormat (Value : Type) extends TypedSerializer Value where
  writesIdxMap : String → Option ℤ

/-- A slot: the key of a row of `checkpoint_writes`. -/
abbrev Slot := Uuid × String × Uuid × Uuid × ℤ

/-- A write of a task, at the slot that it is numbered for. -/
structure SlotPut (Value : Type) where
  slot : Slot
  channel : String
  value : Value

instance (Value : Type) : Keyed (SlotPut Value) Slot := ⟨SlotPut.slot⟩

/-- A call of `aput_writes`. -/
structure PutWrites (Value : Type) where
  threadId : Uuid
  checkpointNs : String
  checkpointId : Uuid
  taskId : Uuid
  writes : List (String × Value)

section

variable {Value : Type} (format : WriteFormat Value)

/-- The writes of a call at their slots. -/
def PutWrites.puts (call : PutWrites Value) : List (SlotPut Value) :=
  call.writes.zipIdx.map fun w => {
    slot := (call.threadId, call.checkpointNs, call.checkpointId, call.taskId,
      (format.writesIdxMap w.1.1).getD w.2)
    channel := w.1.1
    value := w.1.2 }

/-- The row of a write. -/
def SlotPut.row (put : SlotPut Value) : CheckpointWrite where
  threadId := put.slot.1
  checkpointNs := put.slot.2.1
  checkpointId := put.slot.2.2.1
  taskId := put.slot.2.2.2.1
  idx := put.slot.2.2.2.2
  channel := put.channel
  type := (format.dumpsTyped put.value).1
  blob := (format.dumpsTyped put.value).2

/-- `_dump_writes`. -/
def dumpWrites (call : PutWrites Value) : List CheckpointWrite :=
  (call.puts format).map (SlotPut.row format)

/-- A call of the saver: `aput_writes`, or `aput` with the blobs of a checkpoint. -/
inductive SaverCall (Value : Type)
  | aputWrites (call : PutWrites Value)
  | aput (checkpoint : Checkpoint) (blobs : List CheckpointBlob)

/-- The rows of a call. -/
def SaverCall.item : SaverCall Value → CheckpointQueueItem
  | .aputWrites call => ⟨(dumpWrites format call).map .write⟩
  | .aput checkpoint blobs => ⟨.put checkpoint :: blobs.map .blob⟩

/-- The writes of a call at their slots. -/
def SaverCall.puts : SaverCall Value → List (SlotPut Value)
  | .aputWrites call => call.puts format
  | .aput _ _ => []

/-- A call over the connection of the saver, or a batch of the queue. -/
inductive SaverStep (Value : Type)
  | direct (call : SaverCall Value)
  | batch (calls : List (SaverCall Value))

def SaverStep.calls : SaverStep Value → List (SaverCall Value)
  | .direct call => [call]
  | .batch calls => calls

/-- The database after a step that does not fail. -/
def SaverStep.execute (storable : QueueItem → Bool) (d : Database) :
    SaverStep Value → Option Database
  | .direct call => executePutsDirect storable d (call.item format)
  | .batch calls => ingestBatch storable (calls.map fun call => call.item format) d

/-- The database with what was put so far.  A step that fails stores nothing. -/
def saverStep (storable : QueueItem → Bool) (s : Database × List (SlotPut Value))
    (step : SaverStep Value) : Database × List (SlotPut Value) :=
  match step.execute format storable s.1 with
  | none => s
  | some d => (d, s.2 ++ step.calls.flatMap (SaverCall.puts format))

/-- The database and what was put after some steps, from a database without writes. -/
def saverAfter (storable : QueueItem → Bool) (d : Database) (steps : List (SaverStep Value)) :
    Database × List (SlotPut Value) :=
  steps.foldl (saverStep format storable) ({ d with checkpointWrites := .empty }, [])

end

/-! ### What a read is to return -/

/-- The slots of a checkpoint that were put, in the order of a read. -/
def slotsAt {Value : Type} (puts : List (SlotPut Value)) (threadId : Uuid) (ns : String)
    (checkpointId : Uuid) : List (ℕ ×ₗ ℤ) :=
  ((puts.filter fun p => p.slot.1 = threadId ∧ p.slot.2.1 = ns ∧
    p.slot.2.2.1 = checkpointId).map fun p => toLex p.slot.2.2.2).dedup.insertionSort (· ≤ ·)

/-- What a read returns if each slot that was put has the write that `pick` gives for it. -/
def pendingWritesBy {Value : Type} (pick : Slot → Option (SlotPut Value))
    (puts : List (SlotPut Value)) (threadId : Uuid) (ns : String) (checkpointId : Uuid) :
    List (Uuid × String × Value) :=
  (slotsAt puts threadId ns checkpointId).filterMap fun slot =>
    (pick (threadId, ns, checkpointId, ofLex slot)).map fun p =>
      ((ofLex slot).1, p.channel, p.value)

end NextRole
