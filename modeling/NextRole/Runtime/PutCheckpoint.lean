import Mathlib.Algebra.Group.Int.Defs
import NextRole.Lib.Dict
import NextRole.Runtime.Ingestion

/-!
# The channels of a checkpoint

`aput` of `runtime_postgres/checkpoint.py`: primitives stay in the JSON document of a checkpoint,
which is written by `json_dumpb`; other values are stored as blobs of the versions that the call
names, and a delta snapshot leaves a placeholder in the document.

## Main definitions

* `TypedSerializer` — the serializer of blobs.
* `storedText`, `Primitive.dumped` — what `json_dumpb` leaves of a text and of a primitive.
* `ChannelPut`, `AputCall` — a value of a channel, and a call of `aput`.
* `AputCall.row`, `AputCall.blobs` — its rows.
* `putBatch`, `putBatches` — batches of calls; a batch of one call is a direct one.
-/

namespace NextRole

/-- The serializer, which reads back what it wrote, and marks nothing as empty. -/
structure TypedSerializer (Value : Type) where
  dumpsTyped : Value → String × String
  loadsTyped : String → Option String → Value
  loads_dumps : ∀ v, loadsTyped (dumpsTyped v).1 (some (dumpsTyped v).2) = v
  type_ne_empty : ∀ v, (dumpsTyped v).1 ≠ "empty"

/-! ### Primitives as JSON -/

/-- The character U+0000 becomes U+FFFD, and so does its escape, which `json_dumpb` replaces
wherever it finds it in the bytes. -/
def withoutNul : List Char → List Char
  | '\\' :: 'u' :: '0' :: '0' :: '0' :: '0' :: cs =>
    '\\' :: 'u' :: 'f' :: 'f' :: 'f' :: 'd' :: withoutNul cs
  | c :: cs => (if c = '\x00' then '\uFFFD' else c) :: withoutNul cs
  | [] => []

/-- What `json_dumpb` leaves of a text. -/
def storedText (s : String) : String := String.ofList (withoutNul s.toList)

/-- A number of the type `float`. -/
inductive PyFloat
  | finite (q : Rat)
  | inf
  | negInf
  | nan
  deriving Repr, DecidableEq

/-- A value for which `v is None or isinstance(v, str | int | float | bool)`. -/
inductive Primitive
  | none
  | bool (b : Bool)
  | int (n : ℤ)
  | float (x : PyFloat)
  | str (s : String)
  deriving Repr, DecidableEq

/-- The JSON value that a primitive is, if there is one. -/
def Primitive.json : Primitive → Option Json
  | .none => some .null
  | .bool b => some (.bool b)
  | .int n => some (.num n)
  | .float (.finite q) => some (.num q)
  | .float _ => Option.none
  | .str s => some (.str s)

/-- The JSON value that `json_dumpb` writes; `none` is an integer of more than 64 bits, which
raises. -/
def Primitive.dumped : Primitive → Option Json
  | .none => some .null
  | .bool b => some (.bool b)
  | .int n => if -2 ^ 63 ≤ n ∧ n < 2 ^ 64 then some (.num n) else Option.none
  | .float (.finite q) => some (.num q)
  | .float _ => some .null
  | .str s => some (.str (storedText s))

/-! ### Calls -/

/-- A value of a channel: a primitive, a `_DeltaSnapshot`, or anything else. -/
inductive ChannelPut (Value : Type)
  | primitive (p : Primitive)
  | deltaSnapshot (v : Value)
  | object (v : Value)

section

variable {Value : Type}

/-- What stays of a value in the document: a primitive, or the placeholder of a snapshot. -/
def ChannelPut.inline : ChannelPut Value → Option Primitive
  | .primitive p => some p
  | .deltaSnapshot _ => some (.bool true)
  | .object _ => none

/-- The value that goes to a blob. -/
def ChannelPut.blobValue : ChannelPut Value → Option Value
  | .primitive _ => none
  | .deltaSnapshot v => some v
  | .object v => some v

/-- A call of `aput`; `others` are the fields of the checkpoint next to its channels, and the
metadata are those that the call merges. -/
structure AputCall (Value : Type) where
  runId : Option Uuid := none
  threadId : Uuid
  checkpointNs : String := ""
  parentCheckpointId : Option Uuid := none
  checkpointId : Uuid
  others : List (String × Json) := []
  channelValues : Dict String (ChannelPut Value) := {}
  channelVersions : Dict String String := {}
  metadata : Json := .obj []
  nextVersions : Dict String String := {}

variable (serde : TypedSerializer Value)

/-- `copy["channel_values"]` without what goes to blobs. -/
def AputCall.inlinePart (call : AputCall Value) : List (String × Primitive) :=
  call.channelValues.entries.filterMap fun e => e.2.inline.map fun p => (e.1, p)

/-- The row of the checkpoint. -/
def AputCall.row (call : AputCall Value) : Option Checkpoint :=
  (call.inlinePart.mapM fun e : String × Primitive =>
      e.2.dumped.map fun j => (storedText e.1, j)).map fun values => {
    threadId := call.threadId
    checkpointNs := call.checkpointNs
    checkpointId := call.checkpointId
    runId := call.runId
    parentCheckpointId := call.parentCheckpointId
    checkpoint := .obj (("channel_values", .obj values) ::
      ("channel_versions", .obj (call.channelVersions.entries.map fun e =>
        (storedText e.1, .str (storedText e.2)))) :: call.others)
    metadata := call.metadata }

/-- The value of a channel that goes to a blob. -/
def AputCall.blobValue (call : AputCall Value) (channel : String) : Option Value :=
  (call.channelValues.get? channel).bind ChannelPut.blobValue

/-- The blob of a value. -/
def AputCall.blobOf (call : AputCall Value) (channel version : String) (v : Value) :
    CheckpointBlob where
  threadId := call.threadId
  checkpointNs := call.checkpointNs
  channel := channel
  version := version
  type := (serde.dumpsTyped v).1
  blob := some (serde.dumpsTyped v).2

/-- `_dump_blobs` for `blob_versions`. -/
def AputCall.blobs (call : AputCall Value) : List CheckpointBlob :=
  call.nextVersions.entries.filterMap fun e =>
    (call.blobValue e.1).map (call.blobOf serde e.1 e.2)

/-- The rows of a call.  The document is written with the rows of its batch, which fails if the
document does. -/
def AputCall.item (call : AputCall Value) : Option CheckpointQueueItem :=
  call.row.map fun row => ⟨.put row :: (call.blobs serde).map .blob⟩

/-- The database with the calls that were written.  A batch that fails writes nothing. -/
def putBatch (storable : QueueItem → Bool) (s : Database × List (AputCall Value))
    (batch : List (AputCall Value)) : Database × List (AputCall Value) :=
  match (batch.mapM (AputCall.item serde)).bind fun items => ingestBatch storable items s.1 with
  | none => s
  | some d => (d, s.2 ++ batch)

/-- The database and the calls that were written, from a database without checkpoints. -/
def putBatches (storable : QueueItem → Bool) (d : Database) (batches : List (List (AputCall Value))) :
    Database × List (AputCall Value) :=
  batches.foldl (putBatch serde storable)
    ({ d with checkpoints := .empty, checkpointBlobs := .empty }, [])

end

end NextRole
