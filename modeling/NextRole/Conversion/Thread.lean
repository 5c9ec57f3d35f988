import NextRole.Lib.Grouping
import NextRole.Python
import NextRole.Schema

/-!
# A thread on the wire

`thread_to_proto` of the core (`_convert.py`) and `proto_to_thread` of the API
(`api/grpc/ops/threads.py`).  A text of JSON that is sent is represented by the value that it
stands for.

## Main definitions

* `Orjson`, `jsonBytes` — what is written of a value.
* `ThreadRow`, `ThreadMessage`, `ApiThread` — a row, the message and the dictionary of the API.
* `threadToProto` — the encoder; `none` is an exception.
* `fragmentToValue`, `protoInterruptsToDict`, `protoToThread` — the decoder.
-/

namespace NextRole

/-- `orjson.dumps`, as the value that its text stands for; `none` is an exception, as of an integer
of more than 64 bits.  The keys of a dictionary may be sorted. -/
structure Orjson where
  dumps : Json → Option Json
  equal : ∀ {j j'}, dumps j = some j' → j.Equal j'
  null : dumps .null = some .null
  empty : dumps (.obj []) = some (.obj [])

/-- `json_bytes`. -/
def jsonBytes (orjson : Orjson) (obj : Json) : Option Json :=
  orjson.dumps (if obj = .null then .obj [] else obj)

/-- A `Fragment`; `none` has no text. -/
abbrev Fragment := Option Json

/-! ### Rows, messages and dictionaries -/

/-- An interrupt in the column of a row, or in a dictionary of the API.  A key that is missing or
null is `none`. -/
structure Interrupt where
  id : Option String := none
  value : Json := .null
  when : Option String := none
  resumable : Option Bool := none
  ns : Option (List String) := none
  deriving DecidableEq

/-- An `Interrupt` of the proto; its optional fields may be set or not. -/
structure InterruptMessage where
  id : Option String := none
  value : Json
  when : Option String := none
  resumable : Option Bool := none
  ns : List String := []
  deriving DecidableEq

/-- A row of `thread` as the service reads it: NULL and the JSON value `null` are one. -/
structure ThreadRow where
  threadId : Uuid
  status : Option ThreadStatus := none
  createdAt : Option Timestamp := none
  updatedAt : Option Timestamp := none
  stateUpdatedAt : Option Timestamp := none
  metadata : Json := .null
  config : Json := .null
  values : Json := .null
  /-- The text in the column `error`, which is of bytes. -/
  error : Option Json := none
  interrupts : Dict String (List Interrupt) := {}

/-- A `Thread` of the proto. -/
structure ThreadMessage where
  threadId : Option Uuid
  status : ThreadStatus
  createdAt : Option Timestamp
  updatedAt : Option Timestamp
  stateUpdatedAt : Option Timestamp
  metadata : Fragment
  config : Fragment
  values : Fragment
  error : Fragment
  interrupts : Dict String (List InterruptMessage)

/-- The dictionary of the API. -/
structure ApiThread where
  threadId : Uuid
  createdAt : Option Timestamp
  updatedAt : Option Timestamp
  stateUpdatedAt : Option Timestamp
  metadata : Json
  config : Json
  error : Json
  status : ThreadStatus
  values : Json
  interrupts : Dict String (List Interrupt)

/-! ### The encoder -/

/-- One interrupt of `thread_to_proto`. -/
def interruptToProto (orjson : Orjson) (it : Interrupt) : Option InterruptMessage := do
  let value ← jsonBytes orjson it.value
  some {
    id := it.id
    value := value
    when := it.when
    resumable := it.resumable
    -- `if it.get("ns")`
    ns := it.ns.getD [] }

/-- `if row.get("values") is not None`. -/
def valuesToProto (orjson : Orjson) (values : Json) : Option Fragment :=
  if values = .null then some none else (jsonBytes orjson values).map some

/-- `thread_to_proto`. -/
def threadToProto (orjson : Orjson) (row : ThreadRow) : Option ThreadMessage := do
  let metadata ← jsonBytes orjson row.metadata
  let config ← jsonBytes orjson row.config
  let values ← valuesToProto orjson row.values
  let interrupts ← row.interrupts.mapValues? fun items => items.mapM (interruptToProto orjson)
  some {
    threadId := some row.threadId
    status := row.status.getD .idle
    createdAt := row.createdAt
    updatedAt := row.updatedAt
    stateUpdatedAt := row.stateUpdatedAt
    metadata := some metadata
    config := some config
    values := values
    error := row.error
    interrupts := interrupts }

/-! ### The decoder -/

/-- `fragment_to_value`. -/
def fragmentToValue : Fragment → Json
  | none => .null
  | some value => if value = .obj [] then .null else value

/-- One interrupt of `_proto_interrupts_to_dict`. -/
def protoInterruptToDict (interrupt : InterruptMessage) : Interrupt where
  id := interrupt.id.filter (· ≠ "")
  value := interrupt.value
  when := interrupt.when.filter (· ≠ "")
  resumable := interrupt.resumable.filter (· = true)
  ns := if interrupt.ns = [] then none else some interrupt.ns

/-- `_proto_interrupts_to_dict`. -/
def protoInterruptsToDict (interrupts : Dict String (List InterruptMessage)) :
    Dict String (List Interrupt) :=
  interrupts.mapValues fun entry => entry.map protoInterruptToDict

/-- `proto_to_thread`, of a message without `extracted_json` and `ttl`; `none` is the answer for
a message without an id. -/
def protoToThread (proto : ThreadMessage) : Option ApiThread :=
  proto.threadId.map fun threadId => {
    threadId := threadId
    createdAt := proto.createdAt
    updatedAt := proto.updatedAt
    stateUpdatedAt := proto.stateUpdatedAt
    metadata := orElse (fragmentToValue proto.metadata) (.obj [])
    config := orElse (fragmentToValue proto.config) (.obj [])
    error := fragmentToValue proto.error
    status := proto.status
    values := fragmentToValue proto.values
    interrupts := protoInterruptsToDict proto.interrupts }

end NextRole
