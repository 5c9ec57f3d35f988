import NextRole.Filters

/-!
# The Assistants service

The calls of `core_server/servicers/assistants.py` on the tables `assistant` and
`assistant_versions`: a creation with a first version, a patch that adds one, the return
to an earlier one, a deletion, and reading.  A call that fails leaves the tables as they were.

## Main definitions

* `AssistantRow`, `AssistantVersion`, `AssistantTables` — the rows and the tables.
* `Assistants.create`, `Assistants.patch`, `Assistants.setLatest`, `Assistants.get` — the calls.
* `AssistantCall`, `AssistantTables.execute` — the calls that write versions, one at a time.
* `Backend`, `Assistants.delete` — the deletion, with that of the threads of an assistant.
* `AssistantChange` — what a call leaves.

## Main results

* `change_execute` — the list of changes is complete.
-/

namespace NextRole

/-! ### Rows -/

/-- A row of `assistant`, with the columns that only this service uses. -/
structure AssistantRow extends Assistant where
  createdAt : Timestamp := 0
  updatedAt : Timestamp := 0
  version : ℕ := 1
  name : Option String := none
  description : Option String := none
  context : Option Json := none
  deriving Repr, DecidableEq

/-- A row of `assistant_versions`. -/
structure AssistantVersion where
  assistantId : Uuid
  version : ℕ := 1
  graphId : String
  config : Json := .obj []
  metadata : Json := .obj []
  createdAt : Timestamp := 0
  name : Option String := none
  description : Option String := none
  context : Option Json := none
  deriving Repr, DecidableEq

instance : Keyed AssistantRow Uuid := ⟨fun a => a.assistantId⟩
instance : Keyed AssistantVersion (Uuid × ℕ) := ⟨fun v => (v.assistantId, v.version)⟩

@[simp] theorem key_assistantRow (a : AssistantRow) : Keyed.key a = a.assistantId := rfl
@[simp] theorem key_assistantVersion (v : AssistantVersion) :
    Keyed.key v = (v.assistantId, v.version) := rfl

structure AssistantTables where
  assistant : Table AssistantRow := .empty
  assistantVersions : Table AssistantVersion := .empty
  deriving DecidableEq

/-- The columns of the table `assistant` that the other services read. -/
def AssistantTables.assistants (s : AssistantTables) : Table Assistant :=
  s.assistant.map AssistantRow.toAssistant fun _ => rfl

/-! ### Failures -/

/-- The gRPC status codes of this service. -/
inductive StatusCode
  | notFound | invalidArgument | alreadyExists
  deriving Repr, DecidableEq

/-- `context.abort`. -/
structure RpcError where
  code : StatusCode
  details : String
  deriving Repr, DecidableEq

/-- A reply with the tables that the call leaves; an aborted call leaves them alone. -/
abbrev AssistantReply := Except RpcError (AssistantRow × AssistantTables)

def assistantNotFound (assistantId : Uuid) : RpcError :=
  ⟨.notFound, "Assistant " ++ assistantId.text ++ " not found"⟩

/-- `_registered_graphs` with its test: no list, no restriction. -/
def registered (graphs : Option (List String)) (graphId : String) : Bool :=
  graphs.all fun ids => ids.contains graphId

/-! ### Create -/

/-- The values of `if_exists`. -/
inductive OnConflictBehavior
  | raise | doNothing
  deriving Repr, DecidableEq

/-- A `CreateAssistantRequest`, with the parsed texts of its fields. -/
structure CreateAssistantRequest where
  assistantId : Uuid
  graphId : String
  config : Option Json := none
  /-- `none` is an empty text. -/
  contextJson : Option Json := none
  metadataJson : Option Json := none
  name : String := ""
  description : Option String := none
  ifExists : OnConflictBehavior := .raise
  deriving Repr, DecidableEq

/-- `_merge_config_context`: what is configurable and the context are the same. -/
def mergeConfigContext (config context : Json) : Json × Json :=
  if truthy (config.get? "configurable") && truthy (some context) then (config, context)
  else if truthy (config.get? "configurable") then
    (config, (config.get? "configurable").getD .null)
  else if truthy (some context) then (config.set "configurable" context, context)
  else (config, context)

/-- The row that `Create` inserts. -/
def CreateAssistantRequest.row (request : CreateAssistantRequest) (now : Timestamp) : AssistantRow :=
  let merged := mergeConfigContext (request.config.getD (.obj [])) (request.contextJson.getD (.obj []))
  { assistantId := request.assistantId
    graphId := request.graphId
    config := merged.1
    context := some merged.2
    metadata := request.metadataJson.getD (.obj [])
    name := some request.name
    description := request.description
    createdAt := now
    updatedAt := now }

/-- The version row of an assistant. -/
def AssistantRow.versionRow (a : AssistantRow) (now : Timestamp) : AssistantVersion where
  assistantId := a.assistantId
  version := a.version
  graphId := a.graphId
  config := a.config
  metadata := a.metadata
  createdAt := now
  name := a.name
  description := a.description
  context := a.context

/-- `Create`.  Both insertions are one statement with `ON CONFLICT DO NOTHING`. -/
def Assistants.create (graphs : Option (List String)) (request : CreateAssistantRequest)
    (now : Timestamp) (s : AssistantTables) : AssistantReply :=
  if !registered graphs request.graphId then
    .error ⟨.invalidArgument,
      "Graph '" ++ request.graphId ++ "' not found among registered graphs"⟩
  else if truthy ((request.config.getD (.obj [])).get? "configurable") &&
      truthy (some (request.contextJson.getD (.obj []))) then
    .error ⟨.invalidArgument, "Cannot specify both configurable and context."⟩
  else
    match s.assistant.get? request.assistantId with
    | none =>
      .ok (request.row now, {
        assistant := s.assistant.put (request.row now)
        assistantVersions := s.assistantVersions.insertNew ((request.row now).versionRow now) })
    | some a =>
      if request.ifExists = .doNothing then .ok (a, s)
      else .error ⟨.alreadyExists, "Assistant " ++ request.assistantId.text ++ " already exists"⟩

/-! ### Patch -/

/-- A `PatchAssistantRequest`: the fields that it has are set. -/
structure PatchAssistantRequest where
  assistantId : Uuid
  graphId : Option String := none
  config : Option Json := none
  contextJson : Option Json := none
  metadataJson : Option Json := none
  name : Option String := none
  description : Option String := none
  deriving Repr, DecidableEq

/-- `COALESCE(MAX(version), 0) + 1`. -/
def AssistantTables.nextVersion (s : AssistantTables) (assistantId : Uuid) : ℕ :=
  ((s.assistantVersions.select fun v => v.assistantId = assistantId).map
    AssistantVersion.version).max?.getD 0 + 1

/-- The row that the update of `Patch` leaves. -/
def PatchAssistantRequest.row (request : PatchAssistantRequest) (version : ℕ) (now : Timestamp)
    (a : AssistantRow) : AssistantRow :=
  { a with
    version := version
    updatedAt := now
    graphId := request.graphId.getD a.graphId
    config := request.config.getD a.config
    context := request.contextJson.or a.context
    metadata := request.metadataJson.elim a.metadata a.metadata.concat
    name := request.name.or a.name
    description := request.description.or a.description }

/-- The version row that `Patch` inserts: the columns pass through the client, where the
context is written back as JSON, and so as a JSON `null` if it is missing. -/
def patchedVersion (a : AssistantRow) (now : Timestamp) : AssistantVersion :=
  { a.versionRow now with context := some (a.context.getD .null) }

/-- `Patch`. -/
def Assistants.patch (request : PatchAssistantRequest) (now : Timestamp) (s : AssistantTables) :
    AssistantReply :=
  match s.assistant.get? request.assistantId with
  | none => .error (assistantNotFound request.assistantId)
  | some a =>
    let row := request.row (s.nextVersion request.assistantId) now a
    .ok (row, {
      assistant := s.assistant.put row
      assistantVersions := s.assistantVersions.put (patchedVersion row now) })

/-! ### SetLatest -/

/-- The row that the update of `SetLatest` leaves.  Every column of the version is written
but `graph_id`. -/
def AssistantVersion.latest (v : AssistantVersion) (now : Timestamp) (a : AssistantRow) :
    AssistantRow :=
  { a with
    config := v.config
    context := v.context
    metadata := v.metadata
    version := v.version
    name := v.name
    description := v.description
    updatedAt := now }

/-- `SetLatest`. -/
def Assistants.setLatest (assistantId : Uuid) (version : ℕ) (now : Timestamp) (s : AssistantTables) :
    AssistantReply :=
  match s.assistant.get? assistantId, s.assistantVersions.get? (assistantId, version) with
  | some a, some v => .ok (v.latest now a, { s with assistant := s.assistant.put (v.latest now a) })
  | _, _ =>
    .error ⟨.notFound,
      "Assistant " ++ assistantId.text ++ " version " ++ toString version ++ " not found"⟩

/-! ### Delete and Get -/

/-- The database with the tables of this service. -/
structure Backend where
  /-- The tables of the other services. -/
  db : Database
  assistants : AssistantTables

/-- The database that the other services see. -/
def Backend.database (s : Backend) : Database :=
  { s.db with assistant := s.assistants.assistants }

/-- A `DeleteAssistantRequest`. -/
structure DeleteAssistantRequest where
  assistantId : Uuid
  filters : List AuthFilter := []
  deleteThreads : Bool := false
  deriving Repr

/-- `metadata->>'assistant_id' = …`. -/
def Thread.ofAssistant (assistantId : Uuid) (t : Thread) : Bool :=
  t.metadata.text? "assistant_id" = some assistantId.text

/-- `DELETE FROM thread` with a condition; the crons of the threads go with them,
`ON DELETE CASCADE`. -/
def deleteThreadsWhere (p : Thread → Bool) (d : Database) : Database :=
  { d with
    thread := d.thread.deleteWhere p
    cron := d.cron.deleteWhere fun c => c.threadId.any fun k => (d.thread.get? k).any p }

/-- `DELETE FROM assistant`; its versions and crons go with it, `ON DELETE CASCADE`. -/
def deleteAssistantRow (assistantId : Uuid) (s : Backend) : Backend where
  db := { s.db with cron := s.db.cron.deleteWhere fun c => c.assistantId = some assistantId }
  assistants := {
    assistant := s.assistants.assistant.erase assistantId
    assistantVersions := s.assistants.assistantVersions.deleteWhere fun v =>
      v.assistantId = assistantId }

/-- `Delete`.  The request is aborted after its transaction, so the threads are deleted also
where the assistant is not found. -/
def Assistants.delete (request : DeleteAssistantRequest) (s : Backend) :
    Except RpcError Uuid × Backend :=
  let s' : Backend :=
    if request.deleteThreads then
      { s with db := deleteThreadsWhere (Thread.ofAssistant request.assistantId) s.db }
    else s
  match s'.assistants.assistant.get? request.assistantId with
  | none => (.error (assistantNotFound request.assistantId), s')
  | some a => (.ok a.assistantId, deleteAssistantRow request.assistantId s')

/-- `Get`. -/
def Assistants.get (graphs : Option (List String)) (filters : List AuthFilter) (assistantId : Uuid)
    (s : AssistantTables) : Except RpcError AssistantRow :=
  match s.assistant.get? assistantId with
  | none => .error (assistantNotFound assistantId)
  | some a =>
    if registered graphs a.graphId && admits filters a.metadata then .ok a
    else .error (assistantNotFound assistantId)

/-! ### One call after the other -/

/-- The calls that write versions. -/
inductive AssistantCall
  | create (request : CreateAssistantRequest) (now : Timestamp)
  | patch (request : PatchAssistantRequest) (now : Timestamp)
  | setLatest (assistantId : Uuid) (version : ℕ) (now : Timestamp)
  deriving Repr, DecidableEq

def AssistantCall.reply (graphs : Option (List String)) (s : AssistantTables) :
    AssistantCall → AssistantReply
  | create request now => Assistants.create graphs request now s
  | patch request now => Assistants.patch request now s
  | setLatest assistantId version now => Assistants.setLatest assistantId version now s

/-- The tables after a call. -/
def AssistantTables.execute (graphs : Option (List String)) (s : AssistantTables)
    (call : AssistantCall) : AssistantTables :=
  match call.reply graphs s with
  | .ok (_, s') => s'
  | .error _ => s

/-- What a call leaves: the tables as they were, or one of three changes. -/
inductive AssistantChange (s : AssistantTables) : AssistantCall → AssistantTables → Prop
  | same {call : AssistantCall}
      (h : ∀ assistantId version now, call = .setLatest assistantId version now →
        s.assistant.get? assistantId = none ∨
          s.assistantVersions.get? (assistantId, version) = none) :
      AssistantChange s call s
  | created {request : CreateAssistantRequest} {now : Timestamp}
      (hnone : s.assistant.get? request.assistantId = none) :
      AssistantChange s (.create request now) {
        assistant := s.assistant.put (request.row now)
        assistantVersions := s.assistantVersions.insertNew ((request.row now).versionRow now) }
  | patched {request : PatchAssistantRequest} {now : Timestamp} {a row : AssistantRow}
      (ha : s.assistant.get? request.assistantId = some a)
      (hrow : row = request.row (s.nextVersion request.assistantId) now a) :
      AssistantChange s (.patch request now) {
        assistant := s.assistant.put row
        assistantVersions := s.assistantVersions.put (patchedVersion row now) }
  | latest {assistantId : Uuid} {version : ℕ} {now : Timestamp} {a : AssistantRow}
      {v : AssistantVersion} (ha : s.assistant.get? assistantId = some a)
      (hv : s.assistantVersions.get? (assistantId, version) = some v) :
      AssistantChange s (.setLatest assistantId version now)
        { s with assistant := s.assistant.put (v.latest now a) }

section

variable {graphs : Option (List String)} {s : AssistantTables}

/-- A `Create` that does not fail finds the assistant, or inserts it with its first version. -/
theorem Assistants.create_ok {request : CreateAssistantRequest} {now : Timestamp} {a : AssistantRow}
    {s' : AssistantTables} (h : Assistants.create graphs request now s = .ok (a, s')) :
    s' = s ∨ s.assistant.get? request.assistantId = none ∧ s' = {
      assistant := s.assistant.put (request.row now)
      assistantVersions := s.assistantVersions.insertNew ((request.row now).versionRow now) } := by
  unfold Assistants.create at h
  split at h
  · cases h
  · split at h
    · cases h
    · split at h
      · next hnone =>
        cases h
        exact Or.inr ⟨hnone, rfl⟩
      · split at h
        · cases h
          exact Or.inl rfl
        · cases h

/-- The list of changes is complete. -/
theorem change_execute (graphs : Option (List String)) (s : AssistantTables) (call : AssistantCall) :
    AssistantChange s call (s.execute graphs call) := by
  simp only [AssistantTables.execute]
  cases call with
  | create request now =>
    simp only [AssistantCall.reply]
    cases h : Assistants.create graphs request now s with
    | error e => exact .same (fun _ _ _ heq => by cases heq)
    | ok reply =>
      obtain ⟨a, s'⟩ := reply
      rcases Assistants.create_ok h with rfl | ⟨hnone, rfl⟩
      · exact .same (fun _ _ _ heq => by cases heq)
      · exact .created hnone
  | patch request now =>
    simp only [AssistantCall.reply, Assistants.patch]
    cases ha : s.assistant.get? request.assistantId with
    | none => exact .same (fun _ _ _ heq => by cases heq)
    | some a => exact .patched ha rfl
  | setLatest assistantId version now =>
    simp only [AssistantCall.reply, Assistants.setLatest]
    cases ha : s.assistant.get? assistantId with
    | none =>
      refine .same fun _ _ _ heq => Or.inl ?_
      cases heq
      exact ha
    | some a =>
      cases hv : s.assistantVersions.get? (assistantId, version) with
      | none =>
        refine .same fun _ _ _ heq => Or.inr ?_
        cases heq
        exact hv
      | some v => exact .latest ha hv

theorem version_lt_nextVersion {v : AssistantVersion} (hv : v ∈ s.assistantVersions) :
    v.version < s.nextVersion v.assistantId := by
  have hmem : v.version ∈ (s.assistantVersions.select fun u => u.assistantId = v.assistantId).map
      AssistantVersion.version :=
    List.mem_map.mpr ⟨v, Table.mem_select.mpr ⟨hv, by simp⟩, rfl⟩
  exact Nat.lt_succ_of_le (List.le_max?_getD_of_mem hmem)

theorem get?_patchedVersion {request : PatchAssistantRequest} {a : AssistantRow} {now : Timestamp}
    (ha : s.assistant.get? request.assistantId = some a) :
    s.assistantVersions.get? (Keyed.key (patchedVersion
      (request.row (s.nextVersion request.assistantId) now a) now)) = none := by
  refine Table.get?_eq_none.mpr fun v hv hkey => ?_
  obtain ⟨hid, hversion⟩ := Prod.mk.inj hkey
  have hid' : v.assistantId = request.assistantId := hid.trans (Table.get?_eq_some.mp ha).2
  have hversion' : v.version = s.nextVersion request.assistantId := hversion
  have hlt := version_lt_nextVersion hv
  rw [hid', hversion'] at hlt
  exact absurd hlt (Nat.lt_irrefl _)

end

end NextRole
