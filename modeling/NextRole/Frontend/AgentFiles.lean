import NextRole.Agents.ObjectStorage
import NextRole.Api.Store
import NextRole.Frontend.ToolCalls
import NextRole.Lib.Trimming

/-!
# The files of an agent in the browser

`app/lib/agentFiles.ts`, and `setFiles` of `app/hooks/useChat.ts`: the list of an agent's files is
put together from the items of the store, the artifacts and the files of the thread's state, and a
save goes back to the source of each file.  A path of the store is made of the area of a namespace
and the key of an item.  The server puts the identity of the user in front of each namespace, here
as there, so that it is left out.

## Main definitions

* `AgentFile` — an entry of the list.
* `StoreService` — the items of the store, and what a search returns.
* `resolveStoreLocation` — the namespace and the key of a path.
* `fetchAgentFiles` — the list.
* `setFiles` — the writes of a save.
-/

namespace NextRole

/-! ### Sources -/

/-- The namespaces of an agent's store files, by the areas of their paths. -/
structure StoreSources where
  namespacePrefix : List String
  pathPrefixes : List String
  deriving DecidableEq

/-- Where the files of an agent come from. -/
structure AgentFileSources where
  store : Option StoreSources := none
  artifacts : Option (List String) := none
  deriving DecidableEq

/-- `AGENT_FILE_SOURCES` of `app/config/agentFiles.ts`. -/
def agentFileSources : List (String × AgentFileSources) :=
  [("analytics_agent", { artifacts := some ["/charts/", "/reports/"] }),
    ("career_agent", {
      store := some {
        namespacePrefix := ["career_agent"]
        pathPrefixes := ["/memory/", "/processed/", "/research/", "/interview_coach/",
          "/workspace/"] }
      artifacts := some ["/upload/", "/tailored_resume/", "/interview_battlecard/"] })]

/-- `getAgentFileSources`. -/
def getAgentFileSources (graphId : Option String) : Option AgentFileSources :=
  (graphId.filter (· ≠ "")).bind fun graphId => agentFileSources.lookup graphId

inductive AgentFileSource
  | state | store | artifact
  deriving DecidableEq

inductive FileEncoding
  | utf8 | base64
  deriving DecidableEq

/-- An entry of the list of files. -/
structure AgentFile where
  path : String
  content : String
  encoding : FileEncoding := .utf8
  source : AgentFileSource
  sourceKey : String
  modifiedAt : Option ℤ := none
  deriving DecidableEq

/-- What JavaScript makes of texts. -/
structure FilesEnv extends JsText where
  /-- `Date.parse`, of a text that is a date. -/
  parseDate : String → Option ℤ
  /-- `a.localeCompare(b) <= 0`. -/
  localeLe : String → String → Bool

/-- An environment that reads and writes no values, and knows no dates. -/
def plainFilesEnv : FilesEnv where
  parsePartialJson _ := .null
  stringify _ := ""
  toText _ := ""
  parseDate _ := none
  localeLe a b := a ≤ b

/-! ### Contents -/

/-- `String(value ?? "")`, as also `join` has it of an element. -/
def jsTextOf (js : JsText) : Json → String
  | .null => ""
  | .str text => text
  | value => js.toText value

/-- The text of a content, which may be a list of lines. -/
def contentText (js : JsText) : Json → String
  | .arr lines => "\n".intercalate (lines.map (jsTextOf js))
  | content => jsTextOf js content

/-- `stateFilesToAgentFiles`. -/
def stateFilesToAgentFiles (js : JsText) (stateFiles : List (String × Json)) : List AgentFile :=
  stateFiles.map fun e =>
    { path := e.1
      content := match e.2 with
        | .obj fields =>
          match fields.lookup "content" with
          | some content => contentText js content
          | none => js.toText e.2
        | raw => jsTextOf js raw
      source := .state
      sourceKey := e.1 }

/-! ### Paths of the store -/

/-- `replace(/\/+$/, "")`. -/
def trimSlashes (s : String) : String := String.ofList (s.toList.rdropWhile fun c => c = '/')

/-- `split("/").filter(Boolean)`. -/
def slashSegments (s : String) : List String :=
  (Path.segments '/' (· ≠ []) s.toList).map String.ofList

/-- The namespace of an area. -/
def StoreSources.namespaceOf (cfg : StoreSources) (pathPrefix : String) : List String :=
  cfg.namespacePrefix ++ slashSegments (trimSlashes pathPrefix)

/-- A key with a slash in front. -/
def slashKey (key : String) : String := if startsWith key "/" then key else "/" ++ key

/-- `resolveStoreLocation`: the namespace and the key of a path, by the longest area. -/
def resolveStoreLocation (cfg : StoreSources) (storeRel : String) :
    Option (List String × String) :=
  (cfg.pathPrefixes.mergeSort fun a b => b.length ≤ a.length).findSome? fun pathPrefix =>
    let trimmed := trimSlashes pathPrefix
    if storeRel = trimmed ∨ startsWith storeRel (trimmed ++ "/") then
      some (cfg.namespaceOf pathPrefix,
        slashKey (String.ofList (storeRel.toList.drop trimmed.length)))
    else none

/-! ### The store -/

/-- An item of the store, with the time at which it was written. -/
structure StampedItem extends StoreItem where
  updatedAt : Option String := none
  deriving DecidableEq

/-- The items of the store, and the order in which a search returns them. -/
structure StoreService where
  items : List StampedItem
  nodup : (items.map fun item => (item.text, item.key)).Nodup
  order : List StampedItem → List StampedItem
  order_perm : ∀ found, (order found).Perm found

namespace StoreService

/-- The items that a search matches, by the text of their namespaces. -/
def found (service : StoreService) (labels : List String) : List StampedItem :=
  service.items.filter fun item => (namespaceText labels).isPrefixOf item.text

/-- `client.store.searchItems(namespace, { limit })`. -/
def searchItems (service : StoreService) (labels : List String) (limit : ℕ) : List StampedItem :=
  (service.order (service.found labels)).take limit

end StoreService

/-- The encoding of an item. -/
def encodingOf (value : Json) : FileEncoding :=
  if value.get? "encoding" = some (.str "base64") then .base64 else .utf8

/-- The entry that `fetchStoreFiles` makes of an item that it finds in an area. -/
def storeFile (env : FilesEnv) (pathPrefix : String) (item : StampedItem) : AgentFile :=
  let storeRel := trimSlashes pathPrefix ++ slashKey item.key
  { path := storeRel
    content := contentText env.toJsText ((item.value.get? "content").getD .null)
    encoding := encodingOf item.value
    source := .store
    sourceKey := storeRel
    modifiedAt := (item.updatedAt.filter (· ≠ "")).bind env.parseDate }

/-- `fetchStoreFiles`, with the areas in the order in which their searches complete. -/
def fetchStoreFiles (env : FilesEnv) (service : StoreService) (cfg : StoreSources)
    (completed : List String) : List AgentFile :=
  completed.flatMap fun pathPrefix =>
    (service.searchItems (cfg.namespaceOf pathPrefix) 200).map (storeFile env pathPrefix)

/-! ### The list -/

/-- The order of the list: the newest first, and files without a time by their paths at the end. -/
def newerFile (env : FilesEnv) (a b : AgentFile) : Bool :=
  if a.modifiedAt = b.modifiedAt then env.localeLe a.path b.path
  else
    match a.modifiedAt, b.modifiedAt with
    | some am, some bm => bm < am
    | some _, none => true
    | none, _ => false

/-- The files by their paths, where the last file of a path stays. -/
def filesByPath (files : List AgentFile) : Dict String AgentFile :=
  Dict.setAll {} (files.map fun file => (file.path, file))

/-- The end of `fetchAgentFiles`: the files by their paths, of which those of the state come
last. -/
def mergeFiles (env : FilesEnv) (storeFiles artifactFiles : List AgentFile)
    (stateFiles : List (String × Json)) : List AgentFile :=
  (filesByPath (storeFiles ++ artifactFiles ++
    stateFilesToAgentFiles env.toJsText stateFiles)).values.mergeSort (newerFile env)

theorem get?_filesByPath {files : List AgentFile} (h : (files.map AgentFile.path).Nodup)
    {file : AgentFile} (hfile : file ∈ files) :
    (filesByPath files).get? file.path = some file := by
  have hkeys : ((files.map fun file => (file.path, file)).map Prod.fst).Nodup := by
    rw [List.map_map]
    exact h
  have hmem : (file.path, file) ∈ files.map fun file => (file.path, file) :=
    List.mem_map.mpr ⟨file, hfile, rfl⟩
  exact Dict.get?_setAll_of_mem hkeys hmem {}

theorem mem_of_get?_filesByPath {files : List AgentFile} {path : String} {file : AgentFile}
    (h : (filesByPath files).get? path = some file) : file ∈ files ∧ file.path = path := by
  rcases Dict.mem_of_get?_setAll h with hmem | hnone
  · obtain ⟨file', hfile', heq⟩ := List.mem_map.mp hmem
    cases heq
    exact ⟨hfile', rfl⟩
  · cases hnone

theorem nodup_filesByPath (files : List AgentFile) :
    ((filesByPath files).values.map AgentFile.path).Nodup := by
  rw [Dict.values, List.map_map]
  have hpaths : ∀ e ∈ (filesByPath files).entries, (AgentFile.path ∘ Prod.snd) e = e.1 :=
    fun e he => (mem_of_get?_filesByPath (Dict.get?_eq_some_iff.mpr he)).2
  exact List.map_congr_left hpaths ▸ (filesByPath files).nodup

theorem mem_mergeFiles {env : FilesEnv} {storeFiles artifactFiles : List AgentFile}
    {stateFiles : List (String × Json)} {file : AgentFile}
    (h : file ∈ mergeFiles env storeFiles artifactFiles stateFiles) :
    file ∈ storeFiles ∨ file ∈ artifactFiles ∨
      file ∈ stateFilesToAgentFiles env.toJsText stateFiles := by
  rw [mergeFiles, (List.mergeSort_perm _ _).mem_iff] at h
  obtain ⟨path, hpath⟩ := Dict.mem_values.mp h
  have hmem := (mem_of_get?_filesByPath (Dict.get?_eq_some_iff.mpr hpath)).1
  rwa [List.append_assoc, List.mem_append, List.mem_append] at hmem

/-- `fetchAgentFiles`, of a store that answers each search in one state. -/
def fetchAgentFiles (env : FilesEnv) (service : StoreService) (completed : List String)
    (artifactFiles : List AgentFile) (graphId : Option String)
    (stateFiles : List (String × Json)) : List AgentFile :=
  let cfg := getAgentFileSources graphId
  let storeFiles := match cfg.bind AgentFileSources.store with
    | some store => fetchStoreFiles env service store completed
    | none => []
  let artifacts := if (cfg.bind AgentFileSources.artifacts).isSome then artifactFiles else []
  mergeFiles env storeFiles artifacts stateFiles

/-! ### Saves -/

/-- A request that writes, or an error in its place. -/
inductive FileWrite
  | putItem (labels : List String) (key content : String) (encoding : FileEncoding)
  | artifact (path content : String) (encoding : FileEncoding)
  | updateState (threadId : String) (files : List (String × String))
  | error (message : String)
  deriving DecidableEq

/-- `writeAgentFile`. -/
def writeAgentFile (threadId graphId : Option String) (file : AgentFile)
    (stateFiles : Dict String String) : FileWrite :=
  match file.source with
  | .store =>
    match (getAgentFileSources graphId).bind AgentFileSources.store with
    | none => .error "Store backend not configured for this agent"
    | some store =>
      match resolveStoreLocation store file.sourceKey with
      | none => .error ("No matching store pathPrefix for " ++ file.sourceKey ++ " (configured: " ++
          ", ".intercalate store.pathPrefixes ++ ")")
      | some (labels, key) => .putItem labels key file.content file.encoding
  | .artifact => .artifact file.sourceKey file.content file.encoding
  | .state =>
    match threadId with
    | none => .error "No threadId for state write"
    | some threadId =>
      .updateState threadId (stateFiles.set file.sourceKey file.content).entries

/-- What `setFiles` gathers: the writes, and the files of the state. -/
structure SavePlan where
  writes : List FileWrite := []
  stateFilesNext : Dict String String := {}
  stateChanged : Bool := false

/-- The entry of a path that the list does not have. -/
def synthesizedFile (graphId : Option String) (path content : String) : Option AgentFile :=
  let cfg := getAgentFileSources graphId
  if ((cfg.bind AgentFileSources.store).bind fun store =>
      resolveStoreLocation store path).isSome then
    some { path := path, content := content, source := .store, sourceKey := path }
  else
    (cfg.bind AgentFileSources.artifacts).bind fun areas =>
      match (path.toList.splitOn '/')[1]? with
      | some top =>
        if top ≠ [] ∧ "/" ++ String.ofList top ++ "/" ∈ areas then
          some { path := path, content := content, source := .artifact, sourceKey := path }
        else none
      | none => none

/-- One pass of the loop of `setFiles`. -/
def SavePlan.add (threadId graphId : Option String) (current : Dict String AgentFile)
    (plan : SavePlan) (path content : String) : SavePlan :=
  match current.get? path with
  | some existing =>
    if existing.source = .state then
      { plan with
        stateFilesNext := plan.stateFilesNext.set path content
        stateChanged := plan.stateChanged || existing.content ≠ content }
    else if existing.content ≠ content then
      { plan with writes := plan.writes ++
          [writeAgentFile threadId graphId { existing with content := content } {}] }
    else plan
  | none =>
    match synthesizedFile graphId path content with
    | some file => { plan with writes := plan.writes ++ [writeAgentFile threadId graphId file {}] }
    | none =>
      { plan with stateFilesNext := plan.stateFilesNext.set path content, stateChanged := true }

/-- The writes of `setFiles`: what differs from the list goes to the source of its file. -/
def setFilesWrites (threadId graphId : Option String) (current : List AgentFile)
    (files : List (String × String)) : List FileWrite :=
  if (getAgentFileSources graphId).isNone then
    threadId.toList.map fun threadId => .updateState threadId files
  else
    let plan := files.foldl (fun (plan : SavePlan) e =>
      plan.add threadId graphId (filesByPath current) e.1 e.2) {}
    plan.writes ++
      if plan.stateChanged then
        threadId.toList.map fun threadId => .updateState threadId plan.stateFilesNext.entries
      else []

/-- The value of a file that is written to the store. -/
def fileValue (content : String) (encoding : FileEncoding) : Json :=
  .obj [("content", .str content),
    ("encoding", .str (match encoding with | .utf8 => "utf-8" | .base64 => "base64"))]

/-- The items after `putItem`, which updates an item or adds one. -/
def writeItem (items : List StampedItem) (labels : List String) (key : String) (value : Json)
    (now : String) : List StampedItem :=
  if items.any fun item => item.isAt labels key then
    items.map fun item =>
      if item.isAt labels key then { item with value := value, updatedAt := some now } else item
  else
    items ++ [{ text := namespaceText labels, key := key, value := value, updatedAt := some now }]

/-- The items after a write. -/
def FileWrite.applyTo (items : List StampedItem) (now : String) : FileWrite → List StampedItem
  | .putItem labels key content encoding =>
    writeItem items labels key (fileValue content encoding) now
  | _ => items

end NextRole
