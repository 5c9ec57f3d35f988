import NextRole.Frontend.AgentFiles
import NextRole.Lib.Transition

/-!
# The list of files that a chat shows

`refreshFiles`, `setFiles`, `removeFile` and `removeFiles` of `app/hooks/useChat.ts`, with the
requests of `fetchAgentFiles`.  What the hook does between two suspension points is one step, and
the answers of the server come in any order.  A callback works with the thread, the agent and the
state of the render that it was made in.

A record beside the state says which artifacts a removal has deleted and nobody has written since,
now and when each fetch began.

## Main definitions

* `ChatView` — what a render gives to the callbacks.
* `FileFetch` — one call of `fetchAgentFiles`, with what it has got.
* `FilesCall` — a call of `setFiles`, `removeFile` or `removeFiles` and its requests.
* `FilePanel` — the state of the hook, and of the server.
* `filePanel` — the machine of all interleavings.
-/

namespace NextRole

/-- What a render gives to the callbacks. -/
structure ChatView where
  threadId : Option String
  graphId : Option String
  stateFiles : Dict String Json

/-- Whether two renders have one agent and the same files of the state, so that `refreshFiles` is
the same function. -/
def ChatView.Same (view view' : ChatView) : Prop :=
  view.graphId = view'.graphId ∧ view.stateFiles.entries = view'.stateFiles.entries

instance (view view' : ChatView) : Decidable (view.Same view') :=
  inferInstanceAs (Decidable (_ ∧ _))

/-! ### Stamps of state files -/

/-- The UTF-16 units of a text. -/
def utf16 (s : String) : List ℕ :=
  s.toList.flatMap fun c =>
    if c.toNat < 0x10000 then [c.toNat]
    else [0xD800 + (c.toNat - 0x10000) / 0x400, 0xDC00 + (c.toNat - 0x10000) % 0x400]

/-- What `stateFileSignature` writes between colons. -/
structure StateFileSignature where
  kind : Char
  length : ℕ
  start : List ℕ := []
  deriving DecidableEq

/-- `stateFileSignature`. -/
def stateFileSignature (js : JsText) : Json → StateFileSignature
  | .str text => ⟨'s', (utf16 text).length, (utf16 text).take 64⟩
  | .obj fields =>
    match fields.lookup "content" with
    | some (.str inner) => ⟨'o', (utf16 inner).length, (utf16 inner).take 64⟩
    | some (.arr inner) => ⟨'a', inner.length, []⟩
    | _ => ⟨'x', (utf16 (js.toText (.obj fields))).length, []⟩
  | value => ⟨'x', (utf16 (jsTextOf js value)).length, []⟩

/-- The stamps of the state files: a signature, and when it was seen first. -/
abbrev FileStamps := Dict String (StateFileSignature × ℤ)

/-- The stamps after the first loops of `refreshFiles`. -/
def FileStamps.update (js : JsText) (stamps : FileStamps) (stateFiles : Dict String Json)
    (now : ℤ) : FileStamps :=
  let stamps := stateFiles.entries.zipIdx.foldl (fun (stamps : FileStamps) e =>
    let sig := stateFileSignature js e.1.2
    if (stamps.get? e.1.1).map Prod.fst = some sig then stamps
    else stamps.set e.1.1 (sig, now + e.2)) stamps
  stamps.filter fun path => path ∈ stateFiles.entries.map Prod.fst

/-- An entry with the stamp of its path, if it is a file of the state. -/
def stampFile (stamps : FileStamps) (file : AgentFile) : AgentFile :=
  if file.source ≠ .state then file
  else
    match stamps.get? file.path with
    | some stamp => { file with modifiedAt := some stamp.2 }
    | none => file

/-! ### The server -/

/-- An artifact on the server. -/
structure StoredArtifact where
  content : String
  encoding : FileEncoding
  modifiedAt : Option String

/-- The store and the artifacts. -/
structure FileServer where
  service : StoreService
  artifacts : Dict String StoredArtifact

theorem nodup_writeItem {items : List StampedItem}
    (h : (items.map fun item => (item.text, item.key)).Nodup) (labels : List String)
    (key : String) (value : Json) (now : String) :
    ((writeItem items labels key value now).map fun item => (item.text, item.key)).Nodup := by
  rw [writeItem]
  split
  · -- the items that are written keep their places
    rw [List.map_map]
    convert h using 2
    funext item
    rw [Function.comp_apply]
    split
    · rfl
    · rfl
  · next hnone =>
    rw [List.map_append, List.map_singleton, List.nodup_append]
    refine ⟨h, List.nodup_singleton _, ?_⟩
    intro a ha b hb heq
    obtain ⟨item, hitem, rfl⟩ := List.mem_map.mp ha
    obtain rfl := List.mem_singleton.mp hb
    obtain ⟨htext, hkey⟩ := Prod.mk.inj heq
    exact hnone (List.any_eq_true.mpr ⟨item, hitem, by simp [StoreItem.isAt, htext, hkey]⟩)

/-- The store after a write. -/
def StoreService.write (service : StoreService) (w : FileWrite) (now : String) : StoreService where
  items := w.applyTo service.items now
  nodup := by
    cases w with
    | putItem => exact nodup_writeItem service.nodup _ _ _ _
    | artifact => exact service.nodup
    | updateState => exact service.nodup
    | error => exact service.nodup
  order := service.order
  order_perm := service.order_perm

/-! ### Fetches -/

/-- An artifact that the server has listed, and the answer to the request that reads it. -/
structure ArtifactRead where
  path : String
  modifiedAt : Option String
  answer : Option (Option AgentFile) := none

/-- A call of `fetchAgentFiles` with what it has got: the searches that it awaits and the files of
the others, and the artifacts once they are listed. -/
structure FileFetch where
  view : ChatView
  /-- Whether `refreshFiles` called it. -/
  refresh : Bool
  searches : List String
  storeFiles : List AgentFile := []
  reads : Option (List ArtifactRead)
  /-- What it has set the list to. -/
  result : Option (List AgentFile) := none
  /-- The deleted artifacts at its beginning that nobody has written since. -/
  gone : List String

namespace FileFetch

/-- A fetch begins with its searches and with the list of the artifacts. -/
def start (view : ChatView) (refresh : Bool) (gone : List String) : FileFetch :=
  let cfg := getAgentFileSources view.graphId
  { view := view
    refresh := refresh
    searches := match cfg.bind AgentFileSources.store with
      | some store => store.pathPrefixes
      | none => []
    reads := if (cfg.bind AgentFileSources.artifacts).isSome then none else some []
    gone := gone }

variable (env : FilesEnv) (server : FileServer) (f : FileFetch)

/-- Whether each request has its answer. -/
def ready : Bool :=
  f.searches.isEmpty && f.reads.any fun reads => reads.all fun r => r.answer.isSome

/-- What `fetchAgentFiles` returns. -/
def files : List AgentFile :=
  mergeFiles env f.storeFiles ((f.reads.getD []).filterMap fun r => r.answer.join)
    f.view.stateFiles.entries

/-- The list that is set at the end: `refreshFiles` stamps it and sorts it anew. -/
def shown (stamps : FileStamps) : List AgentFile :=
  if f.refresh then ((f.files env).map (stampFile stamps)).mergeSort (newerFile env)
  else f.files env

/-- A search completes; the files of one that fails are left out. -/
def search (pathPrefix : String) (ok : Bool) : Option FileFetch :=
  if pathPrefix ∈ f.searches then
    match (getAgentFileSources f.view.graphId).bind AgentFileSources.store with
    | some store => some { f with
        searches := f.searches.erase pathPrefix
        storeFiles := f.storeFiles ++
          if ok then
            (server.service.searchItems (store.namespaceOf pathPrefix) 200).map
              (storeFile env pathPrefix)
          else [] }
    | none => none
  else none

/-- The server lists artifacts of the agent's areas, in any order, or fails. -/
def list (listed : Option (List String)) : Option FileFetch :=
  match f.reads, (getAgentFileSources f.view.graphId).bind AgentFileSources.artifacts with
  | none, some areas =>
    let paths := listed.getD []
    if paths.all fun path =>
        (server.artifacts.get? path).isSome && areas.any fun area => startsWith path area then
      some { f with reads := some (paths.map fun path =>
        { path := path
          modifiedAt := (server.artifacts.get? path).bind StoredArtifact.modifiedAt }) }
    else none
  | _, _ => none

/-- The entry of a listed artifact. -/
def artifactFile (read : ArtifactRead) (artifact : StoredArtifact) : AgentFile :=
  { path := read.path
    content := artifact.content
    encoding := artifact.encoding
    source := .artifact
    sourceKey := read.path
    modifiedAt := (read.modifiedAt.filter (· ≠ "")).bind env.parseDate }

/-- The server answers a read; the artifact is left out where it fails. -/
def read (k : ℕ) (ok : Bool) : Option FileFetch :=
  f.reads.bind fun reads => reads[k]?.map fun read =>
    let answer := if ok then (server.artifacts.get? read.path).map (artifactFile env read) else none
    { f with reads := some (reads.set k { read with answer := some answer }) }

end FileFetch

/-! ### Calls -/

/-- A request of a call. -/
inductive FileRequest
  | write (write : FileWrite)
  | delete (path : String)

/-- What follows the requests of a call. -/
inductive CallEnd
  | returns
  | fetch (refresh : Bool)

/-- A call of `setFiles`, `removeFile` or `removeFiles`, with the requests that it awaits. -/
structure FilesCall where
  view : ChatView
  requests : List FileRequest
  /-- Whether it goes on after a request that failed. -/
  allSettled : Bool := false
  ending : CallEnd
  failed : Bool := false
  /-- What it has deleted and nobody has written since. -/
  deleted : List String := []

/-- The fetch that follows, by whether `refreshFiles` makes it. -/
def FilesCall.next (call : FilesCall) : Option Bool :=
  match call.ending with
  | .returns => none
  | .fetch refresh => if call.failed && !call.allSettled then none else some refresh

/-- `setFiles`, to its first suspension. -/
def setFilesCall (view : ChatView) (displayed : List AgentFile) (files : List (String × String)) :
    FilesCall :=
  { view := view
    requests := (setFilesWrites view.threadId view.graphId displayed files).map .write
    ending := if (getAgentFileSources view.graphId).isNone then .returns else .fetch false }

/-- The artifact of a path, which alone can be deleted. -/
def deletable (displayed : List AgentFile) (path : String) : Option String :=
  (displayed.find? fun file => file.path = path).bind fun file =>
    if file.source ≠ .artifact then none else some file.sourceKey

/-- `removeFile`, to its first suspension, if the path can be deleted. -/
def removeFileCall (view : ChatView) (displayed : List AgentFile) (path : String) :
    Option FilesCall :=
  (deletable displayed path).map fun sourceKey =>
    { view := view, requests := [.delete sourceKey], ending := .fetch true }

/-- `removeFiles`, to its first suspension. -/
def removeFilesCall (view : ChatView) (displayed : List AgentFile) (paths : List String) :
    FilesCall :=
  { view := view
    requests := (paths.filterMap (deletable displayed)).map .delete
    allSettled := true
    ending := .fetch true }

/-! ### The hook -/

/-- The state of the hook, and of the server. -/
structure FilePanel where
  view : ChatView
  /-- The renders so far, whose callbacks may still be called. -/
  views : List ChatView
  server : FileServer
  stamps : FileStamps := {}
  fetches : List FileFetch := []
  calls : List FilesCall := []
  /-- `extendedFiles`. -/
  displayed : List AgentFile := []
  /-- What removals have deleted and nobody has written since. -/
  deleted : List String := []

namespace FilePanel

variable (env : FilesEnv) (s : FilePanel)

/-- A fetch begins. -/
def fetch (view : ChatView) (refresh : Bool) (now : ℤ) : FilePanel :=
  { s with
    stamps := if refresh then s.stamps.update env.toJsText view.stateFiles now else s.stamps
    fetches := s.fetches ++ [.start view refresh s.deleted] }

/-- A render: the effect runs if `refreshFiles` is another function. -/
def render (view : ChatView) (now : ℤ) : FilePanel :=
  let s' := { s with view := view, views := s.views ++ [view] }
  if view.Same s.view then s' else s'.fetch env view true now

/-- An artifact is written. -/
def writeArtifact (path : String) (artifact : StoredArtifact) : FilePanel :=
  { s with
    server := { s.server with artifacts := s.server.artifacts.set path artifact }
    fetches := s.fetches.map fun f => { f with gone := f.gone.filter (· ≠ path) }
    calls := s.calls.map fun call => { call with deleted := call.deleted.filter (· ≠ path) }
    deleted := s.deleted.filter (· ≠ path) }

/-- An artifact is deleted. -/
def eraseArtifact (path : String) : FilePanel :=
  { s with server := { s.server with artifacts := s.server.artifacts.erase path } }

/-- The server carries out a request. -/
def perform (now : String) : FileRequest → Option FilePanel
  | .write (.artifact path content encoding) =>
    some (s.writeArtifact path { content := content, encoding := encoding, modifiedAt := some now })
  | .write (.error _) => none
  | .write w =>
    some { s with server := { s.server with service := s.server.service.write w now } }
  | .delete path => some (s.eraseArtifact path)

/-- A request of a call is answered. -/
def answer (i k : ℕ) (ok : Bool) (now : String) : Option FilePanel :=
  s.calls[i]?.bind fun call => call.requests[k]?.bind fun request =>
    let rest := { call with requests := call.requests.eraseIdx k }
    if ok then
      let deleted := match request with
        | .delete path => [path]
        | .write _ => []
      perform { s with calls := s.calls.set i { rest with deleted := rest.deleted ++ deleted } }
        now request
    else some { s with calls := s.calls.set i { rest with failed := true } }

/-- A call without open requests goes on to its end. -/
def proceed (i : ℕ) (now : ℤ) : Option FilePanel :=
  s.calls[i]?.bind fun call =>
    if call.requests.isEmpty then
      let s' := { s with calls := s.calls.eraseIdx i }
      match call.next with
      | none => some s'
      | some refresh =>
        some (fetch env { s' with deleted := s'.deleted ++ call.deleted } call.view refresh now)
    else none

/-- A fetch goes on. -/
def progress (i : ℕ) (step : FileFetch → Option FileFetch) : Option FilePanel :=
  s.fetches[i]?.bind fun f => (step f).map fun f' => { s with fetches := s.fetches.set i f' }

/-- A fetch that has its answers sets the list. -/
def install (i : ℕ) : Option FilePanel :=
  s.fetches[i]?.bind fun f =>
    if f.ready ∧ f.result.isNone then
      let files := f.shown env s.stamps
      some { s with
        fetches := s.fetches.set i { f with result := some files }
        displayed := files }
    else none

end FilePanel

/-- What happens to the hook, with the numbers of renders, calls, requests and fetches. -/
inductive FileAction
  | render (view : ChatView) (now : ℤ)
  | loading (now : ℤ)
  | refreshFiles (render : ℕ) (now : ℤ)
  | setFiles (render : ℕ) (files : List (String × String))
  | removeFile (render : ℕ) (path : String)
  | removeFiles (render : ℕ) (paths : List String)
  | answer (call request : ℕ) (ok : Bool) (now : String)
  | proceed (call : ℕ) (now : ℤ)
  | search (fetch : ℕ) (pathPrefix : String) (ok : Bool)
  | list (fetch : ℕ) (listed : Option (List String))
  | read (fetch read : ℕ) (ok : Bool)
  | install (fetch : ℕ)
  /-- The agent, or another page, writes to the server. -/
  | agentStore (service : StoreService)
  | agentWrite (path : String) (artifact : StoredArtifact)
  | agentDelete (path : String)

/-- A chat from its first render on. -/
def filePanel (env : FilesEnv) : Machine FilePanel FileAction where
  init s := ∃ view server now,
    s = FilePanel.fetch env { view := view, views := [view], server := server } view true now
  step s
    | .render view now => some (s.render env view now)
    | .loading now => some (s.fetch env s.view true now)
    | .refreshFiles render now => s.views[render]?.map fun view => s.fetch env view true now
    | .setFiles render files => s.views[render]?.map fun view =>
        { s with calls := s.calls ++ [setFilesCall view s.displayed files] }
    | .removeFile render path => s.views[render]?.map fun view =>
        { s with calls := s.calls ++ (removeFileCall view s.displayed path).toList }
    | .removeFiles render paths => s.views[render]?.map fun view =>
        { s with calls := s.calls ++ [removeFilesCall view s.displayed paths] }
    | .answer call request ok now => s.answer call request ok now
    | .proceed call now => s.proceed env call now
    | .search fetch pathPrefix ok =>
        s.progress fetch fun f => f.search env s.server pathPrefix ok
    | .list fetch listed => s.progress fetch fun f => f.list s.server listed
    | .read fetch read ok => s.progress fetch fun f => f.read env s.server read ok
    | .install fetch => s.install env fetch
    | .agentStore service => some { s with server := { s.server with service := service } }
    | .agentWrite path artifact => some (s.writeArtifact path artifact)
    | .agentDelete path => some (s.eraseArtifact path)

end NextRole
