import NextRole.Frontend.FilePanel

/-!
# The list of files is that of the newest fetch

Each fetch sets the list when it has its answers, whatever has been set before, and a callback of
an earlier render fetches for the agent and the state of that render.  So the list is that of the
newest fetch, and of the render that is shown, in the runs in which no fetch sets the list after a
newer one, and none begins for an earlier agent or state.

## Main definitions

* `OfView` — an entry that belongs to the agent and the state of a render.
* `ShowsLastFetch` — the list is what the last fetch has got, of this render, without what was
  deleted.
* `FilePanel.InOrder` — the steps after which it stays so.

## Main results

* `FileFetch.Sound.mem_files` — what a fetch returns belongs to its render.
* `Inv.step` — one step keeps the invariant.
* `showsLastFetch_of_inOrder` — **in ordered runs, while no fetch is under way, the list is that of
  the last fetch**.
* `not_showsLastFetch` — after a change of the thread an older fetch may complete last.
-/

namespace NextRole

open List

/-! ### What is shown -/

/-- An entry is a file of the state of a render, or in an area of its agent. -/
def OfView (env : FilesEnv) (view : ChatView) (file : AgentFile) : Prop :=
  match file.source with
  | .state => ∃ own ∈ stateFilesToAgentFiles env.toJsText view.stateFiles.entries,
      file.path = own.path ∧ file.content = own.content
  | .store => ∃ store, (getAgentFileSources view.graphId).bind AgentFileSources.store = some store ∧
      ∃ area ∈ store.pathPrefixes, startsWith file.path (trimSlashes area) = true
  | .artifact => ∃ areas,
      (getAgentFileSources view.graphId).bind AgentFileSources.artifacts = some areas ∧
        ∃ area ∈ areas, startsWith file.path area = true

/-- The list is what the fetch that began last has set it to; its files belong to the render that
is shown, and none was deleted. -/
structure ShowsLastFetch (env : FilesEnv) (s : FilePanel) : Prop where
  last : ∃ f, s.fetches.getLast? = some f ∧ f.result = some s.displayed
  own : ∀ file ∈ s.displayed, OfView env s.view file
  present : ∀ file ∈ s.displayed, file.source = .artifact → file.path ∉ s.deleted

/-- A step that sets the list does so before each newer fetch has, and a step that begins a fetch
does so for the agent and the state that are shown. -/
def FilePanel.InOrder (s : FilePanel) : FileAction → Prop
  | .refreshFiles render _ => ∀ view ∈ s.views[render]?, view.Same s.view
  | .proceed call _ => ∀ c ∈ s.calls[call]?, c.next.isSome = true → c.view.Same s.view
  | .install fetch => ∀ f ∈ s.fetches.drop (fetch + 1), f.result.isNone = true
  | _ => True

instance (s : FilePanel) : ∀ a, Decidable (s.InOrder a)
  | .refreshFiles render _ =>
    inferInstanceAs (Decidable (∀ view ∈ s.views[render]?, view.Same s.view))
  | .proceed call _ =>
    inferInstanceAs (Decidable (∀ c ∈ s.calls[call]?, c.next.isSome = true → c.view.Same s.view))
  | .install fetch =>
    inferInstanceAs (Decidable (∀ f ∈ s.fetches.drop (fetch + 1), f.result.isNone = true))
  | .render .. | .loading .. | .setFiles .. | .removeFile .. | .removeFiles .. | .answer ..
  | .search .. | .list .. | .read .. | .agentStore .. | .agentWrite .. | .agentDelete .. =>
    inferInstanceAs (Decidable True)

/-! ### What a fetch has got -/

theorem OfView.of_same {env : FilesEnv} {view view' : ChatView} {file : AgentFile}
    (h : OfView env view file) (hsame : view.Same view') : OfView env view' file := by
  obtain ⟨hgraph, hfiles⟩ := hsame
  unfold OfView at h ⊢
  rwa [hgraph, hfiles] at h

theorem stampFile_eq (stamps : FileStamps) (file : AgentFile) :
    ∃ at', stampFile stamps file = { file with modifiedAt := at' } := by
  rw [stampFile]
  split
  · exact ⟨_, rfl⟩
  · split
    · exact ⟨_, rfl⟩
    · exact ⟨_, rfl⟩

namespace FileFetch

/-- What a fetch has got belongs to its render, and is nothing that was deleted before it began. -/
structure Sound (env : FilesEnv) (artifacts : Dict String StoredArtifact) (f : FileFetch) :
    Prop where
  searches : ∀ area ∈ f.searches, ∀ store,
    (getAgentFileSources f.view.graphId).bind AgentFileSources.store = some store →
      area ∈ store.pathPrefixes
  storeFiles : ∀ file ∈ f.storeFiles, file.source = .store ∧ OfView env f.view file
  reads : ∀ reads ∈ f.reads, ∀ r ∈ reads, r.path ∉ f.gone ∧
    (∃ areas, (getAgentFileSources f.view.graphId).bind AgentFileSources.artifacts = some areas ∧
      ∃ area ∈ areas, startsWith r.path area = true) ∧
    ∀ file, r.answer = some (some file) → file.source = .artifact ∧ file.path = r.path
  gone : ∀ path ∈ f.gone, artifacts.get? path = none
  result : ∀ files ∈ f.result, ∀ file ∈ files,
    OfView env f.view file ∧ (file.source = .artifact → file.path ∉ f.gone)

/-- What a fetch keeps from its beginning on. -/
def frame (f : FileFetch) : ChatView × List String := (f.view, f.gone)

variable {env : FilesEnv} {server : FileServer} {f f' : FileFetch}

theorem start_sound (view : ChatView) (refresh : Bool) {gone : List String}
    (h : ∀ path ∈ gone, server.artifacts.get? path = none) :
    (start view refresh gone).Sound env server.artifacts := by
  refine ⟨fun area harea store hstore => ?_, fun file hfile => ?_, fun reads hreads r hr => ?_, h,
    fun files hfiles => ?_⟩
  · simp only [start] at harea hstore
    rwa [hstore] at harea
  · cases hfile
  · rw [start] at hreads
    simp only at hreads
    split at hreads
    · cases hreads
    · cases hreads
      cases hr
  · cases hfiles

theorem Sound.search {pathPrefix : String} {ok : Bool} (h : f.Sound env server.artifacts)
    (hs : f.search env server pathPrefix ok = some f') :
    f'.Sound env server.artifacts ∧ f'.frame = f.frame ∧ f'.result = f.result := by
  rw [FileFetch.search] at hs
  split at hs
  · next harea =>
    split at hs
    · next store hstore =>
      cases hs
      refine ⟨⟨fun area ha => h.searches area (mem_of_mem_erase ha), fun file hfile => ?_, h.reads,
        h.gone, h.result⟩, rfl, rfl⟩
      rcases mem_append.mp hfile with hold | hnew
      · exact h.storeFiles file hold
      · cases ok with
        | false => cases hnew
        | true =>
          obtain ⟨item, -, rfl⟩ := mem_map.mp hnew
          refine ⟨rfl, store, hstore, pathPrefix, h.searches pathPrefix harea store hstore, ?_⟩
          show startsWith (trimSlashes pathPrefix ++ slashKey item.key) _ = true
          simp [startsWith]
    · cases hs
  · cases hs

theorem Sound.list {listed : Option (List String)} (h : f.Sound env server.artifacts)
    (hs : f.list server listed = some f') : f'.Sound env server.artifacts ∧ f'.frame = f.frame ∧ f'.result = f.result := by
  rw [FileFetch.list] at hs
  split at hs
  · next areas _ hareas =>
    dsimp only at hs
    split at hs
    · next hall =>
      cases hs
      refine ⟨⟨h.searches, h.storeFiles, fun reads hreads r hr => ?_, h.gone, h.result⟩, rfl, rfl⟩
      cases hreads
      obtain ⟨path, hpath, rfl⟩ := mem_map.mp hr
      have hlisted := all_eq_true.mp hall path hpath
      rw [Bool.and_eq_true, any_eq_true] at hlisted
      refine ⟨fun hgone => ?_, ⟨areas, hareas, hlisted.2⟩, fun file hfile => ?_⟩
      · -- what is listed is on the server
        rw [h.gone path hgone] at hlisted
        exact absurd hlisted.1 (by decide)
      · cases hfile
    · cases hs
  · cases hs

theorem Sound.read {k : ℕ} {ok : Bool} (h : f.Sound env server.artifacts)
    (hs : f.read env server k ok = some f') : f'.Sound env server.artifacts ∧ f'.frame = f.frame ∧ f'.result = f.result := by
  obtain ⟨reads, hreads, hs⟩ := Option.bind_eq_some_iff.mp hs
  obtain ⟨r, hr, rfl⟩ := Option.map_eq_some_iff.mp hs
  refine ⟨⟨h.searches, h.storeFiles, fun reads' hreads' r' hr' => ?_, h.gone, h.result⟩, rfl, rfl⟩
  cases hreads'
  have hold := h.reads reads hreads
  rcases mem_or_eq_of_mem_set hr' with hmem | rfl
  · exact hold r' hmem
  · obtain ⟨hgone, hareas, -⟩ := hold r (mem_of_getElem? hr)
    refine ⟨hgone, hareas, fun file hfile => ?_⟩
    cases ok with
    | false => cases hfile
    | true =>
      obtain ⟨artifact, -, rfl⟩ := Option.map_eq_some_iff.mp (Option.some.inj hfile)
      exact ⟨rfl, rfl⟩

/-- **What a fetch returns** belongs to its render, and is nothing that was deleted before. -/
theorem Sound.mem_files (h : f.Sound env server.artifacts) {file : AgentFile} (hfile : file ∈ f.files env) :
    OfView env f.view file ∧ (file.source = .artifact → file.path ∉ f.gone) := by
  rcases mem_mergeFiles hfile with hstore | hartifact | hstate
  · obtain ⟨hsource, hview⟩ := h.storeFiles file hstore
    refine ⟨hview, fun hsource' => ?_⟩
    rw [hsource] at hsource'
    cases hsource'
  · obtain ⟨r, hr, hanswer⟩ := mem_filterMap.mp hartifact
    cases hreads : f.reads with
    | none => simp [hreads] at hr
    | some reads =>
      rw [hreads, Option.getD_some] at hr
      obtain ⟨hgone, hareas, hfiles⟩ := h.reads reads hreads r hr
      obtain ⟨hsource, hpath⟩ := hfiles file (Option.join_eq_some_iff.mp hanswer)
      refine ⟨?_, fun _ => hpath ▸ hgone⟩
      unfold OfView
      rw [hsource, hpath]
      exact hareas
  · have hsource : file.source = .state := by
      obtain ⟨e, -, rfl⟩ := mem_map.mp hstate
      rfl
    refine ⟨?_, fun hsource' => ?_⟩
    · unfold OfView
      rw [hsource]
      exact ⟨file, hstate, rfl, rfl⟩
    · rw [hsource] at hsource'
      cases hsource'

theorem Sound.mem_shown (h : f.Sound env server.artifacts) {stamps : FileStamps} {file : AgentFile}
    (hfile : file ∈ f.shown env stamps) :
    OfView env f.view file ∧ (file.source = .artifact → file.path ∉ f.gone) := by
  rw [shown] at hfile
  split at hfile
  · obtain ⟨own, hown, rfl⟩ := mem_map.mp (mem_mergeSort.mp hfile)
    obtain ⟨at', heq⟩ := stampFile_eq stamps own
    have hmem := h.mem_files hown
    rw [heq]
    exact hmem
  · exact h.mem_files hfile

/-- A write brings an artifact back. -/
theorem Sound.write (h : f.Sound env server.artifacts) (path : String) (artifact : StoredArtifact) :
    { f with gone := f.gone.filter (· ≠ path) }.Sound env
      (server.artifacts.set path artifact) := by
  refine ⟨h.searches, h.storeFiles, fun reads hreads r hr => ?_, fun path' hpath' => ?_,
    fun files hfiles file hfile => ?_⟩
  · obtain ⟨hgone, hrest⟩ := h.reads reads hreads r hr
    exact ⟨fun hmem => hgone (mem_of_mem_filter hmem), hrest⟩
  · obtain ⟨hold, hne⟩ := mem_filter.mp hpath'
    rw [Dict.get?_set_of_ne _ _ (of_decide_eq_true hne)]
    exact h.gone path' hold
  · obtain ⟨hview, hgone⟩ := h.result files hfiles file hfile
    exact ⟨hview, fun hsource hmem => hgone hsource (mem_of_mem_filter hmem)⟩

theorem Sound.erase (h : f.Sound env server.artifacts) (path : String) :
    f.Sound env (server.artifacts.erase path) := by
  refine ⟨h.searches, h.storeFiles, h.reads, fun path' hpath' => ?_, h.result⟩
  rw [Dict.get?_erase]
  split
  · rfl
  · exact h.gone path' hpath'

end FileFetch

/-! ### The invariant -/

/-- The list is what a fetch has set last, where the newest one that has set it did so last. -/
def Latest (results : List (Option (List AgentFile))) (displayed : List AgentFile) : Prop :=
  ((results.filterMap id).getLast?).getD [] = displayed

/-- **The invariant** of ordered runs. -/
structure FilePanel.Inv (env : FilesEnv) (s : FilePanel) : Prop where
  sound : ∀ f ∈ s.fetches, f.Sound env s.server.artifacts
  calls : ∀ call ∈ s.calls, ∀ path ∈ call.deleted, s.server.artifacts.get? path = none
  last : ∃ frame ∈ (s.fetches.map FileFetch.frame).getLast?,
    frame.1.Same s.view ∧ ∀ path ∈ s.deleted, path ∈ frame.2
  latest : Latest (s.fetches.map FileFetch.result) s.displayed

theorem Latest.concat {results : List (Option (List AgentFile))} {displayed : List AgentFile}
    (h : Latest results displayed) : Latest (results ++ [none]) displayed := by
  rw [Latest, filterMap_append]
  simpa [Latest] using h

theorem Latest.set {results : List (Option (List AgentFile))} {i : ℕ} (hi : i < results.length)
    (hlater : ∀ r ∈ results.drop (i + 1), r = none) (files : List AgentFile) :
    Latest (results.set i (some files)) files := by
  have hnone : (results.drop (i + 1)).filterMap id = [] := by
    rw [filterMap_eq_nil_iff]
    exact hlater
  rw [Latest, set_eq_take_append_cons_drop, if_pos hi, filterMap_append,
    filterMap_cons_some (show id (some files) = some files from rfl), hnone]
  simp

theorem Latest.eq_of_forall {results : List (Option (List AgentFile))}
    {displayed files : List AgentFile} (h : Latest results displayed)
    (hlast : results.getLast? = some (some files)) : files = displayed := by
  obtain ⟨init, rfl⟩ := getLast?_eq_some_iff.mp hlast
  rw [Latest, filterMap_append] at h
  simpa using h

theorem map_set_of_eq {α β : Type*} {g : α → β} {l : List α} {i : ℕ} {a a' : α}
    (h : l[i]? = some a) (hg : g a' = g a) : (l.set i a').map g = l.map g := by
  obtain ⟨hi, rfl⟩ := List.getElem?_eq_some_iff.mp h
  rw [map_set, hg, ← map_set, set_getElem_self]

namespace FilePanel

variable {env : FilesEnv} {s s' : FilePanel}

theorem Inv.deleted (h : s.Inv env) {path : String} (hpath : path ∈ s.deleted) :
    s.server.artifacts.get? path = none := by
  obtain ⟨frame, hframe, -, hgone⟩ := h.last
  obtain ⟨f, hf, rfl⟩ := mem_map.mp (mem_of_getLast? hframe)
  exact (h.sound f hf).gone path (hgone path hpath)

/-- A fetch begins for what is shown. -/
theorem Inv.fetch (h : s.Inv env) (s' : FilePanel) (hserver : s'.server = s.server)
    (hfetches : s'.fetches = s.fetches) (hdisplayed : s'.displayed = s.displayed)
    (hcalls : ∀ call ∈ s'.calls, call ∈ s.calls)
    (hdeleted : ∀ path ∈ s'.deleted, s.server.artifacts.get? path = none)
    {view : ChatView} (hview : view.Same s'.view) (refresh : Bool) (now : ℤ) :
    (s'.fetch env view refresh now).Inv env := by
  refine ⟨fun f hf => ?_, fun call hcall => ?_, ?_, ?_⟩
  · show f.Sound env s'.server.artifacts
    rw [hserver]
    rcases mem_append.mp hf with hold | hnew
    · exact h.sound f (hfetches ▸ hold)
    · rw [mem_singleton.mp hnew]
      exact FileFetch.start_sound view refresh hdeleted
  · show ∀ path ∈ call.deleted, s'.server.artifacts.get? path = none
    rw [hserver]
    exact h.calls call (hcalls call hcall)
  · refine ⟨(view, s'.deleted), ?_, hview, fun _ hpath => hpath⟩
    show _ ∈ (map FileFetch.frame (s'.fetches ++ [.start view refresh s'.deleted])).getLast?
    rw [map_append, map_singleton, getLast?_append_of_ne_nil _ (cons_ne_nil _ _)]
    rfl
  · show Latest (map FileFetch.result (s'.fetches ++ [.start view refresh s'.deleted])) _
    rw [map_append, hfetches]
    exact hdisplayed ▸ h.latest.concat

/-- A fetch gets an answer. -/
theorem Inv.progress (h : s.Inv env) {i : ℕ} {step : FileFetch → Option FileFetch}
    (hstep : ∀ f f', f.Sound env s.server.artifacts → step f = some f' →
      f'.Sound env s.server.artifacts ∧ f'.frame = f.frame ∧ f'.result = f.result)
    (hs : s.progress i step = some s') : s'.Inv env := by
  obtain ⟨f, hf, hs⟩ := Option.bind_eq_some_iff.mp hs
  obtain ⟨f', hf', rfl⟩ := Option.map_eq_some_iff.mp hs
  obtain ⟨hsound, hframe, hresult⟩ := hstep f f' (h.sound f (mem_of_getElem? hf)) hf'
  refine ⟨fun g hg => ?_, h.calls, ?_, ?_⟩
  · rcases mem_or_eq_of_mem_set hg with hold | rfl
    · exact h.sound g hold
    · exact hsound
  · show ∃ frame ∈ ((s.fetches.set i f').map FileFetch.frame).getLast?, _
    rw [map_set_of_eq hf hframe]
    exact h.last
  · show Latest ((s.fetches.set i f').map FileFetch.result) _
    rw [map_set_of_eq hf hresult]
    exact h.latest

/-- A fetch sets the list, before each newer one. -/
theorem Inv.install (h : s.Inv env) {i : ℕ}
    (hlater : ∀ f ∈ s.fetches.drop (i + 1), f.result.isNone = true)
    (hs : s.install env i = some s') : s'.Inv env := by
  obtain ⟨f, hf, hs⟩ := Option.bind_eq_some_iff.mp hs
  split at hs
  · cases hs
    have hsound := h.sound f (mem_of_getElem? hf)
    refine ⟨fun g hg => ?_, h.calls, ?_, ?_⟩
    · rcases mem_or_eq_of_mem_set hg with hold | rfl
      · exact h.sound g hold
      · refine ⟨hsound.searches, hsound.storeFiles, hsound.reads, hsound.gone,
          fun files hfiles file hfile => ?_⟩
        cases hfiles
        exact hsound.mem_shown hfile
    · have hframe : { f with result := some (f.shown env s.stamps) }.frame = f.frame := rfl
      show ∃ frame ∈ ((s.fetches.set i _).map FileFetch.frame).getLast?, _
      rw [map_set_of_eq hf hframe]
      exact h.last
    · show Latest ((s.fetches.set i _).map FileFetch.result) _
      rw [map_set]
      refine Latest.set ?_ ?_ _
      · rw [length_map]
        exact (List.getElem?_eq_some_iff.mp hf).1
      · rw [← map_drop]
        exact forall_mem_map.mpr fun f hf => Option.isNone_iff_eq_none.mp (hlater f hf)
  · cases hs

/-- An artifact is written, and so it is no longer deleted. -/
theorem Inv.writeArtifact (h : s.Inv env) (path : String) (artifact : StoredArtifact) :
    (s.writeArtifact path artifact).Inv env := by
  refine ⟨fun f hf => ?_, fun call hcall p hp => ?_, ?_, ?_⟩
  · obtain ⟨g, hg, rfl⟩ := mem_map.mp hf
    exact (h.sound g hg).write path artifact
  · obtain ⟨c, hc, rfl⟩ := mem_map.mp hcall
    obtain ⟨hold, hne⟩ := mem_filter.mp hp
    show (s.server.artifacts.set path artifact).get? p = none
    rw [Dict.get?_set_of_ne _ _ (of_decide_eq_true hne)]
    exact h.calls c hc p hold
  · obtain ⟨frame, hframe, hsame, hgone⟩ := h.last
    refine ⟨(frame.1, frame.2.filter (· ≠ path)), ?_, hsame, fun p hp => ?_⟩
    · obtain ⟨f, hf, rfl⟩ := Option.map_eq_some_iff.mp (getLast?_map ▸ hframe)
      show _ ∈ ((s.fetches.map _).map FileFetch.frame).getLast?
      rw [map_map, getLast?_map, hf]
      rfl
    · obtain ⟨hold, hne⟩ := mem_filter.mp hp
      exact mem_filter.mpr ⟨hgone p hold, hne⟩
  · show Latest ((s.fetches.map _).map FileFetch.result) _
    rw [map_map]
    exact h.latest

theorem Inv.eraseArtifact (h : s.Inv env) (path : String) {calls : List FilesCall}
    (hcalls : ∀ call ∈ calls, ∀ p ∈ call.deleted,
      p = path ∨ s.server.artifacts.get? p = none) :
    (eraseArtifact { s with calls := calls } path).Inv env := by
  refine ⟨fun f hf => (h.sound f hf).erase path, fun call hcall p hp => ?_, h.last, h.latest⟩
  show (s.server.artifacts.erase path).get? p = none
  rw [Dict.get?_erase]
  split
  · rfl
  · next hne => exact (hcalls call hcall p hp).resolve_left hne

theorem Inv.withCalls (h : s.Inv env) {calls : List FilesCall}
    (hcalls : ∀ call ∈ calls, ∀ path ∈ call.deleted, s.server.artifacts.get? path = none) :
    { s with calls := calls }.Inv env :=
  ⟨h.sound, hcalls, h.last, h.latest⟩

theorem Inv.withService (h : s.Inv env) (service : StoreService) :
    { s with server := { s.server with service := service } }.Inv env :=
  ⟨h.sound, h.calls, h.last, h.latest⟩

theorem Inv.call (h : s.Inv env) {calls : List FilesCall} (hnew : ∀ call ∈ calls, call.deleted = []) :
    { s with calls := s.calls ++ calls }.Inv env := by
  apply h.withCalls
  intro call hcall path hpath
  rcases mem_append.mp hcall with hold | hmem
  · exact h.calls call hold path hpath
  · rw [hnew call hmem] at hpath
    cases hpath

/-- A request of a call is answered. -/
theorem Inv.answer (h : s.Inv env) {i k : ℕ} {ok : Bool} {now : String}
    (hs : s.answer i k ok now = some s') : s'.Inv env := by
  obtain ⟨call, hcall, hs⟩ := Option.bind_eq_some_iff.mp hs
  obtain ⟨request, -, hs⟩ := Option.bind_eq_some_iff.mp hs
  have hold := h.calls call (mem_of_getElem? hcall)
  -- the other calls stay as they are
  have hset : ∀ call' : FilesCall, (∀ p ∈ call'.deleted, p ∈ call.deleted) →
      { s with calls := s.calls.set i call' }.Inv env := by
    intro call' hsub
    apply h.withCalls
    intro c hc p hp
    rcases mem_or_eq_of_mem_set hc with hmem | rfl
    · exact h.calls c hmem p hp
    · exact hold p (hsub p hp)
  split at hs
  · cases request with
    | write w =>
      cases w with
      | putItem labels key content encoding =>
        cases hs
        exact (hset _ (by simp)).withService _
      | artifact path content encoding =>
        cases hs
        exact (hset _ (by simp)).writeArtifact path _
      | updateState threadId files =>
        cases hs
        exact (hset _ (by simp)).withService _
      | error message => cases hs
    | delete path =>
      cases hs
      apply h.eraseArtifact
      intro c hc p hp
      rcases mem_or_eq_of_mem_set hc with hmem | rfl
      · exact .inr (h.calls c hmem p hp)
      · rcases mem_append.mp hp with hp | hp
        · exact .inr (hold p hp)
        · exact .inl (mem_singleton.mp hp)
  · cases hs
    exact hset _ fun _ hp => hp

/-- A call goes on to its end. -/
theorem Inv.proceed (h : s.Inv env) {i : ℕ} {now : ℤ}
    (hview : ∀ c ∈ s.calls[i]?, c.next.isSome = true → c.view.Same s.view)
    (hs : s.proceed env i now = some s') : s'.Inv env := by
  obtain ⟨call, hcall, hs⟩ := Option.bind_eq_some_iff.mp hs
  split at hs
  · dsimp only at hs
    split at hs
    · cases hs
      exact h.withCalls fun c hc => h.calls c (mem_of_mem_eraseIdx hc)
    · next refresh hnext =>
      cases hs
      have hdeleted : ∀ path ∈ s.deleted ++ call.deleted, s.server.artifacts.get? path = none := by
        intro path hpath
        rcases mem_append.mp hpath with hp | hp
        · exact h.deleted hp
        · exact h.calls call (mem_of_getElem? hcall) path hp
      have hsame := hview call hcall (Option.isSome_iff_exists.mpr ⟨refresh, hnext⟩)
      exact h.fetch { s with calls := s.calls.eraseIdx i, deleted := s.deleted ++ call.deleted }
        rfl rfl rfl (fun c hc => mem_of_mem_eraseIdx hc) hdeleted hsame refresh now
  · cases hs

theorem Inv.render (h : s.Inv env) (view : ChatView) (now : ℤ) : (s.render env view now).Inv env := by
  rw [FilePanel.render]
  split
  · next hsame =>
    obtain ⟨frame, hframe, hlast, hgone⟩ := h.last
    refine ⟨h.sound, h.calls, ⟨frame, hframe, ?_, hgone⟩, h.latest⟩
    exact ⟨hlast.1.trans hsame.1.symm, hlast.2.trans hsame.2.symm⟩
  · exact h.fetch { s with view := view, views := s.views ++ [view] } rfl rfl rfl (fun _ hc => hc)
      (fun _ hp => h.deleted hp) ⟨rfl, rfl⟩ true now

/-- **One step** in order keeps the invariant. -/
theorem Inv.step (h : s.Inv env) {a : FileAction} (ha : s.InOrder a)
    (hs : (filePanel env).step s a = some s') : s'.Inv env := by
  cases a with
  | render view now =>
    cases hs
    exact h.render view now
  | loading now =>
    cases hs
    exact h.fetch s rfl rfl rfl (fun _ hc => hc) (fun _ hp => h.deleted hp) ⟨rfl, rfl⟩ true now
  | refreshFiles render now =>
    obtain ⟨view, hview, rfl⟩ := Option.map_eq_some_iff.mp hs
    exact h.fetch s rfl rfl rfl (fun _ hc => hc) (fun _ hp => h.deleted hp) (ha view hview) true now
  | setFiles render files =>
    obtain ⟨view, -, rfl⟩ := Option.map_eq_some_iff.mp hs
    refine h.call fun call hcall => ?_
    rw [mem_singleton.mp hcall]
    rfl
  | removeFile render path =>
    obtain ⟨view, -, rfl⟩ := Option.map_eq_some_iff.mp hs
    refine h.call fun call hcall => ?_
    obtain ⟨sourceKey, -, rfl⟩ := Option.map_eq_some_iff.mp (Option.mem_toList.mp hcall)
    rfl
  | removeFiles render paths =>
    obtain ⟨view, -, rfl⟩ := Option.map_eq_some_iff.mp hs
    refine h.call fun call hcall => ?_
    rw [mem_singleton.mp hcall]
    rfl
  | answer call request ok now => exact h.answer hs
  | proceed call now => exact h.proceed ha hs
  | search fetch pathPrefix ok => exact h.progress (fun f f' hf => hf.search) hs
  | list fetch listed => exact h.progress (fun f f' hf => hf.list) hs
  | read fetch read ok => exact h.progress (fun f f' hf => hf.read) hs
  | install fetch => exact h.install ha hs
  | agentStore service =>
    cases hs
    exact h.withService service
  | agentWrite path artifact =>
    cases hs
    exact h.writeArtifact path artifact
  | agentDelete path =>
    cases hs
    exact h.eraseArtifact path fun call hcall p hp => .inr (h.calls call hcall p hp)

theorem inv_init (h : (filePanel env).init s) : s.Inv env := by
  obtain ⟨view, server, now, rfl⟩ := h
  refine ⟨fun f hf => ?_, fun call hcall => ?_, ?_, rfl⟩
  · rw [mem_singleton.mp hf]
    exact FileFetch.start_sound view true fun _ hp => absurd hp not_mem_nil
  · cases hcall
  · exact ⟨(view, []), rfl, ⟨rfl, rfl⟩, fun _ hp => hp⟩

end FilePanel

/-- **In ordered runs, while no fetch is under way, the list is that of the last fetch.** -/
theorem showsLastFetch_of_inOrder (env : FilesEnv) {s : FilePanel}
    (h : (filePanel env).Reachable FilePanel.InOrder s)
    (hdone : ∀ f ∈ s.fetches, f.result.isSome = true) : ShowsLastFetch env s := by
  have hinv : s.Inv env := h.invariant (fun _ => FilePanel.inv_init)
    fun _ _ _ _ hs ha hstep => hs.step ha hstep
  obtain ⟨frame, hframe, hsame, hgone⟩ := hinv.last
  obtain ⟨f, hf, rfl⟩ := Option.map_eq_some_iff.mp (getLast?_map ▸ hframe)
  obtain ⟨files, hfiles⟩ := Option.isSome_iff_exists.mp (hdone f (mem_of_getLast? hf))
  have hshown : files = s.displayed := by
    apply hinv.latest.eq_of_forall
    rw [getLast?_map, hf, Option.map_some, hfiles]
  subst hshown
  have hresult := (hinv.sound f (mem_of_getLast? hf)).result _ hfiles
  exact ⟨⟨f, hf, hfiles⟩, fun file hfile => (hresult file hfile).1.of_same hsame,
    fun file hfile hsource hdeleted => (hresult file hfile).2 hsource (hgone _ hdeleted)⟩

/-! ### An older fetch that completes last -/

/-- A thread of the analytics agent with one file. -/
def draftView : ChatView where
  threadId := some "t1"
  graphId := some "analytics_agent"
  stateFiles := { entries := [("/draft.md", .str "x")], nodup := nodup_singleton _ }

/-- Its entry. -/
def draftFile : AgentFile where
  path := "/draft.md"
  content := "x"
  source := .state
  sourceKey := "/draft.md"

/-- Another thread, without files. -/
def emptyView : ChatView where
  threadId := some "t2"
  graphId := some "analytics_agent"
  stateFiles := {}

theorem nodup_noItems : ([] : List (List Char × String)).Nodup := nodup_nil

/-- A chat that shows the first of the two threads. -/
def draftChat : FilePanel :=
  FilePanel.fetch plainFilesEnv
    { view := draftView
      views := [draftView]
      server := {
        service := { items := [], nodup := nodup_noItems, order := id, order_perm := fun _ => .refl _ }
        artifacts := {} } } draftView true 0

/-- The thread changes, and each fetch completes before the next. -/
def olderFirst : List FileAction :=
  [.render emptyView 1, .list 0 (some []), .install 0, .list 1 (some []), .install 1]

theorem showsLastFetch_olderFirst : ∃ s,
    (filePanel plainFilesEnv).run draftChat olderFirst = some s ∧
      ShowsLastFetch plainFilesEnv s := by
  have hinit : (filePanel plainFilesEnv).init draftChat := ⟨_, _, _, rfl⟩
  have hrun : (filePanel plainFilesEnv).Reachable FilePanel.InOrder _ :=
    (Machine.Reachable.init hinit).runGuarded
      (show (filePanel plainFilesEnv).runGuarded _ draftChat olderFirst = some _ from rfl)
  exact ⟨_, rfl, showsLastFetch_of_inOrder plainFilesEnv hrun (by decide)⟩

/-- The thread changes, and the second fetch completes before the first. -/
def olderLast : List FileAction :=
  [.render emptyView 1, .list 1 (some []), .install 1, .list 0 (some []), .install 0]

/-- The file of the first thread is shown in the second. -/
theorem not_showsLastFetch : ¬ ∀ env s, (filePanel env).Reachable Machine.free s →
    (∀ f ∈ s.fetches, f.result.isSome = true) → ShowsLastFetch env s := by
  intro h
  have hinit : (filePanel plainFilesEnv).init draftChat := ⟨_, _, _, rfl⟩
  have hrun : (filePanel plainFilesEnv).Reachable Machine.free _ :=
    (Machine.Reachable.init hinit).run (fun _ _ _ => trivial)
      (show (filePanel plainFilesEnv).run draftChat olderLast = some _ from rfl)
  have hown := (h plainFilesEnv _ hrun (by decide)).own draftFile
  obtain ⟨own, hmem, -⟩ : OfView plainFilesEnv emptyView draftFile := by
    apply hown
    refine mem_mergeSort.mpr (mem_map.mpr ⟨draftFile, mem_mergeSort.mpr ?_, rfl⟩)
    exact mem_singleton.mpr rfl
  cases hmem

end NextRole
