import NextRole.Frontend.AgentFiles

/-!
# Listing the store and saving to it

The list shows an item under the area of the search that found it and under its key with a slash in
front, and a save takes the path apart again.  The path says nothing of a deeper namespace, nor of a
key without a slash, and a search returns two hundred items.

## Main definitions

* `StoreSources.Plain` — the areas are single segments, none of which starts another.
* `storedItems`, `ListedAs` — the items of an agent, and their entries.
* `ListingFaithful` — each item is listed once, and a save goes back to it.
* `StoredPlainly` — the contents of the store for which this is so.

## Main results

* `resolveStoreLocation_path` — a path is taken apart as it was put together.
* `setFilesWrites_eq` — a save of one changed entry is one write.
* `listingFaithful_iff` — **the listing is faithful exactly of a store without deeper namespaces,
  with slashes in front of keys and with at most two hundred items in each area**.
* `not_listingFaithful` — an item of a deeper namespace is saved somewhere else.
-/

namespace NextRole

open List

/-! ### Areas -/

/-- The areas of an agent are single segments, and none of them starts another one. -/
structure StoreSources.Plain (cfg : StoreSources) (areas : List String) : Prop where
  prefixes : cfg.pathPrefixes = areas.map fun area => "/" ++ area ++ "/"
  ne_empty : ∀ area ∈ areas, area ≠ ""
  slash_notMem : ∀ area ∈ areas, '/' ∉ area.toList
  apart : ∀ area ∈ areas, ∀ area' ∈ areas, area.toList <+: area'.toList → area = area'

theorem startsWith_iff_toList {s start : String} :
    startsWith s start = true ↔ start.toList <+: s.toList :=
  List.isPrefixOf_iff_prefix

theorem exists_namespaceText_concat (labels : List String) :
    ∃ base, ∀ label, namespaceText (labels ++ [label]) = base ++ label.toList := by
  induction labels with
  | nil => exact ⟨[], fun label => by simp [namespaceText]⟩
  | cons first labels ih =>
    obtain ⟨base, hbase⟩ := ih
    refine ⟨first.toList ++ '.' :: base, fun label => ?_⟩
    have hne : (labels ++ [label]).map String.toList ≠ [] := by simp
    rw [namespaceText, cons_append, map_cons, Path.join_cons_of_ne_nil _ hne, ← namespaceText,
      hbase, append_assoc, cons_append]

theorem startsWith_slashKey (key : String) : startsWith (slashKey key) "/" = true := by
  rw [slashKey]
  split
  · next h => exact h
  · rw [startsWith_iff_toList, String.toList_append]
    exact prefix_append _ _

theorem slashKey_of_startsWith {key : String} (h : startsWith key "/" = true) :
    slashKey key = key := if_pos h

theorem findSome?_eq_of_forall {α β : Type} {f : α → Option β} {l : List α} {a : α} {b : β}
    (ha : a ∈ l) (hb : f a = some b) (h : ∀ x ∈ l, ∀ y, f x = some y → y = b) :
    l.findSome? f = some b := by
  cases hfind : l.findSome? f with
  | none => exact absurd (hb.symm.trans (findSome?_eq_none_iff.mp hfind a ha)) nofun
  | some y =>
    obtain ⟨x, hx, hy⟩ := exists_of_findSome?_eq_some hfind
    rw [h x hx y hy]

section Areas

variable {cfg : StoreSources} {areas : List String} (hcfg : cfg.Plain areas)

include hcfg

theorem StoreSources.Plain.trimSlashes_area {area : String} (h : area ∈ areas) :
    trimSlashes ("/" ++ area ++ "/") = "/" ++ area := by
  have hne := hcfg.ne_empty area h
  have hlast : ∀ (l : List Char), l ≠ [] → '/' ∉ l →
      (l ++ ['/']).rdropWhile (fun c => c = '/') = l := by
    intro l hl hslash
    obtain ⟨init, c, rfl⟩ := eq_nil_or_concat l |>.resolve_left hl
    have hc : ¬ (c = '/') := fun hc => hslash (by simp [hc])
    rw [rdropWhile_concat_pos _ _ _ (by simp), concat_eq_append,
      rdropWhile_concat_neg _ _ _ (by simpa using hc)]
  have harea : area.toList ≠ [] := by simpa using hne
  have hkeep : ('/' :: (area.toList ++ ['/'])).rdropWhile (fun c => c = '/') =
      '/' :: area.toList := by
    have hrest := hlast area.toList harea (hcfg.slash_notMem area h)
    have happend := @rdropWhile_append_of_ne_nil _ (fun c => c = '/') (area.toList ++ ['/'])
      (by rwa [hrest]) ['/']
    rw [hrest] at happend
    exact happend
  rw [trimSlashes, ← String.toList_inj, String.toList_ofList]
  simpa using hkeep

theorem StoreSources.Plain.namespaceOf_area {area : String} (h : area ∈ areas) :
    cfg.namespaceOf ("/" ++ area ++ "/") = cfg.namespacePrefix ++ [area] := by
  have hseg : Path.IsSegment '/' (fun x : List Char => decide (x ≠ [])) area.toList :=
    ⟨hcfg.slash_notMem area h, by simpa using hcfg.ne_empty area h⟩
  have hsegments : Path.segments '/' (fun x : List Char => decide (x ≠ [])) ("/" ++ area).toList =
      [area.toList] := by
    rw [String.toList_append]
    exact (Path.segments_cons_sep (by simp) _).trans hseg.segments_eq
  rw [StoreSources.namespaceOf, hcfg.trimSlashes_area h, slashSegments, hsegments, map_singleton,
    String.ofList_toList]

theorem StoreSources.Plain.path_storeFile {area : String} (h : area ∈ areas) (env : FilesEnv)
    (item : StampedItem) :
    (storeFile env ("/" ++ area ++ "/") item).path = "/" ++ area ++ slashKey item.key := by
  rw [storeFile, hcfg.trimSlashes_area h]

theorem StoreSources.Plain.path_inj {area area' key key' : String} (h : area ∈ areas)
    (h' : area' ∈ areas) (hkey : startsWith key "/" = true) (hkey' : startsWith key' "/" = true)
    (heq : "/" ++ area ++ key = "/" ++ area' ++ key') : area = area' ∧ key = key' := by
  obtain ⟨rest, hrest⟩ := startsWith_iff_toList.mp hkey
  obtain ⟨rest', hrest'⟩ := startsWith_iff_toList.mp hkey'
  have hlists := congrArg String.toList heq
  simp only [String.toList_append, ← hrest, ← hrest', append_assoc] at hlists
  obtain ⟨harea, hrests⟩ := Path.sep_append_inj (hcfg.slash_notMem area h)
    (hcfg.slash_notMem area' h') (append_cancel_left hlists)
  obtain rfl : rest = rest' := hrests
  exact ⟨String.toList_inj.mp harea, String.toList_inj.mp (hrest.symm.trans hrest')⟩

/-- **A path is taken apart as it was put together.** -/
theorem StoreSources.Plain.resolve_path {area key : String} (h : area ∈ areas)
    (hkey : startsWith key "/" = true) :
    resolveStoreLocation cfg ("/" ++ area ++ key) = some (cfg.namespacePrefix ++ [area], key) := by
  obtain ⟨rest, hrest⟩ := startsWith_iff_toList.mp hkey
  have hpath : ("/" ++ area ++ key).toList = '/' :: (area.toList ++ '/' :: rest) := by
    rw [String.toList_append, String.toList_append, ← hrest]
    rfl
  have harea : "/" ++ area ++ "/" ∈
      cfg.pathPrefixes.mergeSort (fun a b => decide (b.length ≤ a.length)) := by
    rw [(mergeSort_perm _ _).mem_iff, hcfg.prefixes]
    exact mem_map_of_mem h
  rw [resolveStoreLocation]
  refine findSome?_eq_of_forall harea ?_ fun pathPrefix hmem location hsome => ?_
  · have hstart : startsWith ("/" ++ area ++ key) ("/" ++ area ++ "/") = true := by
      rw [startsWith_iff_toList, @String.toList_append ("/" ++ area) "/",
        @String.toList_append ("/" ++ area) key]
      exact (prefix_append_right_inj _).mpr (startsWith_iff_toList.mp hkey)
    have hdrop : ("/" ++ area ++ key).toList.drop ("/" ++ area).length = key.toList := by
      rw [String.toList_append, ← String.length_toList, drop_left]
    simp only [hcfg.trimSlashes_area h, hcfg.namespaceOf_area h, hstart, or_true, if_true, hdrop,
      String.ofList_toList, slashKey_of_startsWith hkey]
  · rw [(mergeSort_perm _ _).mem_iff, hcfg.prefixes] at hmem
    obtain ⟨area', harea', rfl⟩ := mem_map.mp hmem
    simp only [hcfg.trimSlashes_area harea', hcfg.namespaceOf_area harea'] at hsome
    split at hsome
    · next hmatch =>
      obtain rfl : area' = area := by
        rcases hmatch with heq | hstart
        · -- an area has no slash
          have hlists := congrArg String.toList heq
          rw [hpath, String.toList_append] at hlists
          obtain hlists : area.toList ++ '/' :: rest = area'.toList := (cons.inj hlists).2
          exact absurd (hlists ▸ mem_append_right _ mem_cons_self)
            (hcfg.slash_notMem area' harea')
        · obtain ⟨rest', hrest'⟩ := startsWith_iff_toList.mp hstart
          rw [hpath, String.toList_append, String.toList_append, append_assoc] at hrest'
          obtain hlists : area'.toList ++ '/' :: rest' = area.toList ++ '/' :: rest := by
            simpa using hrest'
          exact String.toList_inj.mp (Path.sep_append_inj (hcfg.slash_notMem area' harea')
            (hcfg.slash_notMem area h) hlists).1
      have hdrop : ("/" ++ area' ++ key).toList.drop ("/" ++ area').length = key.toList := by
        rw [String.toList_append, ← String.length_toList, drop_left]
      rw [hdrop, String.ofList_toList, slashKey_of_startsWith hkey] at hsome
      exact (Option.some.inj hsome).symm
    · cases hsome

end Areas

/-! ### The list -/

/-- The areas of an agent in the order in which their searches complete. -/
abbrev Completed (graphId : Option String) : Type :=
  { completed : List String //
    completed.Perm ((((getAgentFileSources graphId).bind AgentFileSources.store).map
      StoreSources.pathPrefixes).getD []) }

section

variable (env : FilesEnv) (service : StoreService) (graphId : Option String)

/-- The items of the store that are an agent's. -/
def storedItems : List StampedItem :=
  match (getAgentFileSources graphId).bind AgentFileSources.store with
  | some cfg => service.items.filter fun item =>
      cfg.pathPrefixes.any fun pathPrefix =>
        (namespaceText (cfg.namespaceOf pathPrefix)).isPrefixOf item.text
  | none => []

/-- An entry of an item: what the search of an area makes of it. -/
def ListedAs (file : AgentFile) (item : StampedItem) : Prop :=
  ∃ cfg, (getAgentFileSources graphId).bind AgentFileSources.store = some cfg ∧
    ∃ pathPrefix ∈ cfg.pathPrefixes, item ∈ service.found (cfg.namespaceOf pathPrefix) ∧
      file = storeFile env pathPrefix item

/-- The list of an agent's files, without artifacts and files of the state. -/
def storeListing (completed : Completed graphId) : List AgentFile :=
  fetchAgentFiles env service completed [] graphId []

/-- The files that are saved: those of the list, one of them with another content. -/
def changedFiles (list : List AgentFile) (path content : String) : List (String × String) :=
  ((Dict.setAll {} (list.map fun file => (file.path, file.content))).set path content).entries

/-- The item that a save updates. -/
def StampedItem.saved (item : StampedItem) (content now : String) : StampedItem :=
  { item with value := fileValue content (encodingOf item.value), updatedAt := some now }

/-- Each item is listed once, and a save of its entry is one write, which updates the item. -/
structure ListingFaithful (completed : Completed graphId) : Prop where
  complete : ∀ item ∈ storedItems service graphId,
    ∃! file, file ∈ storeListing env service graphId completed ∧
      ListedAs env service graphId file item
  sound : ∀ file ∈ storeListing env service graphId completed,
    ∃! item, item ∈ storedItems service graphId ∧ ListedAs env service graphId file item
  apart : ((storeListing env service graphId completed).map AgentFile.path).Nodup
  saves : ∀ item ∈ storedItems service graphId,
    ∀ file ∈ storeListing env service graphId completed, ListedAs env service graphId file item →
      ∀ threadId content now, content ≠ file.content → ∃ labels key,
        setFilesWrites threadId graphId (storeListing env service graphId completed)
          (changedFiles (storeListing env service graphId completed) file.path content) =
            [.putItem labels key content (encodingOf item.value)] ∧
        item.isAt labels key = true ∧
        (FileWrite.putItem labels key content (encodingOf item.value)).applyTo service.items now =
          service.items.map fun other => if other = item then item.saved content now else other

/-- No item is in a deeper namespace, keys have a slash in front, and no area has more items than a
search returns. -/
def StoredPlainly : Prop :=
  ∀ cfg, (getAgentFileSources graphId).bind AgentFileSources.store = some cfg →
    ∀ pathPrefix ∈ cfg.pathPrefixes,
      (service.found (cfg.namespaceOf pathPrefix)).length ≤ 200 ∧
        ∀ item ∈ service.found (cfg.namespaceOf pathPrefix),
          item.text = namespaceText (cfg.namespaceOf pathPrefix) ∧ startsWith item.key "/" = true

end

/-! ### Saves -/

/-- The files that are saved are the list, with the new content in its place. -/
theorem changedFiles_eq {list : List AgentFile} (hnodup : (list.map AgentFile.path).Nodup)
    {file : AgentFile} (hfile : file ∈ list) (content : String) :
    changedFiles list file.path content = list.map fun other =>
      (other.path, if other.path = file.path then content else other.content) := by
  have hkeys : (list.map fun file => (file.path, file.content)).map Prod.fst =
      list.map AgentFile.path := by
    rw [map_map]
    rfl
  have hentries := @Dict.entries_setAll _ _ _ (list.map fun file => (file.path, file.content)) {}
    (by rwa [nil_append, hkeys])
  have hset := @Dict.setEntries_of_mem _ _ _ file.path content
    (list.map fun file => (file.path, file.content)) (by rwa [hkeys])
    (by rw [hkeys]; exact mem_map_of_mem hfile)
  refine (congrArg (Dict.setEntries file.path content) hentries).trans ?_
  rw [nil_append, hset, map_map]
  refine map_congr_left fun other _ => ?_
  rw [Function.comp_apply]
  by_cases heq : other.path = file.path
  · rw [if_pos heq, if_pos heq, heq]
  · rw [if_neg heq, if_neg heq]

/-- Entries that are not changed add nothing to a save. -/
theorem foldl_add_unchanged {threadId graphId : Option String} {current : Dict String AgentFile}
    {l : List (String × String)} (h : ∀ e ∈ l, ∃ file, current.get? e.1 = some file ∧
      file.source = .store ∧ file.content = e.2) (plan : SavePlan) :
    l.foldl (fun (plan : SavePlan) e => plan.add threadId graphId current e.1 e.2) plan = plan := by
  induction l with
  | nil => rfl
  | cons e l ih =>
    obtain ⟨he, hl⟩ := forall_mem_cons.mp h
    obtain ⟨file, hget, hsource, hcontent⟩ := he
    have hskip : plan.add threadId graphId current e.1 e.2 = plan := by
      simp [SavePlan.add, hget, hsource, hcontent]
    rw [foldl_cons, hskip, ih hl]

/-- **A save of one changed entry is one write.** -/
theorem setFilesWrites_eq {threadId graphId : Option String} {list : List AgentFile}
    (hsources : (getAgentFileSources graphId).isSome = true)
    (hstore : ∀ file ∈ list, file.source = .store) (hnodup : (list.map AgentFile.path).Nodup)
    {file : AgentFile} (hfile : file ∈ list) {content : String} (hne : content ≠ file.content) :
    setFilesWrites threadId graphId list (changedFiles list file.path content) =
      [writeAgentFile threadId graphId { file with content := content } {}] := by
  obtain ⟨before, after, rfl⟩ := append_of_mem hfile
  have hother : ∀ other ∈ before ++ after, other.path ≠ file.path := by
    intro other hmem heq
    rw [map_append, map_cons, nodup_middle, nodup_cons] at hnodup
    exact hnodup.1 (heq ▸ map_append.symm ▸ mem_map_of_mem hmem)
  -- entries other than the changed one are as they were
  have hskip : ∀ l : List AgentFile, (∀ other ∈ l, other ∈ before ++ after) → ∀ plan : SavePlan,
      (l.map fun other => (other.path,
        if other.path = file.path then content else other.content)).foldl
          (fun (plan : SavePlan) e => plan.add threadId graphId
            (filesByPath (before ++ file :: after)) e.1 e.2) plan = plan := by
    intro l hl plan
    refine foldl_add_unchanged (fun e he => ?_) plan
    obtain ⟨other, hmem, rfl⟩ := mem_map.mp he
    have hmem' : other ∈ before ++ file :: after := by
      rcases mem_append.mp (hl other hmem) with h | h
      · exact mem_append_left _ h
      · exact mem_append_right _ (mem_cons_of_mem _ h)
    exact ⟨other, get?_filesByPath hnodup hmem', hstore other hmem',
      (if_neg (hother other (hl other hmem))).symm⟩
  have hexternal : ¬ (getAgentFileSources graphId).isNone = true := by
    simpa using Option.isSome_iff_ne_none.mp hsources
  rw [changedFiles_eq hnodup hfile, setFilesWrites, if_neg hexternal, map_append, map_cons,
    if_pos rfl, foldl_append, foldl_cons,
    hskip before fun other h => mem_append_left _ h,
    hskip after fun other h => mem_append_right _ h]
  simp [SavePlan.add, get?_filesByPath hnodup hfile, hstore file hfile, Ne.symm hne]

/-! ### What the list shows -/

/-- The areas of the only agent with store files. -/
theorem plain_of_store {graphId : Option String} {cfg : StoreSources}
    (h : (getAgentFileSources graphId).bind AgentFileSources.store = some cfg) :
    ∃ areas, cfg.Plain areas := by
  refine ⟨["memory", "processed", "research", "interview_coach", "workspace"], ?_⟩
  obtain ⟨sources, hsources, hstore⟩ := Option.bind_eq_some_iff.mp h
  obtain ⟨id, -, hlookup⟩ := Option.bind_eq_some_iff.mp hsources
  have hmem := (Dict.lookup_eq_some_iff (l := agentFileSources) (by decide)).mp hlookup
  simp only [agentFileSources, mem_cons, Prod.mk.injEq, not_mem_nil, or_false] at hmem
  rcases hmem with ⟨-, rfl⟩ | ⟨-, rfl⟩
  · cases hstore
  · cases hstore
    exact ⟨rfl, by decide, by decide, by decide⟩

section

variable {service : StoreService}

theorem mem_searchItems {labels : List String} {item : StampedItem}
    (hlength : (service.found labels).length ≤ 200) :
    item ∈ service.searchItems labels 200 ↔ item ∈ service.found labels := by
  have hperm := service.order_perm (service.found labels)
  rw [StoreService.searchItems, take_of_length_le (hperm.length_eq.trans_le hlength), hperm.mem_iff]

theorem found_of_searched {labels : List String} {item : StampedItem}
    (h : item ∈ service.searchItems labels 200) : item ∈ service.found labels :=
  (service.order_perm _).mem_iff.mp (mem_of_mem_take h)

theorem eq_of_found {labels labels' : List String} {item item' : StampedItem}
    (h : item ∈ service.found labels) (h' : item' ∈ service.found labels')
    (htext : item.text = item'.text) (hkey : item.key = item'.key) : item = item' :=
  inj_on_of_nodup_map service.nodup (mem_of_mem_filter h) (mem_of_mem_filter h')
    (by rw [htext, hkey])

/-- The save of an item's entry leaves all other items. -/
theorem applyTo_putItem {labels : List String} {item : StampedItem} (hitem : item ∈ service.items)
    (htext : item.text = namespaceText labels) (content now : String) :
    (FileWrite.putItem labels item.key content (encodingOf item.value)).applyTo service.items now =
        service.items.map fun other => if other = item then item.saved content now else other := by
  have hat : ∀ other ∈ service.items,
      other.isAt labels item.key = true ↔ other = item := by
    intro other hother
    simp only [StoreItem.isAt, Bool.and_eq_true, decide_eq_true_eq, ← htext]
    constructor
    · rintro ⟨hsame, hkeys⟩
      exact inj_on_of_nodup_map service.nodup hother hitem (by rw [hsame, hkeys])
    · rintro rfl
      exact ⟨rfl, rfl⟩
  have hany : (service.items.any fun other =>
      other.isAt labels item.key) = true :=
    any_eq_true.mpr ⟨item, hitem, (hat item hitem).mpr rfl⟩
  rw [FileWrite.applyTo, writeItem, if_pos hany]
  refine map_congr_left fun other hother => ?_
  by_cases heq : other = item
  · rw [if_pos ((hat other hother).mpr heq), if_pos heq, heq]
    rfl
  · rw [if_neg fun h => heq ((hat other hother).mp h), if_neg heq]

end

section Listing

variable {env : FilesEnv} {service : StoreService} {graphId : Option String}
  {completed : Completed graphId} {cfg : StoreSources} {areas : List String}
  (hstore : (getAgentFileSources graphId).bind AgentFileSources.store = some cfg)
  (hcfg : cfg.Plain areas)

include hstore

theorem storeListing_eq : storeListing env service graphId completed =
    (filesByPath (fetchStoreFiles env service cfg completed)).values.mergeSort
      (newerFile env) := by
  simp [storeListing, fetchAgentFiles, mergeFiles, hstore, stateFilesToAgentFiles]

theorem nodup_storeListing :
    ((storeListing env service graphId completed).map AgentFile.path).Nodup := by
  rw [storeListing_eq hstore, ((mergeSort_perm _ _).map _).nodup_iff]
  exact nodup_filesByPath _

include hcfg

theorem mem_fetchStoreFiles {file : AgentFile} :
    file ∈ fetchStoreFiles env service cfg completed ↔ ∃ area ∈ areas,
      ∃ item ∈ service.searchItems (cfg.namespacePrefix ++ [area]) 200,
        file = storeFile env ("/" ++ area ++ "/") item := by
  obtain ⟨completed, hperm⟩ := completed
  rw [hstore, Option.map_some, Option.getD_some, hcfg.prefixes] at hperm
  have hcompleted : ∀ pathPrefix, pathPrefix ∈ completed ↔
      ∃ area ∈ areas, "/" ++ area ++ "/" = pathPrefix := fun pathPrefix => by
    rw [hperm.mem_iff, mem_map]
  rw [fetchStoreFiles, mem_flatMap]
  constructor
  · rintro ⟨pathPrefix, hprefix, hfile⟩
    obtain ⟨area, harea, rfl⟩ := (hcompleted _).mp hprefix
    rw [hcfg.namespaceOf_area harea] at hfile
    obtain ⟨item, hitem, rfl⟩ := mem_map.mp hfile
    exact ⟨area, harea, item, hitem, rfl⟩
  · rintro ⟨area, harea, item, hitem, rfl⟩
    refine ⟨_, (hcompleted _).mpr ⟨area, harea, rfl⟩, ?_⟩
    rw [hcfg.namespaceOf_area harea]
    exact mem_map_of_mem hitem

theorem exists_item_of_mem {file : AgentFile}
    (h : file ∈ storeListing env service graphId completed) : ∃ area ∈ areas,
      ∃ item ∈ service.searchItems (cfg.namespacePrefix ++ [area]) 200,
        file = storeFile env ("/" ++ area ++ "/") item := by
  rw [storeListing_eq hstore, (mergeSort_perm _ _).mem_iff] at h
  obtain ⟨path, hpath⟩ := Dict.mem_values.mp h
  exact (mem_fetchStoreFiles hstore hcfg).mp
    (mem_of_get?_filesByPath (Dict.get?_eq_some_iff.mpr hpath)).1

/-- What a search returns is listed under its path. -/
theorem exists_mem_of_searched {area : String} (harea : area ∈ areas) {item : StampedItem}
    (h : item ∈ service.searchItems (cfg.namespacePrefix ++ [area]) 200) :
    ∃ file ∈ storeListing env service graphId completed,
      file.path = "/" ++ area ++ slashKey item.key := by
  have hmem : storeFile env ("/" ++ area ++ "/") item ∈ fetchStoreFiles env service cfg completed :=
    (mem_fetchStoreFiles hstore hcfg).mpr ⟨area, harea, item, h, rfl⟩
  have hsome : ((filesByPath (fetchStoreFiles env service cfg completed)).get?
      ("/" ++ area ++ slashKey item.key)).isSome = true := by
    rw [filesByPath, Dict.isSome_get?_setAll]
    refine .inl (mem_map.mpr ⟨_, mem_map.mpr ⟨_, hmem, rfl⟩, ?_⟩)
    exact hcfg.path_storeFile harea env item
  obtain ⟨file, hfile⟩ := Option.isSome_iff_exists.mp hsome
  refine ⟨file, ?_, (mem_of_get?_filesByPath hfile).2⟩
  rw [storeListing_eq hstore, (mergeSort_perm _ _).mem_iff]
  exact Dict.mem_values.mpr ⟨_, Dict.get?_eq_some_iff.mp hfile⟩

theorem mem_storedItems {item : StampedItem} : item ∈ storedItems service graphId ↔
    ∃ area ∈ areas, item ∈ service.found (cfg.namespacePrefix ++ [area]) := by
  simp only [storedItems, hstore, mem_filter, any_eq_true, StoreService.found]
  constructor
  · rintro ⟨hitem, pathPrefix, hprefix, hmatch⟩
    rw [hcfg.prefixes] at hprefix
    obtain ⟨area, harea, rfl⟩ := mem_map.mp hprefix
    rw [hcfg.namespaceOf_area harea] at hmatch
    exact ⟨area, harea, hitem, hmatch⟩
  · rintro ⟨area, harea, hitem, hmatch⟩
    refine ⟨hitem, "/" ++ area ++ "/", hcfg.prefixes ▸ mem_map_of_mem harea, ?_⟩
    rwa [hcfg.namespaceOf_area harea]

theorem listedAs_iff {file : AgentFile} {item : StampedItem} :
    ListedAs env service graphId file item ↔ ∃ area ∈ areas,
      item ∈ service.found (cfg.namespacePrefix ++ [area]) ∧
        file = storeFile env ("/" ++ area ++ "/") item := by
  constructor
  · rintro ⟨cfg', hstore', pathPrefix, hprefix, hitem, hfile⟩
    obtain rfl := Option.some.inj (hstore.symm.trans hstore')
    rw [hcfg.prefixes] at hprefix
    obtain ⟨area, harea, rfl⟩ := mem_map.mp hprefix
    rw [hcfg.namespaceOf_area harea] at hitem
    exact ⟨area, harea, hitem, hfile⟩
  · rintro ⟨area, harea, hitem, hfile⟩
    refine ⟨cfg, hstore, "/" ++ area ++ "/", hcfg.prefixes ▸ mem_map_of_mem harea, ?_, hfile⟩
    rwa [hcfg.namespaceOf_area harea]

theorem storedPlainly_iff : StoredPlainly service graphId ↔ ∀ area ∈ areas,
    (service.found (cfg.namespacePrefix ++ [area])).length ≤ 200 ∧
      ∀ item ∈ service.found (cfg.namespacePrefix ++ [area]),
        item.text = namespaceText (cfg.namespacePrefix ++ [area]) ∧
          startsWith item.key "/" = true := by
  constructor
  · intro h area harea
    have hplain := h cfg hstore ("/" ++ area ++ "/") (hcfg.prefixes ▸ mem_map_of_mem harea)
    rwa [hcfg.namespaceOf_area harea] at hplain
  · intro h cfg' hstore' pathPrefix hprefix
    obtain rfl := Option.some.inj (hstore.symm.trans hstore')
    rw [hcfg.prefixes] at hprefix
    obtain ⟨area, harea, rfl⟩ := mem_map.mp hprefix
    rw [hcfg.namespaceOf_area harea]
    exact h area harea

omit hstore

theorem StoreSources.Plain.area_of_found {area area' : String} (harea : area ∈ areas)
    (harea' : area' ∈ areas) {item : StampedItem}
    (h : item ∈ service.found (cfg.namespacePrefix ++ [area]))
    (htext : item.text = namespaceText (cfg.namespacePrefix ++ [area'])) : area = area' := by
  obtain ⟨base, hbase⟩ := exists_namespaceText_concat cfg.namespacePrefix
  have hmatch := isPrefixOf_iff_prefix.mp (mem_filter.mp h).2
  rw [htext, hbase, hbase, prefix_append_right_inj] at hmatch
  exact hcfg.apart area harea area' harea' hmatch

include hstore

/-- **What a save writes**: to the area of the entry, under its key with a slash in front. -/
theorem writeAgentFile_storeFile {area : String} (harea : area ∈ areas) (item : StampedItem)
    (threadId : Option String) (content : String) :
    writeAgentFile threadId graphId
      { storeFile env ("/" ++ area ++ "/") item with content := content } {} =
        .putItem (cfg.namespacePrefix ++ [area]) (slashKey item.key) content
          (encodingOf item.value) := by
  have hkey : (storeFile env ("/" ++ area ++ "/") item).sourceKey =
      "/" ++ area ++ slashKey item.key := hcfg.path_storeFile harea env item
  have hresolve := hcfg.resolve_path harea (startsWith_slashKey item.key)
  simp only [writeAgentFile, storeFile, hstore] at hkey ⊢
  rw [hkey, hresolve]

/-- A save of an entry of the list. -/
theorem setFilesWrites_storeFile {area : String} (harea : area ∈ areas) {item : StampedItem}
    (hmem : storeFile env ("/" ++ area ++ "/") item ∈ storeListing env service graphId completed)
    (threadId : Option String) {content : String}
    (hne : content ≠ (storeFile env ("/" ++ area ++ "/") item).content) :
    setFilesWrites threadId graphId (storeListing env service graphId completed)
      (changedFiles (storeListing env service graphId completed)
        (storeFile env ("/" ++ area ++ "/") item).path content) =
          [.putItem (cfg.namespacePrefix ++ [area]) (slashKey item.key) content
            (encodingOf item.value)] := by
  have hsources : (getAgentFileSources graphId).isSome = true := by
    obtain ⟨sources, hsources, -⟩ := Option.bind_eq_some_iff.mp hstore
    exact Option.isSome_iff_exists.mpr ⟨sources, hsources⟩
  have hfiles : ∀ file ∈ storeListing env service graphId completed, file.source = .store := by
    intro file hfile
    obtain ⟨area', -, item', -, rfl⟩ := exists_item_of_mem hstore hcfg hfile
    rfl
  rw [setFilesWrites_eq hsources hfiles (nodup_storeListing hstore) hmem hne,
    writeAgentFile_storeFile hstore hcfg harea]

/-! ### A store that is listed faithfully -/

/-- An item to which saves go back is in the namespace of an area, with a slash in front of its
key. -/
theorem plain_of_faithful (h : ListingFaithful env service graphId completed) {area : String}
    (harea : area ∈ areas) {item : StampedItem}
    (hitem : item ∈ service.found (cfg.namespacePrefix ++ [area])) :
    item.text = namespaceText (cfg.namespacePrefix ++ [area]) ∧ startsWith item.key "/" = true := by
  have hstored := (mem_storedItems hstore hcfg).mpr ⟨area, harea, hitem⟩
  obtain ⟨file, ⟨hmem, hlisted⟩, -⟩ := h.complete item hstored
  obtain ⟨area', harea', -, rfl⟩ := (listedAs_iff hstore hcfg).mp hlisted
  -- a longer content is another one
  have hne : (storeFile env ("/" ++ area' ++ "/") item).content ++ "." ≠
      (storeFile env ("/" ++ area' ++ "/") item).content := by
    intro heq
    have hlength := congrArg String.length heq
    rw [String.length_append] at hlength
    have hone : ".".length = 1 := rfl
    omega
  obtain ⟨labels, key, hwrites, hat, -⟩ := h.saves item hstored _ hmem hlisted none _ "" hne
  rw [setFilesWrites_storeFile hstore hcfg harea' hmem none hne] at hwrites
  cases hwrites
  simp only [StoreItem.isAt, Bool.and_eq_true, decide_eq_true_eq] at hat
  obtain rfl := hcfg.area_of_found harea harea' hitem hat.1
  exact ⟨hat.1, hat.2 ▸ startsWith_slashKey item.key⟩

theorem storedPlainly_of_faithful (h : ListingFaithful env service graphId completed) :
    StoredPlainly service graphId := by
  refine (storedPlainly_iff hstore hcfg).mpr fun area harea => ⟨?_, fun item hitem =>
    plain_of_faithful hstore hcfg h harea hitem⟩
  -- what is found is listed, and so it is what the search returns
  have hsubset : service.found (cfg.namespacePrefix ++ [area]) ⊆
      service.searchItems (cfg.namespacePrefix ++ [area]) 200 := by
    intro item hitem
    obtain ⟨htext, hkey⟩ := plain_of_faithful hstore hcfg h harea hitem
    have hstored := (mem_storedItems hstore hcfg).mpr ⟨area, harea, hitem⟩
    obtain ⟨file, ⟨hmem, hlisted⟩, -⟩ := h.complete item hstored
    obtain ⟨area', harea', hitem', hfile⟩ := (listedAs_iff hstore hcfg).mp hlisted
    obtain ⟨area'', harea'', item', hsearched, hfile'⟩ := exists_item_of_mem hstore hcfg hmem
    obtain ⟨htext', hkey'⟩ := plain_of_faithful hstore hcfg h harea'' (found_of_searched hsearched)
    have hpaths := congrArg AgentFile.path (hfile.symm.trans hfile')
    rw [hcfg.path_storeFile harea', hcfg.path_storeFile harea'', slashKey_of_startsWith hkey,
      slashKey_of_startsWith hkey'] at hpaths
    obtain ⟨rfl, hkeys⟩ := hcfg.path_inj harea' harea'' hkey hkey' hpaths
    obtain rfl := hcfg.area_of_found harea' harea hitem' htext
    rwa [eq_of_found hitem (found_of_searched hsearched) (htext.trans htext'.symm) hkeys]
  have hnodup : (service.found (cfg.namespacePrefix ++ [area])).Nodup :=
    service.nodup.of_map.filter _
  calc (service.found (cfg.namespacePrefix ++ [area])).length
      ≤ (service.searchItems (cfg.namespacePrefix ++ [area]) 200).length :=
        (hnodup.subperm hsubset).length_le
    _ ≤ 200 := length_take_le _ _

/-- The entries of a store whose items are where the listing expects them. -/
theorem mem_storeListing_iff (h : StoredPlainly service graphId) {file : AgentFile} :
    file ∈ storeListing env service graphId completed ↔ ∃ area ∈ areas,
      ∃ item ∈ service.found (cfg.namespacePrefix ++ [area]),
        file = storeFile env ("/" ++ area ++ "/") item := by
  have hplain := (storedPlainly_iff hstore hcfg).mp h
  constructor
  · intro hmem
    obtain ⟨area, harea, item, hitem, rfl⟩ := exists_item_of_mem hstore hcfg hmem
    exact ⟨area, harea, item, found_of_searched hitem, rfl⟩
  · rintro ⟨area, harea, item, hitem, rfl⟩
    have hsearched := (mem_searchItems (hplain area harea).1).mpr hitem
    obtain ⟨htext, hkey⟩ := (hplain area harea).2 item hitem
    obtain ⟨file, hmem, hpath⟩ : ∃ file ∈ storeListing env service graphId completed,
        file.path = "/" ++ area ++ slashKey item.key :=
      exists_mem_of_searched hstore hcfg harea hsearched
    obtain ⟨area', harea', item', hitem', rfl⟩ := exists_item_of_mem hstore hcfg hmem
    obtain ⟨htext', hkey'⟩ := (hplain area' harea').2 item' (found_of_searched hitem')
    rw [hcfg.path_storeFile harea', slashKey_of_startsWith hkey,
      slashKey_of_startsWith hkey'] at hpath
    obtain ⟨rfl, hkeys⟩ := hcfg.path_inj harea' harea hkey' hkey hpath
    obtain rfl := eq_of_found (found_of_searched hitem') hitem (htext'.trans htext.symm) hkeys
    exact hmem

theorem faithful_of_storedPlainly (h : StoredPlainly service graphId) :
    ListingFaithful env service graphId completed := by
  have hplain := (storedPlainly_iff hstore hcfg).mp h
  -- an entry names its area and its item
  have hinj : ∀ area ∈ areas, ∀ area' ∈ areas,
      ∀ item ∈ service.found (cfg.namespacePrefix ++ [area]),
        ∀ item' ∈ service.found (cfg.namespacePrefix ++ [area']),
          storeFile env ("/" ++ area ++ "/") item = storeFile env ("/" ++ area' ++ "/") item' →
            area = area' ∧ item = item' := by
    intro area harea area' harea' item hitem item' hitem' heq
    obtain ⟨htext, hkey⟩ := (hplain area harea).2 item hitem
    obtain ⟨htext', hkey'⟩ := (hplain area' harea').2 item' hitem'
    have hpaths := congrArg AgentFile.path heq
    rw [hcfg.path_storeFile harea, hcfg.path_storeFile harea', slashKey_of_startsWith hkey,
      slashKey_of_startsWith hkey'] at hpaths
    obtain ⟨rfl, hkeys⟩ := hcfg.path_inj harea harea' hkey hkey' hpaths
    exact ⟨rfl, eq_of_found hitem hitem' (htext.trans htext'.symm) hkeys⟩
  refine ⟨fun item hstored => ?_, fun file hmem => ?_, nodup_storeListing hstore,
    fun item hstored file hmem hlisted threadId content now hne => ?_⟩
  · obtain ⟨area, harea, hitem⟩ := (mem_storedItems hstore hcfg).mp hstored
    refine ⟨storeFile env ("/" ++ area ++ "/") item,
      ⟨(mem_storeListing_iff hstore hcfg h).mpr ⟨area, harea, item, hitem, rfl⟩,
        (listedAs_iff hstore hcfg).mpr ⟨area, harea, hitem, rfl⟩⟩, ?_⟩
    rintro file ⟨-, hlisted⟩
    obtain ⟨area', harea', hitem', rfl⟩ := (listedAs_iff hstore hcfg).mp hlisted
    obtain rfl := hcfg.area_of_found harea' harea hitem' ((hplain area harea).2 item hitem).1
    rfl
  · obtain ⟨area, harea, item, hitem, rfl⟩ := (mem_storeListing_iff hstore hcfg h).mp hmem
    refine ⟨item, ⟨(mem_storedItems hstore hcfg).mpr ⟨area, harea, hitem⟩,
      (listedAs_iff hstore hcfg).mpr ⟨area, harea, hitem, rfl⟩⟩, ?_⟩
    rintro item' ⟨-, hlisted⟩
    obtain ⟨area', harea', hitem', heq⟩ := (listedAs_iff hstore hcfg).mp hlisted
    exact (hinj area harea area' harea' item hitem item' hitem' heq).2.symm
  · obtain ⟨area, harea, hitem, rfl⟩ := (listedAs_iff hstore hcfg).mp hlisted
    obtain ⟨htext, hkey⟩ := (hplain area harea).2 item hitem
    refine ⟨cfg.namespacePrefix ++ [area], item.key, ?_, ?_, ?_⟩
    · rw [setFilesWrites_storeFile hstore hcfg harea hmem threadId hne, slashKey_of_startsWith hkey]
    · simp [StoreItem.isAt, htext]
    · exact applyTo_putItem (mem_of_mem_filter hitem) htext content now

end Listing

/-- **The listing is faithful exactly of a store without deeper namespaces, with slashes in front of
keys and with at most two hundred items in each area.** -/
theorem listingFaithful_iff (env : FilesEnv) (service : StoreService) (graphId : Option String)
    (completed : Completed graphId) :
    ListingFaithful env service graphId completed ↔ StoredPlainly service graphId := by
  cases hstore : (getAgentFileSources graphId).bind AgentFileSources.store with
  | none =>
    have hlisting : storeListing env service graphId completed = [] := by
      simp [storeListing, fetchAgentFiles, mergeFiles, hstore, stateFilesToAgentFiles, filesByPath,
        Dict.setAll, Dict.values]
    have hstored : storedItems service graphId = [] := by simp [storedItems, hstore]
    constructor
    · intro _ cfg hcfg
      rw [hstore] at hcfg
      cases hcfg
    · intro _
      refine ⟨?_, ?_, ?_, ?_⟩
      · simp [hstored]
      · simp [hlisting]
      · simp [hlisting]
      · simp [hstored]
  | some cfg =>
    obtain ⟨areas, hcfg⟩ := plain_of_store hstore
    exact ⟨storedPlainly_of_faithful hstore hcfg, faithful_of_storedPlainly hstore hcfg⟩

/-! ### An item of a deeper namespace -/

/-- The notes of a year, which an agent keeps in a namespace below that of its memory. -/
def nestedNotes : StampedItem where
  text := namespaceText ["career_agent", "memory", "2026"]
  key := "/notes.md"
  value := fileValue "met Alex" .utf8

/-- A store with these notes. -/
def nestedStore : StoreService where
  items := [nestedNotes]
  nodup := nodup_singleton _
  order found := found
  order_perm _ := .refl _

/-- A save of the notes goes to another item. -/
theorem not_listingFaithful :
    ¬ ∀ env service graphId completed, ListingFaithful env service graphId completed := by
  intro h
  obtain ⟨areas, hareas⟩ : ∃ areas, StoreSources.Plain _ areas :=
    @plain_of_store (some "career_agent") _ rfl
  have hplain := storedPlainly_of_faithful rfl hareas
    (h plainFilesEnv nestedStore (some "career_agent") ⟨_, .refl _⟩)
  have hnotes := (hplain _ rfl "/memory/" (by decide)).2 nestedNotes (by decide)
  exact absurd hnotes.1 (by decide)

end NextRole
