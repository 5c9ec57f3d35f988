import NextRole.Agents.ObjectBackend
import NextRole.ObjectKeys

/-!
# The files of an area

A path of the object backend names a file by its key, which is made of its normal form, or by the
path that the file is listed as.  Both agree where the path is spelled as it is listed; otherwise a
file that was written is not found by the call that deletes it.

## Main definitions

* `listedAs`, `parentDir` — the path that a file is listed as, and its directory.
* `Listed`, `Within` — an object and its listed path; a listed path under another one.
* `Kept` — a file is read, downloaded, listed once and deleted.
* `Consistent` — what is written is kept, what is deleted is what was named, an error changes
  nothing.
* `SpelledAsListed` — a path that, without slashes at its end, is what its file is listed as.

## Main results

* `get?_delete` — what `delete` leaves.
* `count_ls` — which directories list a file.
* `consistent_iff` — **when the backend is a consistent file system**, and `not_consistent`.
-/

namespace NextRole

/-! ### Texts -/

theorem startsWith_iff {s start : String} : startsWith s start = true ↔ ∃ t, s = start ++ t := by
  rw [startsWith, List.isPrefixOf_iff_prefix]
  constructor
  · rintro ⟨t, ht⟩
    refine ⟨String.ofList t, String.toList_inj.mp ?_⟩
    rw [String.toList_append, String.toList_ofList, ht]
  · rintro ⟨t, rfl⟩
    rw [String.toList_append]
    exact List.prefix_append _ _

theorem dropText_append (s t : String) : dropText s.length (s ++ t) = t := by
  rw [dropText, String.toList_append, ← String.length_toList, List.drop_left, String.ofList_toList]

theorem rstripChar_toList (c : Char) (s : String) :
    (rstripChar c s).toList = s.toList.rdropWhile fun a => a = c :=
  String.toList_ofList

theorem rdropWhile_sep {x u : List Char} (hu : '/' ∉ u) :
    (x ++ '/' :: u).rdropWhile (fun a => a ≠ '/') = x ++ ['/'] := by
  have hnil : u.rdropWhile (fun a => a ≠ '/') = [] :=
    List.rdropWhile_eq_nil_iff.mpr fun c hc => decide_eq_true fun e => hu (e ▸ hc)
  rw [rdropWhile_append_cons (by decide), hnil]

/-! ### Paths -/

/-- The path that the file of a path is listed as; a path without file is taken as it is. -/
def listedAs (path : String) : String :=
  match safeRelative path with
  | some rel => "/" ++ rel
  | none => rstripChar '/' path

/-- A path that, without slashes at its end, is what its file is listed as. -/
def SpelledAsListed (path : String) : Prop := rstripChar '/' path = listedAs path

/-- The directory of a path, up to its last slash. -/
def parentDir (path : String) : String :=
  String.ofList ((rstripChar '/' path).toList.rdropWhile fun a => a ≠ '/')

/-- A listed path is the other one, or it is under it. -/
def Within (dir vpath : String) : Prop := vpath = dir ∨ startsWith vpath (dir ++ "/") = true

/-- The normal form is no longer than the path without the slashes at its end. -/
theorem length_join_pathSegments_le (path : String) :
    (Path.join '/' (pathSegments path)).length ≤ (rstripChar '/' path).toList.length := by
  obtain ⟨s, hs⟩ := List.rdropWhile_prefix (fun a => a = '/') path.toList
  have hslashes : ∀ c ∈ s, c = '/' := by
    intro c hc
    have hsuffix : s = path.toList.rtakeWhile fun a => a = '/' := by
      have hsplit : path.toList.rdropWhile (fun a => a = '/') ++
          path.toList.rtakeWhile (fun a => a = '/') = path.toList :=
        List.rdropWhile_append_rtakeWhile
      exact List.append_cancel_left (hs.trans hsplit.symm)
    rw [hsuffix] at hc
    have hdec := List.mem_rtakeWhile_imp hc
    exact of_decide_eq_true hdec
  rw [rstripChar_toList, pathSegments, strip_toList]
  generalize path.toList.rdropWhile (fun a => a = '/') = r at hs
  cases s with
  | nil =>
    -- No slash at the end: the normal form is a part of the path.
    rw [List.append_nil] at hs
    subst hs
    exact ((Path.join_segments_sublist _).trans ((List.dropWhile_suffix _).sublist.trans
      (List.rdropWhile_prefix _ _).sublist)).length_le
  | cons c s =>
    -- Nothing is stripped behind a slash, and the slashes make no segments.
    obtain ⟨rfl, hs'⟩ := List.forall_mem_cons.mp hslashes
    have hspace : isSpace '/' = false := by decide
    have hkeep : path.toList.rdropWhile isSpace = path.toList := by
      rw [List.rdropWhile_eq_self_iff]
      intro hne
      have hlast : path.toList.getLast hne = '/' := by
        refine hslashes _ ?_
        simp only [← hs]
        rw [List.getLast_append_of_ne_nil _ (List.cons_ne_nil _ _)]
        exact List.getLast_mem _
      rw [hlast, hspace]
      exact Bool.false_ne_true
    rw [hkeep, ← hs, List.dropWhile_append]
    split
    · next hempty =>
      rw [List.dropWhile_cons, if_neg (by simp [hspace]), ← List.nil_append ('/' :: s),
        Path.segments_append_seps keepsPart_nil hslashes]
      exact Nat.zero_le _
    · rw [Path.segments_append_seps keepsPart_nil hslashes]
      exact ((Path.join_segments_sublist _).trans (List.dropWhile_suffix _).sublist).length_le

theorem segments_of_safeRelative {path rel : String} (h : safeRelative path = some rel) :
    Path.segments '/' keepsPart rel.toList = pathSegments path := by
  obtain ⟨-, -, -, -, hrel⟩ := safeRelative_eq_some.mp h
  rw [hrel]
  exact Path.segments_join keepsPart_nil fun x hx => Path.isSegment_of_mem hx

/-- A normal form is not empty, and has no slash at its end. -/
theorem toList_of_safeRelative {path rel : String} (h : safeRelative path = some rel) :
    rel.toList ≠ [] ∧ ∀ y, rel.toList ≠ y ++ ['/'] := by
  have hcut := segments_of_safeRelative h
  obtain ⟨-, -, hne, -, hrel⟩ := safeRelative_eq_some.mp h
  constructor
  · intro hnil
    rw [hnil] at hcut
    exact hne hcut.symm
  · intro y hy
    rw [hy, Path.segments_append_seps keepsPart_nil (s := ['/']) (by simp)] at hcut
    have hlen : (Path.join '/' (Path.segments '/' keepsPart y)).length ≤ y.length :=
      (Path.join_segments_sublist y).length_le
    rw [hcut, ← hrel, hy, List.length_append] at hlen
    exact absurd hlen (by simp)

/-- A normal form that is found under a path is that path. -/
theorem eq_of_within {path rel : String} (h : safeRelative path = some rel)
    (hwithin : Within (rstripChar '/' path) ("/" ++ rel)) : rstripChar '/' path = "/" ++ rel := by
  rcases hwithin with heq | hunder
  · exact heq.symm
  · obtain ⟨t, ht⟩ := startsWith_iff.mp hunder
    obtain ⟨-, -, -, -, hrel⟩ := safeRelative_eq_some.mp h
    have hlen := length_join_pathSegments_le path
    rw [← hrel] at hlen
    have htext : '/' :: rel.toList = (rstripChar '/' path).toList ++ '/' :: t.toList := by
      simpa using congrArg String.toList ht
    have hsum := congrArg List.length htext
    simp only [List.length_cons, List.length_append] at hsum
    have hnil : t.toList = [] := List.length_eq_zero_iff.mp (by omega)
    rw [hnil] at htext
    cases hl : (rstripChar '/' path).toList with
    | nil =>
      rw [hl] at htext
      exact absurd (List.cons.inj htext).2 (toList_of_safeRelative h).1
    | cons c y =>
      rw [hl, List.cons_append] at htext
      exact absurd (List.cons.inj htext).2 ((toList_of_safeRelative h).2 y)

namespace ObjectBackend

variable {b : ObjectBackend} {store : Objects} {path : String}

/-! ### Objects of the area -/

/-- An object of the area, and the path that it is listed as. -/
def Listed (b : ObjectBackend) (key vpath : String) : Prop :=
  ∃ rest, key = b.base ++ "/" ++ rest ∧ vpath = "/" ++ rest

theorem key_eq_some {k : String} :
    b.key path = some k ↔ ∃ rel, safeRelative path = some rel ∧ k = b.base ++ "/" ++ rel := by
  obtain ⟨root, hroot⟩ := Option.isSome_iff_exists.mp b.registered
  simp only [key, keyForArea, base, areaKeyPrefix, hroot, Option.bind_eq_bind, Option.map_some,
    Option.getD_some, Option.bind_eq_some_iff, Option.pure_def, Option.some_inj, exists_eq_left',
    eq_comm (a := k)]

theorem append_left_cancel {s t u : String} (h : s ++ t = s ++ u) : t = u := by
  have hlist := congrArg String.toList h
  rw [String.toList_append, String.toList_append] at hlist
  exact String.toList_inj.mp (List.append_cancel_left hlist)

theorem Listed.unique {k k' v v' : String} (h : b.Listed k v) (h' : b.Listed k' v') :
    k = k' ↔ v = v' := by
  obtain ⟨rest, rfl, rfl⟩ := h
  obtain ⟨rest', rfl, rfl⟩ := h'
  constructor
  · exact fun heq => congrArg _ (append_left_cancel heq)
  · exact fun heq => congrArg _ (append_left_cancel heq)

/-- What is listed is what is there. -/
theorem mem_areaFiles {m : ObjectMeta} :
    m ∈ b.areaFiles store ↔
      b.Listed m.path m.vpath ∧ ∃ data, store.get? m.path = some data ∧ m.size = data.size := by
  have hdrop : ∀ rest, dropText (b.base.length + 1) (b.base ++ "/" ++ rest) = rest := by
    intro rest
    have hlen : b.base.length + 1 = (b.base ++ "/").length := by
      rw [String.length_append]
      rfl
    rw [hlen, dropText_append]
  simp only [areaFiles, List.mem_map, List.mem_filter, startsWith_iff]
  constructor
  · rintro ⟨⟨k, data⟩, ⟨hmem, rest, hk⟩, rfl⟩
    dsimp only at hk ⊢
    rw [hk, hdrop, ← hk]
    exact ⟨⟨rest, hk, rfl⟩, data, Dict.get?_eq_some_iff.mpr hmem, rfl⟩
  · rintro ⟨⟨rest, hk, hv⟩, data, hget, hsize⟩
    refine ⟨(m.path, data), ⟨Dict.get?_eq_some_iff.mp hget, rest, hk⟩, ?_⟩
    cases m
    dsimp only at hk hv hsize ⊢
    subst hk hv hsize
    rw [hdrop]

/-- Each path is listed once. -/
theorem nodup_vpaths : ((b.areaFiles store).map ObjectMeta.vpath).Nodup := by
  have hpaths : ((b.areaFiles store).map ObjectMeta.path).Nodup := by
    rw [areaFiles, List.map_map]
    exact store.nodup.sublist (List.filter_sublist.map _)
  have hmetas : (b.areaFiles store).Nodup := hpaths.of_map _
  refine hmetas.map_on fun m hm m' hm' heq => ?_
  obtain ⟨hlisted, data, hget, hsize⟩ := mem_areaFiles.mp hm
  obtain ⟨hlisted', data', hget', hsize'⟩ := mem_areaFiles.mp hm'
  have hpath := (hlisted.unique hlisted').mpr heq
  rw [hpath, hget'] at hget
  obtain rfl := Option.some.inj hget
  cases m
  cases m'
  simp_all

/-! ### Deleting -/

theorem get?_deleteKey (store : Objects) (key k : String) :
    (deleteKey store key).2.get? k = if k = key then none else store.get? k := by
  rw [deleteKey]
  split
  · next hnone =>
    split
    · next heq => rw [heq, Option.isNone_iff_eq_none.mp hnone]
    · rfl
  · exact Dict.get?_erase store key k

theorem get?_deleteKeys (keys : List String) (store : Objects) (k : String) :
    (keys.foldl (fun store key => (deleteKey store key).2) store).get? k =
      if k ∈ keys then none else store.get? k := by
  induction keys generalizing store with
  | nil => simp
  | cons key keys ih =>
    rw [List.foldl_cons, ih, get?_deleteKey]
    by_cases hkeys : k ∈ keys
    · simp [hkeys]
    · simp [hkeys]

theorem mem_doomed {k : String} : k ∈ b.doomed store path ↔
    (∃ data, store.get? k = some data) ∧
      ∃ vpath, b.Listed k vpath ∧ Within (rstripChar '/' path) vpath := by
  simp only [doomed, List.mem_map, List.mem_filter, mem_areaFiles, Bool.or_eq_true,
    decide_eq_true_eq]
  constructor
  · rintro ⟨m, ⟨⟨hlisted, data, hget, -⟩, hwithin⟩, rfl⟩
    exact ⟨⟨data, hget⟩, m.vpath, hlisted, hwithin⟩
  · rintro ⟨⟨data, hget⟩, vpath, hlisted, hwithin⟩
    exact ⟨⟨k, data.size, vpath⟩, ⟨⟨hlisted, data, hget, rfl⟩, hwithin⟩, rfl⟩

/-- **What `delete` leaves**: what is not listed as the path or under it. -/
theorem get?_delete {k : String} {content : ByteArray} :
    (b.delete store path).2.get? k = some content ↔ store.get? k = some content ∧
      ¬ ∃ vpath, b.Listed k vpath ∧ Within (rstripChar '/' path) vpath := by
  have hall : (b.delete store path).2.get? k =
      if k ∈ b.doomed store path then none else store.get? k := by
    rw [delete]
    split
    · next hnil => rw [hnil, if_neg List.not_mem_nil]
    · exact get?_deleteKeys _ store k
  rw [hall]
  split
  · next h => simp [(mem_doomed.mp h).2]
  · next h =>
    constructor
    · exact fun hget => ⟨hget, fun hwithin => h (mem_doomed.mpr ⟨⟨content, hget⟩, hwithin⟩)⟩
    · exact And.left

/-! ### Listing -/

/-- The paths of the files of a listing. -/
def filePaths (entries : List FileInfo) : List String :=
  (entries.filter fun i => !i.isDir).map FileInfo.path

/-- The files of a directory, in some order. -/
theorem filePaths_ls (store : Objects) (dir : String) : (filePaths (b.ls store dir)).Perm
    (((b.areaFiles store).filter fun m => startsWith m.vpath (normDir dir) &&
      !(dropText (normDir dir).length m.vpath).toList.contains '/').map ObjectMeta.vpath) := by
  have hsubdirs : ∀ l : List String,
      (l.map fun d => FileInfo.mk d true 0).filter (fun i => !i.isDir) = [] := by
    intro l
    rw [List.filter_eq_nil_iff]
    intro i hi
    obtain ⟨d, -, rfl⟩ := List.mem_map.mp hi
    simp
  have hfiles : ∀ metas, (dirFiles (normDir dir) metas).filter (fun i => !i.isDir) =
      dirFiles (normDir dir) metas := by
    intro metas
    rw [List.filter_eq_self]
    intro i hi
    obtain ⟨m, -, rfl⟩ := List.mem_map.mp hi
    rfl
  have hperm := ((List.mergeSort_perm (dirFiles (normDir dir) (b.areaFiles store) ++
    ((dirSubdirs (normDir dir) (b.areaFiles store)).mergeSort fun x y => x ≤ y).map
      fun d => FileInfo.mk d true 0) fun x y => x.path ≤ y.path).filter fun i => !i.isDir).map
        FileInfo.path
  rw [List.filter_append, hsubdirs, hfiles, List.append_nil, dirFiles, List.map_map] at hperm
  exact hperm

theorem exists_normDir (dir : String) : ∃ d, normDir dir = d ++ "/" := by
  rw [normDir]
  split
  · next h =>
    rw [endsWith, List.isSuffixOf_iff_suffix] at h
    obtain ⟨d, hd⟩ := h
    refine ⟨String.ofList d, String.toList_inj.mp ?_⟩
    rw [String.toList_append, String.toList_ofList, hd]
  · exact ⟨dir, rfl⟩

/-- A file is in the directory that ends with its last slash. -/
theorem inDir_iff {dir vpath : String} (h : '/' ∈ vpath.toList) :
    (startsWith vpath (normDir dir) = true ∧
      '/' ∉ (dropText (normDir dir).length vpath).toList) ↔
        (normDir dir).toList = vpath.toList.rdropWhile fun a => a ≠ '/' := by
  obtain ⟨d, hd⟩ := exists_normDir dir
  rw [hd]
  constructor
  · rintro ⟨hstart, hsep⟩
    obtain ⟨u, rfl⟩ := startsWith_iff.mp hstart
    rw [dropText_append] at hsep
    have htext : (d ++ "/" ++ u).toList = d.toList ++ '/' :: u.toList := by simp
    rw [htext, rdropWhile_sep hsep]
    simp
  · intro heq
    have hsplit : vpath.toList.rdropWhile (fun a => a ≠ '/') ++
        vpath.toList.rtakeWhile (fun a => a ≠ '/') = vpath.toList :=
      List.rdropWhile_append_rtakeWhile
    have hvpath : vpath =
        d ++ "/" ++ String.ofList (vpath.toList.rtakeWhile fun a => a ≠ '/') := by
      rw [← String.toList_inj, String.toList_append, String.toList_ofList, heq, hsplit]
    have hsep : '/' ∉ vpath.toList.rtakeWhile fun a => a ≠ '/' := by
      intro hmem
      have hne := List.mem_rtakeWhile_imp hmem
      simp at hne
    rw [hvpath, dropText_append, String.toList_ofList]
    exact ⟨startsWith_iff.mpr ⟨_, rfl⟩, hsep⟩

/-- **Which directories list a file**: the one that ends with its last slash, once. -/
theorem count_ls {k vpath : String} {data : ByteArray} (hlisted : b.Listed k vpath)
    (hget : store.get? k = some data) (dir : String) :
    (filePaths (b.ls store dir)).count vpath =
      if (normDir dir).toList = vpath.toList.rdropWhile (fun a => a ≠ '/') then 1 else 0 := by
  have hslash : '/' ∈ vpath.toList := by
    obtain ⟨rest, -, rfl⟩ := hlisted
    simp
  rw [(filePaths_ls store dir).count_eq]
  have hnodup : (((b.areaFiles store).filter fun m => startsWith m.vpath (normDir dir) &&
      !(dropText (normDir dir).length m.vpath).toList.contains '/').map ObjectMeta.vpath).Nodup :=
    nodup_vpaths.sublist (List.filter_sublist.map ObjectMeta.vpath)
  split
  · next hdir =>
    obtain ⟨hstart, hsep⟩ := (inDir_iff hslash).mpr hdir
    refine List.count_eq_one_of_mem hnodup (List.mem_map.mpr ⟨⟨k, data.size, vpath⟩, ?_, rfl⟩)
    rw [List.mem_filter]
    exact ⟨mem_areaFiles.mpr ⟨hlisted, data, hget, rfl⟩, by simp [hstart, hsep]⟩
  · next hdir =>
    refine List.count_eq_zero_of_not_mem fun hmem => hdir ?_
    obtain ⟨m, hm, rfl⟩ := List.mem_map.mp hmem
    have hin := (List.mem_filter.mp hm).2
    simp only [Bool.and_eq_true, Bool.not_eq_true', List.contains_eq_mem, decide_eq_false_iff_not]
      at hin
    exact (inDir_iff hslash).mp hin

/-! ### Consistency -/

/-- The file of a path is read, downloaded, listed once and deleted. -/
structure Kept (b : ObjectBackend) (store : Objects) (path : String) (content : ByteArray) :
    Prop where
  read : ∀ offset limit, b.read store path offset limit = b.render path content offset limit
  download : b.downloadFiles store [path] = [⟨path, some content, none⟩]
  listed : ∀ dir, (filePaths (b.ls store dir)).count (listedAs path) =
    if normDir dir = normDir (parentDir path) then 1 else 0
  deleted : (b.delete store path).1 = .ok path
  removed : ∀ k ∈ b.key path, (b.delete store path).2.get? k = none

/-- What the calls do with a path: what is written or uploaded is kept, and is read as what was
written; what is deleted is the file of the path and what is under it; an error changes nothing. -/
structure Consistent (b : ObjectBackend) (store : Objects) (path : String) : Prop where
  written : ∀ content, (b.write store path content).1 = .ok path →
    b.Kept (b.write store path content).2 path content.toUTF8
  text : ∀ content, (b.write store path content).1 = .ok path → b.isText path = true →
    ∀ offset limit, b.read (b.write store path content).2 path offset limit =
      ((b.sliceRead content offset limit).map FileData.utf8).mapError ObjectError.framework
  uploaded : ∀ before content after, (∀ file ∈ after, b.key file.1 ≠ b.key path) →
    (b.uploadFiles store (before ++ (path, content) :: after)).1[before.length]? =
      some ⟨path, none⟩ →
    b.Kept (b.uploadFiles store (before ++ (path, content) :: after)).2 path content
  deleted : ∀ k content, (b.delete store path).2.get? k = some content ↔
    store.get? k = some content ∧ ¬ ∃ vpath, b.Listed k vpath ∧ Within (listedAs path) vpath
  writeError : ∀ content e, (b.write store path content).1 = .error e →
    (b.write store path content).2 = store
  uploadError : ∀ before content after e,
    (b.uploadFiles store (before ++ (path, content) :: after)).1[before.length]? =
      some ⟨path, some e⟩ →
    (b.uploadFiles store (before ++ (path, content) :: after)).2 =
      (b.uploadFiles store (before ++ after)).2
  editError : ∀ old new replaceAll e, (b.edit store path old new replaceAll).1 = .error e →
    (b.edit store path old new replaceAll).2 = store
  deleteError : ∀ e, (b.delete store path).1 = .error e → (b.delete store path).2 = store

/-! ### Errors -/

theorem edit_error {old new : String} {replaceAll : Bool} {e : ObjectError}
    (h : (b.edit store path old new replaceAll).1 = .error e) :
    (b.edit store path old new replaceAll).2 = store := by
  unfold edit at h ⊢
  split
  · rfl
  · next key hkey =>
    simp only [hkey] at h
    split
    · rfl
    · next data hget =>
      simp only [hget] at h
      split
      · rfl
      · next content htext =>
        simp only [htext] at h
        split
        · rfl
        · next hreplace =>
          simp only [hreplace] at h
          cases h

theorem delete_error {e : ObjectError} (h : (b.delete store path).1 = .error e) :
    (b.delete store path).2 = store := by
  rw [delete] at h ⊢
  split
  · rfl
  · next hne =>
    rw [if_neg hne] at h
    cases h

/-! ### Uploads -/

theorem uploadFiles_cons (file : String × ByteArray) (files : List (String × ByteArray)) :
    b.uploadFiles store (file :: files) =
      ((b.upload store file.1 file.2).1 ::
        (b.uploadFiles (b.upload store file.1 file.2).2 files).1,
          (b.uploadFiles (b.upload store file.1 file.2).2 files).2) := rfl

theorem uploadFiles_append (files files' : List (String × ByteArray)) (store : Objects) :
    b.uploadFiles store (files ++ files') =
      ((b.uploadFiles store files).1 ++ (b.uploadFiles (b.uploadFiles store files).2 files').1,
        (b.uploadFiles (b.uploadFiles store files).2 files').2) := by
  induction files generalizing store with
  | nil => rfl
  | cons file files ih => simp only [List.cons_append, uploadFiles_cons, ih]

theorem length_uploadFiles (files : List (String × ByteArray)) (store : Objects) :
    (b.uploadFiles store files).1.length = files.length := by
  induction files generalizing store with
  | nil => rfl
  | cons file files ih => simp only [uploadFiles_cons, List.length_cons, ih]

theorem getElem?_uploadFiles (before after : List (String × ByteArray)) (content : ByteArray) :
    (b.uploadFiles store (before ++ (path, content) :: after)).1[before.length]? =
      some (b.upload (b.uploadFiles store before).2 path content).1 := by
  rw [uploadFiles_append, List.getElem?_append_right (by rw [length_uploadFiles]),
    length_uploadFiles, Nat.sub_self, uploadFiles_cons, List.getElem?_cons_zero]

/-- Uploads of other files leave an object. -/
theorem get?_uploadFiles {files : List (String × ByteArray)} {k : String}
    (h : ∀ file ∈ files, b.key file.1 ≠ some k) :
    (b.uploadFiles store files).2.get? k = store.get? k := by
  induction files generalizing store with
  | nil => rfl
  | cons file files ih =>
    obtain ⟨hfile, hfiles⟩ := List.forall_mem_cons.mp h
    have hone : (b.upload store file.1 file.2).2.get? k = store.get? k := by
      rw [upload]
      split
      · rfl
      · next key hkey =>
        refine Dict.get?_set_of_ne store file.2 fun heq => hfile ?_
        rw [hkey, heq]
    rw [uploadFiles_cons, ih hfiles, hone]

/-! ### Files that are kept -/

/-- The directory of a path ends with the last slash of the listed path. -/
theorem normDir_parentDir_iff {dir : String} (hspelled : SpelledAsListed path) {rel : String}
    (hrel : safeRelative path = some rel) :
    normDir dir = normDir (parentDir path) ↔
      (normDir dir).toList = (listedAs path).toList.rdropWhile fun a => a ≠ '/' := by
  have hparent : (normDir (parentDir path)).toList =
      (listedAs path).toList.rdropWhile fun a => a ≠ '/' := by
    have htext : (parentDir path).toList =
        (listedAs path).toList.rdropWhile fun a => a ≠ '/' := by
      rw [parentDir, hspelled, String.toList_ofList]
    have hend : endsWith (parentDir path) "/" = true := by
      have hslash : (listedAs path).toList = '/' :: rel.toList := by simp [listedAs, hrel]
      have hne : (listedAs path).toList.rdropWhile (fun a => a ≠ '/') ≠ [] := by
        rw [Ne, List.rdropWhile_eq_nil_iff]
        exact fun h => absurd (h '/' (by rw [hslash]; exact List.mem_cons_self)) (by decide)
      have hlast := List.rdropWhile_last_not (fun a => a ≠ '/') _ hne
      rw [endsWith, List.isSuffixOf_iff_suffix, htext]
      refine ⟨((listedAs path).toList.rdropWhile fun a => a ≠ '/').dropLast, ?_⟩
      have hchar : ((listedAs path).toList.rdropWhile fun a => a ≠ '/').getLast hne = '/' := by
        simpa using hlast
      have hjoin := List.dropLast_append_getLast hne
      rwa [hchar] at hjoin
    rw [normDir, if_pos hend, htext]
  rw [← hparent, String.toList_inj]

/-- An object under the key of a path that is spelled as it is listed. -/
theorem kept_of_get? (hspelled : SpelledAsListed path) {k : String} (hkey : b.key path = some k)
    {content : ByteArray} (hget : store.get? k = some content) : b.Kept store path content := by
  obtain ⟨rel, hrel, rfl⟩ := key_eq_some.mp hkey
  have hlistedAs : listedAs path = "/" ++ rel := by simp [listedAs, hrel]
  have hlisted : b.Listed (b.base ++ "/" ++ rel) (listedAs path) := ⟨rel, rfl, hlistedAs⟩
  have hwithin : Within (rstripChar '/' path) (listedAs path) := .inl hspelled.symm
  constructor
  · intro offset limit
    simp only [read, hkey, Option.bind_some, hget]
  · simp only [downloadFiles, List.map_cons, List.map_nil, hkey, hget]
  · intro dir
    rw [count_ls hlisted hget]
    exact if_congr (normDir_parentDir_iff hspelled hrel).symm rfl rfl
  · have hmem : b.base ++ "/" ++ rel ∈ b.doomed store path :=
      mem_doomed.mpr ⟨⟨content, hget⟩, _, hlisted, hwithin⟩
    rw [delete, if_neg (List.ne_nil_of_mem hmem)]
  · intro k hk
    obtain rfl : b.base ++ "/" ++ rel = k := Option.some.inj (hkey.symm.trans hk)
    rw [Option.eq_none_iff_forall_ne_some]
    exact fun v hv => (get?_delete.mp hv).2 ⟨_, hlisted, hwithin⟩

/-- A file that is written and then deleted is spelled as it is listed. -/
theorem spelledAsListed_of_deleted {content : String} {store : Objects}
    (h : ∀ k ∈ b.key path, (b.delete (b.write store path content).2 path).2.get? k = none) :
    SpelledAsListed path := by
  rw [SpelledAsListed, listedAs]
  split
  · next rel hrel =>
    have hkey : b.key path = some (b.base ++ "/" ++ rel) := key_eq_some.mpr ⟨rel, hrel, rfl⟩
    have hget : (b.write store path content).2.get? (b.base ++ "/" ++ rel) =
        some content.toUTF8 := by
      simp only [write, hkey]
      exact Dict.get?_set_self _ _ _
    by_contra hspelled
    have hleft : ¬ ∃ vpath, b.Listed (b.base ++ "/" ++ rel) vpath ∧
        Within (rstripChar '/' path) vpath := by
      rintro ⟨vpath, hlisted, hwithin⟩
      have hvpath : vpath = "/" ++ rel := (hlisted.unique ⟨rel, rfl, rfl⟩).mp rfl
      exact hspelled (eq_of_within hrel (hvpath ▸ hwithin))
    have hkept := get?_delete.mpr ⟨hget, hleft⟩
    rw [h _ hkey] at hkept
    cases hkept
  · rfl

theorem fromUTF8?_toUTF8 (s : String) : String.fromUTF8? s.toUTF8 = some s := by
  rw [String.fromUTF8?, String.toUTF8_eq_toByteArray, dif_pos s.isValidUTF8]
  rfl

/-- **When the backend is a consistent file system** for a path, after any calls: exactly if the
path, without slashes at its end, is what its file is listed as. -/
theorem consistent_iff (b : ObjectBackend) (path : String) :
    (∀ start calls, b.Consistent (b.run start calls) path) ↔ SpelledAsListed path := by
  constructor
  · intro h
    cases hkey : b.key path with
    | none =>
      have hrel : safeRelative path = none := by
        rw [Option.eq_none_iff_forall_ne_some]
        intro rel hrel
        have hsome : b.key path = some (b.base ++ "/" ++ rel) := key_eq_some.mpr ⟨rel, hrel, rfl⟩
        rw [hkey] at hsome
        cases hsome
      simp [SpelledAsListed, listedAs, hrel]
    | some k =>
      have hok : (b.write {} path "").1 = .ok path := by simp only [write, hkey]
      exact spelledAsListed_of_deleted ((h {} []).written "" hok).removed
  · intro hspelled start calls
    generalize b.run start calls = store
    have hwrite : ∀ content, (b.write store path content).1 = .ok path →
        b.Kept (b.write store path content).2 path content.toUTF8 := by
      intro content hok
      cases hkey : b.key path with
      | none =>
        simp only [write, hkey] at hok
        cases hok
      | some k =>
        simp only [write, hkey]
        exact kept_of_get? hspelled hkey (Dict.get?_set_self _ _ _)
    constructor
    · exact hwrite
    · intro content hok htext offset limit
      rw [(hwrite content hok).read, render, textOf, if_pos htext, fromUTF8?_toUTF8]
      dsimp only
      cases b.sliceRead content offset limit <;> rfl
    · intro before content after hafter hok
      rw [getElem?_uploadFiles] at hok
      cases hkey : b.key path with
      | none => simp [upload, hkey] at hok
      | some k =>
        refine kept_of_get? hspelled hkey ?_
        rw [hkey] at hafter
        rw [uploadFiles_append, uploadFiles_cons, get?_uploadFiles hafter]
        simp only [upload, hkey]
        exact Dict.get?_set_self _ _ _
    · intro k content
      rw [get?_delete, hspelled]
    · intro content e herror
      cases hkey : b.key path with
      | none => simp only [write, hkey]
      | some k =>
        simp only [write, hkey] at herror
        cases herror
    · intro before content after e herror
      rw [getElem?_uploadFiles] at herror
      rw [uploadFiles_append, uploadFiles_append, uploadFiles_cons]
      cases hkey : b.key path with
      | none => simp only [upload, hkey]
      | some k => simp [upload, hkey] at herror
    · exact fun old new replaceAll e => edit_error
    · exact fun e => delete_error

/-- The backend of the uploads, for one user. -/
def uploadBackend : ObjectBackend where
  area := "upload"
  registered := by decide
  current := none
  isText := fun _ => true
  sliceRead := fun text _ _ => .ok text
  replaceString := fun _ _ _ _ => .error "not found"

theorem not_consistent : ¬ ∀ b path start calls, Consistent b (b.run start calls) path := by
  intro h
  have hspelled : SpelledAsListed "a.txt" := by
    have hok : (uploadBackend.write {} "a.txt" "x").1 = .ok "a.txt" := by decide +kernel
    exact spelledAsListed_of_deleted ((h uploadBackend "a.txt" {} []).written "x" hok).removed
  rw [SpelledAsListed] at hspelled
  exact absurd hspelled (by decide +kernel)

end ObjectBackend

end NextRole
