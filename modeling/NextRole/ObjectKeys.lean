import NextRole.Agents.ObjectStorage

/-!
# Keys and paths

The keys of the object store are made of paths and read back as paths, within an area or with it,
and the keys of one user are apart from those of another one.  White space is stripped before a
path is taken apart and a tilde is looked for in front, so the end and the start of a path matter;
an identity is put into a key as it is, so a slash in it matters too.

## Main definitions

* `pathSegments`, `normalPath` — the components of a path, and its normal form.
* `Routed` — a path of an area that is routed to the object store.
* `RoundTrips`, `AreaAgrees`, `KeysDisjoint` — what the keys are for.
* `NestedIn` — an identity that reads as an area of another one.

## Main results

* `keyForVirtualPath_eq_some`, `virtualPathForKey_eq_some`, `keyForArea_eq_some` — the functions.
* `roundTrips_iff`, `areaAgrees_iff`, `keysDisjoint_iff` — when each of the three holds.
* `objectKeys_iff` — all together.
* `not_objectKeys` — each of them fails.
-/

namespace NextRole

/-! ### Normal forms -/

/-- The components of a path. -/
def pathSegments (path : String) : List (List Char) :=
  Path.segments '/' keepsPart (strip path).toList

/-- The normal form of a path. -/
def normalPath (path : String) : String :=
  String.ofList ('/' :: Path.join '/' (pathSegments path))

theorem strip_toList (s : String) :
    (strip s).toList = (s.toList.rdropWhile isSpace).dropWhile isSpace :=
  String.toList_ofList

theorem lstripChar_toList (c : Char) (s : String) :
    (lstripChar c s).toList = s.toList.dropWhile fun a => a = c :=
  String.toList_ofList

theorem mem_dropWhile_iff {α : Type*} {f : α → Bool} {c : α} (hc : f c = false) {l : List α} :
    c ∈ l.dropWhile f ↔ c ∈ l := by
  refine ⟨fun h => (List.dropWhile_suffix f).subset h, fun h => ?_⟩
  rw [← List.takeWhile_append_dropWhile (p := f) (l := l), List.mem_append] at h
  refine h.resolve_left fun htake => ?_
  rw [List.mem_takeWhile_imp htake] at hc
  cases hc

theorem mem_strip_iff {c : Char} (hc : isSpace c = false) {s : String} :
    c ∈ (strip s).toList ↔ c ∈ s.toList := by
  rw [strip_toList, mem_dropWhile_iff hc, List.rdropWhile, List.mem_reverse, mem_dropWhile_iff hc,
    List.mem_reverse]

theorem keepsPart_nil : keepsPart [] = false := rfl

theorem intercalate_toList (xs : List (List Char)) :
    ("/".intercalate (xs.map String.ofList)).toList = Path.join '/' xs := by
  rw [String.toList_intercalate, List.map_map]
  have hid : (String.toList ∘ String.ofList) = id := funext fun l => String.toList_ofList
  rw [hid, List.map_id]
  rfl

theorem pathParts_lstrip (s : String) :
    pathParts (lstripChar '/' s) = (Path.segments '/' keepsPart s.toList).map String.ofList := by
  rw [pathParts, lstripChar_toList]
  exact congrArg (List.map String.ofList) (Path.segments_dropWhile_sep keepsPart_nil s.toList)

theorem ofList_mem_map_iff {x : List Char} {xs : List (List Char)} :
    String.ofList x ∈ xs.map String.ofList ↔ x ∈ xs := by
  rw [List.mem_map]
  constructor
  · rintro ⟨y, hy, heq⟩
    rwa [← String.toList_ofList (l := x), ← heq, String.toList_ofList]
  · exact fun h => ⟨x, h, rfl⟩

/-- **What `_safe_relative` accepts.** -/
theorem safeRelative_eq_some {path rel : String} :
    safeRelative path = some rel ↔
      '\\' ∉ path.toList ∧ startsWith (lstripChar '/' (strip path)) "~" = false ∧
        pathSegments path ≠ [] ∧ ['.', '.'] ∉ pathSegments path ∧
          rel.toList = Path.join '/' (pathSegments path) := by
  have hslash : '\\' ∈ (lstripChar '/' (strip path)).toList ↔ '\\' ∈ path.toList := by
    rw [lstripChar_toList, mem_dropWhile_iff (by decide), mem_strip_iff (by decide)]
  have hparts : pathParts (lstripChar '/' (strip path)) = (pathSegments path).map String.ofList :=
    pathParts_lstrip (strip path)
  have hempty : lstripChar '/' (strip path) = "" → pathSegments path = [] := by
    intro h
    rw [h] at hparts
    exact List.map_eq_nil_iff.mp hparts.symm
  have hdot : "." ∉ (pathSegments path).map String.ofList := by
    intro h
    have hmem := (ofList_mem_map_iff (x := ['.'])).mp h
    exact absurd (Path.isSegment_of_mem hmem).kept (by decide)
  have hparent : ".." ∈ (pathSegments path).map String.ofList ↔
      ['.', '.'] ∈ pathSegments path := ofList_mem_map_iff (x := ['.', '.'])
  unfold safeRelative
  simp only [hslash, hparts, hparent, hdot, List.map_eq_nil_iff, or_false]
  split
  · next hunsafe =>
    refine ⟨nofun, fun ⟨hback, htilde, hne, _⟩ => ?_⟩
    obtain h | h | h := hunsafe
    · exact absurd (hempty h) hne
    · exact absurd h hback
    · rw [h] at htilde
      cases htilde
  · next hsafe =>
    obtain ⟨-, hback, htilde⟩ := not_or.mp hsafe |>.imp_right not_or.mp
    split
    · next hbad =>
      exact ⟨nofun, fun ⟨_, _, hne, hpar, _⟩ => absurd hbad (not_or.mpr ⟨hne, hpar⟩)⟩
    · next hgood =>
      obtain ⟨hne, hpar⟩ := not_or.mp hgood
      rw [Option.some_inj, ← String.toList_inj, intercalate_toList]
      exact ⟨fun h => ⟨hback, Bool.eq_false_iff.mpr htilde, hne, hpar, h.symm⟩,
        fun h => h.2.2.2.2.symm⟩

/-! ### Areas -/

/-- The areas and the agents are named by components, and no area is named as an agent. -/
theorem areaRoots_spec {area root : String} (h : (area, root) ∈ areaRoots) :
    areaRoots.lookup area = some root ∧ Path.IsSegment '/' keepsPart area.toList ∧
      '/' ∉ root.toList ∧ (∀ c ∈ area.toList, isSpace c = false ∧ c ≠ '\\' ∧ c ≠ '~') ∧
        area.toList ≠ ['.', '.'] ∧ ∀ e ∈ areaRoots, area ≠ e.2 := by
  have hall : ∀ e ∈ areaRoots, areaRoots.lookup e.1 = some e.2 ∧
      ('/' ∉ e.1.toList ∧ keepsPart e.1.toList = true) ∧ '/' ∉ e.2.toList ∧
      (e.1.toList.all fun c => !isSpace c && c ≠ '\\' && c ≠ '~') = true ∧
        e.1.toList ≠ ['.', '.'] ∧ ∀ e' ∈ areaRoots, e.1 ≠ e'.2 := by
    decide +kernel
  obtain ⟨hlookup, ⟨hsep, hkeep⟩, hroot, hchars, hpar, hne⟩ := hall _ h
  refine ⟨hlookup, ⟨hsep, hkeep⟩, hroot, fun c hc => ?_, hpar, hne⟩
  simpa [and_assoc] using List.all_eq_true.mp hchars c hc

theorem mem_areaRoots_iff {area root : String} :
    (area, root) ∈ areaRoots ↔ areaRoots.lookup area = some root := by
  refine ⟨fun h => (areaRoots_spec h).1, fun h => ?_⟩
  obtain ⟨l₁, l₂, heq, -⟩ := List.lookup_eq_some_iff.mp h
  rw [heq]
  exact List.mem_append_right _ List.mem_cons_self

/-- A path of an area that is routed to the object store. -/
structure Routed (path area root : String) : Prop where
  noBackslash : '\\' ∉ path.toList
  noParent : ['.', '.'] ∉ pathSegments path
  registered : (area, root) ∈ areaRoots
  remainder : ∃ parts, parts ≠ [] ∧ pathSegments path = area.toList :: parts

/-- The characters of a key. -/
def keyChars (identity root : String) (rel : List Char) : List Char :=
  "users/".toList ++ (identity.toList ++ '/' :: (root.toList ++ '/' :: rel))

-- The text of the literal is not to be computed when the definition is unfolded.
theorem keyChars_eq (identity root : String) (rel : List Char) : keyChars identity root rel =
    "users/".toList ++ (identity.toList ++ '/' :: (root.toList ++ '/' :: rel)) := by
  delta keyChars
  rfl

theorem partitionAt_sep {x y : List Char} {s : String} (h : s.toList = x ++ '/' :: y)
    (hx : '/' ∉ x) : partitionAt '/' s = (String.ofList x, String.ofList y) := by
  have hall : ∀ c ∈ x, decide (c ≠ '/') = true := fun c hc => decide_eq_true fun e => hx (e ▸ hc)
  rw [partitionAt, h, List.takeWhile_append_of_pos hall, List.dropWhile_append_of_pos hall]
  simp

theorem partitionAt_of_notMem {s : String} (h : '/' ∉ s.toList) : partitionAt '/' s = (s, "") := by
  have hall : ∀ c ∈ s.toList, decide (c ≠ '/') = true := fun c hc =>
    decide_eq_true fun e => h (e ▸ hc)
  rw [partitionAt, List.takeWhile_eq_self_iff.mpr hall, List.dropWhile_eq_nil_iff.mpr hall]
  simp

/-- A path whose components start with a tilde has no registered area. -/
theorem Routed.not_startsWith {path area root : String} (h : Routed path area root) :
    startsWith (lstripChar '/' (strip path)) "~" = false := by
  obtain ⟨parts, -, hsegs⟩ := h.remainder
  rw [Bool.eq_false_iff, startsWith, Ne, List.isPrefixOf_iff_prefix, lstripChar_toList]
  rintro ⟨t, ht⟩
  have hsame : Path.segments '/' keepsPart ((strip path).toList.dropWhile fun a => a = '/') =
      area.toList :: parts := (Path.segments_dropWhile_sep keepsPart_nil _).trans hsegs
  have hkeep : ∀ x, keepsPart ("~".toList ++ x) = true := fun x => by simp [keepsPart]
  have hslash : '/' ∉ "~".toList := by decide
  obtain ⟨x, xs, hfront, -⟩ := Path.exists_segments_append hslash hkeep t
  rw [← ht, hfront] at hsame
  have hchars := (areaRoots_spec h.registered).2.2.2.1
  rw [← (List.cons.inj hsame).1] at hchars
  exact (hchars '~' (List.mem_append_left _ (by decide))).2.2 rfl

/-- The first component of what is joined, and the rest. -/
theorem partitionAt_join {path rel : String} {area : List Char} {parts : List (List Char)}
    (hsegs : pathSegments path = area :: parts)
    (hrel : rel.toList = Path.join '/' (pathSegments path)) :
    partitionAt '/' rel = (String.ofList area, String.ofList (Path.join '/' parts)) ∧
      (String.ofList (Path.join '/' parts) = "" ↔ parts = []) := by
  have hseg : ∀ x ∈ area :: parts, Path.IsSegment '/' keepsPart x := fun x hx =>
    Path.isSegment_of_mem (hsegs ▸ hx)
  have harea := (hseg area List.mem_cons_self).notMem
  rw [hsegs] at hrel
  cases parts with
  | nil =>
    rw [Path.join_singleton] at hrel
    rw [partitionAt_of_notMem (hrel ▸ harea), ← hrel, String.ofList_toList]
    exact ⟨rfl, by simp [Path.join]⟩
  | cons part parts =>
    rw [Path.join_cons_of_ne_nil area (List.cons_ne_nil part parts)] at hrel
    refine ⟨partitionAt_sep hrel harea, ?_⟩
    simp only [reduceCtorEq, iff_false]
    intro hnil
    have hjoin : Path.join '/' (part :: parts) = [] := by
      rw [← String.toList_ofList (l := Path.join '/' (part :: parts)), hnil]
      rfl
    have hpart : part = [] := List.prefix_nil.mp (hjoin ▸ Path.prefix_join part parts)
    have hkept := (hseg part (by simp)).kept
    rw [hpart] at hkept
    cases hkept

theorem objectScope_toList (current scope : Option String) (root rel : String) :
    (objectScope current scope root ++ "/" ++ rel).toList =
      keyChars (scopeOrDefault (scope.or current)) root rel.toList := by
  simp [objectScope, keyChars_eq]

/-- **What `key_for_virtual_path` makes of a path.** -/
theorem keyForVirtualPath_eq_some {current scope : Option String} {path k : String} :
    keyForVirtualPath current path scope = some k ↔
      ∃ area root, Routed path area root ∧
        k.toList = keyChars (scopeOrDefault (scope.or current)) root
          (Path.join '/' (pathSegments path)) := by
  constructor
  · intro h
    rw [keyForVirtualPath, Option.bind_eq_bind] at h
    obtain ⟨rel, hrel, h⟩ := Option.bind_eq_some_iff.mp h
    obtain ⟨hback, -, hne, hpar, hrel⟩ := safeRelative_eq_some.mp hrel
    obtain ⟨area, parts, hsegs⟩ := List.exists_cons_of_ne_nil hne
    obtain ⟨hpart, hrest⟩ := partitionAt_join hsegs hrel
    rw [hpart] at h
    obtain ⟨root, hroot, h⟩ := Option.bind_eq_some_iff.mp h
    split at h
    · cases h
    · next hremainder =>
      obtain rfl := Option.some.inj h
      refine ⟨String.ofList area, root,
        ⟨hback, hpar, mem_areaRoots_iff.mpr hroot, parts, ?_, ?_⟩, ?_⟩
      · exact fun hnil => hremainder (hrest.mpr hnil)
      · rw [String.toList_ofList, hsegs]
      · rw [objectScope_toList, hrel]
  · rintro ⟨area, root, h, hk⟩
    obtain ⟨parts, hparts, hsegs⟩ := h.remainder
    have hrel : safeRelative path =
        some (String.ofList (Path.join '/' (pathSegments path))) := by
      refine safeRelative_eq_some.mpr ⟨h.noBackslash, h.not_startsWith, ?_, h.noParent,
        String.toList_ofList⟩
      rw [hsegs]
      exact List.cons_ne_nil _ _
    obtain ⟨hpart, hrest⟩ := partitionAt_join hsegs String.toList_ofList
    rw [String.ofList_toList] at hpart
    rw [keyForVirtualPath, Option.bind_eq_bind, hrel, Option.bind_some, hpart]
    refine Option.bind_eq_some_iff.mpr ⟨root, mem_areaRoots_iff.mp h.registered, ?_⟩
    rw [if_neg (hrest.not.mpr hparts)]
    refine congrArg some (String.toList_inj.mp ?_)
    rw [objectScope_toList, hk, String.toList_ofList]

theorem partitionAt_cases (s : String) :
    partitionAt '/' s = (s, "") ∨ ∃ x y, '/' ∉ x ∧ s.toList = x ++ '/' :: y ∧
      partitionAt '/' s = (String.ofList x, String.ofList y) := by
  have hsep : '/' ∉ Path.first '/' s.toList := Path.sep_notMem_first s.toList
  obtain h | ⟨rest, h⟩ := Path.eq_first_or '/' s.toList
  · exact .inl (partitionAt_of_notMem (h ▸ hsep))
  · exact .inr ⟨_, rest, hsep, h, partitionAt_sep h hsep⟩

/-- **What `virtual_path_for_key` makes of a key.** -/
theorem virtualPathForKey_eq_some {key v : String} {scope : Option String} :
    virtualPathForKey key scope = some v ↔
      ∃ area root rest, (area, root) ∈ areaRoots ∧ rest ≠ [] ∧
        key.toList = keyChars (scopeOrDefault scope) root (area.toList ++ '/' :: rest) ∧
          v.toList = '/' :: (area.toList ++ '/' :: rest) := by
  have hpre : ("users/" ++ scopeOrDefault scope ++ "/").toList =
      "users/".toList ++ (scopeOrDefault scope).toList ++ ['/'] := by
    simp
  have hlen : ("users/" ++ scopeOrDefault scope ++ "/").length =
      ("users/" ++ scopeOrDefault scope ++ "/").toList.length := String.length_toList.symm
  constructor
  · intro h
    rw [virtualPathForKey, hlen] at h
    split at h
    · next hstart =>
      rw [startsWith, List.isPrefixOf_iff_prefix] at hstart
      obtain ⟨t, ht⟩ := hstart
      rw [← ht, List.drop_left] at h
      obtain hroot | ⟨root, y, -, hy, hroot⟩ := partitionAt_cases (String.ofList t)
      · rw [hroot] at h
        simp [partitionAt] at h
      obtain hrest | ⟨area, rest, -, hrest, harea⟩ := partitionAt_cases (String.ofList y)
      · simp only [hroot, hrest] at h
        simp at h
      simp only [hroot, harea] at h
      split at h
      · cases h
      · next hgood =>
        obtain ⟨hne, hlookup⟩ := not_or.mp hgood
        rw [String.toList_ofList] at hy hrest
        refine ⟨String.ofList area, String.ofList root, rest,
          mem_areaRoots_iff.mpr (not_not.mp hlookup), ?_, ?_, ?_⟩
        · rintro rfl
          exact hne rfl
        · rw [← ht, hpre, hy, hrest, keyChars_eq]
          simp only [List.append_assoc, List.singleton_append, String.toList_ofList]
        · rw [← Option.some.inj h, String.toList_append, hrest]
          simp only [String.toList_ofList]
          rfl
    · cases h
  · rintro ⟨area, root, rest, hreg, hrest, hkey, hv⟩
    obtain ⟨hlookup, harea, hroot, -⟩ := areaRoots_spec hreg
    have hkey : key.toList = ("users/" ++ scopeOrDefault scope ++ "/").toList ++
        (root.toList ++ '/' :: (area.toList ++ '/' :: rest)) := by
      rw [hkey, hpre, keyChars_eq]
      simp only [List.append_assoc, List.singleton_append]
    have hstart : startsWith key ("users/" ++ scopeOrDefault scope ++ "/") = true := by
      rw [startsWith, List.isPrefixOf_iff_prefix, hkey]
      exact List.prefix_append _ _
    have hne : String.ofList rest ≠ "" := by
      intro hnil
      exact hrest (by rw [← String.toList_ofList (l := rest), hnil]; rfl)
    simp only [virtualPathForKey, hlen, hstart, if_true, hkey, List.drop_left,
      partitionAt_sep String.toList_ofList hroot, partitionAt_sep String.toList_ofList harea.notMem,
      String.ofList_toList, hlookup, hne, ne_eq, not_true, or_false, if_false]
    refine congrArg some (String.toList_inj.mp ?_)
    rw [hv, String.toList_append, String.toList_ofList, String.toList_ofList]
    rfl

/-! ### From a path to a key and back -/

/-- A key is read back as the normal form of its path, and the normal form has the same key. -/
def RoundTrips (current scope : Option String) (path : String) : Prop :=
  ∀ k, keyForVirtualPath current path scope = some k →
    virtualPathForKey k scope = some (normalPath path) ∧
      keyForVirtualPath current (normalPath path) scope = some k

/-- The last character of a text is white space. -/
def endsInSpace (s : String) : Bool := s.toList.getLast?.any isSpace

theorem keyChars_inj {identity root root' : String} {rel rel' : List Char} (h : '/' ∉ root.toList)
    (h' : '/' ∉ root'.toList) (heq : keyChars identity root rel = keyChars identity root' rel') :
    root = root' ∧ rel = rel' := by
  have hcancel := (List.cons.inj (List.append_cancel_left (List.append_cancel_left heq))).2
  obtain ⟨hroot, hrel⟩ := Path.sep_append_inj h h' hcancel
  exact ⟨String.toList_inj.mp hroot, hrel⟩

theorem keyChars_identity_inj {identity identity' root : String} {rel : List Char}
    (heq : keyChars identity root rel = keyChars identity' root rel) : identity = identity' :=
  String.toList_inj.mp (List.append_cancel_right (List.append_cancel_left heq))

theorem normalPath_toList (path : String) :
    (normalPath path).toList = '/' :: Path.join '/' (pathSegments path) := String.toList_ofList

theorem Routed.join_eq {path area root : String} (h : Routed path area root) :
    ∃ rest, rest ≠ [] ∧ Path.join '/' (pathSegments path) = area.toList ++ '/' :: rest := by
  obtain ⟨parts, hparts, hsegs⟩ := h.remainder
  refine ⟨Path.join '/' parts, ?_, ?_⟩
  · have hrest := (partitionAt_join hsegs (String.toList_ofList)).2
    intro hnil
    rw [hnil] at hrest
    exact hparts (hrest.mp rfl)
  · rw [hsegs, Path.join_cons_of_ne_nil _ hparts]

/-- The key of a path is read back under the scope that it was made for. -/
theorem Routed.virtualPathForKey_iff {current scope : Option String} {path area root k : String}
    (h : Routed path area root)
    (hk : k.toList = keyChars (scopeOrDefault (scope.or current)) root
      (Path.join '/' (pathSegments path))) :
    virtualPathForKey k scope = some (normalPath path) ↔
      (scope = none → scopeOrDefault current = "default") := by
  obtain ⟨rest, hrest, hjoin⟩ := h.join_eq
  obtain ⟨hlookup, harea, -⟩ := areaRoots_spec h.registered
  have hscope : scopeOrDefault scope = scopeOrDefault (scope.or current) ↔
      (scope = none → scopeOrDefault current = "default") := by
    cases scope with
    | none => exact ⟨fun heq _ => heq.symm, fun heq => (heq rfl).symm⟩
    | some identity => exact ⟨nofun, fun _ => rfl⟩
  rw [← hscope, virtualPathForKey_eq_some]
  constructor
  · rintro ⟨area', root', rest', hreg', -, hkey, hv⟩
    obtain ⟨hlookup', harea', -⟩ := areaRoots_spec hreg'
    rw [normalPath_toList, hjoin, List.cons_inj_right] at hv
    obtain ⟨harea_eq, hrest_eq⟩ := Path.sep_append_inj harea.notMem harea'.notMem hv
    obtain rfl := String.toList_inj.mp harea_eq
    obtain rfl : root = root' := Option.some.inj (hlookup.symm.trans hlookup')
    rw [hk, hjoin, hrest_eq] at hkey
    exact (keyChars_identity_inj hkey).symm
  · intro heq
    refine ⟨area, root, rest, h.registered, hrest, ?_, ?_⟩
    · rw [hk, hjoin, heq]
    · rw [normalPath_toList, hjoin]

theorem rdropWhile_append_cons {α : Type*} {f : α → Bool} {a : α} (ha : f a = false)
    (xs ys : List α) : (xs ++ a :: ys).rdropWhile f = xs ++ a :: ys.rdropWhile f := by
  rw [List.rdropWhile, List.reverse_append, List.reverse_cons, List.append_assoc,
    List.dropWhile_append]
  split
  · next hempty =>
    rw [List.isEmpty_iff] at hempty
    rw [List.rdropWhile, hempty, List.singleton_append, List.dropWhile_cons, if_neg (by simp [ha])]
    simp
  · simp [List.rdropWhile]

theorem pathSegments_normalPath (path : String) :
    pathSegments (normalPath path) =
      Path.segments '/' keepsPart ((Path.join '/' (pathSegments path)).rdropWhile isSpace) := by
  have hslash : isSpace '/' = false := by decide
  have hdrop := rdropWhile_append_cons hslash [] (Path.join '/' (pathSegments path))
  rw [List.nil_append, List.nil_append] at hdrop
  rw [pathSegments, strip_toList, normalPath_toList, hdrop, List.dropWhile_cons,
    if_neg (by simp [hslash]), Path.segments_cons_sep keepsPart_nil]

theorem endsInSpace_normalPath {path : String}
    (hne : Path.join '/' (pathSegments path) ≠ []) :
    endsInSpace (normalPath path) = isSpace ((Path.join '/' (pathSegments path)).getLast hne) := by
  rw [endsInSpace, normalPath_toList, List.getLast?_cons_of_ne_nil hne,
    List.getLast?_eq_some_getLast hne, Option.any_some]

/-- The normal form of a path has its key, unless white space at its end is stripped. -/
theorem Routed.keyForVirtualPath_normalPath_iff {current scope : Option String}
    {path area root k : String} (h : Routed path area root)
    (hk : k.toList = keyChars (scopeOrDefault (scope.or current)) root
      (Path.join '/' (pathSegments path))) :
    keyForVirtualPath current (normalPath path) scope = some k ↔
      endsInSpace (normalPath path) = false := by
  obtain ⟨rest, -, hjoin⟩ := h.join_eq
  have hne : Path.join '/' (pathSegments path) ≠ [] := by
    rw [hjoin]
    exact List.append_ne_nil_of_right_ne_nil _ (List.cons_ne_nil _ _)
  rw [endsInSpace_normalPath hne]
  constructor
  · intro hagain
    obtain ⟨area', root', h', hk'⟩ := keyForVirtualPath_eq_some.mp hagain
    by_contra hspace
    rw [Bool.not_eq_false] at hspace
    -- the key of the normal form is shorter
    obtain ⟨-, heq⟩ := keyChars_inj (areaRoots_spec h.registered).2.2.1
      (areaRoots_spec h'.registered).2.2.1 (hk.symm.trans hk')
    have hshort : ((Path.join '/' (pathSegments path)).rdropWhile isSpace).length <
        (Path.join '/' (pathSegments path)).length := by
      rw [← List.dropLast_append_getLast hne, List.rdropWhile_concat_pos _ _ _ hspace,
        List.length_append]
      exact Nat.lt_succ_of_le (List.rdropWhile_prefix isSpace _).length_le
    have hle : (Path.join '/' (pathSegments (normalPath path))).length ≤
        ((Path.join '/' (pathSegments path)).rdropWhile isSpace).length := by
      rw [pathSegments_normalPath]
      exact (Path.join_segments_sublist _).length_le
    rw [← heq] at hle
    omega
  · intro hspace
    have hsame : pathSegments (normalPath path) = pathSegments path := by
      rw [pathSegments_normalPath, List.rdropWhile_eq_self_iff.mpr fun _ => by simp [hspace]]
      exact Path.segments_join keepsPart_nil fun x hx => Path.isSegment_of_mem hx
    have hback : '\\' ∉ (normalPath path).toList := by
      rw [normalPath_toList]
      intro hmem
      obtain hmem | hmem := List.mem_cons.mp hmem
      · cases hmem
      · have hstrip := (Path.join_segments_sublist (strip path).toList).subset hmem
        exact h.noBackslash ((mem_strip_iff (by decide)).mp hstrip)
    refine keyForVirtualPath_eq_some.mpr ⟨area, root, ⟨hback, ?_, h.registered, ?_⟩, ?_⟩
    · rw [hsame]
      exact h.noParent
    · rw [hsame]
      exact h.remainder
    · rw [hsame, hk]

/-- **When keys and paths are inverse.** -/
theorem roundTrips_iff {current scope : Option String} {path : String} :
    RoundTrips current scope path ↔ ∀ area root, Routed path area root →
      (scope = none → scopeOrDefault current = "default") ∧
        endsInSpace (normalPath path) = false := by
  constructor
  · intro h area root hr
    have hk := String.toList_ofList (l := keyChars (scopeOrDefault (scope.or current)) root
      (Path.join '/' (pathSegments path)))
    obtain ⟨hpath, hkey⟩ := h _ (keyForVirtualPath_eq_some.mpr ⟨area, root, hr, hk⟩)
    exact ⟨(hr.virtualPathForKey_iff hk).mp hpath,
      (hr.keyForVirtualPath_normalPath_iff hk).mp hkey⟩
  · intro h k hkey
    obtain ⟨area, root, hr, hk⟩ := keyForVirtualPath_eq_some.mp hkey
    obtain ⟨hscope, hspace⟩ := h area root hr
    exact ⟨(hr.virtualPathForKey_iff hk).mpr hscope,
      (hr.keyForVirtualPath_normalPath_iff hk).mpr hspace⟩

/-! ### Two ways to a key -/

/-- A path within an area has the key of the virtual path. -/
def AreaAgrees (current scope : Option String) (area relPath : String) : Prop :=
  keyForArea current area relPath scope =
    keyForVirtualPath current ("/" ++ area ++ "/" ++ relPath) scope

/-- The first character of a text is white space. -/
def startsInSpace (s : String) : Bool := s.toList.head?.any isSpace

/-- **What `key_for_area` makes of a path.** -/
theorem keyForArea_eq_some {current scope : Option String} {area relPath k : String} :
    keyForArea current area relPath scope = some k ↔
      ∃ root, (area, root) ∈ areaRoots ∧ '\\' ∉ relPath.toList ∧
        startsWith (lstripChar '/' (strip relPath)) "~" = false ∧ pathSegments relPath ≠ [] ∧
          ['.', '.'] ∉ pathSegments relPath ∧
            k.toList = keyChars (scopeOrDefault (scope.or current)) root
              (Path.join '/' (area.toList :: pathSegments relPath)) := by
  have hchars : ∀ root rel : String,
      (objectScope current scope root ++ "/" ++ area ++ "/" ++ rel).toList =
        keyChars (scopeOrDefault (scope.or current)) root (area.toList ++ '/' :: rel.toList) := by
    intro root rel
    simp [objectScope, keyChars_eq]
  rw [keyForArea, Option.bind_eq_bind]
  constructor
  · intro h
    obtain ⟨rel, hrel, h⟩ := Option.bind_eq_some_iff.mp h
    obtain ⟨root, hroot, h⟩ := Option.bind_eq_some_iff.mp h
    obtain ⟨hback, htilde, hne, hpar, hrel⟩ := safeRelative_eq_some.mp hrel
    refine ⟨root, mem_areaRoots_iff.mpr hroot, hback, htilde, hne, hpar, ?_⟩
    rw [← Option.some.inj h, hchars, hrel, Path.join_cons_of_ne_nil _ hne]
  · rintro ⟨root, hreg, hback, htilde, hne, hpar, hk⟩
    have hrel : safeRelative relPath =
        some (String.ofList (Path.join '/' (pathSegments relPath))) :=
      safeRelative_eq_some.mpr ⟨hback, htilde, hne, hpar, String.toList_ofList⟩
    rw [hrel, Option.bind_some, mem_areaRoots_iff.mp hreg]
    refine congrArg some (String.toList_inj.mp ?_)
    rw [hchars, String.toList_ofList, hk, Path.join_cons_of_ne_nil _ hne]

theorem pathSegments_virtual (area relPath : String) :
    pathSegments ("/" ++ area ++ "/" ++ relPath) =
      Path.segments '/' keepsPart area.toList ++
        Path.segments '/' keepsPart (relPath.toList.rdropWhile isSpace) := by
  have hslash : isSpace '/' = false := by decide
  have hchars : ("/" ++ area ++ "/" ++ relPath).toList =
      ('/' :: area.toList) ++ '/' :: relPath.toList := by
    simp
  rw [pathSegments, strip_toList, hchars, rdropWhile_append_cons hslash, List.cons_append,
    List.dropWhile_cons, if_neg (by simp [hslash]), Path.segments_cons_sep keepsPart_nil,
    Path.segments_append_cons]

/-- White space in front is a part of the first component where it is not stripped. -/
theorem segments_lstrip (l : List Char) :
    l.dropWhile isSpace = l ∨ ∃ x xs, x ≠ ['.', '.'] ∧ Path.segments '/' keepsPart l = x :: xs ∧
      Path.segments '/' keepsPart l ≠ Path.segments '/' keepsPart (l.dropWhile isSpace) ∧
        ∀ y ∈ xs, y ∈ Path.segments '/' keepsPart (l.dropWhile isSpace) := by
  cases hw : l.takeWhile isSpace with
  | nil =>
    have hl := List.takeWhile_append_dropWhile (p := isSpace) (l := l)
    rw [hw] at hl
    exact .inl hl
  | cons c w =>
    have hl := List.takeWhile_append_dropWhile (p := isSpace) (l := l)
    rw [hw] at hl
    have hspace : ∀ a ∈ c :: w, isSpace a = true := fun a ha =>
      List.mem_takeWhile_imp (hw ▸ ha)
    have hslash : '/' ∉ c :: w := fun hmem => absurd (hspace '/' hmem) (by decide)
    have hdot : c ≠ '.' := fun heq => absurd (hspace c List.mem_cons_self) (by rw [heq]; decide)
    have hkeep : ∀ x, keepsPart ((c :: w) ++ x) = true := by
      intro x
      simp [keepsPart, hdot]
    obtain ⟨x, xs, hfront, hrest⟩ := Path.exists_segments_append hslash hkeep (l.dropWhile isSpace)
    rw [hl] at hfront
    refine .inr ⟨(c :: w) ++ x, xs, fun heq => hdot (List.cons.inj heq).1, hfront, ?_, ?_⟩
    · have hne := Path.segments_append_ne (List.cons_ne_nil c w) hslash hkeep (l.dropWhile isSpace)
      rwa [hl] at hne
    · intro y hy
      obtain hrest | hrest := hrest
      · rw [hrest]
        exact List.mem_cons_of_mem _ hy
      · rw [hrest]
        exact hy

/-- White space is stripped in front where there is some. -/
theorem dropWhile_eq_self_iff_startsInSpace {s : String} (hne : s.toList.rdropWhile isSpace ≠ []) :
    (s.toList.rdropWhile isSpace).dropWhile isSpace = s.toList.rdropWhile isSpace ↔
      startsInSpace s = false := by
  obtain ⟨t, ht⟩ := List.rdropWhile_prefix isSpace s.toList
  obtain ⟨c, l, hl⟩ := List.exists_cons_of_ne_nil hne
  rw [hl] at ht ⊢
  rw [startsInSpace, ← ht, List.cons_append, List.head?_cons, Option.any_some, List.dropWhile_cons]
  split
  · next hspace =>
    refine ⟨fun heq => ?_, fun hnot => absurd (hspace.symm.trans hnot) (by decide)⟩
    have hlen := (List.dropWhile_suffix isSpace (l := l)).length_le
    rw [heq, List.length_cons] at hlen
    omega
  · next hspace => exact ⟨fun _ => Bool.eq_false_iff.mpr hspace, fun _ => rfl⟩

/-- What `key_for_area` accepts is a virtual path of the area. -/
theorem routed_of_keyForArea {current scope : Option String} {area relPath k : String}
    (h : keyForArea current area relPath scope = some k) :
    ∃ root, Routed ("/" ++ area ++ "/" ++ relPath) area root := by
  obtain ⟨root, hreg, hback, -, hne, hpar, -⟩ := keyForArea_eq_some.mp h
  obtain ⟨-, harea, -, hchars, hdots, -⟩ := areaRoots_spec hreg
  have hstrip : pathSegments relPath = Path.segments '/' keepsPart
      ((relPath.toList.rdropWhile isSpace).dropWhile isSpace) := by
    rw [pathSegments, strip_toList]
  have hsegs := pathSegments_virtual area relPath
  rw [harea.segments_eq, List.singleton_append] at hsegs
  refine ⟨root, ?_, ?_, hreg, _, ?_, hsegs⟩
  · have hmem : ("/" ++ area ++ "/" ++ relPath).toList =
        ('/' :: area.toList) ++ '/' :: relPath.toList := by
      simp
    rw [hmem]
    simp only [List.mem_append, List.mem_cons, not_or]
    exact ⟨⟨by decide, fun hin => (hchars _ hin).2.1 rfl⟩, by decide, hback⟩
  · rw [hsegs, List.mem_cons, not_or]
    refine ⟨hdots.symm, ?_⟩
    obtain heq | ⟨x, xs, hx, hfront, -, hsub⟩ := segments_lstrip (relPath.toList.rdropWhile isSpace)
    · rw [← heq, ← hstrip]
      exact hpar
    · rw [hfront, List.mem_cons, not_or]
      exact ⟨hx.symm, fun hin => hpar (hstrip ▸ hsub _ hin)⟩
  · obtain heq | ⟨x, xs, -, hfront, -⟩ := segments_lstrip (relPath.toList.rdropWhile isSpace)
    · rw [← heq, ← hstrip]
      exact hne
    · rw [hfront]
      exact List.cons_ne_nil x xs

/-- **When the two ways to a key agree.** -/
theorem areaAgrees_iff {current scope : Option String} {area relPath : String} :
    AreaAgrees current scope area relPath ↔
      ∀ area' root, Routed ("/" ++ area ++ "/" ++ relPath) area' root →
        (∃ root, (area, root) ∈ areaRoots) ∧ startsInSpace relPath = false ∧
          startsWith (lstripChar '/' (strip relPath)) "~" = false := by
  have hstrip : pathSegments relPath = Path.segments '/' keepsPart
      ((relPath.toList.rdropWhile isSpace).dropWhile isSpace) := by
    rw [pathSegments, strip_toList]
  have hsegs := pathSegments_virtual area relPath
  constructor
  · intro hagree area' root' hr
    have hk := String.toList_ofList (l := keyChars (scopeOrDefault (scope.or current)) root'
      (Path.join '/' (pathSegments ("/" ++ area ++ "/" ++ relPath))))
    have hvirtual := keyForVirtualPath_eq_some.mpr ⟨area', root', hr, hk⟩
    obtain ⟨root, hreg, -, htilde, -, -, hkey⟩ :=
      keyForArea_eq_some.mp (hagree.trans hvirtual)
    obtain ⟨-, harea, hroot, -⟩ := areaRoots_spec hreg
    refine ⟨⟨root, hreg⟩, ?_, htilde⟩
    -- the same components are joined
    obtain ⟨-, hjoin⟩ := keyChars_inj (areaRoots_spec hr.registered).2.2.1 hroot
      (hk.symm.trans hkey)
    rw [harea.segments_eq, List.singleton_append] at hsegs
    have hseg : ∀ l : List Char, ∀ x ∈ area.toList :: Path.segments '/' keepsPart l,
        Path.IsSegment '/' keepsPart x := by
      intro l x hx
      obtain rfl | hx := List.mem_cons.mp hx
      · exact harea
      · exact Path.isSegment_of_mem hx
    have hcut := congrArg (Path.segments '/' keepsPart) hjoin
    rw [hsegs, hstrip, Path.segments_join keepsPart_nil (hseg _),
      Path.segments_join keepsPart_nil (hseg _), List.cons_inj_right] at hcut
    have hne : relPath.toList.rdropWhile isSpace ≠ [] := by
      intro hnil
      obtain ⟨parts, hparts, hsame⟩ := hr.remainder
      rw [hsegs, hnil] at hsame
      exact hparts (List.cons.inj hsame).2.symm
    rw [← dropWhile_eq_self_iff_startsInSpace hne]
    obtain heq | ⟨-, -, -, -, hdiff, -⟩ := segments_lstrip (relPath.toList.rdropWhile isSpace)
    · exact heq
    · exact absurd hcut hdiff
  · intro hcond
    by_cases hrouted : ∃ area' root, Routed ("/" ++ area ++ "/" ++ relPath) area' root
    · obtain ⟨area', root', hr⟩ := hrouted
      obtain ⟨⟨root, hreg⟩, hspace, htilde⟩ := hcond area' root' hr
      obtain ⟨hlookup, harea, -⟩ := areaRoots_spec hreg
      rw [harea.segments_eq, List.singleton_append] at hsegs
      obtain ⟨parts, hparts, hsame⟩ := hr.remainder
      rw [hsegs] at hsame
      obtain ⟨harea_eq, hparts_eq⟩ := List.cons.inj hsame
      obtain rfl := String.toList_inj.mp harea_eq
      obtain rfl := Option.some.inj (hlookup.symm.trans (areaRoots_spec hr.registered).1)
      have hne : relPath.toList.rdropWhile isSpace ≠ [] := by
        intro hnil
        rw [hnil] at hparts_eq
        exact hparts hparts_eq.symm
      rw [(dropWhile_eq_self_iff_startsInSpace hne).mpr hspace] at hstrip
      have hback : '\\' ∉ relPath.toList := by
        have hchars : ("/" ++ area ++ "/" ++ relPath).toList =
            ("/" ++ area ++ "/").toList ++ relPath.toList := String.toList_append
        exact fun hin => hr.noBackslash (hchars ▸ List.mem_append_right _ hin)
      have hpar := hr.noParent
      rw [hsegs, List.mem_cons, not_or, ← hstrip] at hpar
      have hk := String.toList_ofList (l := keyChars (scopeOrDefault (scope.or current)) root
        (Path.join '/' (pathSegments ("/" ++ area ++ "/" ++ relPath))))
      refine Eq.trans ?_ (keyForVirtualPath_eq_some.mpr ⟨area, root, hr, hk⟩).symm
      refine keyForArea_eq_some.mpr ⟨root, hreg, hback, htilde, ?_, hpar.2, ?_⟩
      · rw [hstrip, hparts_eq]
        exact hparts
      · rw [hk, hsegs, hstrip]
    · have hvirtual : keyForVirtualPath current ("/" ++ area ++ "/" ++ relPath) scope = none := by
        rw [Option.eq_none_iff_forall_ne_some]
        intro k hk
        obtain ⟨area', root, hr, -⟩ := keyForVirtualPath_eq_some.mp hk
        exact hrouted ⟨area', root, hr⟩
      refine Eq.trans ?_ hvirtual.symm
      rw [Option.eq_none_iff_forall_ne_some]
      intro k hk
      obtain ⟨root, hr⟩ := routed_of_keyForArea hk
      exact hrouted ⟨area, root, hr⟩

/-! ### Keys of two users -/

/-- A key of a user. -/
def IsKey (identity key : String) : Prop :=
  (∃ current path, keyForVirtualPath current path (some identity) = some key) ∨
    ∃ current area relPath, keyForArea current area relPath (some identity) = some key

/-- A key lies in an area of a user. -/
def InAreaOf (identity key : String) : Prop :=
  ∃ current area start, areaKeyPrefix current area (some identity) = some start ∧
    startsWith key (start ++ "/") = true

/-- No key of the one is a key of the other or lies in an area of the other. -/
def KeysDisjoint (identity other : String) : Prop :=
  ∀ key, (IsKey identity key → ¬ IsKey other key ∧ ¬ InAreaOf other key) ∧
    (IsKey other key → ¬ IsKey identity key ∧ ¬ InAreaOf identity key)

/-- An identity reads as an area of another one, or as something in it. -/
def NestedIn (identity other : String) : Prop :=
  ∃ e ∈ areaRoots, startsWith (identity ++ "/") (other ++ "/" ++ e.2 ++ "/" ++ e.1 ++ "/") = true

instance (identity other : String) : Decidable (NestedIn identity other) :=
  inferInstanceAs (Decidable (∃ e ∈ areaRoots,
    startsWith (identity ++ "/") (other ++ "/" ++ e.2 ++ "/" ++ e.1 ++ "/") = true))

section Identities

variable {identity other key : String}

/-- What lies in the areas of a user. -/
theorem inAreaOf_iff (hidentity : identity ≠ "") : InAreaOf identity key ↔
    ∃ area root rest, (area, root) ∈ areaRoots ∧
      key.toList = keyChars identity root (area.toList ++ '/' :: rest) := by
  have hscope : scopeOrDefault (some identity) = identity := if_neg hidentity
  have hstart : ∀ (current : Option String) (area root : String),
      (objectScope current (some identity) root ++ "/" ++ area ++ "/").toList =
        keyChars identity root (area.toList ++ ['/']) := by
    intro current area root
    simp [objectScope, keyChars_eq, hscope]
  constructor
  · rintro ⟨current, area, start, hprefix, hkey⟩
    obtain ⟨root, hroot, rfl⟩ := Option.map_eq_some_iff.mp hprefix
    rw [startsWith, List.isPrefixOf_iff_prefix, hstart] at hkey
    obtain ⟨rest, hrest⟩ := hkey
    refine ⟨area, root, rest, mem_areaRoots_iff.mpr hroot, ?_⟩
    rw [← hrest]
    simp [keyChars_eq]
  · rintro ⟨area, root, rest, hreg, hkey⟩
    refine ⟨none, area, _, congrArg (Option.map _) (mem_areaRoots_iff.mp hreg), ?_⟩
    rw [startsWith, List.isPrefixOf_iff_prefix, hstart, hkey]
    exact ⟨rest, by simp [keyChars_eq]⟩

/-- The keys of a user lie in the user's areas. -/
theorem IsKey.inAreaOf (hidentity : identity ≠ "") (h : IsKey identity key) :
    InAreaOf identity key := by
  have hscope : ∀ current : Option String,
      scopeOrDefault ((some identity).or current) = identity := fun _ => if_neg hidentity
  rw [inAreaOf_iff hidentity]
  obtain ⟨current, path, hkey⟩ | ⟨current, area, relPath, hkey⟩ := h
  · obtain ⟨area, root, hr, hk⟩ := keyForVirtualPath_eq_some.mp hkey
    obtain ⟨rest, -, hjoin⟩ := hr.join_eq
    refine ⟨area, root, rest, hr.registered, ?_⟩
    rw [hk, hjoin, hscope]
  · obtain ⟨root, hreg, -, -, hne, -, hk⟩ := keyForArea_eq_some.mp hkey
    rw [hscope, Path.join_cons_of_ne_nil _ hne] at hk
    exact ⟨area, root, _, hreg, hk⟩

/-- A key of two users, by the components of their identities: the longer one is nested. -/
theorem nestedIn_of_splitOn {area root area' root' : String} {M xs ys : List (List Char)}
    (hne : identity ≠ other) (hreg : (area, root) ∈ areaRoots) (hreg' : (area', root') ∈ areaRoots)
    (hsplit : other.toList.splitOn '/' = identity.toList.splitOn '/' ++ M)
    (heq : root.toList :: area.toList :: xs = M ++ root'.toList :: area'.toList :: ys) :
    NestedIn other identity := by
  obtain _ | ⟨m, _ | ⟨m', M⟩⟩ := M
  · -- the identities are equal
    rw [List.append_nil] at hsplit
    have hjoin := congrArg (Path.join '/') hsplit
    rw [Path.join_splitOn, Path.join_splitOn] at hjoin
    exact absurd (String.toList_inj.mp hjoin).symm hne
  · -- an area is named as an agent
    have harea := (List.cons.inj (List.cons.inj heq).2).1
    exact absurd (String.toList_inj.mp harea) ((areaRoots_spec hreg).2.2.2.2.2 (area', root') hreg')
  · obtain ⟨rfl, hrest⟩ := List.cons.inj heq
    obtain ⟨rfl, -⟩ := List.cons.inj hrest
    refine ⟨(area, root), hreg, ?_⟩
    have hother : other.toList ++ ['/'] = identity.toList ++ '/' :: (root.toList ++ '/' ::
        (area.toList ++ '/' :: Path.join '/' (M ++ [[]]))) := by
      have hjoin : Path.join '/' (other.toList.splitOn '/' ++ [[]]) = _ :=
        Path.join_append (List.splitOn_ne_nil '/' other.toList) (List.cons_ne_nil [] [])
      rw [Path.join_splitOn, Path.join_singleton, hsplit, List.append_assoc,
        Path.join_append (List.splitOn_ne_nil '/' identity.toList) (by simp), Path.join_splitOn,
        List.cons_append, List.cons_append, Path.join_cons_of_ne_nil _ (List.cons_ne_nil _ _),
        Path.join_cons_of_ne_nil _ (by simp)] at hjoin
      exact hjoin.symm
    have hchars : (other ++ "/").toList = other.toList ++ ['/'] := String.toList_append
    rw [startsWith, List.isPrefixOf_iff_prefix, hchars, hother]
    exact ⟨Path.join '/' (M ++ [[]]), by simp⟩

/-- What lies in areas of two users shows that one of them is nested. -/
theorem nestedIn_of_inAreaOf (hidentity : identity ≠ "") (hother : other ≠ "")
    (hne : identity ≠ other) (h : InAreaOf identity key) (h' : InAreaOf other key) :
    NestedIn identity other ∨ NestedIn other identity := by
  obtain ⟨area, root, rest, hreg, hkey⟩ := (inAreaOf_iff hidentity).mp h
  obtain ⟨area', root', rest', hreg', hkey'⟩ := (inAreaOf_iff hother).mp h'
  have hcut := congrArg (List.splitOn '/') (List.append_cancel_left (hkey.symm.trans hkey'))
  obtain ⟨-, harea, hroot, -⟩ := areaRoots_spec hreg
  obtain ⟨-, harea', hroot', -⟩ := areaRoots_spec hreg'
  rw [List.splitOn_append_cons_self, List.splitOn_append_cons_self_of_not_mem hroot,
    List.splitOn_append_cons_self_of_not_mem harea.notMem, List.splitOn_append_cons_self,
    List.splitOn_append_cons_self_of_not_mem hroot',
    List.splitOn_append_cons_self_of_not_mem harea'.notMem] at hcut
  obtain ⟨M, hsplit, heq⟩ | ⟨M, hsplit, heq⟩ := List.append_eq_append_iff.mp hcut
  · exact .inr (nestedIn_of_splitOn hne hreg hreg' hsplit heq)
  · exact .inl (nestedIn_of_splitOn hne.symm hreg' hreg hsplit heq)

/-- The key of a nested user for a path is in an area of the other one. -/
theorem inAreaOf_of_nestedIn {path area root : String} (hrouted : Routed path area root)
    (hidentity : identity ≠ "") (hother : other ≠ "") (h : NestedIn identity other) :
    ∃ key, keyForVirtualPath none path (some identity) = some key ∧ InAreaOf other key := by
  obtain ⟨⟨area', root'⟩, hreg, hstart⟩ := h
  have hscope : scopeOrDefault ((some identity).or none) = identity := if_neg hidentity
  rw [startsWith, List.isPrefixOf_iff_prefix] at hstart
  obtain ⟨t, ht⟩ := hstart
  have hchars : identity.toList ++ ['/'] =
      other.toList ++ '/' :: (root'.toList ++ '/' :: (area'.toList ++ '/' :: t)) := by
    simpa using ht.symm
  have hkey : keyForVirtualPath none path (some identity) = some _ :=
    keyForVirtualPath_eq_some.mpr ⟨_, _, hrouted, String.toList_ofList⟩
  refine ⟨_, hkey, (inAreaOf_iff hother).mpr ⟨area', root', t ++
    (root.toList ++ '/' :: Path.join '/' (pathSegments path)), hreg, ?_⟩⟩
  have hcons : ∀ rel, identity.toList ++ '/' :: rel = identity.toList ++ ['/'] ++ rel := by simp
  rw [String.toList_ofList, hscope, keyChars_eq, keyChars_eq, hcons, hchars]
  simp only [List.append_assoc, List.cons_append]

theorem exists_key_of_nestedIn (hidentity : identity ≠ "") (hother : other ≠ "")
    (h : NestedIn identity other) : ∃ key, IsKey identity key ∧ InAreaOf other key := by
  have hrouted : Routed "/upload/cv.pdf" "upload" "career_agent" :=
    ⟨by decide +kernel, by decide +kernel, by decide +kernel, ["cv.pdf".toList], by decide +kernel,
      by decide +kernel⟩
  obtain ⟨key, hkey, hin⟩ := inAreaOf_of_nestedIn hrouted hidentity hother h
  exact ⟨key, .inl ⟨none, _, hkey⟩, hin⟩

end Identities

/-- **When the keys of two users are apart.** -/
theorem keysDisjoint_iff {identity other : String} (hidentity : identity ≠ "") (hother : other ≠ "")
    (hne : identity ≠ other) :
    KeysDisjoint identity other ↔ ¬ NestedIn identity other ∧ ¬ NestedIn other identity := by
  constructor
  · intro h
    refine ⟨fun hnested => ?_, fun hnested => ?_⟩
    · obtain ⟨key, hkey, hin⟩ := exists_key_of_nestedIn hidentity hother hnested
      exact ((h key).1 hkey).2 hin
    · obtain ⟨key, hkey, hin⟩ := exists_key_of_nestedIn hother hidentity hnested
      exact ((h key).2 hkey).2 hin
  · rintro ⟨hnot, hnot'⟩ key
    have hapart : InAreaOf identity key → ¬ InAreaOf other key := fun h h' =>
      (nestedIn_of_inAreaOf hidentity hother hne h h').elim hnot hnot'
    exact ⟨fun h => ⟨fun h' => hapart (h.inAreaOf hidentity) (h'.inAreaOf hother),
        fun h' => hapart (h.inAreaOf hidentity) h'⟩,
      fun h => ⟨fun h' => hapart (h'.inAreaOf hidentity) (h.inAreaOf hother),
        fun h' => hapart h' (h.inAreaOf hother)⟩⟩

/-! ### All together -/

/-- **Keys and paths are inverse, the two ways to a key agree and the keys of two users are apart**
exactly under these conditions. -/
theorem objectKeys_iff (current scope : Option String) (path area relPath : String)
    {identity other : String} (hidentity : identity ≠ "") (hother : other ≠ "")
    (hne : identity ≠ other) :
    (RoundTrips current scope path ↔ ∀ area root, Routed path area root →
      (scope = none → scopeOrDefault current = "default") ∧
        endsInSpace (normalPath path) = false) ∧
    (AreaAgrees current scope area relPath ↔
      ∀ area' root, Routed ("/" ++ area ++ "/" ++ relPath) area' root →
        (∃ root, (area, root) ∈ areaRoots) ∧ startsInSpace relPath = false ∧
          startsWith (lstripChar '/' (strip relPath)) "~" = false) ∧
    (KeysDisjoint identity other ↔ ¬ NestedIn identity other ∧ ¬ NestedIn other identity) :=
  ⟨roundTrips_iff, areaAgrees_iff, keysDisjoint_iff hidentity hother hne⟩

/-- An uploaded file of one of two users. -/
theorem objectKeys_upload : RoundTrips none (some "alice") "/upload/cv.pdf" ∧
    AreaAgrees none (some "alice") "upload" "cv.pdf" ∧ KeysDisjoint "alice" "bob" := by
  obtain ⟨htrip, hagree, hdisjoint⟩ := objectKeys_iff none (some "alice") "/upload/cv.pdf"
    "upload" "cv.pdf" (by decide : "alice" ≠ "") (by decide : "bob" ≠ "") (by decide)
  exact ⟨htrip.mpr fun _ _ _ => ⟨nofun, by decide +kernel⟩,
    hagree.mpr fun _ _ _ => ⟨⟨"career_agent", by decide +kernel⟩, by decide +kernel,
      by decide +kernel⟩,
    hdisjoint.mpr ⟨by decide +kernel, by decide +kernel⟩⟩

/-- The current identity is not asked for when a key is read back, a tilde is refused on one of the
ways only, and an identity may read as an area of another one. -/
theorem not_objectKeys : ¬ RoundTrips (some "alice") none "/upload/cv.pdf" ∧
    ¬ AreaAgrees none none "upload" "~cv.pdf" ∧ ¬ KeysDisjoint "a" "a/career_agent/upload" := by
  refine ⟨fun h => ?_, ?_, fun h => ?_⟩
  · have hback := (h "users/alice/career_agent/upload/cv.pdf" (by decide +kernel)).1
    exact absurd hback (by decide +kernel)
  · rw [AreaAgrees]
    decide +kernel
  · have hapart := (h "users/a/career_agent/upload/career_agent/upload/cv.pdf").1
      (.inl ⟨none, "/upload/career_agent/upload/cv.pdf", by decide +kernel⟩)
    exact hapart.1 (.inl ⟨none, "/upload/cv.pdf", by decide +kernel⟩)

end NextRole
