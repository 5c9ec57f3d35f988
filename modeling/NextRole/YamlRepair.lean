import NextRole.Agents.Resume
import NextRole.Lib.Dict

/-!
# What the repair of a resume touches

The repair writes an entry as Python spells what the loader has made of it, which is the text of
the author only where the author spells it so.  It does not see what the entries of a section are,
and it works in place, on lists that may be the list of another path as well.

## Main definitions

* `IsStringList` — the paths of the lists that are repaired.
* `Defect` — an entry that is repaired, and how Python spells it.
* `OnlyDefects` — a body of which the repair loses nothing and touches only defects.
* `Repairable` — the documents of these bodies.

## Main results

* `normalizeResumeYaml_eq` — the repair replaces the entries of the visited lists.
* `coerce_eq_none_of_repaired` — a repaired document has nothing to repair.
* `onlyDefects_iff` — **the repair touches only defects exactly of a repairable document**.
* `not_onlyDefects` — a number with a zero at its end is not what its author wrote.
-/

namespace NextRole

open ObjectGraph

/-! ### Entries -/

/-- An entry that is repaired, and how Python spells it. -/
inductive Defect (heap : DocumentHeap) : Value Scalar → String → Prop
  | int (n : ℤ) : Defect heap (.scalar (.int n)) (toString n)
  | float (text : String) : Defect heap (.scalar (.float text)) text
  | trailingColon {item : Value Scalar} {key : String}
      (h : dictAt heap item = some [(.str key, .scalar .null)]) : Defect heap item (key ++ ":")
  | pair {item : Value Scalar} {key text : String} {value : Scalar}
      (h : dictAt heap item = some [(.str key, .scalar value)]) (htext : value.text? = some text) :
      Defect heap item (key ++ ": " ++ text)

theorem coerceStringEntry_eq_some {heap : DocumentHeap} {item : Value Scalar} {text : String} :
    coerceStringEntry heap item = some text ↔ Defect heap item text := by
  constructor
  · intro h
    unfold coerceStringEntry at h
    split at h
    · cases h
    · cases h
      exact .int _
    · cases h
      exact .float _
    · split at h
      · next hdict =>
        cases h
        exact .trailingColon hdict
      · next hdict =>
        obtain ⟨text', htext, rfl⟩ := Option.map_eq_some_iff.mp h
        exact .pair hdict htext
      · cases h
  · rintro (n | text | hdict | ⟨hdict, htext⟩)
    · rfl
    · rfl
    · cases item with
      | scalar s => cases hdict
      | ref a => simp [coerceStringEntry, hdict]
    · next key text value =>
      cases item with
      | scalar s => cases hdict
      | ref a =>
        cases value with
        | null => cases htext
        | _ => simp [coerceStringEntry, hdict, htext]

/-- An entry after its repair. -/
def repairItem (heap : DocumentHeap) (item : Value Scalar) : Value Scalar :=
  match coerceStringEntry heap item with
  | some text => .scalar (.str text)
  | none => item

theorem repairItem_of_defect {heap : DocumentHeap} {item : Value Scalar} {text : String}
    (h : Defect heap item text) : repairItem heap item = .scalar (.str text) := by
  rw [repairItem, coerceStringEntry_eq_some.mpr h]

theorem repairItem_of_none {heap : DocumentHeap} {item : Value Scalar}
    (h : coerceStringEntry heap item = none) : repairItem heap item = item := by
  rw [repairItem, h]

theorem coerceStringEntry_repairItem (heap : DocumentHeap) (item : Value Scalar) :
    coerceStringEntry heap (repairItem heap item) = none := by
  cases h : coerceStringEntry heap item with
  | none =>
    rw [repairItem_of_none h]
    exact h
  | some text =>
    rw [repairItem_of_defect (coerceStringEntry_eq_some.mp h)]
    rfl

theorem repairItem_repairItem (heap : DocumentHeap) (item : Value Scalar) :
    repairItem heap (repairItem heap item) = repairItem heap item :=
  repairItem_of_none (coerceStringEntry_repairItem heap item)

theorem repairItem_ne_iff {heap : DocumentHeap} {item : Value Scalar} :
    repairItem heap item ≠ item ↔ ∃ text, Defect heap item text := by
  constructor
  · intro hne
    cases h : coerceStringEntry heap item with
    | none => exact absurd (repairItem_of_none h) hne
    | some text => exact ⟨text, coerceStringEntry_eq_some.mp h⟩
  · rintro ⟨text, h⟩ heq
    rw [repairItem_of_defect h] at heq
    subst heq
    cases coerceStringEntry_eq_some.mpr h

theorem shape_of_defect {heap : DocumentHeap} {item : Value Scalar} {text text' : String}
    (h : Defect heap item text) : shape heap item ≠ .scalar (.str text') := by
  intro hshape
  cases item with
  | scalar s =>
    obtain rfl : s = .str text' := by
      simpa [shape] using hshape
    cases coerceStringEntry_eq_some.mpr h
  | ref a =>
    rw [shape] at hshape
    split at hshape <;> cases hshape

/-- Below a defect there is no list. -/
theorem listAt_of_defect {heap : DocumentHeap} {item : Value Scalar} {text : String} {a : ℕ}
    {path : List (Step Scalar)} (h : Defect heap item text)
    (hpath : resolve heap item path = some (.ref a)) : listAt heap (.ref a) = none := by
  cases path with
  | nil =>
    cases hpath
    cases h with
    | trailingColon hdict | pair hdict =>
      obtain ⟨b, hb, hnode⟩ := dictAt_eq_some.mp hdict
      cases hb
      simp [listAt, hnode]
  | cons step path =>
    rw [resolve] at hpath
    obtain ⟨w, hw, hrest⟩ := Option.bind_eq_some_iff.mp hpath
    -- what is below is a scalar
    obtain ⟨s, rfl⟩ : ∃ s, w = .scalar s := by
      cases h with
      | int | float => cases hw
      | trailingColon hdict | pair hdict =>
        obtain ⟨b, rfl, hnode⟩ := dictAt_eq_some.mp hdict
        rw [child, hnode, Option.bind_some] at hw
        cases step with
        | index i => cases hw
        | part i => cases hw
        | key k =>
          simp only [Node.child, List.lookup_cons] at hw
          split at hw
          · cases hw
            exact ⟨_, rfl⟩
          · cases hw
    cases path with
    | nil => cases hrest
    | cons step' path => cases hrest

/-! ### The loops -/

/-- The heap after the repair of the lists among some values. -/
def repaired (heap : DocumentHeap) (visited : List (Value Scalar)) : DocumentHeap :=
  replaceItems heap (fun a => .ref a ∈ visited) (repairItem heap)

section Loops

variable {heap : DocumentHeap} {visited : List (Value Scalar)}

theorem coerceStringEntry_congr {heap' : DocumentHeap}
    (h : ∀ v, dictAt heap' v = dictAt heap v) (item : Value Scalar) :
    coerceStringEntry heap' item = coerceStringEntry heap item := by
  unfold coerceStringEntry
  rw [h]

theorem coerceStringEntry_repaired (item : Value Scalar) :
    coerceStringEntry (repaired heap visited) item = coerceStringEntry heap item :=
  coerceStringEntry_congr (fun _ => dictAt_replaceItems) item

theorem repairItem_repaired : repairItem (repaired heap visited) = repairItem heap := by
  funext item
  rw [repairItem, repairItem, coerceStringEntry_repaired]

/-- The loop over the items of a list, of which some are done. -/
theorem foldl_setItem {a : ℕ} (todo : List (Value Scalar)) :
    ∀ (done : List (Value Scalar)) (state : DocumentHeap × ℕ),
      (∀ v, dictAt state.1 v = dictAt heap v) →
      state.1[a]? = some (.list (done ++ todo)) →
      (todo.zipIdx done.length).foldl (repairEntry a) state =
      (state.1.set a (.list (done ++ todo.map (repairItem heap))),
        state.2 + todo.countP fun item => (coerceStringEntry heap item).isSome) := by
  induction todo with
  | nil =>
    intro done state _ hlist
    obtain ⟨hlt, hget⟩ := List.getElem?_eq_some_iff.mp hlist
    rw [List.map_nil, ← hget, List.set_getElem_self]
    rfl
  | cons item todo ih =>
    intro done state hdicts hlist
    rw [List.zipIdx_cons, List.foldl_cons, repairEntry, coerceStringEntry_congr hdicts]
    have hlt : a < state.1.length := (List.getElem?_eq_some_iff.mp hlist).1
    have hlength : (done ++ [repairItem heap item]).length = done.length + 1 := by simp
    cases hitem : coerceStringEntry heap item with
    | none =>
      have hlist' : state.1[a]? = some (.list (done ++ [item] ++ todo)) := by
        rw [hlist, List.append_assoc]
        rfl
      have hnext := ih (done ++ [item]) state hdicts hlist'
      rw [List.length_append, List.length_singleton] at hnext
      rw [hnext]
      simp [hitem, repairItem_of_none hitem]
    | some coerced =>
      have hset : setItem state.1 a done.length (.scalar (.str coerced)) =
          state.1.set a (.list (done ++ [repairItem heap item] ++ todo)) := by
        simp [setItem, hlist, repairItem, hitem]
      have hdicts' : ∀ v, dictAt (setItem state.1 a done.length (.scalar (.str coerced))) v =
          dictAt heap v := by
        intro v
        rw [← hdicts v, hset]
        cases v with
        | scalar s => rfl
        | ref b =>
          simp only [dictAt, List.getElem?_set]
          by_cases hb : a = b
          · subst hb
            rw [if_pos rfl, if_pos hlt, hlist]
          · rw [if_neg hb]
      have hnext := ih (done ++ [repairItem heap item])
        (setItem state.1 a done.length (.scalar (.str coerced)), state.2 + 1) hdicts' (by
          rw [hset, List.getElem?_set_self hlt])
      rw [hlength] at hnext
      rw [hnext, hset]
      simp only [List.set_set, List.append_assoc, List.map_cons, List.countP_cons, hitem,
        Option.isSome_some, if_true, List.cons_append, List.nil_append]
      rw [Nat.add_assoc, Nat.add_comm 1]

/-- The repair of one value. -/
theorem repairStringEntries_eq (heap : DocumentHeap) (items : Value Scalar) :
    repairStringEntries heap items = (repaired heap [items],
      ((listAt heap items).getD []).countP fun item => (coerceStringEntry heap item).isSome) := by
  cases items with
  | scalar s =>
    have hsame : repaired heap [.scalar s] = heap := by
      apply List.ext_getElem?
      intro a
      rw [repaired, getElem?_replaceItems]
      cases heap[a]? with
      | none => rfl
      | some node => cases node <;> simp
    rw [hsame]
    rfl
  | ref a =>
    cases hlist : listAt heap (.ref a) with
    | none =>
      have hsame : repaired heap [.ref a] = heap := by
        apply List.ext_getElem?
        intro b
        rw [repaired, getElem?_replaceItems]
        cases hnode : heap[b]? with
        | none => rfl
        | some node =>
          cases node with
          | dict entries => rfl
          | other parts => rfl
          | list items =>
            have hb : b ≠ a := by
              rintro rfl
              simp [listAt, hnode] at hlist
            simp [hb]
      rw [hsame]
      simp [repairStringEntries, hlist]
    | some items =>
      obtain ⟨b, hb, hnode⟩ := listAt_eq_some.mp hlist
      cases hb
      have hloop := @foldl_setItem heap a items [] (heap, 0) (fun _ => rfl) hnode
      have hset : heap.set a (.list (items.map (repairItem heap))) = repaired heap [.ref a] := by
        rw [set_eq_replaceItems hnode, repaired]
        exact replaceItems_congr fun b _ _ => by simp
      simp only [List.length_nil, List.nil_append, Nat.zero_add] at hloop
      rw [repairStringEntries, hlist, Option.getD_some, hloop, hset]

theorem repaired_repaired (values : List (Value Scalar)) :
    repaired (repaired heap visited) values = repaired heap (visited ++ values) := by
  rw [repaired, repairItem_repaired, repaired,
    replaceItems_replaceItems (repairItem_repairItem heap), repaired]
  exact replaceItems_congr fun a _ _ => by simp

theorem repaired_congr {values : List (Value Scalar)}
    (h : ∀ a, Value.ref a ∈ visited ↔ Value.ref a ∈ values) :
    repaired heap visited = repaired heap values :=
  replaceItems_congr fun a _ _ => h a

/-- The highlights of an entry, if it is a dictionary. -/
def highlightsOf (heap : DocumentHeap) (entry : Value Scalar) : List (Value Scalar) :=
  (dictAt heap entry).toList.map fun fields =>
    (fields.lookup (.str "highlights")).getD (.scalar .null)

/-- What is visited of a section. -/
def visitsOf (heap : DocumentHeap) (content : Value Scalar) : List (Value Scalar) :=
  content :: ((listAt heap content).getD []).flatMap (highlightsOf heap)

/-- The lists among some values have been repaired; no fix was made exactly if there was no
defect. -/
structure Repairs (heap : DocumentHeap) (visited : List (Value Scalar))
    (state : DocumentHeap × ℕ) : Prop where
  heap_eq : state.1 = repaired heap visited
  fixes : state.2 = 0 ↔ ∀ a, .ref a ∈ visited → ∀ items, listAt heap (.ref a) = some items →
    ∀ item ∈ items, coerceStringEntry heap item = none

variable {state : DocumentHeap × ℕ}

theorem Repairs.congr {values : List (Value Scalar)} (h : Repairs heap visited state)
    (hmem : ∀ a, Value.ref a ∈ visited ↔ Value.ref a ∈ values) : Repairs heap values state := by
  refine ⟨h.heap_eq.trans (repaired_congr hmem), h.fixes.trans ?_⟩
  exact forall_congr' fun a => by rw [hmem]

theorem Repairs.entries (h : Repairs heap visited state) (items : Value Scalar) :
    Repairs heap (visited ++ [items]) ((repairStringEntries state.1 items).1,
      state.2 + (repairStringEntries state.1 items).2) := by
  rw [repairStringEntries_eq, h.heap_eq]
  refine ⟨repaired_repaired [items], ?_⟩
  rw [Nat.add_eq_zero_iff, h.fixes, List.countP_eq_zero]
  have hmem : ∀ a, Value.ref a ∈ visited ++ [items] ↔ .ref a ∈ visited ∨ .ref a = items := by
    simp
  constructor
  · rintro ⟨hvisited, hcount⟩ a ha entries hentries item hitem
    by_cases hold : Value.ref a ∈ visited
    · exact hvisited a hold entries hentries item hitem
    · obtain rfl : Value.ref a = items := ((hmem a).mp ha).resolve_left hold
      have hsame : listAt (repaired heap visited) (.ref a) = some entries := by
        rw [repaired, listAt_replaceItems, hentries, Option.map_some, if_neg hold]
      rw [hsame, Option.getD_some] at hcount
      have hnone := hcount item hitem
      rwa [coerceStringEntry_repaired, Bool.not_eq_true, Option.isSome_eq_false_iff,
        Option.isNone_iff_eq_none] at hnone
  · intro hall
    refine ⟨fun a ha => hall a ((hmem a).mpr (.inl ha)), fun item hitem => ?_⟩
    rw [coerceStringEntry_repaired, Bool.not_eq_true, Option.isSome_eq_false_iff,
      Option.isNone_iff_eq_none]
    cases items with
    | scalar s => cases hitem
    | ref a =>
      rw [repaired, listAt_replaceItems] at hitem
      cases hentries : listAt heap (.ref a) with
      | none =>
        rw [hentries] at hitem
        cases hitem
      | some entries =>
        rw [hentries, Option.map_some, Option.getD_some] at hitem
        split at hitem
        · obtain ⟨old, -, rfl⟩ := List.mem_map.mp hitem
          exact coerceStringEntry_repairItem heap old
        · exact hall a ((hmem a).mpr (.inr rfl)) entries hentries item hitem

theorem Repairs.highlights (h : Repairs heap visited state) (entry : Value Scalar) :
    Repairs heap (visited ++ highlightsOf heap entry) (repairHighlights state entry) := by
  have hdict : dictAt state.1 entry = dictAt heap entry := by
    rw [h.heap_eq]
    exact dictAt_replaceItems
  rw [repairHighlights, highlightsOf, hdict]
  cases dictAt heap entry with
  | none =>
    simp only [Option.toList_none, List.map_nil, List.append_nil]
    exact h
  | some fields => exact h.entries _

/-- A loop whose passes repair. -/
theorem Repairs.foldl {α : Type} {step : DocumentHeap × ℕ → α → DocumentHeap × ℕ}
    {values : α → List (Value Scalar)}
    (hstep : ∀ visited state x, Repairs heap visited state →
      Repairs heap (visited ++ values x) (step state x))
    (xs : List α) (h : Repairs heap visited state) :
    Repairs heap (visited ++ xs.flatMap values) (xs.foldl step state) := by
  induction xs generalizing visited state with
  | nil =>
    rw [List.flatMap_nil, List.append_nil]
    exact h
  | cons x xs ih =>
    rw [List.flatMap_cons, ← List.append_assoc, List.foldl_cons]
    exact ih (hstep visited state x h)

/-- The highlights of an entry that is repaired are no list. -/
theorem ref_mem_highlightsOf_repairItem {a : ℕ} {entry : Value Scalar} :
    .ref a ∈ highlightsOf heap (repairItem heap entry) ↔ .ref a ∈ highlightsOf heap entry := by
  cases h : coerceStringEntry heap entry with
  | none => rw [repairItem_of_none h]
  | some text =>
    have hdefect := coerceStringEntry_eq_some.mp h
    have hnil : highlightsOf heap (.scalar (.str text)) = [] := rfl
    rw [repairItem_of_defect hdefect, hnil]
    refine ⟨nofun, fun hmem => ?_⟩
    cases hdefect with
    | int | float => cases hmem
    | trailingColon hdict | pair hdict =>
      rw [highlightsOf, hdict] at hmem
      simp only [Option.toList_some, List.map_cons, List.map_nil, List.mem_singleton,
        List.lookup_cons] at hmem
      split at hmem <;> cases hmem

theorem Repairs.content (h : Repairs heap visited state) (content : Value Scalar) :
    Repairs heap (visited ++ visitsOf heap content) (repairSection state content) := by
  have hloop := Repairs.foldl (fun _ _ entry h => h.highlights entry)
    ((listAt (repairStringEntries state.1 content).1 content).getD []) (h.entries content)
  refine hloop.congr fun a => ?_
  rw [repairStringEntries_eq, h.heap_eq, repaired_repaired, visitsOf, List.append_assoc,
    List.singleton_append, List.mem_append, List.mem_append, List.mem_cons, List.mem_cons]
  refine or_congr_right (or_congr_right ?_)
  cases content with
  | scalar s => exact Iff.rfl
  | ref b =>
    rw [repaired, listAt_replaceItems]
    cases listAt heap (.ref b) with
    | none => exact Iff.rfl
    | some entries =>
      rw [Option.map_some, if_pos (by simp), Option.getD_some, Option.getD_some]
      simp only [List.mem_flatMap, List.mem_map, exists_exists_and_eq_and,
        ref_mem_highlightsOf_repairItem]

end Loops

/-! ### The paths of the repair -/

/-- The path of a section. -/
def sectionPath (k : Scalar) : List (Step Scalar) :=
  [.key (.str "cv"), .key (.str "sections"), .key k]

/-- The paths of the lists that are repaired: of a section, and of the highlights of an entry. -/
inductive IsStringList : List (Step Scalar) → Prop
  | content (k : Scalar) : IsStringList (sectionPath k)
  | highlights (k : Scalar) (i : ℕ) :
      IsStringList (sectionPath k ++ [.index i, .key (.str "highlights")])

/-- What is seen of a document at a path. -/
def Document.observe (d : Document) (path : List (Step Scalar)) : Option (Shape Scalar Scalar) :=
  ObjectGraph.observe d.heap d.root path

/-- What a repair visits. -/
def Document.visited (d : Document) : List (Value Scalar) :=
  (((sectionsOf d.heap d.root).getD []).map Prod.snd).flatMap (visitsOf d.heap)

/-- The heap after the repair. -/
def Document.repairedHeap (d : Document) : DocumentHeap := repaired d.heap d.visited

section Paths

variable {d : Document}

theorem resolve_sectionPath {k : Scalar} {v : Value Scalar} :
    resolve d.heap d.root (sectionPath k) = some v ↔
      ∃ sections, sectionsOf d.heap d.root = some sections ∧ sections.lookup k = some v := by
  simp only [sectionPath, resolve, child_key, sectionsOf, Option.bind_eq_some_iff,
    Option.some.injEq, exists_eq_right]
  constructor
  · rintro ⟨cv, ⟨tree, htree, hcv⟩, sections, ⟨fields, hfields, hsections⟩, entries, hentries, hk⟩
    exact ⟨entries, ⟨tree, htree, fields, ⟨cv, hcv, hfields⟩, sections, hsections, hentries⟩, hk⟩
  · rintro ⟨entries, ⟨tree, htree, fields, ⟨cv, hcv, hfields⟩, sections, hsections, hentries⟩, hk⟩
    exact ⟨cv, ⟨tree, htree, hcv⟩, sections, ⟨fields, hfields, hsections⟩, entries, hentries, hk⟩

theorem nodup_of_dictAt {v : Value Scalar} {entries : List (Scalar × Value Scalar)}
    (h : dictAt d.heap v = some entries) : (entries.map Prod.fst).Nodup := by
  obtain ⟨a, -, hnode⟩ := dictAt_eq_some.mp h
  exact d.nodup _ (List.mem_of_getElem? hnode)

theorem nodup_sectionsOf {sections : List (Scalar × Value Scalar)}
    (h : sectionsOf d.heap d.root = some sections) : (sections.map Prod.fst).Nodup := by
  obtain ⟨tree, -, h⟩ := Option.bind_eq_some_iff.mp h
  obtain ⟨cv, -, h⟩ := Option.bind_eq_some_iff.mp h
  obtain ⟨v, -, h⟩ := Option.bind_eq_some_iff.mp h
  exact nodup_of_dictAt h

/-- The lists that are visited are those at the paths of lists of texts. -/
theorem mem_visited_iff {a : ℕ} :
    .ref a ∈ d.visited ↔ ∃ q, IsStringList q ∧ resolve d.heap d.root q = some (.ref a) := by
  constructor
  · intro hmem
    obtain ⟨content, hcontent, hvisit⟩ := List.mem_flatMap.mp hmem
    cases hsections : sectionsOf d.heap d.root with
    | none =>
      rw [hsections] at hcontent
      cases hcontent
    | some sections =>
      rw [hsections, Option.getD_some] at hcontent
      obtain ⟨⟨k, content'⟩, hk, rfl⟩ := List.mem_map.mp hcontent
      have hlookup := (Dict.lookup_eq_some_iff (nodup_sectionsOf hsections)).mpr hk
      have hpath := resolve_sectionPath.mpr ⟨sections, hsections, hlookup⟩
      rcases List.mem_cons.mp hvisit with heq | hvisit
      · exact ⟨_, .content k, by rw [hpath, heq]⟩
      · obtain ⟨entry, hentry, hhighlights⟩ := List.mem_flatMap.mp hvisit
        obtain ⟨fields, hfields, hvalue⟩ := List.mem_map.mp hhighlights
        obtain ⟨i, hi⟩ := List.getElem?_of_mem hentry
        refine ⟨_, .highlights k i, ?_⟩
        have hchild : child d.heap content' (.index i) = some entry := by
          rw [child_index]
          cases hlist : listAt d.heap content' with
          | none =>
            rw [hlist] at hi
            cases hi
          | some entries =>
            rw [hlist] at hi
            exact hi
        have hfield : fields.lookup (.str "highlights") = some (.ref a) := by
          cases hget : fields.lookup (.str "highlights") with
          | none =>
            rw [hget] at hvalue
            cases hvalue
          | some v =>
            rw [hget] at hvalue
            exact congrArg some hvalue
        rw [resolve_append, hpath, Option.bind_some, resolve, hchild, Option.bind_some, resolve,
          child_key, Option.mem_toList.mp hfields, Option.bind_some, hfield]
        rfl
  · rintro ⟨q, hq, hresolve⟩
    cases hq with
    | content k =>
      obtain ⟨sections, hsections, hlookup⟩ := resolve_sectionPath.mp hresolve
      have hmem := (Dict.lookup_eq_some_iff (nodup_sectionsOf hsections)).mp hlookup
      refine List.mem_flatMap.mpr ⟨.ref a, ?_, List.mem_cons_self⟩
      rw [hsections, Option.getD_some]
      exact List.mem_map_of_mem hmem
    | highlights k i =>
      rw [resolve_append] at hresolve
      obtain ⟨content, hpath, hrest⟩ := Option.bind_eq_some_iff.mp hresolve
      obtain ⟨sections, hsections, hlookup⟩ := resolve_sectionPath.mp hpath
      have hmem := (Dict.lookup_eq_some_iff (nodup_sectionsOf hsections)).mp hlookup
      simp only [resolve, child_index, child_key, Option.bind_eq_some_iff, Option.some.injEq,
        exists_eq_right] at hrest
      obtain ⟨entry, ⟨entries, hentries, hentry⟩, fields, hfields, hvalue⟩ := hrest
      refine List.mem_flatMap.mpr ⟨content, ?_, List.mem_cons_of_mem _ ?_⟩
      · rw [hsections, Option.getD_some]
        exact List.mem_map_of_mem hmem
      · rw [hentries, Option.getD_some]
        refine List.mem_flatMap.mpr ⟨entry, List.mem_of_getElem? hentry, ?_⟩
        rw [highlightsOf, hfields]
        simp [hvalue]

/-! ### What the repair leaves -/

/-- The repair of a document. -/
theorem repairs_visited (d : Document) :
    Repairs d.heap d.visited
      ((((sectionsOf d.heap d.root).getD []).map Prod.snd).foldl repairSection (d.heap, 0)) := by
  have hstart : Repairs d.heap [] (d.heap, 0) := by
    refine ⟨?_, by simp⟩
    apply List.ext_getElem?
    intro a
    rw [repaired, getElem?_replaceItems]
    cases d.heap[a]? with
    | none => rfl
    | some node => cases node <;> simp
  exact Repairs.foldl (fun _ _ content h => h.content content) _ hstart

/-- What is returned: the body, or the text of the repaired document. -/
theorem normalizeResumeYaml_eq {yaml : Yaml} {body : String}
    (h : yaml.load body = .document d) :
    ∃ fixes, normalizeResumeYaml yaml body =
        some (if fixes = 0 then body else yaml.dump d.repairedHeap d.root, fixes) ∧
      (fixes = 0 ↔ ∀ a, .ref a ∈ d.visited → ∀ items, listAt d.heap (.ref a) = some items →
        ∀ item ∈ items, coerceStringEntry d.heap item = none) := by
  have hrepairs := repairs_visited d
  refine ⟨_, ?_, hrepairs.fixes⟩
  simp only [normalizeResumeYaml, h]
  cases hsections : sectionsOf d.heap d.root with
  | none => rfl
  | some sections =>
    rw [hsections, Option.getD_some] at hrepairs
    simp only [Option.getD_some]
    by_cases hzero : ((sections.map Prod.snd).foldl repairSection (d.heap, 0)).2 = 0
    · rw [if_pos hzero, if_pos hzero, hzero]
    · rw [if_neg hzero, if_neg hzero, hrepairs.heap_eq]
      rfl

end Paths

/-! ### A repaired document -/

section Repaired

variable {d : Document}

theorem replaced_of_defect {path : List (Step Scalar)} {a i : ℕ} {items : List (Value Scalar)}
    {item : Value Scalar} {text : String} (hpath : resolve d.heap d.root path = some (.ref a))
    (hlist : d.heap[a]? = some (.list items)) (hvisited : .ref a ∈ d.visited)
    (hitem : items[i]? = some item) (h : Defect d.heap item text) :
    Replaced d.heap (fun a => .ref a ∈ d.visited) (repairItem d.heap) d.root path i item :=
  ⟨a, items, hpath, hlist, hvisited, hitem, repairItem_ne_iff.mpr ⟨text, h⟩⟩

theorem unreplaced_of_list {path : List (Step Scalar)} {a : ℕ} {items : List (Value Scalar)}
    (hpath : resolve d.heap d.root path = some (.ref a))
    (hlist : d.heap[a]? = some (.list items)) :
    Unreplaced d.heap (fun a => .ref a ∈ d.visited) (repairItem d.heap) d.root path := by
  rintro q i rest item rfl ⟨b, items', hq, hlist', -, hitem, hne⟩
  obtain ⟨text, hdefect⟩ := repairItem_ne_iff.mp hne
  have hchild : child d.heap (.ref b) (.index i) = some item := by
    simp [child, hlist', Node.child, hitem]
  rw [resolve_append, hq, Option.bind_some, resolve, hchild, Option.bind_some] at hpath
  have hnone := listAt_of_defect hdefect hpath
  simp [listAt, hlist] at hnone

/-- What is seen where an item was replaced. -/
theorem observe_of_replaced {path : List (Step Scalar)} {i : ℕ} {item : Value Scalar}
    (hpath : Unreplaced d.heap (fun a => .ref a ∈ d.visited) (repairItem d.heap) d.root path)
    (h : Replaced d.heap (fun a => .ref a ∈ d.visited) (repairItem d.heap) d.root path i item) :
    ∃ text, Defect d.heap item text ∧
      resolve d.repairedHeap d.root (path ++ [.index i]) = some (.scalar (.str text)) ∧
      ObjectGraph.observe d.repairedHeap d.root (path ++ [.index i]) =
        some (.scalar (.str text)) ∧
      d.observe (path ++ [.index i]) ≠ some (.scalar (.str text)) := by
  have hresolve := resolve_replaced hpath h
  obtain ⟨a, items, hq, hlist, -, hitem, hne⟩ := h
  obtain ⟨text, hdefect⟩ := repairItem_ne_iff.mp hne
  rw [repairItem_of_defect hdefect] at hresolve
  have hold : resolve d.heap d.root (path ++ [.index i]) = some item := by
    rw [resolve_append, hq, Option.bind_some, resolve]
    simp [child, hlist, Node.child, hitem, resolve]
  refine ⟨text, hdefect, hresolve, ?_, fun hsame => ?_⟩
  · rw [ObjectGraph.observe, Document.repairedHeap, repaired, hresolve]
    rfl
  · rw [Document.observe, ObjectGraph.observe, hold, Option.map_some] at hsame
    exact shape_of_defect hdefect (Option.some.inj hsame)

/-- **A repaired document has nothing to repair.** -/
theorem coerce_eq_none_of_repaired {q : List (Step Scalar)} {i : ℕ} {item : Value Scalar}
    (hq : IsStringList q)
    (hitem : resolve d.repairedHeap d.root (q ++ [.index i]) = some item) :
    coerceStringEntry d.heap item = none := by
  by_cases hunreplaced :
      Unreplaced d.heap (fun a => .ref a ∈ d.visited) (repairItem d.heap) d.root q
  · rw [resolve_append, Document.repairedHeap, repaired, hunreplaced.resolve] at hitem
    obtain ⟨v, hv, hchild⟩ := Option.bind_eq_some_iff.mp hitem
    simp only [resolve, child_index, Option.bind_eq_some_iff, Option.some.injEq,
      exists_eq_right] at hchild
    obtain ⟨entries, hentries, hentry⟩ := hchild
    cases v with
    | scalar s => cases hentries
    | ref a =>
      have hvisited : Value.ref a ∈ d.visited := mem_visited_iff.mpr ⟨q, hq, hv⟩
      rw [listAt_replaceItems] at hentries
      obtain ⟨items, -, hmap⟩ := Option.map_eq_some_iff.mp hentries
      rw [if_pos hvisited] at hmap
      rw [← hmap] at hentry
      obtain ⟨old, -, rfl⟩ := List.mem_map.mp (List.mem_of_getElem? hentry)
      exact coerceStringEntry_repairItem d.heap old
  · -- a text is on the way, and nothing is below it
    obtain ⟨p, j, rest, old, rfl, hp, hreplaced⟩ := exists_first hunreplaced
    obtain ⟨text, -, hresolve, -⟩ := observe_of_replaced hp hreplaced
    have hsplit : p ++ .index j :: rest ++ [.index i] =
        p ++ [.index j] ++ (rest ++ [.index i]) := by simp
    rw [hsplit, resolve_append, hresolve, Option.bind_some] at hitem
    cases rest <;> cases hitem

/-- A defect of a document is one of each document that is seen the same. -/
theorem exists_defect_of_observe {heap heap' : DocumentHeap} {root root' : Value Scalar}
    (h : ∀ path, ObjectGraph.observe heap' root' path = ObjectGraph.observe heap root path)
    {path : List (Step Scalar)} {v : Value Scalar} {text : String}
    (hv : resolve heap' root' path = some v) (hdefect : Defect heap' v text) :
    ∃ w, resolve heap root path = some w ∧ Defect heap w text := by
  have hseen := h path
  rw [ObjectGraph.observe, hv, Option.map_some] at hseen
  obtain ⟨w, hw, hshape⟩ := Option.map_eq_some_iff.mp hseen.symm
  refine ⟨w, hw, ?_⟩
  have hscalar : ∀ {heap : DocumentHeap} {w : Value Scalar} {s : Scalar},
      shape heap w = .scalar s → w = .scalar s := by
    rintro heap (s' | a) s hs
    · simpa [shape] using hs
    · rw [shape] at hs
      split at hs <;> cases hs
  -- a dictionary of one scalar is seen by its key and by what is below
  have hentry : ∀ {key : String} {value : Scalar},
      dictAt heap' v = some [(.str key, .scalar value)] →
      dictAt heap w = some [(.str key, .scalar value)] := by
    intro key value hdict
    obtain ⟨a, rfl, hnode⟩ := dictAt_eq_some.mp hdict
    rw [shape, hnode] at hshape
    obtain ⟨b, rfl, entries, hentries⟩ : ∃ b, w = .ref b ∧ ∃ entries,
        heap[b]? = some (.dict entries) ∧ entries.map Prod.fst = [.str key] := by
      cases w with
      | scalar s => cases hshape
      | ref b =>
        rw [shape] at hshape
        split at hshape
        · cases hshape
        · next entries hentries =>
          exact ⟨b, rfl, entries, hentries, by simpa using hshape⟩
        · cases hshape
        · cases hshape
    obtain ⟨hnode', hkeys⟩ := hentries
    obtain ⟨⟨k, x⟩, hentry, hk⟩ := List.map_eq_singleton_iff.mp hkeys
    obtain rfl : k = .str key := hk
    subst hentry
    have hbelow := h (path ++ [.key (.str key)])
    rw [ObjectGraph.observe, ObjectGraph.observe, resolve_append, resolve_append, hv, hw,
      Option.bind_some, Option.bind_some] at hbelow
    simp only [resolve, child, hnode, hnode', Option.bind_some, Node.child, List.lookup_cons_self,
      Option.map_some, Option.some.injEq] at hbelow
    rw [hscalar hbelow.symm] at hnode'
    exact dictAt_eq_some.mpr ⟨b, rfl, hnode'⟩
  cases hdefect with
  | int n =>
    rw [hscalar hshape]
    exact .int n
  | float text =>
    rw [hscalar hshape]
    exact .float text
  | trailingColon hdict => exact .trailingColon (hentry hdict)
  | pair hdict htext => exact .pair (hentry hdict) htext

end Repaired

/-! ### What the repair may touch -/

/-- Each entry that is changed becomes what its author wrote. -/
def Lossless (d d' : Document) : Prop :=
  ∀ q a i, IsStringList q → resolve d.heap d.root q = some (.ref a) →
    d'.observe (q ++ [.index i]) ≠ d.observe (q ++ [.index i]) →
      d'.observe (q ++ [.index i]) = some (.scalar (.str (strip (d.source a i))))

/-- What is neither an entry that is changed nor below one is the same. -/
def OthersKept (d d' : Document) : Prop :=
  ∀ path, (∀ q i rest, path = q ++ .index i :: rest → IsStringList q →
      d'.observe (q ++ [.index i]) = d.observe (q ++ [.index i])) →
    d'.observe path = d.observe path

/-- No entry of a section of mappings becomes a text. -/
def MappingsKept (d d' : Document) : Prop :=
  ∀ k content items, resolve d.heap d.root (sectionPath k) = some content →
    listAt d.heap content = some items → (∀ item ∈ items, (dictAt d.heap item).isSome = true) →
      ∀ i text, d'.observe (sectionPath k ++ [.index i]) ≠ some (.scalar (.str text))

/-- A body is repaired without a loss: its document keeps all but its defects, which become what
their author wrote, and the text of the repair has nothing to repair. -/
def OnlyDefects (yaml : Yaml) (body : String) : Prop :=
  ∀ d, yaml.load body = .document d → ∃ text fixes d',
    normalizeResumeYaml yaml body = some (text, fixes) ∧ yaml.load text = .document d' ∧
      Lossless d d' ∧ OthersKept d d' ∧ MappingsKept d d' ∧
        normalizeResumeYaml yaml text = some (text, 0)

/-- Each defect is spelled by its author as by Python, no other path leads to a list with a defect,
and a section of mappings has none. -/
structure Repairable (d : Document) : Prop where
  spelled : ∀ q (a i : ℕ) (items : List (Value Scalar)) item text, IsStringList q →
    resolve d.heap d.root q = some (.ref a) → d.heap[a]? = some (.list items) →
      items[i]? = some item → Defect d.heap item text → strip (d.source a i) = text
  unshared : ∀ q path (a i : ℕ) (items : List (Value Scalar)) item text, IsStringList q →
    resolve d.heap d.root q = some (.ref a) → d.heap[a]? = some (.list items) →
      items[i]? = some item → Defect d.heap item text →
        resolve d.heap d.root path = some (.ref a) → IsStringList path
  mappings : ∀ k content items, resolve d.heap d.root (sectionPath k) = some content →
    listAt d.heap content = some items → (∀ item ∈ items, (dictAt d.heap item).isSome = true) →
      ∀ item ∈ items, ∀ text, ¬ Defect d.heap item text

/-- A text that is dumped is loaded as what was dumped. -/
def Yaml.Represents (yaml : Yaml) (heap : DocumentHeap) (root : Value Scalar) : Prop :=
  ∃ d, yaml.load (yaml.dump heap root) = .document d ∧
    ∀ path, d.observe path = ObjectGraph.observe heap root path

section

variable {yaml : Yaml} {body : String} {d : Document}

/-- The text of the repair, which has nothing to repair. -/
theorem exists_after (hload : yaml.load body = .document d)
    (hdump : yaml.Represents d.repairedHeap d.root) :
    ∃ text fixes d', normalizeResumeYaml yaml body = some (text, fixes) ∧
      yaml.load text = .document d' ∧
      (∀ path, d'.observe path = ObjectGraph.observe d.repairedHeap d.root path) ∧
      normalizeResumeYaml yaml text = some (text, 0) := by
  obtain ⟨fixes, hnormalize, hfixes⟩ := normalizeResumeYaml_eq hload
  by_cases hzero : fixes = 0
  · subst hzero
    rw [if_pos rfl] at hnormalize
    refine ⟨body, 0, d, hnormalize, hload, fun path => ?_, hnormalize⟩
    -- no visited list has a defect
    have hunreplaced : Unreplaced d.heap (fun a => .ref a ∈ d.visited) (repairItem d.heap) d.root
        path := by
      rintro q i rest item - ⟨a, items, -, hlist, hvisited, hitem, hne⟩
      have hat : listAt d.heap (.ref a) = some items := listAt_eq_some.mpr ⟨a, rfl, hlist⟩
      exact hne (repairItem_of_none
        (hfixes.mp rfl a hvisited items hat item (List.mem_of_getElem? hitem)))
    exact hunreplaced.observe.symm
  · rw [if_neg hzero] at hnormalize
    obtain ⟨d', hload', hobserve⟩ := hdump
    refine ⟨_, fixes, d', hnormalize, hload', hobserve, ?_⟩
    obtain ⟨fixes', hnormalize', hfixes'⟩ := normalizeResumeYaml_eq hload'
    have hnone : fixes' = 0 := by
      rw [hfixes']
      intro a hvisited items hitems item hmem
      by_contra hsome
      obtain ⟨text, htext⟩ := Option.ne_none_iff_exists'.mp hsome
      obtain ⟨q, hq, hresolve⟩ := mem_visited_iff.mp hvisited
      obtain ⟨i, hi⟩ := List.getElem?_of_mem hmem
      have hitem : resolve d'.heap d'.root (q ++ [.index i]) = some item := by
        rw [resolve_append, hresolve, Option.bind_some, resolve, child_index, hitems,
          Option.bind_some, hi]
        rfl
      obtain ⟨w, hw, hdefect⟩ :=
        exists_defect_of_observe hobserve hitem (coerceStringEntry_eq_some.mp htext)
      have hcoerce := coerceStringEntry_eq_some.mpr hdefect
      rw [Document.repairedHeap, coerceStringEntry_repaired,
        coerce_eq_none_of_repaired hq hw] at hcoerce
      cases hcoerce
    rw [hnone, if_pos rfl] at hnormalize'
    exact hnormalize'

variable {d' : Document}
  (hobserve : ∀ path, d'.observe path = ObjectGraph.observe d.repairedHeap d.root path)

include hobserve

theorem observe_of_unreplaced {path : List (Step Scalar)}
    (h : Unreplaced d.heap (fun a => .ref a ∈ d.visited) (repairItem d.heap) d.root path) :
    d'.observe path = d.observe path :=
  (hobserve path).trans h.observe

theorem observe_ne_of_replaced {path : List (Step Scalar)} {i : ℕ} {item : Value Scalar}
    (hpath : Unreplaced d.heap (fun a => .ref a ∈ d.visited) (repairItem d.heap) d.root path)
    (h : Replaced d.heap (fun a => .ref a ∈ d.visited) (repairItem d.heap) d.root path i item) :
    ∃ text, Defect d.heap item text ∧
      d'.observe (path ++ [.index i]) = some (.scalar (.str text)) ∧
      d'.observe (path ++ [.index i]) ≠ d.observe (path ++ [.index i]) := by
  obtain ⟨text, hdefect, -, hseen, hne⟩ := observe_of_replaced hpath h
  rw [← hobserve] at hseen
  exact ⟨text, hdefect, hseen, fun heq => hne (heq ▸ hseen)⟩

/-- **Each change is what its author wrote exactly if each defect is spelled so.** -/
theorem lossless_iff : Lossless d d' ↔
    ∀ q (a i : ℕ) (items : List (Value Scalar)) item text, IsStringList q →
      resolve d.heap d.root q = some (.ref a) → d.heap[a]? = some (.list items) →
        items[i]? = some item → Defect d.heap item text → strip (d.source a i) = text := by
  constructor
  · intro h q a i items item text hq hresolve hlist hitem hdefect
    have hvisited : Value.ref a ∈ d.visited := mem_visited_iff.mpr ⟨q, hq, hresolve⟩
    obtain ⟨text', hdefect', hseen, hne⟩ := observe_ne_of_replaced hobserve
      (unreplaced_of_list hresolve hlist)
      (replaced_of_defect hresolve hlist hvisited hitem hdefect)
    have hwritten := h q a i hq hresolve hne
    rw [hseen] at hwritten
    have htext : text' = text := by
      rw [← coerceStringEntry_eq_some] at hdefect hdefect'
      exact Option.some.inj (hdefect'.symm.trans hdefect)
    rw [htext] at hwritten
    simpa using hwritten.symm
  · intro h q a i hq hresolve hne
    have htouched : ¬ Unreplaced d.heap (fun a => .ref a ∈ d.visited) (repairItem d.heap) d.root
        (q ++ [.index i]) := fun hu => hne (observe_of_unreplaced hobserve hu)
    obtain ⟨p, j, rest, item, hsplit, hp, hreplaced⟩ := exists_first htouched
    obtain ⟨text, hdefect, hseen, -⟩ := observe_ne_of_replaced hobserve hp hreplaced
    obtain ⟨_, -, hnew, -⟩ := observe_of_replaced hp hreplaced
    obtain ⟨b, items, hb, hlist, -, hitem, -⟩ := hreplaced
    rcases List.eq_nil_or_concat rest with rfl | ⟨rest, step, rfl⟩
    · obtain ⟨rfl, hlast⟩ := List.append_inj' hsplit rfl
      cases hlast
      obtain rfl : a = b := by simpa using hresolve.symm.trans hb
      rw [hseen, h q a i items item text hq hresolve hlist hitem hdefect]
    · -- below a defect there is no list, and so nothing is seen
      rw [List.concat_eq_append, ← List.cons_append, ← List.append_assoc] at hsplit
      obtain ⟨rfl, -⟩ := List.append_inj' hsplit rfl
      have hchild : child d.heap (.ref b) (.index j) = some item := by
        simp [child, hlist, Node.child, hitem]
      have hbelow := hresolve
      rw [resolve_append, hb, Option.bind_some, resolve, hchild, Option.bind_some] at hbelow
      have hnone := listAt_of_defect hdefect hbelow
      refine absurd ?_ hne
      have hold : d.observe (p ++ .index j :: rest ++ [.index i]) = none := by
        rw [Document.observe, ObjectGraph.observe, resolve_append, hresolve, Option.bind_some,
          resolve, child_index, hnone]
        rfl
      have hafter : d'.observe (p ++ .index j :: rest ++ [.index i]) = none := by
        have hparts : p ++ .index j :: rest ++ [.index i] =
            p ++ [.index j] ++ (rest ++ [.index i]) := by simp
        rw [hobserve, hparts, ObjectGraph.observe, resolve_append, hnew, Option.bind_some]
        cases rest <;> rfl
      rw [hafter, hold]

/-- **Everything else is kept exactly if no other path leads to a list with a defect.** -/
theorem othersKept_iff : OthersKept d d' ↔
    ∀ q path (a i : ℕ) (items : List (Value Scalar)) item text, IsStringList q →
      resolve d.heap d.root q = some (.ref a) → d.heap[a]? = some (.list items) →
        items[i]? = some item → Defect d.heap item text →
          resolve d.heap d.root path = some (.ref a) → IsStringList path := by
  constructor
  · intro h q path a i items item text hq hresolve hlist hitem hdefect hpath
    have hvisited : Value.ref a ∈ d.visited := mem_visited_iff.mpr ⟨q, hq, hresolve⟩
    have hunreplaced := unreplaced_of_list hpath hlist
    obtain ⟨-, -, -, hne⟩ := observe_ne_of_replaced hobserve hunreplaced
      (replaced_of_defect hpath hlist hvisited hitem hdefect)
    by_contra hnot
    refine hne (h _ fun q' j rest hsplit hq' => ?_)
    rcases List.eq_nil_or_concat rest with rfl | ⟨rest, step, rfl⟩
    · obtain ⟨rfl, -⟩ := List.append_inj' hsplit rfl
      exact absurd hq' hnot
    · -- an entry on the way to the list is not replaced
      rw [List.concat_eq_append, ← List.cons_append, ← List.append_assoc] at hsplit
      obtain ⟨rfl, -⟩ := List.append_inj' hsplit rfl
      have hfront : q' ++ .index j :: rest = q' ++ [.index j] ++ rest := by simp
      rw [hfront] at hunreplaced
      exact observe_of_unreplaced hobserve hunreplaced.of_append
  · intro h path hentries
    by_contra hne
    have htouched : ¬ Unreplaced d.heap (fun a => .ref a ∈ d.visited) (repairItem d.heap) d.root
        path := fun hu => hne (observe_of_unreplaced hobserve hu)
    obtain ⟨p, j, rest, item, hsplit, hp, hreplaced⟩ := exists_first htouched
    obtain ⟨text, hdefect, -, hchanged⟩ := observe_ne_of_replaced hobserve hp hreplaced
    obtain ⟨a, items, ha, hlist, hvisited, hitem, -⟩ := hreplaced
    obtain ⟨q, hq, hresolve⟩ := mem_visited_iff.mp hvisited
    exact hchanged (hentries p j rest hsplit
      (h q p a j items item text hq hresolve hlist hitem hdefect ha))

/-- **Mappings are kept exactly if a section of mappings has no defect.** -/
theorem mappingsKept_iff : MappingsKept d d' ↔
    ∀ k content items, resolve d.heap d.root (sectionPath k) = some content →
      listAt d.heap content = some items → (∀ item ∈ items, (dictAt d.heap item).isSome = true) →
        ∀ item ∈ items, ∀ text, ¬ Defect d.heap item text := by
  have hsection : ∀ k, Unreplaced d.heap (fun a => .ref a ∈ d.visited) (repairItem d.heap) d.root
      (sectionPath k) := by
    intro k q i rest item hsplit
    have hmem : Step.index i ∈ sectionPath k := by
      rw [hsplit]
      simp
    simp [sectionPath] at hmem
  constructor
  · intro h k content items hcontent hitems hmappings item hmem text hdefect
    obtain ⟨a, rfl, hlist⟩ := listAt_eq_some.mp hitems
    obtain ⟨i, hi⟩ := List.getElem?_of_mem hmem
    have hvisited : Value.ref a ∈ d.visited := mem_visited_iff.mpr ⟨_, .content k, hcontent⟩
    obtain ⟨text', -, hseen, -⟩ := observe_ne_of_replaced hobserve (hsection k)
      (replaced_of_defect hcontent hlist hvisited hi hdefect)
    exact h k (.ref a) items hcontent hitems hmappings i text' hseen
  · intro h k content items hcontent hitems hmappings i text hseen
    obtain ⟨a, rfl, hlist⟩ := listAt_eq_some.mp hitems
    have hkept : ∀ item, ¬ Replaced d.heap (fun a => .ref a ∈ d.visited) (repairItem d.heap) d.root
        (sectionPath k) i item := by
      rintro item ⟨b, items', hb, hlist', -, hitem, hne⟩
      obtain rfl : a = b := by simpa using hcontent.symm.trans hb
      obtain rfl : items = items' := by simpa using hlist.symm.trans hlist'
      obtain ⟨text', hdefect⟩ := repairItem_ne_iff.mp hne
      exact h k (.ref a) items hcontent hitems hmappings item (List.mem_of_getElem? hitem) text'
        hdefect
    rw [observe_of_unreplaced hobserve ((hsection k).concat hkept), Document.observe,
      ObjectGraph.observe, resolve_append, hcontent, Option.bind_some, resolve, child_index, hitems,
      Option.bind_some] at hseen
    obtain ⟨item, hitem, hshape⟩ := Option.map_eq_some_iff.mp hseen
    obtain ⟨item', hitem', hsame⟩ := Option.bind_eq_some_iff.mp hitem
    cases hsame
    have hdict := hmappings item (List.mem_of_getElem? hitem')
    cases item with
    | scalar s => cases hdict
    | ref b =>
      rw [shape] at hshape
      split at hshape <;> cases hshape

end

theorem nodup_repairedHeap (d : Document) : ∀ node ∈ d.repairedHeap, node.keys.Nodup := by
  intro node hnode
  obtain ⟨a, ha⟩ := List.getElem?_of_mem hnode
  rw [Document.repairedHeap, repaired, getElem?_replaceItems] at ha
  obtain ⟨old, hold, hsame⟩ := Option.map_eq_some_iff.mp ha
  have hkeys := d.nodup old (List.mem_of_getElem? hold)
  subst hsame
  cases old with
  | list items =>
    dsimp only
    split <;> exact List.nodup_nil
  | dict entries => exact hkeys
  | other parts => exact hkeys

/-- A document with one section, of two entries; the second may be a mapping of its own. -/
def skillsDocument (entry : Value Scalar) (text : String) : Document where
  heap := [
    .dict [(.str "cv", .ref 1)],
    .dict [(.str "sections", .ref 2)],
    .dict [(.str "skills", .ref 3)],
    .list [.scalar (.str "Python"), entry],
    .dict [(.str "Focus", .scalar (.str "reusable patterns"))]]
  root := .ref 0
  source _ i := if i = 1 then text else "Python"
  nodup := by simp [Node.keys]

/-- A loader that knows two texts, and a dumper of one of them. -/
def skillsYaml (d : Document) (body dumped : String) : Yaml where
  load text :=
    if text = body then .document d
    else if text = dumped then
      .document { d with heap := d.repairedHeap, nodup := nodup_repairedHeap d }
    else .yamlError
  dump _ _ := dumped

theorem represents_skillsYaml {d : Document} {body dumped : String} (hne : dumped ≠ body) :
    (skillsYaml d body dumped).Represents d.repairedHeap d.root :=
  ⟨{ d with heap := d.repairedHeap, nodup := nodup_repairedHeap d }, by simp [skillsYaml, hne],
    fun _ => rfl⟩

theorem child_dict_singleton {heap : DocumentHeap} {a : ℕ} {k : Scalar} {v w : Value Scalar}
    {step : Step Scalar} (h : heap[a]? = some (.dict [(k, v)])) :
    child heap (.ref a) step = some w ↔ step = .key k ∧ w = v := by
  rw [child, h, Option.bind_some]
  cases step with
  | index i => simp [Node.child]
  | part i => simp [Node.child]
  | key k' =>
    by_cases hk : k' = k
    · subst hk
      simp [Node.child, eq_comm]
    · simp [Node.child, List.lookup_cons, beq_false_of_ne hk, hk]

theorem not_resolve_scalar {heap : DocumentHeap} {s : Scalar} {a : ℕ} (path : List (Step Scalar)) :
    resolve heap (.scalar s) path ≠ some (.ref a) := by
  cases path <;> nofun

/-- One path leads to the only list. -/
theorem path_of_list {text : String} {path : List (Step Scalar)} {a : ℕ}
    {items : List (Value Scalar)}
    (h : resolve (skillsDocument (.ref 4) text).heap (.ref 0) path = some (.ref a))
    (hlist : (skillsDocument (.ref 4) text).heap[a]? = some (.list items)) :
    path = sectionPath (.str "skills") ∧ a = 3 := by
  obtain rfl : a = 3 := by
    rcases a with _ | _ | _ | _ | _ | a
    · cases hlist
    · cases hlist
    · cases hlist
    · rfl
    · cases hlist
    · simp [skillsDocument] at hlist
  refine ⟨?_, rfl⟩
  cases path with
  | nil => cases h
  | cons step path =>
    obtain ⟨w, hw, h⟩ := Option.bind_eq_some_iff.mp h
    obtain ⟨rfl, rfl⟩ := (child_dict_singleton rfl).mp hw
    cases path with
    | nil => cases h
    | cons step path =>
      obtain ⟨w, hw, h⟩ := Option.bind_eq_some_iff.mp h
      obtain ⟨rfl, rfl⟩ := (child_dict_singleton rfl).mp hw
      cases path with
      | nil => cases h
      | cons step path =>
        obtain ⟨w, hw, h⟩ := Option.bind_eq_some_iff.mp h
        obtain ⟨rfl, rfl⟩ := (child_dict_singleton rfl).mp hw
        cases path with
        | nil => rfl
        | cons step path =>
          obtain ⟨w, hw, h⟩ := Option.bind_eq_some_iff.mp h
          -- below the list there is a scalar, or a dictionary of one
          have hitems : w = .scalar (.str "Python") ∨ w = .ref 4 := by
            cases step with
            | key k => cases hw
            | part i => cases hw
            | index i =>
              rcases i with _ | _ | i
              · exact .inl (Option.some.inj hw).symm
              · exact .inr (Option.some.inj hw).symm
              · simp [child_index, listAt, skillsDocument] at hw
          rcases hitems with rfl | rfl
          · exact absurd h (not_resolve_scalar path)
          · cases path with
            | nil => cases h
            | cons step path =>
              obtain ⟨w, hw, h⟩ := Option.bind_eq_some_iff.mp h
              obtain ⟨rfl, rfl⟩ := (child_dict_singleton rfl).mp hw
              exact absurd h (not_resolve_scalar path)

/-- A body whose second skill has a colon. -/
def labelBody : String :=
  "cv:\n  sections:\n    skills:\n    - Python\n    - Focus: reusable patterns\n"

/-- The text of its repair. -/
def labelDumped : String :=
  "cv:\n  sections:\n    skills:\n    - Python\n    - 'Focus: reusable patterns'\n"

/-- The document of the body. -/
def labelDocument : Document := skillsDocument (.ref 4) "Focus: reusable patterns"

theorem defect_label {items : List (Value Scalar)} {item : Value Scalar} {i : ℕ} {text : String}
    (hlist : labelDocument.heap[3]? = some (.list items)) (hitem : items[i]? = some item)
    (h : Defect labelDocument.heap item text) : i = 1 ∧ text = "Focus: reusable patterns" := by
  have htext := coerceStringEntry_eq_some.mpr h
  cases hlist
  rcases i with _ | _ | i
  · cases hitem
    cases htext
  · cases hitem
    exact ⟨rfl, (Option.some.inj htext).symm⟩
  · cases hitem

/-- **A repair is done once**, whatever it loses: a body without an entry to repair is returned as it
is, and the text of a repair is. -/
theorem normalizeResumeYaml_twice {yaml : Yaml} {body : String} {d : Document}
    (hload : yaml.load body = .document d) (hdump : yaml.Represents d.repairedHeap d.root) :
    ∃ text fixes, normalizeResumeYaml yaml body = some (text, fixes) ∧
      (fixes = 0 → text = body) ∧ normalizeResumeYaml yaml text = some (text, 0) := by
  obtain ⟨text, fixes, d', hnormalize, -, -, htwice⟩ := exists_after hload hdump
  refine ⟨text, fixes, hnormalize, fun hzero => ?_, htwice⟩
  obtain ⟨fixes', heq, -⟩ := normalizeResumeYaml_eq hload
  obtain ⟨htext, rfl⟩ := Prod.mk.inj (Option.some.inj (hnormalize.symm.trans heq))
  rw [htext, if_pos hzero]

/-- A skill with a colon is repaired once. -/
theorem normalizeResumeYaml_twice_label :
    ∃ text fixes, normalizeResumeYaml (skillsYaml labelDocument labelBody labelDumped) labelBody =
        some (text, fixes) ∧ (fixes = 0 → text = labelBody) ∧
      normalizeResumeYaml (skillsYaml labelDocument labelBody labelDumped) text = some (text, 0) :=
  normalizeResumeYaml_twice (d := labelDocument) rfl (represents_skillsYaml (by decide))

/-- A number with a zero at its end. -/
def numberBody : String := "cv:\n  sections:\n    skills:\n    - Python\n    - 1.50\n"

/-- The text of its repair. -/
def numberDumped : String := "cv:\n  sections:\n    skills:\n    - Python\n    - '1.5'\n"

end NextRole
