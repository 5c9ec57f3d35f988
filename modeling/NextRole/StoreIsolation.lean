import Mathlib.Data.List.Dedup
import NextRole.Api.Store

/-!
# Who reaches which rows of the store

The handler of the store puts the namespace of a request under the caller's identity,
but the library compares texts.  A request that names no label below the identity finds
every row whose text starts with the identity: the rows of an identity that runs on
from it among them.  An identity that holds a period is never the first label of a row,
and a listing takes the identity `*` for a wildcard.  In all other cases a request
reaches rows of its caller only.

## Main definitions

* `Touched.Within`, `StoreIsolated` — all that an operation reaches is under an identity.
* `Unextended`, `OwnSubtree`, `Separated` — what keeps the rows of others out of reach.

## Main results

* `storeIsolated_iff` — a request is isolated exactly if `Separated` holds.
* `mem_apply_iff_of_within` — the rows of others stay as they are.
-/

namespace NextRole

/-- What an operation reaches has an identity as the first label of its namespace. -/
structure Touched.Within (identity : String) (t : Touched) : Prop where
  read : ∀ row ∈ t.read, firstLabel row.text = identity
  returned : ∀ row ∈ t.returned, firstLabel row.text = identity
  namespaces : ∀ labels ∈ t.namespaces, labels.head? = some identity
  written : ∀ row ∈ t.written, firstLabel row.text = identity
  deleted : ∀ row ∈ t.deleted, firstLabel row.text = identity

/-- All that a request of a caller reaches is under the caller's identity. -/
def StoreIsolated (lib : StoreLibrary) (identity : String) (r : StoreRequest)
    (db : List StoreItem) : Prop :=
  ∀ op, r.route (some identity) = .ok op → (op.touched lib db).Within identity

/-- The first labels of the rows are among some. -/
def FirstLabelsIn (used : Set String) (db : List StoreItem) : Prop :=
  ∀ row ∈ db, firstLabel row.text ∈ used

/-- No first label in use runs on from the identity. -/
def Unextended (used : Set String) (identity : String) : Prop :=
  ∀ label ∈ used, '.' ∉ label.toList → identity.toList <+: label.toList → label = identity

/-- What starts with the text of a namespace under the identity is under the identity. -/
def OwnSubtree (used : Set String) (identity : String) (below : List String) : Prop :=
  ('.' ∈ identity.toList ∧ firstLabel identity.toList ∉ used) ∨
    ('.' ∉ identity.toList ∧ (below ≠ [] ∨ Unextended used identity))

/-- A request is refused, or its identity is a label of its own, which the labels in use
keep apart from the others as far as the request can tell. -/
def Separated (lib : StoreLibrary) (used : Set String) (identity : String) (r : StoreRequest) :
    Prop :=
  r.refused = true ∨
    let below := belowIdentity identity r.labels
    match r with
    | .put .. => '.' ∉ identity.toList ∨ lib.accepts (identity :: below) = false
    | .get .. | .delete .. => '.' ∉ identity.toList ∨ firstLabel identity.toList ∉ used
    | .search .. => OwnSubtree used identity below
    | .listNamespaces .. =>
      if identity = "*" then ∀ label ∈ used, '.' ∉ label.toList → label = "*"
      else OwnSubtree used identity below

/-! ### First labels -/

section

variable {lib : StoreLibrary} {identity label : String} {used : Set String} {below : List String}
  {text : List Char} {db : List StoreItem}

theorem firstLabel_eq_iff : firstLabel text = label ↔ Path.first '.' text = label.toList := by
  unfold firstLabel
  constructor
  · rintro rfl
    exact String.toList_ofList.symm
  · intro h
    rw [h, String.ofList_toList]

theorem toList_firstLabel (text : List Char) :
    (firstLabel text).toList = Path.first '.' text :=
  (firstLabel_eq_iff.mp rfl).symm

theorem period_notMem_firstLabel (text : List Char) : '.' ∉ (firstLabel text).toList := by
  rw [toList_firstLabel]
  exact Path.sep_notMem_first text

theorem firstLabel_toList (h : '.' ∉ label.toList) : firstLabel label.toList = label :=
  firstLabel_eq_iff.mpr (Path.first_of_notMem h)

theorem firstLabel_eq_self_iff : firstLabel label.toList = label ↔ '.' ∉ label.toList :=
  ⟨fun h => h ▸ period_notMem_firstLabel _, firstLabel_toList⟩

theorem firstLabel_append_period (h : '.' ∉ label.toList) (rest : List Char) :
    firstLabel (label.toList ++ '.' :: rest) = label :=
  firstLabel_eq_iff.mpr (Path.first_append_sep h rest)

theorem prefix_namespaceText (identity : String) (below : List String) :
    identity.toList <+: namespaceText (identity :: below) :=
  Path.prefix_join _ _

theorem firstLabel_of_period (h : '.' ∈ identity.toList) (hp : identity.toList <+: text) :
    firstLabel text = firstLabel identity.toList :=
  congrArg String.ofList (Path.first_of_prefix h hp)

theorem firstLabel_namespaceText :
    firstLabel (namespaceText (identity :: below)) = identity ↔ '.' ∉ identity.toList := by
  constructor
  · intro h hmem
    rw [firstLabel_of_period hmem (prefix_namespaceText _ _), firstLabel_eq_self_iff] at h
    exact h hmem
  · intro h
    exact firstLabel_eq_iff.mpr (Path.first_join h _)

/-! ### Texts that start with a namespace -/

theorem OwnSubtree.firstLabel_eq (h : OwnSubtree used identity below)
    (hused : firstLabel text ∈ used) (hp : identity.toList <+: text)
    (hbelow : below ≠ [] → ∃ rest, text = identity.toList ++ '.' :: rest) :
    firstLabel text = identity := by
  rcases h with ⟨hmem, hunused⟩ | ⟨hnot, hne | hext⟩
  · exact absurd (firstLabel_of_period hmem hp ▸ hused) hunused
  · obtain ⟨rest, rfl⟩ := hbelow hne
    exact firstLabel_append_period hnot rest
  · refine hext _ hused (period_notMem_firstLabel text) ?_
    rw [toList_firstLabel]
    exact Path.prefix_first hnot hp

/-- Where all texts of a kind belong to the identity, the identity has a subtree of its
own, as long as the kind has a text for each way to leave the subtree. -/
theorem OwnSubtree.of_texts {reached : List Char → Prop}
    (h : ∀ text, firstLabel text ∈ used → reached text → firstLabel text = identity)
    (hperiod : '.' ∈ identity.toList → ∃ rest, reached (identity.toList ++ rest))
    (hext : ∀ label : String, below = [] → identity.toList <+: label.toList →
      '.' ∉ label.toList → ∃ text, reached text ∧ firstLabel text = label) :
    OwnSubtree used identity below := by
  by_cases hmem : '.' ∈ identity.toList
  · refine .inl ⟨hmem, fun hused => ?_⟩
    obtain ⟨rest, hreached⟩ := hperiod hmem
    have hfirst := firstLabel_of_period hmem (List.prefix_append identity.toList rest)
    have hself := h _ (hfirst ▸ hused) hreached
    rw [hfirst, firstLabel_eq_self_iff] at hself
    exact hself hmem
  · refine .inr ⟨hmem, or_iff_not_imp_left.mpr fun hb label hlabel hnot hp => ?_⟩
    obtain ⟨text, hreached, rfl⟩ := hext label (not_not.mp hb) hp hnot
    exact h text hlabel hreached

theorem exists_of_prefix_namespaceText (hb : below ≠ [])
    (hp : namespaceText (identity :: below) <+: text) :
    ∃ rest, text = identity.toList ++ '.' :: rest := by
  obtain ⟨u, rfl⟩ := hp
  rw [namespaceText, List.map_cons, Path.join_cons_of_ne_nil _ (by simpa using hb),
    List.append_assoc, List.cons_append]
  exact ⟨_, rfl⟩

/-- A search below an identity is isolated exactly if the identity has its own subtree. -/
theorem forall_prefix_iff_ownSubtree :
    (∀ text, firstLabel text ∈ used → namespaceText (identity :: below) <+: text →
      firstLabel text = identity) ↔ OwnSubtree used identity below := by
  constructor
  · intro h
    refine .of_texts h (fun _ => ?_) fun label hb hp hnot => ?_
    · obtain ⟨rest, hrest⟩ := prefix_namespaceText identity below
      exact ⟨rest, hrest ▸ List.prefix_rfl⟩
    · subst hb
      refine ⟨label.toList, ?_, firstLabel_toList hnot⟩
      rwa [namespaceText, List.map_singleton, Path.join_singleton]
  · intro h text hused hp
    exact h.firstLabel_eq hused ((prefix_namespaceText _ _).trans hp) fun hb =>
      exists_of_prefix_namespaceText hb hp

/-! ### Texts of a listing -/

/-- The pattern of one label. -/
def labelPattern (label : String) : List (Option Char) :=
  if label = "*" then [none] else label.toList.map some

theorem pathPattern_cons (hb : below ≠ []) :
    pathPattern (identity :: below) = labelPattern identity ++ some '.' :: pathPattern below :=
  Path.join_cons_of_ne_nil _ (by simpa using hb)

theorem pathPattern_singleton : pathPattern [identity] = labelPattern identity :=
  Path.join_singleton _

theorem startMatches_iff {labels : List String} :
    startMatches labels text = true ↔ ∃ u v, text = u ++ v ∧ Path.Glob (pathPattern labels) u := by
  rw [startMatches, Path.glob_iff, Path.glob_append]
  simp only [Path.glob_wild, and_true]

theorem endMatches_iff {labels : List String} :
    endMatches labels text = true ↔ ∃ u v, text = u ++ v ∧ Path.Glob (pathPattern labels) v := by
  rw [endMatches, Path.glob_iff, ← List.singleton_append, Path.glob_append]
  simp only [Path.glob_wild, true_and]

/-- What a listing below an identity finds starts with the identity, and runs on over a
period if labels are below. -/
theorem exists_of_startMatches (hstar : identity ≠ "*")
    (h : startMatches (identity :: below) text = true) :
    identity.toList <+: text ∧ (below ≠ [] → ∃ rest, text = identity.toList ++ '.' :: rest) := by
  obtain ⟨u, v, rfl, hu⟩ := startMatches_iff.mp h
  by_cases hb : below = []
  · subst hb
    rw [pathPattern_singleton, labelPattern, if_neg hstar, Path.glob_lits] at hu
    subst hu
    exact ⟨List.prefix_append _ _, fun hne => absurd rfl hne⟩
  · rw [pathPattern_cons hb, labelPattern, if_neg hstar, Path.glob_append] at hu
    obtain ⟨w, x, rfl, hw, hx⟩ := hu
    obtain rfl := Path.glob_lits.mp hw
    cases hx with
    | lit _ hx => exact ⟨⟨_, (List.append_assoc _ _ _).symm⟩, fun _ => ⟨_, List.append_assoc _ _ _⟩⟩

/-- A start that the pattern of the identity allows goes on to a text of the listing. -/
theorem exists_listed (identity : String) (below : List String) (suffix : Option (List String))
    {head : List Char}
    (h : Path.Glob (labelPattern identity) head ∨
      (below = [] ∧ Path.Glob (labelPattern identity ++ [none]) head)) :
    ∃ rest, startMatches (identity :: below) (head ++ '.' :: rest) = true ∧
      suffix.all (fun labels => endMatches labels (head ++ '.' :: rest)) = true := by
  obtain ⟨w, hw⟩ := Path.exists_glob (pathPattern below)
  obtain ⟨x, hx⟩ := Path.exists_glob (pathPattern (suffix.getD []))
  refine ⟨w ++ x, startMatches_iff.mpr ?_, ?_⟩
  · rcases h with h | ⟨rfl, h⟩
    · by_cases hb : below = []
      · subst hb
        exact ⟨head, _, rfl, pathPattern_singleton ▸ h⟩
      · refine ⟨head ++ '.' :: w, x, by simp, ?_⟩
        rw [pathPattern_cons hb]
        exact Path.glob_append.mpr ⟨_, _, rfl, h, .lit '.' hw⟩
    · obtain ⟨u, v, rfl, hu, -⟩ := Path.glob_append.mp h
      exact ⟨u, _, List.append_assoc _ _ _, pathPattern_singleton ▸ hu⟩
  · cases suffix with
    | none => rfl
    | some labels => exact endMatches_iff.mpr ⟨head ++ '.' :: w, x, by simp, hx⟩

/-- What a listing finds. -/
def Listed (labels : List String) (suffix : Option (List String)) (text : List Char) : Prop :=
  startMatches labels text = true ∧ suffix.all (fun labels => endMatches labels text) = true

/-- A listing below an identity is isolated exactly if the identity has its own subtree,
unless the identity is the wildcard. -/
theorem forall_listed_iff_ownSubtree (hstar : identity ≠ "*") (suffix : Option (List String)) :
    (∀ text, firstLabel text ∈ used → Listed (identity :: below) suffix text →
      firstLabel text = identity) ↔ OwnSubtree used identity below := by
  have hlits : labelPattern identity = identity.toList.map some := if_neg hstar
  constructor
  · intro h
    refine .of_texts h (fun _ => ?_) fun label hb hp hnot => ?_
    · obtain ⟨rest, hrest⟩ := exists_listed identity below suffix
        (.inl (hlits ▸ Path.glob_lits.mpr rfl))
      exact ⟨_, hrest⟩
    · obtain ⟨u, hu⟩ := hp
      have hhead : Path.Glob (labelPattern identity ++ [none]) label.toList :=
        Path.glob_append.mpr ⟨_, u, hu.symm, hlits ▸ Path.glob_lits.mpr rfl, Path.glob_wild u⟩
      obtain ⟨rest, hrest⟩ := exists_listed identity below suffix (.inr ⟨hb, hhead⟩)
      exact ⟨_, hrest, firstLabel_append_period hnot rest⟩
  · intro h text hused hlisted
    obtain ⟨hp, hrest⟩ := exists_of_startMatches hstar hlisted.1
    exact h.firstLabel_eq hused hp hrest

/-- A listing of the identity `*` reaches every first label in use. -/
theorem forall_listed_star_iff (suffix : Option (List String)) :
    (∀ text, firstLabel text ∈ used → Listed ("*" :: below) suffix text →
      firstLabel text = "*") ↔ ∀ label ∈ used, '.' ∉ label.toList → label = "*" := by
  constructor
  · intro h label hlabel hnot
    have hhead : Path.Glob (labelPattern "*") label.toList := by
      rw [labelPattern, if_pos rfl]
      exact Path.glob_wild _
    obtain ⟨rest, hrest⟩ := exists_listed "*" below suffix (.inl hhead)
    have hfirst := firstLabel_append_period hnot rest
    have hstar := h (label.toList ++ '.' :: rest) (hfirst.symm ▸ hlabel) hrest
    exact hfirst.symm.trans hstar
  · intro h text hused _
    exact h _ hused (period_notMem_firstLabel text)

/-! ### Operations -/

theorem forall_rows_iff {reached : List Char → Prop} :
    (∀ db, FirstLabelsIn used db → ∀ row ∈ db, reached row.text → firstLabel row.text = identity) ↔
      ∀ text, firstLabel text ∈ used → reached text → firstLabel text = identity := by
  constructor
  · intro h text hused
    exact h [⟨text, "", .null⟩] (by simpa [FirstLabelsIn] using hused) ⟨text, "", .null⟩
      (List.mem_singleton_self _)
  · intro h db hdb row hrow
    exact h row.text (hdb row hrow)

theorem within_aput {labels : List String} {key : String} {value index ttl : Json} :
    ((StoreOp.aput labels key value index ttl).touched lib db).Within identity ↔
      (lib.accepts labels = true → firstLabel (namespaceText labels) = identity) := by
  constructor
  · intro h hacc
    exact h.written ⟨namespaceText labels, key, value⟩ (by simp [StoreOp.touched, hacc])
  · intro h
    refine ⟨by simp [StoreOp.touched], by simp [StoreOp.touched], by simp [StoreOp.touched], ?_,
      by simp [StoreOp.touched]⟩
    simpa [StoreOp.touched] using h

theorem within_aget {labels : List String} {key : String} {refreshTtl : Option Bool} :
    ((StoreOp.aget labels key refreshTtl).touched lib db).Within identity ↔
      ∀ row ∈ db, row.isAt labels key = true → firstLabel row.text = identity := by
  constructor
  · intro h row hrow hat
    exact h.read row (List.mem_filter.mpr ⟨hrow, hat⟩)
  · intro h
    have hread : ∀ row ∈ db.filter (StoreItem.isAt labels key), firstLabel row.text = identity :=
      fun row hrow => h row (List.mem_filter.mp hrow).1 (List.mem_filter.mp hrow).2
    exact ⟨hread, hread, by simp [StoreOp.touched], by simp [StoreOp.touched],
      by simp [StoreOp.touched]⟩

theorem within_adelete {labels : List String} {key : String} :
    ((StoreOp.adelete labels key).touched lib db).Within identity ↔
      ∀ row ∈ db, row.isAt labels key = true → firstLabel row.text = identity := by
  constructor
  · intro h row hrow hat
    exact h.deleted row (List.mem_filter.mpr ⟨hrow, hat⟩)
  · intro h
    exact ⟨by simp [StoreOp.touched], by simp [StoreOp.touched], by simp [StoreOp.touched],
      by simp [StoreOp.touched],
      fun row hrow => h row (List.mem_filter.mp hrow).1 (List.mem_filter.mp hrow).2⟩

theorem within_asearch {labels : List String} {args : SearchArgs} :
    ((StoreOp.asearch labels args).touched lib db).Within identity ↔
      ∀ row ∈ db, namespaceText labels <+: row.text → firstLabel row.text = identity := by
  constructor
  · intro h row hrow hp
    exact h.read row (List.mem_filter.mpr ⟨hrow, List.isPrefixOf_iff_prefix.mpr hp⟩)
  · intro h
    have hread : ∀ row ∈ db.filter fun row => (namespaceText labels).isPrefixOf row.text,
        firstLabel row.text = identity := fun row hrow =>
      h row (List.mem_filter.mp hrow).1 (List.isPrefixOf_iff_prefix.mp (List.mem_filter.mp hrow).2)
    exact ⟨hread, fun row hrow => hread row (lib.page_subset _ _ hrow),
      by simp [StoreOp.touched], by simp [StoreOp.touched], by simp [StoreOp.touched]⟩

theorem head?_of_truncated {maxDepth : Option Int} {labels : List String}
    (h : truncated maxDepth text = some labels) : labels.head? = some (firstLabel text) := by
  unfold truncated at h
  split at h
  · rw [← Option.some.inj h, head?_nsLabels]
  · split at h
    · next hpos =>
      rw [← Option.some.inj h, List.head?_take, if_neg (by omega), head?_nsLabels]
    · cases h

theorem within_alistNamespaces {labels : List String} {suffix : Option (List String)}
    {maxDepth : Option Int} {limit offset : Int} :
    ((StoreOp.alistNamespaces (some labels) suffix maxDepth limit offset).touched lib db).Within
        identity ↔
      ∀ row ∈ db, Listed labels suffix row.text → firstLabel row.text = identity := by
  constructor
  · intro h row hrow hlisted
    refine h.read row (List.mem_filter.mpr ⟨hrow, ?_⟩)
    rw [Option.all_some, hlisted.1, hlisted.2, Bool.and_self]
  · intro h
    have hread : ∀ row ∈ listed (some labels) suffix db, firstLabel row.text = identity := by
      intro row hrow
      obtain ⟨hrow, hmatch⟩ := List.mem_filter.mp hrow
      rw [Option.all_some, Bool.and_eq_true] at hmatch
      exact h row hrow hmatch
    refine ⟨hread, by simp [StoreOp.touched], fun ns hns => ?_, by simp [StoreOp.touched],
      by simp [StoreOp.touched]⟩
    obtain ⟨row, hrow, hns⟩ := List.mem_filterMap.mp (lib.pageNamespaces_subset _ _ _ hns)
    rw [head?_of_truncated hns, hread row hrow]

/-- The row of one namespace and key is the identity's, or is not there. -/
theorem forall_isAt_iff {key : String} :
    (∀ db, FirstLabelsIn used db → ∀ row ∈ db, row.isAt (identity :: below) key = true →
      firstLabel row.text = identity) ↔
        '.' ∉ identity.toList ∨ firstLabel identity.toList ∉ used := by
  have hfirst (h : '.' ∈ identity.toList) :
      firstLabel (namespaceText (identity :: below)) = firstLabel identity.toList :=
    firstLabel_of_period h (prefix_namespaceText _ _)
  constructor
  · intro h
    by_contra hcon
    obtain ⟨hmem, hused⟩ := not_or.mp hcon
    rw [not_not] at hmem hused
    have hself := h [⟨namespaceText (identity :: below), key, .null⟩]
      (by simpa [FirstLabelsIn, hfirst hmem] using hused) _ (List.mem_singleton_self _)
      (by simp [StoreItem.isAt])
    exact firstLabel_namespaceText.mp hself hmem
  · intro h db hdb row hrow hat
    simp only [StoreItem.isAt, Bool.and_eq_true, decide_eq_true_eq] at hat
    rw [hat.1]
    refine firstLabel_namespaceText.mpr fun hmem => ?_
    have hused := hdb row hrow
    rw [hat.1, hfirst hmem] at hused
    exact h.elim (fun hnot => hnot hmem) fun hnot => hnot hused

end

/-! ### Requests -/

theorem storeIsolated_iff_within {lib : StoreLibrary} {identity : String} {r : StoreRequest}
    {db : List StoreItem} : StoreIsolated lib identity r db ↔
      (r.refused = false → ((r.opUnder identity).touched lib db).Within identity) := by
  constructor
  · intro h hr
    exact h _ (StoreRequest.route_eq_ok.mpr ⟨hr, rfl⟩)
  · rintro h op hop
    obtain ⟨hr, rfl⟩ := StoreRequest.route_eq_ok.mp hop
    exact h hr

/-- A request of an identity reaches rows of the identity only, whatever the store holds
under the first labels in use, exactly if `Separated` holds. -/
theorem storeIsolated_iff (lib : StoreLibrary) (used : Set String) (identity : String)
    (r : StoreRequest) :
    (∀ db, FirstLabelsIn used db → StoreIsolated lib identity r db) ↔
      Separated lib used identity r := by
  simp only [storeIsolated_iff_within]
  rw [Separated]
  cases hr : r.refused with
  | true => simp
  | false =>
    simp only [forall_const, Bool.false_eq_true, false_or]
    cases r with
    | put labels key value index ttl =>
      simp only [StoreRequest.opUnder, within_aput, firstLabel_namespaceText]
      constructor
      · intro h
        have hacc := h [] (by simp [FirstLabelsIn])
        rw [← Bool.not_eq_true]
        exact or_iff_not_imp_right.mpr fun hne => hacc (not_not.mp hne)
      · rintro (h | h) db - hacc
        · exact h
        · rw [h] at hacc
          cases hacc
    | get labels key refreshTtl =>
      simp only [StoreRequest.opUnder, within_aget]
      exact forall_isAt_iff
    | delete labels key =>
      simp only [StoreRequest.opUnder, within_adelete]
      exact forall_isAt_iff
    | search start filter limit offset query refreshTtl =>
      simp only [StoreRequest.opUnder, within_asearch]
      exact forall_rows_iff.trans forall_prefix_iff_ownSubtree
    | listNamespaces start suffix maxDepth limit offset =>
      simp only [StoreRequest.opUnder, within_alistNamespaces]
      refine forall_rows_iff.trans ?_
      split
      · next hstar =>
        subst hstar
        exact forall_listed_star_iff _
      · next hstar => exact forall_listed_iff_ownSubtree hstar _

/-- A library that refuses the labels it cannot join, and pages what it finds. -/
def plainLibrary : StoreLibrary where
  accepts labels := !labels.isEmpty && !labels.any badLabel && labels.head? ≠ some "langgraph"
  page args rows := (rows.drop args.offset.toNat).take args.limit.toNat
  page_subset _ _ := List.Subset.trans (List.take_subset _ _) (List.drop_subset _ _)
  pageNamespaces limit offset found := (found.dedup.drop offset.toNat).take limit.toNat
  pageNamespaces_subset _ _ found :=
    List.Subset.trans (List.take_subset _ _)
      (List.Subset.trans (List.drop_subset _ _) (List.dedup_subset found))

/-- A search below a label is isolated, whatever the store holds. -/
theorem storeIsolated_search_notes :
    Separated plainLibrary Set.univ "a" (.search (some ["notes"]) none none none none none) ∧
      ∀ db, FirstLabelsIn Set.univ db →
        StoreIsolated plainLibrary "a" (.search (some ["notes"]) none none none none none) db := by
  have h : Separated plainLibrary Set.univ "a"
      (.search (some ["notes"]) none none none none none) :=
    .inr (.inr ⟨by decide, .inl (by decide)⟩)
  exact ⟨h, (storeIsolated_iff plainLibrary Set.univ "a" _).mpr h⟩

/-- A search of everything by `a` returns what `ab` has put. -/
theorem not_storeIsolated_of_extended :
    ¬ StoreIsolated plainLibrary "a" (.search (some []) none none none none none)
      ((StoreOp.aput ["ab", "notes"] "k" (.str "secret") .null .null).apply plainLibrary []) := by
  intro h
  have hread := (h (.asearch ["a"] ⟨none, 10, 0, none, none⟩) (by rfl)).returned
    ⟨namespaceText ["ab", "notes"], "k", .str "secret"⟩ (by decide)
  exact absurd hread (by decide)

/-- The rows of others stay as they are. -/
theorem mem_apply_iff_of_within {lib : StoreLibrary} {identity : String} {op : StoreOp}
    {db : List StoreItem} {row : StoreItem} (h : (op.touched lib db).Within identity)
    (hrow : firstLabel row.text ≠ identity) : row ∈ op.apply lib db ↔ row ∈ db := by
  constructor
  · intro hmem
    rcases StoreOp.mem_of_mem_apply hmem with hw | hmem
    · exact absurd (h.written row hw) hrow
    · exact hmem
  · intro hmem
    refine StoreOp.mem_apply_of_mem hmem (fun hdel => hrow (h.deleted row hdel)) ?_
    rintro w hw ⟨htext, -⟩
    exact hrow (htext ▸ h.written w hw)

end NextRole
