import NextRole.Api.AuthFilters

/-!
# What a compiled authorization filter admits

A filter dictionary is a tree: `$or` and `$and` over leaves, each of which says
something of the value of one key of the metadata.  It is compiled in two steps,
the dictionary to a list of filters and the filters to a predicate of SQL.  The
predicate compares by containment, and the branches of an `$or` that ask for
nothing are left out of it.

* `filterHolds` — what a dictionary says of a metadata value, for a relation
  between the value of a key and an operand.
* `hasLeaf` — whether a dictionary asks for anything.
* `says_filters` — the two steps of the compilation together.
* `admits_iff_filterHolds` — the compiled clause admits exactly the values of which
  the dictionary holds, and restricts nothing only where the dictionary holds of
  every value.
* `not_filtersExact` — with equality for the relation it does not.
-/

namespace NextRole

/-! ### What a filter dictionary says -/

mutual

/-- Whether a dictionary asks for anything: it has a leaf. -/
def hasLeaf : List (String × Json) → Bool
  | [] => false
  | (key, value) :: rest => entryHasLeaf key value || hasLeaf rest

/-- An operator has the leaves of its branches, any other entry is a leaf. -/
def entryHasLeaf (key : String) (value : Json) : Bool :=
  if key = "$or" ∨ key = "$and" then
    match value with
    | .arr branches => branchesHaveLeaf branches
    | _ => true
  else true

/-- Whether some branch has a leaf. -/
def branchesHaveLeaf : List Json → Bool
  | [] => false
  | branch :: branches => branchHasLeaf branch || branchesHaveLeaf branches

/-- Whether a branch has a leaf. -/
def branchHasLeaf : Json → Bool
  | .obj kvs => hasLeaf kvs
  | _ => false

end

section Meaning

variable (rel : Json → Json → Bool) (empty : Bool) (column : Json)

/-- What a leaf says of the value of its key. -/
def valueHolds (stored : Json) : Json → Bool
  | .obj [(operator, operand)] =>
    if operator = "$eq" then rel stored operand
    else match stored with
      | .arr elements =>
        (containsItems operand).any fun item => elements.any fun element => rel element item
      | _ => false
  | value => rel stored value

/-- A leaf holds when the metadata has the key with a value of which it holds. -/
def leafHolds (key : String) (value : Json) : Bool :=
  (column.get? key).any fun stored => valueHolds rel stored value

mutual

/-- A dictionary holds when all its entries do. -/
def filterHolds : List (String × Json) → Bool
  | [] => true
  | (key, value) :: rest => entryHolds key value && filterHolds rest

/-- `$or` is the disjunction of its branches, if there is a leaf at all, `$and` their
conjunction, and anything else a leaf. -/
def entryHolds (key : String) (value : Json) : Bool :=
  if key = "$or" then
    match value with
    | .arr branches => !branchesHaveLeaf branches || someBranchHolds branches
    | _ => false
  else if key = "$and" then
    match value with
    | .arr branches => everyBranchHolds branches
    | _ => false
  else leafHolds rel column key value

/-- Some branch holds, where one without a leaf counts as `empty`. -/
def someBranchHolds : List Json → Bool
  | [] => false
  | branch :: branches =>
    (if branchHasLeaf branch then branchHolds branch else empty) || someBranchHolds branches

/-- Every branch holds. -/
def everyBranchHolds : List Json → Bool
  | [] => true
  | branch :: branches => branchHolds branch && everyBranchHolds branches

/-- An empty branch holds of everything. -/
def branchHolds : Json → Bool
  | .obj kvs => filterHolds kvs
  | _ => true

end

end Meaning

mutual

/-- No leaf asks for an element of an empty list. -/
def containsNonempty : List (String × Json) → Bool
  | [] => true
  | (key, value) :: rest => entryNonempty key value && containsNonempty rest

/-- Neither does one entry. -/
def entryNonempty (key : String) (value : Json) : Bool :=
  if key = "$or" ∨ key = "$and" then
    match value with
    | .arr branches => branchesNonempty branches
    | _ => true
  else
    match value with
    | .obj [(operator, operand)] => operator ≠ "$contains" || !(containsItems operand).isEmpty
    | _ => true

/-- Nor the branches of an operator. -/
def branchesNonempty : List Json → Bool
  | [] => true
  | branch :: branches => branchNonempty branch && branchesNonempty branches

/-- Nor one branch. -/
def branchNonempty : Json → Bool
  | .obj kvs => containsNonempty kvs
  | _ => true

end

/-! ### Predicates of lists of filters -/

theorem predicates_cons (f : AuthFilter) (fs : List AuthFilter) :
    predicates (f :: fs) = (predicate f).toList ++ predicates fs := by
  rw [predicates]
  cases predicate f <;> rfl

theorem predicates_append (fs gs : List AuthFilter) :
    predicates (fs ++ gs) = predicates fs ++ predicates gs := by
  induction fs with
  | nil => rfl
  | cons f fs ih => rw [List.cons_append, predicates_cons, predicates_cons, ih, List.append_assoc]

theorem predicates_singleton (f : AuthFilter) : predicates [f] = (predicate f).toList := by
  rw [predicates_cons, predicates, List.append_nil]

theorem holdsAll_append (column : Json) (ps qs : List Predicate) :
    holdsAll column (ps ++ qs) = (holdsAll column ps && holdsAll column qs) := by
  induction ps with
  | nil => simp [holdsAll]
  | cons p ps ih => rw [List.cons_append, holdsAll, holdsAll, ih, Bool.and_assoc]

theorem admits_eq_holdsAll (fs : List AuthFilter) (column : Json) :
    admits fs column = holdsAll column (predicates fs) := by
  unfold admits filtersClause
  cases predicates fs <;> rfl

theorem filtersClause_eq_none {fs : List AuthFilter} :
    filtersClause fs = none ↔ predicates fs = [] := by
  unfold filtersClause
  cases predicates fs <;> simp

theorem join_toList_eq_nil (combine : List Predicate → Predicate) (ps : List Predicate) :
    (join combine ps).toList = [] ↔ ps = [] := by
  match ps with
  | [] => simp [join]
  | [p] => simp [join]
  | p :: q :: ps => simp [join]

theorem holdsAll_join_all (column : Json) (ps : List Predicate) :
    holdsAll column (join .all ps).toList = holdsAll column ps := by
  unfold join
  split
  · rfl
  · rfl
  · simp [holdsAll, Predicate.holds]

theorem holdsAll_join_any {column : Json} {ps : List Predicate} (h : ps ≠ []) :
    holdsAll column (join .any ps).toList = holdsAny column ps := by
  unfold join
  split
  · exact absurd rfl h
  · simp [holdsAll, holdsAny]
  · simp [holdsAll, Predicate.holds]

theorem holdsAny_eq_any (column : Json) (ps : List Predicate) :
    holdsAny column ps = ps.any fun p => p.holds column := by
  induction ps with
  | nil => rfl
  | cons p ps ih => rw [holdsAny, ih, List.any_cons]


/-! ### What the translation leaves -/

/-- Filters whose predicates say what a dictionary says, and there are some iff it has
a leaf. -/
structure Says (fs : List AuthFilter) (leaf : Bool) (holds : Json → Bool) : Prop where
  leaf : predicates fs = [] ↔ leaf = false
  holds : ∀ column, holdsAll column (predicates fs) = holds column

theorem Says.append {fs gs : List AuthFilter} {leaf leaf' : Bool} {holds holds' : Json → Bool}
    (h : Says fs leaf holds) (h' : Says gs leaf' holds') :
    Says (fs ++ gs) (leaf || leaf') (fun column => holds column && holds' column) := by
  constructor
  · rw [predicates_append, List.append_eq_nil_iff, h.leaf, h'.leaf, Bool.or_eq_false_iff]
  · intro column
    rw [predicates_append, holdsAll_append, h.holds, h'.holds]

/-- The filters of one branch of an `$or` say what the branch says. -/
theorem Says.conjunction {fs : List AuthFilter} {leaf : Bool} {holds : Json → Bool}
    (h : Says fs leaf holds) : Says [.andFilter fs] leaf holds := by
  constructor
  · rw [predicates_singleton, predicate, join_toList_eq_nil, h.leaf]
  · intro column
    rw [predicates_singleton, predicate, holdsAll_join_all, h.holds]

/-- Filters that say what some branch of a list says, where branches without a leaf
are left out. -/
structure SaysSome (fs : List AuthFilter) (leaf : Bool) (holds : Json → Bool) : Prop where
  leaf : predicates fs = [] ↔ leaf = false
  holds : ∀ column, holdsAny column (predicates fs) = holds column

theorem Says.cons_some {f : AuthFilter} {fs : List AuthFilter} {leaf leaf' : Bool}
    {holds holds' : Json → Bool} (h : Says [f] leaf holds) (h' : SaysSome fs leaf' holds') :
    SaysSome (f :: fs) (leaf || leaf')
      (fun column => (if leaf then holds column else false) || holds' column) := by
  have hcons : predicates (f :: fs) = predicates [f] ++ predicates fs := predicates_append [f] fs
  constructor
  · rw [hcons, List.append_eq_nil_iff, h.leaf, h'.leaf, Bool.or_eq_false_iff]
  · intro column
    rw [hcons, holdsAny_eq_any, List.any_append, ← holdsAny_eq_any, ← holdsAny_eq_any, h'.holds]
    congr 1
    have hleaf := h.leaf
    have hholds := h.holds column
    -- one filter has at most one predicate
    rw [predicates_singleton] at hleaf hholds ⊢
    cases hp : predicate f with
    | none =>
      have : leaf = false := hleaf.mp (by rw [hp]; rfl)
      simp [this, holdsAny]
    | some p =>
      have : leaf = true := by
        cases leaf with
        | true => rfl
        | false => simp [hp] at hleaf
      simpa [this, hp, holdsAll, holdsAny] using hholds

theorem SaysSome.or {fs : List AuthFilter} {leaf : Bool} {holds : Json → Bool}
    (h : SaysSome fs leaf holds) :
    Says [.orFilter fs] leaf (fun column => !leaf || holds column) := by
  constructor
  · rw [predicates_singleton, predicate, join_toList_eq_nil, h.leaf]
  · intro column
    rw [predicates_singleton, predicate]
    by_cases hnil : predicates fs = []
    · simp [hnil, h.leaf.mp hnil, join, holdsAll]
    · have hleaf : leaf = true := by
        cases leaf with
        | true => rfl
        | false => exact absurd (h.leaf.mpr rfl) hnil
      rw [holdsAll_join_any hnil, h.holds, hleaf, Bool.not_true, Bool.false_or]

theorem says_eq (key : String) (value : Json) :
    Says [.eq key value] true
      (fun column => (column.get? key).any fun stored => stored.deepContains value) := by
  constructor
  · simp [predicates_singleton, predicate]
  · intro column
    rw [predicates_singleton, predicate, Bool.eq_iff_iff]
    simp [holdsAll, Predicate.holds, Json.contains_singleton, Option.any_eq_true]

theorem deepContains_singleton (stored value : Json) :
    stored.deepContains (.arr [value]) = match stored with
      | .arr elements => elements.any fun element => element.deepContains value
      | _ => false := by
  cases stored <;> simp [Json.deepContains, Json.containsElems]

/-- A comparison with the elements of an array, one disjunct for each operand. -/
theorem says_contains (key : String) {items : List Json} (h : items ≠ []) :
    Says [.contains key items] true
      (fun column => (column.get? key).any fun stored =>
        match stored with
        | .arr elements =>
          items.any fun item => elements.any fun element => element.deepContains item
        | _ => false) := by
  constructor
  · rw [predicates_singleton, predicate, join_toList_eq_nil]
    simpa using h
  · intro column
    have hne : items.map (fun value => Predicate.contains (.obj [(key, .arr [value])])) ≠ [] := by
      simpa using h
    rw [predicates_singleton, predicate, holdsAll_join_any hne, holdsAny_eq_any, List.any_map,
      Bool.eq_iff_iff, List.any_eq_true]
    simp only [Function.comp_apply, Predicate.holds, Json.contains_singleton, Option.any_eq_true,
      deepContains_singleton]
    constructor
    · rintro ⟨item, hitem, w, hw, hc⟩
      refine ⟨w, hw, ?_⟩
      cases w with
      | arr elements => exact List.any_eq_true.mpr ⟨item, hitem, hc⟩
      | _ => cases hc
    · rintro ⟨w, hw, hc⟩
      cases w with
      | arr elements =>
        obtain ⟨item, hitem, hc⟩ := List.any_eq_true.mp hc
        exact ⟨item, hitem, _, hw, hc⟩
      | _ => cases hc


theorem isOk_bind {ε α β : Type} {x : Except ε α} {f : α → Except ε β} {b : β}
    (h : x.bind f = .ok b) : ∃ a, x = .ok a ∧ f a = .ok b := by
  cases x with
  | error e => cases h
  | ok a => exact ⟨a, rfl, h⟩

/-- A value under a key that is no operator says what the leaf says. -/
theorem says_leaf {depth : ℕ} {key : String} {value : Json} {fs : List AuthFilter}
    (hor : key ≠ "$or") (hand : key ≠ "$and") (h : filterToProto depth key value = .ok fs)
    (hne : entryNonempty key value = true) :
    Says fs true (fun column => leafHolds Json.deepContains column key value) := by
  unfold filterToProto at h
  unfold entryNonempty at hne
  rw [if_neg hor, if_neg hand] at h
  rw [if_neg (by simp [hor, hand])] at hne
  split at h
  · next operator operand =>
    split at h
    · next heq =>
      cases h
      simpa only [leafHolds, valueHolds, if_pos heq] using says_eq key operand
    · next heq =>
      split at h
      · next hcontains =>
        cases h
        have hitems : containsItems operand ≠ [] := by simpa [hcontains] using hne
        simpa only [leafHolds, valueHolds, if_neg heq] using says_contains key hitems
      · cases h
  · cases h
  · next hobj =>
    cases h
    have hvalue : ∀ stored, valueHolds Json.deepContains stored value =
        stored.deepContains value := by
      intro stored
      cases value with
      | obj kvs => exact absurd rfl (hobj kvs)
      | _ => rfl
    simpa only [leafHolds, hvalue] using says_eq key value

theorem orBranches_cons (fs : List AuthFilter) (branches : List (List AuthFilter)) :
    orBranches (fs :: branches) = (match fs with
      | [] => []
      | [f] => [f]
      | fs => [.andFilter fs]) ++ orBranches branches := by
  match fs with
  | [] => rfl
  | [f] => rfl
  | f :: g :: fs => rfl

/-- An operator with anything but a list of branches is refused. -/
theorem says_scalarEntry {depth : ℕ} {key : String} {value : Json} {fs : List AuthFilter}
    (hvalue : ∀ branches, value ≠ .arr branches) (h : filterToProto depth key value = .ok fs)
    (hne : entryNonempty key value = true) :
    Says fs (entryHasLeaf key value)
      (fun column => entryHolds Json.deepContains false column key value) := by
  by_cases hor : key = "$or"
  · unfold filterToProto at h
    rw [if_pos hor] at h
    split at h
    · cases h
    · split at h
      · exact absurd rfl (hvalue _)
      · cases h
  · by_cases hand : key = "$and"
    · unfold filterToProto at h
      rw [if_neg hor, if_pos hand] at h
      split at h
      · cases h
      · split at h
        · exact absurd rfl (hvalue _)
        · cases h
    · have hsays := says_leaf hor hand h hne
      have hleaf : entryHasLeaf key value = true := by
        unfold entryHasLeaf
        rw [if_neg (by simp [hor, hand])]
      rw [hleaf]
      simpa only [entryHolds, if_neg hor, if_neg hand] using hsays

/-- A branch that is no dictionary is refused unless it is empty. -/
theorem says_emptyBranch {depth : ℕ} {branch : Json} {fs : List AuthFilter}
    (hbranch : ∀ kvs, branch ≠ .obj kvs) (h : branchToProto depth branch = .ok fs) :
    Says fs (branchHasLeaf branch)
      (fun column => branchHolds Json.deepContains false column branch) := by
  cases branch with
  | obj kvs => exact absurd rfl (hbranch kvs)
  | _ =>
    unfold branchToProto at h
    split at h
    · cases h
    · cases h
      constructor
      · simp [predicates, branchHasLeaf]
      · intro column
        simp [predicates, holdsAll, branchHolds]

mutual

/-- **The filters of a dictionary say what the dictionary says.** -/
theorem says_filters (depth : ℕ) : ∀ (kvs : List (String × Json)) {fs : List AuthFilter},
    filtersToProto depth kvs = .ok fs → containsNonempty kvs = true →
      Says fs (hasLeaf kvs) (fun column => filterHolds Json.deepContains false column kvs)
  | [], fs, h, _ => by
    cases h
    exact ⟨by simp [predicates, hasLeaf], fun column => by simp [predicates, holdsAll, filterHolds]⟩
  | (key, value) :: rest, fs, h, hne => by
    rw [filtersToProto] at h
    obtain ⟨gs, hgs, h⟩ := isOk_bind h
    obtain ⟨gs', hgs', h⟩ := isOk_bind h
    cases h
    rw [containsNonempty, Bool.and_eq_true] at hne
    simp only [hasLeaf, filterHolds]
    exact (says_entry depth key value hgs hne.1).append (says_filters depth rest hgs' hne.2)

/-- So do those of an entry. -/
theorem says_entry (depth : ℕ) (key : String) : ∀ (value : Json) {fs : List AuthFilter},
    filterToProto depth key value = .ok fs → entryNonempty key value = true →
      Says fs (entryHasLeaf key value)
        (fun column => entryHolds Json.deepContains false column key value)
  | .arr branches, fs, h, hne => by
    have hbranches := fun gs => @says_branches (depth + 1) branches gs
    by_cases hor : key = "$or"
    · subst hor
      unfold filterToProto at h
      rw [if_pos rfl] at h
      split at h
      · cases h
      · split at h
        · next x y branches' heq =>
          rw [← Json.arr.inj heq] at h
          obtain ⟨gs, hgs, h⟩ := isOk_bind h
          cases h
          simpa [entryHasLeaf, entryHolds] using (hbranches _ hgs hne).1.or
        · cases h
    · by_cases hand : key = "$and"
      · subst hand
        unfold filterToProto at h
        rw [if_neg hor, if_pos rfl] at h
        split at h
        · cases h
        · split at h
          · next x y branches' heq =>
            rw [← Json.arr.inj heq] at h
            obtain ⟨gs, hgs, h⟩ := isOk_bind h
            cases h
            simpa [entryHasLeaf, entryHolds] using (hbranches _ hgs hne).2
          · cases h
      · have hsays := says_leaf hor hand h hne
        simpa only [entryHasLeaf, entryHolds, if_neg hor, if_neg hand, hor, hand, or_self,
          if_false] using hsays
  | .null, fs, h, hne => says_scalarEntry (by simp) h hne
  | .bool b, fs, h, hne => says_scalarEntry (by simp) h hne
  | .num q, fs, h, hne => says_scalarEntry (by simp) h hne
  | .str s, fs, h, hne => says_scalarEntry (by simp) h hne
  | .obj kvs, fs, h, hne => says_scalarEntry (by simp) h hne

/-- The filters of the branches of an operator say what some, and what all of them say. -/
theorem says_branches (depth : ℕ) : ∀ (branches : List Json) {fs : List (List AuthFilter)},
    branchesToProto depth branches = .ok fs → branchesNonempty branches = true →
      SaysSome (orBranches fs) (branchesHaveLeaf branches)
        (fun column => someBranchHolds Json.deepContains false column branches) ∧
      Says fs.flatten (branchesHaveLeaf branches)
        (fun column => everyBranchHolds Json.deepContains false column branches)
  | [], fs, h, _ => by
    cases h
    constructor
    · exact ⟨by simp [orBranches, predicates, branchesHaveLeaf],
        fun column => by simp [orBranches, predicates, holdsAny, someBranchHolds]⟩
    · exact ⟨by simp [predicates, branchesHaveLeaf],
        fun column => by simp [predicates, holdsAll, everyBranchHolds]⟩
  | branch :: branches, fs, h, hne => by
    rw [branchesToProto] at h
    obtain ⟨gs, hgs, h⟩ := isOk_bind h
    obtain ⟨gs', hgs', h⟩ := isOk_bind h
    cases h
    rw [branchesNonempty, Bool.and_eq_true] at hne
    have hbranch := says_branch depth branch hgs hne.1
    obtain ⟨hsome, hall⟩ := says_branches depth branches hgs' hne.2
    simp only [branchesHaveLeaf, someBranchHolds, everyBranchHolds, List.flatten_cons]
    refine ⟨?_, hbranch.append hall⟩
    rw [orBranches_cons]
    match gs, hbranch with
    | [], hbranch =>
      have hleaf : branchHasLeaf branch = false := hbranch.leaf.mp rfl
      simpa [hleaf] using hsome
    | [f], hbranch => exact hbranch.cons_some hsome
    | f :: g :: gs, hbranch => exact hbranch.conjunction.cons_some hsome

theorem says_branch (depth : ℕ) : ∀ (branch : Json) {fs : List AuthFilter},
    branchToProto depth branch = .ok fs → branchNonempty branch = true →
      Says fs (branchHasLeaf branch)
        (fun column => branchHolds Json.deepContains false column branch)
  | .obj kvs, fs, h, hne => says_filters depth kvs h hne
  | .null, fs, h, _ => says_emptyBranch (by simp) h
  | .bool b, fs, h, _ => says_emptyBranch (by simp) h
  | .num q, fs, h, _ => says_emptyBranch (by simp) h
  | .str s, fs, h, _ => says_emptyBranch (by simp) h
  | .arr xs, fs, h, _ => says_emptyBranch (by simp) h

end

/-! ### The clause -/

/-- How the value of a key meets an operand: a scalar by equality, an object or an
array by containment. -/
def meets (stored operand : Json) : Bool :=
  if operand.isScalar then stored == operand else stored.deepContains operand

theorem meets_eq_deepContains : meets = Json.deepContains := by
  funext stored operand
  unfold meets
  split
  · next hscalar => exact (Json.deepContains_of_isScalar hscalar).symm
  · rfl

/-- **The compiled clause is exact and fails closed**: it admits a value iff the
dictionary holds of it, and it is empty only where the dictionary holds of every value. -/
theorem admits_iff_filterHolds {kvs : List (String × Json)} {filters : List AuthFilter}
    (h : filtersToProto 0 kvs = .ok filters) (hcontains : containsNonempty kvs = true) :
    (∀ column, admits filters column = true ↔ filterHolds meets false column kvs = true) ∧
      (filtersClause filters = none → ∀ column, filterHolds meets false column kvs = true) := by
  have hsays := says_filters 0 kvs h hcontains
  rw [← meets_eq_deepContains] at hsays
  constructor
  · intro column
    rw [admits_eq_holdsAll, hsays.holds]
  · intro hnone column
    rw [← hsays.holds, filtersClause_eq_none.mp hnone]
    rfl

/-- The owner or one of the collaborators of a shared row. -/
theorem admits_iff_filterHolds_witness :
    (∀ column, admits [.orFilter [.eq "owner" (.str "u"), .contains "editors" [.str "u"]]]
        column = true ↔
      filterHolds meets false column [("$or", .arr [.obj [("owner", .str "u")],
        .obj [("editors", .obj [("$contains", .str "u")])]])] = true) ∧
      (filtersClause [.orFilter [.eq "owner" (.str "u"), .contains "editors" [.str "u"]]] = none →
        ∀ column, filterHolds meets false column [("$or", .arr [.obj [("owner", .str "u")],
          .obj [("editors", .obj [("$contains", .str "u")])]])] = true) :=
  admits_iff_filterHolds (by simp [filtersToProto, filterToProto, branchesToProto, branchToProto,
    maxAuthFilterDepth, orBranches, containsItems, Except.bind]) (by decide +kernel)

/-- An operand that is an object is met by every object with more fields. -/
theorem not_filtersExact :
    ¬ ∀ (kvs : List (String × Json)) (filters : List AuthFilter) (fields : List (String × Json)),
      kvs ≠ [] → filtersToProto 0 kvs = .ok filters →
        (admits filters (.obj fields) = true ↔
          filterHolds Json.same true (.obj fields) kvs = true) := by
  intro h
  have hok : filtersToProto 0 [("owner", .obj [("$eq", .obj [("team", .str "a")])])] =
      .ok [.eq "owner" (.obj [("team", .str "a")])] := by
    simp [filtersToProto, filterToProto, Except.bind]
  have hexact := h _ _ [("owner", .obj [("team", .str "a"), ("role", .str "x")])] (by simp) hok
  revert hexact
  decide +kernel

end NextRole
