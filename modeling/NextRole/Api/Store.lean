import NextRole.Agents.Auth
import NextRole.Lib.Path

/-!
# The store through the API

The routes of `api/store.py`: the labels of a request are checked, the handler of the
store puts its namespace under the caller's identity, and the store library runs one
operation.  The table of the store keeps a namespace as its labels joined by periods; a
search finds the rows whose text starts with the text of the namespace, and a listing
matches texts by a pattern, where the label `*` is a wildcard.  The encryption of a
value has no part in namespaces and is left out, as is the expiry of rows.

## Main definitions

* `StoreItem`, `namespaceText`, `firstLabel`, `nsLabels` — a row, and its namespace as text.
* `StoreRequest`, `StoreRequest.route` — the five routes, up to the call of the library.
* `StoreLibrary` — what the library decides besides namespaces.
* `StoreOp.touched`, `StoreOp.apply` — the rows of an operation, and what it leaves.

## Main results

* `StoreRequest.route_eq_ok` — the operation of a request is one under the identity.
* `StoreOp.mem_apply_of_mem`, `StoreOp.mem_of_mem_apply` — what an operation neither writes
  nor deletes stays, and nothing else appears.
-/

namespace NextRole

/-! ### Rows -/

/-- A row of the table `store`. -/
structure StoreItem where
  /-- The column `prefix`: the labels of the namespace, joined. -/
  text : List Char
  key : String
  value : Json
  deriving DecidableEq

/-- `_namespace_to_text`. -/
def namespaceText (labels : List String) : List Char :=
  Path.join '.' (labels.map String.toList)

/-- The first label of the namespace that a text reads back as. -/
def firstLabel (text : List Char) : String := String.ofList (Path.first '.' text)

/-- The labels of the namespace that a text reads back as. -/
def nsLabels (text : List Char) : List String := (text.splitOn '.').map String.ofList

theorem head?_nsLabels (text : List Char) : (nsLabels text).head? = some (firstLabel text) := by
  rw [nsLabels, List.head?_map, Path.head?_splitOn]
  rfl

/-- The pattern of a path, where `*` is a wildcard. -/
def pathPattern (labels : List String) : List (Option Char) :=
  Path.join (some '.') (labels.map fun label =>
    if label = "*" then [none] else label.toList.map some)

/-- The condition of a listing on the start of a namespace. -/
def startMatches (labels : List String) (text : List Char) : Bool :=
  Path.glob (pathPattern labels ++ [none]) text

/-- The condition of a listing on the end of a namespace. -/
def endMatches (labels : List String) (text : List Char) : Bool :=
  Path.glob (none :: pathPattern labels) text

/-! ### Operations of the library -/

/-- What a search asks for besides its namespace. -/
structure SearchArgs where
  filter : Option Json
  limit : Int
  offset : Int
  query : Option String
  refreshTtl : Option Bool

/-- A call of the store library. -/
inductive StoreOp
  | aput (labels : List String) (key : String) (value index ttl : Json)
  | aget (labels : List String) (key : String) (refreshTtl : Option Bool)
  | adelete (labels : List String) (key : String)
  | asearch (labels : List String) (args : SearchArgs)
  | alistNamespaces (start suffix : Option (List String)) (maxDepth : Option Int)
      (limit offset : Int)

/-- What the library decides besides namespaces: the puts it refuses, and the part of
what it finds that it returns (filter, query, order, limit and offset). -/
structure StoreLibrary where
  accepts : List String → Bool
  page : SearchArgs → List StoreItem → List StoreItem
  page_subset : ∀ args rows, page args rows ⊆ rows
  pageNamespaces : Int → Int → List (List String) → List (List String)
  pageNamespaces_subset : ∀ limit offset found, pageNamespaces limit offset found ⊆ found

/-- What an operation reaches. -/
structure Touched where
  read : List StoreItem := []
  returned : List StoreItem := []
  namespaces : List (List String) := []
  written : List StoreItem := []
  deleted : List StoreItem := []

/-- The row of a namespace and a key. -/
def StoreItem.isAt (labels : List String) (key : String) (row : StoreItem) : Bool :=
  row.text = namespaceText labels && row.key = key

/-- The rows that a listing matches. -/
def listed (start suffix : Option (List String)) (db : List StoreItem) : List StoreItem :=
  db.filter fun row =>
    (start.all fun labels => startMatches labels row.text) &&
      suffix.all fun labels => endMatches labels row.text

/-- A namespace up to a depth.  A depth that is not positive is an error of the query. -/
def truncated (maxDepth : Option Int) (text : List Char) : Option (List String) :=
  match maxDepth with
  | none => some (nsLabels text)
  | some depth => if 0 < depth then some ((nsLabels text).take depth.toNat) else none

/-- The rows of an operation. -/
def StoreOp.touched (lib : StoreLibrary) (db : List StoreItem) : StoreOp → Touched
  | .aput labels key value _ _ =>
    { written := if lib.accepts labels then [⟨namespaceText labels, key, value⟩] else [] }
  | .aget labels key _ =>
    let found := db.filter (StoreItem.isAt labels key)
    { read := found, returned := found }
  | .adelete labels key => { deleted := db.filter (StoreItem.isAt labels key) }
  | .asearch labels args =>
    let found := db.filter fun row => (namespaceText labels).isPrefixOf row.text
    { read := found, returned := lib.page args found }
  | .alistNamespaces start suffix maxDepth limit offset =>
    let found := listed start suffix db
    { read := found
      namespaces := lib.pageNamespaces limit offset
        (found.filterMap fun row => truncated maxDepth row.text) }

/-- The table after an operation. -/
def StoreOp.apply (lib : StoreLibrary) (db : List StoreItem) : StoreOp → List StoreItem
  | .aput labels key value _ _ =>
    if lib.accepts labels then
      ⟨namespaceText labels, key, value⟩ :: db.filter fun row => !row.isAt labels key
    else db
  | .adelete labels key => db.filter fun row => !row.isAt labels key
  | _ => db

/-! ### Routes -/

/-- How a route refuses a request: 422 with the labels received, 400, or an error of
the handler. -/
inductive StoreError
  | invalidLabels (received : List String)
  | keyRequired
  | missingField (field : String)
  deriving DecidableEq

/-- A label that is empty or holds a period. -/
def badLabel (label : String) : Bool := label.toList.isEmpty || label.toList.contains '.'

/-- `_validate_namespace`. -/
def validateNamespace (labels : List String) : Except StoreError Unit :=
  if labels.any badLabel then .error (.invalidLabels labels) else .ok ()

/-- A request to a route of the store. -/
inductive StoreRequest
  /-- The body of `PUT /store/items`. -/
  | put (labels : List String) (key : String) (value index ttl : Json)
  /-- The query of `GET /store/items`. -/
  | get (labels : Option String) (key : Option String) (refreshTtl : Option String)
  /-- The body of `DELETE /store/items`. -/
  | delete (labels : Option (List String)) (key : String)
  /-- The body of `POST /store/items/search`. -/
  | search (start : Option (List String)) (filter : Option Json) (limit offset : Option Int)
      (query : Option String) (refreshTtl : Option Bool)
  /-- The body of `POST /store/namespaces`. -/
  | listNamespaces (start suffix : Option (List String)) (maxDepth limit offset : Option Int)

/-- `int(payload.get(field) or default)`. -/
def intOr (default : Int) : Option Int → Int
  | none => default
  | some n => if n = 0 then default else n

/-- `tuple(payload["prefix"]) if payload.get("prefix") else None`. -/
def nonemptyLabels : Option (List String) → Option (List String)
  | some (label :: rest) => some (label :: rest)
  | _ => none

/-- `put_item`. -/
def putItem (caller : Caller) (labels : List String) (key : String) (value index ttl : Json) :
    Except StoreError StoreOp := do
  validateNamespace labels
  .ok (.aput ((authorizeStore caller (some labels)).getD []) key value index ttl)

/-- `get_item`. -/
def getItem (caller : Caller) (labels key refreshTtl : Option String) :
    Except StoreError StoreOp := do
  let labels := nsLabels (labels.getD "").toList
  validateNamespace labels
  match key.filter (· ≠ "") with
  | none => .error .keyRequired
  | some key =>
    .ok (.aget ((authorizeStore caller (some labels)).getD []) key
      (refreshTtl.map fun raw => raw.toLower = "true"))

/-- `delete_item`. -/
def deleteItem (caller : Caller) (labels : Option (List String)) (key : String) :
    Except StoreError StoreOp := do
  let labels := labels.getD []
  validateNamespace labels
  .ok (.adelete ((authorizeStore caller (some labels)).getD []) key)

/-- `search_items`. -/
def searchItems (caller : Caller) (start : Option (List String)) (args : SearchArgs) :
    Except StoreError StoreOp := do
  match start with
  | none => .error (.missingField "namespace_prefix")
  | some labels =>
    validateNamespace labels
    .ok (.asearch ((authorizeStore caller (some labels)).getD []) args)

/-- `list_namespaces`. -/
def listNamespaces (caller : Caller) (start suffix : Option (List String))
    (maxDepth : Option Int) (limit offset : Int) : Except StoreError StoreOp := do
  let start := nonemptyLabels start
  let suffix := nonemptyLabels suffix
  validateNamespace (start.getD [])
  validateNamespace (suffix.getD [])
  .ok (.alistNamespaces (authorizeStore caller start) suffix maxDepth limit offset)

/-- The operation of a request. -/
def StoreRequest.route (caller : Caller) : StoreRequest → Except StoreError StoreOp
  | .put labels key value index ttl => putItem caller labels key value index ttl
  | .get labels key refreshTtl => getItem caller labels key refreshTtl
  | .delete labels key => deleteItem caller labels key
  | .search start filter limit offset query refreshTtl =>
    searchItems caller start ⟨filter, intOr 10 limit, intOr 0 offset, query, refreshTtl⟩
  | .listNamespaces start suffix maxDepth limit offset =>
    NextRole.listNamespaces caller start suffix maxDepth (limit.getD 100) (offset.getD 0)

/-! ### The request as the caller sees it -/

/-- The namespace that a request names. -/
def StoreRequest.labels : StoreRequest → List String
  | .put labels .. => labels
  | .get labels .. => nsLabels (labels.getD "").toList
  | .delete labels .. => labels.getD []
  | .search start .. => start.getD []
  | .listNamespaces start .. => start.getD []

/-- Whether a request is refused before its operation. -/
def StoreRequest.refused : StoreRequest → Bool
  | .put labels .. => labels.any badLabel
  | .get labels key _ =>
    (nsLabels (labels.getD "").toList).any badLabel || (key.filter (· ≠ "")).isNone
  | .delete labels _ => (labels.getD []).any badLabel
  | .search start .. => start.all fun labels => labels.any badLabel
  | .listNamespaces start suffix .. =>
    (start.getD []).any badLabel || (suffix.getD []).any badLabel

/-- The operation of a request under an identity. -/
def StoreRequest.opUnder (identity : String) (r : StoreRequest) : StoreOp :=
  let labels := identity :: belowIdentity identity r.labels
  match r with
  | .put _ key value index ttl => .aput labels key value index ttl
  | .get _ key refreshTtl =>
    .aget labels (key.getD "") (refreshTtl.map fun raw => raw.toLower = "true")
  | .delete _ key => .adelete labels key
  | .search _ filter limit offset query refreshTtl =>
    .asearch labels ⟨filter, intOr 10 limit, intOr 0 offset, query, refreshTtl⟩
  | .listNamespaces _ suffix maxDepth limit offset =>
    .alistNamespaces (some labels) (nonemptyLabels suffix) maxDepth (limit.getD 100)
      (offset.getD 0)

theorem validateNamespace_bind {labels : List String} {op : StoreOp}
    {k : Except StoreError StoreOp} :
    (validateNamespace labels >>= fun _ => k) = .ok op ↔ labels.any badLabel = false ∧ k = .ok op := by
  unfold validateNamespace
  cases labels.any badLabel <;> simp [bind, Except.bind]

@[simp] theorem getD_nonemptyLabels (labels : Option (List String)) :
    (nonemptyLabels labels).getD [] = labels.getD [] := by
  rcases labels with _ | _ | ⟨label, rest⟩ <;> rfl

/-- A request that is not refused runs its operation under the identity. -/
theorem StoreRequest.route_eq_ok {identity : String} {r : StoreRequest} {op : StoreOp} :
    r.route (some identity) = .ok op ↔ r.refused = false ∧ r.opUnder identity = op := by
  cases r with
  | put labels key value index ttl =>
    simp only [route, putItem, refused, opUnder, StoreRequest.labels, validateNamespace_bind,
      authorizeStore_some, Option.getD_some, Except.ok.injEq]
  | get labels key refreshTtl =>
    simp only [route, getItem, refused, opUnder, StoreRequest.labels, validateNamespace_bind,
      authorizeStore_some, Option.getD_some, Bool.or_eq_false_iff]
    cases h : key.filter (· ≠ "") with
    | none => simp
    | some k =>
      obtain ⟨rfl, -⟩ := Option.filter_eq_some_iff.mp h
      simp
  | delete labels key =>
    simp only [route, deleteItem, refused, opUnder, StoreRequest.labels, validateNamespace_bind,
      authorizeStore_some, Option.getD_some, Except.ok.injEq]
  | search start filter limit offset query refreshTtl =>
    cases start with
    | none => simp [route, searchItems, refused]
    | some labels =>
      simp only [route, searchItems, refused, opUnder, StoreRequest.labels,
        validateNamespace_bind, authorizeStore_some, Option.getD_some, Option.all_some,
        Except.ok.injEq]
  | listNamespaces start suffix maxDepth limit offset =>
    simp only [route, NextRole.listNamespaces, refused, opUnder, StoreRequest.labels,
      validateNamespace_bind, authorizeStore_some, getD_nonemptyLabels, Bool.or_eq_false_iff,
      Except.ok.injEq, and_assoc]

/-! ### What an operation changes -/

/-- A row that an operation neither writes nor deletes is in the table before and after,
unless a put replaces it. -/
theorem StoreOp.mem_apply_of_mem {lib : StoreLibrary} {op : StoreOp} {db : List StoreItem}
    {row : StoreItem} (hmem : row ∈ db) (hdel : row ∉ (op.touched lib db).deleted)
    (hput : ∀ w ∈ (op.touched lib db).written, ¬ (row.text = w.text ∧ row.key = w.key)) :
    row ∈ op.apply lib db := by
  cases op with
  | aput labels key value index ttl =>
    simp only [touched] at hput
    simp only [apply]
    split
    · next hacc =>
      rw [if_pos hacc] at hput
      have hne := hput _ (List.mem_singleton_self _)
      refine List.mem_cons_of_mem _ (List.mem_filter.mpr ⟨hmem, ?_⟩)
      simpa [StoreItem.isAt, ← not_and_or] using hne
    · exact hmem
  | adelete labels key =>
    simp only [touched, List.mem_filter, not_and] at hdel
    exact List.mem_filter.mpr ⟨hmem, by simpa using hdel hmem⟩
  | aget | asearch | alistNamespaces => exact hmem

/-- A row after an operation is written by it or was there before. -/
theorem StoreOp.mem_of_mem_apply {lib : StoreLibrary} {op : StoreOp} {db : List StoreItem}
    {row : StoreItem} (h : row ∈ op.apply lib db) :
    row ∈ (op.touched lib db).written ∨ row ∈ db := by
  cases op with
  | aput labels key value index ttl =>
    simp only [apply] at h
    simp only [touched]
    split at h
    · next hacc =>
      rw [if_pos hacc]
      rcases List.mem_cons.mp h with h | h
      · exact .inl (List.mem_singleton.mpr h)
      · exact .inr (List.mem_filter.mp h).1
    · exact .inr h
  | adelete labels key => exact .inr (List.mem_filter.mp h).1
  | aget | asearch | alistNamespaces => exact .inr h

end NextRole
