import NextRole.Filters

/-!
# Who calls

The handlers of `agents/auth.py`: the metadata of what a caller creates is stamped with
the caller's identity, and what the caller reaches is filtered by it; the namespaces of
the store are put under it.  Without authentication there is none of this.

## Main definitions

* `Caller`, `authFilters`, `stampOwner`, `authorizeStore`.

## Main results

* `admits_stampOwner` — a caller reaches what carries the caller's stamp.
-/

namespace NextRole

/-- The identity of a caller, if the deployment authenticates. -/
abbrev Caller := Option String

/-- The filters that the handlers return for a caller. -/
def authFilters : Caller → List AuthFilter
  | none => []
  | some identity => ownerFilter identity

/-- Whether some filters are those of a caller. -/
def isAuthFilters : Caller → List AuthFilter → Bool
  | none, [] => true
  | some identity, [.eq key (.str owner)] => key = "owner" && owner = identity
  | _, _ => false

theorem isAuthFilters_iff {caller : Caller} {filters : List AuthFilter} :
    isAuthFilters caller filters = true ↔ filters = authFilters caller := by
  constructor
  · intro h
    unfold isAuthFilters at h
    split at h
    · rfl
    · simp only [Bool.and_eq_true, decide_eq_true_eq] at h
      rw [h.1, h.2]
      rfl
    · cases h
  · rintro rfl
    cases caller <;> simp [authFilters, ownerFilter, isAuthFilters]

instance (filters : List AuthFilter) (caller : Caller) :
    Decidable (filters = authFilters caller) := decidable_of_iff _ isAuthFilters_iff

/-- `_stamp_owner`. -/
def stampOwner (caller : Caller) (metadata : Json) : Json :=
  match caller with
  | none => metadata
  | some identity => metadata.set "owner" (.str identity)

theorem get?_stampOwner (identity : String) (kvs : List (String × Json)) :
    (stampOwner (some identity) (.obj kvs)).get? "owner" = some (.str identity) := by
  rw [stampOwner, Json.get?_set, if_pos rfl]

theorem admits_owner_of_get? {identity : String} {column : Json}
    (h : column.get? "owner" = some (.str identity)) :
    admits (ownerFilter identity) column = true := by
  refine (admits_owner identity column).mpr ⟨_, h, ?_⟩
  simp [Json.deepContains]

/-- A value that two owner filters admit has one owner. -/
theorem owner_unique {identity identity' : String} {column : Json}
    (h : admits (ownerFilter identity) column = true)
    (h' : admits (ownerFilter identity') column = true) : identity = identity' := by
  obtain ⟨w, hw, hc⟩ := (admits_owner identity column).mp h
  obtain ⟨w', hw', hc'⟩ := (admits_owner identity' column).mp h'
  rw [hw] at hw'
  obtain rfl := Option.some.inj hw'
  cases w with
  | str s =>
    have hid : s = identity := by simpa [Json.deepContains] using hc
    have hid' : s = identity' := by simpa [Json.deepContains] using hc'
    exact hid.symm.trans hid'
  | _ => simp [Json.deepContains] at hc

/-- `authorize_store`: the namespace of a request, under the caller's identity. -/
def authorizeStore (caller : Caller) (labels : Option (List String)) : Option (List String) :=
  match caller with
  | none => labels
  | some identity =>
    match labels.getD [] with
    | [] => some [identity]
    | label :: rest => if label = identity then labels else some (identity :: label :: rest)

/-- The labels that a request of a caller leaves below the identity. -/
def belowIdentity (identity : String) : List String → List String
  | [] => []
  | label :: rest => if label = identity then rest else label :: rest

theorem authorizeStore_some (identity : String) (labels : Option (List String)) :
    authorizeStore (some identity) labels =
      some (identity :: belowIdentity identity (labels.getD [])) := by
  cases labels with
  | none => rfl
  | some labels =>
    cases labels with
    | nil => rfl
    | cons label rest =>
      simp only [authorizeStore, belowIdentity, Option.getD_some]
      split
      · next h => rw [h]
      · rfl

end NextRole
