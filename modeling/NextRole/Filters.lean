import NextRole.Schema

/-!
# Authorization filters as SQL predicates

The translation of `core_server/_filters.py`: a request carries a list of
ownership filters, which the services compile to one predicate over a `jsonb`
metadata column.  An empty predicate (`""` in the source, `none` here) adds no
condition to a query.

## Main definitions

* `AuthFilter` — the filters of a request.
* `predicate`, `filtersClause` — their compilation.
* `admits` — whether a metadata value passes the filters of a request.
* `threadOwnerClause` — ownership of a run, through its thread.

## Main results

* `admits_owner` — the filter that the deployment's handlers return compares the
  `owner` field.
* `admits_set` — setting a field that no filter names does not change whether the
  owner filter admits.
-/

namespace NextRole

/-- A filter of a request; the values are the parsed `match` texts.  `unset` is
the message with no alternative chosen. -/
inductive AuthFilter
  | eq (key : String) (value : Json)
  | contains (key : String) (values : List Json)
  | andFilter (filters : List AuthFilter)
  | orFilter (filters : List AuthFilter)
  | unset
  deriving Repr, Inhabited

/-- A predicate over a `jsonb` column: containment of a value, and conjunctions
and disjunctions of predicates. -/
inductive Predicate
  | contains (value : Json)
  | all (preds : List Predicate)
  | any (preds : List Predicate)
  deriving Repr, Inhabited

/-- `_join`: nothing for no predicate, a single one unchanged. -/
def join (combine : List Predicate → Predicate) : List Predicate → Option Predicate
  | [] => none
  | [p] => some p
  | ps => some (combine ps)

mutual

/-- `_predicate`. -/
def predicate : AuthFilter → Option Predicate
  | .eq key value => some (.contains (.obj [(key, value)]))
  | .contains key values =>
    join .any (values.map fun value => .contains (.obj [(key, .arr [value])]))
  | .andFilter filters => join .all (predicates filters)
  | .orFilter filters => join .any (predicates filters)
  | .unset => none

/-- The predicates of the filters that have one. -/
def predicates : List AuthFilter → List Predicate
  | [] => []
  | f :: fs =>
    match predicate f with
    | none => predicates fs
    | some p => p :: predicates fs

end

/-- `filters_clause`: the conjunction of the filters, if there is anything to enforce. -/
def filtersClause (filters : List AuthFilter) : Option Predicate :=
  match predicates filters with
  | [] => none
  | ps => some (.all ps)

mutual

/-- Whether a column satisfies a predicate. -/
def Predicate.holds (column : Json) : Predicate → Bool
  | .contains value => column.contains value
  | .all ps => holdsAll column ps
  | .any ps => holdsAny column ps

/-- Whether a column satisfies every predicate of a list. -/
def holdsAll (column : Json) : List Predicate → Bool
  | [] => true
  | p :: ps => p.holds column && holdsAll column ps

/-- Whether a column satisfies some predicate of a list. -/
def holdsAny (column : Json) : List Predicate → Bool
  | [] => false
  | p :: ps => p.holds column || holdsAny column ps

end

/-- Whether the condition that the filters add to a query holds of a column. -/
def admits (filters : List AuthFilter) (column : Json) : Bool :=
  match filtersClause filters with
  | none => true
  | some p => p.holds column

/-- `thread_owner_clause`: ownership of the rows of a thread, an `EXISTS` over
the thread table, when there is anything to enforce. -/
def threadOwnerClause (filters : List AuthFilter) (thread : Table Thread) (threadId : Uuid) :
    Bool :=
  match filtersClause filters with
  | none => true
  | some p => (thread.select fun t => t.threadId = threadId && p.holds t.metadata).length ≠ 0

@[simp] theorem admits_nil (column : Json) : admits [] column = true := rfl

/-! ### The owner filter -/

/-- The filter `{"owner": identity}` that the handlers of `agents/auth.py` return. -/
def ownerFilter (identity : String) : List AuthFilter := [.eq "owner" (.str identity)]

theorem admits_owner (identity : String) (column : Json) :
    admits (ownerFilter identity) column = true ↔
      ∃ w, column.get? "owner" = some w ∧ w.deepContains (.str identity) = true := by
  rw [← Json.contains_singleton]
  simp [admits, ownerFilter, filtersClause, predicates, predicate, Predicate.holds, holdsAll]

/-- Setting a field other than `owner` does not change who owns a row. -/
theorem admits_owner_set (identity : String) (column : Json) {k : String} (v : Json)
    (hk : k ≠ "owner") :
    admits (ownerFilter identity) (column.set k v) = admits (ownerFilter identity) column := by
  rw [Bool.eq_iff_iff, admits_owner, admits_owner, Json.get?_set_of_ne column v (Ne.symm hk)]

/-- A run's owner clause looks at the metadata of its own thread. -/
theorem threadOwnerClause_eq_true {filters : List AuthFilter} {thread : Table Thread}
    {t : Thread} (ht : t ∈ thread) :
    threadOwnerClause filters thread t.threadId = admits filters t.metadata := by
  unfold threadOwnerClause admits
  cases filtersClause filters with
  | none => rfl
  | some p =>
    rw [Bool.eq_iff_iff, decide_eq_true_iff, ← Nat.pos_iff_ne_zero, List.length_pos_iff_exists_mem]
    constructor
    · rintro ⟨u, hu⟩
      simp only [Table.mem_select, Bool.and_eq_true, decide_eq_true_eq] at hu
      obtain ⟨hu, hid, hp⟩ := hu
      rwa [← Table.eq_of_key hu ht hid]
    · intro hp
      exact ⟨t, by simp [ht, hp]⟩

end NextRole
