import NextRole.Api.Runs

/-!
# Authorization filters on their way to the services

`_filters_to_proto` of `api/grpc/ops/__init__.py`: the dictionary that a handler of
the deployment returns becomes the list of filters that is put on a request.

## Main definitions

* `filtersToProto` — the translation of a dictionary.
* `filterToProto`, `branchesToProto` — the translation of one entry and of the
  branches of an operator.
-/

namespace NextRole

/-- `_MAX_AUTH_FILTER_DEPTH`. -/
def maxAuthFilterDepth : ℕ := 2

/-- The ways in which the translation fails; `attribute` is the `AttributeError` of a
branch that is not a dictionary. -/
inductive FilterError
  | http (e : HTTPException)
  | attribute
  deriving Repr, DecidableEq

/-- The answer to operators that are nested too deeply. -/
def tooMuchNesting : FilterError :=
  .http ⟨500, "Your auth handler returned a filter with too much nesting. Maximum nesting depth is " ++
    toString maxAuthFilterDepth ++ ". Check the filter returned by your auth handler."⟩

/-- The answer to an operator without a list of two branches. -/
def invalidOperator (operator : String) : FilterError :=
  .http ⟨500, "Your auth handler returned a filter with an invalid " ++ operator ++ " operator. The " ++
    operator ++ " operator must be a list of at least 2 filter objects. Check the filter returned by your auth handler."⟩

/-- The answer to a value that is a dictionary of more or fewer than one key. -/
def invalidValue : FilterError :=
  .http ⟨500, "Your auth handler returned a filter with an invalid value. The value must be a dict with one key. Check the filter returned by your auth handler."⟩

/-- The answer to a key other than `$eq` and `$contains`. -/
def invalidKey : FilterError :=
  .http ⟨500, "Your auth handler returned a filter with an invalid key. The key must be one of $eq or $contains. Check the filter returned by your auth handler."⟩

/-- The operands of `$contains`: the items of a list, or the one value. -/
def containsItems : Json → List Json
  | .arr items => items
  | value => [value]

/-- The filters of the branches of an `$or`: an empty branch is left out, several
filters of one branch are a conjunction. -/
def orBranches : List (List AuthFilter) → List AuthFilter
  | [] => []
  | [] :: branches => orBranches branches
  | [f] :: branches => f :: orBranches branches
  | fs :: branches => .andFilter fs :: orBranches branches

mutual

/-- `_filters_to_proto` at a nesting depth. -/
def filtersToProto (depth : ℕ) : List (String × Json) → Except FilterError (List AuthFilter)
  | [] => .ok []
  | (key, value) :: rest =>
    (filterToProto depth key value).bind fun fs =>
      (filtersToProto depth rest).bind fun gs => .ok (fs ++ gs)

/-- One entry of the dictionary. -/
def filterToProto (depth : ℕ) (key : String) (value : Json) : Except FilterError (List AuthFilter) :=
  if key = "$or" then
    if maxAuthFilterDepth ≤ depth then .error tooMuchNesting
    else match value with
      | .arr (x :: y :: branches) =>
        (branchesToProto (depth + 1) (x :: y :: branches)).bind fun fs =>
          .ok [.orFilter (orBranches fs)]
      | _ => .error (invalidOperator "$or")
  else if key = "$and" then
    if maxAuthFilterDepth ≤ depth then .error tooMuchNesting
    else match value with
      | .arr (x :: y :: branches) =>
        (branchesToProto (depth + 1) (x :: y :: branches)).bind fun fs => .ok fs.flatten
      | _ => .error (invalidOperator "$and")
  else match value with
    | .obj [(operator, operand)] =>
      if operator = "$eq" then .ok [.eq key operand]
      else if operator = "$contains" then .ok [.contains key (containsItems operand)]
      else .error invalidKey
    | .obj _ => .error invalidValue
    | value => .ok [.eq key value]

/-- The branches of an operator, one after the other. -/
def branchesToProto (depth : ℕ) : List Json → Except FilterError (List (List AuthFilter))
  | [] => .ok []
  | branch :: branches =>
    (branchToProto depth branch).bind fun fs =>
      (branchesToProto depth branches).bind fun gs => .ok (fs :: gs)

/-- One branch: nothing where it is empty. -/
def branchToProto (depth : ℕ) : Json → Except FilterError (List AuthFilter)
  | .obj kvs => filtersToProto depth kvs
  | branch => if truthy (some branch) then .error .attribute else .ok []

end

end NextRole
