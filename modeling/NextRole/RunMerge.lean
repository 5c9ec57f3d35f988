import NextRole.Api.RunConfig

/-!
# The configuration of an inserted run

The query of `Create` lays the configurations of the assistant, the thread and the request over
each other, once as a whole and once under `configurable`.  The operator `||` merges dictionaries
alone: where one of the three is another value the result is an array, which has no keys.

## Main definitions

* `isObj` — the values that `||` merges.
* `Run.configurable?` — a key of the configurable of a row.
* `mergeable` — the stored configurations are dictionaries.

## Main results

* `configurable?_insertRun` — what an inserted row has under a key of its configurable.
* `get?_config_insertRun` — what it has under a key of its configuration.
-/

namespace NextRole

open Json

/-- A dictionary. -/
def isObj (j : Json) : Bool := (asDict j).isSome

@[simp] theorem isObj_obj (kvs : List (String × Json)) : isObj (.obj kvs) = true := rfl

theorem isObj_iff {j : Json} : isObj j = true ↔ ∃ kvs, j = .obj kvs := by
  cases j <;> simp [isObj, asDict]

theorem get?_of_not_isObj {j : Json} (h : ¬ isObj j = true) (k : String) : j.get? k = none := by
  cases j with
  | obj kvs => exact absurd rfl h
  | _ => rfl

@[simp] theorem isObj_concat (i j : Json) : isObj (i.concat j) = (isObj i && isObj j) := by
  cases i <;> cases j <;> rfl

theorem get?_concat_of_isObj {i j : Json} (hi : isObj i = true) (hj : isObj j = true) (k : String) :
    (i.concat j).get? k = (j.get? k).or (i.get? k) := by
  obtain ⟨l, rfl⟩ := isObj_iff.mp hi
  obtain ⟨r, rfl⟩ := isObj_iff.mp hj
  exact get?_concat l r k

/-- The configuration of a row. -/
def Run.config? (run : Run) (k : String) : Option Json :=
  (run.kwargs.get? "config").bind fun config => config.get? k

/-- A key of the configurable of a row. -/
def Run.configurable? (run : Run) (k : String) : Option Json :=
  (run.config? "configurable").bind fun configurable => configurable.get? k

/-- The configurations that the database has for a run are dictionaries, as their configurables
are. -/
def mergeable (thread : Thread) (assistant : Assistant) : Bool :=
  isObj assistant.config && isObj thread.config && isObj (configurableOf assistant.config) &&
    isObj (configurableOf thread.config)

/-! ### An inserted row -/

/-- The configuration that the query merges before it sets the configurable. -/
def mergedConfig (p : CreateParams) (thread : Thread) (assistant : Assistant) : Json :=
  (assistant.config.concat thread.config).concat p.config

/-- The configurable that the query merges before it sets the keys of the run. -/
def mergedConfigurable (p : CreateParams) (thread : Thread) (assistant : Assistant) : Json :=
  ((configurableOf assistant.config).concat (configurableOf thread.config)).concat
    (configurableOf p.config)

/-- The configuration of an inserted row. -/
def rowConfig (p : CreateParams) (thread : Thread) (assistant : Assistant) : Json :=
  (mergedConfig p thread assistant).concat (.obj [
    ("configurable", (mergedConfigurable p thread assistant).concat
      (runConfigurable p thread assistant)),
    ("metadata", (assistant.metadata.concat thread.metadata).concat p.metadata)])

section Inserted

variable {p : CreateParams} {thread : Thread} {assistant : Assistant}

theorem get?_kwargs_insertRun (hkwargs : isObj p.kwargs = true) :
    (insertRun p thread assistant).kwargs.get? "config" = some (rowConfig p thread assistant) := by
  obtain ⟨kvs, hkvs⟩ := isObj_iff.mp hkwargs
  simp only [insertRun, hkvs]
  exact get?_concat_right kvs rfl

theorem get?_config_insertRun (hkwargs : isObj p.kwargs = true) {k : String}
    (hconfigurable : k ≠ "configurable") (hmetadata : k ≠ "metadata") :
    (insertRun p thread assistant).config? k =
      (mergedConfig p thread assistant).get? k := by
  rw [Run.config?, get?_kwargs_insertRun hkwargs, Option.bind_some, rowConfig]
  by_cases hobj : isObj (mergedConfig p thread assistant) = true
  · have h₁ : (k == "configurable") = false := by simpa using hconfigurable
    have h₂ : (k == "metadata") = false := by simpa using hmetadata
    rw [get?_concat_of_isObj hobj rfl]
    simp [get?, List.lookup_cons, h₁, h₂]
  · rw [get?_of_not_isObj hobj, get?_of_not_isObj (by simpa using hobj)]

/-- What a row has under a key of its configurable: nothing where a value is no dictionary, else
what the query sets, the request, the thread and the assistant in this order. -/
theorem configurable?_insertRun (hkwargs : isObj p.kwargs = true) (hconfig : isObj p.config = true)
    (hconfigurable : isObj (configurableOf p.config) = true) (k : String) :
    (insertRun p thread assistant).configurable? k =
      if mergeable thread assistant then
        ((runConfigurable p thread assistant).get? k).or
          (((configurableOf p.config).get? k).or
            (((configurableOf thread.config).get? k).or
              ((configurableOf assistant.config).get? k)))
      else none := by
  rw [Run.configurable?, Run.config?, get?_kwargs_insertRun hkwargs, Option.bind_some, rowConfig]
  by_cases hobj : isObj (mergedConfig p thread assistant) = true
  · rw [get?_concat_of_isObj hobj rfl]
    have hstored := hobj
    simp only [mergedConfig, isObj_concat, hconfig, Bool.and_true, Bool.and_eq_true] at hstored
    change ((mergedConfigurable p thread assistant).concat
      (runConfigurable p thread assistant)).get? k = _
    by_cases hconf : isObj (mergedConfigurable p thread assistant) = true
    · have hboth := hconf
      simp only [mergedConfigurable, isObj_concat, hconfigurable, Bool.and_true,
        Bool.and_eq_true] at hboth
      rw [get?_concat_of_isObj hconf rfl, mergedConfigurable,
        get?_concat_of_isObj (by simp [hboth]) hconfigurable, get?_concat_of_isObj hboth.1 hboth.2,
        if_pos (by simp [mergeable, hstored, hboth])]
    · have hnot : ¬ mergeable thread assistant = true := by
        intro h
        simp only [mergeable, Bool.and_eq_true] at h
        simp [mergedConfigurable, hconfigurable, h] at hconf
      rw [if_neg hnot, get?_of_not_isObj ]
      rw [isObj_concat, Bool.and_eq_true]
      exact fun h => hconf h.1
  · have hnot : ¬ mergeable thread assistant = true := by
      intro h
      simp only [mergeable, Bool.and_eq_true] at h
      simp [mergedConfig, hconfig, h] at hobj
    rw [if_neg hnot, get?_of_not_isObj (by simpa using hobj), Option.bind_none]

end Inserted

/-! ### The call of a payload -/

theorem CreateCall.isObj_kwargs (call : CreateCall) : isObj call.params.kwargs = true := rfl

section Payload

variable {host : RunHost} {context : RequestContext} {threadId : Option Uuid} {temporary : Bool}
  {payload : List (String × Json)} {call : CreateCall}

theorem configurableOf_createCall
    (h : createCall host context threadId temporary payload = some call) :
    ∃ given checkpointId configurable, givenConfig payload = some given ∧
      createConfigurable context payload given checkpointId = some configurable ∧
        configurableOf call.params.config = .obj configurable := by
  obtain ⟨given, checkpointId, configurable, hgiven, hconf, hconfig⟩ := createCall_config h
  refine ⟨given, checkpointId, configurable, hgiven, hconf, ?_⟩
  rw [hconfig, configurableOf, get?_obj, lookup_merge]
  rfl

theorem createCall_configurable
    (h : createCall host context threadId temporary payload = some call) :
    isObj call.params.config = true ∧ isObj (configurableOf call.params.config) = true := by
  obtain ⟨_, _, configurable, -, -, hconf⟩ := configurableOf_createCall h
  obtain ⟨given, _, sent, -, -, hconfig⟩ := createCall_config h
  rw [hconf, hconfig]
  exact ⟨rfl, rfl⟩

end Payload

end NextRole
