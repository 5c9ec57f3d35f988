import NextRole.Lib.ObjectGraph
import NextRole.Python

/-!
# The YAML of a resume

`_coerce_string_entry`, `_repair_string_entries` and `_normalize_resume_yaml` of
`career_agent/tools.py`.  The loader and the dumper of YAML are parameters.  What the loader builds
is a graph: an alias refers to the list of its anchor, and a repair in place is seen through both.

## Main definitions

* `Scalar`, `Document` — what a text is loaded as.
* `Yaml` — the loader and the dumper.
* `coerceStringEntry` — `_coerce_string_entry`.
* `repairStringEntries` — `_repair_string_entries`.
* `normalizeResumeYaml` — `_normalize_resume_yaml`.
-/

namespace NextRole

open ObjectGraph

/-! ### Documents -/

/-- A scalar of a document.  A float and a date, which may have a time, are the text that `str`
gives them. -/
inductive Scalar
  | null
  | bool (b : Bool)
  | int (n : ℤ)
  | float (text : String)
  | str (s : String)
  | date (text : String)
  | bytes (text : String)
  deriving Repr, DecidableEq

/-- The containers of a document. -/
abbrev DocumentHeap := Heap Scalar Scalar

/-- What a text is loaded as: a graph in which a dictionary has distinct keys.  `source a i` is the
part of the text of which item `i` of the list at `a` is built. -/
structure Document where
  heap : DocumentHeap
  root : Value Scalar
  source : ℕ → ℕ → String
  nodup : ∀ node ∈ heap, node.keys.Nodup

/-- What `yaml.safe_load` does with a text: it builds a document, raises a `YAMLError`, or raises
another error, as for a date that does not exist. -/
inductive Loaded
  | document (d : Document)
  | yamlError
  | raised

/-- The loader and the dumper: `yaml.safe_load`, and `yaml.safe_dump` that keeps the order of
keys. -/
structure Yaml where
  load : String → Loaded
  dump : DocumentHeap → Value Scalar → String

/-! ### Repairs -/

/-- The text that `str` gives a scalar other than a truth value. -/
def Scalar.text? : Scalar → Option String
  | .int n => some (toString n)
  | .float text => some text
  | .str s => some s
  | .date text => some text
  | _ => none

/-- `_coerce_string_entry`. -/
def coerceStringEntry (heap : DocumentHeap) (item : Value Scalar) : Option String :=
  match item with
  | .scalar (.bool _) => none
  | .scalar (.int n) => some (toString n)
  | .scalar (.float text) => some text
  | _ =>
    match dictAt heap item with
    | some [(.str key, .scalar .null)] => some (key ++ ":")
    | some [(.str key, .scalar value)] => value.text?.map fun text => key ++ ": " ++ text
    | _ => none

/-- `entries[i] = value`. -/
def setItem (heap : DocumentHeap) (a i : ℕ) (value : Value Scalar) : DocumentHeap :=
  match heap[a]? with
  | some (.list entries) => heap.set a (.list (entries.set i value))
  | _ => heap

/-- One pass of the loop of `_repair_string_entries`, on an item and its index. -/
def repairEntry (a : ℕ) (state : DocumentHeap × ℕ) (item : Value Scalar × ℕ) : DocumentHeap × ℕ :=
  match coerceStringEntry state.1 item.1 with
  | some coerced => (setItem state.1 a item.2 (.scalar (.str coerced)), state.2 + 1)
  | none => state

/-- `_repair_string_entries`: the items of a list are repaired one by one, in place. -/
def repairStringEntries (heap : DocumentHeap) (items : Value Scalar) : DocumentHeap × ℕ :=
  match items with
  | .scalar _ => (heap, 0)
  | .ref a => ((listAt heap items).getD []).zipIdx.foldl (repairEntry a) (heap, 0)

/-- The repair of an entry's highlights. -/
def repairHighlights (state : DocumentHeap × ℕ) (entry : Value Scalar) : DocumentHeap × ℕ :=
  match dictAt state.1 entry with
  | none => state
  | some fields =>
    let repaired := repairStringEntries state.1
      ((fields.lookup (.str "highlights")).getD (.scalar .null))
    (repaired.1, state.2 + repaired.2)

/-- The repair of a section, and then of the highlights of its entries. -/
def repairSection (state : DocumentHeap × ℕ) (content : Value Scalar) : DocumentHeap × ℕ :=
  let repaired := repairStringEntries state.1 content
  ((listAt repaired.1 content).getD []).foldl repairHighlights
    (repaired.1, state.2 + repaired.2)

/-- `tree["cv"]["sections"]`, of dictionaries alone. -/
def sectionsOf (heap : DocumentHeap) (tree : Value Scalar) :
    Option (List (Scalar × Value Scalar)) :=
  (dictAt heap tree).bind fun tree =>
    ((tree.lookup (.str "cv")).bind (dictAt heap)).bind fun cv =>
      (cv.lookup (.str "sections")).bind (dictAt heap)

/-- `_normalize_resume_yaml`; `none` raises. -/
def normalizeResumeYaml (yaml : Yaml) (body : String) : Option (String × ℕ) :=
  match yaml.load body with
  | .raised => none
  | .yamlError => some (body, 0)
  | .document tree =>
    match sectionsOf tree.heap tree.root with
    | none => some (body, 0)
    | some sections =>
      let repaired := (sections.map Prod.snd).foldl repairSection (tree.heap, 0)
      if repaired.2 = 0 then some (body, 0)
      else some (yaml.dump repaired.1 tree.root, repaired.2)

end NextRole
