import Mathlib.Data.List.Basic
import Mathlib.Data.Rat.Init

/-!
# JSON values and the `jsonb` operators

A JSON value as a database stores it in a `jsonb` column, with the operators SQL
offers on such columns: `->`, `->>`, `||`, `@>`, `=` and `jsonb_set` with a path of
one key.  The order of an object's fields carries no meaning: every operator
reads an object through `List.lookup`, so the first field of a name is the one
that counts.

## Main definitions

* `Json` — the values.
* `Json.get?`, `Json.text?` — the operators `->` and `->>`.
* `Json.concat` — the operator `||`.
* `Json.set` — `jsonb_set(j, '{k}', v)`.
* `Json.contains` — the operator `@>`.
* `Json.same` — the operator `=`.
* `Json.Equal` — equality of dictionaries.
-/

/-- A JSON value. -/
inductive Json
  | null
  | bool (b : Bool)
  | num (q : Rat)
  | str (s : String)
  | arr (xs : List Json)
  | obj (kvs : List (String × Json))
  deriving Repr, Inhabited

namespace Json

/-! ### Decidable equality -/

mutual

/-- Structural equality of two values. -/
def beq : Json → Json → Bool
  | null, null => true
  | bool a, bool b => a == b
  | num p, num q => p == q
  | str s, str t => s == t
  | arr xs, arr ys => beqList xs ys
  | obj kvs, obj kvs' => beqFields kvs kvs'
  | _, _ => false

/-- Structural equality of two lists of values. -/
def beqList : List Json → List Json → Bool
  | [], [] => true
  | x :: xs, y :: ys => beq x y && beqList xs ys
  | _, _ => false

/-- Structural equality of two lists of fields. -/
def beqFields : List (String × Json) → List (String × Json) → Bool
  | [], [] => true
  | (k, x) :: kvs, (k', y) :: kvs' => k == k' && (beq x y && beqFields kvs kvs')
  | _, _ => false

end

mutual

theorem beq_iff : ∀ a b : Json, beq a b = true ↔ a = b
  | null, b => by cases b <;> simp [beq]
  | bool _, b => by cases b <;> simp [beq]
  | num _, b => by cases b <;> simp [beq]
  | str _, b => by cases b <;> simp [beq]
  | arr xs, b => by cases b <;> simp [beq, beqList_iff xs]
  | obj kvs, b => by cases b <;> simp [beq, beqFields_iff kvs]

theorem beqList_iff : ∀ xs ys : List Json, beqList xs ys = true ↔ xs = ys
  | [], ys => by cases ys <;> simp [beqList]
  | x :: xs, ys => by cases ys <;> simp [beqList, beq_iff x, beqList_iff xs]

theorem beqFields_iff : ∀ kvs kvs' : List (String × Json), beqFields kvs kvs' = true ↔ kvs = kvs'
  | [], kvs' => by cases kvs' <;> simp [beqFields]
  | (k, x) :: kvs, kvs' => by
    cases kvs' with
    | nil => simp [beqFields]
    | cons kv kvs' => simp [beqFields, beq_iff x, beqFields_iff kvs, Prod.ext_iff, and_assoc]

end

instance : DecidableEq Json := fun a b => decidable_of_iff _ (beq_iff a b)

/-! ### Fields -/

/-- The fields of `r` laid over those of `l`. -/
def merge (l r : List (String × Json)) : List (String × Json) :=
  l.filter (fun kv => (r.lookup kv.1).isNone) ++ r

theorem lookup_append (l r : List (String × Json)) (k : String) :
    (l ++ r).lookup k = (l.lookup k).or (r.lookup k) := by
  induction l with
  | nil => simp
  | cons kv l ih =>
    obtain ⟨k', v⟩ := kv
    rw [List.cons_append, List.lookup_cons, List.lookup_cons]
    cases k == k' <;> simp [ih]

theorem lookup_filter (f : String → Bool) (l : List (String × Json)) (k : String) :
    (l.filter (fun kv => f kv.1)).lookup k = if f k then l.lookup k else none := by
  induction l with
  | nil => simp
  | cons kv l ih =>
    obtain ⟨k', v⟩ := kv
    rw [List.filter_cons]
    by_cases hk : k = k'
    · subst hk
      cases hf : f k <;> simp [hf, ih]
    · have hne : (k == k') = false := by simpa using hk
      cases hf : f k' <;> simp [List.lookup_cons, hne, ih]

/-- A field of `merge l r` is the one of `r` where `r` has it, else the one of `l`. -/
theorem lookup_merge (l r : List (String × Json)) (k : String) :
    (merge l r).lookup k = (r.lookup k).or (l.lookup k) := by
  rw [merge, lookup_append, lookup_filter (fun k => (r.lookup k).isNone)]
  cases r.lookup k <;> simp

/-! ### The operators -/

/-- The operator `->` with a key: SQL `NULL` is `none`. -/
def get? : Json → String → Option Json
  | obj kvs, k => kvs.lookup k
  | _, _ => none

/-- A non-array counts as an array of one element. -/
def toArr : Json → List Json
  | arr xs => xs
  | j => [j]

/-- The operator `||`: objects are merged, anything else is concatenated as arrays. -/
def concat : Json → Json → Json
  | obj l, obj r => obj (merge l r)
  | l, r => arr (toArr l ++ toArr r)

/-- `jsonb_set(j, '{k}', v)` on an object. -/
def set (j : Json) (k : String) (v : Json) : Json :=
  match j with
  | obj kvs => obj (merge kvs [(k, v)])
  | j => j

mutual

/-- The text of a value, as a cast to `text` gives it. -/
def render : Json → String
  | null => "null"
  | bool b => toString b
  | num q => toString q
  | str s => s.quote
  | arr xs => "[" ++ renderList xs ++ "]"
  | obj kvs => "\x7b" ++ renderFields kvs ++ "\x7d"

/-- The elements of an array, separated by commas. -/
def renderList : List Json → String
  | [] => ""
  | [x] => render x
  | x :: xs => render x ++ ", " ++ renderList xs

/-- The fields of an object, separated by commas. -/
def renderFields : List (String × Json) → String
  | [] => ""
  | [(k, x)] => k.quote ++ ": " ++ render x
  | (k, x) :: kvs => k.quote ++ ": " ++ render x ++ ", " ++ renderFields kvs

end

/-- The operator `->>`: the text of a field, where a JSON `null` is SQL `NULL`. -/
def text? (j : Json) (k : String) : Option String :=
  match j.get? k with
  | none => none
  | some null => none
  | some (str s) => some s
  | some v => some v.render

mutual

/-- Containment below the top level: objects field by field, arrays element by
element, scalars by equality. -/
def deepContains : Json → Json → Bool
  | obj l, obj r => containsFields l r
  | arr l, arr r => containsElems l r
  | l, null => l == null
  | l, bool b => l == bool b
  | l, num q => l == num q
  | l, str s => l == str s
  | _, _ => false

/-- Every field of the right object is contained in the left one's. -/
def containsFields (l : List (String × Json)) : List (String × Json) → Bool
  | [] => true
  | (k, v) :: r =>
    (match l.lookup k with
      | none => false
      | some w => deepContains w v) && containsFields l r

/-- Every element of the right array is contained in one of the left array's. -/
def containsElems (l : List Json) : List Json → Bool
  | [] => true
  | v :: r => l.any (fun w => deepContains w v) && containsElems l r

end

mutual

/-- Equality of two `jsonb` values: the order of an object's fields carries no meaning. -/
def same : Json → Json → Bool
  | obj l, obj r => sameFields l r && l.all fun kv => (r.lookup kv.1).isSome
  | arr xs, arr ys => sameList xs ys
  | x, null => x == null
  | x, bool b => x == bool b
  | x, num q => x == num q
  | x, str s => x == str s
  | _, _ => false

/-- Every field of the right object has an equal one on the left. -/
def sameFields (l : List (String × Json)) : List (String × Json) → Bool
  | [] => true
  | (k, v) :: r =>
    (match l.lookup k with
      | none => false
      | some w => same w v) && sameFields l r

/-- Two arrays of one length with equal elements. -/
def sameList : List Json → List Json → Bool
  | [], [] => true
  | x :: xs, y :: ys => same x y && sameList xs ys
  | _, _ => false

end

/-- Whether a value is neither an array nor an object. -/
def isScalar : Json → Bool
  | arr _ => false
  | obj _ => false
  | _ => true

/-- The operator `@>`.  At the top level an array also contains a scalar that is
one of its elements. -/
def contains (l r : Json) : Bool :=
  match l with
  | arr xs => if r.isScalar then xs.any (· == r) else deepContains l r
  | l => deepContains l r

/-! ### Lookup through the operators -/

@[simp] theorem get?_obj (kvs : List (String × Json)) (k : String) :
    (obj kvs).get? k = kvs.lookup k := rfl

theorem get?_set (kvs : List (String × Json)) (k k' : String) (v : Json) :
    ((obj kvs).set k v).get? k' = if k' = k then some v else kvs.lookup k' := by
  by_cases h : k' = k
  · subst h
    simp [set, lookup_merge]
  · have hne : (k' == k) = false := by simpa using h
    simp [set, lookup_merge, List.lookup_cons, hne, h]

theorem get?_concat (l r : List (String × Json)) (k : String) :
    ((obj l).concat (obj r)).get? k = (r.lookup k).or (l.lookup k) := by
  rw [concat, get?_obj, lookup_merge]

theorem get?_concat_right (l : List (String × Json)) {j : Json} {k : String} {v : Json}
    (h : j.get? k = some v) : ((obj l).concat j).get? k = some v := by
  cases j with
  | obj r =>
    rw [get?_obj] at h
    rw [get?_concat, h, Option.some_or]
  | _ => cases h

theorem get?_concat_of_get? {i j : Json} {k k' : String} {v w : Json} (hi : i.get? k' = some w)
    (hj : j.get? k = some v) : (i.concat j).get? k = some v := by
  cases i with
  | obj l => exact get?_concat_right l hj
  | _ => cases hi

/-- `jsonb_set` keeps every other field. -/
theorem get?_set_of_ne (j : Json) {k k' : String} (v : Json) (h : k' ≠ k) :
    (j.set k v).get? k' = j.get? k' := by
  cases j with
  | obj kvs => rw [get?_set, if_neg h, get?_obj]
  | _ => rfl

theorem get?_concat_of_ne (kvs : List (String × Json)) {k k' : String} (v : Json) (h : k' ≠ k) :
    ((obj kvs).concat (obj [(k, v)])).get? k' = (obj kvs).get? k' :=
  get?_set_of_ne (obj kvs) v h

theorem contains_singleton (j : Json) (k : String) (v : Json) :
    j.contains (obj [(k, v)]) = true ↔ ∃ w, j.get? k = some w ∧ deepContains w v = true := by
  cases j with
  | obj kvs =>
    simp only [contains, deepContains, containsFields, Bool.and_true, get?_obj]
    cases kvs.lookup k <;> simp
  | _ => simp [contains, deepContains, isScalar, get?]

/-! ### Equality of dictionaries -/

/-- Equality of two values where the order of an object's fields carries no meaning. -/
inductive Equal : Json → Json → Prop
  | refl (j : Json) : Equal j j
  | arr {xs ys : List Json} : List.Forall₂ Equal xs ys → Equal (arr xs) (arr ys)
  | obj {l r : List (String × Json)} :
      (∀ k, Option.Rel Equal (l.lookup k) (r.lookup k)) → Equal (obj l) (obj r)

theorem rel_equal_refl : ∀ v : Option Json, Option.Rel Equal v v
  | none => .none
  | some j => .some (.refl j)

theorem equal_obj_iff {l r : List (String × Json)} :
    Equal (obj l) (obj r) ↔ ∀ k, Option.Rel Equal (l.lookup k) (r.lookup k) := by
  constructor
  · rintro (_ | _ | h)
    · exact fun k => rel_equal_refl _
    · exact h
  · exact .obj

theorem Equal.exists_obj {l : List (String × Json)} {j : Json} (h : Equal (Json.obj l) j) :
    ∃ r, j = Json.obj r := by
  cases h with
  | refl => exact ⟨l, rfl⟩
  | obj => exact ⟨_, rfl⟩

theorem Equal.eq_str {s : String} {j : Json} (h : Equal (Json.str s) j) : j = Json.str s := by
  cases h
  rfl

theorem Equal.eq_num {q : Rat} {j : Json} (h : Equal (Json.num q) j) : j = Json.num q := by
  cases h
  rfl

/-- Only texts are equal to texts. -/
theorem Equal.eq_strs {ts : List String} {j : Json} (h : Equal (Json.arr (ts.map Json.str)) j) :
    j = Json.arr (ts.map Json.str) := by
  cases h with
  | refl => rfl
  | arr h =>
    rename_i ys
    congr 1
    induction ts generalizing ys with
    | nil =>
      cases h
      rfl
    | cons t ts ih =>
      cases h with
      | cons hhead htail => rw [List.map_cons, ih htail, hhead.eq_str]

/-! ### Scalars -/

theorem deepContains_of_isScalar {x y : Json} (hy : y.isScalar = true) :
    deepContains x y = (x == y) := by
  cases y with
  | arr ys => cases hy
  | obj r => cases hy
  | _ => cases x <;> simp [deepContains]

end Json
