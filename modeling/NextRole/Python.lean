import Mathlib.Data.List.DropRight
import NextRole.Lib.Json

/-!
# Python's reading of JSON values

What the code makes of a value that it has parsed: whether it counts as true, what `get`,
`len`, `str` and a loop give for it, and whether a field of a message takes it.

## Main definitions

* `truthy`, `truthyValue`, `orElse` — `bool(x)`, `if y := x`, `x or default`.
* `dictGet`, `pyLen`, `iterate`, `itemsOr` — `x.get(k)`, `len(x)`, `for y in x`,
  `(x or {}).items()`.
* `Str` — what `str` may be.
* `isSpace`, `strip` — white space.
* `asStr`, `asInt32`, `asDict`, `converted` — values for the fields of a message.
-/

namespace NextRole

/-- Whether a flag of a configuration is set: a missing, null, false or empty value is not. -/
def truthy : Option Json → Bool
  | none | some .null | some (.bool false) | some (.str "") | some (.arr []) | some (.obj []) => false
  | some (.num q) => q ≠ 0
  | some _ => true

/-- A value that is not null. -/
def nonNull : Option Json → Option Json
  | some .null => none
  | v => v

/-- `x.get(k)`, of a dictionary alone. -/
def dictGet (x : Json) (k : String) : Option Json :=
  match x with
  | .obj kvs => some ((kvs.lookup k).getD .null)
  | _ => none

/-- `x or default`. -/
def orElse (x default : Json) : Json := if truthy (some x) then x else default

/-- `len(x)`. -/
def pyLen : Json → Option ℕ
  | .arr xs => some xs.length
  | .obj kvs => some kvs.length
  | .str s => some s.length
  | _ => none

/-- What a loop over a value goes through. -/
def iterate : Json → Option (List Json)
  | .arr xs => some xs
  | .obj kvs => some (kvs.map fun kv => .str kv.1)
  | .str s => some (s.toList.map fun c => .str (String.singleton c))
  | _ => none

/-- What `str` makes of a value: a text as it is, and never an empty one of another value. -/
structure Str where
  text : Json → String
  text_str : ∀ s, text (.str s) = s
  text_ne : ∀ v, v ≠ .str "" → text v ≠ ""

/-- The value that `if x := v` binds. -/
def truthyValue (v : Option Json) : Option Json := v.filter fun x => truthy (some x)

/-- A value assigned to a field of type `string`. -/
def asStr : Json → Option String
  | .str s => some s
  | _ => none

/-- Whether a number is an `int32`. -/
def isInt32 (q : Rat) : Bool := q.den = 1 && -2147483648 ≤ q.num && q.num ≤ 2147483647

/-- A value assigned to a field of type `int32`; a `bool` is an `int`. -/
def asInt32 : Json → Option Int
  | .num q => if isInt32 q then some q.num else none
  | .bool b => some (if b then 1 else 0)
  | _ => none

/-- A number read of a field of type `int32`. -/
def intJson (n : Int) : Json := .num n

/-- A value with `items`. -/
def asDict : Json → Option (List (String × Json))
  | .obj kvs => some kvs
  | _ => none

/-- `(v or {}).items()`. -/
def itemsOr (v : Option Json) : Option (List (String × Json)) :=
  match truthyValue v with
  | none => some []
  | some v => asDict v

/-- A conversion of a value that may be missing. -/
def converted {α : Type} (f : Json → Option α) : Option Json → Option (Option α)
  | none => some none
  | some v => (f v).map some

/-- The conversion of a value that may be missing to a list that is empty then. -/
def convertedList {α : Type} (f : Json → Option (List α)) (v : Option Json) : Option (List α) :=
  (converted f v).map fun xs => xs.getD []

/-- The fields of a value that is a dictionary. -/
def fieldsOf : Option Json → List (String × Json)
  | some (.obj kvs) => kvs
  | _ => []

theorem converted_eq_some {α : Type} {f : Json → Option α} {v : Option Json} {r : Option α} :
    converted f v = some r ↔
      v = none ∧ r = none ∨ ∃ x a, v = some x ∧ f x = some a ∧ r = some a := by
  cases v with
  | none => simp [converted, eq_comm]
  | some x => simp [converted, eq_comm]

theorem truthyValue_eq_some {v : Option Json} {x : Json} :
    truthyValue v = some x ↔ v = some x ∧ truthy (some x) = true :=
  Option.filter_eq_some_iff

theorem truthy_obj (l : List (String × Json)) : truthy (some (.obj l)) = !l.isEmpty := by
  cases l <;> rfl

theorem asDict_eq_some {j : Json} {kvs : List (String × Json)} :
    asDict j = some kvs ↔ j = .obj kvs := by
  cases j <;> simp [asDict]

theorem lookup_fieldsOf (v : Option Json) (k : String) :
    (fieldsOf v).lookup k = v.bind fun j => j.get? k := by
  match v with
  | some (.obj kvs) => rfl
  | none | some .null | some (.bool _) | some (.num _) | some (.str _) | some (.arr _) => rfl

theorem fieldsOf_of_itemsOr {v : Option Json} {kvs : List (String × Json)}
    (h : itemsOr v = some kvs) : kvs = fieldsOf v := by
  unfold itemsOr at h
  split at h
  · next hnone =>
    obtain rfl : kvs = [] := (Option.some.inj h).symm
    match v with
    | some (.obj l) =>
      have hempty : ¬ truthy (some (.obj l)) = true := by
        intro htrue
        rw [truthyValue_eq_some.mpr ⟨rfl, htrue⟩] at hnone
        cases hnone
      cases l with
      | nil => rfl
      | cons kv l => exact absurd rfl hempty
    | none | some .null | some (.bool _) | some (.num _) | some (.str _) | some (.arr _) => rfl
  · next x hx =>
    obtain ⟨rfl, -⟩ := truthyValue_eq_some.mp hx
    cases x with
    | obj l => exact (Option.some.inj h).symm
    | _ => cases h

/-! ### Texts -/

/-- `str.isspace` of one character. -/
def isSpace (c : Char) : Bool :=
  c.toNat ∈ [0x9, 0xA, 0xB, 0xC, 0xD, 0x1C, 0x1D, 0x1E, 0x1F, 0x20, 0x85, 0xA0, 0x1680, 0x2028,
    0x2029, 0x202F, 0x205F, 0x3000] || (0x2000 ≤ c.toNat && c.toNat ≤ 0x200A)

/-- `str.strip`. -/
def strip (s : String) : String :=
  String.ofList ((s.toList.rdropWhile isSpace).dropWhile isSpace)

end NextRole
