import Mathlib.Data.List.Basic

/-!
# Objects that are compared by identity

An object has a value and an identity: the number under which it was made.  Of objects that were
made, those with one identity have one value, so that a cache which gives an old object in the
place of a new one with the same parts changes no value.

## Main definitions

* `Obj` — an object.
* `Obj.Made` — it is one of those made so far, which are given by their values in order.
* `Obj.make`, `Obj.makeAll` — new objects.
* `Obj.keep` — the old object, if it has the parts, or a new one.

## Main results

* `Obj.eq_of_same`, `Obj.eq_of_sameParts` — objects with one identity are equal.
* `Obj.value_keep` — **keeping an old object changes no value**.
-/

/-- An object. -/
structure Obj (α : Type*) where
  identity : ℕ
  value : α
  deriving DecidableEq

namespace Obj

variable {α : Type*} {made made' : List α} {o o' : Obj α} {os os' : List (Obj α)}

/-- The object is one of those made so far. -/
def Made (made : List α) (o : Obj α) : Prop := made[o.identity]? = some o.value

/-- A new object, and the objects made by then. -/
def make (made : List α) (a : α) : Obj α × List α := (⟨made.length, a⟩, made ++ [a])

/-- New objects for the values of a list. -/
def makeAll : List α → List α → List (Obj α) × List α
  | made, [] => ([], made)
  | made, a :: l =>
    let first := make made a
    let rest := makeAll first.2 l
    (first.1 :: rest.1, rest.2)

/-- `o === o'`. -/
def same (o o' : Obj α) : Bool := o.identity = o'.identity

/-- The lists have the same objects at their places. -/
def sameParts : List (Obj α) → List (Obj α) → Bool
  | [], [] => true
  | o :: os, o' :: os' => o.same o' && sameParts os os'
  | _, _ => false

/-- The cached list, if it has the parts, or a new one of them. -/
def keep (cached : Option (Obj (List (Obj α)))) (made : List (List (Obj α)))
    (parts : List (Obj α)) : Obj (List (Obj α)) × List (List (Obj α)) :=
  match cached with
  | some list => if sameParts list.value parts then (list, made) else make made parts
  | none => make made parts

/-! ### Making -/

theorem Made.mono (h : o.Made made) (hmade : made <+: made') : o.Made made' := by
  obtain ⟨more, rfl⟩ := hmade
  have hlt : o.identity < made.length := (List.getElem?_eq_some_iff.mp h).1
  unfold Made
  rw [List.getElem?_append_left hlt]
  exact h

theorem made_make (made : List α) (a : α) : (make made a).1.Made (make made a).2 :=
  List.getElem?_concat_length

theorem extends_make (made : List α) (a : α) : made <+: (make made a).2 :=
  List.prefix_append _ _

theorem extends_makeAll (made l : List α) : made <+: (makeAll made l).2 := by
  induction l generalizing made with
  | nil => exact List.prefix_refl made
  | cons a l ih => exact (extends_make made a).trans (ih _)

theorem made_of_mem_makeAll {l : List α} (h : o ∈ (makeAll made l).1) :
    o.Made (makeAll made l).2 := by
  induction l generalizing made with
  | nil => cases h
  | cons a l ih =>
    rcases List.mem_cons.mp h with rfl | h
    · exact (made_make made a).mono (extends_makeAll _ l)
    · exact ih h

@[simp] theorem map_value_makeAll (made l : List α) : (makeAll made l).1.map value = l := by
  induction l generalizing made with
  | nil => rfl
  | cons a l ih => exact congrArg (a :: ·) (ih _)

/-! ### Comparing -/

theorem eq_of_same (h : o.Made made) (h' : o'.Made made) (hsame : o.same o' = true) : o = o' := by
  have hid : o.identity = o'.identity := of_decide_eq_true hsame
  have hvalue : some o.value = some o'.value := by
    rw [← h, ← h', hid]
  cases o
  cases o'
  cases hid
  cases hvalue
  rfl

theorem eq_of_sameParts (h : ∀ o ∈ os, o.Made made) (h' : ∀ o ∈ os', o.Made made)
    (hsame : sameParts os os' = true) : os = os' := by
  induction os generalizing os' with
  | nil =>
    cases os' with
    | nil => rfl
    | cons o' os' => cases hsame
  | cons o os ih =>
    cases os' with
    | nil => cases hsame
    | cons o' os' =>
      rw [sameParts, Bool.and_eq_true] at hsame
      rw [List.forall_mem_cons] at h h'
      rw [eq_of_same h.1 h'.1 hsame.1, ih h.2 h'.2 hsame.2]

/-! ### Keeping -/

variable {cached : Option (Obj (List (Obj α)))} {lists : List (List (Obj α))}

theorem value_keep (h : ∀ list ∈ cached, ∀ o ∈ list.value, o.Made made)
    (hos : ∀ o ∈ os, o.Made made) (lists : List (List (Obj α))) :
    (keep cached lists os).1.value = os := by
  unfold keep
  split
  · next list =>
    split
    · next hsame => exact eq_of_sameParts (h list rfl) hos hsame
    · rfl
  · rfl

theorem extends_keep (cached : Option (Obj (List (Obj α)))) (lists : List (List (Obj α)))
    (os : List (Obj α)) : lists <+: (keep cached lists os).2 := by
  unfold keep
  split
  · split
    · exact List.prefix_refl lists
    · exact extends_make lists os
  · exact extends_make lists os

theorem made_keep (h : ∀ list ∈ cached, list.Made lists) (os : List (Obj α)) :
    (keep cached lists os).1.Made (keep cached lists os).2 := by
  unfold keep
  split
  · next list =>
    split
    · exact h list rfl
    · exact made_make lists os
  · exact made_make lists os

end Obj
