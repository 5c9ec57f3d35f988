import Mathlib.Data.List.Infix
import Mathlib.Logic.Function.Basic

/-!
# Texts with holes

A text with holes is filled by what stands for each hole.  Where what stands for a hole occurs in
the filled text only as the hole, replacing its occurrences from left to right is the same as
filling the hole differently.

## Main definitions

* `List.replaceAll` — the occurrences of a list in another are replaced, from left to right.
* `Holes.Part`, `Holes.fill` — a text with holes, and the text when they are filled.
* `Holes.onlyAt` — what stands for a hole occurs nowhere else.

## Main results

* `List.replaceAll_append` — the first occurrence is replaced.
* `Holes.replaceAll_fill` — **replacing what stands for a hole fills it differently**.
-/

namespace List

variable {α : Type*} [DecidableEq α] {o r : List α}

/-- Occurrences of `o` are replaced by `r` from left to right, after elements that are skipped. -/
def replaceAll (o r : List α) : ℕ → List α → List α
  | _, [] => []
  | n + 1, _ :: l => replaceAll o r n l
  | 0, a :: l =>
    if o.isPrefixOf (a :: l) then r ++ replaceAll o r (o.length - 1) l
    else a :: replaceAll o r 0 l

theorem replaceAll_skip (o r x l : List α) :
    replaceAll o r x.length (x ++ l) = replaceAll o r 0 l := by
  induction x with
  | nil => rfl
  | cons a x ih => rw [length_cons, cons_append, replaceAll, ih]

theorem replaceAll_of_not_isInfix {l : List α} (h : ¬ o <:+: l) : replaceAll o r 0 l = l := by
  induction l with
  | nil => rfl
  | cons a l ih =>
    have hstart : ¬ o.isPrefixOf (a :: l) = true := fun hp =>
      h (List.isPrefixOf_iff_prefix.mp hp).isInfix
    have hrest : ¬ o <:+: l := fun hl => h (hl.trans (suffix_cons a l).isInfix)
    rw [replaceAll, if_neg hstart, ih hrest]

/-- An occurrence is replaced if none starts before it. -/
theorem replaceAll_append (hne : o ≠ []) {x : List α} (h : ¬ o <:+: x ++ o.dropLast)
    (l : List α) : replaceAll o r 0 (x ++ (o ++ l)) = x ++ (r ++ replaceAll o r 0 l) := by
  induction x with
  | nil =>
    obtain ⟨a, o', rfl⟩ := exists_cons_of_ne_nil hne
    have hstart : (a :: o').isPrefixOf (a :: (o' ++ l)) = true :=
      List.isPrefixOf_iff_prefix.mpr (prefix_append _ _)
    rw [nil_append, cons_append, replaceAll, if_pos hstart, length_cons, Nat.add_sub_cancel,
      replaceAll_skip, nil_append]
  | cons a x ih =>
    have hstart : ¬ o.isPrefixOf (a :: (x ++ (o ++ l))) = true := by
      intro hp
      have hp' := List.isPrefixOf_iff_prefix.mp hp
      have hlong : a :: (x ++ o.dropLast) <+: a :: (x ++ (o ++ l)) := by
        refine (cons_prefix_cons.mpr ⟨rfl, (prefix_append_right_inj x).mpr ?_⟩)
        exact (List.dropLast_prefix o).trans (prefix_append o l)
      have hlen : o.length ≤ (a :: (x ++ o.dropLast)).length := by
        rw [length_cons, length_append, length_dropLast]
        omega
      exact h (prefix_of_prefix_length_le hp' hlong hlen).isInfix
    have hrest : ¬ o <:+: x ++ o.dropLast := fun hx => h (hx.trans (suffix_cons a _).isInfix)
    rw [cons_append, replaceAll, if_neg hstart, ih hrest, cons_append]

end List

namespace Holes

variable {α β : Type*}

/-- A piece of a text: an element, or a hole. -/
inductive Part (α β : Type*)
  | char (a : α)
  | hole (b : β)
  deriving DecidableEq

/-- The text of a piece. -/
def Part.text (e : β → List α) : Part α β → List α
  | .char a => [a]
  | .hole b => e b

/-- A text whose holes are filled. -/
def fill (e : β → List α) (ps : List (Part α β)) : List α := ps.flatMap (Part.text e)

@[simp] theorem fill_nil (e : β → List α) : fill e ([] : List (Part α β)) = [] := rfl

@[simp] theorem fill_char (e : β → List α) (a : α) (ps : List (Part α β)) :
    fill e (.char a :: ps) = a :: fill e ps := rfl

@[simp] theorem fill_hole (e : β → List α) (b : β) (ps : List (Part α β)) :
    fill e (.hole b :: ps) = e b ++ fill e ps := rfl

@[simp] theorem fill_append (e : β → List α) (ps qs : List (Part α β)) :
    fill e (ps ++ qs) = fill e ps ++ fill e qs := List.flatMap_append

theorem fill_map_char (e : β → List α) (l : List α) : fill e (l.map .char) = l := by
  induction l with
  | nil => rfl
  | cons a l ih => rw [List.map_cons, fill_char, ih]

variable [DecidableEq α] [DecidableEq β]

/-- What stands for a hole occurs only as the hole, after a text in which it may have started. -/
def onlyAt (b : β) (e : β → List α) : List α → List (Part α β) → Bool
  | acc, [] => !decide (e b <:+: acc)
  | acc, .char a :: ps => onlyAt b e (acc ++ [a]) ps
  | acc, .hole c :: ps =>
    if c = b then !decide (e b <:+: acc ++ (e b).dropLast) && onlyAt b e [] ps
    else onlyAt b e (acc ++ e c) ps

/-- **Replacing what stands for a hole fills it differently** if it occurs only as the hole. -/
theorem replaceAll_fill {b : β} {e : β → List α} (hne : e b ≠ []) (r : List α)
    {acc : List α} {ps : List (Part α β)} (h : onlyAt b e acc ps = true) :
    List.replaceAll (e b) r 0 (acc ++ fill e ps) =
      acc ++ fill (Function.update e b r) ps := by
  induction ps generalizing acc with
  | nil =>
    rw [onlyAt, Bool.not_eq_true', decide_eq_false_iff_not] at h
    rw [fill_nil, fill_nil, List.append_nil, List.replaceAll_of_not_isInfix h]
  | cons p ps ih =>
    cases p with
    | char a =>
      rw [onlyAt] at h
      have hstep := ih h
      rwa [List.append_assoc, List.append_assoc] at hstep
    | hole c =>
      rw [onlyAt] at h
      by_cases hc : c = b
      · subst hc
        rw [if_pos rfl, Bool.and_eq_true, Bool.not_eq_true', decide_eq_false_iff_not] at h
        have hrest := ih h.2
        rw [List.nil_append, List.nil_append] at hrest
        rw [fill_hole, fill_hole, List.replaceAll_append hne h.1, hrest, Function.update_self]
      · rw [if_neg hc] at h
        have hstep := ih h
        rw [List.append_assoc, List.append_assoc] at hstep
        rw [fill_hole, fill_hole, Function.update_of_ne hc, hstep]

end Holes
