import Mathlib.Data.List.DropRight
import Mathlib.Data.List.TakeWhile

/-!
# Dropping at both ends

What is left of a list of which elements are dropped in front and at the end, in one step after the
other, and the first run of elements of a kind, which such steps leave where they drop no elements
of the kind.

## Main definitions

* `List.firstRun` — the first run of elements of a kind.

## Main results

* `List.dropWhile_rdropWhile_comm` — the ends are independent.
* `List.firstRun_dropWhile`, `List.firstRun_rdropWhile` — the first run is left.
-/

namespace List

variable {α β : Type*} {p q : α → Bool}

theorem rdropWhile_map (f : β → α) (l : List β) :
    (l.map f).rdropWhile p = (l.rdropWhile (p ∘ f)).map f := by
  rw [rdropWhile, rdropWhile, ← map_reverse, dropWhile_map, ← map_reverse]

theorem dropWhile_dropWhile_of_imp (h : ∀ a, p a = true → q a = true) (l : List α) :
    (l.dropWhile p).dropWhile q = l.dropWhile q := by
  induction l with
  | nil => rfl
  | cons a l ih =>
    by_cases hp : p a = true
    · rw [dropWhile_cons_of_pos hp, ih, dropWhile_cons_of_pos (h a hp)]
    · rw [dropWhile_cons_of_neg hp]

theorem rdropWhile_rdropWhile_of_imp (h : ∀ a, p a = true → q a = true) (l : List α) :
    (l.rdropWhile p).rdropWhile q = l.rdropWhile q := by
  rw [rdropWhile, rdropWhile, rdropWhile, reverse_reverse, dropWhile_dropWhile_of_imp h]

theorem rdropWhile_append_of_ne_nil {l' : List α} (h : l'.rdropWhile p ≠ []) (l : List α) :
    (l ++ l').rdropWhile p = l ++ l'.rdropWhile p := by
  rw [rdropWhile, reverse_append, dropWhile_append, if_neg]
  · rw [reverse_append, reverse_reverse]
    rfl
  · intro hempty
    exact h (by rw [rdropWhile, isEmpty_iff.mp hempty]; rfl)

/-- **What is dropped in front does not depend on what is dropped at the end.** -/
theorem dropWhile_rdropWhile_comm (l : List α) :
    (l.rdropWhile q).dropWhile p = (l.dropWhile p).rdropWhile q := by
  by_cases hnil : (l.dropWhile p).rdropWhile q = []
  · -- all that is left in front goes at the end, too
    rw [hnil, dropWhile_eq_nil_iff]
    intro a ha
    by_contra hp
    have hmem : a ∈ l.dropWhile p ∨ a ∈ l.takeWhile p := by
      rw [or_comm, ← mem_append, takeWhile_append_dropWhile]
      exact (List.rdropWhile_prefix q l).subset ha
    rcases hmem with hmem | hmem
    · have hsplit : l.rdropWhile q = (l.takeWhile p).rdropWhile q := by
        conv_lhs => rw [← takeWhile_append_dropWhile (p := p) (l := l)]
        have hall := rdropWhile_eq_nil_iff.mp hnil
        rw [rdropWhile, reverse_append, dropWhile_append_of_pos fun b hb =>
          hall b (mem_reverse.mp hb)]
        rfl
      rw [hsplit] at ha
      exact hp (mem_takeWhile_imp ((List.rdropWhile_prefix q _).subset ha))
    · exact hp (mem_takeWhile_imp hmem)
  · have hkeep := rdropWhile_append_of_ne_nil hnil (l.takeWhile p)
    rw [takeWhile_append_dropWhile] at hkeep
    rw [hkeep, dropWhile_append_of_pos fun a ha => mem_takeWhile_imp ha]
    obtain ⟨t, ht⟩ := List.rdropWhile_prefix q (l.dropWhile p)
    have hnot := head?_dropWhile_not p l
    cases hrest : (l.dropWhile p).rdropWhile q with
    | nil => exact absurd hrest hnil
    | cons a rest =>
      rw [hrest, cons_append] at ht
      rw [← ht] at hnot
      exact dropWhile_cons_of_neg (by simpa using hnot)

theorem not_of_getLast?_rdropWhile {a : α} {l : List α} (h : (l.rdropWhile p).getLast? = some a) :
    p a = false := by
  have hne : l.rdropWhile p ≠ [] := by
    intro hnil
    rw [hnil] at h
    cases h
  have hnot := rdropWhile_last_not p l hne
  rw [getLast?_eq_some_getLast hne] at h
  rw [← Option.some.inj h]
  exact Bool.eq_false_iff.mpr hnot

/-! ### The first run -/

/-- The first run of elements of a kind. -/
def firstRun (p : α → Bool) (l : List α) : List α := (l.dropWhile fun a => !p a).takeWhile p

theorem firstRun_append_of_not {l : List α} (h : ∀ a ∈ l, p a = false) (l' : List α) :
    (l ++ l').firstRun p = l'.firstRun p := by
  rw [firstRun, dropWhile_append_of_pos fun a ha => by rw [h a ha]; rfl]
  rfl

/-- A run is the first one if it is followed by something else. -/
theorem firstRun_append_of_head? {l l' : List α} (hne : l ≠ []) (h : ∀ a ∈ l, p a = true)
    (hhead : ∀ a ∈ l'.head?, p a = false) : (l ++ l').firstRun p = l := by
  have htake : l'.takeWhile p = [] := by
    cases l' with
    | nil => rfl
    | cons a l' =>
      refine takeWhile_cons_of_neg ?_
      rw [hhead a rfl]
      exact Bool.false_ne_true
  obtain ⟨a, rest, rfl⟩ := exists_cons_of_ne_nil hne
  have hdrop : (a :: rest ++ l').dropWhile (fun b => !p b) = a :: rest ++ l' := by
    refine dropWhile_cons_of_neg ?_
    rw [h a mem_cons_self]
    exact Bool.false_ne_true
  rw [firstRun, hdrop, takeWhile_append_of_pos h, htake, append_nil]

theorem firstRun_dropWhile (h : ∀ a, q a = true → p a = false) (l : List α) :
    (l.dropWhile q).firstRun p = l.firstRun p := by
  rw [firstRun, dropWhile_dropWhile_of_imp fun a ha => by rw [h a ha]; rfl]
  rfl

theorem firstRun_append_right {l' : List α} (h : ∀ a ∈ l', p a = false) (l : List α) :
    (l ++ l').firstRun p = l.firstRun p := by
  induction l with
  | nil => simpa using firstRun_append_of_not h []
  | cons a l ih =>
    by_cases ha : p a = true
    · have hdrop : ∀ m : List α, (a :: m).dropWhile (fun b => !p b) = a :: m := by
        intro m
        refine dropWhile_cons_of_neg ?_
        rw [ha]
        exact Bool.false_ne_true
      have htake : l'.takeWhile p = [] := by
        cases l' with
        | nil => rfl
        | cons b l' => exact takeWhile_cons_of_neg (by rw [h b mem_cons_self]; decide)
      rw [firstRun, firstRun, cons_append, hdrop, hdrop, ← cons_append, takeWhile_append, htake,
        append_nil]
      split
      · next hlen => exact ((List.takeWhile_prefix p).eq_of_length hlen).symm
      · rfl
    · have hskip : ∀ m : List α, (a :: m).firstRun p = m.firstRun p := by
        intro m
        exact firstRun_append_of_not (l := [a]) (by simpa using ha) m
      rw [cons_append, hskip, hskip, ih]

theorem firstRun_rdropWhile (h : ∀ a, q a = true → p a = false) (l : List α) :
    (l.rdropWhile q).firstRun p = l.firstRun p := by
  have hall : ∀ a ∈ l.rtakeWhile q, p a = false := fun a ha => h a (mem_rtakeWhile_imp ha)
  have happend := firstRun_append_right hall (l.rdropWhile q)
  rwa [rdropWhile_append_rtakeWhile, eq_comm] at happend

end List
