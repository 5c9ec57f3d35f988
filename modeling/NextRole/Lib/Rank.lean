import Mathlib.Data.List.Sort

/-!
# The first elements of a sorted list

An element is among the first `n` of a sorted list exactly when fewer than `n`
elements come before it.

## Main results

* `List.numBefore_eq_idxOf` — the number of elements before `x` is its index.
* `List.mem_take_insertionSort_iff` — the first elements of the sorted list, by
  the number of elements before them.
* `List.insertionSort_congr` — a list sorted by a key that tells its elements apart is
  determined by its elements.
-/

namespace List

variable {α : Type*} [DecidableEq α] (r : α → α → Prop) [DecidableRel r]

/-- The number of elements that `r` puts strictly before `x`. -/
def numBefore (l : List α) (x : α) : ℕ := l.countP fun y => r y x ∧ y ≠ x

variable {r}

/-- In a sorted list without repetitions, the number of elements before `x` is its
index. -/
theorem numBefore_eq_idxOf {l : List α} (hanti : ∀ a ∈ l, ∀ b ∈ l, r a b → r b a → a = b)
    (hs : l.Pairwise r) (hn : l.Nodup) {x : α} (hx : x ∈ l) :
    numBefore r l x = l.idxOf x := by
  induction l with
  | nil => cases hx
  | cons y l ih =>
    obtain ⟨hy, hs⟩ := pairwise_cons.mp hs
    obtain ⟨hyl, hn⟩ := nodup_cons.mp hn
    by_cases hxy : y = x
    · -- everything else comes after the head
      subst hxy
      rw [idxOf_cons_self, numBefore, countP_eq_zero]
      intro z hz
      rcases mem_cons.mp hz with rfl | hz
      · simp
      · have h : r z y → z = y := fun h =>
          hanti z (mem_cons_of_mem y hz) y mem_cons_self h (hy z hz)
        simpa using h
    · have hx' : x ∈ l := (mem_cons.mp hx).resolve_left (Ne.symm hxy)
      have hyx : r y x := hy x hx'
      have hanti' : ∀ a ∈ l, ∀ b ∈ l, r a b → r b a → a = b := fun a ha b hb =>
        hanti a (mem_cons_of_mem y ha) b (mem_cons_of_mem y hb)
      rw [idxOf_cons_ne l hxy, ← ih hanti' hs hn hx', numBefore, countP_cons_of_pos (by simp [hyx, hxy])]
      rfl

theorem numBefore_perm {l l' : List α} (h : l.Perm l') (x : α) :
    numBefore r l x = numBefore r l' x := h.countP_eq _

/-- The first `n` elements of the sorted list are those with fewer than `n` before
them. -/
theorem mem_take_insertionSort_iff (htotal : ∀ a b, r a b ∨ r b a)
    (htrans : ∀ a b c, r a b → r b c → r a c) {l : List α}
    (hanti : ∀ a ∈ l, ∀ b ∈ l, r a b → r b a → a = b) (hn : l.Nodup) {n : ℕ} {x : α} :
    x ∈ (l.insertionSort r).take n ↔ x ∈ l ∧ numBefore r l x < n := by
  have hperm := perm_insertionSort r l
  have : Std.Total r := ⟨htotal⟩
  have : IsTrans α r := ⟨htrans⟩
  have hs : (l.insertionSort r).Pairwise r := pairwise_insertionSort r l
  rw [← numBefore_perm hperm]
  by_cases hx : x ∈ l
  · have hx' : x ∈ l.insertionSort r := hperm.mem_iff.mpr hx
    have hanti' : ∀ a ∈ l.insertionSort r, ∀ b ∈ l.insertionSort r, r a b → r b a → a = b :=
      fun a ha b hb => hanti a (hperm.mem_iff.mp ha) b (hperm.mem_iff.mp hb)
    rw [mem_take_iff_idxOf_lt hx', numBefore_eq_idxOf hanti' hs (hperm.nodup_iff.mpr hn) hx']
    exact ⟨fun h => ⟨hx, h⟩, And.right⟩
  · constructor
    · intro h
      exact absurd (hperm.mem_iff.mp (mem_of_mem_take h)) hx
    · intro h
      exact absurd h.1 hx

omit [DecidableEq α] in
/-- Two lists with the same elements, sorted by a key that tells them apart, are equal. -/
theorem insertionSort_congr {κ : Type*} [LinearOrder κ] (key : α → κ) {l l' : List α}
    (hn : l.Nodup) (hn' : l'.Nodup) (hkey : ∀ a ∈ l, ∀ b ∈ l, key a = key b → a = b)
    (h : ∀ a, a ∈ l ↔ a ∈ l') :
    l.insertionSort (fun a b => key a ≤ key b) = l'.insertionSort fun a b => key a ≤ key b := by
  let r : α → α → Prop := fun a b => key a ≤ key b
  have : Std.Total r := ⟨fun a b => le_total (key a) (key b)⟩
  have : IsTrans α r := ⟨fun a b c => le_trans⟩
  have hperm : (l.insertionSort r).Perm (l'.insertionSort r) :=
    (perm_insertionSort r l).trans (((perm_ext_iff_of_nodup hn hn').mpr h).trans
      (perm_insertionSort r l').symm)
  refine Perm.eq_of_pairwise (fun a b ha hb hab hba => ?_) (pairwise_insertionSort r l)
    (pairwise_insertionSort r l') hperm
  have hb : b ∈ l := (h b).mpr ((perm_insertionSort r l').mem_iff.mp hb)
  exact hkey a ((perm_insertionSort r l).mem_iff.mp ha) b hb (le_antisymm hab hba)

end List
