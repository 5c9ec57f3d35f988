import Mathlib.Data.List.Chain
import Mathlib.Data.List.DropRight
import NextRole.Lib.Segments
import NextRole.Lib.Trimming

/-!
# Words between separators

A text whose runs of separators are collapsed, and which is trimmed, is made of its words, joined
by single separators: nothing else of the text is left.

## Main definitions

* `words sep l` — the pieces of `l` that are not empty.
* `collapse sep l` — each run of separators becomes one.
* `trim sep l` — without separators at the ends.

## Main results

* `isChain_collapse` — no two separators in a row are left.
* `trim_collapse` — **what is left are the words**.
* `collapse_eq_self`, `trim_eq_self` — texts that stay.
-/

namespace Path

variable {α : Type*} [DecidableEq α] {sep : α} {l : List α}

/-- The pieces that are not empty. -/
def words (sep : α) (l : List α) : List (List α) := segments sep (fun x => x ≠ []) l

/-- Each run of separators becomes one. -/
def collapse (sep : α) : List α → List α
  | [] => []
  | a :: l =>
    if a = sep ∧ (collapse sep l).head? = some sep then collapse sep l else a :: collapse sep l

/-- A list without separators at its ends. -/
def trim (sep : α) (l : List α) : List α :=
  (l.rdropWhile fun a => a = sep).dropWhile fun a => a = sep

/-! ### Runs of separators -/

theorem isChain_collapse (sep : α) (l : List α) :
    (collapse sep l).IsChain fun a b => ¬ (a = sep ∧ b = sep) := by
  induction l with
  | nil => exact .nil
  | cons a l ih =>
    rw [collapse]
    split
    · exact ih
    · next h => exact ih.cons fun b hb hab => h ⟨hab.1, hab.2 ▸ hb⟩

theorem collapse_sublist (sep : α) (l : List α) : (collapse sep l).Sublist l := by
  induction l with
  | nil => exact List.Sublist.slnil
  | cons a l ih =>
    rw [collapse]
    split
    · exact ih.cons a
    · exact ih.cons_cons a

theorem collapse_eq_self (h : l.IsChain fun a b => ¬ (a = sep ∧ b = sep)) :
    collapse sep l = l := by
  induction l with
  | nil => rfl
  | cons a l ih =>
    rw [collapse, ih h.tail, if_neg]
    rintro ⟨ha, hhead⟩
    exact h.rel_head? hhead ⟨ha, rfl⟩

/-- The pieces of a text whose runs are collapsed differ by empty ones alone. -/
theorem splitOn_collapse (sep : α) (l : List α) : ∃ x xs ys,
    (collapse sep l).splitOn sep = x :: xs ∧ l.splitOn sep = x :: ys ∧
      (xs.filter fun x => x ≠ []) = ys.filter fun x => x ≠ [] := by
  induction l with
  | nil => exact ⟨[], [], [], by simp [collapse], by simp, rfl⟩
  | cons a l ih =>
    obtain ⟨x, xs, ys, hx, hy, hfilter⟩ := ih
    rw [collapse]
    split
    · next h =>
      obtain ⟨rfl, hhead⟩ := h
      -- The text starts with a separator, so its first piece is empty.
      obtain ⟨rest, hrest⟩ := List.head?_eq_some_iff.mp hhead
      have hnil : x = [] := by
        rw [hrest, List.splitOn_cons_eq_if_modifyHead, if_pos (beq_self_eq_true _)] at hx
        exact (List.cons.inj hx).1.symm
      refine ⟨x, xs, x :: ys, hx, ?_, ?_⟩
      · rw [List.splitOn_cons_eq_if_modifyHead, if_pos (beq_self_eq_true _), hy, hnil]
      · rw [hfilter, hnil]
        rfl
    · rw [List.splitOn_cons_eq_if_modifyHead, List.splitOn_cons_eq_if_modifyHead, hx, hy]
      split
      · refine ⟨[], x :: xs, x :: ys, rfl, rfl, ?_⟩
        rw [List.filter_cons, List.filter_cons, hfilter]
      · exact ⟨a :: x, xs, ys, rfl, rfl, hfilter⟩

theorem words_collapse (sep : α) (l : List α) : words sep (collapse sep l) = words sep l := by
  obtain ⟨x, xs, ys, hx, hy, hfilter⟩ := splitOn_collapse sep l
  rw [words, words, segments, segments, hx, hy, List.filter_cons, List.filter_cons, hfilter]

/-! ### Separators at the ends -/

theorem words_trim (sep : α) (l : List α) : words sep (trim sep l) = words sep l := by
  have hall : ∀ a ∈ l.rtakeWhile (fun a => a = sep), a = sep := by
    intro a ha
    have hdec := List.mem_rtakeWhile_imp ha
    exact of_decide_eq_true hdec
  have hsplit : l.rdropWhile (fun a => a = sep) ++ l.rtakeWhile (fun a => a = sep) = l :=
    List.rdropWhile_append_rtakeWhile
  rw [words, trim, segments_dropWhile_sep rfl, ← segments_append_seps rfl hall, hsplit, words]

theorem trim_isInfix (sep : α) (l : List α) : trim sep l <:+: l :=
  (List.dropWhile_suffix _).isInfix.trans (List.rdropWhile_prefix _ _).isInfix

theorem trim_of_head?_ne (hhead : l.head? ≠ some sep) :
    trim sep l = l.rdropWhile fun a => a = sep := by
  rw [trim]
  obtain ⟨s, hs⟩ := List.rdropWhile_prefix (fun a => a = sep) l
  generalize l.rdropWhile (fun a => a = sep) = r at hs
  cases r with
  | nil => rfl
  | cons a r =>
    refine List.dropWhile_cons_of_neg fun heq => hhead ?_
    rw [← hs, of_decide_eq_true heq]
    rfl

theorem trim_eq_self (hhead : l.head? ≠ some sep) (hlast : l.getLast? ≠ some sep) :
    trim sep l = l := by
  rw [trim_of_head?_ne hhead, List.rdropWhile_eq_self_iff]
  intro hne heq
  rw [List.getLast?_eq_some_getLast hne, of_decide_eq_true heq] at hlast
  exact hlast rfl

theorem head?_trim_ne (sep : α) (l : List α) : (trim sep l).head? ≠ some sep := by
  intro h
  have hnot := List.head?_dropWhile_not (fun a => decide (a = sep)) (l.rdropWhile fun a => a = sep)
  rw [trim] at h
  rw [h] at hnot
  simp at hnot

omit [DecidableEq α] in
theorem not_of_getLast?_dropWhile {p : α → Bool} {a : α}
    (h : ((l.rdropWhile p).dropWhile p).getLast? = some a) : p a = false := by
  have hne : (l.rdropWhile p).dropWhile p ≠ [] := by
    intro hnil
    rw [hnil] at h
    cases h
  obtain ⟨s, hs⟩ := List.dropWhile_suffix p (l := l.rdropWhile p)
  have hlast : (l.rdropWhile p).getLast? = some a := by
    rw [← hs, List.getLast?_append_of_ne_nil _ hne]
    exact h
  exact List.not_of_getLast?_rdropWhile hlast

theorem getLast?_trim_ne (sep : α) (l : List α) : (trim sep l).getLast? ≠ some sep := by
  intro h
  have hnot := not_of_getLast?_dropWhile h
  simp at hnot

/-! ### Words -/

/-- A text with single separators between its words has no empty pieces. -/
theorem splitOn_of_isChain (h : l.IsChain fun a b => ¬ (a = sep ∧ b = sep)) (hne : l ≠ [])
    (hlast : l.getLast? ≠ some sep) : ∃ x xs, l.splitOn sep = x :: xs ∧ (∀ y ∈ xs, y ≠ []) ∧
      (x = [] → l.head? = some sep) := by
  induction l with
  | nil => exact absurd rfl hne
  | cons a l ih =>
    rw [List.splitOn_cons_eq_if_modifyHead]
    cases l with
    | nil =>
      have ha : a ≠ sep := by simpa using hlast
      rw [if_neg (by simpa using ha), List.splitOn_nil]
      exact ⟨[a], [], rfl, by simp, by simp⟩
    | cons b l =>
      rw [List.getLast?_cons_cons] at hlast
      obtain ⟨x, xs, hx, hxs, hhead⟩ := ih h.tail (List.cons_ne_nil _ _) hlast
      rw [hx]
      split
      · next ha =>
        refine ⟨[], x :: xs, rfl, List.forall_mem_cons.mpr ⟨fun hnil => ?_, hxs⟩, fun _ => ?_⟩
        · exact h.rel_head? (hhead hnil) ⟨beq_iff_eq.mp ha, rfl⟩
        · rw [List.head?_cons, beq_iff_eq.mp ha]
      · exact ⟨a :: x, xs, rfl, hxs, by simp⟩

theorem join_words_of_isChain (h : l.IsChain fun a b => ¬ (a = sep ∧ b = sep))
    (hhead : l.head? ≠ some sep) (hlast : l.getLast? ≠ some sep) :
    join sep (words sep l) = l := by
  by_cases hne : l = []
  · subst hne
    simp [words, segments, join]
  · obtain ⟨x, xs, hx, hxs, hnil⟩ := splitOn_of_isChain h hne hlast
    have hkeep : words sep l = l.splitOn sep := by
      rw [words, segments, hx, List.filter_eq_self]
      rintro y hy
      refine decide_eq_true ?_
      rcases List.mem_cons.mp hy with rfl | hy
      · exact fun hempty => hhead (hnil hempty)
      · exact hxs y hy
    rw [hkeep, join_splitOn]

/-- **What is left of a text are its words**, joined by single separators. -/
theorem trim_collapse (sep : α) (l : List α) :
    trim sep (collapse sep l) = join sep (words sep l) := by
  have hchain := List.IsChain.infix (isChain_collapse sep l) (trim_isInfix sep (collapse sep l))
  rw [← words_collapse, ← words_trim,
    join_words_of_isChain hchain (head?_trim_ne _ _) (getLast?_trim_ne _ _)]

end Path
