import NextRole.Lib.Path

/-!
# Segments of a path

The text of a path is cut at a separator, and some of its pieces are kept.  Such pieces are joined
and cut again without loss, which is what a normal form of a path rests on.

## Main definitions

* `segments sep keep l` — the kept pieces of `l`.
* `IsSegment sep keep x` — `x` can be such a piece.

## Main results

* `segments_append_cons` — the segments on both sides of a separator.
* `segments_join` — segments that are joined are cut again.
* `segments_append_ne` — something in front changes the segments.
* `sep_append_inj` — a first label without separator reads back.
-/

namespace Path

variable {α : Type*} [DecidableEq α] {sep : α} {keep : List α → Bool}

/-- The pieces of a list between separators that are kept. -/
def segments (sep : α) (keep : List α → Bool) (l : List α) : List (List α) :=
  (l.splitOn sep).filter keep

/-- A piece that is kept. -/
structure IsSegment (sep : α) (keep : List α → Bool) (x : List α) : Prop where
  notMem : sep ∉ x
  kept : keep x = true

/-! ### Cutting -/

@[simp] theorem segments_append_cons (xs ys : List α) :
    segments sep keep (xs ++ sep :: ys) = segments sep keep xs ++ segments sep keep ys := by
  rw [segments, List.splitOn_append_cons_self, List.filter_append]
  rfl

theorem segments_of_notMem {x : List α} (h : sep ∉ x) :
    segments sep keep x = if keep x then [x] else [] := by
  rw [segments, List.splitOn_eq_singleton h, List.filter_singleton]
  cases keep x <;> rfl

theorem IsSegment.segments_eq {x : List α} (h : IsSegment sep keep x) :
    segments sep keep x = [x] := by
  rw [segments_of_notMem h.notMem, if_pos h.kept]

/-- The pieces of a list have no separator. -/
theorem notMem_of_mem_splitOn {x l : List α} (hx : x ∈ l.splitOn sep) : sep ∉ x := by
  induction l generalizing x with
  | nil =>
    rw [List.splitOn_nil, List.mem_singleton] at hx
    rw [hx]
    exact List.not_mem_nil
  | cons a l ih =>
    rw [List.splitOn_cons_eq_if_modifyHead] at hx
    split at hx
    · obtain rfl | hx := List.mem_cons.mp hx
      · exact List.not_mem_nil
      · exact ih hx
    · rename_i hne
      obtain ⟨y, ys, hy⟩ := List.exists_cons_of_ne_nil (List.splitOn_ne_nil sep l)
      rw [hy, List.modifyHead_cons] at hx
      have hhead : sep ∉ y := ih (by rw [hy]; exact List.mem_cons_self)
      obtain rfl | hx := List.mem_cons.mp hx
      · intro hmem
        obtain rfl | hmem := List.mem_cons.mp hmem
        · exact hne (beq_self_eq_true _)
        · exact hhead hmem
      · exact ih (by rw [hy]; exact List.mem_cons_of_mem _ hx)

theorem isSegment_of_mem {l x : List α} (h : x ∈ segments sep keep l) : IsSegment sep keep x := by
  obtain ⟨hx, hkeep⟩ := List.mem_filter.mp h
  exact ⟨notMem_of_mem_splitOn hx, hkeep⟩

theorem segments_cons_sep (hnil : keep [] = false) (l : List α) :
    segments sep keep (sep :: l) = segments sep keep l := by
  rw [← List.nil_append (sep :: l), segments_append_cons, segments_of_notMem List.not_mem_nil,
    if_neg (by simp [hnil]), List.nil_append]

theorem segments_dropWhile_sep (hnil : keep [] = false) (l : List α) :
    segments sep keep (l.dropWhile fun a => a = sep) = segments sep keep l := by
  induction l with
  | nil => rfl
  | cons a l ih =>
    rw [List.dropWhile_cons]
    split
    · rename_i ha
      obtain rfl : a = sep := by simpa using ha
      rw [ih, segments_cons_sep hnil]
    · rfl

theorem segments_append_seps (hnil : keep [] = false) {l s : List α} (h : ∀ a ∈ s, a = sep) :
    segments sep keep (l ++ s) = segments sep keep l := by
  induction s generalizing l with
  | nil => rw [List.append_nil]
  | cons a s ih =>
    obtain ⟨rfl, hs⟩ := List.forall_mem_cons.mp h
    have hempty : segments a keep s = [] := by
      have hs' := ih (l := []) hs
      rw [List.nil_append] at hs'
      rw [hs', segments_of_notMem List.not_mem_nil, if_neg (by simp [hnil])]
    rw [segments_append_cons, hempty, List.append_nil]

/-! ### Joining -/

/-- **Segments that are joined are cut again.** -/
theorem segments_join (hnil : keep [] = false) {xs : List (List α)}
    (h : ∀ x ∈ xs, IsSegment sep keep x) : segments sep keep (join sep xs) = xs := by
  cases xs with
  | nil =>
    have hcut : segments sep keep [] = _ := segments_of_notMem List.not_mem_nil
    exact hcut.trans (if_neg (by simp [hnil]))
  | cons x xs =>
    rw [segments, join, List.splitOn_intercalate sep (fun y hy => (h y hy).notMem)
      (List.cons_ne_nil x xs), List.filter_eq_self]
    exact fun y hy => (h y hy).kept

omit [DecidableEq α] in
/-- Less is joined from fewer pieces. -/
theorem join_sublist {xs ys : List (List α)} (h : xs.Sublist ys) :
    (join sep xs).Sublist (join sep ys) := by
  induction h with
  | slnil => exact List.Sublist.refl _
  | @cons xs ys y hsub ih =>
    cases ys with
    | nil =>
      rw [List.sublist_nil.mp hsub]
      exact List.nil_sublist _
    | cons z zs =>
      rw [join_cons_of_ne_nil y (List.cons_ne_nil z zs)]
      exact (ih.trans (List.sublist_cons_self sep _)).trans (List.sublist_append_right y _)
  | @cons_cons xs ys y hsub ih =>
    cases xs with
    | nil =>
      rw [join_singleton]
      exact (prefix_join y ys).sublist
    | cons x xs =>
      have hys : ys ≠ [] := by
        rintro rfl
        cases hsub
      rw [join_cons_of_ne_nil y (List.cons_ne_nil x xs), join_cons_of_ne_nil y hys]
      exact (ih.cons_cons sep).append_left y

omit [DecidableEq α] in
theorem join_append {xs ys : List (List α)} (hxs : xs ≠ []) (hys : ys ≠ []) :
    join sep (xs ++ ys) = join sep xs ++ sep :: join sep ys := by
  induction xs with
  | nil => exact absurd rfl hxs
  | cons x xs ih =>
    cases xs with
    | nil => rw [List.singleton_append, join_cons_of_ne_nil x hys, join_singleton]
    | cons z zs =>
      have hne : z :: zs ++ ys ≠ [] := List.cons_ne_nil z _
      rw [List.cons_append, join_cons_of_ne_nil x hne,
        join_cons_of_ne_nil x (List.cons_ne_nil z zs), ih (List.cons_ne_nil z zs), List.append_assoc, List.cons_append]

theorem join_splitOn (l : List α) : join sep (l.splitOn sep) = l := List.intercalate_splitOn sep

theorem join_segments_sublist (l : List α) : (join sep (segments sep keep l)).Sublist l := by
  have hsub : (join sep (segments sep keep l)).Sublist (join sep (l.splitOn sep)) :=
    join_sublist List.filter_sublist
  rwa [join_splitOn] at hsub

/-! ### What is in front -/

theorem splitOn_append_of_notMem {w : List α} (hw : sep ∉ w) (t : List α) :
    (w ++ t).splitOn sep = (t.splitOn sep).modifyHead (w ++ ·) := by
  induction w with
  | nil =>
    rw [List.nil_append]
    cases t.splitOn sep <;> rfl
  | cons a w ih =>
    obtain ⟨hne, hw⟩ := not_or.mp (List.mem_cons.not.mp hw)
    rw [List.cons_append, List.splitOn_cons_eq_if_modifyHead, if_neg (by simpa using Ne.symm hne),
      ih hw]
    cases t.splitOn sep <;> rfl

theorem exists_segments_append {w : List α} (hsep : sep ∉ w) (hkeep : ∀ x, keep (w ++ x) = true)
    (t : List α) : ∃ x xs, segments sep keep (w ++ t) = (w ++ x) :: xs ∧
      (segments sep keep t = x :: xs ∨ segments sep keep t = xs) := by
  obtain ⟨x, xs, hx⟩ := List.exists_cons_of_ne_nil (List.splitOn_ne_nil sep t)
  refine ⟨x, xs.filter keep, ?_, ?_⟩
  · rw [segments, splitOn_append_of_notMem hsep, hx, List.modifyHead_cons,
      List.filter_cons_of_pos (hkeep x)]
  · rw [segments, hx, List.filter_cons]
    split
    · exact .inl rfl
    · exact .inr rfl

theorem segments_append_ne {w : List α} (hw : w ≠ []) (hsep : sep ∉ w)
    (hkeep : ∀ x, keep (w ++ x) = true) (t : List α) :
    segments sep keep (w ++ t) ≠ segments sep keep t := by
  obtain ⟨x, xs, hfront, ht⟩ := exists_segments_append hsep hkeep t
  rw [hfront]
  intro h
  obtain ht | ht := ht
  · rw [ht] at h
    exact hw (List.append_left_eq_self.mp (List.cons.inj h).1)
  · rw [ht] at h
    exact absurd (congrArg List.length h) (by simp)

theorem sep_append_inj {x y u v : List α} (hx : sep ∉ x) (hy : sep ∉ y)
    (h : x ++ sep :: u = y ++ sep :: v) : x = y ∧ u = v := by
  have hcut := congrArg (List.splitOn sep) h
  rw [List.splitOn_append_cons_self_of_not_mem hx,
    List.splitOn_append_cons_self_of_not_mem hy] at hcut
  obtain rfl := (List.cons.inj hcut).1
  exact ⟨rfl, (List.cons.inj (List.append_cancel_left h)).2⟩

end Path
