import Mathlib.Data.List.Sort

/-!
# Pages of an ordered query

A query returns the rows in an order that puts no row before a lesser one; rows that tie
may come in any order, and in another one the next time.  A client collects the rows page
by page, by offset, until a page is short.  Each query is free in how it orders ties, so
the client collects every row once exactly if no group of ties reaches over the end of a
page.

## Main definitions

* `Pages.Arranges` — an order of the rows.
* `Pages.Returns` — a page of some order.
* `Pages.Collects` — what a client collects from an offset on.
* `Pages.before`, `Pages.upTo`, `Pages.Uncut` — where ties lie, and that no page cuts them.

## Main results

* `Pages.before_le_and_lt_upTo` — where a row can be in an order.
* `Pages.uncut_of_antisymm` — rows that do not tie are cut by no page.
* `Pages.collects_iff` — the pages hold every row once, whatever the orders of the
  queries, exactly if they cut no ties.
-/

namespace Pages

variable {α : Type*} {r : α → α → Prop} {rows order result : List α} {p : ℕ}

/-! ### Orders and pages -/

/-- The rows in an order that respects `r`. -/
structure Arranges (r : α → α → Prop) (rows order : List α) : Prop where
  perm : order.Perm rows
  sorted : order.Pairwise r

/-- A page of an order of the rows. -/
def Returns (r : α → α → Prop) (rows : List α) (offset limit : ℕ) (page : List α) : Prop :=
  ∃ order, Arranges r rows order ∧ page = (order.drop offset).take limit

/-- What a client collects in pages of `p` rows from an offset on. -/
inductive Collects (fetch : ℕ → List α) (p : ℕ) : ℕ → List α → Prop
  | short {offset : ℕ} (h : (fetch offset).length < p) : Collects fetch p offset (fetch offset)
  | next {offset : ℕ} {rest : List α} (h : p ≤ (fetch offset).length)
      (hrest : Collects fetch p (offset + p) rest) : Collects fetch p offset (fetch offset ++ rest)

theorem Returns.length {offset limit : ℕ} {page : List α} (h : Returns r rows offset limit page) :
    page.length = min limit (rows.length - offset) := by
  obtain ⟨order, ho, rfl⟩ := h
  rw [List.length_take, List.length_drop, ho.perm.length_eq]

theorem exists_collects {fetch : ℕ → List α} {n : ℕ} (hp : 0 < p)
    (h : ∀ offset, (fetch offset).length = min p (n - offset)) (offset : ℕ) :
    ∃ result, Collects fetch p offset result := by
  by_cases hlt : (fetch offset).length < p
  · exact ⟨_, .short hlt⟩
  · have hlen := h offset
    obtain ⟨rest, hrest⟩ := exists_collects hp h (offset + p)
    exact ⟨_, .next (not_lt.mp hlt) hrest⟩
termination_by n - offset
decreasing_by omega

/-- After some full pages a client goes on from where they end. -/
theorem Collects.after {fetch : ℕ → List α} {offset : ℕ} (h : Collects fetch p offset result)
    (n : ℕ) (hfull : ∀ k < n, p ≤ (fetch (offset + k * p)).length) :
    ∃ collected rest, result = collected ++ rest ∧ Collects fetch p (offset + n * p) rest := by
  induction n with
  | zero => exact ⟨[], result, rfl, by simpa using h⟩
  | succ n ih =>
    obtain ⟨collected, rest, rfl, hrest⟩ := ih fun k hk => hfull k (by omega)
    have hn := hfull n (by omega)
    cases hrest with
    | short hlt => omega
    | @next _ rest _ hrest =>
      refine ⟨collected ++ fetch (offset + n * p), rest, (List.append_assoc _ _ _).symm, ?_⟩
      rwa [Nat.add_assoc, ← Nat.succ_mul] at hrest

theorem Collects.first_page {fetch : ℕ → List α} {offset : ℕ} (h : Collects fetch p offset result) :
    fetch offset <+: result := by
  cases h with
  | short _ => exact List.prefix_rfl
  | next _ _ => exact List.prefix_append _ _

/-! ### Where ties lie -/

section Ties

variable [DecidableRel r]

/-- How many rows are strictly before a row. -/
def before (r : α → α → Prop) [DecidableRel r] (rows : List α) (x : α) : ℕ :=
  rows.countP fun y => ¬ r x y

/-- How many rows are before a row or tie with it, itself among them. -/
def upTo (r : α → α → Prop) [DecidableRel r] (rows : List α) (x : α) : ℕ :=
  rows.countP fun y => r y x

/-- No group of rows that tie reaches over the end of a page. -/
def Uncut (r : α → α → Prop) [DecidableRel r] (rows : List α) (p : ℕ) : Prop :=
  ∀ x ∈ rows, before r rows x / p = (upTo r rows x - 1) / p

instance (rows : List α) (p : ℕ) : Decidable (Uncut r rows p) :=
  inferInstanceAs (Decidable (∀ x ∈ rows, _ = _))

theorem Arranges.before_eq (h : Arranges r rows order) (x : α) :
    before r rows x = before r order x :=
  (h.perm.countP_eq _).symm

theorem Arranges.upTo_eq (h : Arranges r rows order) (x : α) : upTo r rows x = upTo r order x :=
  (h.perm.countP_eq _).symm

section

variable [IsTrans α r]

/-- What is at a place before the end of the ties of a row is not after the row. -/
theorem rel_of_lt_upTo {x y : α} {front back : List α}
    (h : Arranges r rows (front ++ y :: back)) (hlt : front.length < upTo r rows x) : r y x := by
  by_contra hne
  obtain ⟨-, hy, -⟩ := List.pairwise_append.mp h.sorted
  rw [List.pairwise_cons] at hy
  have hback : (y :: back).countP (fun z => r z x) = 0 := by
    rw [List.countP_eq_zero]
    intro z hz
    rcases List.mem_cons.mp hz with rfl | hz
    · simpa using hne
    · simpa using fun hzx => hne (IsTrans.trans _ _ _ (hy.1 z hz) hzx)
  have hle : upTo r rows x ≤ front.length := by
    rw [h.upTo_eq, upTo, List.countP_append, hback]
    exact List.countP_le_length
  omega

/-- What is at a place from the first tie of a row on is not before the row. -/
theorem rel_of_before_le {x y : α} {front back : List α}
    (h : Arranges r rows (front ++ y :: back)) (hle : before r rows x ≤ front.length) : r x y := by
  by_contra hne
  obtain ⟨-, -, hcross⟩ := List.pairwise_append.mp h.sorted
  have hfront : front.countP (fun z => ¬ r x z) = front.length := by
    rw [List.countP_eq_length]
    intro z hz
    exact decide_eq_true fun hxz =>
      hne (IsTrans.trans _ _ _ hxz (hcross z hz y List.mem_cons_self))
  have hlt : front.length < before r rows x := by
    have hself : (y :: back).countP (fun z => ¬ r x z) = back.countP (fun z => ¬ r x z) + 1 :=
      List.countP_cons_of_pos (decide_eq_true hne)
    rw [h.before_eq, before, List.countP_append, hfront, hself]
    omega
  omega

/-- Two neighbours of an order that tie with one row can change places. -/
theorem Arranges.swap {x u v : α} {front back : List α}
    (h : Arranges r rows (front ++ u :: v :: back)) (hlow : before r rows x ≤ front.length)
    (hup : front.length + 1 < upTo r rows x) : Arranges r rows (front ++ v :: u :: back) := by
  have hux : r x u := rel_of_before_le h hlow
  have hvx : r v x := by
    have h' : Arranges r rows ((front ++ [u]) ++ v :: back) := by
      rwa [List.append_assoc]
    refine rel_of_lt_upTo h' ?_
    rwa [List.length_append, List.length_singleton]
  have hvu : r v u := IsTrans.trans _ _ _ hvx hux
  refine ⟨((List.Perm.swap u v back).append_left front).trans h.perm, ?_⟩
  obtain ⟨hfront, htail, hcross⟩ := List.pairwise_append.mp h.sorted
  rw [List.pairwise_cons, List.pairwise_cons] at htail
  obtain ⟨hu, hv, hback⟩ := htail
  refine List.pairwise_append.mpr ⟨hfront, ?_, fun a ha b hb => hcross a ha b ?_⟩
  · refine List.pairwise_cons.mpr ⟨fun b hb => ?_, List.pairwise_cons.mpr ⟨fun b hb => ?_, hback⟩⟩
    · rcases List.mem_cons.mp hb with rfl | hb
      · exact hvu
      · exact hv b hb
    · exact hu b (List.mem_cons_of_mem v hb)
  · simp only [List.mem_cons] at hb ⊢
    tauto

end

variable [Std.Total r]

/-- Where a row can be in an order: after all that is strictly before it, and not after
what it ties with. -/
theorem before_le_and_lt_upTo {x : α} {front back : List α}
    (h : Arranges r rows (front ++ x :: back)) :
    before r rows x ≤ front.length ∧ front.length < upTo r rows x := by
  have hrefl : r x x := (Std.Total.total (r := r) x x).elim id id
  obtain ⟨-, hx, hcross⟩ := List.pairwise_append.mp h.sorted
  rw [List.pairwise_cons] at hx
  constructor
  · have hback : (x :: back).countP (fun y => ¬ r x y) = 0 := by
      rw [List.countP_eq_zero]
      intro y hy
      rcases List.mem_cons.mp hy with rfl | hy
      · simpa using hrefl
      · simpa using hx.1 y hy
    rw [h.before_eq, before, List.countP_append, hback]
    exact List.countP_le_length
  · have hfront : front.countP (fun y => r y x) = front.length := by
      rw [List.countP_eq_length]
      intro y hy
      exact decide_eq_true (hcross y hy x List.mem_cons_self)
    have hself : (x :: back).countP (fun y => r y x) = back.countP (fun y => r y x) + 1 :=
      List.countP_cons_of_pos (decide_eq_true hrefl)
    rw [h.upTo_eq, upTo, List.countP_append, hfront, hself]
    omega

/-! ### Pages that cut no ties -/

theorem Uncut.length_div {x : α} {front back : List α} (hu : Uncut r rows p)
    (h : Arranges r rows (front ++ x :: back)) : front.length / p = before r rows x / p := by
  obtain ⟨hle, hlt⟩ := before_le_and_lt_upTo h
  have hmem : x ∈ rows := h.perm.mem_iff.mp (by simp)
  have hup : front.length / p ≤ (upTo r rows x - 1) / p := Nat.div_le_div_right (by omega)
  have hlow : before r rows x / p ≤ front.length / p := Nat.div_le_div_right hle
  exact le_antisymm (hu x hmem ▸ hup) hlow

theorem Uncut.div_of_mem {x : α} {front part back : List α} (hu : Uncut r rows p)
    (h : Arranges r rows order) (he : front ++ (part ++ back) = order) (hx : x ∈ part) :
    ∃ i < part.length, before r rows x / p = (front.length + i) / p := by
  obtain ⟨s, t, rfl⟩ := List.append_of_mem hx
  have he' : (front ++ s) ++ x :: (t ++ back) = order := by
    rw [← he]
    simp
  have hdiv := hu.length_div (he' ▸ h)
  rw [List.length_append] at hdiv
  exact ⟨s.length, by simp, hdiv.symm⟩

/-- Where no page cuts ties, a page holds the rows whose first tie is on it. -/
theorem Uncut.page_eq_filter (hp : 0 < p) (hu : Uncut r rows p) (h : Arranges r rows order)
    (j : ℕ) :
    (order.drop (j * p)).take p = order.filter fun x => before r rows x / p = j := by
  have hsplit : order.take (j * p) ++ ((order.drop (j * p)).take p ++
      (order.drop (j * p)).drop p) = order := by
    rw [List.take_append_drop, List.take_append_drop]
  have hfront : (order.take (j * p)).filter (fun x => before r rows x / p = j) = [] := by
    rw [List.filter_eq_nil_iff]
    intro x hx
    obtain ⟨i, hi, hdiv⟩ := hu.div_of_mem h ((List.nil_append _).trans hsplit) hx
    rw [List.length_take] at hi
    rw [List.length_nil, Nat.zero_add] at hdiv
    have hlt : i / p < j := (Nat.div_lt_iff_lt_mul hp).mpr (by omega)
    simp only [decide_eq_true_eq]
    omega
  have hmid : ((order.drop (j * p)).take p).filter (fun x => before r rows x / p = j) =
      (order.drop (j * p)).take p := by
    rw [List.filter_eq_self]
    intro x hx
    obtain ⟨i, hi, hdiv⟩ := hu.div_of_mem h hsplit hx
    rw [List.length_take, List.length_drop] at hi
    rw [List.length_take, Nat.min_eq_left (by omega)] at hdiv
    rw [hdiv, decide_eq_true_eq, Nat.add_comm, Nat.add_mul_div_right _ _ hp,
      Nat.div_eq_of_lt (by omega), Nat.zero_add]
  have hback : ((order.drop (j * p)).drop p).filter (fun x => before r rows x / p = j) = [] := by
    rw [List.filter_eq_nil_iff]
    intro x hx
    have hsplit' : (order.take (j * p) ++ (order.drop (j * p)).take p) ++
        ((order.drop (j * p)).drop p ++ []) = order := by
      rw [List.append_nil, List.append_assoc, hsplit]
    obtain ⟨i, hi, hdiv⟩ := hu.div_of_mem h hsplit' hx
    rw [List.length_drop, List.length_drop] at hi
    rw [List.length_append, List.length_take, List.length_take, List.length_drop,
      Nat.min_eq_left (by omega), Nat.min_eq_left (by omega)] at hdiv
    have hlt : j < (j * p + p + i) / p := by
      rw [Nat.lt_iff_add_one_le, Nat.le_div_iff_mul_le hp, Nat.add_mul]
      omega
    simp only [decide_eq_true_eq]
    omega
  conv_rhs => rw [← hsplit]
  rw [List.filter_append, List.filter_append, hfront, hmid, hback, List.nil_append,
    List.append_nil]

/-- Where no page cuts ties, a client that goes on from a page collects the rows of that
page and of those after it. -/
theorem Uncut.collects_perm {fetch : ℕ → List α} (hp : 0 < p) (hu : Uncut r rows p)
    (hfetch : ∀ offset, Returns r rows offset p (fetch offset)) {offset : ℕ}
    (hc : Collects fetch p offset result) (j : ℕ) (hj : offset = j * p) :
    result.Perm (rows.filter fun x => j ≤ before r rows x / p) := by
  have hpage (j : ℕ) : (fetch (j * p)).Perm (rows.filter fun x => before r rows x / p = j) := by
    obtain ⟨order, ho, he⟩ := hfetch (j * p)
    rw [he, hu.page_eq_filter hp ho]
    exact ho.perm.filter _
  induction hc generalizing j with
  | @short offset hshort =>
    subst hj
    have hlast : ∀ x ∈ rows, before r rows x / p ≤ j := by
      intro x hx
      obtain ⟨order, ho, he⟩ := hfetch (j * p)
      obtain ⟨front, back, rfl⟩ := List.append_of_mem (ho.perm.mem_iff.mpr hx)
      have hle := (before_le_and_lt_upTo ho).1
      have hlen := (hfetch (j * p)).length
      rw [← ho.perm.length_eq, List.length_append, List.length_cons] at hlen
      by_contra hlt
      have hge : (j + 1) * p ≤ before r rows x :=
        (Nat.le_div_iff_mul_le hp).mp (not_le.mp hlt)
      rw [Nat.add_mul] at hge
      omega
    have heq : rows.filter (fun x => j ≤ before r rows x / p) =
        rows.filter fun x => before r rows x / p = j := by
      refine List.filter_congr fun x hx => ?_
      have hle := hlast x hx
      simp only [decide_eq_decide]
      omega
    rw [heq]
    exact hpage j
  | @next offset rest hfull hrest ih =>
    subst hj
    have hrest := ih (j + 1) (by rw [Nat.add_mul, Nat.one_mul])
    have hsplit := List.filter_append_perm (fun x => before r rows x / p = j)
      (rows.filter fun x => j ≤ before r rows x / p)
    rw [List.filter_filter, List.filter_filter] at hsplit
    refine (List.Perm.append (hpage j) hrest).trans (List.Perm.trans (List.Perm.of_eq ?_) hsplit)
    congr 1
    · refine List.filter_congr fun x _ => ?_
      rw [Bool.eq_iff_iff]
      simp only [Bool.and_eq_true, decide_eq_true_eq]
      omega
    · refine List.filter_congr fun x _ => ?_
      rw [Bool.eq_iff_iff]
      simp only [Bool.and_eq_true, Bool.not_eq_true', decide_eq_true_eq, decide_eq_false_iff_not]
      omega

variable [IsTrans α r]

theorem arranges_insertionSort (rows : List α) : Arranges r rows (rows.insertionSort r) :=
  ⟨List.perm_insertionSort r rows, List.pairwise_insertionSort r rows⟩

/-- Where the end of a page cuts ties, two queries can show one row twice. -/
theorem exists_twice {m : ℕ} {x : α} (hm : 0 < m) (hp : 0 < p) (hlow : before r rows x < m * p)
    (hup : m * p < upTo r rows x) :
    ∃ (first second : List α) (u : α), Arranges r rows first ∧ Arranges r rows second ∧
      u ∈ (first.drop ((m - 1) * p)).take p ∧ u ∈ (second.drop (m * p)).take p := by
  have hsort := arranges_insertionSort (r := r) rows
  have hlen : upTo r rows x ≤ (rows.insertionSort r).length := by
    rw [hsort.upTo_eq]
    exact List.countP_le_length
  -- the two rows at the end of the page
  obtain ⟨front, u, v, back, horder, hfront⟩ : ∃ front u v back,
      rows.insertionSort r = front ++ u :: v :: back ∧ front.length = m * p - 1 := by
    match hdrop : (rows.insertionSort r).drop (m * p - 1) with
    | [] | [_] =>
      have hd := congrArg List.length hdrop
      simp only [List.length_drop, List.length_nil, List.length_singleton] at hd
      omega
    | u :: v :: back =>
      refine ⟨(rows.insertionSort r).take (m * p - 1), u, v, back, ?_, ?_⟩
      · rw [← hdrop, List.take_append_drop]
      · rw [List.length_take]
        omega
  rw [horder] at hsort
  refine ⟨_, _, u, hsort, hsort.swap (x := x) (by omega) (by omega), ?_, ?_⟩
  · have hpred : (m - 1) * p + p = m * p := by
      rw [← Nat.succ_mul, Nat.succ_eq_add_one, Nat.sub_add_cancel hm]
    refine List.mem_of_getElem? (i := p - 1) ?_
    rw [List.getElem?_take_of_lt (by omega), List.getElem?_drop,
      List.getElem?_append_right (by omega)]
    have hzero : (m - 1) * p + (p - 1) - front.length = 0 := by omega
    rw [hzero]
    rfl
  · refine List.mem_of_getElem? (i := 0) ?_
    rw [List.getElem?_take_of_lt hp, List.getElem?_drop, List.getElem?_append_right (by omega)]
    have hone : m * p + 0 - front.length = 1 := by omega
    rw [hone]
    rfl

/-- Rows that do not tie are cut by no page. -/
theorem uncut_of_antisymm (hn : rows.Nodup)
    (hanti : ∀ x ∈ rows, ∀ y ∈ rows, r x y → r y x → x = y) : Uncut r rows p := by
  intro x hx
  have hsort := arranges_insertionSort (r := r) rows
  obtain ⟨front, back, hplace⟩ := List.append_of_mem (hsort.perm.mem_iff.mpr hx)
  rw [hplace] at hsort
  have hrefl : r x x := (Std.Total.total (r := r) x x).elim id id
  have hnodup := hsort.perm.nodup_iff.mpr hn
  obtain ⟨-, hxback, hcross⟩ := List.pairwise_append.mp hsort.sorted
  have hmem : ∀ y ∈ front ++ x :: back, y ∈ rows := fun y hy => hsort.perm.mem_iff.mp hy
  have hfront : front.countP (fun y => ¬ r x y) = front.length := by
    rw [List.countP_eq_length]
    intro y hy
    refine decide_eq_true fun hxy => ?_
    have hyx := hanti x hx y (hmem y (List.mem_append_left _ hy)) hxy
      (hcross y hy x List.mem_cons_self)
    exact List.disjoint_of_nodup_append hnodup hy (hyx ▸ List.mem_cons_self)
  have hback : back.countP (fun y => r y x) = 0 := by
    rw [List.countP_eq_zero]
    intro y hy hyx
    have hxy := hanti x hx y (hmem y (by simp [hy])) ((List.pairwise_cons.mp hxback).1 y hy)
      (of_decide_eq_true hyx)
    exact (List.nodup_cons.mp hnodup.of_append_right).1 (hxy ▸ hy)
  have hself : (x :: back).countP (fun y => r y x) = back.countP (fun y => r y x) + 1 :=
    List.countP_cons_of_pos (decide_eq_true hrefl)
  have hle : front.countP (fun y => r y x) ≤ front.length := List.countP_le_length
  have hbefore : before r rows x = front.length := by
    refine le_antisymm (before_le_and_lt_upTo hsort).1 ?_
    rw [hsort.before_eq, before, List.countP_append, hfront]
    exact Nat.le_add_right _ _
  have hupTo : upTo r rows x = front.length + 1 := by
    refine le_antisymm ?_ (before_le_and_lt_upTo hsort).2
    rw [hsort.upTo_eq, upTo, List.countP_append, hself, hback]
    omega
  rw [hbefore, hupTo, Nat.add_sub_cancel]

/-- The pages that a client collects hold every row once, whatever the orders of the
queries, exactly if they cut no ties. -/
theorem collects_iff (hn : rows.Nodup) (hp : 0 < p) :
    (∀ fetch : ℕ → List α, (∀ offset, Returns r rows offset p (fetch offset)) →
      ∃ result, Collects fetch p 0 result ∧ result.Perm rows) ↔ Uncut r rows p := by
  constructor
  · intro h
    by_contra hcut
    obtain ⟨x, hx⟩ := not_forall.mp hcut
    obtain ⟨hx, hne⟩ := Classical.not_imp.mp hx
    obtain ⟨front, back, hplace⟩ := List.append_of_mem
      ((arranges_insertionSort (r := r) rows).perm.mem_iff.mpr hx)
    have hbetween := before_le_and_lt_upTo (hplace ▸ arranges_insertionSort rows)
    have hle : before r rows x / p ≤ (upTo r rows x - 1) / p := Nat.div_le_div_right (by omega)
    obtain ⟨m, hmdef⟩ : ∃ m, m = (upTo r rows x - 1) / p := ⟨_, rfl⟩
    have hlow : before r rows x < m * p := (Nat.div_lt_iff_lt_mul hp).mp (by omega)
    have hup : m * p ≤ upTo r rows x - 1 := (Nat.le_div_iff_mul_le hp).mp hmdef.le
    have hm : 0 < m := by
      rcases Nat.eq_zero_or_pos m with rfl | hm
      · omega
      · exact hm
    obtain ⟨first, second, u, hfirst, hsecond, hu₁, hu₂⟩ :=
      exists_twice hm hp hlow (by omega : m * p < upTo r rows x)
    let fetch offset := if offset < m * p then (first.drop offset).take p
      else (second.drop offset).take p
    have hfetch : ∀ offset, Returns r rows offset p (fetch offset) := by
      intro offset
      simp only [fetch]
      split
      · exact ⟨first, hfirst, rfl⟩
      · exact ⟨second, hsecond, rfl⟩
    have hpred : (m - 1) * p + p = m * p := by
      rw [← Nat.succ_mul, Nat.succ_eq_add_one, Nat.sub_add_cancel hm]
    have hlen : upTo r rows x ≤ rows.length := List.countP_le_length
    have hfull : ∀ k < m, p ≤ (fetch (0 + k * p)).length := by
      intro k hk
      have hk : k * p ≤ (m - 1) * p := Nat.mul_le_mul_right p (by omega)
      rw [(hfetch _).length]
      omega
    obtain ⟨result, hresult, hperm⟩ := h fetch hfetch
    obtain ⟨collected, rest, rfl, hrest⟩ := hresult.after (m - 1) fun k hk => hfull k (by omega)
    have hlast := hfull (m - 1) (by omega)
    cases hrest with
    | short hlt => omega
    | @next _ rest _ hrest =>
      rw [Nat.zero_add, hpred] at hrest
      rw [Nat.zero_add] at hperm
      have hnodup := (hperm.nodup_iff.mpr hn).of_append_right
      have hu₁' : u ∈ fetch ((m - 1) * p) := by
        simp only [fetch]
        rwa [if_pos (by omega)]
      have hu₂' : u ∈ fetch (m * p) := by
        simp only [fetch]
        rwa [if_neg (lt_irrefl _)]
      exact (List.disjoint_of_nodup_append hnodup) hu₁' (hrest.first_page.mem hu₂')
  · intro hu fetch hfetch
    obtain ⟨result, hresult⟩ := exists_collects hp (fun offset => (hfetch offset).length) 0
    refine ⟨result, hresult, ?_⟩
    have hperm := hu.collects_perm hp hfetch hresult 0 (Nat.zero_mul p).symm
    simpa using hperm

end Ties

end Pages
