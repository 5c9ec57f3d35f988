import Mathlib.Data.List.Infix
import Mathlib.Data.List.TakeWhile

/-!
# Paths kept as joined text

A path is a list of labels.  A store keeps it as one text, the labels joined by a
separator, and finds paths by comparing texts: by a common start, or by a pattern
with wildcards.  What is under a path by its text is under it by its labels only where
the text runs on over a separator.

## Main definitions

* `Path.join sep labels` — the text of a path.
* `Path.first sep text` — the first label that a text reads back as.
* `Path.Glob`, `Path.glob` — the texts of a pattern, whose `none` is a wildcard.

## Main results

* `Path.first_join` — a label without separator reads back.
* `Path.prefix_first` — what starts with a label has a first label that starts with it.
* `Path.numbered_inj` — a label and its number read back.
* `Path.glob_append` — a pattern in two parts.
-/

namespace Path

variable {α : Type*} {sep : α} {s t : List α}

/-! ### Joined labels -/

/-- The labels joined by a separator. -/
def join (sep : α) (labels : List (List α)) : List α := [sep].intercalate labels

@[simp] theorem join_singleton (s : List α) : join sep [s] = s :=
  List.intercalate_singleton

theorem join_cons_of_ne_nil (s : List α) {labels : List (List α)} (h : labels ≠ []) :
    join sep (s :: labels) = s ++ sep :: join sep labels := by
  rw [join, List.intercalate_cons_of_ne_nil h, List.append_assoc]
  rfl

theorem prefix_join (s : List α) (labels : List (List α)) : s <+: join sep (s :: labels) := by
  cases labels with
  | nil => exact (join_singleton s).symm ▸ List.prefix_rfl
  | cons label labels =>
    rw [join_cons_of_ne_nil s (List.cons_ne_nil _ _)]
    exact List.prefix_append _ _

theorem join_inj [DecidableEq α] {labels labels' : List (List α)} (h : ∀ s ∈ labels, sep ∉ s)
    (h' : ∀ s ∈ labels', sep ∉ s) (hne : labels ≠ []) (hne' : labels' ≠ [])
    (heq : join sep labels = join sep labels') : labels = labels' := by
  rw [← List.splitOn_intercalate sep h hne, ← List.splitOn_intercalate sep h' hne']
  exact congrArg (List.splitOn sep) heq

/-- A last label without separator reads back. -/
theorem append_sep_inj {s' t' : List α} (h : sep ∉ t) (h' : sep ∉ t')
    (heq : s ++ sep :: t = s' ++ sep :: t') : s = s' ∧ t = t' := by
  rcases List.append_eq_append_iff.mp heq with ⟨u, rfl, hu⟩ | ⟨u, rfl, hu⟩
  · cases u with
    | nil =>
      rw [List.nil_append] at hu
      exact ⟨(List.append_nil _).symm, (List.cons.inj hu).2⟩
    | cons c u => exact absurd (by simp [(List.cons.inj hu).2]) h
  · cases u with
    | nil =>
      rw [List.nil_append] at hu
      exact ⟨List.append_nil _, (List.cons.inj hu).2.symm⟩
    | cons c u => exact absurd (by simp [(List.cons.inj hu).2]) h'

/-! ### Numbered labels -/

section Numbered

theorem notMem_toString {c : Char} (hc : c.isDigit = false) (n : ℕ) :
    c ∉ (toString n).toList := by
  intro hmem
  have hdigit : c.isDigit = true := by
    rw [Nat.toString_eq_repr, Nat.toList_repr] at hmem
    exact Nat.isDigit_of_mem_toDigits (by omega) (by omega) hmem
  rw [hc] at hdigit
  cases hdigit

theorem toString_injective {n m : ℕ} (h : toString n = toString m) : n = m := by
  have hdigits : Nat.toDigits 10 n = Nat.toDigits 10 m := by
    simpa only [Nat.toString_eq_repr, Nat.toList_repr] using congrArg String.toList h
  have hvalue := congrArg (fun digits => Nat.ofDigitChars 10 digits 0) hdigits
  simpa only [Nat.ofDigitChars_ten_toDigits] using hvalue

theorem numbered_inj {c : Char} (hc : c.isDigit = false) {s s' : String} {n m : ℕ}
    (h : s.toList ++ c :: (toString n).toList = s'.toList ++ c :: (toString m).toList) :
    s = s' ∧ n = m := by
  obtain ⟨hs, hn⟩ := append_sep_inj (notMem_toString hc n) (notMem_toString hc m) h
  exact ⟨String.toList_injective hs, toString_injective (String.toList_injective hn)⟩

end Numbered

/-! ### The first label -/

section First

variable [DecidableEq α]

/-- What a text holds before its first separator. -/
def first (sep : α) (text : List α) : List α := text.takeWhile (· ≠ sep)

@[simp] theorem first_append_sep (h : sep ∉ s) (t : List α) : first sep (s ++ sep :: t) = s := by
  have hs : ∀ c ∈ s, decide (c ≠ sep) = true := fun c hc =>
    decide_eq_true fun e => h (e ▸ hc)
  rw [first, List.takeWhile_append_of_pos hs]
  simp

theorem first_of_notMem (h : sep ∉ s) : first sep s = s :=
  List.takeWhile_eq_self_iff.mpr fun _ hc => decide_eq_true fun e => h (e ▸ hc)

theorem sep_notMem_first (text : List α) : sep ∉ first sep text := by
  intro h
  simpa using List.mem_takeWhile_imp h

/-- A text is its first label, or runs on over a separator. -/
theorem eq_first_or (sep : α) (text : List α) :
    text = first sep text ∨ ∃ rest, text = first sep text ++ sep :: rest := by
  induction text with
  | nil => exact .inl rfl
  | cons c text ih =>
    by_cases hc : c = sep
    · subst hc
      exact .inr ⟨text, by simp [first]⟩
    · have hf : first sep (c :: text) = c :: first sep text := by
        simp [first, hc]
      rw [hf]
      rcases ih with h | ⟨rest, h⟩
      · exact .inl (congrArg _ h)
      · exact .inr ⟨rest, congrArg _ h⟩

theorem first_join (h : sep ∉ s) (labels : List (List α)) : first sep (join sep (s :: labels)) = s := by
  cases labels with
  | nil => rw [join_singleton, first_of_notMem h]
  | cons label labels => rw [join_cons_of_ne_nil s (List.cons_ne_nil _ _), first_append_sep h]

theorem prefix_first (h : sep ∉ s) (hp : s <+: t) : s <+: first sep t := by
  obtain ⟨u, rfl⟩ := hp
  have hs : ∀ c ∈ s, decide (c ≠ sep) = true := fun c hc =>
    decide_eq_true fun e => h (e ▸ hc)
  rw [first, List.takeWhile_append_of_pos hs]
  exact List.prefix_append _ _

theorem first_of_prefix (h : sep ∈ s) (hp : s <+: t) : first sep t = first sep s := by
  obtain ⟨u, rfl⟩ := hp
  rcases eq_first_or sep s with hs | ⟨rest, hs⟩
  · exact absurd (hs ▸ h) (sep_notMem_first s)
  · conv_lhs => rw [hs, List.append_assoc, List.cons_append]
    exact first_append_sep (sep_notMem_first s) _

theorem head?_splitOn (text : List α) : (text.splitOn sep).head? = some (first sep text) := by
  rcases eq_first_or sep text with h | ⟨rest, h⟩
  · conv_lhs => rw [h]
    rw [List.splitOn_eq_singleton (sep_notMem_first text)]
    rfl
  · conv_lhs => rw [h]
    rw [List.splitOn_eq_splitOnP, List.splitOnP_append_cons_of_forall_mem]
    · rfl
    · intro c hc
      exact beq_false_of_ne fun e => sep_notMem_first text (e ▸ hc)
    · exact beq_self_eq_true sep

end First

/-! ### Patterns -/

/-- The texts of a pattern: `none` stands for any text. -/
inductive Glob : List (Option α) → List α → Prop
  | nil : Glob [] []
  | lit (c : α) {p : List (Option α)} {t : List α} (h : Glob p t) : Glob (some c :: p) (c :: t)
  | wild (s : List α) {p : List (Option α)} {t : List α} (h : Glob p t) : Glob (none :: p) (s ++ t)

/-- Whether a text is one of a pattern. -/
def glob [DecidableEq α] : List (Option α) → List α → Bool
  | [], t => t.isEmpty
  | some _ :: _, [] => false
  | some c :: p, d :: t => c = d && glob p t
  | none :: p, t => t.tails.any (glob p)

theorem glob_iff [DecidableEq α] {p : List (Option α)} {t : List α} : glob p t = true ↔ Glob p t := by
  constructor
  · intro h
    induction p generalizing t with
    | nil =>
      rw [glob, List.isEmpty_iff] at h
      exact h ▸ .nil
    | cons o p ih =>
      cases o with
      | some c =>
        cases t with
        | nil => cases h
        | cons d t =>
          rw [glob, Bool.and_eq_true, decide_eq_true_eq] at h
          exact h.1 ▸ .lit c (ih h.2)
      | none =>
        rw [glob, List.any_eq_true] at h
        obtain ⟨u, hu, h⟩ := h
        obtain ⟨s, rfl⟩ := (List.mem_tails u t).mp hu
        exact .wild s (ih h)
  · intro h
    induction h with
    | nil => rfl
    | lit c _ ih => rw [glob, ih, Bool.and_true, decide_eq_true rfl]
    | wild s _ ih =>
      rw [glob, List.any_eq_true]
      exact ⟨_, (List.mem_tails _ _).mpr (List.suffix_append _ _), ih⟩

/-- A pattern in two parts. -/
theorem glob_append {p q : List (Option α)} {t : List α} :
    Glob (p ++ q) t ↔ ∃ u v, t = u ++ v ∧ Glob p u ∧ Glob q v := by
  constructor
  · intro h
    induction p generalizing t with
    | nil => exact ⟨[], t, rfl, .nil, h⟩
    | cons o p ih =>
      cases h with
      | lit c h =>
        obtain ⟨u, v, rfl, hu, hv⟩ := ih h
        exact ⟨c :: u, v, rfl, .lit c hu, hv⟩
      | wild s h =>
        obtain ⟨u, v, rfl, hu, hv⟩ := ih h
        exact ⟨s ++ u, v, (List.append_assoc _ _ _).symm, .wild s hu, hv⟩
  · rintro ⟨u, v, rfl, hu, hv⟩
    induction hu with
    | nil => exact hv
    | lit c _ ih => exact .lit c ih
    | wild s _ ih =>
      rw [List.append_assoc]
      exact .wild s ih

/-- A text is the one text of the pattern without wildcards that it spells. -/
theorem glob_lits {t : List α} : Glob (s.map some) t ↔ t = s := by
  induction s generalizing t with
  | nil =>
    constructor
    · rintro ⟨⟩
      rfl
    · rintro rfl
      exact .nil
  | cons c s ih =>
    constructor
    · intro h
      cases h with
      | lit _ h => rw [ih.mp h]
    · rintro rfl
      exact .lit c (ih.mpr rfl)

theorem glob_wild (t : List α) : Glob [none] t := by
  have h : Glob [none] (t ++ []) := .wild t .nil
  rwa [List.append_nil] at h

theorem exists_glob (p : List (Option α)) : ∃ t : List α, Glob p t := by
  induction p with
  | nil => exact ⟨[], .nil⟩
  | cons o p ih =>
    obtain ⟨t, ht⟩ := ih
    cases o with
    | some c => exact ⟨c :: t, .lit c ht⟩
    | none => exact ⟨t, .wild [] ht⟩

end Path
