import Mathlib.Data.List.Nodup
import Mathlib.Data.List.Perm.Subperm

/-!
# Ancestors up to a stop

The ancestors of a node along recorded parents: up to the nearest node that stops the walk, which
is included, or else up to the root or to a parent that is not recorded.

## Main definitions

* `AncestorChain` — the ancestors, the nearest first.
* `AncestryEnds` — the walk stops, or ends at the root, among the nodes that are recorded.

## Main results

* `exists_ancestorChain`, `AncestorChain.unique` — in a tree there is exactly one chain.
* `AncestorChain.length_le` — a chain visits a node once.
* `AncestorChain.lift` — a walk that has ended stays as it is when more nodes are recorded.
-/

variable {κ ρ : Type*} (find : κ → Option ρ) (parent : ρ → Option κ) (stop : ρ → Bool)

/-- The ancestors from a node on, the nearest first. -/
inductive AncestorChain : Option κ → List ρ → Prop
  | root : AncestorChain none []
  | gone {id : κ} : find id = none → AncestorChain (some id) []
  | stopped {id : κ} {row : ρ} : find id = some row → stop row = true →
      AncestorChain (some id) [row]
  | step {id : κ} {row : ρ} {chain : List ρ} : find id = some row → stop row = false →
      AncestorChain (parent row) chain → AncestorChain (some id) (row :: chain)

/-- The walk from a node on ends among the nodes that are recorded. -/
inductive AncestryEnds : Option κ → Prop
  | root : AncestryEnds none
  | stopped {id : κ} {row : ρ} : find id = some row → stop row = true → AncestryEnds (some id)
  | step {id : κ} {row : ρ} : find id = some row → AncestryEnds (parent row) →
      AncestryEnds (some id)

variable {find parent stop}

namespace AncestorChain

theorem eq_nil {chain : List ρ} (h : AncestorChain find parent stop none chain) : chain = [] := by
  cases h
  rfl

theorem exists_find {start : Option κ} {chain : List ρ}
    (h : AncestorChain find parent stop start chain) {row : ρ} (hrow : row ∈ chain) :
    ∃ id, find id = some row := by
  induction h with
  | root => cases hrow
  | gone _ => cases hrow
  | @stopped id row' hfind _ =>
    rw [List.mem_singleton.mp hrow]
    exact ⟨id, hfind⟩
  | @step id row' chain hfind _ _ ih =>
    rcases List.mem_cons.mp hrow with rfl | hrow
    · exact ⟨id, hfind⟩
    · exact ih hrow

/-- There is at most one chain. -/
theorem unique {start : Option κ} {chain chain' : List ρ}
    (h : AncestorChain find parent stop start chain)
    (h' : AncestorChain find parent stop start chain') : chain = chain' := by
  induction h generalizing chain' with
  | root => exact h'.eq_nil.symm
  | gone hfind =>
    cases h' with
    | gone _ => rfl
    | stopped hfind' _ => exact nomatch hfind.symm.trans hfind'
    | step hfind' _ _ => exact nomatch hfind.symm.trans hfind'
  | stopped hfind hstop =>
    cases h' with
    | gone hfind' => exact nomatch hfind.symm.trans hfind'
    | stopped hfind' _ => rw [hfind] at hfind'; cases hfind'; rfl
    | step hfind' hstop' _ =>
      rw [hfind] at hfind'
      cases hfind'
      rw [hstop] at hstop'
      cases hstop'
  | step hfind hstop _ ih =>
    cases h' with
    | gone hfind' => exact nomatch hfind.symm.trans hfind'
    | stopped hfind' hstop' =>
      rw [hfind] at hfind'
      cases hfind'
      rw [hstop] at hstop'
      cases hstop'
    | step hfind' _ hchain' =>
      rw [hfind] at hfind'
      cases hfind'
      rw [ih hchain']

/-- A walk that has ended stays as it is when more nodes are recorded. -/
theorem lift {find' : κ → Option ρ}
    (hmore : ∀ id row, find id = some row → find' id = some row) {start : Option κ}
    {chain : List ρ} (h : AncestorChain find parent stop start chain)
    (hends : AncestryEnds find parent stop start) :
    AncestorChain find' parent stop start chain := by
  induction h with
  | root => exact .root
  | gone hfind =>
    cases hends with
    | stopped hfind' _ => exact nomatch hfind.symm.trans hfind'
    | step hfind' _ => exact nomatch hfind.symm.trans hfind'
  | stopped hfind hstop => exact .stopped (hmore _ _ hfind) hstop
  | step hfind hstop _ ih =>
    refine .step (hmore _ _ hfind) hstop (ih ?_)
    cases hends with
    | stopped hfind' hstop' =>
      rw [hfind] at hfind'
      cases hfind'
      rw [hstop] at hstop'
      cases hstop'
    | step hfind' hends =>
      rw [hfind] at hfind'
      cases hfind'
      exact hends

/-- The nodes of a chain, each read as another kind of node. -/
theorem map {σ : Type*} {find' : κ → Option σ} {parent' : σ → Option κ} {stop' : σ → Bool}
    {f : ρ → σ} (hfind : ∀ id, find' id = (find id).map f)
    (hparent : ∀ id row, find id = some row → parent' (f row) = parent row)
    (hstop : ∀ id row, find id = some row → stop' (f row) = stop row) {start : Option κ}
    {chain : List ρ} (h : AncestorChain find parent stop start chain) :
    AncestorChain find' parent' stop' start (chain.map f) := by
  induction h with
  | root => exact .root
  | @gone id hnone =>
    refine .gone ?_
    rw [hfind, hnone, Option.map_none]
  | @stopped id row hrow hstopped =>
    refine .stopped ?_ ((hstop id row hrow).trans hstopped)
    rw [hfind, hrow, Option.map_some]
  | @step id row chain hrow hgoes _ ih =>
    refine .step ?_ ((hstop id row hrow).trans hgoes) ?_
    · rw [hfind, hrow, Option.map_some]
    · rw [hparent id row hrow]
      exact ih

end AncestorChain

/-! ### Trees -/

section

variable {rank : κ → ℕ}
  (hrank : ∀ id row, find id = some row → ∀ id', parent row = some id' → rank id' < rank id)

include hrank

/-- In a tree every node has a chain. -/
theorem exists_ancestorChain (start : Option κ) :
    ∃ chain, AncestorChain find parent stop start chain := by
  have hsome : ∀ n id, rank id < n → ∃ chain, AncestorChain find parent stop (some id) chain := by
    intro n
    induction n with
    | zero => intro id hid; omega
    | succ n ih =>
      intro id hid
      cases hfind : find id with
      | none => exact ⟨[], .gone hfind⟩
      | some row =>
        cases hstop : stop row with
        | true => exact ⟨[row], .stopped hfind hstop⟩
        | false =>
          cases hparent : parent row with
          | none => exact ⟨[row], .step hfind hstop (hparent ▸ .root)⟩
          | some id' =>
            have hlt := hrank id row hfind id' hparent
            obtain ⟨chain, hchain⟩ := ih id' (by omega)
            exact ⟨row :: chain, .step hfind hstop (hparent ▸ hchain)⟩
  cases start with
  | none => exact ⟨[], .root⟩
  | some id => exact hsome _ id (Nat.lt_succ_self _)

variable {rows : List ρ} {key : ρ → κ} (hrows : ∀ id row, find id = some row → row ∈ rows ∧ key row = id)

include hrows

/-- The nodes of a chain are recorded, and no node is below the start. -/
theorem AncestorChain.mem {start : Option κ} {chain : List ρ}
    (h : AncestorChain find parent stop start chain) {row : ρ} (hrow : row ∈ chain) :
    row ∈ rows ∧ ∀ id, start = some id → rank (key row) ≤ rank id := by
  induction h with
  | root => cases hrow
  | gone _ => cases hrow
  | @stopped id row' hfind _ =>
    obtain ⟨hmem, rfl⟩ := hrows id row' hfind
    rw [List.mem_singleton.mp hrow]
    refine ⟨hmem, ?_⟩
    rintro _ ⟨⟩
    exact Nat.le_refl _
  | @step id row' chain hfind _ hchain ih =>
    obtain ⟨hmem, rfl⟩ := hrows id row' hfind
    rcases List.mem_cons.mp hrow with rfl | hrow
    · refine ⟨hmem, ?_⟩
      rintro _ ⟨⟩
      exact Nat.le_refl _
    · obtain ⟨hmem', hle⟩ := ih hrow
      refine ⟨hmem', ?_⟩
      rintro _ ⟨⟩
      cases hparent : parent row' with
      | none =>
        have hnil : AncestorChain find parent stop none chain := hparent ▸ hchain
        rw [hnil.eq_nil] at hrow
        cases hrow
      | some id' =>
        have hup := hle id' hparent
        have hlt := hrank _ row' hfind id' hparent
        omega

/-- A chain visits a node once. -/
theorem AncestorChain.nodup {start : Option κ} {chain : List ρ}
    (h : AncestorChain find parent stop start chain) : chain.Nodup := by
  induction h with
  | root => exact List.nodup_nil
  | gone _ => exact List.nodup_nil
  | stopped _ _ => exact List.nodup_singleton _
  | @step id row chain hfind _ hchain ih =>
    refine List.nodup_cons.mpr ⟨fun hmem => ?_, ih⟩
    obtain ⟨-, rfl⟩ := hrows id row hfind
    cases hparent : parent row with
    | none =>
      have hnil : AncestorChain find parent stop none chain := hparent ▸ hchain
      rw [hnil.eq_nil] at hmem
      cases hmem
    | some id' =>
      have hle := (hchain.mem hrank hrows hmem).2 id' hparent
      have hlt := hrank _ row hfind id' hparent
      omega

theorem AncestorChain.length_le {start : Option κ} {chain : List ρ}
    (h : AncestorChain find parent stop start chain) : chain.length ≤ rows.length :=
  ((h.nodup hrank hrows).subperm fun _ hrow => (h.mem hrank hrows hrow).1).length_le

end
