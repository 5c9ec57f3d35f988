import Mathlib.Data.List.Basic

/-!
# Graphs of shared objects

What a loader builds of a text in which one part may refer to another: scalars, and containers that
several places may refer to, also a container to itself.  An item of a list that is replaced in
place is replaced at each path that leads to the list.

## Main definitions

* `Value`, `Node`, `Heap` — values, containers and where they are.
* `resolve`, `observe` — the value at a path, and what is seen of it.
* `replaceItems` — the items of some lists are replaced.
* `Replaced`, `Unreplaced` — an item that is replaced, and a path without one.

## Main results

* `Unreplaced.observe` — what is seen at a path without a replaced item stays.
* `exists_first` — the first item of a path that is replaced.
* `resolve_replaced` — what is at a first item then.
-/

namespace NextRole

namespace ObjectGraph

/-! ### Containers -/

/-- A scalar, or a reference to a container. -/
inductive Value (σ : Type)
  | scalar (s : σ)
  | ref (a : ℕ)
  deriving Repr, DecidableEq

/-- A list, a dictionary, or a container of another type with its parts. -/
inductive Node (κ σ : Type)
  | list (items : List (Value σ))
  | dict (entries : List (κ × Value σ))
  | other (parts : List (Value σ))
  deriving Repr, DecidableEq

/-- The containers by their addresses. -/
abbrev Heap (κ σ : Type) := List (Node κ σ)

variable {κ σ : Type}

/-- What is seen of a value: a scalar, or the type of a container with its keys or its length. -/
inductive Shape (κ σ : Type)
  | scalar (s : σ)
  | list (length : ℕ)
  | dict (keys : List κ)
  | other (length : ℕ)
  | dangling
  deriving Repr, DecidableEq

/-- What is seen of a value. -/
def shape (heap : Heap κ σ) : Value σ → Shape κ σ
  | .scalar s => .scalar s
  | .ref a =>
    match heap[a]? with
    | some (.list items) => .list items.length
    | some (.dict entries) => .dict (entries.map Prod.fst)
    | some (.other parts) => .other parts.length
    | none => .dangling

/-- The items of a value that is a list. -/
def listAt (heap : Heap κ σ) : Value σ → Option (List (Value σ))
  | .ref a =>
    match heap[a]? with
    | some (.list items) => some items
    | _ => none
  | .scalar _ => none

/-- The entries of a value that is a dictionary. -/
def dictAt (heap : Heap κ σ) : Value σ → Option (List (κ × Value σ))
  | .ref a =>
    match heap[a]? with
    | some (.dict entries) => some entries
    | _ => none
  | .scalar _ => none

/-- The keys of a container. -/
def Node.keys : Node κ σ → List κ
  | dict entries => entries.map Prod.fst
  | _ => []

/-- The list that a value refers to. -/
theorem listAt_eq_some {heap : Heap κ σ} {v : Value σ}
    {items : List (Value σ)} :
    listAt heap v = some items ↔ ∃ a, v = .ref a ∧ heap[a]? = some (.list items) := by
  unfold listAt
  split
  · next a =>
    split
    · next items' hitems => simp [hitems]
    · next hother =>
      simp only [Value.ref.injEq, reduceCtorEq, false_iff, not_exists, not_and]
      rintro _ rfl
      exact hother items
  · simp

/-- The dictionary that a value refers to. -/
theorem dictAt_eq_some {heap : Heap κ σ} {v : Value σ}
    {entries : List (κ × Value σ)} :
    dictAt heap v = some entries ↔ ∃ a, v = .ref a ∧ heap[a]? = some (.dict entries) := by
  unfold dictAt
  split
  · next a =>
    split
    · next entries' hentries => simp [hentries]
    · next hother =>
      simp only [Value.ref.injEq, reduceCtorEq, false_iff, not_exists, not_and]
      rintro _ rfl
      exact hother entries
  · simp

/-! ### Replacing items in place -/

/-- The items of the lists at some addresses are replaced. -/
def replaceItems (heap : Heap κ σ) (p : ℕ → Prop) [DecidablePred p] (f : Value σ → Value σ) :
    Heap κ σ :=
  heap.mapIdx fun a node =>
    match node with
    | .list items => if p a then .list (items.map f) else node
    | _ => node

section

variable {heap : Heap κ σ} {p : ℕ → Prop} [DecidablePred p] {f : Value σ → Value σ} {v : Value σ}

theorem getElem?_replaceItems (a : ℕ) :
    (replaceItems heap p f)[a]? = heap[a]?.map fun node =>
      match node with
      | .list items => if p a then .list (items.map f) else node
      | _ => node := by
  rw [replaceItems, List.getElem?_mapIdx]

/-- Two replacements by a function that changes nothing twice. -/
theorem replaceItems_replaceItems {q : ℕ → Prop} [DecidablePred q] (hf : ∀ v, f (f v) = f v) :
    replaceItems (replaceItems heap p f) q f = replaceItems heap (fun a => p a ∨ q a) f := by
  apply List.ext_getElem?
  intro a
  rw [getElem?_replaceItems, getElem?_replaceItems, getElem?_replaceItems, Option.map_map]
  congr 1
  funext node
  cases node with
  | list items =>
    have htwice : (items.map f).map f = items.map f := by
      rw [List.map_map]
      exact List.map_congr_left fun v _ => hf v
    by_cases hp : p a <;> by_cases hq : q a <;> simp [hp, hq, htwice]
  | dict entries => rfl
  | other parts => rfl

/-- A replacement depends on the addresses of lists alone. -/
theorem replaceItems_congr {q : ℕ → Prop} [DecidablePred q]
    (h : ∀ a items, heap[a]? = some (.list items) → (p a ↔ q a)) :
    replaceItems heap p f = replaceItems heap q f := by
  apply List.ext_getElem?
  intro a
  rw [getElem?_replaceItems, getElem?_replaceItems]
  cases hnode : heap[a]? with
  | none => rfl
  | some node =>
    cases node with
    | list items => simp only [Option.map_some, h a items hnode]
    | dict entries => rfl
    | other parts => rfl

/-- The items of one list are replaced. -/
theorem set_eq_replaceItems {a : ℕ} {items : List (Value σ)}
    (h : heap[a]? = some (.list items)) :
    heap.set a (.list (items.map f)) = replaceItems heap (fun b => b = a) f := by
  apply List.ext_getElem?
  intro b
  rw [getElem?_replaceItems, List.getElem?_set]
  by_cases hb : a = b
  · subst hb
    have hlt : a < heap.length := (List.getElem?_eq_some_iff.mp h).1
    rw [if_pos rfl, if_pos hlt, h]
    simp
  · rw [if_neg hb]
    cases heap[b]? with
    | none => rfl
    | some node => cases node <;> simp [Ne.symm hb]

theorem listAt_replaceItems (a : ℕ) : listAt (replaceItems heap p f) (.ref a) =
    (listAt heap (.ref a)).map fun items => if p a then items.map f else items := by
  simp only [listAt, getElem?_replaceItems]
  cases heap[a]? with
  | none => rfl
  | some node =>
    cases node with
    | list items => by_cases ha : p a <;> simp [ha]
    | dict entries => rfl
    | other parts => rfl

@[simp] theorem dictAt_replaceItems : dictAt (replaceItems heap p f) v = dictAt heap v := by
  cases v with
  | scalar s => rfl
  | ref a =>
    simp only [dictAt, getElem?_replaceItems]
    cases heap[a]? with
    | none => rfl
    | some node =>
      cases node with
      | list items => by_cases ha : p a <;> simp [ha]
      | dict entries => rfl
      | other parts => rfl

@[simp] theorem shape_replaceItems : shape (replaceItems heap p f) v = shape heap v := by
  cases v with
  | scalar s => rfl
  | ref a =>
    simp only [shape, getElem?_replaceItems]
    cases heap[a]? with
    | none => rfl
    | some node =>
      cases node with
      | list items => by_cases ha : p a <;> simp [ha]
      | dict entries => rfl
      | other parts => rfl

end

/-! ### Paths -/

/-- One step into a container. -/
inductive Step (κ : Type)
  | key (k : κ)
  | index (i : ℕ)
  | part (i : ℕ)
  deriving Repr, DecidableEq

variable [DecidableEq κ]

/-- The value that a step into a container leads to. -/
def Node.child : Node κ σ → Step κ → Option (Value σ)
  | list items, .index i => items[i]?
  | dict entries, .key k => entries.lookup k
  | other parts, .part i => parts[i]?
  | _, _ => none

/-- The value that a step leads to. -/
def child (heap : Heap κ σ) : Value σ → Step κ → Option (Value σ)
  | .ref a, step => heap[a]?.bind fun node => node.child step
  | .scalar _, _ => none

/-- The value at a path. -/
def resolve (heap : Heap κ σ) (v : Value σ) : List (Step κ) → Option (Value σ)
  | [] => some v
  | step :: path => (child heap v step).bind fun w => resolve heap w path

/-- What is seen at a path. -/
def observe (heap : Heap κ σ) (v : Value σ) (path : List (Step κ)) : Option (Shape κ σ) :=
  (resolve heap v path).map (shape heap)

section

variable {heap : Heap κ σ} {v w : Value σ} {path : List (Step κ)}

theorem resolve_append (p q : List (Step κ)) :
    resolve heap v (p ++ q) = (resolve heap v p).bind fun w => resolve heap w q := by
  induction p generalizing v with
  | nil => rfl
  | cons step p ih =>
    simp only [List.cons_append, resolve]
    cases child heap v step with
    | none => rfl
    | some w => exact ih

theorem child_index (i : ℕ) :
    child heap v (.index i) = (listAt heap v).bind fun items => items[i]? := by
  cases v with
  | scalar s => rfl
  | ref a =>
    simp only [child, listAt]
    cases heap[a]? with
    | none => rfl
    | some node => cases node <;> rfl

theorem child_key (k : κ) :
    child heap v (.key k) = (dictAt heap v).bind fun entries => entries.lookup k := by
  cases v with
  | scalar s => rfl
  | ref a =>
    simp only [child, dictAt]
    cases heap[a]? with
    | none => rfl
    | some node => cases node <;> rfl

end

/-! ### What a replacement leaves -/

/-- Item `i` of the list at a path is replaced by another value. -/
def Replaced (heap : Heap κ σ) (p : ℕ → Prop) (f : Value σ → Value σ) (v : Value σ)
    (path : List (Step κ)) (i : ℕ) (item : Value σ) : Prop :=
  ∃ a items, resolve heap v path = some (.ref a) ∧ heap[a]? = some (.list items) ∧ p a ∧
    items[i]? = some item ∧ f item ≠ item

/-- No item on the way of a path is replaced. -/
def Unreplaced (heap : Heap κ σ) (p : ℕ → Prop) (f : Value σ → Value σ) (v : Value σ)
    (path : List (Step κ)) : Prop :=
  ∀ q i rest item, path = q ++ .index i :: rest → ¬ Replaced heap p f v q i item

section

variable {heap : Heap κ σ} {p : ℕ → Prop} {f : Value σ → Value σ} {v w : Value σ}

theorem Unreplaced.tail {step : Step κ} {path : List (Step κ)}
    (h : Unreplaced heap p f v (step :: path)) (hw : child heap v step = some w) :
    Unreplaced heap p f w path := by
  rintro q i rest item rfl ⟨a, items, hq, hrest⟩
  refine h (step :: q) i rest item rfl ⟨a, items, ?_, hrest⟩
  rw [resolve, hw, Option.bind_some, hq]

theorem Unreplaced.of_append {q r : List (Step κ)} (h : Unreplaced heap p f v (q ++ r)) :
    Unreplaced heap p f v q := by
  rintro q' i rest item rfl
  exact h q' i (rest ++ r) item (by simp)

theorem Unreplaced.concat {path : List (Step κ)} {i : ℕ} (h : Unreplaced heap p f v path)
    (hitem : ∀ item, ¬ Replaced heap p f v path i item) :
    Unreplaced heap p f v (path ++ [.index i]) := by
  intro q j rest item hpath hreplaced
  rcases List.eq_nil_or_concat rest with rfl | ⟨rest, step, rfl⟩
  · obtain ⟨rfl, hlast⟩ := List.append_inj' hpath rfl
    cases hlast
    exact hitem item hreplaced
  · rw [List.concat_eq_append, ← List.cons_append, ← List.append_assoc] at hpath
    obtain ⟨rfl, -⟩ := List.append_inj' hpath rfl
    exact h q j rest item rfl hreplaced

/-- **The first item of a path that is replaced.** -/
theorem exists_first {path : List (Step κ)} (h : ¬ Unreplaced heap p f v path) :
    ∃ q i rest item, path = q ++ .index i :: rest ∧ Unreplaced heap p f v q ∧
      Replaced heap p f v q i item := by
  induction path generalizing v with
  | nil =>
    refine absurd (fun q i rest item hpath => ?_) h
    cases q <;> cases hpath
  | cons step path ih =>
    by_cases hhead : ∃ i item, step = .index i ∧ Replaced heap p f v [] i item
    · obtain ⟨i, item, rfl, hreplaced⟩ := hhead
      refine ⟨[], i, path, item, rfl, fun q j rest item' hq => ?_, hreplaced⟩
      cases q <;> cases hq
    · -- the step leads somewhere, and the rest of the path has a replaced item
      obtain ⟨w, hw, hrest⟩ : ∃ w, child heap v step = some w ∧ ¬ Unreplaced heap p f w path := by
        by_contra hnone
        simp only [not_exists, not_and, not_not] at hnone
        refine h fun q i rest item hpath hreplaced => ?_
        cases q with
        | nil =>
          cases hpath
          exact hhead ⟨i, item, rfl, hreplaced⟩
        | cons step' q =>
          cases hpath
          obtain ⟨a, items, hq, hlist⟩ := hreplaced
          rw [resolve] at hq
          obtain ⟨w, hw, hq⟩ := Option.bind_eq_some_iff.mp hq
          exact hnone w hw q i rest item rfl ⟨a, items, hq, hlist⟩
      obtain ⟨q, i, rest, item, rfl, hq, a, items, hresolve, hlist⟩ := ih hrest
      refine ⟨step :: q, i, rest, item, rfl, ?_, a, items, ?_, hlist⟩
      · intro q' j rest' item' hpath hreplaced
        cases q' with
        | nil =>
          cases hpath
          exact hhead ⟨j, item', rfl, hreplaced⟩
        | cons step' q' =>
          cases hpath
          obtain ⟨b, items', hq', hlist'⟩ := hreplaced
          rw [resolve] at hq'
          obtain ⟨w', hw', hq'⟩ := Option.bind_eq_some_iff.mp hq'
          obtain rfl := Option.some.inj (hw.symm.trans hw')
          exact hq q' j rest' item' rfl ⟨b, items', hq', hlist'⟩
      · rw [resolve, hw, Option.bind_some, hresolve]

variable [DecidablePred p]

/-- A step that leads to no replaced item leads to the same value. -/
theorem child_replaceItems {step : Step κ}
    (h : ∀ i item, step = .index i → ¬ Replaced heap p f v [] i item) :
    child (replaceItems heap p f) v step = child heap v step := by
  cases v with
  | scalar s => rfl
  | ref a =>
    simp only [child, getElem?_replaceItems]
    cases hnode : heap[a]? with
    | none => rfl
    | some node =>
      cases node with
      | dict entries => rfl
      | other parts => rfl
      | list items =>
        by_cases ha : p a
        · simp only [Option.map_some, Option.bind_some, if_pos ha]
          cases step with
          | key k => rfl
          | part i => rfl
          | index i =>
            simp only [Node.child, List.getElem?_map]
            cases hitem : items[i]? with
            | none => rfl
            | some item =>
              have hsame : f item = item := by
                by_contra hne
                exact h i item rfl ⟨a, items, rfl, hnode, ha, hitem, hne⟩
              rw [Option.map_some, hsame]
        · simp [ha]

theorem Unreplaced.resolve {path : List (Step κ)} (h : Unreplaced heap p f v path) :
    resolve (replaceItems heap p f) v path = resolve heap v path := by
  induction path generalizing v with
  | nil => rfl
  | cons step path ih =>
    have hstep : ∀ i item, step = .index i → ¬ Replaced heap p f v [] i item := by
      rintro i item rfl
      exact h [] i path item rfl
    rw [ObjectGraph.resolve, ObjectGraph.resolve, child_replaceItems hstep]
    cases hw : child heap v step with
    | none => rfl
    | some w => exact ih (h.tail hw)

/-- **What is seen at a path without a replaced item stays.** -/
theorem Unreplaced.observe {path : List (Step κ)} (h : Unreplaced heap p f v path) :
    observe (replaceItems heap p f) v path = observe heap v path := by
  rw [ObjectGraph.observe, ObjectGraph.observe, h.resolve]
  congr 1
  funext w
  exact shape_replaceItems

/-- **What is at a first item that is replaced.** -/
theorem resolve_replaced {path : List (Step κ)} {i : ℕ} {item : Value σ}
    (hpath : Unreplaced heap p f v path) (h : Replaced heap p f v path i item) :
    resolve (replaceItems heap p f) v (path ++ [.index i]) = some (f item) := by
  obtain ⟨a, items, hresolve, hlist, ha, hitem, -⟩ := h
  have hchild : child (replaceItems heap p f) (.ref a) (.index i) = some (f item) := by
    simp [child, getElem?_replaceItems, hlist, ha, Node.child, hitem]
  rw [resolve_append, hpath.resolve, hresolve, Option.bind_some, resolve, hchild]
  rfl

end

end ObjectGraph

end NextRole
