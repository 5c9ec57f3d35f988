import Mathlib.Data.List.Nodup

/-!
# Dictionaries in insertion order

A dictionary keeps its keys in the order in which they came: a new value for a key that
is there takes the place of the old one, a new key goes to the end.

## Main definitions

* `Dict` — entries with distinct keys.
* `Dict.get?`, `Dict.getAll?`, `Dict.set`, `Dict.erase`, `Dict.filter`, `Dict.values`.

## Main results

* `Dict.get?_eq_some_iff` — what is found is what is there.
* `Dict.getAll?_eq_some_iff` — what is found for several keys.
* `Dict.get?_setAll_of_mem` — of values for distinct keys each is found.
* `Dict.rel_of_mapValues?` — what is found after each value was computed.
* `Dict.get?_set`, `Dict.mem_set`, `Dict.forall_set` — a dictionary after `set`.
-/

/-- Entries with distinct keys. -/
structure Dict (κ ν : Type*) where
  entries : List (κ × ν) := []
  nodup : (entries.map Prod.fst).Nodup := by exact List.nodup_nil

namespace Dict

variable {κ ν : Type*} [DecidableEq κ] (d : Dict κ ν) {k k' : κ} {v v' : ν}

/-- The value of a key. -/
def get? (k : κ) : Option ν := d.entries.lookup k

/-- The values in their order. -/
def values : List ν := d.entries.map Prod.snd

/-- The values of the keys, if all of them have one. -/
def getAll? (keys : List κ) : Option (List ν) := keys.mapM d.get?

/-- The entries with a value for a key. -/
def setEntries (k : κ) (v : ν) : List (κ × ν) → List (κ × ν)
  | [] => [(k, v)]
  | e :: l => if e.1 = k then (k, v) :: l else e :: setEntries k v l

theorem mem_keys_setEntries {l : List (κ × ν)} :
    k' ∈ (setEntries k v l).map Prod.fst ↔ k' = k ∨ k' ∈ l.map Prod.fst := by
  induction l with
  | nil => simp [setEntries]
  | cons e l ih =>
    rw [setEntries]
    split
    · next h => simp [h]
    · simp only [List.map_cons, List.mem_cons, ih]
      exact or_left_comm

theorem nodup_setEntries {l : List (κ × ν)} (h : (l.map Prod.fst).Nodup) :
    ((setEntries k v l).map Prod.fst).Nodup := by
  induction l with
  | nil => exact List.nodup_singleton k
  | cons e l ih =>
    obtain ⟨he, hl⟩ := List.nodup_cons.mp h
    rw [setEntries]
    split
    · next heq => exact List.nodup_cons.mpr ⟨heq ▸ he, hl⟩
    · next hne =>
      refine List.nodup_cons.mpr ⟨fun hmem => ?_, ih hl⟩
      exact (mem_keys_setEntries.mp hmem).elim hne he

/-- A value for a key. -/
def set (k : κ) (v : ν) : Dict κ ν where
  entries := setEntries k v d.entries
  nodup := nodup_setEntries d.nodup

/-- The dictionary without a key. -/
def erase (k : κ) : Dict κ ν where
  entries := d.entries.filter fun e => e.1 ≠ k
  nodup := d.nodup.sublist (List.filter_sublist.map _)

/-- The entries whose keys satisfy `p`. -/
def filter (p : κ → Bool) : Dict κ ν where
  entries := d.entries.filter fun e => p e.1
  nodup := d.nodup.sublist (List.filter_sublist.map _)

variable {d}

theorem lookup_eq_some_iff {l : List (κ × ν)} (h : (l.map Prod.fst).Nodup) :
    l.lookup k = some v ↔ (k, v) ∈ l := by
  induction l with
  | nil => simp
  | cons e l ih =>
    obtain ⟨k₀, v₀⟩ := e
    obtain ⟨he, hl⟩ := List.nodup_cons.mp h
    rw [List.lookup_cons]
    by_cases hk : k = k₀
    · subst hk
      have hnot : (k, v) ∉ l := fun hmem => he (List.mem_map.mpr ⟨(k, v), hmem, rfl⟩)
      simp [hnot, eq_comm]
    · have hne : (k == k₀) = false := beq_false_of_ne hk
      simp [hne, ih hl, hk]

theorem get?_eq_some_iff : d.get? k = some v ↔ (k, v) ∈ d.entries :=
  lookup_eq_some_iff d.nodup

/-- What is found after `filter` was there before. -/
theorem get?_of_get?_filter {p : κ → Bool} (h : (d.filter p).get? k = some v) :
    d.get? k = some v :=
  get?_eq_some_iff.mpr (List.mem_of_mem_filter (get?_eq_some_iff.mp h))

theorem get?_erase (d : Dict κ ν) (k k' : κ) :
    (d.erase k).get? k' = if k' = k then none else d.get? k' := by
  refine Option.ext fun v => ?_
  have hmem : (d.erase k).get? k' = some v ↔ k' ≠ k ∧ d.get? k' = some v := by
    rw [get?_eq_some_iff, get?_eq_some_iff, erase, List.mem_filter, decide_eq_true_eq, and_comm]
  rw [hmem]
  by_cases hk : k' = k
  · simp [hk]
  · simp [hk]

theorem entries_eq_nil_iff : d.entries = [] ↔ ∀ k, d.get? k = none := by
  rw [List.eq_nil_iff_forall_not_mem]
  constructor
  · intro h k
    rw [Option.eq_none_iff_forall_ne_some]
    exact fun v hv => h _ (get?_eq_some_iff.mp hv)
  · rintro h ⟨k, v⟩ hmem
    rw [← get?_eq_some_iff, h] at hmem
    cases hmem

theorem mem_setEntries {l : List (κ × ν)} (h : (l.map Prod.fst).Nodup) :
    (k', v') ∈ setEntries k v l ↔ (k' = k ∧ v' = v) ∨ (k' ≠ k ∧ (k', v') ∈ l) := by
  induction l with
  | nil => simp [setEntries]
  | cons e l ih =>
    obtain ⟨k₀, v₀⟩ := e
    obtain ⟨he, hl⟩ := List.nodup_cons.mp h
    rw [setEntries]
    split
    · next heq =>
      obtain rfl : k₀ = k := heq
      have hnot : k' = k₀ → (k', v') ∉ l := fun hk hmem =>
        he (List.mem_map.mpr ⟨(k', v'), hmem, hk⟩)
      simp only [List.mem_cons, Prod.mk.injEq]
      grind
    · next hne =>
      simp only [List.mem_cons, ih hl, Prod.mk.injEq]
      grind

/-- The entries after `set`: the new one, and those of the other keys. -/
theorem mem_set : (k', v') ∈ (d.set k v).entries ↔
    (k' = k ∧ v' = v) ∨ (k' ≠ k ∧ (k', v') ∈ d.entries) :=
  mem_setEntries d.nodup

theorem get?_set (d : Dict κ ν) (k k' : κ) (v : ν) :
    (d.set k v).get? k' = if k' = k then some v else d.get? k' := by
  refine Option.ext fun v' => ?_
  rw [get?_eq_some_iff, mem_set]
  split
  · next h => simp [h, eq_comm]
  · next h => simp [h, get?_eq_some_iff]

@[simp] theorem get?_set_self (d : Dict κ ν) (k : κ) (v : ν) : (d.set k v).get? k = some v := by
  rw [get?_set, if_pos rfl]

theorem get?_set_of_ne (d : Dict κ ν) (v : ν) (h : k' ≠ k) :
    (d.set k v).get? k' = d.get? k' := by
  rw [get?_set, if_neg h]

/-- What holds of the new entry and of those of the other keys holds after `set`. -/
theorem forall_set {P : κ → ν → Prop} (hnew : P k v)
    (hold : ∀ k' v', k' ≠ k → d.get? k' = some v' → P k' v') :
    ∀ k' v', (d.set k v).get? k' = some v' → P k' v' := by
  intro k' v' h
  rcases mem_set.mp (get?_eq_some_iff.mp h) with ⟨rfl, rfl⟩ | ⟨hne, hmem⟩
  · exact hnew
  · exact hold k' v' hne (get?_eq_some_iff.mpr hmem)

omit [DecidableEq κ] in
theorem mem_values : v ∈ d.values ↔ ∃ k, (k, v) ∈ d.entries := by
  simp [values]

theorem getAll?_eq_some_iff {keys : List κ} {vs : List ν} :
    d.getAll? keys = some vs ↔ keys.map d.get? = vs.map some := by
  unfold getAll?
  induction keys generalizing vs with
  | nil => cases vs <;> simp
  | cons k keys ih =>
    simp only [List.mapM_cons, List.map_cons, Option.bind_eq_bind, Option.bind_eq_some_iff, ih,
      Option.pure_def, Option.some.injEq]
    constructor
    · rintro ⟨v, hv, vs, hvs, rfl⟩
      rw [hv, hvs, List.map_cons]
    · intro h
      obtain ⟨v, vs, rfl, hv, hvs⟩ := List.map_eq_cons_iff.mp h.symm
      exact ⟨v, hv.symm, vs, hvs.symm, rfl⟩

theorem isSome_getAll? {keys : List κ} :
    (d.getAll? keys).isSome = true ↔ ∀ k ∈ keys, (d.get? k).isSome = true := by
  unfold getAll?
  induction keys with
  | nil => simp
  | cons k keys ih =>
    rw [List.mapM_cons, List.forall_mem_cons, ← ih]
    cases d.get? k with
    | none => simp
    | some v => cases keys.mapM d.get? <;> simp

/-! ### Several values -/

/-- The values of a list, one after the other. -/
def setAll (d : Dict κ ν) (l : List (κ × ν)) : Dict κ ν := l.foldl (fun d e => d.set e.1 e.2) d

theorem get?_setAll_of_notMem {l : List (κ × ν)} (h : k ∉ l.map Prod.fst) (d : Dict κ ν) :
    (d.setAll l).get? k = d.get? k := by
  induction l generalizing d with
  | nil => rfl
  | cons e l ih =>
    rw [List.map_cons, List.mem_cons, not_or] at h
    exact (ih h.2 _).trans (get?_set_of_ne d e.2 h.1)

theorem get?_setAll_of_mem {l : List (κ × ν)} (hl : (l.map Prod.fst).Nodup) (h : (k, v) ∈ l)
    (d : Dict κ ν) : (d.setAll l).get? k = some v := by
  induction l generalizing d with
  | nil => cases h
  | cons e l ih =>
    rw [List.map_cons, List.nodup_cons] at hl
    rcases List.mem_cons.mp h with rfl | h
    · exact (get?_setAll_of_notMem hl.1 _).trans (get?_set_self d k v)
    · exact ih hl.2 h _

/-- What is found is one of the values, or was there before. -/
theorem mem_of_get?_setAll {l : List (κ × ν)} (h : (d.setAll l).get? k = some v) :
    (k, v) ∈ l ∨ d.get? k = some v := by
  induction l generalizing d with
  | nil => exact .inr h
  | cons e l ih =>
    rcases ih h with hmem | hset
    · exact .inl (List.mem_cons_of_mem _ hmem)
    · rw [get?_set] at hset
      split at hset
      · next hk =>
        cases hset
        exact .inl (hk ▸ List.mem_cons_self)
      · exact .inr hset

theorem isSome_get?_setAll {l : List (κ × ν)} (d : Dict κ ν) (k : κ) :
    ((d.setAll l).get? k).isSome = true ↔ k ∈ l.map Prod.fst ∨ (d.get? k).isSome = true := by
  induction l generalizing d with
  | nil => simp [setAll]
  | cons e l ih =>
    have hset : ((d.set e.1 e.2).get? k).isSome = true ↔ k = e.1 ∨ (d.get? k).isSome = true := by
      rw [get?_set]
      split <;> simp [*]
    rw [List.map_cons, List.mem_cons]
    exact (ih _).trans (by rw [hset, ← or_assoc, or_comm (a := k ∈ _)])

theorem setEntries_of_notMem {l : List (κ × ν)} (h : k ∉ l.map Prod.fst) :
    setEntries k v l = l ++ [(k, v)] := by
  induction l with
  | nil => rfl
  | cons e l ih =>
    rw [List.map_cons, List.mem_cons, not_or] at h
    rw [setEntries, if_neg (Ne.symm h.1), ih h.2, List.cons_append]

theorem setEntries_of_mem {l : List (κ × ν)} (hl : (l.map Prod.fst).Nodup)
    (h : k ∈ l.map Prod.fst) :
    setEntries k v l = l.map fun e => if e.1 = k then (k, v) else e := by
  induction l with
  | nil => cases h
  | cons e l ih =>
    rw [List.map_cons, List.nodup_cons] at hl
    rw [List.map_cons, List.mem_cons] at h
    rw [setEntries, List.map_cons]
    by_cases hk : e.1 = k
    · rw [if_pos hk, if_pos hk]
      refine congrArg _ ((List.map_congr_left fun e' he' => ?_).trans (List.map_id l)).symm
      refine if_neg fun heq => hl.1 ?_
      rw [hk, ← heq]
      exact List.mem_map_of_mem he'
    · rw [if_neg hk, if_neg hk, ih hl.2 (h.resolve_left (Ne.symm hk))]

/-- Values for distinct keys become the entries. -/
theorem entries_setAll {l : List (κ × ν)} (d : Dict κ ν)
    (h : ((d.entries ++ l).map Prod.fst).Nodup) : (d.setAll l).entries = d.entries ++ l := by
  induction l generalizing d with
  | nil => exact (List.append_nil _).symm
  | cons e l ih =>
    have hnot : e.1 ∉ d.entries.map Prod.fst := by
      rw [List.map_append, List.map_cons, List.nodup_append] at h
      exact fun hmem => h.2.2 _ hmem _ List.mem_cons_self rfl
    have hset : (d.set e.1 e.2).entries = d.entries ++ [e] := setEntries_of_notMem hnot
    have hrest := ih (d.set e.1 e.2) (by rwa [hset, List.append_assoc])
    rw [hset, List.append_assoc] at hrest
    exact hrest

/-! ### A value computed of each value -/

variable {ν' : Type*}

/-- The keys with what `f` gives of their values, if it gives something of each. -/
def mapValues? (f : ν → Option ν') (d : Dict κ ν) : Option (Dict κ ν') :=
  (d.entries.mapM fun e => (f e.2).map fun v => (e.1, v)).map fun l => Dict.setAll {} l

theorem isSome_mapM {α β : Type*} {f : α → Option β} {l : List α} :
    (l.mapM f).isSome = true ↔ ∀ a ∈ l, (f a).isSome = true := by
  induction l with
  | nil => simp
  | cons a l ih =>
    rw [List.mapM_cons, List.forall_mem_cons, ← ih]
    cases f a with
    | none => simp
    | some b => cases l.mapM f <;> simp

theorem forall₂_of_mapM {α β : Type*} {f : α → Option β} {l : List α} {r : List β}
    (h : l.mapM f = some r) : List.Forall₂ (fun a b => f a = some b) l r := by
  induction l generalizing r with
  | nil =>
    cases h
    exact .nil
  | cons a l ih =>
    rw [List.mapM_cons] at h
    obtain ⟨b, hb, h⟩ := Option.bind_eq_some_iff.mp h
    obtain ⟨bs, hbs, h⟩ := Option.bind_eq_some_iff.mp h
    cases h
    exact .cons hb (ih hbs)

theorem isSome_mapValues? {f : ν → Option ν'} :
    (d.mapValues? f).isSome = true ↔ ∀ e ∈ d.entries, (f e.2).isSome = true := by
  rw [mapValues?, Option.isSome_map, isSome_mapM]
  simp only [Option.isSome_map]

omit [DecidableEq κ] in
theorem map_fst_of_forall₂ {R : ν → ν' → Prop} {l : List (κ × ν)} {l' : List (κ × ν')}
    (h : List.Forall₂ (fun e e' => e'.1 = e.1 ∧ R e.2 e'.2) l l') :
    l'.map Prod.fst = l.map Prod.fst := by
  induction h with
  | nil => rfl
  | cons hhead _ ih => rw [List.map_cons, List.map_cons, hhead.1, ih]

omit [DecidableEq κ] in
theorem exists_mem_of_forall₂ {R : ν → ν' → Prop} {l : List (κ × ν)} {l' : List (κ × ν')}
    (h : List.Forall₂ (fun e e' => e'.1 = e.1 ∧ R e.2 e'.2) l l') (hmem : (k, v) ∈ l) :
    ∃ v', (k, v') ∈ l' ∧ R v v' := by
  induction h with
  | nil => cases hmem
  | @cons e e' l l' hhead _ ih =>
    rcases List.mem_cons.mp hmem with rfl | hmem
    · obtain ⟨rfl, hvalue⟩ := hhead
      exact ⟨e'.2, List.mem_cons_self, hvalue⟩
    · obtain ⟨v', hv', hvalue⟩ := ih hmem
      exact ⟨v', List.mem_cons_of_mem _ hv', hvalue⟩

/-- What is found after each value was computed. -/
theorem rel_of_mapValues? {f : ν → Option ν'} {d' : Dict κ ν'} (h : d.mapValues? f = some d')
    (k : κ) : Option.Rel (fun v v' => f v = some v') (d.get? k) (d'.get? k) := by
  obtain ⟨l, hl, rfl⟩ := Option.map_eq_some_iff.mp h
  have hrel : List.Forall₂ (fun e e' => e'.1 = e.1 ∧ f e.2 = some e'.2) d.entries l := by
    refine (forall₂_of_mapM hl).imp fun e e' he => ?_
    obtain ⟨v, hv, rfl⟩ := Option.map_eq_some_iff.mp he
    exact ⟨rfl, hv⟩
  have hkeys := map_fst_of_forall₂ (R := fun v v' => f v = some v') hrel
  cases hget : d.get? k with
  | none =>
    have hnot : k ∉ l.map Prod.fst := by
      rw [hkeys]
      intro hmem
      obtain ⟨e, he, rfl⟩ := List.mem_map.mp hmem
      rw [get?_eq_some_iff.mpr he] at hget
      cases hget
    rw [get?_setAll_of_notMem hnot]
    exact .none
  | some v =>
    obtain ⟨v', hv', hvalue⟩ :=
      exists_mem_of_forall₂ (R := fun v v' => f v = some v') hrel (get?_eq_some_iff.mp hget)
    rw [get?_setAll_of_mem (hkeys ▸ d.nodup) hv']
    exact .some hvalue

end Dict
