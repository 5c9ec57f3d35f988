import NextRole.Lib.Grouping

/-!
# Runs of batches

A loop over pieces gathers their batches into groups.  A group is named by the piece that opens it,
and goes on until a piece cuts it, before or after its own batch.

## Main definitions

* `Piece` — what the loop comes to: a key, perhaps a batch, and whether it cuts.
* `Gathered`, `Gathered.cut`, `Gathered.push`, `Gathered.add` — the groups, and one pass.
* `Gathered.map`, `Gathered.All` — groups of other batches, and a property of all batches.
* `IsRun` — a group is a run of the pieces.

## Main results

* `Gathered.map_push`, `Gathered.map_cut` — batches may be changed before or after they are
  gathered.
* `Gathered.flatMap_gather` — **every batch is in one group**, in the order of the pieces.
* `Gathered.isRun_gather` — **no piece cuts inside a group**.
-/

/-- A piece of the input. -/
structure Piece (κ β : Type*) where
  key : κ
  cutsBefore : Bool
  batch : Option β
  cutsAfter : Bool

/-- The groups by their heads, and the one that is open. -/
structure Gathered (κ β : Type*) where
  byHead : Dict κ (List β) := {}
  current : Option (κ × List β) := none

variable {κ β β' : Type*}

/-- A run of the pieces: its head opens it with a batch, and what cuts is at its ends. -/
def IsRun (pieces : List (Piece κ β)) (head : κ) (batches : List β) : Prop :=
  ∃ before first rest after, pieces = before ++ first :: rest ++ after ∧ first.key = head ∧
    first.batch.isSome = true ∧ batches = (first :: rest).filterMap Piece.batch ∧
      (∀ p ∈ rest, p.cutsBefore = false) ∧ ∀ p ∈ (first :: rest).dropLast, p.cutsAfter = false

/-- A run that the next piece may go on with. -/
def IsOpenRun (pieces : List (Piece κ β)) (head : κ) (batches : List β) : Prop :=
  ∃ before first rest, pieces = before ++ first :: rest ∧ first.key = head ∧
    first.batch.isSome = true ∧ batches = (first :: rest).filterMap Piece.batch ∧
      (∀ p ∈ rest, p.cutsBefore = false) ∧ ∀ p ∈ first :: rest, p.cutsAfter = false

variable {pieces : List (Piece κ β)} {p : Piece κ β} {head : κ} {batches : List β}

theorem IsRun.append (h : IsRun pieces head batches) (p : Piece κ β) :
    IsRun (pieces ++ [p]) head batches := by
  obtain ⟨before, first, rest, after, rfl, hrest⟩ := h
  exact ⟨before, first, rest, after ++ [p], by rw [List.append_assoc _ after], hrest⟩

theorem IsRun.head_mem (h : IsRun pieces head batches) : head ∈ pieces.map Piece.key := by
  obtain ⟨before, first, rest, after, rfl, rfl, -⟩ := h
  simp

theorem IsOpenRun.isRun_append (h : IsOpenRun pieces head batches) (hp : p.cutsBefore = false) :
    IsRun (pieces ++ [p]) head (batches ++ p.batch.toList) := by
  obtain ⟨before, first, rest, rfl, hkey, hfirst, rfl, hbefore, hafter⟩ := h
  refine ⟨before, first, rest ++ [p], [], by simp, hkey, hfirst, ?_, ?_, ?_⟩
  · rw [← List.cons_append, List.filterMap_append]
    cases hb : p.batch <;> simp [hb]
  · simpa [or_imp, forall_and, hp] using hbefore
  · rw [← List.cons_append, List.dropLast_concat]
    exact hafter

theorem IsOpenRun.append (h : IsOpenRun pieces head batches) (hp : p.cutsBefore = false)
    (hp' : p.cutsAfter = false) : IsOpenRun (pieces ++ [p]) head (batches ++ p.batch.toList) := by
  obtain ⟨before, first, rest, rfl, hkey, hfirst, rfl, hbefore, hafter⟩ := h
  refine ⟨before, first, rest ++ [p], by simp, hkey, hfirst, ?_, ?_, ?_⟩
  · rw [← List.cons_append, List.filterMap_append]
    cases hb : p.batch <;> simp [hb]
  · simpa [or_imp, forall_and, hp] using hbefore
  · rw [← List.cons_append]
    intro q hq
    rcases List.mem_append.mp hq with hq | hq
    · exact hafter q hq
    · rw [List.mem_singleton.mp hq]
      exact hp'

theorem isRun_singleton {b : β} (hb : p.batch = some b) : IsRun (pieces ++ [p]) p.key [b] :=
  ⟨pieces, p, [], [], by simp, rfl, by simp [hb], by simp [hb], by simp, by simp⟩

theorem isOpenRun_singleton {b : β} (hb : p.batch = some b) (hp : p.cutsAfter = false) :
    IsOpenRun (pieces ++ [p]) p.key [b] :=
  ⟨pieces, p, [], by simp, rfl, by simp [hb], by simp [hb], by simp, by simp [hp]⟩

namespace Gathered

variable [DecidableEq κ] {g : Gathered κ β}

/-! ### The loop -/

/-- The open group is closed. -/
def cut (g : Gathered κ β) : Gathered κ β := { g with current := none }

/-- A batch goes to the open group, or opens one. -/
def push (g : Gathered κ β) (key : κ) (batch : β) : Gathered κ β :=
  match g.current with
  | some (head, batches) =>
    { byHead := g.byHead.set head (batches ++ [batch]), current := some (head, batches ++ [batch]) }
  | none => { byHead := g.byHead.set key [batch], current := some (key, [batch]) }

/-- One pass of the loop. -/
def add (g : Gathered κ β) (p : Piece κ β) : Gathered κ β :=
  let opened := if p.cutsBefore then g.cut else g
  let filled := match p.batch with
    | some batch => opened.push p.key batch
    | none => opened
  if p.cutsAfter then filled.cut else filled

/-- The groups of the pieces. -/
def gather (pieces : List (Piece κ β)) : Gathered κ β := pieces.foldl add {}

/-- The groups with other batches. -/
def map (f : β → β') (g : Gathered κ β) : Gathered κ β' where
  byHead := g.byHead.mapValues (List.map f)
  current := g.current.map fun group => (group.1, group.2.map f)

omit [DecidableEq κ] in
@[simp] theorem map_cut (f : β → β') (g : Gathered κ β) : g.cut.map f = (g.map f).cut := rfl

@[simp] theorem map_push (f : β → β') (g : Gathered κ β) (key : κ) (b : β) :
    (g.push key b).map f = (g.map f).push key (f b) := by
  obtain ⟨byHead, current⟩ := g
  cases current <;> simp [push, map, Dict.mapValues_set]

/-! ### What holds of all batches -/

omit [DecidableEq κ] in
/-- A property of the batches of all groups. -/
structure All (P : β → Prop) (g : Gathered κ β) : Prop where
  byHead : ∀ e ∈ g.byHead.entries, ∀ b ∈ e.2, P b
  current : ∀ group ∈ g.current, ∀ b ∈ group.2, P b

omit [DecidableEq κ] in
theorem All.mono {P Q : β → Prop} (h : g.All P) (hPQ : ∀ b, P b → Q b) : g.All Q :=
  ⟨fun e he b hb => hPQ b (h.byHead e he b hb), fun group hgroup b hb =>
    hPQ b (h.current group hgroup b hb)⟩

omit [DecidableEq κ] in
theorem All.cut {P : β → Prop} (h : g.All P) : g.cut.All P := ⟨h.byHead, nofun⟩

theorem All.push {P : β → Prop} (h : g.All P) {b : β} (hb : P b) (k : κ) : (g.push k b).All P := by
  -- the group that gets the batch
  obtain ⟨group, hpush, hgroup⟩ : ∃ group : κ × List β,
      g.push k b = ⟨g.byHead.set group.1 group.2, some group⟩ ∧ ∀ b ∈ group.2, P b := by
    unfold Gathered.push
    split
    · next head batches hcurrent =>
      refine ⟨(head, batches ++ [b]), rfl, ?_⟩
      rw [List.forall_mem_append, List.forall_mem_singleton]
      exact ⟨h.current _ hcurrent, hb⟩
    · exact ⟨(k, [b]), rfl, List.forall_mem_singleton.mpr hb⟩
  rw [hpush]
  constructor
  · rintro ⟨head, batches⟩ he
    rcases Dict.mem_set.mp he with ⟨rfl, rfl⟩ | ⟨-, he⟩
    · exact hgroup
    · exact h.byHead _ he
  · rintro _ ⟨⟩
    exact hgroup

/-! ### What a pass keeps -/

omit [DecidableEq κ] in
/-- The groups are runs of the pieces that have all their batches. -/
structure Covers (pieces : List (Piece κ β)) (g : Gathered κ β) : Prop where
  batches : g.byHead.entries.flatMap Prod.snd = pieces.filterMap Piece.batch
  run : ∀ e ∈ g.byHead.entries, IsRun pieces e.1 e.2

omit [DecidableEq κ] in
/-- Besides, the open group is the last one. -/
structure Ok (pieces : List (Piece κ β)) (g : Gathered κ β) : Prop extends g.Covers pieces where
  open_run : ∀ head batches, g.current = some (head, batches) →
    IsOpenRun pieces head batches ∧ ∃ closed, g.byHead.entries = closed ++ [(head, batches)]

omit [DecidableEq κ] in
theorem Covers.cut (h : g.Covers pieces) : g.cut.Ok pieces where
  batches := h.batches
  run := h.run
  open_run := nofun

omit [DecidableEq κ] in
/-- A piece without a batch. -/
theorem Ok.skip (h : g.Ok pieces) (hb : p.batch = none)
    (hopen : ∀ group, g.current = some group → p.cutsBefore = false ∧ p.cutsAfter = false) :
    g.Ok (pieces ++ [p]) where
  batches := by
    rw [h.batches, List.filterMap_append]
    simp [hb]
  run e he := (h.run e he).append p
  open_run head batches hcurrent := by
    obtain ⟨hrun, hlast⟩ := h.open_run head batches hcurrent
    obtain ⟨hbefore, hafter⟩ := hopen _ hcurrent
    refine ⟨?_, hlast⟩
    simpa [hb] using hrun.append hbefore hafter

theorem Covers.entries_push (h : g.Covers pieces) (hcurrent : g.current = none) {k : κ}
    (hkey : k ∉ pieces.map Piece.key) (b : β) :
    (g.push k b).byHead.entries = g.byHead.entries ++ [(k, [b])] := by
  rw [push, hcurrent]
  apply Dict.setEntries_of_notMem
  intro hmem
  obtain ⟨e, he, heq⟩ := List.mem_map.mp hmem
  exact hkey (heq ▸ (h.run e he).head_mem)

theorem entries_push_of_some (hcurrent : g.current = some (head, batches))
    {closed : List (κ × List β)} (hclosed : g.byHead.entries = closed ++ [(head, batches)])
    (k : κ) (b : β) : (g.push k b).byHead.entries = closed ++ [(head, batches ++ [b])] := by
  rw [push, hcurrent]
  have hnodup := g.byHead.nodup
  have hmem : head ∈ g.byHead.entries.map Prod.fst := by simp [hclosed]
  refine (Dict.setEntries_of_mem hnodup hmem).trans ?_
  rw [hclosed, List.map_append, List.nodup_append] at hnodup
  rw [hclosed, List.map_append]
  refine congrArg₂ _ ((List.map_congr_left fun e he => ?_).trans (List.map_id closed)) (by simp)
  exact if_neg fun heq => hnodup.2.2 e.1 (List.mem_map_of_mem he) head (by simp) heq

/-- A piece with a batch. -/
theorem Ok.covers_push (h : g.Ok pieces) {b : β} (hb : p.batch = some b)
    (hkey : p.key ∉ pieces.map Piece.key)
    (hopen : ∀ group, g.current = some group → p.cutsBefore = false) :
    (g.push p.key b).Covers (pieces ++ [p]) := by
  have hall : (pieces ++ [p]).filterMap Piece.batch = pieces.filterMap Piece.batch ++ [b] := by
    rw [List.filterMap_append]
    simp [hb]
  cases hcurrent : g.current with
  | none =>
    have hentries := h.toCovers.entries_push hcurrent hkey b
    constructor
    · rw [hentries, List.flatMap_append, h.batches, hall]
      simp
    · rw [hentries, List.forall_mem_append, List.forall_mem_singleton]
      exact ⟨fun e he => (h.run e he).append p, isRun_singleton hb⟩
  | some group =>
    obtain ⟨head, batches⟩ := group
    obtain ⟨hrun, closed, hclosed⟩ := h.open_run head batches hcurrent
    have hentries := entries_push_of_some hcurrent hclosed p.key b
    have hold := h.batches
    rw [hclosed] at hold
    constructor
    · rw [hentries, hall, ← hold]
      simp
    · rw [hentries, List.forall_mem_append, List.forall_mem_singleton]
      constructor
      · intro e he
        exact (h.run e (hclosed ▸ List.mem_append_left _ he)).append p
      · simpa [hb] using hrun.isRun_append (hopen _ hcurrent)

/-- A piece with a batch that leaves the group open. -/
theorem Ok.push (h : g.Ok pieces) {b : β} (hb : p.batch = some b)
    (hkey : p.key ∉ pieces.map Piece.key)
    (hopen : ∀ group, g.current = some group → p.cutsBefore = false)
    (hafter : p.cutsAfter = false) : (g.push p.key b).Ok (pieces ++ [p]) := by
  refine ⟨h.covers_push hb hkey hopen, ?_⟩
  intro head batches hopened
  cases hcurrent : g.current with
  | none =>
    have hentries := h.toCovers.entries_push hcurrent hkey b
    rw [Gathered.push, hcurrent] at hopened
    cases hopened
    exact ⟨isOpenRun_singleton hb hafter, _, hentries⟩
  | some group =>
    obtain ⟨hrun, closed, hclosed⟩ := h.open_run _ _ hcurrent
    have hentries := entries_push_of_some hcurrent hclosed p.key b
    have hrun' := hrun.append (hopen _ hcurrent) hafter
    rw [hb] at hrun'
    rw [Gathered.push, hcurrent] at hopened
    cases hopened
    exact ⟨hrun', _, hentries⟩

theorem Ok.add (h : g.Ok pieces) (hkey : p.batch.isSome = true → p.key ∉ pieces.map Piece.key) :
    (g.add p).Ok (pieces ++ [p]) := by
  -- what the piece cuts before its batch
  obtain ⟨opened, hopened, hok, hopen⟩ : ∃ opened : Gathered κ β,
      opened = (if p.cutsBefore then g.cut else g) ∧ opened.Ok pieces ∧
        ∀ group, opened.current = some group → p.cutsBefore = false := by
    cases hp : p.cutsBefore with
    | true => exact ⟨g.cut, by simp, h.toCovers.cut, nofun⟩
    | false => exact ⟨g, by simp, h, fun _ _ => rfl⟩
  rw [Gathered.add, ← hopened]
  cases hb : p.batch with
  | none =>
    cases hafter : p.cutsAfter with
    | true => exact hok.toCovers.cut.skip hb nofun
    | false => exact hok.skip hb fun group hgroup => ⟨hopen group hgroup, hafter⟩
  | some b =>
    have hnew := hkey (by rw [hb, Option.isSome_some])
    cases hafter : p.cutsAfter with
    | true => exact (hok.covers_push hb hnew hopen).cut
    | false => exact hok.push hb hnew hopen hafter

theorem ok_gather (h : (pieces.map Piece.key).Nodup) : (gather pieces).Ok pieces := by
  induction pieces using List.reverseRecOn with
  | nil => exact ⟨⟨rfl, nofun⟩, nofun⟩
  | append_singleton pieces p ih =>
    rw [List.map_append, List.nodup_append] at h
    rw [gather, List.foldl_append]
    exact (ih h.1).add fun _ hmem => h.2.2 _ hmem p.key (by simp) rfl

/-- **Every batch is in one group**, in the order of the pieces. -/
theorem flatMap_gather (h : (pieces.map Piece.key).Nodup) :
    (gather pieces).byHead.entries.flatMap Prod.snd = pieces.filterMap Piece.batch :=
  (ok_gather h).batches

/-- **No piece cuts inside a group.** -/
theorem isRun_gather (h : (pieces.map Piece.key).Nodup) {e : κ × List β}
    (he : e ∈ (gather pieces).byHead.entries) : IsRun pieces e.1 e.2 :=
  (ok_gather h).run e he

end Gathered
