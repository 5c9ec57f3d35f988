import NextRole.Runtime.DeltaPages

/-!
# Delta history equals its definition

The pages of WALK are the checkpoints of a namespace in their order, so that after some pages a
prefix of them is recorded.  A walk that has ended at a stored value among the recorded rows ends
there among all of them, and so the loop may stop early.

## Main definitions

* `storedValue` — what is stored of a channel at a checkpoint.
* `DeltaChain` — the ancestors of a checkpoint up to the nearest stored value, or the root.
* `historyOf` — the history of a channel by its definition.

## Main results

* `exists_walkLoop_eq` — what is recorded when the loop ends.
* `agetDeltaHistory_eq` — **the history is the one of the definition**, and `not_deltaHistory`.
-/

namespace NextRole

/-! ### Pages -/

theorem eq_of_checkpointId {d : Database} {threadId : Uuid} {ns : String} {c c' : Checkpoint}
    (hc : c ∈ namespaceRows d threadId ns) (hc' : c' ∈ namespaceRows d threadId ns)
    (h : c.checkpointId = c'.checkpointId) : c = c' := by
  obtain ⟨hmem, ht, hns⟩ := mem_namespaceRows.mp hc
  obtain ⟨hmem', ht', hns'⟩ := mem_namespaceRows.mp hc'
  refine Table.eq_of_key hmem hmem' ?_
  simp only [Keyed.key, ht, ht', hns, hns', h]

theorem mem_newestFirst {d : Database} {threadId : Uuid} {ns : String} {c : Checkpoint} :
    c ∈ newestFirst d threadId ns ↔ c ∈ namespaceRows d threadId ns :=
  List.mem_insertionSort _

/-- The order of the pages. -/
theorem pairwise_newestFirst (d : Database) (threadId : Uuid) (ns : String) :
    (newestFirst d threadId ns).Pairwise fun c c' => c'.checkpointId < c.checkpointId := by
  have hnodup : (newestFirst d threadId ns).Nodup :=
    (List.perm_insertionSort _ _).nodup_iff.mpr (d.checkpoints.nodup_select _)
  have hsorted : (newestFirst d threadId ns).Pairwise fun c c' =>
      OrderDual.toDual c.checkpointId ≤ OrderDual.toDual c'.checkpointId :=
    haveI : Std.Total fun c c' : Checkpoint =>
      OrderDual.toDual c.checkpointId ≤ OrderDual.toDual c'.checkpointId := ⟨fun _ _ => le_total _ _⟩
    haveI : IsTrans Checkpoint fun c c' =>
      OrderDual.toDual c.checkpointId ≤ OrderDual.toDual c'.checkpointId :=
      ⟨fun _ _ _ => le_trans⟩
    List.pairwise_insertionSort _ _
  refine (hsorted.and hnodup).imp_of_mem fun {c c'} hc hc' h => ?_
  have hle : c'.checkpointId ≤ c.checkpointId := h.1
  refine lt_of_le_of_ne hle fun heq => h.2 ?_
  exact eq_of_checkpointId (mem_newestFirst.mp hc) (mem_newestFirst.mp hc') heq.symm

/-- The rows before the cursor are those that are not recorded yet. -/
theorem filter_cursor {l pre rest : List Checkpoint}
    (hl : l.Pairwise fun c c' => c'.checkpointId < c.checkpointId) (h : pre ++ rest = l) :
    (l.filter fun c => (pre.getLast?.map Checkpoint.checkpointId).all fun id =>
      c.checkpointId < id) = rest := by
  subst h
  cases hlast : pre.getLast? with
  | none =>
    rw [List.getLast?_eq_none_iff] at hlast
    subst hlast
    simp
  | some c₀ =>
    obtain ⟨pre, rfl⟩ := List.getLast?_eq_some_iff.mp hlast
    rw [List.append_assoc, List.pairwise_append, List.singleton_append, List.pairwise_cons] at hl
    obtain ⟨-, ⟨hrest, -⟩, hpre⟩ := hl
    have hfront : (pre.filter fun c => (some c₀.checkpointId).all fun id =>
        c.checkpointId < id) = [] := by
      rw [List.filter_eq_nil_iff]
      intro c hc
      simpa using (hpre c hc c₀ List.mem_cons_self).le
    have hback : (rest.filter fun c => (some c₀.checkpointId).all fun id =>
        c.checkpointId < id) = rest :=
      List.filter_eq_self.mpr fun c hc => by simpa using hrest c hc
    rw [Option.map_some, List.filter_append, List.filter_append, hfront, hback]
    simp

/-- The oldest checkpoint of a page is its last one. -/
theorem min?_eq_getLast? {l : List Checkpoint}
    (hl : l.Pairwise fun c c' => c'.checkpointId < c.checkpointId) :
    (l.map Checkpoint.checkpointId).min? = l.getLast?.map Checkpoint.checkpointId := by
  cases hlast : l.getLast? with
  | none =>
    rw [List.getLast?_eq_none_iff] at hlast
    subst hlast
    rfl
  | some c₀ =>
    obtain ⟨pre, rfl⟩ := List.getLast?_eq_some_iff.mp hlast
    rw [Option.map_some, List.min?_eq_some_iff]
    refine ⟨List.mem_map_of_mem (by simp), fun id hid => ?_⟩
    obtain ⟨c, hc, rfl⟩ := List.mem_map.mp hid
    rcases List.mem_append.mp hc with hc | hc
    · exact ((List.pairwise_append.mp hl).2.2 c hc c₀ (by simp)).le
    · rw [List.mem_singleton.mp hc]

variable {helpers : DeltaHelpers} {d : Database} {threadId : Uuid} {ns : String}
  {channels : List String} {pageSize : ℕ} {target : Uuid}

theorem stagePage_eq {pre rest : List Checkpoint} (h : pre ++ rest = newestFirst d threadId ns) :
    stagePage d threadId ns channels pageSize (pre.getLast?.map Checkpoint.checkpointId) =
      (rest.take pageSize).map (stageRow d channels) := by
  rw [stagePage, filter_cursor (pairwise_newestFirst d threadId ns) h]

theorem advancePages_concat {σ : Type} (advance : List StageRow → σ → σ) (start : σ)
    (pages : List (List StageRow)) (page : List StageRow) :
    (advancePages advance start (pages ++ [page])).2 =
      advance (pages.flatten ++ page) (advancePages advance start pages).2 := by
  have hrecorded : ∀ pages : List (List StageRow),
      (advancePages advance start pages).1 = pages.flatten := by
    intro pages
    induction pages using List.reverseRecOn with
    | nil => rfl
    | append_singleton pages page ih =>
      rw [advancePages, List.foldl_append, ← advancePages, List.foldl_cons, List.foldl_nil, ih,
        List.flatten_append, List.flatten_singleton]
  rw [advancePages, List.foldl_append, ← advancePages, List.foldl_cons, List.foldl_nil, hrecorded]

variable (helpers channels target)

/-- **What is recorded when the loop ends**: all checkpoints, or enough for all channels. -/
theorem exists_walkLoop_eq (hsize : 0 < pageSize) {fuel : ℕ} {pre rest : List Checkpoint}
    (h : pre ++ rest = newestFirst d threadId ns) (hfuel : rest.length < fuel)
    {pages : List (List StageRow)} (hpages : pages.flatten = pre.map (stageRow d channels)) :
    ∃ pages' pre', walkLoop helpers d threadId ns channels pageSize target fuel
        (pre.map (stageRow d channels))
        (advancePages (helpers.tryAdvanceWalks target channels) helpers.start pages).2
        (pre.getLast?.map Checkpoint.checkpointId) =
          (advancePages (helpers.tryAdvanceWalks target channels) helpers.start pages').2 ∧
      pages'.flatten = pre'.map (stageRow d channels) ∧ pre' <+: newestFirst d threadId ns ∧
      (pre' = newestFirst d threadId ns ∨ helpers.allSeeded channels
        (advancePages (helpers.tryAdvanceWalks target channels) helpers.start pages').2 = true) := by
  induction fuel generalizing pre rest pages with
  | zero => omega
  | succ fuel ih =>
    rw [walkLoop, stagePage_eq h]
    by_cases hrest : rest = []
    · subst hrest
      rw [List.append_nil] at h
      refine ⟨pages, pre, ?_, hpages, h ▸ List.prefix_rfl, .inl h⟩
      rw [if_pos (by simp)]
    · have hne : (rest.take pageSize).map (stageRow d channels) ≠ [] := by
        simp [List.take_eq_nil_iff, hrest, hsize.ne']
      have hsplit : (pre ++ rest.take pageSize) ++ rest.drop pageSize = newestFirst d threadId ns := by
        rw [List.append_assoc, List.take_append_drop, h]
      have hrecorded : (pages ++ [(rest.take pageSize).map (stageRow d channels)]).flatten =
          (pre ++ rest.take pageSize).map (stageRow d channels) := by
        rw [List.flatten_append, List.flatten_singleton, hpages, List.map_append]
      have hwalks := advancePages_concat (helpers.tryAdvanceWalks target channels) helpers.start pages
        ((rest.take pageSize).map (stageRow d channels))
      rw [hpages, ← List.map_append] at hwalks
      simp only [if_neg hne]
      rw [← List.map_append, ← hwalks]
      split
      · next hends =>
        refine ⟨_, _, rfl, hrecorded, ⟨_, hsplit⟩, ?_⟩
        rw [Bool.or_eq_true] at hends
        rcases hends with hends | hends
        · exact .inr hends
        · -- a short page is the last one
          refine .inl ?_
          rw [decide_eq_true_eq, List.length_map, List.length_take] at hends
          have hdrop : rest.drop pageSize = [] := List.drop_eq_nil_of_le (by omega)
          rw [hdrop, List.append_nil] at hsplit
          exact hsplit
      · have hsorted := (pairwise_newestFirst d threadId ns).sublist
          ((List.take_sublist pageSize rest).trans (h ▸ List.sublist_append_right pre rest))
        have hlast : (((rest.take pageSize).map (stageRow d channels)).map
            StageRow.checkpointId).min? =
              (pre ++ rest.take pageSize).getLast?.map Checkpoint.checkpointId := by
          have hids : ((rest.take pageSize).map (stageRow d channels)).map StageRow.checkpointId =
              (rest.take pageSize).map Checkpoint.checkpointId := by
            rw [List.map_map]
            rfl
          rw [hids, min?_eq_getLast? hsorted, List.getLast?_append]
          cases hpage : (rest.take pageSize).getLast? with
          | none =>
            rw [List.getLast?_eq_none_iff] at hpage
            rw [hpage] at hne
            exact absurd rfl hne
          | some c => rfl
        rw [hlast]
        have hshorter : (rest.drop pageSize).length < fuel := by
          have hpos : 0 < rest.length := List.length_pos_iff.mpr hrest
          rw [List.length_drop]
          omega
        exact ih hsplit hshorter hrecorded

variable {helpers channels target}

/-! ### The definition -/

/-- The version of a channel that a checkpoint records. -/
def recordedVersion (channel : String) (c : Checkpoint) : Option String :=
  (c.checkpoint.get? "channel_versions").bind fun versions => versions.text? channel

/-- The value of a channel that is kept inline. -/
def inlineValue (channel : String) (c : Checkpoint) : Option Json :=
  (c.checkpoint.get? "channel_values").bind fun values => values.get? channel

/-- The blob of the version that a checkpoint records, unless it is marked as empty. -/
def recordedBlob (d : Database) (channel : String) (c : Checkpoint) : Option CheckpointBlob :=
  ((recordedVersion channel c).bind fun version =>
    d.checkpointBlobs.get? (c.threadId, c.checkpointNs, channel, version)).filter
      fun b => b.type ≠ "empty"

section

variable {Value : Type} (loads : String → Option String → Value)

/-- The stored value of a channel: its blob, or else the inline value if that is not `null`. -/
def storedValue (d : Database) (channel : String) (c : Checkpoint) : Option (ChannelValue Value) :=
  match recordedBlob d channel c with
  | some b => some (.loaded (loads b.type b.blob))
  | none => ((inlineValue channel c).filter fun v => v ≠ .null).map .inline

/-- The ancestors of a channel from a checkpoint on: up to the nearest stored value, or the root. -/
def DeltaChain (d : Database) (threadId : Uuid) (ns channel : String) :
    Option Uuid → List Checkpoint → Prop :=
  AncestorChain (fun id => d.checkpoints.get? (threadId, ns, id)) Checkpoint.parentCheckpointId
    fun c => (storedValue loads d channel c).isSome

/-- The history of a channel by its definition: the writes along the chain, the oldest checkpoint
first and by task and index within one, and the stored value that ends the chain. -/
def historyOf (d : Database) (threadId : Uuid) (ns channel : String) (chain : List Checkpoint) :
    DeltaChannelHistory Value where
  writes := chain.reverse.flatMap fun c => loadWrites loads
    ((writesAt d threadId ns c.checkpointId).filter fun w => w.channel = channel)
  seed := chain.getLast?.bind (storedValue loads d channel)

end

/-- The parent of the target. -/
def parentOf (d : Database) (threadId : Uuid) (ns : String) (target : Uuid) : Option Uuid :=
  (d.checkpoints.get? (threadId, ns, target)).bind Checkpoint.parentCheckpointId

/-- No checkpoint of the namespace is its own ancestor. -/
def CheckpointTree (d : Database) (threadId : Uuid) (ns : String) : Prop :=
  ∃ rank : Uuid → ℕ, ∀ c ∈ namespaceRows d threadId ns, ∀ parent,
    c.parentCheckpointId = some parent → rank parent < rank c.checkpointId

/-! ### The walk of one channel -/

/-- What a walk keeps of a chain. -/
def walkedOf (chain : List WalkRow) : Walked where
  chain := chain.map WalkRow.checkpointId
  seedVer := (chain.getLast?.filter WalkRow.isSeed).bind WalkRow.ver
  seedInline := (chain.getLast?.filter WalkRow.isSeed).bind fun row =>
    if row.hb then none else row.inline

theorem findRow_eq_some {rows : List WalkRow} {id : Uuid} {row : WalkRow}
    (h : findRow rows id = some row) : row ∈ rows ∧ row.checkpointId = id :=
  ⟨List.mem_of_find?_eq_some h, by simpa using List.find?_some h⟩

/-- A walk of enough steps finds the chain. -/
theorem chainFrom_eq {rows : List WalkRow} {start : Option Uuid} {chain : List WalkRow}
    (h : AncestorChain (findRow rows) WalkRow.parentCheckpointId WalkRow.isSeed start chain)
    {fuel : ℕ} (hfuel : chain.length < fuel) :
    chainFrom rows fuel start = some (walkedOf chain) := by
  induction h generalizing fuel with
  | root =>
    obtain ⟨fuel, rfl⟩ := Nat.exists_eq_add_of_lt hfuel
    rw [List.length_nil, Nat.zero_add]
    rfl
  | @gone id hfind =>
    obtain ⟨fuel, rfl⟩ := Nat.exists_eq_add_of_lt hfuel
    rw [List.length_nil, Nat.zero_add, chainFrom, ← findRow, hfind]
    rfl
  | @stopped id row hfind hseed =>
    obtain ⟨-, rfl⟩ := findRow_eq_some hfind
    cases fuel with
    | zero => exact absurd hfuel (Nat.not_lt_zero _)
    | succ fuel =>
      rw [chainFrom, ← findRow, hfind]
      simp [hseed, walkedOf, Option.filter]
  | @step id row chain hfind hseed hchain ih =>
    obtain ⟨-, rfl⟩ := findRow_eq_some hfind
    cases fuel with
    | zero => exact absurd hfuel (Nat.not_lt_zero _)
    | succ fuel =>
      rw [chainFrom, ← findRow, hfind]
      simp only [hseed, Bool.false_eq_true, if_false]
      rw [ih (Nat.lt_of_succ_lt_succ hfuel), Option.map_some]
      cases chain with
      | nil => simp [walkedOf, hseed, Option.filter]
      | cons row' chain => simp [walkedOf]

/-! ### The rows of the checkpoints -/

theorem reading_stageRow {channel : String} (hch : channel ∈ channels) (c : Checkpoint) :
    (stageRow d channels c).reading channel = walkRow d channel c := by
  have hlookup : (channels.map fun channel => (channel, (walkRow d channel c).ver,
      (walkRow d channel c).hb, (walkRow d channel c).inline)).lookup channel =
        some ((walkRow d channel c).ver, (walkRow d channel c).hb,
          (walkRow d channel c).inline) := by
    induction channels with
    | nil => cases hch
    | cons channel' channels ih =>
      rw [List.map_cons, List.lookup_cons]
      by_cases heq : channel = channel'
      · subst heq
        simp
      · rw [beq_eq_false_iff_ne.mpr heq]
        exact ih ((List.mem_cons.mp hch).resolve_left heq)
  rw [StageRow.reading, stageRow]
  simp only [hlookup, Option.getD_some]
  rfl

theorem readings_eq {channel : String} (hch : channel ∈ channels) (l : List Checkpoint) :
    (l.map (stageRow d channels)).map (fun row => row.reading channel) =
      l.map (walkRow d channel) := by
  rw [List.map_map]
  exact List.map_congr_left fun c _ => reading_stageRow hch c

/-- A checkpoint among the newest ones, by its id. -/
theorem find?_checkpointId {l : List Checkpoint} (hl : l ⊆ newestFirst d threadId ns) {id : Uuid}
    {c : Checkpoint} :
    (l.find? fun c => c.checkpointId = id) = some c ↔ c ∈ l ∧ c.checkpointId = id := by
  constructor
  · intro h
    exact ⟨List.mem_of_find?_eq_some h, by simpa using List.find?_some h⟩
  · rintro ⟨hc, rfl⟩
    cases hfind : l.find? fun c' => c'.checkpointId = c.checkpointId with
    | none => simpa using List.find?_eq_none.mp hfind c hc
    | some c' =>
      have hid : c'.checkpointId = c.checkpointId := by simpa using List.find?_some hfind
      have hc' := List.mem_of_find?_eq_some hfind
      rw [eq_of_checkpointId (mem_newestFirst.mp (hl hc')) (mem_newestFirst.mp (hl hc)) hid]

theorem find?_newestFirst (id : Uuid) :
    ((newestFirst d threadId ns).find? fun c => c.checkpointId = id) =
      d.checkpoints.get? (threadId, ns, id) := by
  ext c
  rw [find?_checkpointId (List.Subset.refl _), mem_newestFirst, get?_checkpoints_eq_some]

theorem findRow_map (l : List Checkpoint) (channel : String) (id : Uuid) :
    findRow (l.map (walkRow d channel)) id =
      (l.find? fun c => c.checkpointId = id).map (walkRow d channel) := by
  rw [findRow, List.find?_map]
  rfl

theorem findRow_of_prefix {pre : List Checkpoint} (hpre : pre <+: newestFirst d threadId ns)
    {channel : String} {id : Uuid} {row : WalkRow}
    (h : findRow (pre.map (walkRow d channel)) id = some row) :
    findRow ((newestFirst d threadId ns).map (walkRow d channel)) id = some row := by
  rw [findRow_map, Option.map_eq_some_iff] at h ⊢
  obtain ⟨c, hc, hrow⟩ := h
  obtain ⟨hmem, hid⟩ := (find?_checkpointId hpre.subset).mp hc
  exact ⟨c, (find?_checkpointId (List.Subset.refl _)).mpr ⟨hpre.subset hmem, hid⟩, hrow⟩

theorem hb_walkRow (channel : String) (c : Checkpoint) :
    (walkRow d channel c).hb = (recordedBlob d channel c).isSome := by
  show (recordedVersion channel c).any (hasBlob d c.threadId c.checkpointNs channel) = _
  rw [recordedBlob]
  cases recordedVersion channel c with
  | none => rfl
  | some version =>
    rw [Option.any_some, Option.bind_some, hasBlob]
    cases d.checkpointBlobs.get? (c.threadId, c.checkpointNs, channel, version) with
    | none => rfl
    | some b => by_cases hempty : b.type = "empty" <;> simp [Option.filter, hempty]

theorem isSeed_walkRow {Value : Type} (loads : String → Option String → Value) (channel : String)
    (c : Checkpoint) :
    (walkRow d channel c).isSeed = (storedValue loads d channel c).isSome := by
  rw [WalkRow.isSeed, hb_walkRow, storedValue]
  cases recordedBlob d channel c with
  | none =>
    rw [Option.isSome_none, Bool.false_or, Option.isSome_map]
    rfl
  | some b => rfl

/-! ### The walks that the loop ends with -/

theorem isTree_stageRows (htree : CheckpointTree d threadId ns) {pre : List Checkpoint}
    (hpre : pre <+: newestFirst d threadId ns) : IsTree (pre.map (stageRow d channels)) := by
  obtain ⟨rank, hrank⟩ := htree
  refine ⟨rank, fun row hrow => ?_⟩
  obtain ⟨c, hc, rfl⟩ := List.mem_map.mp hrow
  exact hrank c (mem_newestFirst.mp (hpre.subset hc))

theorem rank_lt_of_findRow {rank : Uuid → ℕ}
    (hrank : ∀ c ∈ namespaceRows d threadId ns, ∀ parent,
      c.parentCheckpointId = some parent → rank parent < rank c.checkpointId)
    {pre : List Checkpoint} (hpre : pre <+: newestFirst d threadId ns) (channel : String) :
    ∀ id row, findRow (pre.map (walkRow d channel)) id = some row →
      ∀ parent, row.parentCheckpointId = some parent → rank parent < rank id := by
  intro id row hfind parent hparent
  rw [findRow_map, Option.map_eq_some_iff] at hfind
  obtain ⟨c, hc, rfl⟩ := hfind
  obtain ⟨hmem, rfl⟩ := (find?_checkpointId hpre.subset).mp hc
  exact hrank c (mem_newestFirst.mp (hpre.subset hmem)) parent hparent

/-- The walk of a channel follows a chain among the rows that were recorded. -/
theorem exists_followParents_eq (htree : CheckpointTree d threadId ns) {pre : List Checkpoint}
    (hpre : pre <+: newestFirst d threadId ns) {channel : String} (hch : channel ∈ channels)
    {c : Checkpoint} (hc : (pre.find? fun c => c.checkpointId = target) = some c) :
    ∃ chain, AncestorChain (findRow (pre.map (walkRow d channel))) WalkRow.parentCheckpointId
        WalkRow.isSeed c.parentCheckpointId chain ∧
      followParents (pre.map (stageRow d channels)) target channel = walkedOf chain := by
  obtain ⟨rank, hrank⟩ := htree
  have hrank' := rank_lt_of_findRow hrank hpre channel
  obtain ⟨chain, hchain⟩ : ∃ chain, AncestorChain (findRow (pre.map (walkRow d channel)))
      WalkRow.parentCheckpointId WalkRow.isSeed c.parentCheckpointId chain :=
    exists_ancestorChain hrank' _
  refine ⟨chain, hchain, ?_⟩
  have hlength := hchain.length_le hrank' fun id row => findRow_eq_some
  have hfind : ((pre.map (stageRow d channels)).find? fun row => row.checkpointId = target) =
      some (stageRow d channels c) := by
    rw [List.find?_map, Option.map_eq_some_iff]
    exact ⟨c, hc, rfl⟩
  have hfuel : chain.length < (pre.map (stageRow d channels)).length + 1 := by
    rw [List.length_map] at hlength ⊢
    omega
  rw [followParents, hfind]
  simp only
  rw [readings_eq hch]
  show (chainFrom _ _ c.parentCheckpointId).getD _ = _
  rw [chainFrom_eq hchain hfuel, Option.getD_some]

theorem followParents_of_not_recorded {pre : List Checkpoint} (channel : String)
    (h : (pre.find? fun c => c.checkpointId = target) = none) :
    followParents (pre.map (stageRow d channels)) target channel = walkedOf [] := by
  have hfind : ((pre.map (stageRow d channels)).find? fun row => row.checkpointId = target) =
      none := by
    rw [List.find?_map, Option.map_eq_none_iff]
    exact h
  rw [followParents, hfind]
  rfl

theorem seeded_of_allSeeded {walks : helpers.Walks} (h : helpers.allSeeded channels walks = true)
    {channel : String} (hch : channel ∈ channels) : helpers.seeded walks channel = true := by
  rw [DeltaHelpers.allSeeded, decide_eq_true_eq] at h
  have hfilter := List.length_filter_le (helpers.seeded walks) channels.dedup
  have hdedup := (List.dedup_sublist channels).length_le
  have hall : (channels.dedup.filter (helpers.seeded walks)).length = channels.dedup.length := by
    omega
  exact List.length_filter_eq_length_iff.mp hall channel (List.mem_dedup.mpr hch)

theorem chain_map_walkRow {Value : Type} (loads : String → Option String → Value)
    {channel : String} {start : Option Uuid} {chain : List Checkpoint}
    (h : DeltaChain loads d threadId ns channel start chain) :
    AncestorChain (findRow ((newestFirst d threadId ns).map (walkRow d channel)))
      WalkRow.parentCheckpointId WalkRow.isSeed start (chain.map (walkRow d channel)) := by
  refine AncestorChain.map (fun id => ?_) (fun _ _ _ => rfl)
    (fun _ c _ => isSeed_walkRow loads channel c) h
  rw [findRow_map, find?_newestFirst]

variable (helpers) in
/-- **Each walk is the one of the chain**, although the loop may end before all pages are read. -/
theorem walked_walkLoop {Value : Type} (loads : String → Option String → Value)
    (hsize : 0 < pageSize) (htree : CheckpointTree d threadId ns) {channel : String}
    (hch : channel ∈ channels) {chain : List Checkpoint}
    (hchain : DeltaChain loads d threadId ns channel (parentOf d threadId ns target) chain) :
    helpers.walked (walkLoop helpers d threadId ns channels pageSize target
      ((namespaceRows d threadId ns).length + 1) [] helpers.start none) channel =
        walkedOf (chain.map (walkRow d channel)) := by
  have hrows := chain_map_walkRow loads hchain
  have hfuel : (newestFirst d threadId ns).length < (namespaceRows d threadId ns).length + 1 := by
    rw [newestFirst, List.length_insertionSort]
    omega
  have hnone : ([] : List (List StageRow)).flatten = [].map (stageRow d channels) := rfl
  obtain ⟨pages, pre, hloop, hpages, hpre, hends⟩ :=
    exists_walkLoop_eq helpers channels target hsize (List.nil_append _) hfuel hnone
  have htree' : IsTree (pre.map (stageRow d channels)) := isTree_stageRows htree hpre
  have hwalked := helpers.follows target channels pages (hpages ▸ htree') channel hch
  rw [hpages] at hwalked
  refine (congrArg (helpers.walked · channel) hloop).trans (hwalked.trans ?_)
  rcases hends with rfl | hseeded
  · -- all checkpoints are recorded
    cases hc : (newestFirst d threadId ns).find? fun c => c.checkpointId = target with
    | none =>
      rw [parentOf, ← find?_newestFirst, hc] at hchain
      rw [followParents_of_not_recorded channel hc, hchain.eq_nil]
      rfl
    | some c =>
      rw [parentOf, ← find?_newestFirst, hc] at hrows
      obtain ⟨chain', hchain', heq⟩ := exists_followParents_eq htree hpre hch hc
      rw [heq, hchain'.unique hrows]
  · -- the walk has ended among the rows that are recorded
    obtain ⟨row, hrow, hwalkEnds⟩ := helpers.seeded_ends target channels pages (hpages ▸ htree')
      channel hch (seeded_of_allSeeded hseeded hch)
    rw [hpages] at hrow hwalkEnds
    rw [readings_eq hch] at hwalkEnds
    rw [List.find?_map, Option.mem_def, Option.map_eq_some_iff] at hrow
    obtain ⟨c, hc, rfl⟩ := hrow
    obtain ⟨hmem, hid⟩ := (find?_checkpointId hpre.subset).mp hc
    have hget : d.checkpoints.get? (threadId, ns, target) = some c :=
      get?_checkpoints_eq_some.mpr ⟨mem_newestFirst.mp (hpre.subset hmem), hid⟩
    rw [parentOf, hget] at hrows
    obtain ⟨chain', hchain', heq⟩ := exists_followParents_eq htree hpre hch hc
    have hlift := hchain'.lift (fun _ _ => findRow_of_prefix hpre) hwalkEnds
    rw [heq, hlift.unique hrows]

/-! ### FETCH -/

/-- In a list without repetitions, one element contributes when the others do not. -/
theorem flatMap_eq_of_nodup {α β : Type} {l : List α} (hl : l.Nodup) {a : α} (ha : a ∈ l)
    {f : α → List β} (hf : ∀ b ∈ l, b ≠ a → f b = []) : l.flatMap f = f a := by
  induction l with
  | nil => cases ha
  | cons b l ih =>
    obtain ⟨hb, hl⟩ := List.nodup_cons.mp hl
    rw [List.flatMap_cons]
    rcases List.mem_cons.mp ha with rfl | ha
    · have hrest : l.flatMap f = [] := by
        rw [List.flatMap_eq_nil_iff]
        intro b hmem
        exact hf b (List.mem_cons_of_mem a hmem) (ne_of_mem_of_not_mem hmem hb)
      rw [hrest, List.append_nil]
    · rw [hf b List.mem_cons_self (ne_of_mem_of_not_mem ha hb).symm, List.nil_append]
      exact ih hl ha fun b' hb' => hf b' (List.mem_cons_of_mem b hb')

variable {walked : String → Walked} {channel : String}

/-- The writes of a channel at a checkpoint of its chain are fetched once. -/
theorem filterMap_fetchRows (hnodup : channels.Nodup) (hch : channel ∈ channels) {id : Uuid}
    (hid : id ∈ (walked channel).chain) :
    (fetchRows d threadId ns channels walked).filterMap (DeltaFetchRow.write? channel id) =
    ((d.checkpointWrites.select (CheckpointWrite.isOn threadId ns id)).map
      CheckpointWrite.stored).filter fun w => w.channel = channel := by
  have hmem : channel ∈ channels.filter fun channel => (walked channel).chain ≠ [] :=
    List.mem_filter.mpr ⟨hch, by simpa using List.ne_nil_of_mem hid⟩
  rw [fetchRows, List.filterMap_append, List.filterMap_flatMap, List.filterMap_flatMap,
    flatMap_eq_of_nodup (hnodup.filter _) hmem]
  · have hseeds : ∀ (l : List String) (blobs : String → List CheckpointBlob),
        (l.flatMap fun channel' => ((blobs channel').map DeltaFetchRow.seed).filterMap
          (DeltaFetchRow.write? channel id)) = [] := by
      intro l blobs
      rw [List.flatMap_eq_nil_iff]
      intro channel' _
      rw [List.filterMap_map, List.filterMap_eq_nil_iff]
      exact fun _ _ => rfl
    rw [hseeds, List.append_nil, List.filterMap_map, List.filter_map, ← List.filterMap_eq_map,
      Table.select, Table.select, List.filter_filter, List.filterMap_filter, List.filterMap_filter]
    refine List.filterMap_congr fun w _ => ?_
    by_cases hw : w.checkpointId = id
    · subst hw
      by_cases hwch : w.channel = channel <;>
        simp [CheckpointWrite.isOn, CheckpointWrite.stored, DeltaFetchRow.write?, hid, hwch]
    · simp [CheckpointWrite.isOn, DeltaFetchRow.write?, hw]
  · intro channel' _ hne
    rw [List.filterMap_map, List.filterMap_eq_nil_iff]
    intro w hw
    have hchannel : w.channel = channel' := by
      simp only [Table.mem_select, Bool.and_eq_true, decide_eq_true_eq] at hw
      exact hw.2.1.2
    simp [DeltaFetchRow.write?, hchannel, hne]

/-- **The writes of a channel at a checkpoint**, in the reverse of their order. -/
theorem fetchedWrites_eq (hnodup : channels.Nodup) (hch : channel ∈ channels) {id : Uuid}
    (hid : id ∈ (walked channel).chain) {rows : List DeltaFetchRow}
    (hrows : rows.Perm (fetchRows d threadId ns channels walked)) :
    fetchedWrites rows channel id =
      ((writesAt d threadId ns id).filter fun w => w.channel = channel).reverse := by
  have hperm : (fetchedWrites rows channel id).Perm
      ((writesAt d threadId ns id).filter fun w => w.channel = channel).reverse := by
    refine (List.perm_insertionSort _ _).trans ((hrows.filterMap _).trans ?_)
    rw [filterMap_fetchRows hnodup hch hid]
    exact (((List.perm_insertionSort _ _).filter _).symm).trans (List.reverse_perm _).symm
  have hsorted : (writesAt d threadId ns id).Pairwise fun w w' => w.order ≤ w'.order :=
    haveI : Std.Total fun w w' : StoredWrite => w.order ≤ w'.order := ⟨fun _ _ => le_total _ _⟩
    haveI : IsTrans StoredWrite fun w w' => w.order ≤ w'.order := ⟨fun _ _ _ => le_trans⟩
    List.pairwise_insertionSort _ _
  have hsorted' : (fetchedWrites rows channel id).Pairwise fun w w' => w'.order ≤ w.order :=
    haveI : Std.Total fun w w' : StoredWrite => w'.order ≤ w.order := ⟨fun _ _ => le_total _ _⟩
    haveI : IsTrans StoredWrite fun w w' => w'.order ≤ w.order := ⟨fun _ _ _ h h' => h'.trans h⟩
    List.pairwise_insertionSort _ _
  have hmem : ∀ w ∈ fetchedWrites rows channel id, ∃ w' ∈ d.checkpointWrites.select
      (CheckpointWrite.isOn threadId ns id), w'.stored = w := by
    intro w hw
    have hw' := List.mem_of_mem_filter (List.mem_reverse.mp (hperm.mem_iff.mp hw))
    exact List.mem_map.mp ((List.mem_insertionSort _).mp hw')
  refine hperm.eq_of_pairwise (fun a b ha hb hab hba => ?_) hsorted'
    (List.pairwise_reverse.mpr (hsorted.filter _))
  obtain ⟨w, hw, rfl⟩ := hmem a ha
  obtain ⟨w', hw', rfl⟩ := hmem b (hperm.mem_iff.mpr hb)
  rw [eq_of_order hw hw' (le_antisymm hba hab)]

/-- The blob of a seed is fetched. -/
theorem fetchedSeed_eq (hch : channel ∈ channels) {version : String}
    (hversion : (walked channel).seedVer = some version) {rows : List DeltaFetchRow}
    (hrows : rows.Perm (fetchRows d threadId ns channels walked)) :
    fetchedSeed rows channel version =
      d.checkpointBlobs.get? (threadId, ns, channel, version) := by
  have hmem : ∀ b, b ∈ rows.filterMap (DeltaFetchRow.seed? channel version) ↔
      b ∈ d.checkpointBlobs ∧ Keyed.key b = (threadId, ns, channel, version) := by
    intro b
    rw [(hrows.filterMap _).mem_iff]
    simp only [fetchRows, List.filterMap_append, List.mem_append, List.mem_filterMap,
      List.mem_flatMap, List.mem_map, Keyed.key, Prod.mk.injEq]
    constructor
    · rintro (⟨_, ⟨_, _, w, _, rfl⟩, h⟩ | ⟨_, ⟨channel', hch', b', hb', rfl⟩, h⟩)
      · cases h
      · rw [DeltaFetchRow.seed?, Option.ite_none_right_eq_some, Option.some.injEq] at h
        obtain ⟨⟨hchannel, hver⟩, rfl⟩ := h
        simp only [Table.mem_select, Bool.and_eq_true, decide_eq_true_eq] at hb'
        exact ⟨hb'.1, hb'.2.1.1.1, hb'.2.1.1.2, hchannel, hver⟩
    · rintro ⟨hb, ht, hns, hchannel, hver⟩
      refine .inr ⟨.seed b, ⟨channel, ?_, b, ?_, rfl⟩, ?_⟩
      · simp [hch, hversion]
      · simp [hb, ht, hns, hchannel, hver, hversion]
      · simp [DeltaFetchRow.seed?, hchannel, hver]
  rw [fetchedSeed]
  cases hlast : List.getLast? _ with
  | none =>
    rw [List.getLast?_eq_none_iff] at hlast
    cases hget : d.checkpointBlobs.get? (threadId, ns, channel, version) with
    | none => rfl
    | some b =>
      have hb := (hmem b).mpr (Table.get?_eq_some.mp hget)
      rw [hlast] at hb
      cases hb
  | some b =>
    exact (Table.get?_eq_some.mpr ((hmem b).mp (List.mem_of_getLast? hlast))).symm

/-! ### The history -/

/-- A checkpoint that keeps an inline value of a channel records a version of it. -/
def InlineVersions (d : Database) (threadId : Uuid) (ns : String) (channels : List String) : Prop :=
  ∀ c ∈ namespaceRows d threadId ns, ∀ channel ∈ channels,
    ((inlineValue channel c).filter fun v => v ≠ .null).isSome = true →
      (recordedVersion channel c).isSome = true

instance : Decidable (InlineVersions d threadId ns channels) :=
  inferInstanceAs (Decidable (∀ c ∈ _, ∀ channel ∈ _, _ → _))

section

variable {Value : Type} (loads : String → Option String → Value)

/-- The seed of a chain is the stored value that ends it. -/
theorem seed_eq (hch : channel ∈ channels) (hversions : InlineVersions d threadId ns channels)
    {start : Option Uuid} {chain : List Checkpoint}
    (hchain : DeltaChain loads d threadId ns channel start chain)
    (hwalked : walked channel = walkedOf (chain.map (walkRow d channel)))
    {rows : List DeltaFetchRow} (hrows : rows.Perm (fetchRows d threadId ns channels walked)) :
    (assembleHistory loads rows (walked channel) channel).seed =
      chain.getLast?.bind (storedValue loads d channel) := by
  rw [assembleHistory]
  cases hlast : chain.getLast? with
  | none =>
    rw [hwalked, walkedOf, List.getLast?_map, hlast]
    rfl
  | some c =>
    obtain ⟨id, hid⟩ := hchain.exists_find (List.mem_of_getLast? hlast)
    have hc := (get?_checkpoints_eq_some.mp hid).1
    obtain ⟨-, hthread, hns⟩ := mem_namespaceRows.mp hc
    have hseed := isSeed_walkRow (d := d) loads channel c
    have hver : (walkRow d channel c).ver = recordedVersion channel c := rfl
    have hseedVer : (walked channel).seedVer =
        if (storedValue loads d channel c).isSome then recordedVersion channel c else none := by
      rw [hwalked, walkedOf, List.getLast?_map, hlast, Option.map_some, Option.filter, hseed, ← hver]
      split <;> rfl
    have hseedInline : (walked channel).seedInline = if (storedValue loads d channel c).isSome then
        (if (walkRow d channel c).hb then none
          else (inlineValue channel c).filter fun v => v ≠ .null) else none := by
      rw [hwalked, walkedOf, List.getLast?_map, hlast, Option.map_some, Option.filter, hseed]
      split <;> rfl
    rw [Option.bind_some]
    cases hstored : storedValue loads d channel c with
    | none =>
      rw [hseedVer, hstored]
      rfl
    | some value =>
      rw [hstored, if_pos Option.isSome_some] at hseedVer hseedInline
      cases hversion : recordedVersion channel c with
      | none =>
        -- without a version there is no blob, and so the value is inline
        have hblob : recordedBlob d channel c = none := by
          rw [recordedBlob, hversion]
          rfl
        rw [storedValue, hblob, Option.map_eq_some_iff] at hstored
        obtain ⟨v, hv, -⟩ := hstored
        have hsome := hversions c hc channel hch (by rw [hv]; rfl)
        rw [hversion] at hsome
        cases hsome
      | some version =>
        rw [hversion] at hseedVer
        have hblob : (d.checkpointBlobs.get? (threadId, ns, channel, version)).filter
            (fun b => b.type ≠ "empty") = recordedBlob d channel c := by
          rw [recordedBlob, hversion, hthread, hns]
          rfl
        have hhb : (walkRow d channel c).hb = (recordedBlob d channel c).isSome :=
          hb_walkRow channel c
        rw [hseedVer, Option.bind_some, fetchedSeed_eq hch hseedVer hrows, hblob, ← hstored,
          storedValue, hseedInline, hhb]
        cases recordedBlob d channel c with
        | none => rfl
        | some b => rfl

/-- What is put together of a chain is its history. -/
theorem assembleHistory_eq (hnodup : channels.Nodup) (hch : channel ∈ channels)
    (hversions : InlineVersions d threadId ns channels) {start : Option Uuid}
    {chain : List Checkpoint} (hchain : DeltaChain loads d threadId ns channel start chain)
    (hwalked : walked channel = walkedOf (chain.map (walkRow d channel)))
    {rows : List DeltaFetchRow} (hrows : rows.Perm (fetchRows d threadId ns channels walked)) :
    assembleHistory loads rows (walked channel) channel =
      historyOf loads d threadId ns channel chain := by
  have hids : (walked channel).chain = chain.map Checkpoint.checkpointId := by
    rw [hwalked, walkedOf, List.map_map]
    rfl
  have hwrites : (assembleHistory loads rows (walked channel) channel).writes =
      (historyOf loads d threadId ns channel chain).writes := by
    rw [assembleHistory, historyOf, List.reverse_flatMap, hids, ← List.map_reverse,
      List.flatMap_map]
    refine List.flatMap_congr fun c hc => ?_
    have hid : c.checkpointId ∈ (walked channel).chain := by
      rw [hids]
      exact List.mem_map_of_mem (List.mem_reverse.mp hc)
    rw [Function.comp_apply, fetchedWrites_eq hnodup hch hid hrows, ← List.map_reverse,
      List.reverse_reverse, loadWrites]
    refine List.map_congr_left fun w hw => ?_
    rw [of_decide_eq_true (List.mem_filter.mp hw).2]
  have hseed := seed_eq loads hch hversions hchain hwalked hrows
  exact congrArg₂ DeltaChannelHistory.mk hwrites hseed

/-- **The history of each channel is the one of the definition**, for every page size. -/
theorem agetDeltaHistory_eq (helpers : DeltaHelpers) (d : Database) (threadId : Uuid) (ns : String)
    (checkpointId : Option Uuid) (channels : List String) {pageSize : ℕ} (hsize : 0 < pageSize)
    (htree : CheckpointTree d threadId ns) (hnodup : channels.Nodup)
    (hversions : InlineVersions d threadId ns channels) :
    ∃ chains : String → List Checkpoint,
      (∀ channel ∈ channels, DeltaChain loads d threadId ns channel
        ((checkpointId.or (latestId d threadId ns)).bind (parentOf d threadId ns))
        (chains channel)) ∧
      agetDeltaHistory helpers loads d threadId ns checkpointId channels pageSize =
        channels.map fun channel =>
          (channel, historyOf loads d threadId ns channel (chains channel)) := by
  cases htarget : checkpointId.or (latestId d threadId ns) with
  | none =>
    refine ⟨fun _ => [], fun channel _ => .root, ?_⟩
    rw [agetDeltaHistory, htarget]
    rfl
  | some target =>
    have hchains : ∀ channel, ∃ chain,
        DeltaChain loads d threadId ns channel (parentOf d threadId ns target) chain := by
      intro channel
      obtain ⟨rank, hrank⟩ := htree
      have hdown : ∀ id c, d.checkpoints.get? (threadId, ns, id) = some c → ∀ parent,
          c.parentCheckpointId = some parent → rank parent < rank id := by
        intro id c hid parent hparent
        obtain ⟨hc, rfl⟩ := get?_checkpoints_eq_some.mp hid
        exact hrank c hc parent hparent
      exact exists_ancestorChain hdown _
    choose chains hchains using hchains
    refine ⟨chains, fun channel _ => hchains channel, ?_⟩
    rw [agetDeltaHistory, htarget]
    refine List.map_congr_left fun channel hch => ?_
    have hwalked := walked_walkLoop helpers loads hsize htree hch (hchains channel)
    rw [assembleHistory_eq loads hnodup hch hversions (hchains channel) hwalked
      (helpers.union_perm _)]

end

/-! ### Helpers that follow the recorded rows -/

/-- A walk that finds a seed ends there. -/
theorem ancestryEnds_of_chainFrom {rows : List WalkRow} {fuel : ℕ} {start : Option Uuid}
    {walked : Walked} (h : chainFrom rows fuel start = some walked)
    (hseed : walked.seedVer.isSome || walked.seedInline.isSome) :
    AncestryEnds (findRow rows) WalkRow.parentCheckpointId WalkRow.isSeed start := by
  induction fuel generalizing start walked with
  | zero => cases h
  | succ fuel ih =>
    cases start with
    | none => exact .root
    | some id =>
      rw [chainFrom, ← findRow] at h
      split at h
      · cases h
        cases hseed
      · next row hfind =>
        split at h
        · next hstop => exact .stopped hfind hstop
        · obtain ⟨walked', hwalked', rfl⟩ := Option.map_eq_some_iff.mp h
          exact .step hfind (ih hwalked' hseed)

/-- The helpers that keep the rows, and follow the parents when they are asked for a walk. -/
def recordedHelpers : DeltaHelpers where
  Walks := Uuid × List StageRow
  start := (0, [])
  tryAdvanceWalks target _ recorded _ := (target, recorded)
  walked walks channel := followParents walks.2 walks.1 channel
  follows target channels pages _ channel _ := by
    induction pages using List.reverseRecOn with
    | nil => rfl
    | append_singleton pages page ih =>
      rw [advancePages_concat, List.flatten_append, List.flatten_singleton]
  seeded walks channel :=
    let walked := followParents walks.2 walks.1 channel
    walked.seedVer.isSome || walked.seedInline.isSome
  seeded_ends target channels pages _ channel _ hseeded := by
    induction pages using List.reverseRecOn with
    | nil => cases hseeded
    | append_singleton pages page ih =>
      rw [advancePages_concat, ← List.flatten_singleton (l := page), ← List.flatten_append]
        at hseeded
      rw [WalkEnds]
      simp only [followParents] at hseeded
      cases hfind : (pages ++ [page]).flatten.find? fun row => row.checkpointId = target with
      | none =>
        rw [hfind] at hseeded
        cases hseeded
      | some row =>
        refine ⟨row, rfl, ?_⟩
        rw [hfind] at hseeded
        simp only at hseeded
        cases hchain : chainFrom ((pages ++ [page]).flatten.map fun row => row.reading channel)
            ((pages ++ [page]).flatten.length + 1) row.parentCheckpointId with
        | none =>
          rw [hchain] at hseeded
          cases hseeded
        | some walked =>
          rw [hchain, Option.getD_some] at hseeded
          exact ancestryEnds_of_chainFrom hchain hseeded
  unionOrder rows := rows
  union_perm _ := .refl _

/-- Three checkpoints of a thread, with what the first two keep inline, and the versions that they
record. -/
def threeCheckpoints (first second versions : List (String × Json)) : Database :=
  { Database.fresh .empty with
    checkpoints := ⟨[
      { threadId := 1, checkpointId := 1, checkpoint := .obj [
        ("channel_versions", .obj versions), ("channel_values", .obj first)] },
      { threadId := 1, checkpointId := 2, parentCheckpointId := some 1, checkpoint := .obj [
        ("channel_versions", .obj versions), ("channel_values", .obj second)] },
      { threadId := 1, checkpointId := 3, parentCheckpointId := some 2, checkpoint := .obj [] }],
      by simp [Keyed.key]⟩
    checkpointWrites := ⟨[⟨1, "", 2, 7, 0, "notes", "text", "w"⟩], by decide⟩ }

theorem checkpointTree_threeCheckpoints (first second versions : List (String × Json)) :
    CheckpointTree (threeCheckpoints first second versions) 1 "" := by
  refine ⟨id, fun c hc parent hparent => ?_⟩
  have hmem : c ∈ (threeCheckpoints first second versions).checkpoints.rows :=
    (mem_namespaceRows.mp hc).1
  simp only [threeCheckpoints, List.mem_cons, List.not_mem_nil, or_false] at hmem
  rcases hmem with rfl | rfl | rfl
  · cases hparent
  · cases hparent
    exact Nat.one_lt_two
  · cases hparent
    exact Nat.lt_succ_self 2

/-- One value of the channel, below a checkpoint with a write. -/
def oneNote (versions : List (String × Json)) : Database :=
  threeCheckpoints [("notes", .str "a")] [] versions

/-- The value and the write are read back. -/
theorem agetDeltaHistory_oneNote : ∃ chains : String → List Checkpoint,
    (∀ channel ∈ ["notes"], DeltaChain (fun type _ => type) (oneNote [("notes", .str "1")]) 1 ""
      channel (((some 3).or (latestId (oneNote [("notes", .str "1")]) 1 "")).bind
        (parentOf (oneNote [("notes", .str "1")]) 1 "")) (chains channel)) ∧
    agetDeltaHistory recordedHelpers (fun type _ => type) (oneNote [("notes", .str "1")]) 1 ""
      (some 3) ["notes"] 1 = ["notes"].map fun channel => (channel, historyOf (fun type _ => type)
        (oneNote [("notes", .str "1")]) 1 "" channel (chains channel)) :=
  agetDeltaHistory_eq (fun type _ => type) recordedHelpers _ 1 "" (some 3) ["notes"] Nat.one_pos
    (checkpointTree_threeCheckpoints _ _ _) (by decide) (by decide +kernel)

/-- The stored value of a channel, with `null` as a value like the others. -/
def storedOrNull {Value : Type} (loads : String → Option String → Value) (d : Database)
    (channel : String) (c : Checkpoint) : Option (ChannelValue Value) :=
  match recordedBlob d channel c with
  | some b => some (.loaded (loads b.type b.blob))
  | none => (inlineValue channel c).map .inline

/-- The history differs where a `null` is the nearest value, where a channel is named twice, and
where no version of an inline value is recorded. -/
theorem not_deltaHistory :
    (¬ ∃ chain, AncestorChain (fun id =>
        (threeCheckpoints [("notes", .str "a")] [("notes", .null)]
          [("notes", .str "1")]).checkpoints.get? (1, "", id)) Checkpoint.parentCheckpointId
        (fun c => (storedOrNull (fun type _ => type) (threeCheckpoints [("notes", .str "a")]
          [("notes", .null)] [("notes", .str "1")]) "notes" c).isSome) (some 2) chain ∧
      (agetDeltaHistory recordedHelpers (fun type _ => type) (threeCheckpoints
        [("notes", .str "a")] [("notes", .null)] [("notes", .str "1")]) 1 "" (some 3) ["notes"]
          1).map (fun entry => entry.2.seed) =
        [chain.getLast?.bind (storedOrNull (fun type _ => type) (threeCheckpoints
          [("notes", .str "a")] [("notes", .null)] [("notes", .str "1")]) "notes")]) ∧
    (¬ ∃ chain, DeltaChain (fun type _ => type) (oneNote [("notes", .str "1")]) 1 "" "notes"
        (some 2) chain ∧
      agetDeltaHistory recordedHelpers (fun type _ => type) (oneNote [("notes", .str "1")]) 1 ""
        (some 3) ["notes", "notes"] 1 = ["notes", "notes"].map fun channel =>
          (channel, historyOf (fun type _ => type) (oneNote [("notes", .str "1")]) 1 "" channel
            chain)) ∧
    (¬ ∃ chain, DeltaChain (fun type _ => type) (oneNote []) 1 "" "notes" (some 2) chain ∧
      agetDeltaHistory recordedHelpers (fun type _ => type) (oneNote []) 1 "" (some 3) ["notes"] 1 =
        ["notes"].map fun channel => (channel, historyOf (fun type _ => type) (oneNote []) 1 ""
          channel chain)) := by
  refine ⟨?_, ?_, ?_⟩
  · rintro ⟨chain, hchain, hseed⟩
    -- the chain is the checkpoint of the `null`
    cases hchain with
    | gone hfind => revert hfind; decide +kernel
    | stopped hfind _ =>
      cases hfind
      revert hseed
      decide +kernel
    | step hfind hstop _ =>
      cases hfind
      revert hstop
      decide +kernel
  · rintro ⟨chain, hchain, heq⟩
    have h2 : DeltaChain (fun type _ => type) (oneNote [("notes", .str "1")]) 1 "" "notes" (some 2)
        ((oneNote [("notes", .str "1")]).checkpoints.rows.take 2).reverse :=
      .step rfl (by decide +kernel) (.stopped rfl (by decide +kernel))
    rw [hchain.unique h2] at heq
    revert heq
    decide +kernel
  · rintro ⟨chain, hchain, heq⟩
    have h2 : DeltaChain (fun type _ => type) (oneNote []) 1 "" "notes" (some 2)
        ((oneNote []).checkpoints.rows.take 2).reverse :=
      .step rfl (by decide +kernel) (.stopped rfl (by decide +kernel))
    rw [hchain.unique h2] at heq
    revert heq
    decide +kernel

end NextRole
