import NextRole.Runtime.Checkpoint
import NextRole.Servicers.Checkpointer

/-!
# What a prune keeps

`Prune` with `KEEP_LATEST` keeps the checkpoint with the greatest id of each thread.  A
thread has a latest checkpoint in each of its namespaces, and the value of a delta channel
may lie in the ancestors of a checkpoint, so what is to be kept can be more than that.

## Main definitions

* `KeepsLatest` — the latest checkpoint of every namespace reads as before.
* `StandsAlone` — a checkpoint is the newest of its thread and is read without its ancestors.

## Main results

* `ancestry_pruned` — the walk from a checkpoint when it is the only one.
* `keepsLatest_iff` — **a prune keeps every namespace readable iff the latest checkpoint
  of each stands alone**.
* `not_keepsLatest` — the subgraph of a thread loses its state.
-/

namespace NextRole

/-! ### Statement -/

section

variable {Value : Type} (walk : List WalkRow → Uuid → Walked) (loads : String → Option String → Value)
  (delta : String → List String)

/-- The latest checkpoint of every namespace of the threads is kept with its writes and
reads as before, and other threads keep their rows.  The delta channels of a namespace
are `delta ns`; a walk that does not end has no value to preserve. -/
structure KeepsLatest (threadIds : List Uuid) (d d' : Database) : Prop where
  kept : ∀ threadId ∈ threadIds, ∀ ns c, IsLatest d threadId ns c → c ∈ d'.checkpoints
  writes : ∀ threadId ∈ threadIds, ∀ ns c, IsLatest d threadId ns c →
    ∀ w ∈ d.checkpointWrites, w.belongsTo c = true → w ∈ d'.checkpointWrites
  tuple : ∀ threadId ∈ threadIds, ∀ ns c, IsLatest d threadId ns c →
    agetTuple loads d' threadId ns none = agetTuple loads d threadId ns none
  history : ∀ threadId ∈ threadIds, ∀ ns c, IsLatest d threadId ns c →
    ∀ channels ⊆ delta ns, (∀ channel ∈ channels,
      (ancestry (walkRows d threadId ns channel) c.checkpointId).isSome = true) →
        agetDeltaChannelHistory walk loads d' threadId ns none channels =
          agetDeltaChannelHistory walk loads d threadId ns none channels
  otherCheckpoints : ∀ c, c.threadId ∉ threadIds → (c ∈ d'.checkpoints ↔ c ∈ d.checkpoints)
  otherBlobs : ∀ b, b.threadId ∉ threadIds → (b ∈ d'.checkpointBlobs ↔ b ∈ d.checkpointBlobs)
  otherWrites : ∀ w, w.threadId ∉ threadIds → (w ∈ d'.checkpointWrites ↔ w ∈ d.checkpointWrites)

/-- A checkpoint has the greatest id of its thread, and for no delta channel do its
ancestors carry a stored value or writes that a read of it needs. -/
structure StandsAlone (d : Database) (c : Checkpoint) : Prop where
  newest : ∀ c' ∈ d.checkpoints, c'.threadId = c.threadId → c'.checkpointId ≤ c.checkpointId
  noSeed : ∀ channel ∈ delta c.checkpointNs, ∀ walked,
    ancestry (walkRows d c.threadId c.checkpointNs channel) c.checkpointId = some walked →
      walked.chain.tail = [] ∨ walked.seedVer = none
  noWrites : ∀ channel ∈ delta c.checkpointNs, ∀ walked,
    ancestry (walkRows d c.threadId c.checkpointNs channel) c.checkpointId = some walked →
      ∀ id ∈ walked.chain.tail, ∀ w ∈ d.checkpointWrites,
        w.isOn c.threadId c.checkpointNs id = true → w.channel ≠ channel

end

/-! ### The walk -/

section

variable {rows : List WalkRow} {row : WalkRow} {id : Uuid}

theorem chainFrom_of_isSeed (hfind : rows.find? (fun row => row.checkpointId = id) = some row)
    (hseed : row.isSeed = true) (fuel : ℕ) :
    chainFrom rows (fuel + 1) (some id) =
      some ⟨[id], row.ver, if row.hb then none else row.inline⟩ := by
  simp only [chainFrom, hfind, hseed, if_true]

theorem chainFrom_of_not_isSeed (hfind : rows.find? (fun row => row.checkpointId = id) = some row)
    (hseed : row.isSeed = false) (fuel : ℕ) :
    chainFrom rows (fuel + 1) (some id) = (chainFrom rows fuel row.parentCheckpointId).map
      fun walked => { walked with chain := id :: walked.chain } := by
  simp only [chainFrom, hfind, hseed, Bool.false_eq_true, if_false]

theorem chainFrom_circle (hfind : rows.find? (fun row => row.checkpointId = id) = some row)
    (hseed : row.isSeed = false) (hparent : row.parentCheckpointId = some id) (fuel : ℕ) :
    chainFrom rows fuel (some id) = none := by
  induction fuel with
  | zero => rfl
  | succ fuel ih => rw [chainFrom_of_not_isSeed hfind hseed, hparent, ih, Option.map_none]

/-- The walk from a checkpoint starts with it.  If the checkpoint is the only one, the
walk is the same or ends there without a seed. -/
theorem ancestry_pruned (hfind : rows.find? (fun row => row.checkpointId = id) = some row)
    {walked : Walked} (h : ancestry rows id = some walked) :
    (walked.chain = [id] ∧ ancestry [row] id = some walked) ∨
      ∃ rest fuel start, chainFrom rows fuel start = some rest ∧
        walked = { rest with chain := id :: rest.chain } ∧ ancestry [row] id = some ⟨[id], none, none⟩ := by
  have hid : row.checkpointId = id := by simpa using List.find?_some hfind
  have honly : [row].find? (fun row => row.checkpointId = id) = some row := by
    rw [List.find?_cons_of_pos (by simpa using hid)]
  rw [ancestry] at h ⊢
  cases hseed : row.isSeed with
  | true =>
    rw [chainFrom_of_isSeed hfind hseed, Option.some.injEq] at h
    left
    rw [chainFrom_of_isSeed honly hseed, ← h]
    exact ⟨rfl, rfl⟩
  | false =>
    have hstep := h
    rw [chainFrom_of_not_isSeed hfind hseed, Option.map_eq_some_iff] at hstep
    obtain ⟨rest, hrest, rfl⟩ := hstep
    refine Or.inr ⟨rest, _, _, hrest, rfl, ?_⟩
    rw [chainFrom_of_not_isSeed honly hseed]
    cases hparent : row.parentCheckpointId with
    | none => rfl
    | some p =>
      have hne : row.checkpointId ≠ p := by
        intro heq
        rw [chainFrom_circle hfind hseed (by rw [hparent, ← heq, hid])] at h
        cases h
      have hnone : [row].find? (fun row => row.checkpointId = p) = none := by
        simpa using hne
      simp only [List.length_singleton, chainFrom, hnone, Option.map_some]

theorem seedVer_of_chain_eq_nil {fuel : ℕ} {start : Option Uuid} {walked : Walked}
    (h : chainFrom rows fuel start = some walked) (hnil : walked.chain = []) :
    walked.seedVer = none := by
  cases fuel with
  | zero => cases h
  | succ fuel =>
    cases start with
    | none =>
      cases h
      rfl
    | some id =>
      cases hfind : rows.find? (fun row => row.checkpointId = id) with
      | none =>
        simp only [chainFrom, hfind, Option.some.injEq] at h
        rw [← h]
      | some row =>
        cases hseed : row.isSeed with
        | true =>
          rw [chainFrom_of_isSeed hfind hseed, Option.some.injEq] at h
          rw [← h] at hnil
          cases hnil
        | false =>
          rw [chainFrom_of_not_isSeed hfind hseed, Option.map_eq_some_iff] at h
          obtain ⟨rest, -, rfl⟩ := h
          cases hnil

/-- The seed of a chain is the stored value of one of the rows. -/
theorem exists_seed_of_chainFrom {fuel : ℕ} {start : Option Uuid} {walked : Walked}
    (h : chainFrom rows fuel start = some walked) {ver : String} (hver : walked.seedVer = some ver) :
    ∃ row ∈ rows, row.isSeed = true ∧ row.ver = some ver ∧
      walked.seedInline = if row.hb then none else row.inline := by
  induction fuel generalizing start walked with
  | zero => cases h
  | succ fuel ih =>
    cases start with
    | none =>
      cases h
      cases hver
    | some id =>
      cases hfind : rows.find? (fun row => row.checkpointId = id) with
      | none =>
        simp only [chainFrom, hfind, Option.some.injEq] at h
        rw [← h] at hver
        cases hver
      | some row =>
        cases hseed : row.isSeed with
        | true =>
          rw [chainFrom_of_isSeed hfind hseed, Option.some.injEq] at h
          subst h
          exact ⟨row, List.mem_of_find?_eq_some hfind, hseed, hver, rfl⟩
        | false =>
          rw [chainFrom_of_not_isSeed hfind hseed, Option.map_eq_some_iff] at h
          obtain ⟨rest, hrest, rfl⟩ := h
          exact @ih _ rest hrest hver

end

/-! ### The rows of WALK -/

section

variable {d : Database} {threadId : Uuid} {ns channel : String} {c : Checkpoint}

theorem mem_walkRows {row : WalkRow} :
    row ∈ walkRows d threadId ns channel ↔
      ∃ c ∈ namespaceRows d threadId ns, walkRow d channel c = row := by
  rw [walkRows, List.mem_map]
  simp only [(List.perm_insertionSort _ _).mem_iff]

theorem find?_walkRows (hc : c ∈ namespaceRows d threadId ns) :
    (walkRows d threadId ns channel).find? (fun row => row.checkpointId = c.checkpointId) =
      some (walkRow d channel c) := by
  cases hfind : (walkRows d threadId ns channel).find? fun row => row.checkpointId = c.checkpointId with
  | none =>
    have hall := List.find?_eq_none.mp hfind _ (mem_walkRows.mpr ⟨c, hc, rfl⟩)
    simp [walkRow] at hall
  | some row =>
    obtain ⟨c', hc', rfl⟩ := mem_walkRows.mp (List.mem_of_find?_eq_some hfind)
    have hid : (walkRow d channel c').checkpointId = c.checkpointId := by
      simpa using List.find?_some hfind
    rw [Option.some.inj ((get?_checkpoints_eq_some.mpr ⟨hc', hid⟩).symm.trans
      (get?_checkpoints_eq_some.mpr ⟨hc, rfl⟩))]

/-- A history has a seed iff its walk has found one. -/
theorem isSome_deltaSeed {Value : Type} (loads : String → Option String → Value) {fuel : ℕ}
    {start : Option Uuid} {walked : Walked}
    (h : chainFrom (walkRows d threadId ns channel) fuel start = some walked) :
    (deltaSeed loads d threadId ns channel walked).isSome = walked.seedVer.isSome := by
  cases hver : walked.seedVer with
  | none => simp [deltaSeed, hver]
  | some ver =>
    obtain ⟨row, hrow, hseed, hrowVer, hinline⟩ := exists_seed_of_chainFrom h hver
    obtain ⟨c, hc, rfl⟩ := mem_walkRows.mp hrow
    obtain ⟨-, rfl, rfl⟩ := mem_namespaceRows.mp hc
    have hhb : (walkRow d channel c).hb = hasBlob d c.threadId c.checkpointNs channel ver := by
      have hv : ((c.checkpoint.get? "channel_versions").bind fun versions => versions.text? channel) =
          some ver := hrowVer
      simp only [walkRow, hv, Option.any_some]
    rw [WalkRow.isSeed, hhb] at hseed
    rw [hhb] at hinline
    simp only [deltaSeed, hver, Option.bind_some, Option.isSome_some]
    unfold hasBlob at hseed hinline
    cases hget : d.checkpointBlobs.get? (c.threadId, c.checkpointNs, channel, ver) with
    | none =>
      simp only [hget, Bool.false_or, Bool.false_eq_true, if_false] at hseed hinline
      simpa only [hinline, Option.isSome_map] using hseed
    | some b =>
      by_cases hempty : b.type = "empty"
      · simp only [hget, hempty, ne_eq, not_true_eq_false, decide_false, Bool.false_or,
          Bool.false_eq_true, if_false] at hseed hinline
        simpa only [hempty, ne_eq, not_true_eq_false, if_false, hinline, Option.isSome_map] using hseed
      · simp [hempty]

end

/-! ### What a prune leaves -/

section

variable {threadIds : List Uuid} {d d' : Database} {c : Checkpoint}

/-- The newest checkpoint of a thread is not outdated, and no other one of the threads. -/
theorem outdated_eq_false (hc : c ∈ d.checkpoints) (hmem : c.threadId ∈ threadIds) :
    outdated threadIds d.checkpoints c = false ↔
      ∀ c' ∈ d.checkpoints, c'.threadId = c.threadId → c'.checkpointId ≤ c.checkpointId := by
  have hkept : keptId d.checkpoints c.threadId = some c.checkpointId ↔
      ∀ c' ∈ d.checkpoints, c'.threadId = c.threadId → c'.checkpointId ≤ c.checkpointId := by
    rw [keptId, List.max?_eq_some_iff]
    simp only [List.mem_map, Table.mem_select, decide_eq_true_eq]
    constructor
    · rintro ⟨-, hmax⟩ c' hc' ht
      exact hmax _ ⟨c', ⟨hc', ht⟩, rfl⟩
    · intro hmax
      refine ⟨⟨c, ⟨hc, rfl⟩, rfl⟩, ?_⟩
      rintro _ ⟨c', ⟨hc', ht⟩, rfl⟩
      exact hmax c' hc' ht
  rw [← hkept]
  simp [outdated, hmem]

theorem outdated_of_not_mem (hmem : c.threadId ∉ threadIds) (checkpoints : Table Checkpoint) :
    outdated threadIds checkpoints c = false := by
  simp [outdated, hmem]

theorem eq_of_belongsTo {w : CheckpointWrite} {c' : Checkpoint} (hc : c ∈ d.checkpoints)
    (hc' : c' ∈ d.checkpoints) (h : w.belongsTo c = true) (h' : w.belongsTo c' = true) : c' = c := by
  simp only [CheckpointWrite.belongsTo, Bool.and_eq_true, decide_eq_true_eq] at h h'
  refine Table.eq_of_key hc' hc ?_
  simp only [Keyed.key, Prod.mk.injEq]
  exact ⟨h'.1.1.symm.trans h.1.1, h'.1.2.symm.trans h.1.2, h'.2.symm.trans h.2⟩

variable (h : WithoutCheckpoints (outdated threadIds d.checkpoints) d d')

include h

theorem mem_checkpoints_pruned (hc : c ∈ d.checkpoints) (hmem : c.threadId ∈ threadIds) :
    c ∈ d'.checkpoints ↔
      ∀ c' ∈ d.checkpoints, c'.threadId = c.threadId → c'.checkpointId ≤ c.checkpointId := by
  rw [h.checkpoints, outdated_eq_false hc hmem]
  exact and_iff_right hc

theorem mem_checkpointWrites_pruned (hc : c ∈ d'.checkpoints) {w : CheckpointWrite}
    (hw : w.belongsTo c = true) : w ∈ d'.checkpointWrites ↔ w ∈ d.checkpointWrites := by
  obtain ⟨hc, hnot⟩ := (h.checkpoints c).mp hc
  rw [h.checkpointWrites]
  refine and_iff_left fun c' hc' hw' => ?_
  rw [eq_of_belongsTo hc hc' hw hw']
  exact hnot

theorem writesAt_pruned (hc : c ∈ d'.checkpoints) :
    writesAt d' c.threadId c.checkpointNs c.checkpointId =
      writesAt d c.threadId c.checkpointNs c.checkpointId := by
  refine writesAt_congr fun x => exists_congr fun w => ?_
  constructor
  · rintro ⟨hw, hon, hx⟩
    exact ⟨(mem_checkpointWrites_pruned h hc hon).mp hw, hon, hx⟩
  · rintro ⟨hw, hon, hx⟩
    exact ⟨(mem_checkpointWrites_pruned h hc hon).mpr hw, hon, hx⟩

/-- A checkpoint that is kept is the only one of its namespace. -/
theorem namespaceRows_pruned (hc : c ∈ d'.checkpoints) (hmem : c.threadId ∈ threadIds) :
    namespaceRows d' c.threadId c.checkpointNs = [c] := by
  refine List.perm_singleton.mp ((List.perm_ext_iff_of_nodup (d'.checkpoints.nodup_select _)
    (List.nodup_singleton c)).mpr fun c' => ?_)
  rw [List.mem_singleton]
  constructor
  · intro hc'
    obtain ⟨hc', ht, hns⟩ := mem_namespaceRows.mp hc'
    have hold := (h.checkpoints c).mp hc
    have hold' := (h.checkpoints c').mp hc'
    have hle := (outdated_eq_false hold.1 hmem).mp hold.2 c' hold'.1 ht
    have hge := (outdated_eq_false hold'.1 (ht ▸ hmem)).mp hold'.2 c hold.1 ht.symm
    refine Table.eq_of_key hc' hc ?_
    simp only [Keyed.key, ht, hns, le_antisymm hle hge]
  · rintro rfl
    exact mem_namespaceRows.mpr ⟨hc, rfl, rfl⟩

theorem sameBlobs_pruned (threadId : Uuid) : SameBlobs d threadId d' threadId := by
  intro ns channel version
  rw [h.checkpointBlobs]
  cases hget : d.checkpointBlobs.get? (threadId, ns, channel, version) with
  | none => rfl
  | some b =>
    have hkey := (Table.get?_eq_some.mp hget).2
    simp only [Keyed.key, Prod.mk.injEq] at hkey
    rw [Option.map_some, CheckpointBlob.moved, ← hkey.1]

end

/-! ### Reads after a prune -/

section

variable {Value : Type} {walk : List WalkRow → Uuid → Walked} {loads : String → Option String → Value}
  {delta : String → List String} {threadIds : List Uuid} {d d' : Database} {c : Checkpoint}

theorem latestId_pruned (h : WithoutCheckpoints (outdated threadIds d.checkpoints) d d')
    (hc : c ∈ d'.checkpoints) (hmem : c.threadId ∈ threadIds) :
    latestId d' c.threadId c.checkpointNs = some c.checkpointId := by
  rw [latestId, namespaceRows_pruned h hc hmem]
  rfl

theorem checkpointTuple_pruned (h : WithoutCheckpoints (outdated threadIds d.checkpoints) d d')
    (hc : c ∈ d'.checkpoints) : checkpointTuple loads d' c = checkpointTuple loads d c :=
  checkpointTuple_congr (f := id) loads (sameBlobs_pruned h c.threadId) rfl (writesAt_pruned h hc)

theorem walkRows_pruned (h : WithoutCheckpoints (outdated threadIds d.checkpoints) d d')
    (hc : c ∈ d'.checkpoints) (hmem : c.threadId ∈ threadIds) (channel : String) :
    walkRows d' c.threadId c.checkpointNs channel = [walkRow d channel c] := by
  rw [walkRows, namespaceRows_pruned h hc hmem]
  exact congrArg (fun row => [row]) ((sameBlobs_pruned h c.threadId).walkRow (f := id) channel rfl)

theorem channelWritesAt_pruned (h : WithoutCheckpoints (outdated threadIds d.checkpoints) d d')
    (hc : c ∈ d'.checkpoints) (channel : String) :
    channelWritesAt loads d' c.threadId c.checkpointNs channel c.checkpointId =
      channelWritesAt loads d c.threadId c.checkpointNs channel c.checkpointId := by
  rw [channelWritesAt, channelWritesAt, writesAt_pruned h hc]

theorem channelWritesAt_eq_nil {threadId id : Uuid} {ns channel : String} :
    channelWritesAt loads d threadId ns channel id = [] ↔
      ∀ w ∈ d.checkpointWrites, w.isOn threadId ns id = true → w.channel ≠ channel := by
  rw [channelWritesAt, List.reverse_eq_nil_iff, loadWrites, List.map_eq_nil_iff,
    List.filter_eq_nil_iff]
  simp only [writesAt, (List.perm_insertionSort _ _).mem_iff, List.mem_map, Table.mem_select,
    decide_eq_true_eq]
  constructor
  · intro hall w hw hon
    exact hall w.stored ⟨w, ⟨hw, hon⟩, rfl⟩
  · rintro hall _ ⟨w, ⟨hw, hon⟩, rfl⟩
    exact hall w hw hon

/-- **The history of a delta channel survives a prune** iff the ancestors of the checkpoint
have neither its seed nor writes of it. -/
theorem assembleDeltaHistory_pruned (hwalk : FollowsChain walk)
    (h : WithoutCheckpoints (outdated threadIds d.checkpoints) d d')
    (hc : c ∈ d'.checkpoints) (hmem : c.threadId ∈ threadIds) {channel : String} {walked : Walked}
    (hwalked : ancestry (walkRows d c.threadId c.checkpointNs channel) c.checkpointId = some walked) :
    assembleDeltaHistory loads d' c.threadId c.checkpointNs channel
          (walk (walkRows d' c.threadId c.checkpointNs channel) c.checkpointId) =
        assembleDeltaHistory loads d c.threadId c.checkpointNs channel
          (walk (walkRows d c.threadId c.checkpointNs channel) c.checkpointId) ↔
      (walked.chain.tail = [] ∨ walked.seedVer = none) ∧
        ∀ id ∈ walked.chain.tail, ∀ w ∈ d.checkpointWrites,
          w.isOn c.threadId c.checkpointNs id = true → w.channel ≠ channel := by
  have hrow : c ∈ namespaceRows d c.threadId c.checkpointNs :=
    mem_namespaceRows.mpr ⟨((h.checkpoints c).mp hc).1, rfl, rfl⟩
  have hseedAt : ∀ walked, deltaSeed loads d' c.threadId c.checkpointNs channel walked =
      deltaSeed loads d c.threadId c.checkpointNs channel walked :=
    (sameBlobs_pruned h c.threadId).deltaSeed loads c.checkpointNs channel
  have hat : channelWritesAt loads d' c.threadId c.checkpointNs channel c.checkpointId =
      channelWritesAt loads d c.threadId c.checkpointNs channel c.checkpointId :=
    channelWritesAt_pruned h hc channel
  rw [walkRows_pruned h hc hmem, hwalk _ _ _ hwalked]
  rcases ancestry_pruned (find?_walkRows hrow) hwalked with
    ⟨hchain, honly⟩ | ⟨rest, fuel, start, hrest, rfl, honly⟩
  · -- the checkpoint carries the value itself
    rw [hwalk _ _ _ honly]
    simp [assembleDeltaHistory, hchain, hat, hseedAt]
  · rw [hwalk _ _ _ honly]
    have hrestSeed := isSome_deltaSeed loads hrest
    have hseed : deltaSeed loads d c.threadId c.checkpointNs channel
        { rest with chain := c.checkpointId :: rest.chain } = none ↔ rest.seedVer = none := by
      rw [← Option.not_isSome_iff_eq_none, ← Option.not_isSome_iff_eq_none]
      exact not_congr (hrestSeed ▸ Iff.rfl)
    have hnoSeed : deltaSeed loads d c.threadId c.checkpointNs channel ⟨[c.checkpointId], none, none⟩ =
        none := rfl
    simp only [assembleDeltaHistory, hseedAt, DeltaChannelHistory.mk.injEq, List.flatMap_cons,
      List.flatMap_nil, List.append_nil, List.tail_cons, hat, hnoSeed]
    rw [List.reverse_inj, List.self_eq_append_right, @eq_comm _ none, hseed, List.flatMap_eq_nil_iff]
    simp only [channelWritesAt_eq_nil]
    constructor
    · rintro ⟨hwrites, hver⟩
      exact ⟨Or.inr hver, hwrites⟩
    · rintro ⟨hnil | hver, hwrites⟩
      · exact ⟨hwrites, seedVer_of_chain_eq_nil hrest hnil⟩
      · exact ⟨hwrites, hver⟩

/-- Each namespace by itself: what its latest checkpoint needs. -/
theorem readsAlike_pruned_iff (hwalk : FollowsChain walk)
    (h : WithoutCheckpoints (outdated threadIds d.checkpoints) d d')
    (hc : c ∈ d'.checkpoints) (hmem : c.threadId ∈ threadIds)
    (hlatest : IsLatest d c.threadId c.checkpointNs c) :
    (∀ channels ⊆ delta c.checkpointNs, (∀ channel ∈ channels,
      (ancestry (walkRows d c.threadId c.checkpointNs channel) c.checkpointId).isSome = true) →
        agetDeltaChannelHistory walk loads d' c.threadId c.checkpointNs none channels =
          agetDeltaChannelHistory walk loads d c.threadId c.checkpointNs none channels) ↔
      ∀ channel ∈ delta c.checkpointNs, ∀ walked,
        ancestry (walkRows d c.threadId c.checkpointNs channel) c.checkpointId = some walked →
          (walked.chain.tail = [] ∨ walked.seedVer = none) ∧
            ∀ id ∈ walked.chain.tail, ∀ w ∈ d.checkpointWrites,
              w.isOn c.threadId c.checkpointNs id = true → w.channel ≠ channel := by
  simp only [agetDeltaChannelHistory, latestId_pruned h hc hmem, latestId_of_isLatest hlatest,
    Option.none_or]
  constructor
  · intro hreads channel hchannel walked hwalked
    have hread := hreads [channel] (by simpa using hchannel) (by simp [hwalked])
    simp only [List.map_cons, List.map_nil, List.cons.injEq, Prod.mk.injEq, true_and, and_true] at hread
    exact (assembleDeltaHistory_pruned hwalk h hc hmem hwalked).mp hread
  · intro hneeds channels hsub hends
    refine List.map_congr_left fun channel hchannel => ?_
    obtain ⟨walked, hwalked⟩ := Option.isSome_iff_exists.mp (hends channel hchannel)
    exact congrArg (Prod.mk channel) ((assembleDeltaHistory_pruned hwalk h hc hmem hwalked).mpr
      (hneeds channel (hsub hchannel) walked hwalked))

/-- **`Prune` with `KEEP_LATEST` keeps every namespace readable** exactly when the latest
checkpoint of each namespace is the newest of its thread and needs no ancestor. -/
theorem keepsLatest_iff (hwalk : FollowsChain walk) (threadIds : List Uuid) (d : Database) :
    KeepsLatest walk loads delta threadIds d (executeCheckpointer (.prune threadIds .keepLatest) d) ↔
      ∀ threadId ∈ threadIds, ∀ ns c, IsLatest d threadId ns c → StandsAlone delta d c := by
  have h := withoutCheckpoints_prune (show PruneStrategy.keepLatest ≠ .deleteAll by decide) threadIds d
  generalize executeCheckpointer (.prune threadIds .keepLatest) d = d' at h ⊢
  constructor
  · intro hkeeps threadId hmem ns c hlatest
    have hkept := hkeeps.kept threadId hmem ns c hlatest
    obtain ⟨⟨hc, rfl, rfl⟩, -⟩ := id hlatest
    have hneeds := (readsAlike_pruned_iff hwalk h hkept hmem hlatest).mp
      (hkeeps.history c.threadId hmem c.checkpointNs c hlatest)
    exact ⟨(mem_checkpoints_pruned h hc hmem).mp hkept,
      fun channel hchannel walked hwalked => (hneeds channel hchannel walked hwalked).1,
      fun channel hchannel walked hwalked => (hneeds channel hchannel walked hwalked).2⟩
  · intro halone
    have hkept : ∀ threadId ∈ threadIds, ∀ ns c, IsLatest d threadId ns c → c ∈ d'.checkpoints := by
      intro threadId hmem ns c hlatest
      have hstands := halone threadId hmem ns c hlatest
      obtain ⟨⟨hc, rfl, rfl⟩, -⟩ := hlatest
      exact (mem_checkpoints_pruned h hc hmem).mpr hstands.newest
    constructor
    case kept => exact hkept
    case writes =>
      intro threadId hmem ns c hlatest w hw hon
      exact (mem_checkpointWrites_pruned h (hkept threadId hmem ns c hlatest) hon).mpr hw
    case tuple =>
      intro threadId hmem ns c hlatest
      have hc := hkept threadId hmem ns c hlatest
      obtain ⟨⟨hold, rfl, rfl⟩, -⟩ := id hlatest
      have hget := Table.mem_iff_get?.mp hc
      have hget' := Table.mem_iff_get?.mp hold
      simp only [Keyed.key] at hget hget'
      simp only [agetTuple, latestId_pruned h hc hmem, latestId_of_isLatest hlatest, Option.none_or,
        Option.bind_some, hget, hget', Option.map_some, checkpointTuple_pruned h hc]
    case history =>
      intro threadId hmem ns c hlatest
      have hc := hkept threadId hmem ns c hlatest
      have hstands := halone threadId hmem ns c hlatest
      obtain ⟨⟨-, rfl, rfl⟩, -⟩ := id hlatest
      exact (readsAlike_pruned_iff hwalk h hc hmem hlatest).mpr fun channel hchannel walked hwalked =>
        ⟨hstands.noSeed channel hchannel walked hwalked, hstands.noWrites channel hchannel walked hwalked⟩
    case otherCheckpoints =>
      intro c hmem
      rw [h.checkpoints]
      exact and_iff_left (outdated_of_not_mem hmem _)
    case otherBlobs => exact fun b _ => h.checkpointBlobs ▸ Iff.rfl
    case otherWrites =>
      intro w hmem
      rw [h.checkpointWrites]
      refine and_iff_left fun c hc hon => outdated_of_not_mem ?_ _
      simp only [CheckpointWrite.belongsTo, Bool.and_eq_true, decide_eq_true_eq] at hon
      exact hon.1.1 ▸ hmem

end

/-- A serializer that leaves the values as they are stored. -/
def loadsRaw (type : String) (blob : Option String) : String × Option String := (type, blob)

def olderCheckpoint : Checkpoint :=
  { threadId := 10, checkpointId := 3, checkpoint := .obj [("channel_versions", .obj [])] }

/-- A checkpoint that carries the messages. -/
def newerCheckpoint : Checkpoint :=
  { threadId := 10, checkpointId := 5, parentCheckpointId := some 3,
    checkpoint := .obj [("channel_versions", .obj [("messages", .str "2")])] }

def twoCheckpoints : Database := { Database.fresh Table.empty with
  checkpoints := (Table.empty.put olderCheckpoint).put newerCheckpoint
  checkpointBlobs := Table.empty.put
    { threadId := 10, channel := "messages", version := "2", type := "msgpack", blob := some "hi" }
  checkpointWrites := Table.empty.put
    { threadId := 10, checkpointId := 3, taskId := 1, idx := 0, channel := "messages",
      type := "msgpack", blob := "hi" } }

theorem keepsLatest_iff_witness :
    KeepsLatest walkAncestry loadsRaw (fun _ => ["messages"]) [10] twoCheckpoints
      (executeCheckpointer (.prune [10] .keepLatest) twoCheckpoints) ∧
    (executeCheckpointer (.prune [10] .keepLatest) twoCheckpoints).checkpoints.rows.length = 1 := by
  refine ⟨(keepsLatest_iff followsChain_walkAncestry [10] twoCheckpoints).mpr ?_, by decide +kernel⟩
  intro threadId hmem ns c hlatest
  have hwalked : ∀ channel ∈ ["messages"], ancestry (walkRows twoCheckpoints 10 "" channel) 5 =
      some ⟨[5], some "2", none⟩ := by decide +kernel
  have hc : c ∈ [olderCheckpoint, newerCheckpoint] := hlatest.1.1
  rw [List.mem_cons, List.mem_singleton] at hc
  rcases hc with rfl | rfl
  · -- the older one is not the latest
    obtain ⟨⟨-, ht, hns⟩, hmax⟩ := hlatest
    exact absurd (hmax newerCheckpoint (by decide) ht hns) (by decide)
  · refine ⟨by decide, fun channel hchannel walked h => Or.inl ?_, fun channel hchannel walked h => ?_⟩
    all_goals
      obtain rfl := Option.some.inj ((hwalked channel hchannel).symm.trans h)
      simp

/-- The latest checkpoint of a subgraph. -/
def subgraphCheckpoint : Checkpoint :=
  { threadId := 10, checkpointNs := "tools", checkpointId := 3, checkpoint := .obj [] }

/-- The graph of a thread has gone on after its subgraph. -/
def withSubgraph : Database := { Database.fresh Table.empty with
  checkpoints := (Table.empty.put subgraphCheckpoint).put
    { threadId := 10, checkpointId := 5, checkpoint := .obj [] } }

/-- The prune deletes the only checkpoint of the subgraph. -/
theorem not_keepsLatest :
    ¬ KeepsLatest walkAncestry loadsRaw (fun _ => []) [10] withSubgraph
      (executeCheckpointer (.prune [10] .keepLatest) withSubgraph) := by
  intro h
  have hlatest : IsLatest withSubgraph 10 "tools" subgraphCheckpoint := by decide
  have hkept := h.kept 10 (List.mem_singleton.mpr rfl) "tools" subgraphCheckpoint hlatest
  exact absurd hkept (by decide +kernel)

end NextRole
