import NextRole.WarehouseMirror

/-!
# The messages of a thread in the warehouse

The messages of a thread are merged by their positions.  A load that reads a thread writes a row
for each position of the current list and deletes none, so the rows of an earlier, longer list
stay.  What the warehouse has of a thread is the current list exactly if no earlier load has read
a list of it with a message at another position.

## Main definitions

* `messageIndices` — the positions of the messages of a thread.
* `messageReads` — the versions of threads that the loads of a run have read.
* `MirrorsMessages` — the warehouse has the messages of a thread and no others.

## Main results

* `isSome_message_iff` — the positions in the warehouse are those that loads have read.
* `mirrorsMessages_iff` — when a load leaves the messages of a thread and no others.
* `not_mirrorsMessages` — a list that shrinks.
-/

namespace NextRole

/-! ### What loads have read -/

/-- The positions of the messages of a thread; an element that is no dictionary is left out. -/
def messageIndices (row : Thread) : List ℕ :=
  ((messageResource.shape row).getD []).map fun e => e.1.2

theorem mem_messageIndices {row : Thread} {index : ℕ} :
    index ∈ messageIndices row ↔
      (row.threadId, index) ∈ ((messageResource.shape row).getD []).map Prod.fst := by
  rw [messageIndices, List.mem_map, List.mem_map]
  constructor
  · rintro ⟨e, he, rfl⟩
    refine ⟨e, he, Prod.ext ?_ rfl⟩
    exact messageResource_owned.owner_of_mem he
  · rintro ⟨e, he, heq⟩
    exact ⟨e, he, by rw [heq]⟩

/-- The load of the messages reads a version of a thread. -/
def Extraction.ReadsMessages (s : Extraction) (row : Thread) : Prop :=
  messageResource.Loadable s.source.thread.rows s.message.seen ∧
    row ∈ s.source.thread ∧ messageResource.Reads s.message.seen row

instance (s : Extraction) (row : Thread) : Decidable (s.ReadsMessages row) :=
  inferInstanceAs (Decidable (_ ∧ _ ∧ _))

/-- The versions of threads that an action reads. -/
def Extraction.messageReads (s : Extraction) : ExtractionAction → List Thread
  | .load .message => s.source.thread.rows.filter fun row => s.ReadsMessages row
  | _ => []

/-- The versions of threads that the loads of a run have read. -/
def messageReads (s : Extraction) : List ExtractionAction → List Thread
  | [] => []
  | a :: as => s.messageReads a ++ ((extraction.step s a).map fun s' => messageReads s' as).getD []

/-! ### What the warehouse has -/

/-- The rows that the warehouse has of a thread are those of its current messages. -/
def MirrorsMessages (s : Extraction) (row : Thread) : Prop :=
  ∃ rows, explodeMessages row.threadId (row.values.bind fun values => values.get? "messages") =
      some rows ∧
    ∀ index, (s.message.warehouse.get? (row.threadId, index)).map Prod.fst =
      rows.find? fun w => w.messageIndex = index

/-- The positions of a thread in the warehouse are those of some versions. -/
def HasRead (versions : List Thread) (s : Extraction) : Prop :=
  ∀ threadId index, (s.message.warehouse.get? (threadId, index)).isSome = true ↔
    ∃ old ∈ versions, old.threadId = threadId ∧ index ∈ messageIndices old

section Steps

variable {s s' : Extraction} {versions : List Thread}

theorem HasRead.load (h : HasRead versions s) :
    HasRead (versions ++ s.messageReads (.load .message)) (s.load .message) := by
  intro threadId index
  by_cases hload : messageResource.Loadable s.source.thread.rows s.message.seen
  · have hreads : ∀ old, old ∈ s.messageReads (.load .message) ↔
        old ∈ s.source.thread.rows ∧ messageResource.Reads s.message.seen old := by
      intro old
      simp only [Extraction.messageReads, List.mem_filter, Extraction.ReadsMessages,
        decide_eq_true_eq, Table.mem_def]
      exact ⟨fun hold => ⟨hold.1, hold.2.2.2⟩, fun hold => ⟨hold.1, hload, hold.1, hold.2⟩⟩
    refine (Extractor.isSome_get?_load hload _).trans ?_
    rw [h threadId index, or_comm]
    simp only [List.mem_append, or_and_right, exists_or]
    refine or_congr Iff.rfl ?_
    constructor
    · rintro ⟨old, hold, hread, hmem⟩
      have hid : old.threadId = threadId := by
        obtain ⟨e, he, heq⟩ := List.mem_map.mp hmem
        have howner := messageResource_owned.owner_of_mem he
        rw [heq] at howner
        exact howner.symm
      subst hid
      exact ⟨old, (hreads old).mpr ⟨hold, hread⟩, rfl, mem_messageIndices.mpr hmem⟩
    · rintro ⟨old, hold, rfl, hmem⟩
      obtain ⟨hold, hread⟩ := (hreads old).mp hold
      exact ⟨old, hold, hread, mem_messageIndices.mp hmem⟩
  · -- the load fails
    have hsame : (s.load .message).message = s.message := Extractor.load_of_not_loadable hload
    have hnone : s.messageReads (.load .message) = [] :=
      List.filter_eq_nil_iff.mpr fun old _ hold => hload (of_decide_eq_true hold).1
    rw [hsame, hnone, List.append_nil]
    exact h threadId index

/-- Only a load of the messages changes their table. -/
theorem message_of_step {a : ExtractionAction} (hs : extraction.step s a = some s')
    (ha : a ≠ .load .message) : s'.message = s.message ∧ s.messageReads a = [] := by
  cases a with
  | start txn now =>
    simp only [extraction] at hs
    split at hs
    · cases hs
    · cases hs
      exact ⟨rfl, rfl⟩
  | write txn w touches =>
    obtain ⟨t, -, rfl⟩ := Option.map_eq_some_iff.mp hs
    exact ⟨rfl, rfl⟩
  | commit txn =>
    obtain ⟨t, -, rfl⟩ := Option.map_eq_some_iff.mp hs
    exact ⟨rfl, rfl⟩
  | rollback txn =>
    cases hs
    exact ⟨rfl, rfl⟩
  | load resource =>
    cases hs
    cases resource with
    | message => exact absurd rfl ha
    | _ => exact ⟨rfl, rfl⟩

theorem HasRead.step (h : HasRead versions s) {a : ExtractionAction}
    (hs : extraction.step s a = some s') : HasRead (versions ++ s.messageReads a) s' := by
  by_cases ha : a = .load .message
  · subst ha
    cases hs
    exact h.load
  · obtain ⟨hmessage, hreads⟩ := message_of_step hs ha
    rw [hreads, List.append_nil]
    intro threadId index
    rw [hmessage]
    exact h threadId index

theorem HasRead.run {as : List ExtractionAction} (h : HasRead versions s)
    (hrun : extraction.run s as = some s') : HasRead (versions ++ messageReads s as) s' := by
  induction as generalizing s versions with
  | nil =>
    cases hrun
    rwa [messageReads, List.append_nil]
  | cons a as ih =>
    obtain ⟨t, ht, hrun⟩ := Option.bind_eq_some_iff.mp hrun
    rw [messageReads, ht, ← List.append_assoc]
    exact ih (h.step ht) hrun

/-- **The positions of a thread in the warehouse are those that loads have read.** -/
theorem isSome_message_iff {as : List ExtractionAction} (hrun : extraction.run {} as = some s) :
    HasRead (messageReads {} as) s := by
  have hinit : HasRead [] {} := fun threadId index => ⟨nofun, by rintro ⟨old, hold, -⟩; cases hold⟩
  exact hinit.run hrun

end Steps

/-! ### Mirroring -/

/-- The rows of the current messages, by their positions. -/
theorem mem_shape_iff {row : Thread} {rows : List WarehouseMessage}
    (h : explodeMessages row.threadId (row.values.bind fun values => values.get? "messages") =
      some rows) {e : (Uuid × ℕ) × (WarehouseMessage × Timestamp)} :
    e ∈ (messageResource.shape row).getD [] ↔
      ∃ w ∈ rows, e = ((row.threadId, w.messageIndex), (w, row.updatedAt)) := by
  have hshape : messageResource.shape row =
      some (rows.map fun m => ((m.threadId, m.messageIndex), (m, row.updatedAt))) := by
    simp only [messageResource, h, Option.map_some]
  have hthread := (explodeMessages_key h).1
  rw [hshape, Option.getD_some, List.mem_map]
  constructor
  · rintro ⟨w, hw, rfl⟩
    exact ⟨w, hw, by rw [hthread w hw]⟩
  · rintro ⟨w, hw, rfl⟩
    exact ⟨w, hw, by rw [hthread w hw]⟩

/-- What a load that reads a thread leaves of it: the current messages, and what was there at
other positions. -/
theorem mirrorsMessages_load_iff {s : Extraction} {row : Thread} (hreads : s.ReadsMessages row) :
    MirrorsMessages (s.load .message) row ↔
      ∀ index, (s.message.warehouse.get? (row.threadId, index)).isSome = true →
        index ∈ messageIndices row := by
  obtain ⟨hload, hrow, hread⟩ := hreads
  obtain ⟨y, hy⟩ := Option.isSome_iff_exists.mp (hload row hrow hread)
  obtain ⟨c, -, hy⟩ := Option.bind_eq_some_iff.mp hy
  obtain ⟨l, hl, -⟩ := Option.map_eq_some_iff.mp hy
  obtain ⟨rows, hrows, -⟩ := Option.map_eq_some_iff.mp hl
  have hindex : ∀ index, index ∈ messageIndices row ↔ ∃ w ∈ rows, w.messageIndex = index := by
    intro index
    rw [messageIndices, List.mem_map]
    constructor
    · rintro ⟨e, he, rfl⟩
      obtain ⟨w, hw, rfl⟩ := (mem_shape_iff hrows).mp he
      exact ⟨w, hw, rfl⟩
    · rintro ⟨w, hw, rfl⟩
      exact ⟨_, (mem_shape_iff hrows).mpr ⟨w, hw, rfl⟩, rfl⟩
  -- what the load leaves at a position, with and without a current message there
  have hmem : ∀ w ∈ rows, (s.load .message).message.warehouse.get? (row.threadId, w.messageIndex) =
      some (w, row.updatedAt) := fun w hw =>
    Extractor.get?_load_of_mem messageResource_owned hload hrow hread
      ((mem_shape_iff hrows).mpr ⟨w, hw, rfl⟩)
  have hother : ∀ index, index ∉ messageIndices row →
      (s.load .message).message.warehouse.get? (row.threadId, index) =
        s.message.warehouse.get? (row.threadId, index) := by
    intro index hnot
    have hkey : (Prod.fst : Uuid × ℕ → Uuid) (row.threadId, index) = Keyed.key row := rfl
    refine Extractor.get?_load_of_notMem messageResource_owned hload hrow hkey fun _ hmem => ?_
    exact hnot (mem_messageIndices.mpr hmem)
  constructor
  · rintro ⟨rows', hrows', hmirror⟩ index hsome
    obtain rfl := Option.some.inj (hrows.symm.trans hrows')
    by_contra hnot
    have hnone : rows.find? (fun w => w.messageIndex = index) = none := by
      rw [List.find?_eq_none]
      exact fun w hw heq => hnot ((hindex index).mpr ⟨w, hw, of_decide_eq_true heq⟩)
    have hat := hmirror index
    rw [hother index hnot, hnone] at hat
    rw [Option.map_eq_none_iff.mp hat] at hsome
    cases hsome
  · intro hold
    refine ⟨rows, hrows, fun index => ?_⟩
    cases hfind : rows.find? fun w => w.messageIndex = index with
    | some w =>
      have heq : w.messageIndex = index := by simpa using List.find?_some hfind
      rw [← heq, hmem w (List.mem_of_find?_eq_some hfind)]
      rfl
    | none =>
      have hnot : index ∉ messageIndices row := by
        rw [hindex]
        rintro ⟨w, hw, heq⟩
        exact absurd (decide_eq_true heq) (List.find?_eq_none.mp hfind w hw)
      -- nothing was there either
      rw [hother index hnot, Option.map_eq_none_iff]
      exact Option.not_isSome_iff_eq_none.mp fun hsome => hnot (hold index hsome)

/-- **A load leaves the messages of a thread and no others** exactly if no list of the thread
that an earlier load has read has a message at a position where the current one has none. -/
theorem mirrorsMessages_iff {as : List ExtractionAction} {s : Extraction}
    (hrun : extraction.run {} as = some s) {row : Thread} (hreads : s.ReadsMessages row) :
    MirrorsMessages (s.load .message) row ↔
      ∀ old ∈ messageReads {} as, old.threadId = row.threadId →
        ∀ index ∈ messageIndices old, index ∈ messageIndices row := by
  rw [mirrorsMessages_load_iff hreads]
  have hread := isSome_message_iff hrun
  constructor
  · intro h old hold hid index hindex
    exact h index ((hread _ _).mpr ⟨old, hold, hid, hindex⟩)
  · intro h index hsome
    obtain ⟨old, hold, hid, hindex⟩ := (hread _ _).mp hsome
    exact h old hold hid index hindex

/-! ### A list that grows and a list that shrinks -/

/-- A thread with some messages of the user. -/
def threadWithMessages (count : ℕ) (updatedAt : Timestamp) : Thread where
  threadId := 1
  updatedAt := updatedAt
  values := some (.obj [("messages",
    .arr (List.replicate count (.obj [("type", .str "human"), ("content", .str "hi")])))])

/-- A thread is written and loaded, and written once more. -/
def writtenTwice (before after : ℕ) : List ExtractionAction :=
  [.start 0 1, .write 0 (.putThread (threadWithMessages before 1)) true, .commit 0,
    .load .message, .start 1 2, .write 1 (.putThread (threadWithMessages after 2)) true, .commit 1]

/-- A list that grows is mirrored. -/
theorem mirrorsMessages_grown : ∃ s, extraction.run {} (writtenTwice 1 2) = some s ∧
    s.ReadsMessages (threadWithMessages 2 2) ∧
      MirrorsMessages (s.load .message) (threadWithMessages 2 2) := by
  have hrun := (Option.some_get (x := extraction.run {} (writtenTwice 1 2))
    (by decide +kernel)).symm
  have hreads : ((extraction.run {} (writtenTwice 1 2)).get (by decide +kernel)).ReadsMessages
      (threadWithMessages 2 2) := by decide +kernel
  exact ⟨_, hrun, hreads, (mirrorsMessages_iff hrun hreads).mpr (by decide +kernel)⟩

/-- The second message of a list that shrinks to one stays in the warehouse. -/
theorem not_mirrorsMessages : ¬ ∀ as s, extraction.run {} as = some s → ∀ row,
    s.ReadsMessages row → MirrorsMessages (s.load .message) row := by
  intro hall
  have hrun := (Option.some_get (x := extraction.run {} (writtenTwice 2 1))
    (by decide +kernel)).symm
  obtain ⟨rows, hrows, hmirror⟩ := hall _ _ hrun (threadWithMessages 1 2) (by decide +kernel)
  have hone : (explodeMessages (threadWithMessages 1 2).threadId
      ((threadWithMessages 1 2).values.bind fun values => values.get? "messages")).map
        (fun rows => (rows.find? fun w => w.messageIndex = 1).isSome) = some false := by
    decide +kernel
  have htwo : ((((extraction.run {} (writtenTwice 2 1)).get (by decide +kernel)).load
      .message).message.warehouse.get? (1, 1)).isSome = true := by decide +kernel
  have hrow := congrArg Option.isSome (hmirror 1)
  rw [hrows, Option.map_some] at hone
  rw [Option.isSome_map] at hrow
  exact absurd (htwo.symm.trans (hrow.trans (Option.some.inj hone))) (by decide)

end NextRole
