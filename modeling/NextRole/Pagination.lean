import Mathlib.Data.String.Basic
import NextRole.Servicers.Search

/-!
# Reading a search page by page

The searches order by one column, which need not tell the rows apart, and nothing else.
Rows that tie may come in another order with each query.  So the pages of a search hold
every matching row once exactly if the end of no page cuts a group of rows that tie; by
the primary key they always do.

## Main definitions

* `PagesComplete` — whatever the queries return, the pages hold every row once.
* `byteCollation` — text in the order of its characters.

## Main results

* `pagesComplete_iff` — for the four services.
* `pagesComplete_threadId`, `pagesComplete_cronId`, `pagesComplete_assistantId` — sorted
  by the primary key.
-/

namespace NextRole

open Pages

/-- A client that collects the pages of a search, until one is short, has every matching
row once, whatever order of ties each query returns. -/
def PagesComplete {α : Type*} (search : ℕ → ℕ → List α → Prop) (matching : List α) (p : ℕ) : Prop :=
  ∀ fetch : ℕ → List α, (∀ offset, search p offset (fetch offset)) →
    ∃ result, Collects fetch p 0 result ∧ result.Perm matching

section

variable {κ : Type*} [LinearOrder κ]

/-- The pages of the four searches. -/
def ThreadPages (c : Collation κ) (request : SearchThreadsRequest) (d : Database) (p : ℕ) : Prop :=
  PagesComplete (fun limit offset =>
    searchThreads c { request with limit := some limit, offset := some offset } d)
      (request.matching d) p

@[inherit_doc ThreadPages]
def RunPages (c : Collation κ) (request : SearchRunsRequest) (d : Database) (p : ℕ) : Prop :=
  PagesComplete (fun limit offset =>
    searchRuns c { request with limit := some limit, offset := some offset } d)
      (request.matching d) p

@[inherit_doc ThreadPages]
def CronPages (c : Collation κ) (request : SearchCronsRequest) (crons : Table CronRow) (p : ℕ) :
    Prop :=
  PagesComplete (fun limit offset =>
    searchCrons c { request with limit := some limit, offset := some offset } crons)
      (request.matching crons) p

@[inherit_doc ThreadPages]
def AssistantPages (c : Collation κ) (graphs : Option (List String))
    (request : SearchAssistantsRequest) (s : AssistantTables) (p : ℕ) : Prop :=
  PagesComplete (fun limit offset =>
    searchAssistants c graphs { request with limit := some limit, offset := some offset } s)
      (request.matching c graphs s) p

variable {c : Collation κ} {p : ℕ}

theorem threadPages_iff (hp : 0 < p) (request : SearchThreadsRequest) (d : Database) :
    ThreadPages c request d p ↔ Uncut (request.le c) (request.matching d) p := by
  have hn : (request.matching d).Nodup := d.thread.nodup_select _
  exact collects_iff (r := request.le c) hn hp

theorem runPages_iff (hp : 0 < p) (request : SearchRunsRequest) (d : Database) :
    RunPages c request d p ↔ Uncut (runsLe c) (request.matching d) p := by
  have hn : (request.matching d).Nodup := d.run.nodup_select _
  exact collects_iff (r := runsLe c) hn hp

theorem cronPages_iff (hp : 0 < p) (request : SearchCronsRequest) (crons : Table CronRow) :
    CronPages c request crons p ↔ Uncut (request.le c) (request.matching crons) p := by
  have hn : (request.matching crons).Nodup := crons.nodup_select _
  exact collects_iff (r := request.le c) hn hp

theorem assistantPages_iff (hp : 0 < p) (graphs : Option (List String))
    (request : SearchAssistantsRequest) (s : AssistantTables) :
    AssistantPages c graphs request s p ↔ Uncut (request.le c) (request.matching c graphs s) p := by
  have hn : (request.matching c graphs s).Nodup := s.assistant.nodup_select _
  exact collects_iff (r := request.le c) hn hp

/-- The pages of a search hold every matching row once, whatever order of ties each query
returns, exactly if no group of matching rows that tie on the sort column reaches over
the end of a page. -/
theorem pagesComplete_iff (c : Collation κ) (p : ℕ) (hp : 0 < p) :
    (∀ (request : SearchThreadsRequest) (d : Database),
      ThreadPages c request d p ↔ Uncut (request.le c) (request.matching d) p) ∧
    (∀ (request : SearchRunsRequest) (d : Database),
      RunPages c request d p ↔ Uncut (runsLe c) (request.matching d) p) ∧
    (∀ (request : SearchCronsRequest) (crons : Table CronRow),
      CronPages c request crons p ↔ Uncut (request.le c) (request.matching crons) p) ∧
    (∀ (graphs : Option (List String)) (request : SearchAssistantsRequest) (s : AssistantTables),
      AssistantPages c graphs request s p ↔
        Uncut (request.le c) (request.matching c graphs s) p) :=
  ⟨threadPages_iff hp, runPages_iff hp, cronPages_iff hp, assistantPages_iff hp⟩

/-- Text in the order of its characters, and `ILIKE` for a pattern between two `%`. -/
def byteCollation : Collation String where
  rank s := s
  ilike s pattern :=
    let wanted := (pattern.toList.filter (· ≠ '%')).map Char.toLower
    decide (wanted <:+: s.toList.map Char.toLower)

/-- A thread that was created at a time. -/
def threadCreated (threadId : Uuid) (createdAt : Timestamp) : Thread :=
  { threadId := threadId, createdAt := createdAt }

/-- Two threads, created at some times. -/
def twoThreads (first second : Timestamp) : Database :=
  { Database.fresh .empty with
    thread := ⟨[threadCreated 1 first, threadCreated 2 second], by
      simp [threadCreated]⟩ }

theorem matching_twoThreads (first second : Timestamp) :
    SearchThreadsRequest.matching {} (twoThreads first second) =
      [threadCreated 1 first, threadCreated 2 second] := by
  rfl

/-- Two threads of different times are read one by one. -/
theorem threadPages_twoThreads :
    ThreadPages byteCollation {} (twoThreads 1 2) 1 := by
  refine ((pagesComplete_iff byteCollation 1 Nat.one_pos).1 {} (twoThreads 1 2)).mpr ?_
  rw [matching_twoThreads]
  decide +kernel

/-- Of two threads that were created in one transaction, a client that reads one by one
can get the first twice and the second never. -/
theorem not_threadPages : ¬ ThreadPages byteCollation {} (twoThreads 1 1) 1 := by
  rw [threadPages_iff Nat.one_pos, matching_twoThreads]
  decide +kernel

/-! ### Sorted by the primary key -/

theorem uncut_of_uuid {α : Type*} [Keyed α Uuid] {t : Table α} {q : α → Bool}
    {direction : SortOrder} {column : α → Option SortValue}
    (hcolumn : ∀ x, column x = some (.uuid (Keyed.key x))) :
    Uncut (direction.le c column) (t.select q) p := by
  refine uncut_of_antisymm (t.nodup_select q) fun x hx y hy hxy hyx => ?_
  have hkey := SortOrder.key_eq_of_le hxy hyx
  rw [hcolumn, hcolumn] at hkey
  exact Table.eq_of_key (Table.mem_select.mp hx).1 (Table.mem_select.mp hy).1
    (Collation.key_uuid_inj hkey)

theorem pagesComplete_threadId (hp : 0 < p) {request : SearchThreadsRequest}
    (h : request.sortBy = .threadId) (d : Database) : ThreadPages c request d p := by
  rw [threadPages_iff hp]
  refine uncut_of_uuid fun x => ?_
  rw [h]
  rfl

theorem pagesComplete_cronId (hp : 0 < p) {request : SearchCronsRequest}
    (h : request.sortBy = .cronId) (crons : Table CronRow) : CronPages c request crons p := by
  rw [cronPages_iff hp]
  refine uncut_of_uuid fun x => ?_
  rw [h]
  rfl

theorem pagesComplete_assistantId (hp : 0 < p) {graphs : Option (List String)}
    {request : SearchAssistantsRequest} (h : request.sortBy = some .assistantId)
    (s : AssistantTables) : AssistantPages c graphs request s p := by
  rw [assistantPages_iff hp]
  refine uncut_of_uuid fun x => ?_
  rw [h]
  rfl

/-- **Sorted by their primary keys, the pages hold every matching row once**, whatever the filters
and the direction are. -/
theorem pagesComplete_byKey (hp : 0 < p) :
    (∀ (request : SearchThreadsRequest) (d : Database), request.sortBy = .threadId →
      ThreadPages c request d p) ∧
    (∀ (request : SearchCronsRequest) (crons : Table CronRow), request.sortBy = .cronId →
      CronPages c request crons p) ∧
    ∀ (graphs : Option (List String)) (request : SearchAssistantsRequest) (s : AssistantTables),
      request.sortBy = some .assistantId → AssistantPages c graphs request s p :=
  ⟨fun _ d h => pagesComplete_threadId hp h d, fun _ crons h => pagesComplete_cronId hp h crons,
    fun _ _ s h => pagesComplete_assistantId hp h s⟩

end

/-- By their ids, two threads that were created in one transaction are read one by one. -/
theorem pagesComplete_byKey_twoThreads :
    ThreadPages byteCollation { sortBy := .threadId } (twoThreads 1 1) 1 :=
  (pagesComplete_byKey Nat.one_pos).1 _ _ rfl

end NextRole
