import Mathlib.Data.Fintype.Basic
import NextRole.Api.EventStreaming
import NextRole.Lib.Recorded
import NextRole.RunThreads

/-!
# The thread names the assistant of its newest run

Three statements write the assistant and the graph to the metadata of a thread: the
insertion of the thread, the refresh when a run is inserted, and the joint status at
the end of a run.  The refresh leaves a busy thread alone, the joint status writes the
graph of the run that ends, and the request of an insertion may bring its own values.

* `newestRun` — the run that was inserted last on a thread.
* `NamesNewest` — the thread of every inserted run names the assistant of the newest
  one and its graph, and a resume finds that assistant.
* `KeepsNames` — the calls that leave the names right.
* `namesNewest_of_keepsNames` — **in every run of such calls the threads name the
  newest runs**.
* `not_namesNewest` — a creation on a busy thread.
-/

namespace NextRole

open ReadCommitted

/-! ### The newest run -/

/-- The runs that a call inserts. -/
def insertedBy (d : Database) : Rpc → List Run
  | .createRun request env =>
    if createConflicts (createParams request env) d d then []
    else insertedRun (createParams request env) d d
  | _ => []

/-- The run that was inserted last on a thread. -/
def newestRun (threadId : Uuid) (log : List Run) : Option Run :=
  (log.filter fun r => r.threadId = threadId).getLast?

theorem newestRun_concat (threadId : Uuid) (log : List Run) (r : Run) :
    newestRun threadId (log ++ [r]) =
      if r.threadId = threadId then some r else newestRun threadId log := by
  unfold newestRun
  rw [List.filter_append, List.filter_singleton]
  by_cases h : r.threadId = threadId
  · simp [h]
  · simp [h]

/-- The metadata of a thread names an assistant and its graph. -/
def NamesAssistant (a : Assistant) (metadata : Json) : Prop :=
  metadata.get? "assistant_id" = some (.str a.assistantId.text) ∧
    metadata.get? "graph_id" = some (.str a.graphId)

instance (a : Assistant) (metadata : Json) : Decidable (NamesAssistant a metadata) := by
  unfold NamesAssistant
  infer_instance

/-- The thread names the assistant of a run, and a resume on it is for that assistant. -/
structure Names (d : Database) (t : Thread) (r : Run) : Prop where
  assistant : ∃ a ∈ d.assistant, a.assistantId = r.assistantId ∧ NamesAssistant a t.metadata
  resume : ∀ manager, resolveResumeAssistantId manager (some t) = some r.assistantId.text

/-- Every thread names the newest run that was inserted on it. -/
def NamesNewest (s : Recorded Database Run) : Prop :=
  ∀ threadId r, newestRun threadId s.log = some r →
    ∃ t ∈ s.state.thread, t.threadId = threadId ∧ Names s.state t r

theorem names_of_namesAssistant {d : Database} {t : Thread} {r : Run} {a : Assistant}
    (ha : a ∈ d.assistant) (hid : a.assistantId = r.assistantId)
    (h : NamesAssistant a t.metadata) : Names d t r := by
  refine ⟨⟨a, ha, hid, h⟩, fun manager => ?_⟩
  simp [resolveResumeAssistantId, threadAssistantId, h.1, hid]

/-! ### The calls -/

/-- The calls on runs and on the status of a thread, one after the other, with the runs
that are inserted.  Metadata are objects. -/
def runCalls : Machine (Recorded Database Run) Rpc :=
  (oneByOne fun d => ∀ t ∈ d.thread, ∃ kvs, t.metadata = .obj kvs).recorded insertedBy

/-- The calls that the property is about. -/
def RunCall : Rpc → Prop
  | .createRun request _ => ∃ kvs, request.metadata = .obj kvs
  | .next .. | .setRunStatus .. | .setThreadStatus .. | .setJointStatus .. | .cancelRuns .. => True
  | _ => False

/-- Nothing keeps the query of a creation from inserting a run on its thread. -/
def Attaches (p : CreateParams) (d : Database) : Prop :=
  (p.prevent = true → inflightRuns p d = []) ∧ ∀ r ∈ d.run, r.runId ≠ p.runId

/-- A creation that inserts its run keeps the names right: its thread is not busy, or
names the assistant already; or the creation inserts the thread, and its metadata have
no other names. -/
def CreationKeepsNames (request : CreateRunRequest) (p : CreateParams) (d : Database) : Prop :=
  ∀ a ∈ createAssistant p d, Attaches p d →
    (∀ t ∈ d.thread, t.threadId = p.threadId → admits p.threadFilters t.metadata = true →
      t.status = .busy → NamesAssistant a t.metadata) ∧
    ((∀ t ∈ d.thread, t.threadId ≠ p.threadId) → p.createThread = true →
      (∀ v ∈ request.metadata.get? "assistant_id", v = .str a.assistantId.text) ∧
        ∀ v ∈ request.metadata.get? "graph_id", v = .str a.graphId)

/-- A joint status writes the graph of the newest run. -/
def JointKeepsNames (request : SetJointStatusRequest) (s : Recorded Database Run) : Prop :=
  ∀ r ∈ newestRun request.threadId s.log, ∀ a ∈ s.state.assistant,
    a.assistantId = r.assistantId → request.graphId = a.graphId

/-- The calls that keep the names right. -/
def KeepsNames (s : Recorded Database Run) (rpc : Rpc) : Prop :=
  RunCall rpc ∧
    match rpc with
    | .createRun request env => CreationKeepsNames request (createParams request env) s.state
    | .setJointStatus request _ => JointKeepsNames request s
    | _ => True

/-! ### What a creation leaves of a thread -/

section

variable {request : CreateRunRequest} {env : CreateEnv} {d : Database}

/-- A thread after a creation: the one that it inserts, one that it refreshes, or one
that it leaves alone. -/
theorem thread_of_createRun (h : createConflicts (createParams request env) d d = false)
    {t : Thread} (ht : t ∈ (execute (.createRun request env) d).thread) :
    insertedThread (createParams request env) d d = some t ∨
      t ∈ updatedThread (createParams request env) d d ∨
      (t ∈ d.thread ∧ ∀ u ∈ updatedThread (createParams request env) d d, u.threadId ≠ t.threadId) := by
  rw [execute_createRun] at ht
  rcases thread_of_applyAll ht with hput | ⟨hkey, hold⟩
  · rcases mem_createRun hput with ⟨u, hins, heq⟩ | ⟨r, -, heq⟩ | ⟨u, hup, heq⟩
    · cases heq
      exact Or.inl hins
    · cases heq
    · cases heq
      exact Or.inr (Or.inl hup)
  · refine Or.inr (Or.inr ⟨hold, fun u hu hid => hkey ?_⟩)
    refine List.mem_map.mpr ⟨.put (.thread u), ?_, congrArg RowKey.thread hid⟩
    simp [createRun, h, hu]

/-- The threads that are refreshed are those of the inserted run that are not busy. -/
theorem mem_updatedThread_self {p : CreateParams} {t : Thread} :
    t ∈ updatedThread p d d ↔ ∃ t₀ ∈ d.thread, t₀.status ≠ .busy ∧
      (∃ r ∈ insertedRun p d d, r.threadId = t₀.threadId) ∧
        ∃ a, d.assistant.get? p.assistantId = some a ∧ refreshThread p a t₀ = t := by
  rw [mem_updatedThread, Relation.rechecked_self]
  simp only [threadTable_table, Table.mem_select, Bool.and_eq_true, List.any_eq_true,
    decide_eq_true_eq]
  constructor
  · rintro ⟨t₀, ⟨ht₀, hr, hst⟩, ha⟩
    exact ⟨t₀, ht₀, hst, hr, ha⟩
  · rintro ⟨t₀, ht₀, hst, hr, ha⟩
    exact ⟨t₀, ⟨ht₀, hr, hst⟩, ha⟩

end

/-! ### Metadata -/

/-- The metadata of every thread is an object. -/
def ObjectMetadata (d : Database) : Prop := ∀ t ∈ d.thread, ∃ kvs, t.metadata = .obj kvs

/-- An inserted thread names the assistant unless the request names another one. -/
theorem namesAssistant_insertThread {request : CreateRunRequest} {env : CreateEnv} {a : Assistant}
    (hobj : ∃ kvs, request.metadata = .obj kvs) (hid : a.assistantId = request.assistantId)
    (hassistant : ∀ v ∈ request.metadata.get? "assistant_id", v = .str a.assistantId.text)
    (hgraph : ∀ v ∈ request.metadata.get? "graph_id", v = .str a.graphId) :
    NamesAssistant a (insertThread (createParams request env) a).metadata := by
  obtain ⟨kvs, hkvs⟩ := hobj
  obtain ⟨kvs', hkvs'⟩ := setdefault_obj kvs "assistant_id" (.str request.assistantId.text)
  have hmetadata : (insertThread (createParams request env) a).metadata =
      (Json.obj [("graph_id", .str a.graphId), ("assistant_id", .str a.assistantId.text)]).concat
        (.obj kvs') := by
    simp only [insertThread, createParams, hkvs, hkvs']
  have hself := get?_setdefault_self kvs "assistant_id" (.str request.assistantId.text)
  have hother := get?_setdefault_of_ne (.obj kvs) (.str request.assistantId.text)
    (show "graph_id" ≠ "assistant_id" by decide)
  rw [hkvs', Json.get?_obj] at hself hother
  rw [hkvs] at hassistant hgraph
  rw [hmetadata]
  constructor
  · rw [Json.get?_concat, hself, Option.some_or]
    cases hlookup : kvs.lookup "assistant_id" with
    | none => rw [hid]; rfl
    | some v => rw [hassistant v hlookup]; rfl
  · rw [Json.get?_concat, hother]
    cases hlookup : (Json.obj kvs).get? "graph_id" with
    | none => rfl
    | some v => rw [hgraph v hlookup, Option.some_or]

theorem namesAssistant_refreshThread (p : CreateParams) (a : Assistant) {t : Thread}
    (hobj : ∃ kvs, t.metadata = .obj kvs) : NamesAssistant a (refreshThread p a t).metadata := by
  obtain ⟨kvs, hkvs⟩ := hobj
  have hset : t.metadata.set "graph_id" (.str a.graphId) =
      .obj (Json.merge kvs [("graph_id", .str a.graphId)]) := by
    rw [hkvs]
    rfl
  constructor
  · show ((t.metadata.set _ _).set _ _).get? "assistant_id" = _
    rw [hset, Json.get?_set, if_pos rfl]
  · show ((t.metadata.set _ _).set _ _).get? "graph_id" = _
    rw [Json.get?_set_of_ne _ _ (by decide), hkvs, Json.get?_set, if_pos rfl]

theorem NamesAssistant.set_graphId {a : Assistant} {metadata : Json} (h : NamesAssistant a metadata) :
    NamesAssistant a (metadata.set "graph_id" (.str a.graphId)) := by
  constructor
  · rw [Json.get?_set_of_ne _ _ (by decide)]
    exact h.1
  · cases metadata with
    | obj kvs => rw [Json.get?_set, if_pos rfl]
    | _ => cases h.2

/-! ### One call -/

/-- What holds between calls. -/
structure NewestInv (s : Recorded Database Run) : Prop where
  metadata : ObjectMetadata s.state
  names : NamesNewest s

/-- A call that inserts no run and whose threads keep their names. -/
theorem NewestInv.of_threads {s : Recorded Database Run} (h : NewestInv s) {rpc : Rpc}
    (hrpc : ∀ threadId filters, rpc ≠ .deleteThread threadId filters)
    (hthread : ∀ t' ∈ (execute rpc s.state).thread, ∃ t ∈ s.state.thread,
      t.threadId = t'.threadId ∧ (∃ kvs, t'.metadata = .obj kvs) ∧
        ∀ r, newestRun t.threadId s.log = some r → Names s.state t r → Names s.state t' r) :
    NewestInv ⟨execute rpc s.state, s.log⟩ := by
  constructor
  · intro t' ht'
    obtain ⟨t, -, -, hobj, -⟩ := hthread t' ht'
    exact hobj
  · intro threadId r hr
    obtain ⟨t, ht, hid, hnames⟩ := h.names threadId r hr
    obtain ⟨t', ht', hid'⟩ := exists_thread_execute hrpc ⟨t, ht, hid⟩
    obtain ⟨t₀, ht₀, hid₀, -, hkeep⟩ := hthread t' ht'
    obtain rfl : t₀ = t := Table.eq_of_key ht₀ ht (hid₀.trans (hid'.trans hid.symm))
    subst hid
    have hnames' := hkeep r hr hnames
    refine ⟨t', ht', hid', ?_, hnames'.resume⟩
    show ∃ a ∈ (execute rpc s.state).assistant, _
    rw [assistant_execute]
    exact hnames'.assistant

section

variable {request : CreateRunRequest} {env : CreateEnv} {d : Database}

/-- A creation leaves objects as metadata. -/
theorem objectMetadata_createRun (hd : ObjectMetadata d)
    (hobj : ∃ kvs, request.metadata = .obj kvs) :
    ObjectMetadata (execute (.createRun request env) d) := by
  intro t' ht'
  cases hconf : createConflicts (createParams request env) d d with
  | true =>
    rw [execute_of_conflicts hconf] at ht'
    exact hd t' ht'
  | false =>
    rcases thread_of_createRun hconf ht' with hins | hup | ⟨hold, -⟩
    · obtain ⟨-, -, a, -, rfl⟩ := insertedThread_eq_some.mp hins
      obtain ⟨kvs, hkvs⟩ := hobj
      obtain ⟨kvs', hkvs'⟩ := setdefault_obj kvs "assistant_id" (.str request.assistantId.text)
      exact ⟨_, by simp only [insertThread, createParams, hkvs, hkvs', Json.concat]; rfl⟩
    · obtain ⟨t₀, ht₀, -, -, a, -, rfl⟩ := mem_updatedThread_self.mp hup
      obtain ⟨kvs, hkvs⟩ := hd t₀ ht₀
      exact ⟨_, by rw [refreshThread, hkvs]; rfl⟩
    · exact hd t' hold

/-- The thread of the inserted run names its assistant afterwards. -/
theorem names_insertedRun (hd : ObjectMetadata d) (hobj : ∃ kvs, request.metadata = .obj kvs)
    (hkeep : CreationKeepsNames request (createParams request env) d)
    (hconf : createConflicts (createParams request env) d d = false) {r : Run}
    (hr : r ∈ insertedRun (createParams request env) d d) :
    ∃ t ∈ (execute (.createRun request env) d).thread, t.threadId = r.threadId ∧
      Names (execute (.createRun request env) d) t r := by
  obtain ⟨hprevent, t₀, ht₀, a, ha, rfl⟩ := mem_insertedRun.mp hr
  obtain ⟨haget, -⟩ := Option.filter_eq_some_iff.mp ha
  obtain ⟨hamem, haid⟩ := Table.get?_eq_some.mp haget
  have hattaches : Attaches (createParams request env) d := by
    refine ⟨hprevent, fun r' hr' hid => ?_⟩
    have htaken := createConflicts_self.mpr ⟨List.ne_nil_of_mem hr, r', hr', hid⟩
    rw [hconf] at htaken
    cases htaken
  obtain ⟨hbusy, hinsert⟩ := hkeep a ha hattaches
  have hid := threadId_of_mem_runThread ht₀
  have hafter : a ∈ (execute (.createRun request env) d).assistant := by
    rwa [assistant_execute]
  have hnodelete : ∀ threadId filters,
      Rpc.createRun request env ≠ .deleteThread threadId filters := by simp
  rcases mem_runThread.mp ht₀ with ⟨hmem, -, hadm⟩ | hins
  · -- the thread was there: it is refreshed, or it is busy
    obtain ⟨t, ht, htid⟩ := exists_thread_execute hnodelete ⟨t₀, hmem, rfl⟩
    refine ⟨t, ht, htid, names_of_namesAssistant hafter rfl ?_⟩
    rcases thread_of_createRun hconf ht with hnew | hup | ⟨hold, hnot⟩
    · obtain ⟨-, hnone, b, -, rfl⟩ := insertedThread_eq_some.mp hnew
      exact absurd hid (Table.get?_eq_none.mp hnone t₀ hmem)
    · obtain ⟨t₁, ht₁, -, -, b, hb, rfl⟩ := mem_updatedThread_self.mp hup
      obtain rfl : a = b := Option.some.inj (haget.symm.trans hb)
      exact namesAssistant_refreshThread _ a (hd t₁ ht₁)
    · obtain rfl : t = t₀ := Table.eq_of_key hold hmem htid
      refine hbusy t hmem hid hadm ?_
      by_contra hst
      exact hnot _ (mem_updatedThread_self.mpr ⟨t, hmem, hst, ⟨_, hr, rfl⟩, a, haget, rfl⟩) rfl
  · -- the thread is inserted with the run
    obtain ⟨hcreate, hnone, b, hb, rfl⟩ := insertedThread_eq_some.mp hins
    obtain rfl : a = b := Option.some.inj (ha.symm.trans hb)
    have hfree := Table.get?_eq_none.mp hnone
    obtain ⟨hassistant, hgraph⟩ := hinsert hfree hcreate
    obtain ⟨t, ht, htid⟩ := exists_insertedThread_execute hconf hins
    refine ⟨t, ht, htid, names_of_namesAssistant hafter rfl ?_⟩
    rcases thread_of_createRun hconf ht with hnew | hup | ⟨hold, -⟩
    · obtain rfl := Option.some.inj (hins.symm.trans hnew)
      exact namesAssistant_insertThread hobj haid hassistant hgraph
    · obtain ⟨t₁, ht₁, -, -, b, -, rfl⟩ := mem_updatedThread_self.mp hup
      exact absurd htid (hfree t₁ ht₁)
    · exact absurd htid (hfree t hold)

/-- A thread that was there and gets no run keeps its names. -/
theorem mem_thread_createRun_of_ne (hconf : createConflicts (createParams request env) d d = false)
    {t : Thread} (ht : t ∈ d.thread)
    (hne : ∀ r ∈ insertedRun (createParams request env) d d, r.threadId ≠ t.threadId) :
    t ∈ (execute (.createRun request env) d).thread := by
  obtain ⟨t', ht', hid⟩ := exists_thread_execute
    (show ∀ threadId filters, Rpc.createRun request env ≠ .deleteThread threadId filters by simp)
    ⟨t, ht, rfl⟩
  rcases thread_of_createRun hconf ht' with hnew | hup | ⟨hold, -⟩
  · obtain ⟨-, hnone, b, -, rfl⟩ := insertedThread_eq_some.mp hnew
    exact absurd hid.symm (Table.get?_eq_none.mp hnone t ht)
  · obtain ⟨t₁, ht₁, -, ⟨r, hr, hrid⟩, b, -, rfl⟩ := mem_updatedThread_self.mp hup
    exact absurd (hrid.trans hid) (hne r hr)
  · obtain rfl : t' = t := Table.eq_of_key hold ht hid
    exact ht'

end

/-- A creation that keeps the names right. -/
theorem NewestInv.createRun {s : Recorded Database Run} (h : NewestInv s)
    {request : CreateRunRequest} {env : CreateEnv} (hobj : ∃ kvs, request.metadata = .obj kvs)
    (hkeep : CreationKeepsNames request (createParams request env) s.state) :
    NewestInv ⟨execute (.createRun request env) s.state,
      s.log ++ insertedBy s.state (.createRun request env)⟩ := by
  refine ⟨objectMetadata_createRun h.metadata hobj, fun threadId r hr => ?_⟩
  have hkeeps : ∀ t ∈ s.state.thread, Names s.state t r →
      Names (execute (.createRun request env) s.state) t r := by
    intro t ht hnames
    obtain ⟨a, ha, hid, hnamed⟩ := hnames.assistant
    exact names_of_namesAssistant (by rwa [assistant_execute]) hid hnamed
  simp only [insertedBy] at hr
  cases hconf : createConflicts (createParams request env) s.state s.state with
  | true =>
    rw [if_pos hconf, List.append_nil] at hr
    obtain ⟨t, ht, hid, hnames⟩ := h.names threadId r hr
    refine ⟨t, ?_, hid, hkeeps t ht hnames⟩
    rw [execute_of_conflicts hconf]
    exact ht
  | false =>
    rw [hconf, if_neg (by simp)] at hr
    have hlen := length_insertedRun_le (createParams request env) s.state
    cases hlist : insertedRun (createParams request env) s.state s.state with
    | nil =>
      rw [hlist, List.append_nil] at hr
      obtain ⟨t, ht, hid, hnames⟩ := h.names threadId r hr
      exact ⟨t, mem_thread_createRun_of_ne hconf ht (by simp [hlist]), hid, hkeeps t ht hnames⟩
    | cons r' rs =>
      rw [hlist, List.length_cons] at hlen
      obtain rfl : rs = [] := List.length_eq_zero_iff.mp (by omega)
      rw [hlist, newestRun_concat] at hr
      split at hr
      · next hthread =>
        obtain rfl := Option.some.inj hr
        obtain ⟨t, ht, hid, hnames⟩ := names_insertedRun h.metadata hobj hkeep hconf
          (hlist ▸ List.mem_singleton_self r')
        exact ⟨t, ht, hid.trans hthread, hnames⟩
      · next hthread =>
        obtain ⟨t, ht, hid, hnames⟩ := h.names threadId r hr
        refine ⟨t, mem_thread_createRun_of_ne hconf ht ?_, hid, hkeeps t ht hnames⟩
        intro r₀ hr₀
        rw [hlist, List.mem_singleton] at hr₀
        rw [hr₀, hid]
        exact hthread

/-- **One call keeps the names right.** -/
theorem NewestInv.step {s : Recorded Database Run} (h : NewestInv s) {rpc : Rpc}
    (hkeep : KeepsNames s rpc) :
    NewestInv ⟨execute rpc s.state, s.log ++ insertedBy s.state rpc⟩ := by
  obtain ⟨hcall, hkeep⟩ := hkeep
  have hruns : rpc.runsOnly = true → NewestInv ⟨execute rpc s.state, s.log⟩ := by
    intro hruns
    refine h.of_threads (fun threadId filters heq => ?_) fun t' ht' => ?_
    · rw [heq] at hruns
      cases hruns
    · rw [thread_execute hruns] at ht'
      exact ⟨t', ht', rfl, h.metadata t' ht', fun r _ hnames => hnames⟩
  cases rpc with
  | createRun request env => exact h.createRun hcall hkeep
  | next limit now tie => simpa [insertedBy] using hruns rfl
  | setRunStatus runId status now => simpa [insertedBy] using hruns rfl
  | cancelRuns runIds action now => simpa [insertedBy] using hruns rfl
  | setThreadStatus request now =>
    have hnone : insertedBy s.state (.setThreadStatus request now) = [] := rfl
    rw [hnone, List.append_nil]
    refine h.of_threads (by simp) fun t' ht' => ?_
    rcases mem_thread_setThreadStatus.mp ht' with ⟨hold, -⟩ | ⟨t, ht, -, -, rfl⟩
    · exact ⟨t', hold, rfl, h.metadata t' hold, fun r _ hnames => hnames⟩
    · refine ⟨t, ht, rfl, h.metadata t ht, fun r _ hnames => ?_⟩
      obtain ⟨a, ha, hid, hnamed⟩ := hnames.assistant
      exact names_of_namesAssistant ha hid hnamed
  | setJointStatus request now =>
    have hnone : insertedBy s.state (.setJointStatus request now) = [] := rfl
    rw [hnone, List.append_nil]
    refine h.of_threads (by simp) fun t' ht' => ?_
    rcases mem_thread_setJointStatus.mp ht' with ⟨hold, -⟩ | ⟨t, ht, hid, rfl⟩
    · exact ⟨t', hold, rfl, h.metadata t' hold, fun r _ hnames => hnames⟩
    · obtain ⟨kvs, hkvs⟩ := h.metadata t ht
      refine ⟨t, ht, rfl, ⟨_, by rw [jointThread, hkvs]; rfl⟩, fun r hr hnames => ?_⟩
      obtain ⟨a, ha, haid, hnamed⟩ := hnames.assistant
      rw [hid] at hr
      refine names_of_namesAssistant ha haid ?_
      show NamesAssistant a (t.metadata.set "graph_id" (.str request.graphId))
      rw [hkeep r hr a ha haid]
      exact hnamed.set_graphId
  | _ => cases hcall

/-- **The thread names the assistant of its newest run** in every run of creations,
claims, status writes and cancels, executed one at a time, each of which keeps the
names right. -/
theorem namesNewest_of_keepsNames {s : Recorded Database Run}
    (hs : runCalls.Reachable KeepsNames s) : NamesNewest s := by
  suffices h : NewestInv s from h.names
  refine hs.invariant (fun s hinit => ?_) fun s rpc s' _ hI hOk hstep => ?_
  · refine ⟨hinit.1, fun threadId r hr => ?_⟩
    rw [hinit.2] at hr
    cases hr
  · cases hstep
    exact hI.step hOk

/-! ### A creation on a busy thread -/

/-- A store with an idle thread and two assistants. -/
def twoAssistants : Database :=
  { oneThread with
    assistant := oneThread.assistant.put { assistantId := 2, graphId := "writer" } }

/-- The creation of run `runId` of an assistant on the thread of `oneThread`. -/
def enqueueFor (assistantId runId : Uuid) : Rpc :=
  .createRun {
    assistantId := assistantId, runId := some runId, threadId := some 10, status := some .pending,
    multitaskStrategy := some .enqueue } ⟨0, 0, 0⟩

instance (j : Json) : Decidable (∃ kvs, j = .obj kvs) :=
  match j with
  | .obj kvs => .isTrue ⟨kvs, rfl⟩
  | .null | .bool _ | .num _ | .str _ | .arr _ => .isFalse (by simp)

instance : DecidablePred RunCall := fun rpc => by
  cases rpc <;> simp only [RunCall] <;> infer_instance

instance (s : Recorded Database Run) (rpc : Rpc) : Decidable (KeepsNames s rpc) := by
  unfold KeepsNames
  cases rpc <;> simp only [RunCall, CreationKeepsNames, JointKeepsNames, Attaches] <;> infer_instance

theorem init_twoAssistants : runCalls.init ⟨twoAssistants, []⟩ := by
  refine ⟨fun t ht => ?_, rfl⟩
  have hobj : ∀ t ∈ twoAssistants.thread, ∃ kvs, t.metadata = .obj kvs := by decide +kernel
  exact hobj t ht

/-- A second assistant takes over when the run of the first one has ended. -/
theorem namesNewest_of_keepsNames_witness :
    ∃ s, runCalls.Reachable KeepsNames s ∧ s.log.length = 2 ∧ NamesNewest s := by
  obtain ⟨s, hs, hlog⟩ := runCalls.exists_reachable KeepsNames init_twoAssistants
    [enqueueFor 1 100, .next 1 5 id,
      .setJointStatus { threadId := 10, runId := 100, runStatus := .success, graphId := "agent" } 6,
      enqueueFor 2 101]
    (fun s => s.log.length = 2) (by decide +kernel)
  exact ⟨s, hs, of_decide_eq_true hlog, namesNewest_of_keepsNames hs⟩

/-- A run of the second assistant is enqueued behind a run of the first one. -/
theorem not_namesNewest : ¬ ∀ s, runCalls.Reachable (fun _ rpc => RunCall rpc) s → NamesNewest s := by
  intro h
  obtain ⟨s, hs, hnot⟩ := runCalls.exists_reachable (fun _ rpc => RunCall rpc) init_twoAssistants
    [enqueueFor 1 100, enqueueFor 2 101]
    (fun s => (newestRun 10 s.log).any fun r => s.state.thread.rows.all fun t =>
      t.metadata.get? "assistant_id" ≠ some (.str r.assistantId.text)) (by decide +kernel)
  obtain ⟨r, hr, hall⟩ := (Option.any_eq_true _ _).mp hnot
  obtain ⟨t, ht, -, hnames⟩ := h s hs 10 r hr
  obtain ⟨a, -, hid, hassistant, -⟩ := hnames.assistant
  rw [hid] at hassistant
  exact of_decide_eq_true (List.all_eq_true.mp hall t ht) hassistant

end NextRole
