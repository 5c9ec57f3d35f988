import NextRole.Lib.Transition
import NextRole.Servicers.Assistants

/-!
# Assistants and their versions

The current row of an assistant and the row of its current version are written by
different statements.  Creations and patches write both alike; the return to an earlier
version copies every column but the graph, so the two rows agree as long as no version
of another graph is made the latest.

## Main definitions

* `InStep` — every assistant agrees with the row of its version.
* `VersionsInStep` — a run that keeps this, changes no version and restores earlier ones.
* `AssistantCall.keepsGraph` — a call makes no version of another graph the latest.

## Main results

* `inStep_execute_iff` — **a call keeps the rows in step iff it keeps the graph**.
* `versionsInStep_iff` — **so does a run iff all its calls do**.
* `not_versionsInStep` — a patched graph stays when the first version is made the latest.
-/

namespace NextRole

/-! ### Statement -/

/-- The row of the version that an assistant has. -/
def IsCurrent (s : AssistantTables) (a : AssistantRow) (v : AssistantVersion) : Prop :=
  v ∈ s.assistantVersions ∧ v.assistantId = a.assistantId ∧ v.version = a.version

/-- A version and an assistant have the same content. -/
structure Agrees (v : AssistantVersion) (a : AssistantRow) : Prop where
  graphId : v.graphId = a.graphId
  config : v.config = a.config
  context : v.context = a.context
  metadata : v.metadata = a.metadata
  name : v.name = a.name
  description : v.description = a.description

/-- Every assistant has exactly one row for its version, which agrees with it. -/
def InStep (s : AssistantTables) : Prop :=
  ∀ a ∈ s.assistant, (∃! v, IsCurrent s a v) ∧ ∀ v, IsCurrent s a v → Agrees v a

/-- The tables after some calls, from empty ones. -/
def tablesAfter (graphs : Option (List String)) (calls : List AssistantCall) : AssistantTables :=
  calls.foldl (AssistantTables.execute graphs) {}

/-- Versions are in step, and stay as they are written; a version that is made the latest
gives the assistant as it was when that version was current. -/
structure VersionsInStep (graphs : Option (List String)) (calls : List AssistantCall) : Prop where
  inStep : ∀ pre, pre <+: calls → InStep (tablesAfter graphs pre)
  kept : ∀ pre mid, pre ++ mid <+: calls → ∀ v ∈ (tablesAfter graphs pre).assistantVersions,
    v ∈ (tablesAfter graphs (pre ++ mid)).assistantVersions
  restored : ∀ pre mid assistantId version now,
    pre ++ mid ++ [.setLatest assistantId version now] <+: calls →
    ∀ a ∈ (tablesAfter graphs pre).assistant, a.assistantId = assistantId → a.version = version →
    ∀ registered filters,
      Assistants.get registered filters assistantId
          (tablesAfter graphs (pre ++ mid ++ [.setLatest assistantId version now])) =
        (Assistants.get registered filters assistantId (tablesAfter graphs pre)).map
          fun a => { a with updatedAt := now }

/-- A version that a call makes the latest has the graph that the assistant has now. -/
def AssistantCall.keepsGraph (s : AssistantTables) : AssistantCall → Prop
  | .setLatest assistantId version _ => ∀ a ∈ s.assistant, ∀ v ∈ s.assistantVersions,
      a.assistantId = assistantId → v.assistantId = assistantId → v.version = version →
        v.graphId = a.graphId
  | _ => True

/-! ### What holds of all tables -/

/-- The assistants of all versions exist, and no context is missing. -/
structure Versioned (s : AssistantTables) : Prop where
  assistants : ∀ v ∈ s.assistantVersions, ∃ a ∈ s.assistant, a.assistantId = v.assistantId
  context : ∀ a ∈ s.assistant, a.context.isSome = true
  versionContext : ∀ v ∈ s.assistantVersions, v.context.isSome = true

section

variable {graphs : Option (List String)} {s : AssistantTables}

theorem exists_put {t : Table AssistantRow} {b : AssistantRow} {assistantId : Uuid}
    (h : b.assistantId = assistantId ∨ ∃ a ∈ t, a.assistantId = assistantId) :
    ∃ a ∈ t.put b, a.assistantId = assistantId := by
  by_cases hb : b.assistantId = assistantId
  · exact ⟨b, Table.mem_put.mpr (Or.inl rfl), hb⟩
  · obtain ⟨a, ha, hid⟩ := h.resolve_left hb
    exact ⟨a, Table.mem_put.mpr (Or.inr ⟨ha, fun hkey => hb (hkey.symm.trans hid)⟩), hid⟩

theorem context_patchRow {request : PatchAssistantRequest} {a : AssistantRow}
    (h : a.context.isSome = true) (version : ℕ) (now : Timestamp) :
    (request.row version now a).context.isSome = true := by
  simp [PatchAssistantRequest.row, h]

theorem Versioned.execute (h : Versioned s) (call : AssistantCall) :
    Versioned (s.execute graphs call) := by
  have hchange := change_execute graphs s call
  generalize s.execute graphs call = s' at hchange ⊢
  cases hchange with
  | same => exact h
  | created =>
    refine ⟨fun v hv => ?_, fun a ha => ?_, fun v hv => ?_⟩
    · rcases Table.mem_insertNew.mp hv with hold | ⟨rfl, -⟩
      · exact exists_put (Or.inr (h.assistants v hold))
      · exact exists_put (Or.inl rfl)
    · rcases Table.mem_put.mp ha with rfl | ⟨hold, -⟩
      · rfl
      · exact h.context a hold
    · rcases Table.mem_insertNew.mp hv with hold | ⟨rfl, -⟩
      · exact h.versionContext v hold
      · rfl
  | @patched request now a row ha hrow =>
    refine ⟨fun v hv => ?_, fun b hb => ?_, fun v hv => ?_⟩
    · rcases Table.mem_put.mp hv with rfl | ⟨hold, -⟩
      · exact exists_put (Or.inl rfl)
      · exact exists_put (Or.inr (h.assistants v hold))
    · rcases Table.mem_put.mp hb with rfl | ⟨hold, -⟩
      · rw [hrow]
        exact context_patchRow (h.context a (Table.get?_eq_some.mp ha).1) _ _
      · exact h.context b hold
    · rcases Table.mem_put.mp hv with rfl | ⟨hold, -⟩
      · rfl
      · exact h.versionContext v hold
  | @latest _ _ _ a v ha hv =>
    refine ⟨fun u hu => exists_put (Or.inr (h.assistants u hu)), fun b hb => ?_, h.versionContext⟩
    rcases Table.mem_put.mp hb with rfl | ⟨hold, -⟩
    · exact h.versionContext v (Table.get?_eq_some.mp hv).1
    · exact h.context b hold

/-- **No call changes a version.** -/
theorem version_execute {v : AssistantVersion} (hv : v ∈ s.assistantVersions) (call : AssistantCall) :
    v ∈ (s.execute graphs call).assistantVersions := by
  have hchange := change_execute graphs s call
  generalize s.execute graphs call = s' at hchange ⊢
  cases hchange with
  | same => exact hv
  | created => exact Table.mem_insertNew.mpr (Or.inl hv)
  | patched ha hrow =>
    subst hrow
    exact Table.mem_put.mpr (Or.inr ⟨hv, Table.get?_eq_none.mp (get?_patchedVersion ha) v hv⟩)
  | latest => exact hv

/-- No call removes an assistant or changes when it was created. -/
theorem exists_assistant_execute {a : AssistantRow} (ha : a ∈ s.assistant) (call : AssistantCall) :
    ∃ a' ∈ (s.execute graphs call).assistant,
      a'.assistantId = a.assistantId ∧ a'.createdAt = a.createdAt := by
  have hput : ∀ b : AssistantRow, (b.assistantId = a.assistantId → b.createdAt = a.createdAt) →
      ∃ a' ∈ s.assistant.put b, a'.assistantId = a.assistantId ∧ a'.createdAt = a.createdAt := by
    intro b hb
    by_cases hid : b.assistantId = a.assistantId
    · exact ⟨b, Table.mem_put.mpr (Or.inl rfl), hid, hb hid⟩
    · exact ⟨a, Table.mem_put.mpr (Or.inr ⟨ha, fun hkey => hid hkey.symm⟩), rfl, rfl⟩
  -- a row that is written over the one of the assistant is made from it
  have hrow : ∀ {k : Uuid} {b₀ b : AssistantRow}, s.assistant.get? k = some b₀ →
      b.assistantId = b₀.assistantId → b.createdAt = b₀.createdAt →
      b.assistantId = a.assistantId → b.createdAt = a.createdAt := by
    intro k b₀ b hb₀ hid hcreated hida
    rw [hcreated, Table.eq_of_key (Table.get?_eq_some.mp hb₀).1 ha (hid.symm.trans hida)]
  have hchange := change_execute graphs s call
  generalize s.execute graphs call = s' at hchange ⊢
  cases hchange with
  | same => exact ⟨a, ha, rfl, rfl⟩
  | created hnone => exact hput _ fun hid => absurd hid.symm (Table.get?_eq_none.mp hnone a ha)
  | patched hb hrow' =>
    subst hrow'
    exact hput _ (hrow hb rfl rfl)
  | latest hb => exact hput _ (hrow hb rfl rfl)

end

/-! ### One call -/

section

variable {graphs : Option (List String)} {s : AssistantTables}

/-- The rows are in step iff each assistant agrees with a row under its key. -/
theorem inStep_iff : InStep s ↔ ∀ a ∈ s.assistant, ∃ v, IsCurrent s a v ∧ Agrees v a := by
  have hunique : ∀ {a : AssistantRow} {v v' : AssistantVersion}, IsCurrent s a v →
      IsCurrent s a v' → v' = v := by
    rintro a v v' ⟨hv, hid, hversion⟩ ⟨hv', hid', hversion'⟩
    refine Table.eq_of_key hv' hv ?_
    rw [key_assistantVersion, key_assistantVersion, hid, hid', hversion, hversion']
  constructor
  · intro h a ha
    obtain ⟨⟨v, hv, -⟩, hagrees⟩ := h a ha
    exact ⟨v, hv, hagrees v hv⟩
  · intro h a ha
    obtain ⟨v, hv, hagrees⟩ := h a ha
    refine ⟨⟨v, hv, fun v' => hunique hv⟩, fun v' hv' => ?_⟩
    rw [hunique hv hv']
    exact hagrees

theorem exists_current_execute (graphs : Option (List String)) (h : InStep s) (call : AssistantCall) {a : AssistantRow}
    (ha : a ∈ s.assistant) : ∃ v, IsCurrent (s.execute graphs call) a v ∧ Agrees v a := by
  obtain ⟨v, ⟨hv, hid, hversion⟩, hagrees⟩ := inStep_iff.mp h a ha
  exact ⟨v, ⟨version_execute hv call, hid, hversion⟩, hagrees⟩

theorem agrees_versionRow (a : AssistantRow) (now : Timestamp) : Agrees (a.versionRow now) a :=
  ⟨rfl, rfl, rfl, rfl, rfl, rfl⟩

theorem agrees_patchedVersion {a : AssistantRow} (h : a.context.isSome = true) (now : Timestamp) :
    Agrees (patchedVersion a now) a := by
  obtain ⟨context, hcontext⟩ := Option.isSome_iff_exists.mp h
  refine ⟨rfl, rfl, ?_, rfl, rfl, rfl⟩
  rw [hcontext]
  simp [patchedVersion, hcontext]

theorem agrees_latest_iff {v : AssistantVersion} {a : AssistantRow} (now : Timestamp) :
    Agrees v (v.latest now a) ↔ v.graphId = a.graphId :=
  ⟨Agrees.graphId, fun h => ⟨h, rfl, rfl, rfl, rfl, rfl⟩⟩

/-- The graph is kept iff the two rows that `SetLatest` finds have the same. -/
theorem keepsGraph_setLatest_iff {assistantId : Uuid} {version : ℕ} {now : Timestamp}
    {a : AssistantRow} {v : AssistantVersion} (ha : s.assistant.get? assistantId = some a)
    (hv : s.assistantVersions.get? (assistantId, version) = some v) :
    AssistantCall.keepsGraph s (.setLatest assistantId version now) ↔ v.graphId = a.graphId := by
  obtain ⟨hamem, haid⟩ := Table.get?_eq_some.mp ha
  obtain ⟨hvmem, hvkey⟩ := Table.get?_eq_some.mp hv
  obtain ⟨hvid, hversion⟩ := Prod.mk.inj hvkey
  constructor
  · exact fun hkeeps => hkeeps a hamem v hvmem haid hvid hversion
  · intro hsame a' ha' v' hv' haid' hvid' hversion'
    rw [Table.eq_of_key ha' hamem (haid'.trans haid.symm),
      Table.eq_of_key hv' hvmem (Prod.ext (hvid'.trans hvid.symm) (hversion'.trans hversion.symm))]
    exact hsame

/-- **A call keeps the rows in step iff it keeps the graph.** -/
theorem inStep_execute_iff (hs : Versioned s) (h : InStep s) (call : AssistantCall) :
    InStep (s.execute graphs call) ↔ call.keepsGraph s := by
  have hold := fun {a} => @exists_current_execute s graphs h call a
  have hchange := change_execute graphs s call
  rw [inStep_iff]
  generalize s.execute graphs call = s' at hchange hold ⊢
  cases hchange with
  | same hnone =>
    refine iff_of_true (fun a ha => hold ha) ?_
    cases call with
    | setLatest assistantId version now =>
      intro a ha v hv hida hidv hversion
      rcases hnone assistantId version now rfl with hget | hget
      · exact absurd hida (Table.get?_eq_none.mp hget a ha)
      · exact absurd (Prod.ext hidv hversion) (Table.get?_eq_none.mp hget v hv)
    | _ => trivial
  | @created request now hnone =>
    refine iff_of_true (fun a ha => ?_) trivial
    rcases Table.mem_put.mp ha with rfl | ⟨hmem, -⟩
    · -- an assistant that is not there has no versions
      have hfree : s.assistantVersions.get? (Keyed.key ((request.row now).versionRow now)) = none := by
        refine Table.get?_eq_none.mpr fun v hv hkey => ?_
        obtain ⟨b, hb, hid⟩ := hs.assistants v hv
        exact Table.get?_eq_none.mp hnone b hb (hid.trans (congrArg Prod.fst hkey))
      exact ⟨_, ⟨Table.mem_insertNew.mpr (Or.inr ⟨rfl, hfree⟩), rfl, rfl⟩, agrees_versionRow _ now⟩
    · exact hold hmem
  | @patched request now b row hb hrow =>
    refine iff_of_true (fun a ha => ?_) trivial
    rcases Table.mem_put.mp ha with rfl | ⟨hmem, -⟩
    · have hcontext : a.context.isSome = true :=
        hrow ▸ context_patchRow (hs.context b (Table.get?_eq_some.mp hb).1) _ _
      exact ⟨_, ⟨Table.mem_put.mpr (Or.inl rfl), rfl, rfl⟩, agrees_patchedVersion hcontext now⟩
    · exact hold hmem
  | @latest assistantId version now b w hb hw =>
    obtain ⟨hbmem, hbid⟩ := Table.get?_eq_some.mp hb
    obtain ⟨hwmem, hwkey⟩ := Table.get?_eq_some.mp hw
    obtain ⟨hwid, -⟩ := Prod.mk.inj hwkey
    rw [keepsGraph_setLatest_iff hb hw, ← agrees_latest_iff now]
    constructor
    · intro hall
      obtain ⟨v, ⟨hv, hvid, hvversion⟩, hagrees⟩ := hall _ (Table.mem_put.mpr (Or.inl rfl))
      have heq : v = w := Table.eq_of_key hv hwmem
        (Prod.ext (hvid.trans (hbid.trans hwid.symm)) hvversion)
      exact heq ▸ hagrees
    · intro hagrees a ha
      rcases Table.mem_put.mp ha with rfl | ⟨hmem, -⟩
      · exact ⟨w, ⟨hwmem, hwid.trans hbid.symm, rfl⟩, hagrees⟩
      · exact hold hmem

end

/-! ### Runs -/

section

variable {graphs : Option (List String)}

theorem versioned_tablesAfter (graphs : Option (List String)) (calls : List AssistantCall) : Versioned (tablesAfter graphs calls) :=
  foldl_invariant _ ⟨fun v hv => absurd hv (Table.not_mem_empty v),
    fun a ha => absurd ha (Table.not_mem_empty a), fun v hv => absurd hv (Table.not_mem_empty v)⟩
    (fun _ call h => h.execute call) calls

theorem tablesAfter_append (pre mid : List AssistantCall) : tablesAfter graphs (pre ++ mid) =
    mid.foldl (AssistantTables.execute graphs) (tablesAfter graphs pre) :=
  List.foldl_append

theorem version_kept (pre mid : List AssistantCall) {v : AssistantVersion}
    (hv : v ∈ (tablesAfter graphs pre).assistantVersions) :
    v ∈ (tablesAfter graphs (pre ++ mid)).assistantVersions := by
  rw [tablesAfter_append]
  exact foldl_invariant (B := fun s : AssistantTables => v ∈ s.assistantVersions) _ hv
    (fun _ call h => version_execute h call) mid

theorem exists_assistant_kept (pre mid : List AssistantCall) {a : AssistantRow}
    (ha : a ∈ (tablesAfter graphs pre).assistant) :
    ∃ a' ∈ (tablesAfter graphs (pre ++ mid)).assistant,
      a'.assistantId = a.assistantId ∧ a'.createdAt = a.createdAt := by
  rw [tablesAfter_append]
  refine foldl_invariant (B := fun s : AssistantTables => ∃ a' ∈ s.assistant,
    a'.assistantId = a.assistantId ∧ a'.createdAt = a.createdAt) _ ⟨a, ha, rfl, rfl⟩ ?_ mid
  rintro s call ⟨a₁, ha₁, hid₁, hcreated₁⟩
  obtain ⟨a₂, ha₂, hid₂, hcreated₂⟩ := exists_assistant_execute ha₁ call
  exact ⟨a₂, ha₂, hid₂.trans hid₁, hcreated₂.trans hcreated₁⟩

theorem get?_execute_setLatest (graphs : Option (List String)) {s : AssistantTables} {assistantId : Uuid} {version : ℕ}
    {a : AssistantRow} {v : AssistantVersion} (ha : a ∈ s.assistant)
    (hid : a.assistantId = assistantId) (hv : v ∈ s.assistantVersions)
    (hkey : Keyed.key v = (assistantId, version)) (now : Timestamp) :
    (s.execute graphs (.setLatest assistantId version now)).assistant.get? assistantId =
      some (v.latest now a) := by
  have hget : s.assistant.get? assistantId = some a := Table.get?_eq_some.mpr ⟨ha, hid⟩
  have hver : s.assistantVersions.get? (assistantId, version) = some v :=
    Table.get?_eq_some.mpr ⟨hv, hkey⟩
  simp only [AssistantTables.execute, AssistantCall.reply, Assistants.setLatest, hget, hver]
  exact Table.get?_eq_some.mpr ⟨Table.mem_put.mpr (Or.inl rfl), hid⟩

theorem latest_eq {v : AssistantVersion} {a b : AssistantRow} (hagrees : Agrees v a)
    (hversion : v.version = a.version) (hgraph : v.graphId = b.graphId)
    (hid : b.assistantId = a.assistantId) (hcreated : b.createdAt = a.createdAt) (now : Timestamp) :
    v.latest now b = { a with updatedAt := now } := by
  obtain ⟨hg, hconfig, hcontext, hmetadata, hname, hdescription⟩ := hagrees
  obtain ⟨⟨_, _, _, _⟩, _, _, _, _, _, _⟩ := a
  obtain ⟨⟨_, _, _, _⟩, _, _, _, _, _, _⟩ := b
  simp_all [AssistantVersion.latest]

/-- **A run keeps the rows in step, and restores the versions that it makes the latest,
iff none of them has another graph than the assistant has then.** -/
theorem versionsInStep_iff (graphs : Option (List String)) (calls : List AssistantCall) :
    VersionsInStep graphs calls ↔
      ∀ pre call, pre ++ [call] <+: calls → call.keepsGraph (tablesAfter graphs pre) := by
  have hempty : InStep {} := fun a ha => absurd ha (Table.not_mem_empty a)
  have hrule := forall_prefix_iff (AssistantTables.execute graphs) (s := {}) (P := InStep)
    (Q := fun _ _ => True) (versioned_tablesAfter graphs []) hempty
    (fun _ call h => h.execute call)
    (fun s call hs h => (and_iff_left trivial).trans (inStep_execute_iff hs h call)) calls
  constructor
  · exact fun h => hrule.mp ⟨h.inStep, fun _ _ _ => trivial⟩
  · intro hkeeps
    have hstep := (hrule.mpr hkeeps).1
    refine ⟨hstep, fun pre mid _ v => version_kept pre mid, ?_⟩
    intro pre mid assistantId version now hpre a ha hid hversion registered filters
    have hmid : pre ++ mid <+: calls := (List.prefix_append _ _).trans hpre
    obtain ⟨v, ⟨hv, hvid, hvversion⟩, hagrees⟩ :=
      inStep_iff.mp (hstep pre ((List.prefix_append _ _).trans hmid)) a ha
    have hv' := version_kept pre mid hv
    obtain ⟨b, hb, hbid, hcreated⟩ := exists_assistant_kept pre mid ha
    have hgraph := hkeeps _ _ hpre b hb v hv' (hbid.trans hid) (hvid.trans hid)
      (hvversion.trans hversion)
    have hlatest := latest_eq hagrees hvversion hgraph hbid hcreated now
    have hafter := get?_execute_setLatest graphs hb (hbid.trans hid) hv'
      (Prod.ext (hvid.trans hid) (hvversion.trans hversion)) now
    have hbefore : (tablesAfter graphs pre).assistant.get? assistantId = some a :=
      Table.get?_eq_some.mpr ⟨ha, hid⟩
    rw [tablesAfter_append (pre ++ mid), List.foldl_cons, List.foldl_nil]
    simp only [Assistants.get, hafter, hbefore, hlatest]
    split <;> rfl

end

/-- The first version of an assistant of one graph, a second one of another, and back. -/
def patchedGraph : List AssistantCall :=
  [.create { assistantId := 1, graphId := "agent" } 0,
    .patch { assistantId := 1, graphId := some "other" } 1, .setLatest 1 1 2]

/-- **The assistant has the first version then, and the graph of the second.** -/
theorem not_versionsInStep : ¬ VersionsInStep none patchedGraph := by
  intro h
  have hother : ∃ a ∈ (tablesAfter none patchedGraph).assistant,
      ∃ v ∈ (tablesAfter none patchedGraph).assistantVersions,
        v.assistantId = a.assistantId ∧ v.version = a.version ∧ v.graphId ≠ a.graphId := by
    decide +kernel
  obtain ⟨a, ha, v, hv, hid, hversion, hne⟩ := hother
  obtain ⟨-, hagrees⟩ := h.inStep patchedGraph (List.prefix_refl _) a ha
  exact hne (hagrees v ⟨hv, hid, hversion⟩).graphId

end NextRole
