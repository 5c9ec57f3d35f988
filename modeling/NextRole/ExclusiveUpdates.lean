import NextRole.Api.Threads

/-!
# State updates and runs

A state update reads the thread and, in `Threads.State.post`, the number of its runs in
flight at one moment, and writes at several later ones: the rows of its checkpoints, in a
transaction of its own or, in `Threads.State.bulk`, through the queue of the checkpointer,
and the row of the thread by a call of `Threads.SetStatus`.  Nothing holds the thread in
between, so a run can come in flight, and `Threads.State.bulk` does not ask for one.

## Main definitions

* `refuseUpdate` — the reads of an update, and why it is refused.
* `UpdateProgress`, `UpdatingState`, `updating` — updates among the calls on runs.
* `Respects` — no commit of an update meets a run in flight.
* `Spaced` — no update meets a run that was there before or comes in flight meanwhile.

## Main results

* `updateState_eq` — an update that nothing interrupts does what its steps do.
* `quiet_of_reachable` — while an update is open its thread has no run in flight.
* `respects_of_spaced` — **in a run of spaced steps no update meets a run in flight**.
* `not_respects` — an update that does.
-/

namespace NextRole

open ReadCommitted

/-! ### The reads of an update -/

/-- The reads of an update at one moment: why it is refused, if it is. -/
def refuseUpdate (u : StateUpdate) (d : Database) : Option HTTPException :=
  match (d.thread.get? u.threadId).filter fun t => admits (authFilters u.caller) t.metadata with
  | none => some ⟨404, "Thread " ++ u.threadId.text ++ " not found"⟩
  | some t =>
    if !u.bulk && hasInflight d u.threadId then
      some ⟨409, "Thread is busy with a running job. Cannot update state."⟩
    else if !hasGraph t d then
      some ⟨400, "Thread '" ++ u.threadId.text ++ "' has no assigned graph ID. This usually occurs when no runs have been made on this particular thread. This operation requires a graph ID. Please ensure a run has been made for the thread or manually update the thread metadata (by setting the 'graph_id' field) before running this operation."⟩
    else none

/-- **An update that nothing interrupts**: the reads, the rows, and the status. -/
theorem updateState_eq (reader : StateReader) (u : StateUpdate) (d : Database) :
    updateState reader u d =
      match refuseUpdate u d with
      | some e => .error e
      | none => .ok (execute (.setThreadStatus
          (u.setStatus (reader.stateAt (u.save d) u.threadId u.checkpointId)) u.now) (u.save d)) := by
  unfold updateState refuseUpdate
  cases (d.thread.get? u.threadId).filter fun t => admits (authFilters u.caller) t.metadata with
  | none => rfl
  | some t =>
    by_cases hbusy : (!u.bulk && hasInflight d u.threadId) = true
    · simp only [hbusy, if_true]
    · by_cases hgraph : (!hasGraph t d) = true
      · simp only [hbusy, hgraph, if_true, if_false, Bool.false_eq_true]
      · simp only [hbusy, hgraph, if_false, Bool.false_eq_true]

/-- `Threads.State.post` is refused while the thread has a run in flight. -/
theorem refuseUpdate_eq_none {u : StateUpdate} {d : Database} (h : refuseUpdate u d = none)
    (hbulk : u.bulk = false) : hasInflight d u.threadId = false := by
  unfold refuseUpdate at h
  split at h
  · cases h
  · split at h
    · cases h
    · next hbusy => simpa [hbulk] using hbusy

/-! ### Updates among the calls on runs -/

/-- How far an update has come. -/
inductive UpdateProgress
  | idle
  /-- It was not refused, and the graph has saved the first `saved` of its rows. -/
  | opened (u : StateUpdate) (saved : ℕ)
  /-- Its call of `Threads.SetStatus` is the transaction `txn`. -/
  | reporting (u : StateUpdate) (txn : ℕ)
  | reported (u : StateUpdate)

/-- The update under way. -/
def UpdateProgress.update? : UpdateProgress → Option StateUpdate
  | idle => none
  | opened u _ | reporting u _ | reported u => some u

/-- The services, and the updates. -/
structure UpdatingState where
  sys : ServiceState
  updaters : List UpdateProgress

/-- The updates under way. -/
def UpdatingState.openUpdates (s : UpdatingState) : List StateUpdate :=
  s.updaters.filterMap UpdateProgress.update?

/-- A step of a transaction of the services, or of updater `i`. -/
inductive UpdatingAction
  | service (a : Action Rpc)
  /-- The reads of `u`. -/
  | check (i : ℕ) (u : StateUpdate)
  /-- The graph saves the next `n` rows. -/
  | save (i n : ℕ)
  /-- `Threads.SetStatus` is called, as transaction `txn`. -/
  | report (i txn : ℕ)
  | finish (i : ℕ)
  /-- An exception: what is not committed is rolled back. -/
  | fail (i : ℕ)

/-- The calls that run among the updates. -/
def Rpc.onRuns : Rpc → Bool
  | .createRun .. | .next .. | .setJointStatus .. => true
  | _ => false

/-- Whether a step of the services is one that the updates do not take. -/
def ofOthers : Action Rpc → Bool
  | .begin _ rpc => rpc.onRuns
  | _ => true

/-- What a step of the services means for an updater that waits for one of them. -/
def UpdateProgress.settle (a : Action Rpc) (sys : ServiceState) : UpdateProgress → UpdateProgress
  | reporting u txn =>
    if (sys.txns.get? txn).isSome then reporting u txn
    else
      match a with
      | .commit i => if i = txn then reported u else idle
      | _ => idle
  | p => p

/-- The database that an open update reads: `post` sees the rows of its own transaction. -/
def StateUpdate.sees (u : StateUpdate) (d : Database) : Database := if u.bulk then d else u.save d

/-- One step. -/
def updatingStep (reader : StateReader) (s : UpdatingState) : UpdatingAction → Option UpdatingState
  | .service a =>
    if ofOthers a then
      (step statements s.sys a).map fun sys => ⟨sys, s.updaters.map (UpdateProgress.settle a sys)⟩
    else none
  | .check i u =>
    match s.updaters[i]? with
    | some .idle =>
      if ∀ x ∈ u.saved, x.checkpointThread = some u.threadId then
        match refuseUpdate u s.sys.db with
        | some _ => some s
        | none => some { s with updaters := s.updaters.set i (.opened u 0) }
      else none
    | _ => none
  | .save i n =>
    match s.updaters[i]? with
    | some (.opened u k) =>
      -- the queue commits what `bulk` saves; the transaction of `post` is still open
      let rows := if u.bulk then (u.saved.drop k).take n else []
      some {
        sys := { s.sys with db := applyAll s.sys.db (rows.map Write.put) }
        updaters := s.updaters.set i (.opened u (k + n)) }
    | _ => none
  | .report i txn =>
    match s.updaters[i]? with
    | some (.opened u k) =>
      if u.saved.length ≤ k then
        let checkpoint := reader.stateAt (u.sees s.sys.db) u.threadId u.checkpointId
        (step statements s.sys (.begin txn (.setThreadStatus (u.setStatus checkpoint) u.now))).map
          fun sys => ⟨sys, s.updaters.set i (.reporting u txn)⟩
      else none
    | _ => none
  | .finish i =>
    match s.updaters[i]? with
    | some (.reported u) => some {
        sys := { s.sys with db := u.sees s.sys.db }
        updaters := s.updaters.set i .idle }
    | _ => none
  | .fail i =>
    match s.updaters[i]? with
    | some (.opened _ _) | some (.reported _) => some { s with updaters := s.updaters.set i .idle }
    | _ => none

/-- The updates and the calls on runs, on any database. -/
def updating (reader : StateReader) : Machine UpdatingState UpdatingAction where
  init s := s.sys.txns = Table.empty ∧ ∃ n, s.updaters = List.replicate n .idle
  step := updatingStep reader

/-! ### Meeting runs in flight -/

/-- No rows of an update and no status of a thread are committed while the thread has a
run in flight. -/
def Respects (s : UpdatingState) : UpdatingAction → Prop
  | .service (.commit i) =>
    ∀ t ∈ s.sys.txns, t.id = i → t.rpc.onRuns = false →
      ∀ th ∈ (t.writes statements).filterMap Write.thread?, hasInflight s.sys.db th.threadId = false
  | .save i _ =>
    match s.updaters[i]? with
    | some (.opened u _) => u.bulk = true → hasInflight s.sys.db u.threadId = false
    | _ => True
  | .finish i =>
    match s.updaters[i]? with
    | some (.reported u) => u.bulk = false → hasInflight s.sys.db u.threadId = false
    | _ => True
  | _ => True

instance (s : UpdatingState) : DecidablePred (Respects s) := fun a => by
  unfold Respects
  split
  · infer_instance
  · split <;> infer_instance
  · split <;> infer_instance
  · infer_instance

/-- The runs that a transaction puts in flight. -/
def putInflight (t : Txn Rpc Database RowKey) : List Run :=
  ((t.writes statements).filterMap Write.run?).filter fun r => r.status.inflight

/-- The calls that claim runs. -/
def Rpc.claims : Rpc → Bool
  | .next .. => true
  | _ => false

/-- No `bulk` begins while its thread has a run in flight, and while an update is open no
creation and no status write puts a run of its thread in flight. -/
def Spaced (s : UpdatingState) : UpdatingAction → Prop
  | .check _ u => u.bulk = true → hasInflight s.sys.db u.threadId = false
  | .service (.commit i) =>
    ∀ t ∈ s.sys.txns, t.id = i → t.rpc.claims = false →
      ∀ r ∈ putInflight t, ∀ u ∈ s.openUpdates, u.threadId ≠ r.threadId
  | _ => True

instance (s : UpdatingState) : DecidablePred (Spaced s) := fun a => by
  unfold Spaced
  split <;> infer_instance

/-! ### What the calls among the updates write -/

/-- These calls write runs and threads. -/
theorem key_of_mem_writes {t : Txn Rpc Database RowKey}
    (hrpc : t.rpc.onRuns = true ∨ ∃ request now, t.rpc = .setThreadStatus request now)
    {w : Write} (hw : w ∈ t.writes statements) :
    (∃ k, RowWrite.key w = .run k) ∨ ∃ k, RowWrite.key w = .thread k := by
  obtain ⟨l, ρ, rest, q, -, hq, hmem⟩ := ReadCommitted.Txn.mem_writes statements hw
  have hq := List.mem_of_getElem? hq
  cases w with
  | put x =>
    rcases put_of_mem hq hmem with ⟨r, rfl⟩ | ⟨th, rfl⟩ | ⟨threadId, newId, filters, now, hcopy, -⟩
    · exact Or.inl ⟨r.runId, rfl⟩
    · exact Or.inr ⟨th.threadId, rfl⟩
    · rw [hcopy] at hrpc
      rcases hrpc with hcall | ⟨_, _, hcall⟩ <;> cases hcall
  | del k =>
    rcases del_of_mem hq hmem with ⟨threadId, filters, hdelete⟩ | ⟨runId, rfl⟩
    · rw [hdelete] at hrpc
      rcases hrpc with hcall | ⟨_, _, hcall⟩ <;> cases hcall
    · exact Or.inl ⟨runId, rfl⟩

/-- Rows of the checkpoint tables of one thread. -/
def OnCheckpoints (rows : List Row) (threadId : Uuid) : Prop :=
  ∀ x ∈ rows, x.checkpointThread = some threadId

theorem key_ne_of_onCheckpoints {rows : List Row} {threadId : Uuid} (h : OnCheckpoints rows threadId)
    (k : Uuid) : RowKey.run k ∉ keys (rows.map Write.put) ∧ RowKey.thread k ∉ keys (rows.map Write.put) := by
  have hkeys : ∀ key ∈ keys (rows.map Write.put), ∃ x ∈ rows, x.key = key := by
    intro key hkey
    simpa [keys] using hkey
  constructor
  · intro hmem
    obtain ⟨x, hx, hkey⟩ := hkeys _ hmem
    exact checkpointThread_run_ne (h x hx) hkey
  · intro hmem
    obtain ⟨x, hx, hkey⟩ := hkeys _ hmem
    exact checkpointThread_thread_ne (h x hx) hkey

theorem run_puts {rows : List Row} {threadId : Uuid} (h : OnCheckpoints rows threadId) (d : Database) :
    (applyAll d (rows.map Write.put)).run = d.run := by
  refine applyAll_run fun w hw k hkey => ?_
  exact (key_ne_of_onCheckpoints h k).1 (List.mem_map.mpr ⟨w, hw, hkey⟩)

/-! ### The invariant -/

/-- What is invariant while steps are spaced: locks work, every call of
`Threads.SetStatus` belongs to an update that waits for it, and no open update has a run in
flight on its thread. -/
structure Quiet (s : UpdatingState) : Prop where
  exclusive : Exclusive statements s.sys
  stable : Stable statements s.sys
  calls : ∀ t ∈ s.sys.txns, t.rpc.onRuns = true ∨ ∃ request now,
    t.rpc = .setThreadStatus request now ∧
      ∃ u, .reporting u t.id ∈ s.updaters ∧ request.threadId = u.threadId
  rows : ∀ u ∈ s.openUpdates, OnCheckpoints u.saved u.threadId
  quiet : ∀ u ∈ s.openUpdates, hasInflight s.sys.db u.threadId = false

theorem Quiet.known {s : UpdatingState} (h : Quiet s) {t : Txn Rpc Database RowKey}
    (ht : t ∈ s.sys.txns) : t.rpc.onRuns = true ∨ ∃ request now, t.rpc = .setThreadStatus request now := by
  rcases h.calls t ht with hrpc | ⟨request, now, hrpc, -⟩
  · exact Or.inl hrpc
  · exact Or.inr ⟨request, now, hrpc⟩

theorem mem_openUpdates {s : UpdatingState} {u : StateUpdate} :
    u ∈ s.openUpdates ↔ ∃ p ∈ s.updaters, p.update? = some u := List.mem_filterMap

theorem mem_openUpdates_of_getElem? {s : UpdatingState} {i : ℕ} {p : UpdateProgress} {u : StateUpdate}
    (hp : s.updaters[i]? = some p) (hu : p.update? = some u) : u ∈ s.openUpdates :=
  mem_openUpdates.mpr ⟨p, List.mem_of_getElem? hp, hu⟩

theorem mem_openUpdates_set {s : UpdatingState} {i : ℕ} {p : UpdateProgress} {sys : ServiceState}
    {u : StateUpdate} (h : u ∈ UpdatingState.openUpdates ⟨sys, s.updaters.set i p⟩) :
    u ∈ s.openUpdates ∨ p.update? = some u := by
  obtain ⟨q, hq, hu⟩ := mem_openUpdates.mp h
  rcases List.mem_or_eq_of_mem_set hq with hq | rfl
  · exact Or.inl (mem_openUpdates.mpr ⟨q, hq, hu⟩)
  · exact Or.inr hu

theorem mem_openUpdates_settle {s : UpdatingState} {a : Action Rpc} {sys : ServiceState}
    {u : StateUpdate}
    (h : u ∈ UpdatingState.openUpdates ⟨sys, s.updaters.map (UpdateProgress.settle a sys)⟩) :
    u ∈ s.openUpdates := by
  obtain ⟨q, hq, hu⟩ := mem_openUpdates.mp h
  obtain ⟨p, hp, rfl⟩ := List.mem_map.mp hq
  refine mem_openUpdates.mpr ⟨p, hp, ?_⟩
  cases p with
  | reporting v txn =>
    simp only [UpdateProgress.settle] at hu
    split at hu
    · exact hu
    · split at hu
      · split at hu
        · exact hu
        · cases hu
      · cases hu
  | _ => exact hu

theorem mem_set_of_getElem?_ne {α : Type*} {l : List α} {i : ℕ} {a b c : α} (ha : l[i]? = some a)
    (hb : b ∈ l) (hne : b ≠ a) : b ∈ l.set i c := by
  obtain ⟨j, hj⟩ := List.mem_iff_getElem?.mp hb
  have hij : i ≠ j := by
    rintro rfl
    exact hne (Option.some.inj (hj.symm.trans ha))
  exact List.mem_of_getElem? ((List.getElem?_set_ne hij).trans hj)

theorem reporting_settle {s : UpdatingState} {a : Action Rpc} {sys : ServiceState} {u : StateUpdate}
    {txn : ℕ} (h : .reporting u txn ∈ s.updaters) (htxn : (sys.txns.get? txn).isSome = true) :
    .reporting u txn ∈ s.updaters.map (UpdateProgress.settle a sys) :=
  List.mem_map.mpr ⟨_, h, by simp [UpdateProgress.settle, htxn]⟩

/-- Rows that the updates save are not locked. -/
theorem Quiet.stable_puts {s : UpdatingState} (h : Quiet s) {rows : List Row} {threadId : Uuid}
    (hrows : OnCheckpoints rows threadId) :
    Stable statements { s.sys with db := applyAll s.sys.db (rows.map Write.put) } := by
  intro t ht l ρ r hdone k hk
  have hmem : k ∈ keys (t.writes statements) := by
    have hpre := writesOf_append_prefix (statements t.rpc) (l ++ [ρ]) r ([] : List Write)
    rw [List.append_assoc, List.singleton_append, ← hdone] at hpre
    exact (hpre.map RowWrite.key).subset hk
  obtain ⟨w, hw, rfl⟩ := List.mem_map.mp hmem
  rw [h.stable t ht l ρ r hdone _ hk]
  refine (row_applyAll_of_not_mem ?_ s.sys.db).symm
  rcases key_of_mem_writes (h.known ht) hw with ⟨k, hkey⟩ | ⟨k, hkey⟩ <;> rw [hkey]
  · exact (key_ne_of_onCheckpoints hrows k).1
  · exact (key_ne_of_onCheckpoints hrows k).2

/-- A commit puts a run of the thread in flight only where a creation or a status write
does: a claimed run was in flight before. -/
theorem Quiet.commit {s : UpdatingState} (h : Quiet s) {t : Txn Rpc Database RowKey}
    (ht : t ∈ s.sys.txns) {threadId : Uuid} (hquiet : hasInflight s.sys.db threadId = false)
    (hspaced : t.rpc.claims = false → ∀ r ∈ putInflight t, threadId ≠ r.threadId) :
    hasInflight (applyAll s.sys.db (t.writes statements)) threadId = false := by
  rw [Bool.eq_false_iff]
  intro hflight
  obtain ⟨r, hr, hid, hfl⟩ := hasInflight_iff.mp hflight
  rcases run_of_applyAll hr with hput | ⟨-, hold⟩
  · have hmem : r ∈ putInflight t := List.mem_filter.mpr ⟨mem_filterMap_run?.mpr hput, hfl⟩
    obtain ⟨ρ, rest, -, hwrite, hcur⟩ := Txn.runWrite_of_stable h.stable ht hput
    generalize hrpc : t.rpc = rpc at hwrite hspaced
    cases hwrite with
    | @next limit now tie _ _ _ r' r₀ hclaimed hr₀ hid₀ =>
      obtain ⟨-, -, -, r₁, hr₁, hid₁, hdue⟩ := mem_claimable.mp (mem_claimed.mp hclaimed).1
      obtain rfl : r₁ = r₀ := Table.eq_of_key hr₁ hr₀ (hid₁.trans hid₀.symm)
      have hpending : r₁.status = .pending := by
        rw [due, Bool.and_eq_true, decide_eq_true_iff] at hdue
        exact hdue.1
      have hbefore : hasInflight s.sys.db threadId = true :=
        hasInflight_iff.mpr ⟨r₁, (hcur r₁ rfl).mp hr₀, hid, by rw [hpending]; rfl⟩
      rw [hbefore] at hquiet
      cases hquiet
    | createRun => exact hspaced rfl r hmem hid.symm
    | setRunStatus => exact hspaced rfl _ hmem hid.symm
    | cancelRuns => exact hspaced rfl _ hmem hid.symm
    | setJointStatus => exact hspaced rfl _ hmem hid.symm
  · rw [hasInflight_iff.mpr ⟨r, hold, hid, hfl⟩] at hquiet
    cases hquiet

/-! ### Every step keeps the invariant -/

variable {reader : StateReader} {s s' : UpdatingState}

/-- A step of the services that begins nothing and commits nothing. -/
theorem Quiet.of_services (h : Quiet s) {a : Action Rpc} {sys : ServiceState}
    (hstep : Step statements s.sys a sys)
    (hcalls : ∀ t ∈ sys.txns, t.rpc.onRuns = true ∨ ∃ t₀ ∈ s.sys.txns, t₀.id = t.id ∧ t₀.rpc = t.rpc)
    (hquiet : ∀ u ∈ s.openUpdates, hasInflight sys.db u.threadId = false) :
    Quiet ⟨sys, s.updaters.map (UpdateProgress.settle a sys)⟩ where
  exclusive := h.exclusive.step hstep
  stable := h.stable.step h.exclusive hstep
  calls t ht := by
    rcases hcalls t ht with hrpc | ⟨t₀, ht₀, hid, hrpc⟩
    · exact Or.inl hrpc
    · rw [← hrpc]
      rcases h.calls t₀ ht₀ with hon | ⟨request, now, hcall, u, hmem, hthread⟩
      · exact Or.inl hon
      · refine Or.inr ⟨request, now, hcall, u, ?_, hthread⟩
        rw [hid] at hmem
        exact reporting_settle hmem (Option.isSome_iff_exists.mpr ⟨t, Table.get?_eq_some.mpr ⟨ht, rfl⟩⟩)
  rows u hu := h.rows u (mem_openUpdates_settle hu)
  quiet u hu := hquiet u (mem_openUpdates_settle hu)

theorem Quiet.service (h : Quiet s) {a : Action Rpc} (hothers : ofOthers a = true)
    (hspaced : Spaced s (.service a)) {sys : ServiceState} (hs : step statements s.sys a = some sys) :
    Quiet ⟨sys, s.updaters.map (UpdateProgress.settle a sys)⟩ := by
  have hstep := step_sound statements hs
  have hcases := hstep
  cases hcases with
  | begin hi =>
    refine h.of_services hstep (fun t ht => ?_) h.quiet
    rcases Table.mem_put.mp ht with rfl | ⟨ht, -⟩
    · exact Or.inl hothers
    · exact Or.inr ⟨t, ht, rfl, rfl⟩
  | snapshot ht₀ hn =>
    refine h.of_services hstep (fun t ht => ?_) h.quiet
    rcases Table.mem_put.mp ht with rfl | ⟨ht, -⟩
    · exact Or.inr ⟨_, ht₀, rfl, rfl⟩
    · exact Or.inr ⟨t, ht, rfl, rfl⟩
  | exec ht₀ hσ hq hws hfree =>
    refine h.of_services hstep (fun t ht => ?_) h.quiet
    rcases Table.mem_put.mp ht with rfl | ⟨ht, -⟩
    · exact Or.inr ⟨_, ht₀, rfl, rfl⟩
    · exact Or.inr ⟨t, ht, rfl, rfl⟩
  | fail ht₀ =>
    exact h.of_services hstep (fun t ht => Or.inr ⟨t, (Table.mem_erase.mp ht).1, rfl, rfl⟩) h.quiet
  | @commit t₀ ht₀ hc =>
    refine h.of_services hstep (fun t ht => Or.inr ⟨t, (Table.mem_erase.mp ht).1, rfl, rfl⟩) ?_
    intro u hu
    exact h.commit ht₀ (h.quiet u hu) fun hnext r hr => hspaced t₀ ht₀ rfl hnext r hr u hu
  | abort =>
    exact h.of_services hstep (fun t ht => Or.inr ⟨t, (Table.mem_erase.mp ht).1, rfl, rfl⟩) h.quiet

/-- A step of an updater that commits rows of checkpoints or nothing. -/
theorem Quiet.of_puts (h : Quiet s) {i : ℕ} {p p' : UpdateProgress} (hp : s.updaters[i]? = some p)
    (hwaits : ∀ u txn, p ≠ .reporting u txn) {rows : List Row} {threadId : Uuid}
    (hrows : OnCheckpoints rows threadId)
    (hopen : ∀ u, p'.update? = some u → OnCheckpoints u.saved u.threadId ∧
      hasInflight s.sys.db u.threadId = false) :
    Quiet ⟨{ s.sys with db := applyAll s.sys.db (rows.map Write.put) }, s.updaters.set i p'⟩ where
  exclusive := h.exclusive
  stable := h.stable_puts hrows
  calls t ht := by
    rcases h.calls t ht with hrpc | ⟨request, now, hcall, u, hmem, hthread⟩
    · exact Or.inl hrpc
    · exact Or.inr ⟨request, now, hcall, u, mem_set_of_getElem?_ne hp hmem (Ne.symm (hwaits u t.id)),
        hthread⟩
  rows u hu := by
    rcases mem_openUpdates_set hu with hu | hu
    · exact h.rows u hu
    · exact (hopen u hu).1
  quiet u hu := by
    have hold : hasInflight s.sys.db u.threadId = false := by
      rcases mem_openUpdates_set hu with hu | hu
      · exact h.quiet u hu
      · exact (hopen u hu).2
    rw [hasInflight, run_puts hrows]
    exact hold

/-- **Every spaced step keeps the invariant.** -/
theorem Quiet.step {a : UpdatingAction} (h : Quiet s) (hspaced : Spaced s a)
    (hs : updatingStep reader s a = some s') : Quiet s' := by
  have hnone : ∀ threadId, OnCheckpoints [] threadId := fun _ _ hx => absurd hx List.not_mem_nil
  cases a with
  | service a =>
    simp only [updatingStep] at hs
    split at hs
    · next hothers =>
      obtain ⟨sys, hsys, rfl⟩ := Option.map_eq_some_iff.mp hs
      exact h.service hothers hspaced hsys
    · cases hs
  | check i u =>
    simp only [updatingStep] at hs
    split at hs
    · next hp =>
      split at hs
      · next hrows =>
        split at hs
        · cases hs
          exact h
        · next hrefuse =>
          cases hs
          refine h.of_puts hp nofun (hnone u.threadId) fun v hv => ?_
          obtain rfl : u = v := Option.some.inj hv
          refine ⟨hrows, ?_⟩
          cases hbulk : u.bulk with
          | true => exact hspaced hbulk
          | false => exact refuseUpdate_eq_none hrefuse hbulk
      · cases hs
    · cases hs
  | save i n =>
    simp only [updatingStep] at hs
    split at hs
    · next u k hp =>
      cases hs
      have hu := mem_openUpdates_of_getElem? hp rfl
      have hrows : OnCheckpoints (if u.bulk then (u.saved.drop k).take n else []) u.threadId := by
        intro x hx
        split at hx
        · exact h.rows u hu x (List.mem_of_mem_drop (List.mem_of_mem_take hx))
        · exact absurd hx List.not_mem_nil
      refine h.of_puts hp nofun hrows fun v hv => ?_
      obtain rfl : u = v := Option.some.inj hv
      exact ⟨h.rows u hu, h.quiet u hu⟩
    · cases hs
  | report i txn =>
    simp only [updatingStep] at hs
    split at hs
    · next u k hp =>
      split at hs
      · obtain ⟨sys, hsys, rfl⟩ := Option.map_eq_some_iff.mp hs
        have hu := mem_openUpdates_of_getElem? hp rfl
        have hset : Quiet ⟨s.sys, s.updaters.set i (.reporting u txn)⟩ := by
          refine h.of_puts hp nofun (hnone u.threadId) fun v hv => ?_
          obtain rfl : u = v := Option.some.inj hv
          exact ⟨h.rows u hu, h.quiet u hu⟩
        have hstep := step_sound statements hsys
        have hcases := hstep
        cases hcases with
        | begin hi =>
          refine ⟨hset.exclusive.step hstep, hset.stable.step hset.exclusive hstep, fun t ht => ?_,
            hset.rows, hset.quiet⟩
          rcases Table.mem_put.mp ht with rfl | ⟨ht, -⟩
          · obtain ⟨hlt, -⟩ := List.getElem?_eq_some_iff.mp hp
            exact Or.inr ⟨_, _, rfl, u, List.mem_of_getElem? (List.getElem?_set_self hlt), rfl⟩
          · exact hset.calls t ht
      · cases hs
    · cases hs
  | finish i =>
    simp only [updatingStep] at hs
    split at hs
    · next u hp =>
      cases hs
      have hu := mem_openUpdates_of_getElem? hp rfl
      have hdb : u.sees s.sys.db =
          applyAll s.sys.db ((if u.bulk then [] else u.saved).map Write.put) := by
        unfold StateUpdate.sees
        split <;> rfl
      have hrows : OnCheckpoints (if u.bulk then [] else u.saved) u.threadId := by
        intro x hx
        split at hx
        · exact absurd hx List.not_mem_nil
        · exact h.rows u hu x hx
      rw [hdb]
      exact h.of_puts hp nofun hrows nofun
    · cases hs
  | fail i =>
    simp only [updatingStep] at hs
    split at hs
    · next u k hp =>
      cases hs
      exact h.of_puts hp nofun (hnone u.threadId) nofun
    · next u hp =>
      cases hs
      exact h.of_puts hp nofun (hnone u.threadId) nofun
    · cases hs

/-- **While an update is open its thread has no run in flight.** -/
theorem quiet_of_reachable (h : (updating reader).Reachable Spaced s) : Quiet s := by
  refine h.invariant (fun s hs => ?_) fun s a s' _ hI hOk hs => hI.step hOk hs
  obtain ⟨htxns, n, hupdaters⟩ := hs
  have hopen : ∀ u, u ∉ s.openUpdates := by
    intro u hu
    obtain ⟨p, hp, hsome⟩ := mem_openUpdates.mp hu
    rw [hupdaters] at hp
    rw [List.eq_of_mem_replicate hp] at hsome
    cases hsome
  have hnone : ∀ t, t ∉ s.sys.txns := fun t => htxns ▸ Table.not_mem_empty t
  exact ⟨fun t ht => absurd ht (hnone t), fun t ht => absurd ht (hnone t),
    fun t ht => absurd ht (hnone t), fun u hu => absurd hu (hopen u), fun u hu => absurd hu (hopen u)⟩

/-! ### The main result -/

/-- The status that an update writes is that of its thread. -/
theorem Quiet.status_commit (h : Quiet s) {t : Txn Rpc Database RowKey} (ht : t ∈ s.sys.txns)
    (hc : t.complete statements = true) (hrpc : t.rpc.onRuns = false) {th : Thread}
    (hth : .put (.thread th) ∈ t.writes statements) : hasInflight s.sys.db th.threadId = false := by
  rcases h.calls t ht with hon | ⟨request, now, hcall, u, hmem, hthread⟩
  · rw [hon] at hrpc
    cases hrpc
  · obtain ⟨l, ρ, -, hwrite⟩ := Txn.threadWrite hc (by rw [hcall]; rfl) hth
    rw [hcall] at hwrite
    cases hwrite with
    | @setThreadStatus request now _ _ _ t₀ ht₀ hid =>
      rw [show (statusThread request now _ t₀).threadId = u.threadId from hid.trans hthread]
      exact h.quiet u (mem_openUpdates.mpr ⟨_, hmem, rfl⟩)

/-- **In a run of spaced steps no update meets a run in flight**: neither the rows that an
update saves nor the status that it writes is committed while the thread has a run pending
or running.  An update that is refused changes nothing. -/
theorem respects_of_spaced (h : (updating reader).Reachable Spaced s) {a : UpdatingAction}
    (hs : updatingStep reader s a = some s') :
    Respects s a ∧ ∀ i u, a = .check i u → (refuseUpdate u s.sys.db).isSome = true → s' = s := by
  have hquiet := quiet_of_reachable h
  constructor
  · unfold Respects
    split
    · intro t ht hid hrpc th hth
      simp only [updatingStep] at hs
      split at hs
      · obtain ⟨sys, hsys, -⟩ := Option.map_eq_some_iff.mp hs
        simp only [step, Option.bind_eq_some_iff] at hsys
        obtain ⟨t₁, hget, hsys⟩ := hsys
        obtain rfl := Option.some.inj (hget.symm.trans (Table.get?_eq_some.mpr ⟨ht, hid⟩))
        split at hsys
        · next hc => exact hquiet.status_commit ht hc hrpc (mem_filterMap_thread?.mp hth)
        · cases hsys
      · cases hs
    · split
      · next u k hp => exact fun _ => hquiet.quiet u (mem_openUpdates_of_getElem? hp rfl)
      · trivial
    · split
      · next u hp => exact fun _ => hquiet.quiet u (mem_openUpdates_of_getElem? hp rfl)
      · trivial
    · trivial
  · rintro i u rfl hrefused
    obtain ⟨e, he⟩ := Option.isSome_iff_exists.mp hrefused
    simp only [updatingStep, he] at hs
    split at hs
    · split at hs
      · exact (Option.some.inj hs).symm
      · cases hs
    · cases hs

/-! ### An update that meets a run -/

/-- A thread with a graph, and the services and one updater on it. -/
def oneUpdater : UpdatingState where
  sys := ⟨{ oneThread with
    thread := Table.empty.put { threadId := 10, metadata := .obj [("graph_id", .str "agent")] } }, .empty⟩
  updaters := [.idle]

theorem init_oneUpdater : (updating emptyReader).init oneUpdater := ⟨rfl, 1, rfl⟩

/-- An update of the thread that saves one checkpoint. -/
def oneUpdate (bulk : Bool) : StateUpdate where
  threadId := 10
  saved := [.checkpoint { threadId := 10, checkpointId := 1, checkpoint := .obj [] }]
  bulk := bulk
  now := 3

/-- Its steps up to the end of `Threads.SetStatus`. -/
def upToStatus (bulk : Bool) : List UpdatingAction :=
  [.check 0 (oneUpdate bulk), .save 0 1, .report 0 7, .service (.snapshot 7), .service (.exec 7),
    .service (.commit 7)]

/-- The creation of a run in the services. -/
def creation : List UpdatingAction := (atOnce (enqueue 100)).map .service

/-- An update that ends before a run is created. -/
theorem respects_oneUpdate :
    ∃ s s', (updating emptyReader).Reachable Spaced s ∧
      updatingStep emptyReader s (.finish 0) = some s' ∧ Respects s (.finish 0) := by
  obtain ⟨s, hs, hp⟩ := (updating emptyReader).exists_reachable Spaced init_oneUpdater (upToStatus false)
    (fun s => (updatingStep emptyReader s (.finish 0)).isSome) (by decide +kernel)
  obtain ⟨s', hs'⟩ := Option.isSome_iff_exists.mp hp
  exact ⟨s, s', hs, hs', (respects_of_spaced hs hs').1⟩

/-- A run is created between the status write and the commit of `Threads.State.post`, and
`Threads.State.bulk` saves its rows while a run is pending. -/
theorem not_respects :
    (∃ s s', (updating emptyReader).Reachable Machine.free s ∧
        updatingStep emptyReader s (.finish 0) = some s' ∧ ¬ Respects s (.finish 0)) ∧
      ∃ s s', (updating emptyReader).Reachable Machine.free s ∧
        updatingStep emptyReader s (.save 0 1) = some s' ∧ ¬ Respects s (.save 0 1) := by
  constructor
  · obtain ⟨s, hs, hp⟩ := (updating emptyReader).exists_reachable Machine.free init_oneUpdater
      (upToStatus false ++ creation)
      (fun s => (updatingStep emptyReader s (.finish 0)).isSome && !decide (Respects s (.finish 0)))
      (by decide +kernel)
    obtain ⟨hstep, hmeets⟩ := Bool.and_eq_true_iff.mp hp
    obtain ⟨s', hs'⟩ := Option.isSome_iff_exists.mp hstep
    exact ⟨s, s', hs, hs', by simpa using hmeets⟩
  · obtain ⟨s, hs, hp⟩ := (updating emptyReader).exists_reachable Machine.free init_oneUpdater
      (creation ++ [.check 0 (oneUpdate true)])
      (fun s => (updatingStep emptyReader s (.save 0 1)).isSome && !decide (Respects s (.save 0 1)))
      (by decide +kernel)
    obtain ⟨hstep, hmeets⟩ := Bool.and_eq_true_iff.mp hp
    obtain ⟨s', hs'⟩ := Option.isSome_iff_exists.mp hstep
    exact ⟨s, s', hs, hs', by simpa using hmeets⟩

end NextRole
