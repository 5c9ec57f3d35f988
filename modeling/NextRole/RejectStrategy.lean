import NextRole.Effects

/-!
# What the `reject` strategy keeps out

A creation with `prevent_insert_if_inflight` inserts its run unless its snapshot
shows a pending run of the thread.  It does not look at running runs, and nothing
keeps other transactions from bringing runs in flight between its snapshot and its
commit.  Those two are the only ways in which its run comes next to another one.

## Main definitions

* `NoOtherInflight` — no other run of the thread is in flight.
* `StillRunning`, and `EnteredFlight` from the Threads service — the two ways in
  which one is.

## Main results

* `noOtherInflight_iff` — **at its commit, a run created with `reject` is the only
  one in flight exactly when neither of the two has happened**.
* `not_noOtherInflight` — two concurrent creations both insert.
-/

namespace NextRole

open ReadCommitted

/-- No run of the creation's thread other than its own is pending or running. -/
def NoOtherInflight (p : CreateParams) (d : Database) : Prop :=
  ∀ r ∈ d.run, r.threadId = p.threadId → r.runId ≠ p.runId → r.status.inflight = false

instance (p : CreateParams) (d : Database) : Decidable (NoOtherInflight p d) := by
  unfold NoOtherInflight
  infer_instance

/-- A run of the thread that was running in the snapshot is still in flight. -/
def StillRunning (threadId : Uuid) (snap d : Database) : Prop :=
  ∃ r ∈ d.run, r.threadId = threadId ∧ r.status.inflight = true ∧
    ∃ r₀ ∈ snap.run, r₀.runId = r.runId ∧ r₀.threadId = threadId ∧ r₀.status = .running

/-- The run that a creation inserts, if its statement has finished and inserts one. -/
def createdRun (t : Txn Rpc Database RowKey) : Option Run :=
  (t.writes statements).findSome? Write.run?

theorem mem_writes_of_createdRun {t : Txn Rpc Database RowKey} {r : Run}
    (h : createdRun t = some r) : .put (.run r) ∈ t.writes statements := by
  obtain ⟨w, hw, heq⟩ := List.exists_of_findSome?_eq_some h
  rw [Write.run?_eq_some.mp heq] at hw
  exact hw

/-- The writes of a creation come from its one statement. -/
theorem insertedRun_of_mem_writes {t : Txn Rpc Database RowKey} {request : CreateRunRequest}
    {env : CreateEnv} (hrpc : t.rpc = .createRun request env) {ρ : Reading Database RowKey}
    {rest : List (Reading Database RowKey)} (hdone : t.done = ρ :: rest) {r : Run}
    (hr : .put (.run r) ∈ t.writes statements) :
    r ∈ insertedRun (createParams request env) ρ.snap ρ.cur := by
  have hq : statements t.rpc = [createRun (createParams request env)] := by
    rw [hrpc]
    rfl
  rw [Txn.writes_single statements hq hdone] at hr
  rcases mem_createRun hr with ⟨t', -, heq⟩ | ⟨r', hr', heq⟩ | ⟨t', -, heq⟩
  · cases heq
  · cases heq
    exact hr'
  · cases heq

theorem not_mem_of_insertedRun {init : Database → Prop}
    {Ok : ServiceState → Action Rpc → Prop} {s : ServiceState}
    (h : (services init).Reachable Ok s) {t : Txn Rpc Database RowKey} (ht : t ∈ s.txns)
    {request : CreateRunRequest} {env : CreateEnv} (hrpc : t.rpc = .createRun request env)
    {ρ : Reading Database RowKey} {rest : List (Reading Database RowKey)}
    (hdone : t.done = ρ :: rest) {r : Run} (hr : .put (.run r) ∈ t.writes statements) {r' : Run}
    (hr' : r' ∈ s.db.run) : r'.runId ≠ (createParams request env).runId := by
  have hnew := Txn.createdRun_new h ht hrpc hr hr'
  rwa [runId_of_mem_insertedRun (insertedRun_of_mem_writes hrpc hdone hr)] at hnew

/-- **What `reject` guarantees**: in every reachable state in which the statement of a
creation with `prevent_insert_if_inflight` has inserted a run, no other run of the
thread is in flight iff no run that was running in the statement's snapshot still is
and no run has come in flight since. -/
theorem noOtherInflight_iff {init : Database → Prop} {s : ServiceState}
    (h : (services init).Reachable Machine.free s) {t : Txn Rpc Database RowKey} (ht : t ∈ s.txns)
    {request : CreateRunRequest} {env : CreateEnv} (hrpc : t.rpc = .createRun request env)
    (hprevent : request.preventInsertIfInflight = true) {ρ : Reading Database RowKey}
    {rest : List (Reading Database RowKey)} (hdone : t.done = ρ :: rest)
    (hins : (createdRun t).isSome = true) :
    NoOtherInflight (createParams request env) s.db ↔
      ¬ StillRunning (createParams request env).threadId ρ.snap s.db ∧
        ¬ EnteredFlight (createParams request env).threadId ρ.snap s.db := by
  obtain ⟨r, hcreated⟩ := Option.isSome_iff_exists.mp hins
  have hr := mem_writes_of_createdRun hcreated
  have hother : ∀ r' ∈ s.db.run, r'.runId ≠ (createParams request env).runId :=
    fun r' hr' => not_mem_of_insertedRun h ht hrpc hdone hr hr'
  constructor
  · intro hno
    constructor
    · rintro ⟨r', hr', htid, hfl, -⟩
      rw [hno r' hr' htid (hother r' hr')] at hfl
      cases hfl
    · rintro ⟨r', hr', htid, hfl, -⟩
      rw [hno r' hr' htid (hother r' hr')] at hfl
      cases hfl
  · rintro ⟨hrunning, hentered⟩ r' hr' htid -
    by_contra hfl
    rw [Bool.not_eq_false] at hfl
    have hnone : inflightRuns (createParams request env) ρ.snap = [] :=
      (mem_insertedRun.mp (insertedRun_of_mem_writes hrpc hdone hr)).1 hprevent
    refine hentered ⟨r', hr', htid, hfl, fun r₀ hr₀ hid htid₀ => ?_⟩
    -- a run of the snapshot is not pending, as the run was inserted, nor running
    cases hst : r₀.status with
    | pending =>
      have hmem := mem_inflightRuns.mpr ⟨hr₀, htid₀, hst⟩
      rw [hnone] at hmem
      exact absurd hmem List.not_mem_nil
    | running => exact absurd ⟨r', hr', htid, hfl, r₀, hr₀, hid, htid₀, hst⟩ hrunning
    | _ => rfl

/-! ### Two creations at once -/

/-- The creation of run `runId` on the thread of `oneThread` with the strategy `reject`. -/
def rejecting (runId : Uuid) : Rpc :=
  .createRun {
    assistantId := 1, runId := some runId, threadId := some 10, status := some .pending,
    multitaskStrategy := some .reject, preventInsertIfInflight := true } ⟨0, 0, 0⟩

/-- Whether a transaction is a creation with `reject` that has inserted its run, of
which `check` holds. -/
def insertsWithReject (check : CreateParams → Bool) (t : Txn Rpc Database RowKey) : Bool :=
  match t.rpc with
  | .createRun request env =>
    request.preventInsertIfInflight && !t.done.isEmpty && (createdRun t).isSome &&
      check (createParams request env)
  | _ => false

theorem insertsWithReject_iff {check : CreateParams → Bool} {t : Txn Rpc Database RowKey}
    (h : insertsWithReject check t = true) : ∃ request env ρ rest,
      t.rpc = .createRun request env ∧ request.preventInsertIfInflight = true ∧
        t.done = ρ :: rest ∧ (createdRun t).isSome = true ∧
          check (createParams request env) = true := by
  unfold insertsWithReject at h
  split at h
  · next request env hrpc =>
    simp only [Bool.and_eq_true, Bool.not_eq_true', List.isEmpty_eq_false_iff] at h
    obtain ⟨⟨⟨hprevent, hdone⟩, hins⟩, hcheck⟩ := h
    obtain ⟨ρ, rest, hdone⟩ := List.exists_cons_of_ne_nil hdone
    exact ⟨request, env, ρ, rest, hrpc, hprevent, hdone, hins, hcheck⟩
  · cases h

theorem noOtherInflight_iff_witness :
    ∃ s, (services fun _ => True).Reachable Machine.free s ∧ ∃ t ∈ s.txns, ∃ request env ρ rest,
      t.rpc = .createRun request env ∧ t.done = ρ :: rest ∧
        (NoOtherInflight (createParams request env) s.db ↔
          ¬ StillRunning (createParams request env).threadId ρ.snap s.db ∧
            ¬ EnteredFlight (createParams request env).threadId ρ.snap s.db) := by
  obtain ⟨s, hs, hp⟩ := (services fun _ => True).exists_reachable Machine.free
    (show (services fun _ => True).init ⟨oneThread, .empty⟩ from ⟨trivial, rfl⟩)
    [.begin 0 (rejecting 100), .snapshot 0, .exec 0]
    (fun s => s.txns.rows.any (insertsWithReject fun _ => true)) (by decide +kernel)
  obtain ⟨t, ht, hins⟩ := List.any_eq_true.mp hp
  obtain ⟨request, env, ρ, rest, hrpc, hprevent, hdone, hins, -⟩ := insertsWithReject_iff hins
  exact ⟨s, hs, t, ht, request, env, ρ, rest, hrpc, hdone,
    noOtherInflight_iff hs ht hrpc hprevent hdone hins⟩

/-- Two creations with `reject` take their snapshots before either commits, and both
insert. -/
theorem not_noOtherInflight :
    ¬ ∀ s, (services fun _ => True).Reachable Machine.free s → ∀ t ∈ s.txns, ∀ request env,
      t.rpc = .createRun request env → request.preventInsertIfInflight = true →
        (createdRun t).isSome = true → NoOtherInflight (createParams request env) s.db := by
  intro h
  obtain ⟨s, hs, hp⟩ := (services fun _ => True).exists_reachable Machine.free
    (show (services fun _ => True).init ⟨oneThread, .empty⟩ from ⟨trivial, rfl⟩)
    [.begin 0 (rejecting 100), .begin 1 (rejecting 101), .snapshot 0, .snapshot 1, .exec 0,
      .commit 0, .exec 1]
    (fun s => s.txns.rows.any (insertsWithReject fun p => ¬ NoOtherInflight p s.db))
    (by decide +kernel)
  obtain ⟨t, ht, hins⟩ := List.any_eq_true.mp hp
  obtain ⟨request, env, ρ, rest, hrpc, hprevent, -, hins, hother⟩ := insertsWithReject_iff hins
  exact of_decide_eq_true hother (h s hs t ht request env hrpc hprevent hins)

end NextRole
