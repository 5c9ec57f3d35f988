import NextRole.Effects
import NextRole.Api.Worker

/-!
# Claims are exclusive and in order

A claim locks the rows that it sets running, so a run that starts is in the response of
the one call of `Runs.Next` whose transaction commits just then.  Among the runs that it
may lock, a claim takes the first ones.

## Main definitions

* `StatusesNotRunning` — the guard: status writes never write `running`.
* `Starts` — a run starts.
* `ClaimReply` — a response is bounded, in the past, and in order.

## Main results

* `starts_iff` — **a run starts exactly when a claim that returns it commits**.
* `claimReply_inOrder` — every response is a `ClaimReply`.
* `claims_exclusive` — both, of every step.
-/

namespace NextRole

open ReadCommitted

/-- The calls whose status writes do not write `running`. -/
def Rpc.notRunning : Rpc → Bool
  | .setRunStatus _ status _ => status ≠ .running
  | .setJointStatus request _ => request.runStatus ≠ .running
  | _ => true

/-- The guard that only such calls are made. -/
def StatusesNotRunning (_ : ServiceState) : Action Rpc → Prop
  | .begin _ rpc => rpc.notRunning = true
  | _ => True

instance (s : ServiceState) : DecidablePred (StatusesNotRunning s)
  | .begin _ rpc => inferInstanceAs (Decidable (rpc.notRunning = true))
  | .snapshot _ | .exec _ | .commit _ | .abort _ => inferInstanceAs (Decidable True)

/-- A run is pending in one database and running in the next. -/
def Starts (runId : Uuid) (d d' : Database) : Prop :=
  (∃ r ∈ d.run, r.runId = runId ∧ r.status = .pending) ∧
    ∃ r ∈ d'.run, r.runId = runId ∧ r.status = .running

/-! ### The response of a claim -/

section

variable {limit : ℕ} {now : Timestamp} {tie : Uuid → ℕ} {snap : Database} {held : List RowKey}
  {cur : Database}

theorem map_runId_claimResponse :
    (claimResponse limit now tie snap held cur).map Run.runId =
      (claimed limit now tie snap held cur).map Run.runId := by
  have hsome : ∀ r ∈ claimed limit now tie snap held cur,
      (((cur.run.get? r.runId).map (setRunning now)).map Run.runId) = some r.runId := by
    intro r hr
    obtain ⟨-, -, -, r₀, hr₀, hid, -⟩ := mem_claimable.mp (mem_claimed.mp hr).1
    rw [Table.get?_eq_some.mpr ⟨hr₀, hid⟩, Option.map_some, Option.map_some, setRunning_runId, hid]
  rw [claimResponse, List.map_filterMap, List.filterMap_congr hsome, List.filterMap_eq_map']

theorem claimed_subset : claimed limit now tie snap held cur ⊆ claimable now snap held cur :=
  fun _ h => (mem_claimed.mp h).1

theorem nodup_runId_claimed : ((claimed limit now tie snap held cur).map Run.runId).Nodup := by
  have hperm := List.perm_insertionSort (claimBefore tie) (claimable now snap held cur)
  have hsub : ((claimable now snap held cur).map Run.runId).Nodup :=
    snap.run.nodup.sublist (((List.filter_sublist.trans List.filter_sublist).trans
      List.filter_sublist).map _)
  exact ((hperm.map _).nodup_iff.mpr hsub).sublist ((List.take_sublist _ _).map _)

theorem length_claimed :
    (claimed limit now tie snap held cur).length =
      min limit (claimable now snap held cur).length := by
  rw [claimed, List.length_take, List.length_insertionSort]

/-- A run that is claimable and not claimed is not older than any that is claimed. -/
theorem claimed_oldest {r r' : Run} (hr : r ∈ claimable now snap held cur)
    (hnot : r ∉ claimed limit now tie snap held cur)
    (hr' : r' ∈ claimed limit now tie snap held cur) : r'.createdAt ≤ r.createdAt := by
  have : Std.Total (claimBefore tie) := ⟨claimBefore_total tie⟩
  have : IsTrans Run (claimBefore tie) := ⟨claimBefore_trans tie⟩
  have hsorted := List.pairwise_insertionSort (claimBefore tie) (claimable now snap held cur)
  have hmem := (List.perm_insertionSort (claimBefore tie) (claimable now snap held cur)).mem_iff.mpr hr
  rw [← List.take_append_drop limit (List.insertionSort (claimBefore tie) _)] at hsorted hmem
  rcases List.mem_append.mp hmem with hmem | hmem
  · exact absurd hmem hnot
  · rcases (List.pairwise_append.mp hsorted).2.2 r' hr' r hmem with hlt | ⟨heq, -⟩
    · exact hlt.le
    · exact heq.le

end

/-- What a response of `Runs.Next` is, from the readings of its statement. -/
structure ClaimReply (limit : ℕ) (now : Timestamp) (ρ : Reading Database RowKey)
    (reply : List Run) : Prop where
  once : (reply.map Run.runId).Nodup
  bounded : reply.length ≤ nextLimit limit
  past : ∀ r ∈ reply, r.createdAt < now
  /-- When no run is locked, they are as many of the claimable runs as the limit allows,
  and no other claimable run is older. -/
  oldest : (∀ k, .run k ∉ ρ.held) →
    reply.length = min (nextLimit limit) (claimable now ρ.snap [] ρ.cur).length ∧
    (∀ k ∈ reply.map Run.runId, ∃ r ∈ claimable now ρ.snap [] ρ.cur, r.runId = k) ∧
    ∀ r ∈ claimable now ρ.snap [] ρ.cur, r.runId ∉ reply.map Run.runId →
      ∀ r' ∈ claimable now ρ.snap [] ρ.cur, r'.runId ∈ reply.map Run.runId →
        r'.createdAt ≤ r.createdAt

theorem claimReply_inOrder (limit : ℕ) (now : Timestamp) (tie : Uuid → ℕ)
    (ρ : Reading Database RowKey) : ClaimReply limit now ρ
      (claimResponse (nextLimit limit) now tie ρ.snap ρ.held ρ.cur) := by
  have hlen : (claimResponse (nextLimit limit) now tie ρ.snap ρ.held ρ.cur).length =
      (claimed (nextLimit limit) now tie ρ.snap ρ.held ρ.cur).length := by
    have h := congrArg List.length (@map_runId_claimResponse (nextLimit limit) now tie ρ.snap ρ.held ρ.cur)
    rwa [List.length_map, List.length_map] at h
  constructor
  · rw [map_runId_claimResponse]
    exact nodup_runId_claimed
  · rw [hlen, length_claimed]
    exact Nat.min_le_left _ _
  · intro r hr
    obtain ⟨r₀, -, hdue, rfl⟩ := mem_claimResponse hr
    simp only [due, Bool.and_eq_true, decide_eq_true_eq] at hdue
    exact hdue.2
  · intro hheld
    -- no run is skipped for its lock
    have hready : claimable now ρ.snap ρ.held ρ.cur = claimable now ρ.snap [] ρ.cur := by
      simp [claimable, hheld]
    rw [hlen, length_claimed, map_runId_claimResponse, ← hready]
    refine ⟨rfl, ?_, ?_⟩
    · intro k hk
      obtain ⟨r, hr, rfl⟩ := List.mem_map.mp hk
      exact ⟨r, claimed_subset hr, rfl⟩
    · intro r hr hnot r' hr' hmem
      obtain ⟨r'', hr'', hid⟩ := List.mem_map.mp hmem
      obtain rfl : r'' = r' :=
        Table.eq_of_key (mem_claimable.mp (claimed_subset hr'')).1 (mem_claimable.mp hr').1 hid
      exact claimed_oldest hr (fun hin => hnot (List.mem_map_of_mem hin)) hr''

/-! ### Which runs start -/

variable {init : Database → Prop} {s s' : ServiceState}

theorem notRunning_of_reachable (hs : (services init).Reachable StatusesNotRunning s) :
    ∀ t ∈ s.txns, t.rpc.notRunning = true :=
  rpc_of_reachable (fun s i rpc (h : StatusesNotRunning s (.begin i rpc)) => h) hs

theorem not_starts_self {runId : Uuid} {d : Database} : ¬ Starts runId d d := by
  rintro ⟨⟨r, hr, hid, hpending⟩, r', hr', hid', hrunning⟩
  obtain rfl := Table.eq_of_key hr hr' (hid.trans hid'.symm)
  rw [hpending] at hrunning
  cases hrunning

/-- A transaction that starts a run is a claim that returns it. -/
theorem mem_claimReply_of_starts (hs : (services init).Reachable StatusesNotRunning s)
    {t : Txn Rpc Database RowKey} (ht : t ∈ s.txns) {runId : Uuid}
    (h : Starts runId s.db (applyAll s.db (t.writes statements))) :
    runId ∈ (claimReply t).map Run.runId := by
  obtain ⟨⟨r₀, hr₀, hid₀, hpending⟩, r, hr, hid, hrunning⟩ := h
  rcases run_of_applyAll hr with hput | ⟨-, hold⟩
  · obtain ⟨ρ, rest, hdone, hwrite, -⟩ := Txn.runWrite_stable hs ht hput
    have hok := notRunning_of_reachable hs t ht
    generalize hrpc : t.rpc = rpc at hwrite hok
    -- only a claim writes `running` over a row that was there
    cases hwrite with
    | createRun hins =>
      exact absurd (hid₀.trans hid.symm) (Txn.createdRun_new hs ht hrpc hput hr₀)
    | next hr' hr₁ hid₁ =>
      rw [claimReply, hrpc, hdone, map_runId_claimResponse]
      exact List.mem_map.mpr ⟨_, hr', hid₁.symm.trans hid⟩
    | setRunStatus hr₁ hid₁ => exact absurd hrunning (of_decide_eq_true hok)
    | cancelRuns hr₁ hid₁ hp => cases hrunning
    | setJointStatus hr₁ hid₁ hne => exact absurd hrunning (of_decide_eq_true hok)
  · exact absurd ⟨⟨r₀, hr₀, hid₀, hpending⟩, r, hold, hid, hrunning⟩ not_starts_self

/-- A run that a claim returns is still pending until the claim commits, which puts
the version that is returned. -/
theorem pending_of_mem_claimReply {Ok : ServiceState → Action Rpc → Prop}
    (hs : (services init).Reachable Ok s) {t : Txn Rpc Database RowKey} (ht : t ∈ s.txns)
    {r : Run} (h : r ∈ claimReply t) : .put (.run r) ∈ t.writes statements ∧
      ∃ r₀ ∈ s.db.run, r₀.status = .pending ∧ ∃ now, r = setRunning now r₀ := by
  unfold claimReply at h
  split at h
  · next limit now tie ρ rest hrpc hdone =>
    have hput : .put (.run r) ∈ t.writes statements := by
      rw [Txn.writes_single statements (q := claim (nextLimit limit) now tie) (by rw [hrpc]; rfl) hdone]
      exact List.mem_map_of_mem h
    obtain ⟨r₀, hr₀, hdue, rfl⟩ := mem_claimResponse h
    obtain ⟨ρ', rest', hdone', -, hcur⟩ := Txn.runWrite_stable hs ht hput
    obtain rfl : ρ = ρ' := (List.cons.inj (hdone.symm.trans hdone')).1
    simp only [due, Bool.and_eq_true, decide_eq_true_eq] at hdue
    exact ⟨hput, r₀, (hcur r₀ rfl).mp hr₀, hdue.1, now, rfl⟩
  · exact absurd h List.not_mem_nil

theorem running_of_mem_claimReply {t : Txn Rpc Database RowKey} {r : Run} (h : r ∈ claimReply t)
    {w : Write} (hw : w ∈ t.writes statements) :
    ∃ r', w = .put (.run r') ∧ r'.status = .running := by
  unfold claimReply at h
  split at h
  · next limit now tie ρ rest hrpc hdone =>
    rw [Txn.writes_single statements (q := claim (nextLimit limit) now tie) (by rw [hrpc]; rfl) hdone]
      at hw
    obtain ⟨-, -, r₁, -, -, rfl⟩ := mem_claim hw
    exact ⟨_, rfl, rfl⟩
  · exact absurd h List.not_mem_nil

/-- Every run that a claim returns starts when the claim commits. -/
theorem starts_of_mem_claimReply {Ok : ServiceState → Action Rpc → Prop}
    (hs : (services init).Reachable Ok s) {t : Txn Rpc Database RowKey} (ht : t ∈ s.txns)
    {runId : Uuid} (h : runId ∈ (claimReply t).map Run.runId) :
    Starts runId s.db (applyAll s.db (t.writes statements)) := by
  obtain ⟨r, hr, rfl⟩ := List.mem_map.mp h
  obtain ⟨hput, r₀, hr₀, hpending, now, rfl⟩ := pending_of_mem_claimReply hs ht hr
  refine ⟨⟨r₀, hr₀, rfl, hpending⟩, ?_⟩
  rcases row_applyAll s.db (t.writes statements) (.run r₀.runId) with
    ⟨w, hw, hkey, hrow⟩ | ⟨hnot, -⟩
  · obtain ⟨r', rfl, hrunning⟩ := running_of_mem_claimReply hr hw
    have hid : r'.runId = r₀.runId := RowKey.run.inj hkey
    refine ⟨r', ?_, hid, hrunning⟩
    rw [mem_run_iff_row, hid]
    exact hrow
  · exact absurd (List.mem_map.mpr ⟨_, hput, rfl⟩) hnot

/-- **A run starts exactly when a claim that returns it commits.** -/
theorem starts_iff (hs : (services init).Reachable StatusesNotRunning s) {a : Action Rpc}
    (hstep : (services init).step s a = some s') (runId : Uuid) :
    Starts runId s.db s'.db ↔
      ∃ t ∈ s.txns, a = .commit t.id ∧ runId ∈ (claimReply t).map Run.runId := by
  constructor
  · intro h
    cases step_sound statements hstep with
    | @commit t ht hc => exact ⟨t, ht, rfl, mem_claimReply_of_starts hs ht h⟩
    | _ => exact absurd h not_starts_self
  · rintro ⟨t, ht, rfl, hmem⟩
    have hcommit : Step statements s (.commit t.id) s' := step_sound statements hstep
    generalize hid : t.id = i at hcommit
    cases hcommit with
    | @commit u hu hc =>
      obtain rfl := Table.eq_of_key ht hu hid
      exact starts_of_mem_claimReply hs ht hmem

/-- **Claims are exclusive and in order**: at every step of any interleaving, the runs
that start are those that exactly one claim returns, which commits just then; and what
any claim under way returns is without repetition, within its limit, in the past, and,
when no run is locked, the oldest. -/
theorem claims_exclusive (hs : (services init).Reachable StatusesNotRunning s) {a : Action Rpc}
    (hstep : (services init).step s a = some s') :
    (∀ runId, Starts runId s.db s'.db ↔
      ∃! t, t ∈ s.txns ∧ a = .commit t.id ∧ runId ∈ (claimReply t).map Run.runId) ∧
    ∀ t ∈ s.txns, ∀ limit now tie ρ rest, t.rpc = .next limit now tie → t.done = ρ :: rest →
      ClaimReply limit now ρ (claimReply t) := by
  constructor
  · intro runId
    rw [starts_iff hs hstep]
    constructor
    · rintro ⟨t, ht, rfl, hmem⟩
      refine ⟨t, ⟨ht, rfl, hmem⟩, ?_⟩
      rintro u ⟨hu, hcommit, -⟩
      exact Table.eq_of_key hu ht (Action.commit.inj hcommit).symm
    · rintro ⟨t, ⟨ht, hcommit, hmem⟩, -⟩
      exact ⟨t, ht, hcommit, hmem⟩
  · intro t ht limit now tie ρ rest hrpc hdone
    rw [claimReply, hrpc, hdone]
    exact claimReply_inOrder limit now tie ρ

theorem claims_exclusive_witness :
    ∃ s s', (services NoRuns).Reachable StatusesNotRunning s ∧
      (services NoRuns).step s (.commit 0) = some s' ∧ Starts 100 s.db s'.db ∧
      ∃! t, t ∈ s.txns ∧ Action.commit 0 = (.commit t.id : Action Rpc) ∧
        100 ∈ (claimReply t).map Run.runId := by
  obtain ⟨s, hs, hp⟩ := (services NoRuns).exists_reachable StatusesNotRunning
    (show (services NoRuns).init ⟨oneThread, .empty⟩ from ⟨rfl, rfl⟩)
    (atOnce (enqueue 100) ++ [.begin 0 (.next 1 5 id), .snapshot 0, .exec 0])
    (fun s => s.db.run.rows.map (fun r => (r.runId, r.status)) = [(100, .pending)] ∧
      ((services NoRuns).step s (.commit 0)).map
        (fun s' => s'.db.run.rows.map fun r => (r.runId, r.status)) = some [(100, .running)])
    (by decide +kernel)
  obtain ⟨hbefore, hafter⟩ := of_decide_eq_true hp
  obtain ⟨s', hstep, hrows⟩ := Option.map_eq_some_iff.mp hafter
  have hmem : ∀ {d : Database} {status : RunStatus},
      d.run.rows.map (fun r => (r.runId, r.status)) = [(100, status)] →
        ∃ r ∈ d.run, r.runId = 100 ∧ r.status = status := by
    intro d status h
    obtain ⟨r, hr, heq⟩ := List.mem_map.mp (h ▸ List.mem_singleton_self (100, status))
    exact ⟨r, hr, congrArg Prod.fst heq, congrArg Prod.snd heq⟩
  have hstarts : Starts 100 s.db s'.db := ⟨hmem hbefore, hmem hrows⟩
  exact ⟨s, s', hs, hstep, hstarts, ((claims_exclusive hs hstep).1 100).mp hstarts⟩

end NextRole
