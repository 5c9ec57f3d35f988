import NextRole.Agents.QuotaGate

/-!
# The limit on the concurrent runs of an owner

The gate counts the runs of the owner that are in flight, but the run that it admits
becomes a row later, by another service, when the lock is released.  Until then it is
counted nowhere.  The limit holds in every run of the machine in which no transaction
counts while such creations would fill it; two creations at once break it.

## Main definitions

* `load` — the runs of an owner that are in flight, and those admitted to be created.
* `WithinLimit` — the limit on the runs in flight.
* `Forward`, `CountsAdmitted` — the guards.

## Main results

* `load_of_step` — only the commit of a transaction of the gate adds to the load.
* `withinLimit_of_countsAdmitted` — **the limit, in every guarded run**.
* `not_withinLimit` — two creations at once.
-/

namespace NextRole

open Machine

/-! ### Counting the runs in flight -/

theorem Run.activeFor_mono {owner : String} {now now' : Timestamp} {r : Run} (h : now ≤ now')
    (hr : r.activeFor owner now' = true) : r.activeFor owner now = true := by
  simp only [activeFor, Bool.and_eq_true, decide_eq_true_eq] at hr ⊢
  exact ⟨hr.1, lt_of_le_of_lt (Int.sub_le_sub_right h _) hr.2⟩

theorem activeRuns_le {t t' : Table Run} {owner : String} {now now' : Timestamp} (new : List Uuid)
    (h : ∀ r ∈ t', r.activeFor owner now' = true → r.runId ∈ new ∨
      ∃ r₀ ∈ t, r₀.runId = r.runId ∧ r₀.activeFor owner now = true) :
    activeRuns t' owner now' ≤ new.length + activeRuns t owner now := by
  have hle : (t'.select (Run.activeFor owner now')).length ≤
      (new ++ (t.select (Run.activeFor owner now)).map Run.runId).length := by
    refine Table.length_select_le fun r hr hactive => List.mem_append.mpr ?_
    rcases h r hr hactive with hnew | ⟨r₀, hr₀, hid, hactive₀⟩
    · exact Or.inl hnew
    · exact Or.inr (List.mem_map.mpr ⟨r₀, Table.mem_select.mpr ⟨hr₀, hactive₀⟩, hid⟩)
  rwa [List.length_append, List.length_map] at hle

/-- Claims, completions and removals put no run in flight. -/
theorem active_before_service {rpc : Rpc} {d : Database} (h : rpc.keepsEnded d = true)
    {owner : String} {now : Timestamp} {r : Run} (hr : r ∈ (execute rpc d).run)
    (hactive : r.activeFor owner now = true) :
    ∃ r₀ ∈ d.run, r₀.runId = r.runId ∧ r₀.activeFor owner now = true := by
  rcases run_of_execute hr with hold | hwrite
  · exact ⟨r, hold, rfl, hactive⟩
  · simp only [Run.activeFor, Bool.and_eq_true, decide_eq_true_eq] at hactive ⊢
    obtain ⟨⟨hflight, howner⟩, hnow⟩ := hactive
    cases hwrite with
    | createRun hins => cases h
    | @next limit now' tie _ _ _ r' r₀ hclaimed hr₀ hid =>
      -- the claimed run is pending
      obtain ⟨hr', hdue, -, -⟩ := mem_claimable.mp (mem_claimed.mp hclaimed).1
      obtain rfl : r₀ = r' := Table.eq_of_key hr₀ hr' hid
      simp only [due, Bool.and_eq_true, decide_eq_true_eq] at hdue
      refine ⟨r₀, hr₀, rfl, ⟨?_, howner⟩, hnow⟩
      rw [hdue.1]
      rfl
    | @setRunStatus runId status now' _ _ _ r₀ hr₀ hid =>
      have hget : d.run.get? runId = some r₀ := Table.get?_eq_some.mpr ⟨hr₀, hid⟩
      rw [withStatus_status] at hflight
      simp only [Rpc.keepsEnded, hflight, hget, Option.all_some, Bool.not_true, Bool.false_or] at h
      exact ⟨r₀, hr₀, rfl, ⟨h, howner⟩, hnow⟩
    | cancelRuns hr₀ hid hp => cases hflight
    | @setJointStatus request now' _ _ _ r₀ hr₀ hid hne =>
      rw [withStatus_status] at hflight
      simp [Rpc.keepsEnded, hflight] at h

/-- The run of an admitted creation belongs to its owner. -/
theorem active_before_create {call : CreateCall} {identity : String}
    (hcaller : call.caller = some identity) {now : Timestamp} {d : Database} {owner : String}
    {now' : Timestamp} {r : Run}
    (hr : r ∈ (execute (.createRun (createRequest call) { call.env with now := now }) d).run)
    (hactive : r.activeFor owner now' = true) :
    (owner = identity ∧ r.runId = call.env.freshRunId) ∨
      ∃ r₀ ∈ d.run, r₀.runId = r.runId ∧ r₀.activeFor owner now' = true := by
  rcases run_of_execute hr with hold | hwrite
  · exact Or.inr ⟨r, hold, rfl, hactive⟩
  · left
    cases hwrite with
    | createRun hins =>
      obtain ⟨-, t, -, a, -, rfl⟩ := mem_insertedRun.mp hins
      have hstamp : (insertRun (createParams (createRequest call) { call.env with now := now }) t a).metadata.get?
          "owner" = some (.str identity) := CreateCall.get?_owner hcaller
      simp only [Run.activeFor, Bool.and_eq_true, decide_eq_true_eq, Json.text?, hstamp] at hactive
      exact ⟨(Option.some.inj hactive.1.2).symm, rfl⟩

/-! ### The load of an owner -/

/-- The runs of an owner that are in flight and younger than an hour, and those that are
admitted and not created yet. -/
def load (s : QuotaState) (owner : String) : ℕ :=
  activeRuns s.db.run owner s.clock + s.admitted.count owner

/-- The limit holds for every owner. -/
def WithinLimit (settings : QuotaSettings) (s : QuotaState) : Prop :=
  ∀ owner, (activeRuns s.db.run owner s.clock : ℤ) ≤ settings.maxConcurrentRuns

/-- The runs in flight are counted next. -/
def CheckPhase.counting : CheckPhase → Bool
  | shared _ => true
  | _ => false

/-- The guard that time does not run backwards. -/
def Forward (s : QuotaState) : QuotaAction → Prop
  | .tick now => s.clock ≤ now
  | _ => True

instance (s : QuotaState) : DecidablePred (Forward s) := fun a => by
  cases a <;> simp only [Forward] <;> infer_instance

/-- The guard that moreover a transaction that counts fewer runs in flight than the limit
would still do so with those that are admitted and not created. -/
def CountsAdmitted (settings : QuotaSettings) (s : QuotaState) : QuotaAction → Prop
  | .tick now => s.clock ≤ now
  | .proceed id => ∀ c ∈ s.checks, c.id = id → c.phase.counting = true →
      (activeRuns s.db.run c.owner c.start : ℤ) < settings.maxConcurrentRuns →
        (load s c.owner : ℤ) < settings.maxConcurrentRuns
  | _ => True

instance (settings : QuotaSettings) (s : QuotaState) : DecidablePred (CountsAdmitted settings s) :=
  fun a => by
    cases a <;> simp only [CountsAdmitted] <;> infer_instance

variable {settings : QuotaSettings} {hashtext : String → ℤ} {s s' : QuotaState} {a : QuotaAction}

theorem load_create {owner : String} {call : CreateCall} (h : owner ∈ s.admitted)
    (hcaller : call.caller = some owner) (owner' : String) :
    load (s.create owner call) owner' ≤ load s owner' := by
  by_cases howner : owner' = owner
  · subst howner
    have hactive : activeRuns (s.create owner' call).db.run owner' s.clock ≤
        1 + activeRuns s.db.run owner' s.clock := by
      refine activeRuns_le [call.env.freshRunId] fun r hr hr' => ?_
      rcases active_before_create hcaller hr hr' with ⟨-, hid⟩ | hold
      · exact Or.inl (List.mem_singleton.mpr hid)
      · exact Or.inr hold
    -- the run takes the place of the admission
    have hcount : (s.admitted.erase owner').count owner' = s.admitted.count owner' - 1 :=
      List.count_erase_self
    have hpos : 0 < s.admitted.count owner' := List.count_pos_iff.mpr h
    simp only [load, QuotaState.create] at hactive ⊢
    omega
  · have hactive : activeRuns (s.create owner call).db.run owner' s.clock ≤
        0 + activeRuns s.db.run owner' s.clock := by
      refine activeRuns_le [] fun r hr hr' => ?_
      rcases active_before_create hcaller hr hr' with ⟨heq, -⟩ | hold
      · exact absurd heq howner
      · exact Or.inr hold
    have hcount : (s.admitted.erase owner).count owner' = s.admitted.count owner' :=
      List.count_erase_of_ne howner
    simp only [load, QuotaState.create] at hactive ⊢
    omega

/-- **Only the commit of a transaction adds to the load**, and only to that of its owner. -/
theorem load_of_step (henabled : settings.enabled = true)
    (h : QuotaStep settings hashtext s a s') (htime : ∀ now, a = .tick now → s.clock ≤ now)
    (owner : String) : load s' owner ≤ load s owner ∨
      ∃ c ∈ s.checks, ∃ verdict, c.phase = .decided verdict ∧ verdict.allowed = true ∧
        c.owner = owner ∧ s' = s.commit c verdict ∧ load s' owner = load s owner + 1 := by
  cases h with
  | @tick now =>
    left
    have hactive : activeRuns s.db.run owner now ≤ 0 + activeRuns s.db.run owner s.clock :=
      activeRuns_le [] fun r hr hr' => Or.inr ⟨r, hr, rfl, Run.activeFor_mono (htime now rfl) hr'⟩
    simp only [load] at hactive ⊢
    omega
  | pass hdis =>
    rw [hdis] at henabled
    cases henabled
  | @commit c verdict hc hphase =>
    by_cases hadds : verdict.allowed = true ∧ c.owner = owner
    · right
      refine ⟨c, hc, verdict, hphase, hadds.1, hadds.2, rfl, ?_⟩
      simp [load, QuotaState.commit, hadds.1, hadds.2, Nat.add_assoc]
    · left
      simp only [load, QuotaState.commit]
      split
      · next hallowed =>
        have hne : c.owner ≠ owner := fun howner => hadds ⟨hallowed, howner⟩
        rw [List.count_append, List.count_singleton, if_neg (by simpa using hne)]
        rfl
      · exact Nat.le_refl _
  | create hmem hcaller => exact Or.inl (load_create hmem hcaller owner)
  | @drop owner' hmem =>
    left
    have hcount := (List.erase_sublist (a := owner') (l := s.admitted)).count_le owner
    simp only [load]
    omega
  | @service rpc hrpc =>
    left
    have hactive : activeRuns (execute rpc s.db).run owner s.clock ≤
        0 + activeRuns s.db.run owner s.clock :=
      activeRuns_le [] fun r hr hr' => Or.inr (active_before_service hrpc hr hr')
    simp only [load] at hactive ⊢
    omega
  | _ => exact Or.inl (Nat.le_refl _)

/-! ### The limit -/

/-- The owner of a transaction that is about to be in favour has room for one more. -/
def Check.Room (settings : QuotaSettings) (s : QuotaState) (c : Check) : Prop :=
  match c.phase with
  | .counted stats => (stats.activeRuns : ℤ) < settings.maxConcurrentRuns →
      (load s c.owner : ℤ) < settings.maxConcurrentRuns
  | .decided verdict => verdict.allowed = true → (load s c.owner : ℤ) < settings.maxConcurrentRuns
  | _ => True

theorem Check.Room.of_not_holdsLock {c : Check} (h : c.phase.holdsLock = false) :
    c.Room settings s := by
  unfold Check.Room
  split
  · next hphase =>
    rw [hphase] at h
    cases h
  · next hphase =>
    rw [hphase] at h
    cases h
  · trivial

/-- Room stays while the load does not grow. -/
theorem Check.Room.mono {c : Check} (h : c.Room settings s)
    (hload : load s' c.owner ≤ load s c.owner) : c.Room settings s' := by
  unfold Check.Room at h ⊢
  split
  · next stats hphase =>
    rw [hphase] at h
    intro hlt
    have := h hlt
    omega
  · next verdict hphase =>
    rw [hphase] at h
    intro hallowed
    have := h hallowed
    omega
  · trivial

/-- A transaction that goes on under the guard has room if it is to be in favour. -/
theorem Check.Room.next {c : Check} {phase : CheckPhase} (hpos : 0 < settings.maxConcurrentRuns)
    (hc : c ∈ s.checks) (hOk : CountsAdmitted settings s (.proceed c.id)) (h : c.Room settings s)
    (hnext : c.next settings hashtext s = some phase) :
    ({ c with phase := phase } : Check).Room settings s := by
  unfold Check.next at hnext
  split at hnext
  · split at hnext
    · cases hnext
      trivial
    · cases hnext
  · cases hnext
    trivial
  · cases hnext
    trivial
  · next stats hphase =>
    cases hnext
    -- the runs are counted by this very step
    simp only [Check.Room, if_pos hpos]
    exact hOk c hc rfl (by rw [hphase]; rfl)
  · next stats hphase =>
    cases hnext
    -- in favour only if the count was below the limit
    unfold Check.Room at h
    rw [hphase] at h
    intro hallowed
    exact h ((evaluate_allowed_iff.mp hallowed).2 rfl hpos)
  · cases hnext

/-- No owner has more than the limit in flight and admitted, and a transaction that is
about to be in favour has room. -/
def HasRoom (settings : QuotaSettings) (s : QuotaState) : Prop :=
  (∀ owner, (load s owner : ℤ) ≤ settings.maxConcurrentRuns) ∧ ∀ c ∈ s.checks, c.Room settings s

theorem HasRoom.step (hpos : 0 < settings.maxConcurrentRuns) (hI : HasRoom settings s)
    (hex : LockExclusive hashtext s) (hOk : CountsAdmitted settings s a)
    (h : QuotaStep settings hashtext s a s') : HasRoom settings s' := by
  have henabled : settings.enabled = true := by simp [QuotaSettings.enabled, hpos]
  have hload := load_of_step henabled h (fun now ha => by subst ha; exact hOk)
  constructor
  · intro owner
    have hle := hI.1 owner
    rcases hload owner with hle' | ⟨c, hc, verdict, hphase, hallowed, rfl, -, heq⟩
    · omega
    · have hroom := hI.2 c hc
      unfold Check.Room at hroom
      rw [hphase] at hroom
      have := hroom hallowed
      omega
  · -- a transaction that was there has room as before: what adds to the load of its
    -- owner is a commit, and then it has no lock
    have hkept : ∀ c ∈ s.checks, c ∈ s'.checks → c.Room settings s' := by
      intro c hc hc'
      rcases hload c.owner with hle | ⟨c₀, hc₀, verdict, hphase, -, howner, rfl, -⟩
      · exact (hI.2 c hc).mono hle
      · by_cases hholds : c.phase.holdsLock = true
        · have hholds₀ : c₀.phase.holdsLock = true := by
            rw [hphase]
            rfl
          rw [hex.eq_of_owner hc₀ hc hholds₀ hholds howner] at hc'
          exact absurd rfl (Table.mem_erase.mp hc').2
        · exact .of_not_holdsLock (by simpa using hholds)
    intro c hc
    cases h with
    | begin hid =>
      rcases Table.mem_put.mp hc with rfl | ⟨hold, -⟩
      · trivial
      · exact hkept c hold hc
    | proceed hc₀ hnext =>
      rcases Table.mem_put.mp hc with rfl | ⟨hold, -⟩
      · exact ((hI.2 _ hc₀).next hpos hc₀ hOk hnext).mono (Nat.le_refl _)
      · exact hkept c hold hc
    | commit hc₀ hphase => exact hkept c (Table.mem_erase.mp hc).1 hc
    | abort => exact hkept c (Table.mem_erase.mp hc).1 hc
    | _ => exact hkept c hc hc

/-- **The limit on concurrent runs**: it holds in every run in which no transaction
counts fewer runs than the limit while creations that were admitted before would fill it. -/
theorem withinLimit_of_countsAdmitted (hpos : 0 < settings.maxConcurrentRuns)
    (h : (quota settings hashtext NoRuns).Reachable (CountsAdmitted settings) s) :
    WithinLimit settings s := by
  have hroom : HasRoom settings s := by
    refine h.invariant ?_ ?_
    · rintro s ⟨-, hchecks, hadmitted, hruns⟩
      constructor
      · intro owner
        have hzero : load s owner = 0 := by
          rw [load, hadmitted, show s.db.run = Table.empty from hruns]
          rfl
        omega
      · intro c hc
        rw [hchecks] at hc
        exact absurd hc (Table.not_mem_empty c)
    · intro s a s' hr ih hOk hs
      exact ih.step hpos (lockExclusive_of_reachable hr) hOk (quotaStep_sound hs)
  intro owner
  have hle := hroom.1 owner
  rw [load] at hle
  omega

/-- A creation of a run by `alice`, on a thread of its own. -/
def createByAlice (runId : Uuid) : CreateCall where
  caller := some "alice"
  payload := { assistantId := 1 }
  env := ⟨0, runId, 100 + runId⟩

/-- A deployment in which nothing has happened. -/
def quietQuota : QuotaState := ⟨0, [], oneAssistant, .empty, []⟩

/-- Two creations one after the other, with the first run claimed between them. -/
def createTwice : List QuotaAction :=
  gateAlone 1 "alice" none ++ [.create "alice" (createByAlice 7), .tick 5,
    .service (.next 1 5 id)] ++ gateAlone 2 "alice" none ++ [.create "alice" (createByAlice 8)]

theorem withinLimit_of_countsAdmitted_witness :
    ∃ s, (quota { maxConcurrentRuns := 2 } (fun _ => 0) NoRuns).Reachable
        (CountsAdmitted { maxConcurrentRuns := 2 }) s ∧
      activeRuns s.db.run "alice" s.clock = 2 ∧ WithinLimit { maxConcurrentRuns := 2 } s := by
  obtain ⟨s, hs, hcount⟩ := Machine.exists_reachable
    (quota { maxConcurrentRuns := 2 } (fun _ => 0) NoRuns) (CountsAdmitted { maxConcurrentRuns := 2 })
    (s := quietQuota) ⟨rfl, rfl, rfl, rfl⟩ createTwice
    (fun s => activeRuns s.db.run "alice" s.clock = 2) (by decide +kernel)
  rw [decide_eq_true_eq] at hcount
  exact ⟨s, hs, hcount, withinLimit_of_countsAdmitted (by decide) hs⟩

/-- Whatever the lock keys are: two creations that both pass the gate before either run is
created leave two runs in flight where one is allowed. -/
theorem not_withinLimit :
    ¬ ∃ hashtext, ∀ s, (quota { maxConcurrentRuns := 1 } hashtext NoRuns).Reachable Forward s →
      WithinLimit { maxConcurrentRuns := 1 } s := by
  rintro ⟨hashtext, h⟩
  obtain ⟨s, hs, hcount⟩ := Machine.exists_reachable
    (quota { maxConcurrentRuns := 1 } hashtext NoRuns) Forward (s := quietQuota) ⟨rfl, rfl, rfl, rfl⟩
    (gateAlone 1 "alice" none ++ gateAlone 2 "alice" none ++
      [.create "alice" (createByAlice 7), .create "alice" (createByAlice 8)])
    (fun s => activeRuns s.db.run "alice" s.clock = 2) (by rfl)
  rw [decide_eq_true_eq] at hcount
  have hle := h s hs "alice"
  rw [hcount] at hle
  exact absurd hle (by decide)

end NextRole
