import NextRole.Runtime.Migrations

/-!
# Migrations that are stopped

A process that is stopped within a file leaves its statements without the row of its version, and
the next call begins with the file again.  Where the names are in the order of the versions, and a
statement that is executed again fails or changes nothing, the calls stay at one place in the
files: some versions are recorded, some statements of the next one are applied, and a call that
begins again catches up.  So what stopped calls leave in the end is what one call leaves.

## Main definitions

* `Migrations.InOrder`, `Migrations.RepeatSafe` — what the files have to be.
* `Migrations.AtPlace` — the place that the calls are at.
* `Migrations.Recovered` — what calls leave.

## Main results

* `Migrations.plan_eq` — a call goes through what is not recorded.
* `Migrations.Placed.step` — every action keeps the place.
* `Migrations.exists_uninterrupted` — one call that is not interrupted.
* `Migrations.recovered_of_reachable` — stopped migrations recover.
* `Migrations.not_recovered` — rows that are inserted twice, and the tenth file before the ninth.
-/

namespace NextRole

namespace Migrations

variable {σ : Type} (m : Migrations σ)

/-! ### The order of the files -/

/-- The order of the names is the order of the versions. -/
def InOrder : Prop := ((sortedNames m.listing).filterMap versionOfPath).Pairwise (· ≤ ·)

theorem addPath_ok {paths paths' : MigrationPaths} {path : String}
    (h : addPath paths path = .ok paths') : ∃ version, versionOfPath path = some version ∧
      (version ∈ paths.map Prod.fst ∧ paths'.map Prod.fst = paths.map Prod.fst ∨
        version ∉ paths.map Prod.fst ∧ paths'.map Prod.fst = paths.map Prod.fst ++ [version]) := by
  rw [addPath] at h
  cases hversion : versionOfPath path with
  | none =>
    rw [hversion] at h
    cases h
  | some version =>
    refine ⟨version, rfl, ?_⟩
    rw [hversion] at h
    cases hkey : variantOfPath path with
    | error e =>
      rw [hkey] at h
      cases h
    | ok key =>
      rw [hkey] at h
      cases hlookup : paths.lookup version with
      | none =>
        refine .inr ⟨?_, ?_⟩
        · intro hmem
          obtain ⟨e, he, rfl⟩ := List.mem_map.mp hmem
          exact absurd rfl (bne_iff_ne.mp (List.lookup_eq_none_iff.mp hlookup e he))
        · simp only [bind, Except.bind, hlookup, pure, Except.pure, Except.ok.injEq] at h
          rw [← h, List.map_append]
          rfl
      | some options =>
        refine .inl ⟨?_, ?_⟩
        · obtain ⟨l₁, l₂, heq, -⟩ := List.lookup_eq_some_iff.mp hlookup
          rw [heq]
          simp
        · simp only [bind, Except.bind, hlookup, pure, Except.pure] at h
          split at h
          · cases h
          · rw [← Except.ok.inj h, List.map_map]
            refine List.map_congr_left fun e _ => ?_
            simp only [Function.comp_apply]
            split <;> rfl

/-- Files that come in the order of their versions are kept in that order. -/
theorem pairwise_foldlM_addPath {names : List String} {paths paths' : MigrationPaths}
    (h : names.foldlM addPath paths = .ok paths') (hpaths : (paths.map Prod.fst).Pairwise (· < ·))
    (hnames : (names.filterMap versionOfPath).Pairwise (· ≤ ·))
    (hle : ∀ k ∈ paths.map Prod.fst, ∀ v ∈ names.filterMap versionOfPath, k ≤ v) :
    (paths'.map Prod.fst).Pairwise (· < ·) ∧ ∀ v, v ∈ paths'.map Prod.fst ↔
      v ∈ paths.map Prod.fst ∨ v ∈ names.filterMap versionOfPath := by
  induction names generalizing paths with
  | nil =>
    cases h
    exact ⟨hpaths, fun v => by simp⟩
  | cons path names ih =>
    rw [List.foldlM_cons] at h
    cases hstep : addPath paths path with
    | error e =>
      rw [hstep] at h
      cases h
    | ok next =>
      rw [hstep] at h
      obtain ⟨version, hversion, hcase⟩ := addPath_ok hstep
      rw [List.filterMap_cons_some hversion] at hnames hle ⊢
      obtain ⟨hfirst, hnames⟩ := List.pairwise_cons.mp hnames
      obtain ⟨hmem, hkeys⟩ | ⟨hnot, hkeys⟩ := hcase
      · -- the version is there
        obtain ⟨hinc, hiff⟩ := ih h (hkeys ▸ hpaths) hnames fun k hk v hv =>
          hle k (hkeys ▸ hk) v (List.mem_cons_of_mem _ hv)
        refine ⟨hinc, fun v => ?_⟩
        rw [hiff, hkeys, List.mem_cons]
        constructor
        · rintro (hv | hv)
          · exact .inl hv
          · exact .inr (.inr hv)
        · rintro (hv | rfl | hv)
          · exact .inl hv
          · exact .inl hmem
          · exact .inr hv
      · -- the version is new and comes last
        have hlast : ∀ k ∈ paths.map Prod.fst, k < version := fun k hk =>
          lt_of_le_of_ne (hle k hk version List.mem_cons_self) fun heq => hnot (heq ▸ hk)
        have hnext : (next.map Prod.fst).Pairwise (· < ·) := by
          rw [hkeys, List.pairwise_append]
          refine ⟨hpaths, List.pairwise_singleton _ _, fun k hk v hv => ?_⟩
          rw [List.mem_singleton.mp hv]
          exact hlast k hk
        obtain ⟨hinc, hiff⟩ := ih h hnext hnames fun k hk v hv => by
          rw [hkeys, List.mem_append, List.mem_singleton] at hk
          obtain hk | rfl := hk
          · exact hle k hk v (List.mem_cons_of_mem _ hv)
          · exact hfirst v hv
        refine ⟨hinc, fun v => ?_⟩
        rw [hiff, hkeys, List.mem_append, List.mem_singleton, List.mem_cons, or_assoc]

variable {m}

theorem InOrder.paths (h : m.InOrder) {paths : MigrationPaths}
    (hpaths : migrationPaths m.listing = .ok paths) :
    (paths.map Prod.fst).Pairwise (· < ·) ∧
      ∀ v, v ∈ paths.map Prod.fst ↔ v ∈ (sortedNames m.listing).filterMap versionOfPath := by
  obtain ⟨hinc, hiff⟩ := pairwise_foldlM_addPath hpaths .nil h nofun
  exact ⟨hinc, fun v => (hiff v).trans (or_iff_right List.not_mem_nil)⟩

variable (m)

/-! ### What statements do -/

/-- Statements that are executed one after another. -/
def applyAll (statements : List String) (schema : σ) : Option σ :=
  statements.foldlM (fun schema statement => m.execute statement schema) schema

/-- The files of versions, applied one after another. -/
def applyEntries (entries : List (ℕ × Option (List String))) (schema : σ) : Option σ :=
  entries.foldlM (fun schema entry => m.applyAll (entry.2.getD []) schema) schema

theorem applyAll_concat (statements : List String) (statement : String) (schema : σ) :
    m.applyAll (statements ++ [statement]) schema =
      (m.applyAll statements schema).bind (m.execute statement) := by
  simp [applyAll, List.foldlM_append]

theorem applyEntries_concat (entries : List (ℕ × Option (List String)))
    (entry : ℕ × Option (List String)) (schema : σ) :
    m.applyEntries (entries ++ [entry]) schema =
      (m.applyEntries entries schema).bind (m.applyAll (entry.2.getD [])) := by
  simp [applyEntries, List.foldlM_append]

/-- A statement that was executed fails, or changes nothing, when it is executed again behind some
of its file and before the version is recorded. -/
def RepeatSafe : Prop :=
  ∀ paths, migrationPaths m.listing = .ok paths →
    ∀ done version statements todo, m.entries paths = done ++ (version, some statements) :: todo →
      ∀ before, m.applyEntries done m.initial = some before →
        ∀ k schema, m.applyAll (statements.take k) before = some schema →
          ∀ statement ∈ statements.take k,
            m.execute statement schema = none ∨ m.execute statement schema = some schema

/-- What is still to do from a version on. -/
def allSteps (entries : List (ℕ × Option (List String))) : List MigrationStep :=
  entries.flatMap fun entry =>
    match entry.2 with
    | none => [.missing entry.1]
    | some statements => fileSteps entry.1 statements

theorem length_fileSteps (version : ℕ) (statements : List String) :
    (fileSteps version statements).length = statements.length + 1 := by
  rw [fileSteps, List.length_append, List.length_mapIdx, List.length_singleton]

theorem drop_fileSteps_of_lt {version j : ℕ} {statements : List String}
    (h : j < statements.length) :
    (fileSteps version statements).drop j =
      .execute version j statements[j] :: (fileSteps version statements).drop (j + 1) := by
  have hlen : j < (fileSteps version statements).length := by
    rw [length_fileSteps]
    exact Nat.lt_succ_of_lt h
  rw [List.drop_eq_getElem_cons hlen]
  congr 1
  simp only [fileSteps]
  rw [List.getElem_append_left (by rwa [List.length_mapIdx]), List.getElem_mapIdx]

theorem drop_fileSteps_length (version : ℕ) (statements : List String) :
    (fileSteps version statements).drop statements.length = [.record version] := by
  rw [fileSteps, List.drop_append, List.length_mapIdx, Nat.sub_self, List.drop_zero,
    List.drop_eq_nil_of_le (by rw [List.length_mapIdx]), List.nil_append]

/-- What is passed over is not above a recorded version. -/
theorem le_currentVersion_iff {version : ℕ} {versions : List ℕ} :
    (version : ℤ) ≤ currentVersion versions ↔ ∃ v ∈ versions, version ≤ v := by
  rw [currentVersion]
  cases h : versions.max? with
  | none =>
    rw [List.max?_eq_none_iff] at h
    subst h
    refine ⟨fun hle => ?_, nofun⟩
    simp only [Option.map_none, Option.getD_none] at hle
    omega
  | some highest =>
    obtain ⟨hmem, hmax⟩ := List.max?_eq_some_iff.mp h
    simp only [Option.map_some, Option.getD_some, Int.ofNat_eq_natCast, Int.ofNat_le]
    exact ⟨fun hle => ⟨highest, hmem, hle⟩, fun ⟨v, hv, hle⟩ => hle.trans (hmax v hv)⟩

/-- A call passes over what is recorded and goes through all the rest. -/
theorem plan_eq {paths : MigrationPaths} {done todo : List (ℕ × Option (List String))}
    (hpaths : migrationPaths m.listing = .ok paths) (hsplit : m.entries paths = done ++ todo)
    (hinc : ((done ++ todo).map Prod.fst).Pairwise (· < ·)) (hfiles : ∀ e ∈ done, e.2.isSome) :
    m.plan (done.map Prod.fst) = .ok (allSteps todo) := by
  have hdone : done.flatMap (entrySteps (currentVersion (done.map Prod.fst))) = [] := by
    rw [List.flatMap_eq_nil_iff]
    intro e he
    obtain ⟨statements, hstatements⟩ := Option.isSome_iff_exists.mp (hfiles e he)
    have hle := le_currentVersion_iff.mpr ⟨e.1, List.mem_map_of_mem he, le_refl e.1⟩
    rw [entrySteps, hstatements]
    exact if_pos hle
  have htodo : ∀ e ∈ todo, entrySteps (currentVersion (done.map Prod.fst)) e =
      match e.2 with
      | none => [.missing e.1]
      | some statements => fileSteps e.1 statements := by
    intro e he
    have hnot : ¬ (e.1 : ℤ) ≤ currentVersion (done.map Prod.fst) := by
      rw [le_currentVersion_iff]
      rintro ⟨v, hv, hle⟩
      rw [List.map_append, List.pairwise_append] at hinc
      exact absurd hle (not_le.mpr (hinc.2.2 v hv e.1 (List.mem_map_of_mem he)))
    obtain ⟨version, statements⟩ := e
    cases statements with
    | none => rfl
    | some statements => exact if_neg hnot
  rw [plan, hpaths]
  simp only [Except.map, hsplit, List.flatMap_append, hdone, List.nil_append]
  exact congrArg Except.ok (List.flatMap_congr htodo)

/-! ### Where the calls are -/

/-- The statements of the first version that is not recorded. -/
def headStatements (todo : List (ℕ × Option (List String))) : List String :=
  (todo.head?.bind Prod.snd).getD []

/-- What a call has still to do after `k` statements of the first version that is not recorded; it
may have begun with them again. -/
def Remaining (k : ℕ) (steps : List MigrationStep) : List (ℕ × Option (List String)) → Prop
  | [] => steps = []
  | (version, none) :: todo => steps = .missing version :: allSteps todo
  | (version, some statements) :: todo =>
    ∃ j ≤ k, steps = (fileSteps version statements).drop j ++ allSteps todo

/-- Two executions that both change something are of different statements. -/
def Apart (e e' : Executed σ) : Prop :=
  e.before ≠ e.after → e'.before ≠ e'.after → (e.version, e.index) ≠ (e'.version, e'.index)

instance [DecidableEq σ] (e e' : Executed σ) : Decidable (Apart e e') :=
  inferInstanceAs (Decidable (e.before ≠ e.after → e'.before ≠ e'.after → _))

/-- The files of some versions are applied and recorded, and some statements of the next one are
applied. -/
structure AtPlace (s : MigrationState σ) (done todo : List (ℕ × Option (List String))) (k : ℕ)
    (before : σ) : Prop where
  files : ∀ e ∈ done, e.2.isSome
  versions : s.versions = done.map Prod.fst
  applied : m.applyEntries done m.initial = some before
  le : k ≤ (headStatements todo).length
  schema : m.applyAll ((headStatements todo).take k) before = some s.schema
  process : ∀ steps, s.process = some steps → Remaining k steps todo
  completed : s.outcome = some (.ok ()) → todo = []
  apart : s.executed.Pairwise Apart
  placed : ∀ e ∈ s.executed, e.before ≠ e.after → e.version ∈ done.map Prod.fst ∨
    todo.head?.map Prod.fst = some e.version ∧ e.index < k

/-- The calls are somewhere in the files of the directory. -/
def Placed (s : MigrationState σ) : Prop :=
  (∃ e, migrationPaths m.listing = .error e) ∧ s.process = none ∧
      s.outcome ≠ some (.ok ()) ∧ s.versions = [] ∧ s.executed = [] ∨
    ∃ paths, migrationPaths m.listing = .ok paths ∧ ∃ done todo k before,
      m.entries paths = done ++ todo ∧ m.AtPlace s done todo k before

variable {m} {s s' : MigrationState σ}

theorem placed_init : m.Placed { schema := m.initial } := by
  cases h : migrationPaths m.listing with
  | error e => exact .inl ⟨⟨e, h⟩, rfl, nofun, rfl, rfl⟩
  | ok paths =>
    refine .inr ⟨paths, h, [], m.entries paths, 0, m.initial, rfl, ?_⟩
    exact {
      files := nofun
      versions := rfl
      applied := rfl
      le := Nat.zero_le _
      schema := rfl
      process := nofun
      completed := nofun
      apart := .nil
      placed := nofun }

section Steps

variable {done todo : List (ℕ × Option (List String))} {k : ℕ} {before : σ}

theorem AtPlace.leave (h : m.AtPlace s done todo k before)
    {outcome : Option (Except MigrationError Unit)} (hout : outcome ≠ some (.ok ())) :
    m.AtPlace { s with process := none, outcome := outcome } done todo k before :=
  { h with
    process := nofun
    completed := fun heq => absurd heq hout }

theorem AtPlace.start (h : m.AtPlace s done todo k before) :
    m.AtPlace { s with process := some (allSteps todo), outcome := none } done todo k before :=
  { h with
    process := by
      rintro _ ⟨⟩
      obtain _ | ⟨⟨version, _ | statements⟩, todo⟩ := todo
      · rfl
      · rfl
      · exact ⟨0, Nat.zero_le k, rfl⟩
    completed := nofun }

/-- A statement of the next version is executed, for the first time or again. -/
theorem AtPlace.execute {version j : ℕ} {statements : List String} {rest : List MigrationStep}
    (h : m.AtPlace s done ((version, some statements) :: todo) k before)
    (hnew : version ∉ done.map Prod.fst)
    (hsafe : ∀ statement ∈ statements.take k,
      m.execute statement s.schema = none ∨ m.execute statement s.schema = some s.schema)
    (hj : j ≤ k) (hlt : j < statements.length)
    (hrest : rest = (fileSteps version statements).drop (j + 1) ++ allSteps todo) :
    ∃ k', m.AtPlace (m.transact s rest (.execute version j statements[j])) done
      ((version, some statements) :: todo) k' before := by
  rw [transact]
  split
  · next schema hexec =>
    obtain hlt' | rfl := Nat.lt_or_eq_of_le hj
    · -- again: nothing changes
      have hmem : statements[j] ∈ statements.take k := List.mem_take_iff_getElem.mpr
        ⟨j, lt_min hlt' hlt, rfl⟩
      have hsame : schema = s.schema := by
        obtain hfail | hsame := hsafe _ hmem
        · rw [hfail] at hexec
          cases hexec
        · exact Option.some.inj (hexec.symm.trans hsame)
      refine ⟨k, ?_⟩
      exact {
        files := h.files
        versions := h.versions
        applied := h.applied
        le := h.le
        schema := hsame ▸ h.schema
        process := by
          rintro _ ⟨⟩
          exact ⟨j + 1, hlt', hrest⟩
        completed := fun heq => by cases h.completed heq
        apart := by
          rw [List.pairwise_append]
          refine ⟨h.apart, List.pairwise_singleton _ _, fun e _ e' he' _ hchange => ?_⟩
          rw [List.mem_singleton.mp he'] at hchange
          exact absurd hsame.symm hchange
        placed := by
          intro e he hchange
          obtain he | he := List.mem_append.mp he
          · exact h.placed e he hchange
          · rw [List.mem_singleton.mp he] at hchange
            exact absurd hsame.symm hchange }
    · -- for the first time
      have hall : m.applyAll (statements.take (j + 1)) before = some schema := by
        have hschema : m.applyAll (statements.take j) before = some s.schema := h.schema
        rw [List.take_succ_eq_append_getElem hlt, applyAll_concat, hschema]
        exact hexec
      refine ⟨j + 1, ?_⟩
      exact {
        files := h.files
        versions := h.versions
        applied := h.applied
        le := hlt
        schema := hall
        process := by
          rintro _ ⟨⟩
          exact ⟨j + 1, le_refl _, hrest⟩
        completed := fun heq => by cases h.completed heq
        apart := by
          rw [List.pairwise_append]
          refine ⟨h.apart, List.pairwise_singleton _ _, fun e he e' he' hchange _ heq => ?_⟩
          rw [List.mem_singleton.mp he', Prod.mk.injEq] at heq
          obtain hdone | ⟨-, hindex⟩ := h.placed e he hchange
          · have hversion : e.version = version := heq.1
            exact hnew (hversion ▸ hdone)
          · exact absurd heq.2 (Nat.ne_of_lt hindex)
        placed := by
          intro e he hchange
          obtain he | he := List.mem_append.mp he
          · obtain hdone | ⟨hhead, hindex⟩ := h.placed e he hchange
            · exact .inl hdone
            · exact .inr ⟨hhead, Nat.lt_succ_of_lt hindex⟩
          · rw [List.mem_singleton.mp he]
            exact .inr ⟨rfl, Nat.lt_succ_self j⟩ }
  · exact ⟨k, h.leave nofun⟩

/-- A version is recorded when all its statements are applied. -/
theorem AtPlace.record {version : ℕ} {statements : List String}
    (h : m.AtPlace s done ((version, some statements) :: todo) k before)
    (hnew : version ∉ done.map Prod.fst) (hk : k = statements.length) :
    m.AtPlace (m.transact s (allSteps todo) (.record version))
      (done ++ [(version, some statements)]) todo 0 s.schema := by
  subst hk
  rw [transact, if_neg (h.versions ▸ hnew)]
  have hschema : m.applyAll statements before = some s.schema := by
    have hall := h.schema
    rwa [show headStatements ((version, some statements) :: todo) = statements from rfl,
      List.take_length] at hall
  exact {
    files := by
      intro e he
      obtain he | he := List.mem_append.mp he
      · exact h.files e he
      · rw [List.mem_singleton.mp he]
        rfl
    versions := by
      rw [h.versions, List.map_append]
      rfl
    applied := by
      rw [applyEntries_concat, h.applied]
      exact hschema
    le := Nat.zero_le _
    schema := rfl
    process := by
      rintro _ ⟨⟩
      obtain _ | ⟨⟨version', _ | statements'⟩, todo⟩ := todo
      · rfl
      · rfl
      · exact ⟨0, le_refl 0, rfl⟩
    completed := fun heq => by cases h.completed heq
    apart := h.apart
    placed := by
      intro e he hchange
      refine .inl ?_
      rw [List.map_append, List.mem_append]
      obtain hdone | ⟨hhead, -⟩ := h.placed e he hchange
      · exact .inl hdone
      · exact .inr (List.mem_singleton.mpr (Option.some.inj hhead).symm) }

end Steps

/-- **Every action keeps the place**, if the files are in order and may be executed again. -/
theorem Placed.step (horder : m.InOrder) (hsafe : m.RepeatSafe) (h : m.Placed s)
    {a : MigrationAction} (hs : m.machine.step s a = some s') : m.Placed s' := by
  obtain ⟨⟨e, herr⟩, hprocess, hout, hnone, hexec⟩ |
    ⟨paths, hpaths, done, todo, k, before, hsplit, h⟩ := h
  · -- every call ends before it does anything
    cases a with
    | start =>
      simp only [machine, hprocess, Option.isSome_none, Bool.false_eq_true, if_false, plan, herr,
        Except.map, Option.some.injEq] at hs
      rw [← hs]
      exact .inl ⟨⟨e, herr⟩, rfl, nofun, hnone, hexec⟩
    | next =>
      simp only [machine, hprocess] at hs
      cases hs
    | stop =>
      simp only [machine, hprocess] at hs
      cases hs
  have hinc : ((done ++ todo).map Prod.fst).Pairwise (· < ·) := by
    rw [← hsplit, entries, List.map_map]
    exact (horder.paths hpaths).1
  cases a with
  | start =>
    simp only [machine] at hs
    split at hs
    · cases hs
    · have hplan : m.plan s.versions = .ok (allSteps todo) := by
        rw [h.versions]
        exact m.plan_eq hpaths hsplit hinc h.files
      rw [hplan] at hs
      obtain rfl := Option.some.inj hs
      exact .inr ⟨paths, hpaths, done, todo, k, before, hsplit, h.start⟩
  | stop =>
    simp only [machine] at hs
    split at hs
    · obtain rfl := Option.some.inj hs
      exact .inr ⟨paths, hpaths, done, todo, k, before, hsplit, { h with process := nofun }⟩
    · cases hs
  | next =>
    simp only [machine] at hs
    split at hs
    · cases hs
    · next hprocess =>
      -- the call returns
      obtain rfl := Option.some.inj hs
      have hnil : todo = [] := by
        have hrest := h.process _ hprocess
        obtain _ | ⟨⟨version, _ | statements⟩, todo⟩ := todo
        · rfl
        · cases hrest
        · obtain ⟨j, hj, hsteps⟩ := hrest
          have hdrop := List.drop_eq_nil_iff.mp (List.append_eq_nil_iff.mp hsteps.symm).1
          rw [length_fileSteps] at hdrop
          have hle := h.le
          rw [show headStatements ((version, some statements) :: todo) = statements from rfl] at hle
          omega
      exact .inr ⟨paths, hpaths, done, todo, k, before, hsplit,
        { h with
          process := nofun
          completed := fun _ => hnil }⟩
    · next step rest hprocess =>
      obtain rfl := Option.some.inj hs
      have hrest := h.process _ hprocess
      obtain _ | ⟨⟨version, _ | statements⟩, todo⟩ := todo
      · cases hrest
      · -- no file for the version
        obtain ⟨rfl, rfl⟩ := List.cons.inj hrest
        exact .inr ⟨paths, hpaths, done, _, k, before, hsplit, h.leave nofun⟩
      · obtain ⟨j, hj, hsteps⟩ := hrest
        have hnew : version ∉ done.map Prod.fst := by
          rw [List.map_append, List.pairwise_append] at hinc
          exact fun hmem => absurd (hinc.2.2 version hmem version List.mem_cons_self) (lt_irrefl _)
        obtain hlt | hge := Nat.lt_or_ge j statements.length
        · rw [drop_fileSteps_of_lt hlt] at hsteps
          obtain ⟨rfl, hrest⟩ := List.cons.inj hsteps
          obtain ⟨k', hk'⟩ := h.execute hnew
            (hsafe paths hpaths done version statements todo hsplit before h.applied k _ h.schema)
            hj hlt hrest
          exact .inr ⟨paths, hpaths, done, _, k', before, hsplit, hk'⟩
        · have hk : k = statements.length := le_antisymm h.le (hge.trans hj)
          obtain rfl : j = statements.length := le_antisymm (hj.trans h.le) hge
          rw [drop_fileSteps_length] at hsteps
          obtain ⟨rfl, rfl⟩ := List.cons.inj hsteps
          exact .inr ⟨paths, hpaths, done ++ [(version, some statements)], todo, 0, s.schema,
            by rw [hsplit, List.append_assoc]; rfl, h.record hnew hk⟩

/-! ### A call that is not interrupted -/

section Uninterrupted

variable {schema : σ} {rest : List MigrationStep}

/-- The rest of a file is applied, and its version is recorded. -/
theorem run_file {version : ℕ} {statements : List String} {n j : ℕ} (hn : j + n = statements.length)
    (hprocess : s.process = some ((fileSteps version statements).drop j ++ rest))
    (happly : m.applyAll (statements.drop j) s.schema = some schema)
    (hnew : version ∉ s.versions) :
    ∃ t, m.machine.run s (List.replicate (n + 1) .next) = some t ∧ t.schema = schema ∧
      t.versions = s.versions ++ [version] ∧ t.process = some rest := by
  induction n generalizing s j with
  | zero =>
    obtain rfl : j = statements.length := hn
    rw [drop_fileSteps_length] at hprocess
    rw [List.drop_length] at happly
    refine ⟨{ s with
      versions := s.versions ++ [version]
      process := some rest }, ?_, Option.some.inj happly, rfl, rfl⟩
    simp only [List.replicate_succ, List.replicate_zero, Machine.run, machine, hprocess,
      List.singleton_append, transact, if_neg hnew, Option.bind_some]
  | succ n ih =>
    have hlt : j < statements.length := by omega
    rw [drop_fileSteps_of_lt hlt] at hprocess
    rw [List.drop_eq_getElem_cons hlt, applyAll, List.foldlM_cons] at happly
    obtain ⟨next, hnext, happly⟩ := Option.bind_eq_some_iff.mp happly
    have hstep : m.machine.step s .next = some { s with
        schema := next
        process := some ((fileSteps version statements).drop (j + 1) ++ rest)
        executed := s.executed ++ [⟨version, j, s.schema, next⟩] } := by
      simp only [machine, hprocess, List.cons_append, transact, hnext]
    obtain ⟨t, ht, hschema, hversions, hrest⟩ := ih (s := { s with
        schema := next
        process := some ((fileSteps version statements).drop (j + 1) ++ rest)
        executed := s.executed ++ [⟨version, j, s.schema, next⟩] }) (j := j + 1) (by omega) rfl
      happly hnew
    refine ⟨t, ?_, hschema, hversions, hrest⟩
    rw [List.replicate_succ, Machine.run, hstep]
    exact ht

/-- All files are applied. -/
theorem run_entries {todo : List (ℕ × Option (List String))}
    (hfiles : ∀ e ∈ todo, e.2.isSome) (hprocess : s.process = some (allSteps todo))
    (happly : m.applyEntries todo s.schema = some schema)
    (hnew : (s.versions ++ todo.map Prod.fst).Nodup) :
    ∃ n t, m.machine.run s (List.replicate n .next) = some t ∧ t.schema = schema ∧
      t.versions = s.versions ++ todo.map Prod.fst ∧ t.process = some [] := by
  induction todo generalizing s with
  | nil => exact ⟨0, s, rfl, Option.some.inj happly, (List.append_nil _).symm, hprocess⟩
  | cons e todo ih =>
    obtain ⟨version, statements⟩ := e
    obtain ⟨statements, rfl⟩ := Option.isSome_iff_exists.mp (hfiles _ List.mem_cons_self)
    rw [applyEntries, List.foldlM_cons] at happly
    obtain ⟨next, hnext, happly⟩ := Option.bind_eq_some_iff.mp happly
    have hversion : version ∉ s.versions := by
      intro hmem
      rw [List.nodup_append] at hnew
      exact hnew.2.2 version hmem version List.mem_cons_self rfl
    obtain ⟨t, ht, hschema, hversions, hrest⟩ := run_file (m := m) (s := s) (j := 0)
      (Nat.zero_add _) hprocess hnext hversion
    obtain ⟨n, t', ht', hschema', hversions', hrest'⟩ := ih (s := t)
      (fun e he => hfiles e (List.mem_cons_of_mem _ he)) hrest (hschema ▸ happly) (by
        rw [hversions, List.append_assoc]
        exact hnew)
    refine ⟨statements.length + 1 + n, t', ?_, hschema', ?_, hrest'⟩
    · rw [List.replicate_add, Machine.run_append, ht]
      exact ht'
    · rw [hversions', hversions, List.append_assoc]
      rfl

end Uninterrupted

/-! ### Recovery -/

/-- What calls leave, stopped at any points: where one has returned, every version of the directory
is recorded, and one call that is not interrupted leaves the same; the versions are recorded in
their order; and no statement has changed the schema twice. -/
structure Recovered (m : Migrations σ) (s : MigrationState σ) : Prop where
  uninterrupted : s.outcome = some (.ok ()) → ∃ n t,
    m.machine.run { schema := m.initial } (.start :: List.replicate n .next) = some t ∧
      t.outcome = some (.ok ()) ∧ t.schema = s.schema ∧ t.versions = s.versions
  complete : s.outcome = some (.ok ()) →
    ∀ version, version ∈ s.versions ↔ version ∈ m.listing.filterMap versionOfPath
  increasing : s.versions.Pairwise (· < ·)
  once : s.executed.Pairwise Apart

/-- One call that is not interrupted applies all files. -/
theorem exists_uninterrupted {paths : MigrationPaths} {schema : σ}
    (hpaths : migrationPaths m.listing = .ok paths)
    (hinc : ((m.entries paths).map Prod.fst).Pairwise (· < ·))
    (hfiles : ∀ e ∈ m.entries paths, e.2.isSome)
    (happly : m.applyEntries (m.entries paths) m.initial = some schema) :
    ∃ n t, m.machine.run { schema := m.initial } (.start :: List.replicate n .next) = some t ∧
      t.outcome = some (.ok ()) ∧ t.schema = schema ∧
        t.versions = (m.entries paths).map Prod.fst := by
  have hplan : m.plan [] = .ok (allSteps (m.entries paths)) := by
    rw [← List.map_nil (f := Prod.fst)]
    exact m.plan_eq hpaths rfl hinc nofun
  obtain ⟨n, t, ht, hschema, hversions, hprocess⟩ := run_entries (m := m)
    (s := { schema := m.initial, process := some (allSteps (m.entries paths)) })
    hfiles rfl happly (hinc.imp fun h => h.ne)
  refine ⟨n + 1, { t with process := none, outcome := some (.ok ()) }, ?_, rfl, hschema, hversions⟩
  have hstart : m.machine.step { schema := m.initial } .start =
      some { schema := m.initial, process := some (allSteps (m.entries paths)) } := by
    simp only [machine, Option.isSome_none, Bool.false_eq_true, if_false, hplan]
  rw [Machine.run, hstart, Option.bind_some, List.replicate_add, Machine.run_append, ht,
    Option.bind_some]
  simp only [List.replicate_succ, List.replicate_zero, Machine.run, machine, hprocess,
    Option.bind_some]

/-- **Stopped migrations recover**, if the files are in order and their statements may be executed
again. -/
theorem recovered_of_reachable (horder : m.InOrder) (hsafe : m.RepeatSafe)
    (hs : m.machine.Reachable Machine.free s) : m.Recovered s := by
  have hplaced : m.Placed s := by
    refine hs.invariant ?_ fun s a s' _ h _ hstep => h.step horder hsafe hstep
    rintro _ rfl
    exact placed_init
  obtain ⟨-, -, hout, hnone, hexec⟩ | ⟨paths, hpaths, done, todo, k, before, hsplit, h⟩ := hplaced
  · exact {
      uninterrupted := fun heq => absurd heq hout
      complete := fun heq => absurd heq hout
      increasing := hnone ▸ .nil
      once := hexec ▸ .nil }
  obtain ⟨hinc, hiff⟩ := horder.paths hpaths
  have hkeys : (m.entries paths).map Prod.fst = paths.map Prod.fst := by
    rw [entries, List.map_map]
    rfl
  exact {
    uninterrupted := by
      intro hout
      obtain rfl := h.completed hout
      rw [List.append_nil] at hsplit
      obtain rfl : before = s.schema := by
        have hschema := h.schema
        rw [show headStatements [] = [] from rfl, List.take_nil] at hschema
        exact Option.some.inj hschema
      obtain ⟨n, t, ht, hok, hschema, hversions⟩ := exists_uninterrupted hpaths (hkeys ▸ hinc)
        (hsplit ▸ h.files) (hsplit ▸ h.applied)
      exact ⟨n, t, ht, hok, hschema, hversions.trans (hsplit ▸ h.versions.symm)⟩
    complete := by
      intro hout version
      obtain rfl := h.completed hout
      rw [List.append_nil] at hsplit
      have hperm := (List.perm_insertionSort (· ≤ ·) m.listing).filterMap versionOfPath
      rw [h.versions, ← hsplit, hkeys, hiff]
      exact hperm.mem_iff
    increasing := by
      rw [h.versions]
      rw [← hkeys, hsplit, List.map_append] at hinc
      exact (List.pairwise_append.mp hinc).1
    once := h.apart }

/-! ### Tables and rows -/

/-- A statement that creates something, and fails where it is there. -/
def creates (statement : String) (schema : List String) : Option (List String) :=
  if statement ∈ schema then none else some (schema ++ [statement])

/-- Two files. -/
def twoFiles {σ : Type} (first second : String) (execute : String → σ → Option σ) (initial : σ) :
    Migrations σ where
  listing := [first, second]
  contents path := if path = first then "create table a" else "create table b"
  extensions := .standard
  execute := execute
  initial := initial

/-- The process is stopped between the two files. -/
theorem recovered_stoppedBetween : ∃ s,
    (twoFiles "1_a.up.sql" "2_b.up.sql" creates []).machine.Reachable Machine.free s ∧
      s.schema = ["create table a;", "create table b;"] ∧
        (twoFiles "1_a.up.sql" "2_b.up.sql" creates []).Recovered s := by
  have hrun := (Option.some_get (x := (twoFiles "1_a.up.sql" "2_b.up.sql" creates []).machine.run
    { schema := [] } [.start, .next, .next, .stop, .start, .next, .next, .next])
    (by decide +kernel)).symm
  have hreach : (twoFiles "1_a.up.sql" "2_b.up.sql" creates []).machine.Reachable Machine.free _ :=
    (Machine.Reachable.init rfl).run (fun _ _ _ => trivial) hrun
  have hcreated : ∀ (l : List String) (schema schema' : List String),
      l.foldlM (fun schema statement => creates statement schema) schema = some schema' →
        schema ⊆ schema' ∧ l ⊆ schema' := by
    intro l
    induction l with
    | nil =>
      intro schema schema' h
      cases h
      exact ⟨List.Subset.refl _, List.nil_subset _⟩
    | cons statement l ih =>
      intro schema schema' h
      obtain ⟨next, hnext, h⟩ := Option.bind_eq_some_iff.mp h
      simp only [creates] at hnext
      split at hnext
      · cases hnext
      · obtain rfl := Option.some.inj hnext
        obtain ⟨hsub, hl⟩ := ih _ _ h
        exact ⟨fun x hx => hsub (List.mem_append_left _ hx), List.cons_subset.mpr
          ⟨hsub (List.mem_append_right _ (List.mem_singleton_self _)), hl⟩⟩
  refine ⟨_, hreach, by decide +kernel, recovered_of_reachable ?_ ?_ hreach⟩
  · rw [InOrder]
    decide +kernel
  · intro _ _ _ _ _ _ _ _ _ k schema happly statement hmem
    exact .inl (if_pos ((hcreated _ _ _ happly).2 hmem))

/-- A row is inserted again when the process is stopped before the version is recorded, and the
tenth file is applied before the ninth. -/
theorem not_recovered :
    (¬ ∀ s, (twoFiles "1_a.up.sql" "2_b.up.sql" (fun _ n => some (n + 1)) 0).machine.Reachable
      Machine.free s →
        (twoFiles "1_a.up.sql" "2_b.up.sql" (fun _ n => some (n + 1)) 0).Recovered s) ∧
    ¬ ∀ s, (twoFiles "9_a.up.sql" "10_b.up.sql" creates []).machine.Reachable Machine.free s →
      (twoFiles "9_a.up.sql" "10_b.up.sql" creates []).Recovered s := by
  refine ⟨fun h => ?_, fun h => ?_⟩
  · have hrun := (Option.some_get (x := (twoFiles "1_a.up.sql" "2_b.up.sql"
      (fun _ n => some (n + 1)) 0).machine.run { schema := 0 }
        [.start, .next, .stop, .start, .next]) (by decide +kernel)).symm
    have honce := (h _ ((Machine.Reachable.init rfl).run (fun _ _ _ => trivial) hrun)).once
    exact absurd honce (by decide +kernel)
  · have hrun := (Option.some_get (x := (twoFiles "9_a.up.sql" "10_b.up.sql" creates
      []).machine.run { schema := [] } [.start, .next, .next, .next, .next])
        (by decide +kernel)).symm
    have hrecovered := h _ ((Machine.Reachable.init rfl).run (fun _ _ _ => trivial) hrun)
    exact absurd hrecovered.increasing (by decide +kernel)

end Migrations

end NextRole
