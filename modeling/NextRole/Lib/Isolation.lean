import NextRole.Lib.ReadCommitted

/-!
# Invariants of interleaved transactions

What holds in every state that interleaved READ COMMITTED transactions reach,
whatever their statements are, and how a transaction that nothing interrupts
relates to them.

## Main definitions

* `Exclusive` — no two open transactions write the same key.
* `Stable` — the committed row of a key that an open transaction writes is the
  one its statement read.
* `History` — a relation between what open transactions have read and the
  committed rows.
* `serial` — what a transaction does when it runs alone.

## Main results

* `exclusive_of_reachable`, `stable_of_reachable`, `history_of_reachable` — they
  hold in every reachable state, `History` for every relation that each commit
  respects.
* `db_of_reachable` — a property of the committed rows that each commit preserves
  holds in every reachable state.
* `reachable_serial` — a transaction that nothing interrupts computes `serial`.
-/

namespace ReadCommitted

open RowWrite RowStore

variable {D W K V R : Type*} [DecidableEq K] [RowWrite W K V] [RowStore D W]

/-! ### The writes of a transaction grow -/

theorem writesOf_concat {qs : List (Stmt D K W)} {ρs : List (Reading D K)} {q : Stmt D K W}
    (hq : qs[ρs.length]? = some q) (ρ : Reading D K) (ws : List W) :
    writesOf qs (ρs ++ [ρ]) ws =
      writesOf qs ρs ws ++ (outcome q (writesOf qs ρs ws) ρ).writes.getD [] := by
  induction ρs generalizing qs ws with
  | nil =>
    cases qs with
    | nil => cases hq
    | cons q' qs =>
      obtain rfl : q' = q := by simpa using hq
      cases qs <;> rfl
  | cons ρ' ρs ih =>
    cases qs with
    | nil => cases hq
    | cons q' qs =>
      have hq' : qs[ρs.length]? = some q := by simpa using hq
      exact ih hq' _

theorem writesOf_prefix (qs : List (Stmt D K W)) (ρs : List (Reading D K)) (ws : List W) :
    ws <+: writesOf qs ρs ws := by
  induction ρs generalizing qs ws with
  | nil => cases qs <;> exact List.prefix_rfl
  | cons ρ ρs ih =>
    cases qs with
    | nil => exact List.prefix_rfl
    | cons q qs => exact (List.prefix_append _ _).trans (ih qs _)

theorem writesOf_append_prefix (qs : List (Stmt D K W)) (ρs ρs' : List (Reading D K))
    (ws : List W) : writesOf qs ρs ws <+: writesOf qs (ρs ++ ρs') ws := by
  induction ρs generalizing qs ws with
  | nil =>
    have h : writesOf qs [] ws = ws := by cases qs <;> rfl
    rw [h]
    exact writesOf_prefix qs _ ws
  | cons ρ ρs ih =>
    cases qs with
    | nil => exact List.prefix_rfl
    | cons q qs => exact ih qs _

/-- Every write of a transaction was made by one of its statements, on what that
statement read and after the writes of the statements before it. -/
theorem mem_writesOf {qs : List (Stmt D K W)} {ρs : List (Reading D K)} {ws : List W} {w : W}
    (h : w ∈ writesOf qs ρs ws) :
    w ∈ ws ∨ ∃ l ρ r q, ρs = l ++ ρ :: r ∧ qs[l.length]? = some q ∧
      w ∈ (outcome q (writesOf qs l ws) ρ).writes.getD [] := by
  induction ρs generalizing qs ws with
  | nil =>
    have hnil : writesOf qs ([] : List (Reading D K)) ws = ws := by cases qs <;> rfl
    exact Or.inl (hnil ▸ h)
  | cons ρ ρs ih =>
    cases qs with
    | nil => exact Or.inl h
    | cons q qs =>
      rcases ih h with hw | ⟨l, ρ', r, q', rfl, hq', hw⟩
      · rcases List.mem_append.mp hw with hw | hw
        · exact Or.inl hw
        · exact Or.inr ⟨[], ρ, ρs, q, rfl, rfl, hw⟩
      · exact Or.inr ⟨ρ :: l, ρ', r, q', rfl, by simpa using hq', hw⟩

variable (stmts : R → List (Stmt D K W))

theorem Txn.mem_writes {t : Txn R D K} {w : W} (h : w ∈ t.writes stmts) :
    ∃ l ρ r q, t.done = l ++ ρ :: r ∧ (stmts t.rpc)[l.length]? = some q ∧
      w ∈ (outcome q (writesOf (stmts t.rpc) l []) ρ).writes.getD [] := by
  rcases mem_writesOf h with hw | hw
  · exact absurd hw List.not_mem_nil
  · exact hw

theorem Txn.writes_exec {t : Txn R D K} {q : Stmt D K W} {ws : List W} {ρ : Reading D K}
    (hq : (stmts t.rpc)[t.done.length]? = some q)
    (hws : (outcome q (t.writes stmts) ρ).writes = some ws) :
    Txn.writes stmts { t with done := t.done ++ [ρ], snap := none } = t.writes stmts ++ ws := by
  rw [Txn.writes, writesOf_concat hq]
  exact congrArg _ (by rw [show writesOf (stmts t.rpc) t.done [] = t.writes stmts from rfl, hws]; rfl)

theorem Txn.writes_single {t : Txn R D K} {q : Stmt D K W} (hq : stmts t.rpc = [q])
    {ρ : Reading D K} {rest : List (Reading D K)} (hdone : t.done = ρ :: rest) :
    t.writes stmts = (q ρ.snap ρ.held ρ.cur).writes.getD [] := by
  rw [Txn.writes, hq, hdone]
  cases rest <;> rfl

theorem mem_held {s : State R D K} {i : ℕ} {k : K} :
    k ∈ s.held stmts i ↔ ∃ t ∈ s.txns, t.id ≠ i ∧ k ∈ keys (t.writes stmts) := by
  simp [State.held, and_assoc]

/-! ### Locks are exclusive -/

/-- No two open transactions write the same key. -/
def Exclusive (s : State R D K) : Prop :=
  ∀ t ∈ s.txns, ∀ u ∈ s.txns, t.id ≠ u.id →
    ∀ k ∈ keys (t.writes stmts), k ∉ keys (u.writes stmts)

variable {stmts}

theorem Exclusive.erase {s : State R D K} (h : Exclusive stmts s) (d : D) (i : ℕ) :
    Exclusive stmts ⟨d, s.txns.erase i⟩ := by
  intro t ht u hu
  rw [Table.mem_erase] at ht hu
  exact h t ht.1 u hu.1

theorem Exclusive.put {s : State R D K} (h : Exclusive stmts s) {t : Txn R D K}
    (hfree : ∀ k ∈ keys (t.writes stmts), k ∉ s.held stmts t.id) :
    Exclusive stmts { s with txns := s.txns.put t } := by
  intro u hu v hv huv k hku hkv
  rw [Table.mem_put] at hu hv
  rcases hu with rfl | ⟨hu, hut⟩ <;> rcases hv with rfl | ⟨hv, hvt⟩
  · exact huv rfl
  · exact hfree k hku ((mem_held stmts).mpr ⟨v, hv, hvt, hkv⟩)
  · exact hfree k hkv ((mem_held stmts).mpr ⟨u, hu, hut, hku⟩)
  · exact h u hu v hv huv k hku hkv

theorem Exclusive.free {s : State R D K} (h : Exclusive stmts s) {t : Txn R D K} (ht : t ∈ s.txns)
    {k : K} (hk : k ∈ keys (t.writes stmts)) : k ∉ s.held stmts t.id := by
  intro hheld
  obtain ⟨u, hu, hne, hku⟩ := (mem_held stmts).mp hheld
  exact h t ht u hu (Ne.symm hne) k hk hku

theorem Exclusive.step {s s' : State R D K} {a : Action R} (h : Exclusive stmts s)
    (hs : Step stmts s a s') : Exclusive stmts s' := by
  cases hs with
  | begin hi =>
    refine h.put fun k hk => ?_
    have hnil : ∀ rpc : R, writesOf (stmts rpc) ([] : List (Reading D K)) [] = [] := by
      intro rpc
      cases stmts rpc <;> rfl
    simp [Txn.writes, hnil, keys] at hk
  | snapshot ht hn => exact h.put fun k hk => h.free ht hk
  | @exec t σ q ws ht hσ hq hws hfree =>
    refine h.put fun k hk => ?_
    rw [Txn.writes_exec stmts hq hws, keys, List.map_append, List.mem_append] at hk
    rcases hk with hk | hk
    · exact h.free ht hk
    · exact hfree k hk
  | fail ht => exact h.erase _ _
  | commit ht hc => exact h.erase _ _
  | abort => exact h.erase _ _

theorem exclusive_of_reachable {init : D → Prop} {Ok : State R D K → Action R → Prop}
    {s : State R D K} (h : (machine stmts init).Reachable Ok s) : Exclusive stmts s := by
  refine h.invariant (fun s hs t ht => ?_) fun s a s' _ hI _ hs => hI.step (step_sound stmts hs)
  rw [hs.2] at ht
  exact absurd ht (Table.not_mem_empty t)

/-! ### Locked rows do not change -/

/-- The committed row of every key that an open transaction has written so far is
the one the statement that wrote it found. -/
def Stable (stmts : R → List (Stmt D K W)) (s : State R D K) : Prop :=
  ∀ t ∈ s.txns, ∀ l ρ r, t.done = l ++ ρ :: r →
    ∀ k ∈ keys (writesOf (stmts t.rpc) (l ++ [ρ]) []), row ρ.cur k = row s.db k

theorem Stable.erase {s : State R D K} (h : Stable stmts s) (i : ℕ) :
    Stable stmts { s with txns := s.txns.erase i } := by
  intro t ht
  rw [Table.mem_erase] at ht
  exact h t ht.1

theorem Stable.step {s s' : State R D K} {a : Action R} (hx : Exclusive stmts s)
    (h : Stable stmts s) (hs : Step stmts s a s') : Stable stmts s' := by
  cases hs with
  | begin hi =>
    intro t ht l ρ r hdone
    rw [Table.mem_put] at ht
    rcases ht with rfl | ⟨ht, -⟩
    · simp at hdone
    · exact h t ht l ρ r hdone
  | @snapshot t ht hn =>
    intro u hu
    rw [Table.mem_put] at hu
    rcases hu with rfl | ⟨hu, -⟩
    · exact h t ht
    · exact h u hu
  | @exec t σ q ws ht hσ hq hws hfree =>
    intro u hu l ρ r hdone k hk
    rw [Table.mem_put] at hu
    rcases hu with rfl | ⟨hu, -⟩
    · -- the reading just added is of the committed rows themselves
      rcases List.eq_nil_or_concat r with rfl | ⟨r, ρ', rfl⟩
      · obtain ⟨-, hρ⟩ := List.append_inj' hdone rfl
        obtain rfl := (List.cons.inj hρ).1
        rfl
      · have hdone' : t.done ++ [s.reading stmts t.id σ] = (l ++ ρ :: r) ++ [ρ'] := by
          simpa using hdone
        exact h t ht l ρ r (List.append_inj' hdone' rfl).1 k hk
    · exact h u hu l ρ r hdone k hk
  | fail ht => exact h.erase _
  | @commit t ht hc =>
    intro u hu l ρ r hdone k hk
    rw [Table.mem_erase] at hu
    have hku : k ∈ keys (u.writes stmts) := by
      have hpre := writesOf_append_prefix (stmts u.rpc) (l ++ [ρ]) r ([] : List W)
      rw [List.append_assoc, List.singleton_append, ← hdone] at hpre
      exact (hpre.map key).subset hk
    have hkt : k ∉ keys (t.writes stmts) := fun hkt => hx t ht u hu.1 (Ne.symm hu.2) k hkt hku
    rw [h u hu.1 l ρ r hdone k hk]
    exact (row_applyAll_of_not_mem hkt s.db).symm
  | abort => exact h.erase _

theorem stable_of_reachable {init : D → Prop} {Ok : State R D K → Action R → Prop}
    {s : State R D K} (h : (machine stmts init).Reachable Ok s) : Stable stmts s := by
  refine h.invariant (fun s hs t ht => ?_) fun s a s' hr hI _ hs =>
    hI.step (exclusive_of_reachable hr) (step_sound stmts hs)
  rw [hs.2] at ht
  exact absurd ht (Table.not_mem_empty t)

/-! ### Open calls and committed rows -/

theorem reachable_mono_init {init init' : D → Prop} {Ok : State R D K → Action R → Prop}
    (hinit : ∀ d, init d → init' d) {s : State R D K} (h : (machine stmts init).Reachable Ok s) :
    (machine stmts init').Reachable Ok s := by
  induction h with
  | init hs => exact .init ⟨hinit _ hs.1, hs.2⟩
  | step _ ha hs ih => exact .step ih ha hs

/-- What the guard asks of every call that begins holds of every open call. -/
theorem rpc_of_reachable {init : D → Prop} {Ok : State R D K → Action R → Prop} {C : R → Prop}
    (hbegin : ∀ s i rpc, Ok s (.begin i rpc) → C rpc) {s : State R D K}
    (h : (machine stmts init).Reachable Ok s) : ∀ t ∈ s.txns, C t.rpc := by
  induction h with
  | init hs =>
    intro t ht
    rw [hs.2] at ht
    exact absurd ht (Table.not_mem_empty t)
  | @step s _ _ _ hOk hs hI =>
    have herase : ∀ i, ∀ t ∈ s.txns.erase i, C t.rpc :=
      fun i t ht => hI t (Table.mem_erase.mp ht).1
    have hput : ∀ t : Txn R D K, C t.rpc → ∀ u ∈ s.txns.put t, C u.rpc := by
      intro t ht u hu
      rcases Table.mem_put.mp hu with rfl | ⟨hu, -⟩
      · exact ht
      · exact hI u hu
    cases step_sound stmts hs with
    | begin hi => exact hput _ (hbegin _ _ _ hOk)
    | @snapshot t ht hn => exact hput _ (hI t ht)
    | @exec t _ _ _ ht hσ hq hws hfree => exact hput _ (hI t ht)
    | fail ht => exact herase _
    | commit ht hc => exact herase _
    | abort => exact herase _

/-- What the guard asks of every statement that finishes holds of everything that open
transactions have read. -/
theorem done_of_reachable {init : D → Prop} {Ok : State R D K → Action R → Prop}
    {C : R → D → D → Prop}
    (hexec : ∀ s (t : Txn R D K) σ, t ∈ s.txns → t.snap = some σ → Ok s (.exec t.id) →
      C t.rpc σ s.db) {s : State R D K} (h : (machine stmts init).Reachable Ok s) :
    ∀ t ∈ s.txns, ∀ ρ ∈ t.done, C t.rpc ρ.snap ρ.cur := by
  induction h with
  | init hs =>
    intro t ht
    rw [hs.2] at ht
    exact absurd ht (Table.not_mem_empty t)
  | @step s _ _ _ hOk hs hI =>
    have herase : ∀ i, ∀ t ∈ s.txns.erase i, ∀ ρ ∈ t.done, C t.rpc ρ.snap ρ.cur :=
      fun i t ht => hI t (Table.mem_erase.mp ht).1
    have hput : ∀ t : Txn R D K, (∀ ρ ∈ t.done, C t.rpc ρ.snap ρ.cur) →
        ∀ u ∈ s.txns.put t, ∀ ρ ∈ u.done, C u.rpc ρ.snap ρ.cur := by
      intro t ht u hu
      rcases Table.mem_put.mp hu with rfl | ⟨hu, -⟩
      · exact ht
      · exact hI u hu
    cases step_sound stmts hs with
    | begin hi => exact hput _ (by simp)
    | @snapshot t ht hn => exact hput _ (hI t ht)
    | @exec t σ q ws ht hσ hq hws hfree =>
      refine hput _ fun ρ hρ => ?_
      rcases List.mem_append.mp hρ with hρ | hρ
      · exact hI t ht ρ hρ
      · obtain rfl := List.mem_singleton.mp hρ
        exact hexec s t σ ht hσ hOk
    | fail ht => exact herase _
    | commit ht hc => exact herase _
    | abort => exact herase _

/-- A property of the committed rows that every admitted commit preserves is one of
every reachable state. -/
theorem db_of_reachable {init : D → Prop} {Ok : State R D K → Action R → Prop} {I : D → Prop}
    (hinit : ∀ d, init d → I d)
    (hcommit : ∀ s, (machine stmts init).Reachable Ok s → I s.db → ∀ t ∈ s.txns,
      t.complete stmts = true → Ok s (.commit t.id) → I (applyAll s.db (t.writes stmts)))
    {s : State R D K} (h : (machine stmts init).Reachable Ok s) : I s.db := by
  induction h with
  | init hs => exact hinit _ hs.1
  | step hr hOk hs hI =>
    cases step_sound stmts hs with
    | commit ht hc => exact hcommit _ hr hI _ ht hc hOk
    | begin hi => exact hI
    | snapshot ht hn => exact hI
    | exec ht hσ hq hws hfree => exact hI
    | fail ht => exact hI
    | abort => exact hI

/-! ### What was read is related to what is committed -/

/-- Everything an open transaction has read is related by `P` to the rows
committed later, up to now. -/
def History (P : D → D → Prop) (s : State R D K) : Prop :=
  ∀ t ∈ s.txns, (∀ σ, t.snap = some σ → P σ s.db) ∧
    ∀ ρ ∈ t.done, P ρ.snap ρ.cur ∧ P ρ.cur s.db

omit [DecidableEq K] in
theorem History.erase {P : D → D → Prop} {s : State R D K} (h : History P s) (i : ℕ) :
    History P { s with txns := s.txns.erase i } := by
  intro t ht
  rw [Table.mem_erase] at ht
  exact h t ht.1

/-- If every commit takes the rows to `P`-related ones, where `P` is reflexive and
transitive, then what was read is `P`-related to what is committed now. -/
theorem history_of_reachable {init : D → Prop} {Ok : State R D K → Action R → Prop}
    {P : D → D → Prop} (hrefl : ∀ d, P d d) (htrans : ∀ a b c, P a b → P b c → P a c)
    (hcommit : ∀ s, (machine stmts init).Reachable Ok s → ∀ t ∈ s.txns, t.complete stmts = true →
      Ok s (.commit t.id) → P s.db (applyAll s.db (t.writes stmts)))
    {s : State R D K} (h : (machine stmts init).Reachable Ok s) : History P s := by
  refine h.invariant (fun s hs t ht => ?_) fun s a s' hr hI hOk hs => ?_
  · rw [hs.2] at ht
    exact absurd ht (Table.not_mem_empty t)
  cases step_sound stmts hs with
  | begin hi =>
    intro t ht
    rw [Table.mem_put] at ht
    rcases ht with rfl | ⟨ht, -⟩
    · simp
    · exact hI t ht
  | @snapshot t ht hn =>
    intro u hu
    rw [Table.mem_put] at hu
    rcases hu with rfl | ⟨hu, -⟩
    · refine ⟨fun σ hσ => ?_, (hI t ht).2⟩
      obtain rfl := Option.some.inj hσ
      exact hrefl _
    · exact hI u hu
  | @exec t σ q ws ht hσ hq hws hfree =>
    intro u hu
    rw [Table.mem_put] at hu
    rcases hu with rfl | ⟨hu, -⟩
    · refine ⟨by simp, fun ρ hρ => ?_⟩
      rcases List.mem_append.mp hρ with hρ | hρ
      · exact (hI t ht).2 ρ hρ
      · obtain rfl := List.mem_singleton.mp hρ
        exact ⟨(hI t ht).1 σ hσ, hrefl _⟩
    · exact hI u hu
  | fail ht => exact hI.erase _
  | @commit t ht hc =>
    intro u hu
    rw [Table.mem_erase] at hu
    have hP := hcommit s hr t ht hc hOk
    obtain ⟨hsnap, hdone⟩ := hI u hu.1
    exact ⟨fun σ hσ => htrans _ _ _ (hsnap σ hσ) hP,
      fun ρ hρ => ⟨(hdone ρ hρ).1, htrans _ _ _ (hdone ρ hρ).2 hP⟩⟩
  | abort => exact hI.erase _

/-! ### Transactions that run alone -/

/-- The writes of a transaction that runs alone, if no statement fails, on top of
the writes `ws` of the statements before `qs`. -/
def serialFrom (d : D) : List (Stmt D K W) → List W → Option (List W)
  | [], ws => some ws
  | q :: qs, ws => (outcome q ws ⟨d, [], d⟩).writes.bind fun ws' => serialFrom d qs (ws ++ ws')

/-- The rows after a transaction that runs alone; a failing one changes nothing. -/
def serial (stmts : R → List (Stmt D K W)) (rpc : R) (d : D) : D :=
  applyAll d ((serialFrom d (stmts rpc) []).getD [])

theorem applyAll_serialFrom {d : D} {qs : List (Stmt D K W)} {ws ws' : List W}
    (h : serialFrom d qs ws = some ws') : applyAll d ws' = qs.foldl runAlone (applyAll d ws) := by
  induction qs generalizing ws with
  | nil =>
    obtain rfl := Option.some.inj h
    rfl
  | cons q qs ih =>
    rw [serialFrom, Option.bind_eq_some_iff] at h
    obtain ⟨ws₁, hws₁, h⟩ := h
    have hq : (q (applyAll d ws) [] (applyAll d ws)).writes = some ws₁ := hws₁
    rw [ih h, List.foldl_cons, applyAll_append, runAlone, hq, Option.getD_some]

/-- Statements that cannot fail run in turn. -/
theorem applyAll_serialFrom_of_total {qs : List (Stmt D K W)}
    (h : ∀ q ∈ qs, ∀ d, (q d [] d).writes.isSome) (d : D) (ws : List W) :
    applyAll d ((serialFrom d qs ws).getD []) = qs.foldl runAlone (applyAll d ws) := by
  obtain ⟨ws', hws'⟩ : ∃ ws', serialFrom d qs ws = some ws' := by
    induction qs generalizing ws with
    | nil => exact ⟨ws, rfl⟩
    | cons q qs ih =>
      obtain ⟨hq, hqs⟩ := List.forall_mem_cons.mp h
      obtain ⟨ws₁, hws₁⟩ := Option.isSome_iff_exists.mp (hq (applyAll d ws))
      obtain ⟨ws', hws'⟩ := ih hqs (ws ++ ws₁)
      refine ⟨ws', ?_⟩
      rw [serialFrom, show (outcome q ws ⟨d, [], d⟩).writes = some ws₁ from hws₁]
      exact hws'
  rw [hws', Option.getD_some, applyAll_serialFrom hws']

theorem serial_eq_foldl {rpc : R} (h : ∀ q ∈ stmts rpc, ∀ d, (q d [] d).writes.isSome) (d : D) :
    serial stmts rpc d = (stmts rpc).foldl runAlone d :=
  applyAll_serialFrom_of_total h d []

/-- The transaction of a call that has run alone to its end. -/
def Txn.alone (stmts : R → List (Stmt D K W)) (rpc : R) (d : D) : Txn R D K :=
  ⟨0, rpc, List.replicate (stmts rpc).length ⟨d, [], d⟩, none⟩

theorem writesOf_serialFrom {d : D} {qs : List (Stmt D K W)} {ws ws' : List W}
    (h : serialFrom d qs ws = some ws') :
    writesOf qs (List.replicate qs.length ⟨d, [], d⟩) ws = ws' := by
  induction qs generalizing ws with
  | nil => exact Option.some.inj h
  | cons q qs ih =>
    rw [serialFrom, Option.bind_eq_some_iff] at h
    obtain ⟨ws₁, hws₁, h⟩ := h
    rw [List.length_cons, List.replicate_succ, writesOf, hws₁, Option.getD_some]
    exact ih h

theorem serial_eq_or (rpc : R) (d : D) :
    serial stmts rpc d = d ∨
      serial stmts rpc d = applyAll d ((Txn.alone stmts rpc d).writes stmts) := by
  unfold serial
  cases h : serialFrom d (stmts rpc) [] with
  | none => exact Or.inl rfl
  | some ws =>
    have hws : (Txn.alone stmts rpc d).writes stmts = ws := writesOf_serialFrom h
    rw [hws]
    exact Or.inr rfl

theorem serial_single {rpc : R} {q : Stmt D K W} (h : stmts rpc = [q]) (d : D) :
    serial stmts rpc d = applyAll d ((q d [] d).writes.getD []) := by
  rw [serial, h, serialFrom]
  change applyAll d (((q d [] d).writes.bind fun ws' => serialFrom d [] ([] ++ ws')).getD []) = _
  cases (q d [] d).writes <;> rfl

/-- The state in which the transaction `t` alone is open. -/
def State.alone (d : D) (t : Txn R D K) : State R D K := ⟨d, Table.empty.put t⟩

omit [DecidableEq K] in
theorem get?_alone (d : D) (t : Txn R D K) : (State.alone d t).txns.get? t.id = some t :=
  (Table.get?_put _ _ _).trans (if_pos rfl)

omit [DecidableEq K] in
theorem put_alone (d : D) (t u : Txn R D K) (h : u.id = t.id) :
    (State.alone d t).txns.put u = (State.alone d u).txns := by
  refine Table.ext ?_
  simp [State.alone, Table.put, Table.erase, Table.empty, h]

omit [DecidableEq K] in
theorem erase_alone (d : D) (t : Txn R D K) :
    (State.alone d t).txns.erase t.id = Table.empty := by
  refine Table.ext ?_
  simp [State.alone, Table.put, Table.erase, Table.empty]

theorem held_alone (d : D) (t : Txn R D K) : (State.alone d t).held stmts t.id = [] := by
  simp [State.alone, State.held, Table.select, Table.put, Table.erase, Table.empty]

theorem step_snapshot_alone (d : D) (rpc : R) (done : List (Reading D K))
    (hlen : done.length < (stmts rpc).length) :
    step stmts (State.alone d ⟨0, rpc, done, none⟩) (.snapshot 0) =
      some (State.alone d ⟨0, rpc, done, some d⟩) := by
  have hget := get?_alone d (⟨0, rpc, done, none⟩ : Txn R D K)
  have hc : Txn.complete stmts (⟨0, rpc, done, none⟩ : Txn R D K) = false := by
    simpa [Txn.complete] using Nat.ne_of_lt hlen
  simp only [step, hget, Option.bind_some, hc]
  exact congrArg (fun T => some (State.mk d T)) (put_alone d _ ⟨0, rpc, done, some d⟩ rfl)

theorem step_exec_alone (d : D) (rpc : R) (done : List (Reading D K)) {q : Stmt D K W}
    (hq : (stmts rpc)[done.length]? = some q) :
    step stmts (State.alone d ⟨0, rpc, done, some d⟩) (.exec 0) =
      match (outcome q (writesOf (stmts rpc) done []) ⟨d, [], d⟩).writes with
      | none => some ⟨d, Table.empty⟩
      | some _ => some (State.alone d ⟨0, rpc, done ++ [⟨d, [], d⟩], none⟩) := by
  have hget := get?_alone d (⟨0, rpc, done, some d⟩ : Txn R D K)
  have hheld : (State.alone d (⟨0, rpc, done, some d⟩ : Txn R D K)).held stmts 0 = [] :=
    held_alone d _
  have herase := erase_alone d (⟨0, rpc, done, some d⟩ : Txn R D K)
  simp only at herase
  simp only [step, hget, hq, Option.bind_some, hheld, herase, Txn.writes]
  rw [if_pos fun k _ => List.not_mem_nil]
  rfl

theorem step_commit_alone (d : D) (rpc : R) (done : List (Reading D K))
    (hlen : done.length = (stmts rpc).length) :
    step stmts (State.alone d ⟨0, rpc, done, none⟩) (.commit 0) =
      some ⟨applyAll d (writesOf (stmts rpc) done []), Table.empty⟩ := by
  have hget := get?_alone d (⟨0, rpc, done, none⟩ : Txn R D K)
  have herase := erase_alone d (⟨0, rpc, done, none⟩ : Txn R D K)
  simp only at herase
  simp only [step, hget, Option.bind_some, herase, Txn.complete, Txn.writes]
  rw [if_pos (by simpa using hlen)]
  rfl

/-- A transaction that has run alone up to the statements `qs` can run to its end. -/
theorem run_alone (stmts : R → List (Stmt D K W)) {init : D → Prop} (d : D) (rpc : R)
    (qs : List (Stmt D K W))
    (done : List (Reading D K)) (hqs : (stmts rpc).drop done.length = qs)
    (hlen : done.length ≤ (stmts rpc).length) :
    ∃ as, (∀ i rpc, Action.begin i rpc ∉ as) ∧
      (machine stmts init).run (State.alone d ⟨0, rpc, done, none⟩) as =
        some ⟨applyAll d ((serialFrom d qs (writesOf (stmts rpc) done [])).getD []),
          Table.empty⟩ := by
  induction qs generalizing done with
  | nil =>
    have hge := List.drop_eq_nil_iff.mp hqs
    refine ⟨[.commit 0], by simp, ?_⟩
    simp only [Machine.run, machine, step_commit_alone d rpc done (Nat.le_antisymm hlen hge),
      Option.bind_some, serialFrom, Option.getD_some]
  | cons q qs ih =>
    have hlt : done.length < (stmts rpc).length := by
      by_contra hge
      rw [List.drop_eq_nil_of_le (Nat.le_of_not_lt hge)] at hqs
      cases hqs
    have hq : (stmts rpc)[done.length]? = some q := by
      rw [← List.head?_drop, hqs]
      rfl
    have hsnap : step stmts (State.alone d ⟨0, rpc, done, none⟩) (.snapshot 0) =
        some (State.alone d ⟨0, rpc, done, some d⟩) := step_snapshot_alone d rpc done hlt
    have hexec := step_exec_alone d rpc done hq
    cases hws : (outcome q (writesOf (stmts rpc) done []) ⟨d, [], d⟩).writes with
    | none =>
      -- the statement fails, and so does the transaction
      rw [hws] at hexec
      refine ⟨[.snapshot 0, .exec 0], by simp, ?_⟩
      simp only [Machine.run, machine, hsnap, hexec, Option.bind_some, serialFrom, hws,
        Option.bind_none, Option.getD_none, applyAll_nil]
    | some ws =>
      rw [hws] at hexec
      obtain ⟨as, hbegin, has⟩ := ih (done ++ [⟨d, [], d⟩])
        (by rw [List.length_append, List.length_singleton, ← List.drop_drop, hqs]; rfl)
        (by rw [List.length_append, List.length_singleton]; exact hlt)
      rw [writesOf_concat hq, hws, Option.getD_some] at has
      refine ⟨.snapshot 0 :: .exec 0 :: as, by simpa using hbegin, ?_⟩
      simp only [Machine.run, machine, hsnap, hexec, Option.bind_some, serialFrom, hws]
      exact has

/-- **Serial execution is one of the interleavings**: from a reachable state with
nothing open, the state after `serial` is reachable, under every guard that is only
about the calls that begin. -/
theorem reachable_serial {init : D → Prop} {Ok : State R D K → Action R → Prop}
    (hOk : ∀ s a, (∀ i rpc, a ≠ .begin i rpc) → Ok s a) {d : D}
    (h : (machine stmts init).Reachable Ok ⟨d, Table.empty⟩) {rpc : R}
    (hrpc : Ok ⟨d, Table.empty⟩ (.begin 0 rpc)) :
    (machine stmts init).Reachable Ok ⟨serial stmts rpc d, Table.empty⟩ := by
  have hbegin : (machine stmts init).step (⟨d, Table.empty⟩ : State R D K) (.begin 0 rpc) =
      some (State.alone d ⟨0, rpc, [], none⟩) := rfl
  obtain ⟨as, hnot, has⟩ := run_alone stmts d rpc (stmts rpc) [] rfl (Nat.zero_le _)
  have hnil : writesOf (stmts rpc) ([] : List (Reading D K)) [] = [] := by
    cases stmts rpc <;> rfl
  rw [hnil] at has
  refine (h.step hrpc hbegin).run (fun a ha s => hOk s a ?_) has
  rintro i rpc rfl
  exact hnot i rpc ha

end ReadCommitted
