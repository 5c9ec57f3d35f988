import NextRole.Lib.Table
import NextRole.Lib.Transition

/-!
# Transactions under READ COMMITTED

Transactions of several statements run interleaved over one store of rows.  A
statement takes a snapshot of the committed rows when it starts and finishes at
a later moment, against the rows committed by then: between the two, other
transactions may commit.  What it writes stays private to its transaction until
the commit, and the keys it writes stay locked until then.  A statement that
waits for a key is enabled only when no other transaction has locked it; a
statement that skips locked keys reads the list of the keys the others hold.

A row that a statement re-checks and does not write is not kept locked, so the
interleavings here include those of the database.

## Main definitions

* `RowStore` — stores whose writes replace or remove one row.
* `Stmt`, `Outcome` — a statement as a function of its snapshot, the keys that
  other transactions hold and the rows committed when it finishes.
* `Txn`, `State`, `Action`, `step` — open transactions and their steps.

## Main results

* `row_applyAll` — the row that a list of writes leaves under a key.
* `step_sound` — what one step does, by cases.
-/

/-- Writes `W`, each of which replaces or removes the row of one key. -/
class RowWrite (W : Type*) (K V : outParam (Type*)) where
  key : W → K
  /-- The row a write leaves under its key. -/
  val : W → Option V

/-- Stores `D` of rows that the writes `W` change. -/
class RowStore (D : Type*) (W : outParam (Type*)) {K V : outParam (Type*)} [DecidableEq K]
    [RowWrite W K V] where
  row : D → K → Option V
  apply : D → W → D
  row_apply : ∀ d w k,
    row (apply d w) k = if k = RowWrite.key w then RowWrite.val w else row d k

namespace ReadCommitted

open RowWrite RowStore

variable {D W K V R : Type*} [DecidableEq K] [RowWrite W K V] [RowStore D W]

/-! ### Lists of writes -/

/-- Apply writes in order. -/
def applyAll (d : D) (ws : List W) : D := ws.foldl apply d

@[simp] theorem applyAll_nil (d : D) : applyAll d ([] : List W) = d := rfl

@[simp] theorem applyAll_cons (d : D) (w : W) (ws : List W) :
    applyAll d (w :: ws) = applyAll (apply d w) ws := rfl

theorem applyAll_append (d : D) (ws ws' : List W) :
    applyAll d (ws ++ ws') = applyAll (applyAll d ws) ws' :=
  List.foldl_append

/-- The keys that some writes touch. -/
def keys (ws : List W) : List K := ws.map key

theorem row_applyAll_of_not_mem {ws : List W} {k : K} (hk : k ∉ keys ws) (d : D) :
    row (applyAll d ws) k = row d k := by
  induction ws generalizing d with
  | nil => rfl
  | cons w ws ih =>
    rw [keys, List.map_cons, List.mem_cons, not_or] at hk
    rw [applyAll_cons, ih hk.2, row_apply, if_neg hk.1]

/-- After some writes, the row of a key is what one of them left, or the old one. -/
theorem row_applyAll (d : D) (ws : List W) (k : K) :
    (∃ w ∈ ws, key w = k ∧ row (applyAll d ws) k = val w) ∨
      k ∉ keys ws ∧ row (applyAll d ws) k = row d k := by
  induction ws generalizing d with
  | nil => exact Or.inr ⟨by simp [keys], rfl⟩
  | cons w ws ih =>
    rcases ih (apply d w) with ⟨w', hw', hk, hrow⟩ | ⟨hk, hrow⟩
    · exact Or.inl ⟨w', List.mem_cons_of_mem w hw', hk, hrow⟩
    · rw [row_apply] at hrow
      by_cases hw : k = key w
      · rw [if_pos hw] at hrow
        exact Or.inl ⟨w, List.mem_cons_self, hw.symm, hrow⟩
      · rw [if_neg hw] at hrow
        refine Or.inr ⟨?_, hrow⟩
        rw [keys, List.map_cons, List.mem_cons, not_or]
        exact ⟨hw, hk⟩

/-! ### Statements and transactions -/

/-- What a statement does: the keys it waits for, and its writes, if it does not fail. -/
structure Outcome (K W : Type*) where
  waits : List K
  writes : Option (List W)

/-- A statement, as a function of the snapshot it took when it started, the keys
that other transactions hold when it finishes, and the committed rows by then. -/
abbrev Stmt (D K W : Type*) := D → List K → D → Outcome K W

/-- The rows after one statement that runs alone. -/
def runAlone (d : D) (q : Stmt D K W) : D := applyAll d ((q d [] d).writes.getD [])

/-- What a statement of an open transaction has read. -/
structure Reading (D K : Type*) where
  snap : D
  held : List K
  cur : D

/-- The outcome of a statement after the writes `ws` of its own transaction. -/
def outcome (q : Stmt D K W) (ws : List W) (ρ : Reading D K) : Outcome K W :=
  q (applyAll ρ.snap ws) ρ.held (applyAll ρ.cur ws)

/-- The writes of a transaction with the statements `qs` after the readings `ρs`,
on top of the writes `ws`. -/
def writesOf : List (Stmt D K W) → List (Reading D K) → List W → List W
  | q :: qs, ρ :: ρs, ws => writesOf qs ρs (ws ++ (outcome q ws ρ).writes.getD [])
  | _, _, ws => ws

/-- An open transaction: the call it runs, what its finished statements have
read, and the snapshot of the statement under way. -/
structure Txn (R D K : Type*) where
  id : ℕ
  rpc : R
  done : List (Reading D K)
  snap : Option D

instance : Keyed (Txn R D K) ℕ := ⟨Txn.id⟩

omit [DecidableEq K] in
@[simp] theorem key_txn (t : Txn R D K) : Keyed.key t = t.id := rfl

/-- The committed rows and the open transactions. -/
structure State (R D K : Type*) where
  db : D
  txns : Table (Txn R D K)

/-- A step of one transaction, named by its number. -/
inductive Action (R : Type*)
  | begin (i : ℕ) (rpc : R)
  | snapshot (i : ℕ)
  | exec (i : ℕ)
  | commit (i : ℕ)
  | abort (i : ℕ)
  deriving Repr, DecidableEq

section System

variable (stmts : R → List (Stmt D K W))

/-- The writes of an open transaction so far. -/
def Txn.writes (t : Txn R D K) : List W := writesOf (stmts t.rpc) t.done []

/-- Whether every statement of a transaction has finished. -/
def Txn.complete (t : Txn R D K) : Bool := t.done.length == (stmts t.rpc).length

/-- The keys that open transactions other than `i` hold. -/
def State.held (s : State R D K) (i : ℕ) : List K :=
  (s.txns.select (fun t => t.id ≠ i)).flatMap fun t => keys (t.writes stmts)

/-- One step of one transaction. -/
def step (s : State R D K) : Action R → Option (State R D K)
  | .begin i rpc =>
    if (s.txns.get? i).isSome then none
    else some { s with txns := s.txns.put ⟨i, rpc, [], none⟩ }
  | .snapshot i =>
    (s.txns.get? i).bind fun t =>
      if t.snap.isNone ∧ t.complete stmts = false then
        some { s with txns := s.txns.put { t with snap := some s.db } }
      else none
  | .exec i =>
    (s.txns.get? i).bind fun t => t.snap.bind fun σ =>
      (stmts t.rpc)[t.done.length]?.bind fun q =>
        let ρ : Reading D K := ⟨σ, s.held stmts i, s.db⟩
        let o := outcome q (t.writes stmts) ρ
        if ∀ k ∈ o.waits ++ keys (o.writes.getD []), k ∉ ρ.held then
          match o.writes with
          -- a failing statement takes its transaction down
          | none => some { s with txns := s.txns.erase i }
          | some _ => some { s with txns := s.txns.put { t with done := t.done ++ [ρ], snap := none } }
        else none
  | .commit i =>
    (s.txns.get? i).bind fun t =>
      if t.complete stmts then
        some ⟨applyAll s.db (t.writes stmts), s.txns.erase i⟩
      else none
  | .abort i => some { s with txns := s.txns.erase i }

/-- The machine whose runs start from the committed rows `d` with nothing open. -/
def machine (init : D → Prop) : Machine (State R D K) (Action R) where
  init s := init s.db ∧ s.txns = Table.empty
  step := step stmts

/-! ### What one step does -/

/-- What the statement of transaction `i` reads when it finishes with the snapshot `σ`. -/
def State.reading (s : State R D K) (i : ℕ) (σ : D) : Reading D K :=
  ⟨σ, s.held stmts i, s.db⟩

/-- The steps as a relation, one constructor for each effect. -/
inductive Step (s : State R D K) : Action R → State R D K → Prop
  | begin {i : ℕ} {rpc : R} (hi : s.txns.get? i = none) :
      Step s (.begin i rpc) { s with txns := s.txns.put ⟨i, rpc, [], none⟩ }
  | snapshot {t : Txn R D K} (ht : t ∈ s.txns) (hn : t.snap = none) :
      Step s (.snapshot t.id) { s with txns := s.txns.put { t with snap := some s.db } }
  | exec {t : Txn R D K} {σ : D} {q : Stmt D K W} {ws : List W} (ht : t ∈ s.txns)
      (hσ : t.snap = some σ) (hq : (stmts t.rpc)[t.done.length]? = some q)
      (hws : (outcome q (t.writes stmts) (s.reading stmts t.id σ)).writes = some ws)
      (hfree : ∀ k ∈ keys ws, k ∉ s.held stmts t.id) :
      Step s (.exec t.id) { s with
        txns := s.txns.put { t with done := t.done ++ [s.reading stmts t.id σ], snap := none } }
  | fail {t : Txn R D K} (ht : t ∈ s.txns) :
      Step s (.exec t.id) { s with txns := s.txns.erase t.id }
  | commit {t : Txn R D K} (ht : t ∈ s.txns) (hc : t.complete stmts = true) :
      Step s (.commit t.id) ⟨applyAll s.db (t.writes stmts), s.txns.erase t.id⟩
  | abort {i : ℕ} : Step s (.abort i) { s with txns := s.txns.erase i }

theorem step_sound {s s' : State R D K} {a : Action R} (h : step stmts s a = some s') :
    Step stmts s a s' := by
  cases a with
  | begin i rpc =>
    simp only [step] at h
    split at h
    · cases h
    · next hi =>
      cases h
      exact .begin (by simpa using hi)
  | snapshot i =>
    simp only [step, Option.bind_eq_some_iff] at h
    obtain ⟨t, hget, h⟩ := h
    obtain ⟨ht, rfl⟩ := Table.get?_eq_some.mp hget
    split at h
    · next hn =>
      cases h
      exact .snapshot ht (by simpa using hn.1)
    · cases h
  | exec i =>
    simp only [step, Option.bind_eq_some_iff] at h
    obtain ⟨t, hget, σ, hσ, q, hq, h⟩ := h
    obtain ⟨ht, rfl⟩ := Table.get?_eq_some.mp hget
    split at h
    · next hfree =>
      split at h
      · cases h
        exact .fail ht
      · next ws hws =>
        cases h
        refine .exec ht hσ hq hws fun k hk => hfree k ?_
        rw [hws, Option.getD_some]
        exact List.mem_append_right _ hk
    · cases h
  | commit i =>
    simp only [step, Option.bind_eq_some_iff] at h
    obtain ⟨t, hget, h⟩ := h
    obtain ⟨ht, rfl⟩ := Table.get?_eq_some.mp hget
    split at h
    · next hc =>
      cases h
      exact .commit ht hc
    · cases h
  | abort i =>
    cases h
    exact .abort

end System

end ReadCommitted
