import NextRole.Agents.RunSql

/-!
# Partial results are disclosed

The answer to a query says that rows are missing whenever they are: what is cut off by the added
limit, by the cap of the server or by the table is noticed by its number of rows.  From the numbers
alone a result that is cut is not told from one that is just as long, so a complete result of that
length is called partial, too; and the notice about the cap names one number whatever the cap is.

## Main definitions

* `appliedLimit` — the limit that is added to a statement.
* `answerTo` — the answer to a statement with the rows it denotes.
* `Disclosed` — the answer says that rows are missing exactly if they are, and its numbers are true.

## Main results

* `disclosed_iff` — **when an answer discloses what is missing**, and `not_disclosed`.
-/

namespace NextRole

section Disclosure

variable {V : Type} (wide : Char → Bool) (elapsed : String)
  (writeText : String → QueryOutcome V → Except String String) (caps : QueryCaps)
  (displayLimit maxRows : ℕ) (sql : String) (saveAs : Option String) (result : QueryResult V)

/-- The name that is passed as `save_as`; an empty one counts as none. -/
def saveName (saveAs : Option String) : Option String := saveAs.filter fun s => s ≠ ""

/-- The limit that is added to a statement. -/
def appliedLimit : Option ℕ :=
  let limit := if (saveName saveAs).isSome then none else some displayLimit
  if (sentBody wide sql limit).2 then limit else none

/-- The rows that come back from the server. -/
def returnedRows : List (List V) :=
  (result.returned caps.serverMaxResultRows (appliedLimit wide displayLimit sql saveAs)).rows

/-- What is kept of them. -/
def returnedOutcome : QueryOutcome V where
  columns := result.columns
  rows := returnedRows wide caps displayLimit sql saveAs result
  elapsed := elapsed
  readRows := result.readRows
  limitInjected := (appliedLimit wide displayLimit sql saveAs).isSome
  injectedLimit := appliedLimit wide displayLimit sql saveAs
  serverCapped :=
    caps.serverMaxResultRows ≤ (returnedRows wide caps displayLimit sql saveAs result).length

/-- The answer to a statement that denotes the rows of a result. -/
def answerTo : Except String (SqlAnswer V) :=
  runSqlWith wide
    (fun _ => .ok (result.returned caps.serverMaxResultRows
      (appliedLimit wide displayLimit sql saveAs)))
    elapsed writeText caps displayLimit maxRows sql saveAs

/-- The table says that rows are missing. -/
def RenderedTable.StatesMissing (table : RenderedTable V) : Prop :=
  (∃ k, .showing k ∈ table.summary) ∨ table.notices ≠ []

/-- An answer about `total` rows, of which `returned` come back: it says that rows are missing
exactly if fewer are shown, and every number of rows in it is the true one. -/
structure Disclosed (total returned cap : ℕ) (limit : Option ℕ) (answer : SqlAnswer V) : Prop where
  missing : answer.rendered.StatesMissing ↔ answer.rendered.shown.length < total
  rowCount : ∀ k, .rowCount k ∈ answer.rendered.summary →
    k = returned ∧ (k = total ∨ answer.rendered.notices ≠ [])
  showing : ∀ k, .showing k ∈ answer.rendered.summary → k = answer.rendered.shown.length
  limitReached : ∀ k, .limitReached k ∈ answer.rendered.notices → limit = some k
  serverCap : ∀ k, .serverCap k ∈ answer.rendered.notices → k = cap
  full : ∀ k path, answer.saved = some (.full k path) → k = total

variable {wide elapsed writeText caps displayLimit maxRows sql saveAs result}

theorem length_returnedRows : (returnedRows wide caps displayLimit sql saveAs result).length =
    min ((appliedLimit wide displayLimit sql saveAs).elim caps.serverMaxResultRows
      fun n => min n caps.serverMaxResultRows) result.rows.length := by
  rw [returnedRows, QueryResult.returned, List.length_take]

theorem sentBody_snd (limit : Option ℕ) :
    (sentBody wide sql limit).2 = (if (sentBody wide sql limit).2 then limit else none).isSome := by
  cases limit with
  | none => rfl
  | some n => cases (sentBody wide sql (some n)).2 <;> rfl

/-- What the tool answers to a statement that is accepted. -/
theorem answerTo_eq (h : classifyStatement sql = none) :
    answerTo wide elapsed writeText caps displayLimit maxRows sql saveAs result =
      .ok { rendered :=
              renderTable (returnedOutcome wide elapsed caps displayLimit sql saveAs result) maxRows
            saved := (saveName saveAs).map fun name =>
              match writeText (safeSegment (some name) "result.csv")
                  (returnedOutcome wide elapsed caps displayLimit sql saveAs result) with
              | .error e => .failed e
              | .ok path =>
                .full (returnedRows wide caps displayLimit sql saveAs result).length path } := by
  have houtcome : runReadonly wide
      (fun _ => .ok (result.returned caps.serverMaxResultRows
        (appliedLimit wide displayLimit sql saveAs))) elapsed caps sql
        (if (saveName saveAs).isSome then none else some displayLimit) =
      .ok (returnedOutcome wide elapsed caps displayLimit sql saveAs result) := by
    rw [runReadonly, h, returnedOutcome, appliedLimit]
    simp only [Except.map, ← sentBody_snd]
    rfl
  rw [answerTo, runSqlWith]
  change Except.map _ (runReadonly wide _ elapsed caps sql
    (if (saveName saveAs).isSome then none else some displayLimit)) = _
  rw [houtcome]
  rfl

/-! ### The parts of a table -/

theorem mem_summary_rowCount {outcome : QueryOutcome V} {k : ℕ} :
    .rowCount k ∈ (renderTable outcome maxRows).summary ↔ k = outcome.rows.length := by
  simp only [renderTable, List.mem_append]
  cases outcome.readRows <;> split <;> simp

theorem mem_summary_showing {outcome : QueryOutcome V} {k : ℕ} :
    .showing k ∈ (renderTable outcome maxRows).summary ↔
      k = (outcome.rows.take maxRows).length ∧ maxRows < outcome.rows.length := by
  have hlen : (outcome.rows.take maxRows).length < outcome.rows.length ↔
      maxRows < outcome.rows.length := by
    rw [List.length_take]
    omega
  simp only [renderTable, List.mem_append, hlen]
  cases outcome.readRows <;> split <;> simp [*]

theorem mem_notices_limitReached {outcome : QueryOutcome V} {k : ℕ} :
    .limitReached k ∈ (renderTable outcome maxRows).notices ↔
      outcome.limitInjected = true ∧ outcome.injectedLimit = some k ∧
        outcome.rows.length = k := by
  simp only [renderTable, List.mem_append]
  cases outcome.injectedLimit with
  | none =>
    dsimp only
    split <;> simp
  | some limit =>
    simp only [Option.some_inj]
    split <;> split <;> simp <;> grind

theorem mem_notices_serverCap {outcome : QueryOutcome V} {k : ℕ} :
    .serverCap k ∈ (renderTable outcome maxRows).notices ↔
      outcome.serverCapped = true ∧ k = 10000 := by
  simp only [renderTable, List.mem_append]
  cases outcome.injectedLimit with
  | none =>
    dsimp only
    split <;> simp [*]
  | some limit =>
    dsimp only
    split <;> split <;> simp [*]

theorem notices_ne_nil_iff {outcome : QueryOutcome V} :
    (renderTable outcome maxRows).notices ≠ [] ↔
      outcome.limitInjected = true ∧ outcome.injectedLimit = some outcome.rows.length ∨
        outcome.serverCapped = true := by
  constructor
  · intro hne
    obtain ⟨notice, h⟩ := List.exists_mem_of_ne_nil _ hne
    cases notice with
    | limitReached k =>
      obtain ⟨hinjected, hlimit, rfl⟩ := mem_notices_limitReached.mp h
      exact .inl ⟨hinjected, hlimit⟩
    | serverCap k => exact .inr (mem_notices_serverCap.mp h).1
  · rintro (⟨hinjected, hlimit⟩ | hcapped)
    · exact List.ne_nil_of_mem (mem_notices_limitReached.mpr ⟨hinjected, hlimit, rfl⟩)
    · exact List.ne_nil_of_mem (mem_notices_serverCap.mpr ⟨hcapped, rfl⟩)

/-! ### Sizes -/

/-- What the sizes must be: a complete result that is shown is neither as long as the limit that was
added nor as the cap; where the cap is reached it is the one that the notice names; and what is
saved is not longer than the cap. -/
structure SizesTell (total cap maxRows : ℕ) (limit : Option ℕ) (saves : Prop) : Prop where
  notExact : ¬ (total ≤ maxRows ∧ total ≤ cap ∧ (∀ n, limit = some n → total ≤ n) ∧
    (limit = some total ∨ total = cap))
  capNamed : cap ≤ total → (∀ n, limit = some n → cap ≤ n) → cap = 10000
  savedFull : saves → total ≤ cap

variable (wide elapsed writeText caps displayLimit sql saveAs result)

/-- The result is saved under a name. -/
def Saves : Prop :=
  ∃ name path, saveName saveAs = some name ∧
    writeText (safeSegment (some name) "result.csv")
      (returnedOutcome wide elapsed caps displayLimit sql saveAs result) = .ok path

variable {wide elapsed writeText caps displayLimit sql saveAs result}

theorem appliedLimit_of_saveName {name : String} (h : saveName saveAs = some name) :
    appliedLimit wide displayLimit sql saveAs = none := by
  rw [appliedLimit, h]
  rfl

/-- Whether the notices tell, by the numbers. -/
theorem states_iff_notExact {total cap r : ℕ} {limit : Option ℕ}
    (hr : r = min (limit.elim cap fun n => min n cap) total) :
    ((maxRows < r ∨ limit = some r ∨ cap ≤ r) ↔ min maxRows r < total) ↔
      ¬ (total ≤ maxRows ∧ total ≤ cap ∧ (∀ n, limit = some n → total ≤ n) ∧
        (limit = some total ∨ total = cap)) := by
  cases limit with
  | none =>
    simp only [Option.elim_none] at hr
    simp only [reduceCtorEq, false_or, IsEmpty.forall_iff, implies_true, true_and]
    omega
  | some n =>
    simp only [Option.elim_some] at hr
    simp only [Option.some_inj, forall_eq']
    omega

theorem capped_iff {total cap r : ℕ} {limit : Option ℕ}
    (hr : r = min (limit.elim cap fun n => min n cap) total) :
    cap ≤ r ↔ cap ≤ total ∧ ∀ n, limit = some n → cap ≤ n := by
  cases limit with
  | none =>
    simp only [Option.elim_none] at hr
    simp only [reduceCtorEq, IsEmpty.forall_iff, implies_true, and_true]
    omega
  | some n =>
    simp only [Option.elim_some] at hr
    simp only [Option.some_inj, forall_eq']
    omega

theorem eq_total_or_reached {total cap r : ℕ} {limit : Option ℕ}
    (hr : r = min (limit.elim cap fun n => min n cap) total) :
    r = total ∨ limit = some r ∨ cap ≤ r := by
  cases limit with
  | none =>
    simp only [Option.elim_none] at hr
    omega
  | some n =>
    simp only [Option.elim_some] at hr
    simp only [Option.some_inj]
    omega

theorem statesMissing_iff :
    (renderTable (returnedOutcome wide elapsed caps displayLimit sql saveAs result)
      maxRows).StatesMissing ↔
        maxRows < (returnedRows wide caps displayLimit sql saveAs result).length ∨
          appliedLimit wide displayLimit sql saveAs =
            some (returnedRows wide caps displayLimit sql saveAs result).length ∨
            caps.serverMaxResultRows ≤
              (returnedRows wide caps displayLimit sql saveAs result).length := by
  rw [RenderedTable.StatesMissing, notices_ne_nil_iff]
  refine or_congr ?_ (or_congr ?_ ?_)
  · simp only [mem_summary_showing, exists_eq_left]
    rfl
  · rw [returnedOutcome]
    constructor
    · exact And.right
    · exact fun h => ⟨by rw [h]; rfl, h⟩
  · rw [returnedOutcome, decide_eq_true_eq]

theorem answerTo_ne_ok {rejection : String} (h : classifyStatement sql = some rejection)
    (answer : SqlAnswer V) :
    answerTo wide elapsed writeText caps displayLimit maxRows sql saveAs result ≠ .ok answer := by
  simp only [answerTo, runSqlWith, runReadonly, h, Except.map]
  exact nofun

variable (wide elapsed writeText caps displayLimit maxRows sql saveAs result)

/-- **When an answer discloses what is missing**, and nothing else, with true numbers: exactly if
the sizes tell. -/
theorem disclosed_iff :
    (∀ answer,
      answerTo wide elapsed writeText caps displayLimit maxRows sql saveAs result = .ok answer →
        Disclosed result.rows.length
          (returnedRows wide caps displayLimit sql saveAs result).length caps.serverMaxResultRows
          (appliedLimit wide displayLimit sql saveAs) answer) ↔
      (classifyStatement sql = none →
        SizesTell result.rows.length caps.serverMaxResultRows maxRows
          (appliedLimit wide displayLimit sql saveAs)
          (Saves wide elapsed writeText caps displayLimit sql saveAs result)) := by
  have hr : (returnedRows wide caps displayLimit sql saveAs result).length = _ :=
    length_returnedRows
  cases hclassify : classifyStatement sql with
  | some rejection =>
    refine ⟨fun _ => nofun, fun _ answer hanswer => ?_⟩
    exact absurd hanswer (answerTo_ne_ok hclassify answer)
  | none =>
    rw [answerTo_eq hclassify]
    constructor
    · intro h _
      have hdisclosed := h _ rfl
      refine ⟨?_, fun hcap hlimit => ?_, ?_⟩
      · rw [← states_iff_notExact hr]
        refine statesMissing_iff.symm.trans (hdisclosed.missing.trans ?_)
        simp only [renderTable, returnedOutcome, List.length_take]
      · refine (hdisclosed.serverCap 10000 (mem_notices_serverCap.mpr ⟨?_, rfl⟩)).symm
        exact decide_eq_true ((capped_iff hr).mpr ⟨hcap, hlimit⟩)
      · rintro ⟨name, path, hname, hwrite⟩
        have hfull := hdisclosed.full
          (returnedRows wide caps displayLimit sql saveAs result).length path
          (by simp only [hname, hwrite, Option.map_some])
        rw [appliedLimit_of_saveName hname, Option.elim_none] at hr
        omega
    · intro h answer hanswer
      obtain rfl := Except.ok.inj hanswer
      have hsizes := h rfl
      refine ⟨?_, ?_, ?_, ?_, ?_, ?_⟩
      · rw [statesMissing_iff]
        refine ((states_iff_notExact hr).mpr hsizes.notExact).trans ?_
        simp only [renderTable, returnedOutcome, List.length_take]
      · intro k hk
        have hk' := mem_summary_rowCount.mp hk
        refine ⟨hk', (eq_total_or_reached hr).imp hk'.trans fun hreached => ?_⟩
        refine notices_ne_nil_iff.mpr (hreached.imp (fun hlimit => ?_) fun hcap => ?_)
        · exact ⟨Option.isSome_iff_exists.mpr ⟨_, hlimit⟩, hlimit⟩
        · exact decide_eq_true hcap
      · intro k hk
        exact (mem_summary_showing.mp hk).1
      · intro k hk
        exact (mem_notices_limitReached.mp hk).2.1
      · intro k hk
        obtain ⟨hcapped, rfl⟩ := mem_notices_serverCap.mp hk
        obtain ⟨hcap, hlimit⟩ := (capped_iff hr).mp (of_decide_eq_true hcapped)
        exact (hsizes.capNamed hcap hlimit).symm
      · intro k path hfull
        obtain ⟨name, hname, hsaved⟩ := Option.map_eq_some_iff.mp hfull
        cases hwrite : writeText (safeSegment (some name) "result.csv")
            (returnedOutcome wide elapsed caps displayLimit sql saveAs result) with
        | error e =>
          rw [hwrite] at hsaved
          cases hsaved
        | ok path' =>
          rw [hwrite] at hsaved
          obtain ⟨rfl, rfl⟩ := SavedResult.full.inj hsaved
          have hcap := hsizes.savedFull ⟨name, path', hname, hwrite⟩
          rw [appliedLimit_of_saveName hname, Option.elim_none] at hr
          omega

end Disclosure

/-- The ids of all runs, as many as are shown. -/
def allRuns : QueryResult Unit where
  columns := ["run_id"]
  rows := List.replicate 200 [()]
  columns_ne_nil := List.cons_ne_nil _ _

/-- A query without limit. -/
def runsQuery : String := "SELECT run_id FROM nextrole_marts.fct_run"

theorem not_disclosed : ¬ ∀ (V : Type) wide elapsed writeText caps displayLimit maxRows sql saveAs
    (result : QueryResult V) answer,
      answerTo wide elapsed writeText caps displayLimit maxRows sql saveAs result = .ok answer →
        Disclosed result.rows.length
          (returnedRows wide caps displayLimit sql saveAs result).length caps.serverMaxResultRows
          (appliedLimit wide displayLimit sql saveAs) answer := by
  intro h
  have hclassify : classifyStatement runsQuery = none := by decide +kernel
  have hlimit : appliedLimit (fun _ => false) 200 runsQuery none = some 200 := by decide +kernel
  have hall : allRuns.rows.length = 200 := List.length_replicate
  have hlen : (returnedRows (fun _ => false) {} 200 runsQuery none allRuns).length = 200 := by
    rw [length_returnedRows, hlimit, hall]
    rfl
  have hdisclosed := h Unit (fun _ => false) "0.01" (fun _ _ => .error "") {} 200 200 runsQuery none
    allRuns _ (answerTo_eq hclassify)
  have hstates : (renderTable
      (returnedOutcome (fun _ => false) "0.01" {} 200 runsQuery none allRuns) 200).StatesMissing :=
    statesMissing_iff.mpr (.inr (.inl (by rw [hlimit, hlen])))
  have hshown := hdisclosed.missing.mp hstates
  simp only [renderTable, returnedOutcome, List.length_take, hlen, hall] at hshown
  omega

end NextRole
