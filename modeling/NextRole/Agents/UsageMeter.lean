import Mathlib.Data.List.Infix
import NextRole.Agents.Usage
import NextRole.Lib.Dict
import NextRole.Lib.Transition

/-!
# Metering the model calls

`UsageMeter` of `agents/usage.py`: one object hears the start and the end of every call of a chat
model, of all runs and of the subagents in them, and keeps between the two whom the call is billed
to.  The end of a call takes its entry out before it writes to the ledger, so nothing that other
calls do comes between.  A row that the database does not take is given up, and the run goes on.

## Main definitions

* `TokenUsage`, `TokenUsage.fromMetadata`, `TokenUsage.costUsd` — what a call has used.
* `UsageMeter.onChatModelStart`, `UsageMeter.onLlmEnd`, `UsageMeter.onLlmError` — the meter.
* `Metering`, `metering` — calls in any order, and the rows on their way to the ledger.
* `CallPhase.bill` — the row that is due for a call.

## Main results

* `accounted_of_reachable` — what is due for a call is on its way, in the ledger or given up.
* `billedOnce_of_reachable` — **each call that used something is billed once, to its caller**,
  if the database takes its row.
* `not_billedOnce` — a row that it does not take.
-/

namespace NextRole

/-! ### What a call has used -/

/-- `input_token_details` of the metadata of a message. -/
structure InputTokenDetails where
  cacheRead : Option Int := none
  cacheCreation : Option Int := none
  ephemeral5mInputTokens : Option Int := none
  ephemeral1hInputTokens : Option Int := none
  deriving Repr, DecidableEq

/-- `usage_metadata` of a message. -/
structure UsageMetadata where
  inputTokens : Option Int := none
  outputTokens : Option Int := none
  inputTokenDetails : Option InputTokenDetails := none
  deriving Repr, DecidableEq

structure TokenUsage where
  inputTokens : Int := 0
  outputTokens : Int := 0
  cacheReadTokens : Int := 0
  cacheWriteTokens : Int := 0
  cacheWrite1hTokens : Int := 0
  deriving Repr, DecidableEq

/-- `__add__`. -/
def TokenUsage.add (a b : TokenUsage) : TokenUsage where
  inputTokens := a.inputTokens + b.inputTokens
  outputTokens := a.outputTokens + b.outputTokens
  cacheReadTokens := a.cacheReadTokens + b.cacheReadTokens
  cacheWriteTokens := a.cacheWriteTokens + b.cacheWriteTokens
  cacheWrite1hTokens := a.cacheWrite1hTokens + b.cacheWrite1hTokens

/-- `from_metadata`. -/
def TokenUsage.fromMetadata : Option UsageMetadata → TokenUsage
  | none => {}
  | some usage =>
    let details := usage.inputTokenDetails.getD {}
    let write5m := details.ephemeral5mInputTokens.getD 0
    let write1h := details.ephemeral1hInputTokens.getD 0
    { inputTokens := usage.inputTokens.getD 0
      outputTokens := usage.outputTokens.getD 0
      cacheReadTokens := details.cacheRead.getD 0
      cacheWriteTokens := max (details.cacheCreation.getD 0) (write5m + write1h)
      cacheWrite1hTokens := write1h }

/-! ### Prices -/

/-- The prices of a million tokens: input, output, cache read, cache write. -/
structure ModelPrice where
  input : ℚ
  output : ℚ
  read : ℚ
  write : ℚ

/-- `_PRICES`. -/
def modelPrices : List (String × ModelPrice) := [
  ("claude-fable", ⟨10, 50, 1 / 4, 25 / 2⟩),
  ("claude-opus-5-5", ⟨4, 20, 1 / 5, 5⟩),
  ("claude-opus", ⟨5, 25, 1 / 2, 25 / 4⟩),
  ("claude-sonnet-5", ⟨2, 10, 1 / 5, 5 / 2⟩),
  ("claude-sonnet", ⟨3, 15, 3 / 10, 15 / 4⟩),
  ("claude-haiku-5-5", ⟨1 / 10, 1 / 2, 1 / 100, 1 / 8⟩),
  ("claude-haiku", ⟨1, 5, 1 / 10, 5 / 4⟩)]

/-- `_FALLBACK_PRICE`. -/
def fallbackPrice : ModelPrice := ⟨2, 10, 1 / 5, 5 / 2⟩

/-- `str.lower` of a character, as far as the patterns can tell: they are ASCII, and of the other
characters only two have a lower case with ASCII in it. -/
def lowerChars (c : Char) : List Char :=
  if c = '\u212a' then ['k'] else if c = '\u0130' then ['i', '\u0307'] else [c.toLower]

/-- `_price_for`: the first of the longest patterns that occur in the name. -/
def priceFor (model : Option String) : ModelPrice :=
  let name := (model.getD "").toList.flatMap lowerChars
  let found := modelPrices.filter fun p => p.1.toList <:+: name
  let longest := found.foldl (fun best p =>
    match best with
    | none => some p
    | some b => if b.1.length < p.1.length then some p else some b) none
  (longest.map Prod.snd).getD fallbackPrice

/-- `cost_usd`. -/
def TokenUsage.costUsd (u : TokenUsage) (model : Option String) : ℚ :=
  let price := priceFor model
  let uncached := max (u.inputTokens - u.cacheReadTokens - u.cacheWriteTokens) 0
  let write5m := max (u.cacheWriteTokens - u.cacheWrite1hTokens) 0
  (uncached * price.input + u.cacheReadTokens * price.read + write5m * price.write +
    u.cacheWrite1hTokens * price.input * 2 + u.outputTokens * price.output) / 1000000

/-! ### The meter -/

/-- What the meter reads of the config in context: the user, and the ids of the run, as texts. -/
structure CallConfig where
  authUser : Option String := none
  authUserId : Option String := none
  metadataRunId : Option String := none
  configurableRunId : Option String := none
  deriving Repr, DecidableEq

/-- A text that counts as true. -/
def nonEmpty (s : Option String) : Option String := s.filter (· ≠ "")

/-- `current_identity`. -/
def CallConfig.identity (config : CallConfig) : Option String :=
  (nonEmpty config.authUser).or (nonEmpty config.authUserId)

/-- The id of the run in the metadata, or else in the configurable. -/
def CallConfig.runId (config : CallConfig) : Option String :=
  (nonEmpty config.metadataRunId).or (nonEmpty config.configurableRunId)

/-- The start of a call: the config in context, if there is one, and the name of the model. -/
structure CallStart where
  config : Option CallConfig
  lsModelName : Option String := none
  deriving Repr, DecidableEq

/-- Whom a call is billed to, or `DEFAULT_OWNER`. -/
def CallStart.owner (start : CallStart) : String :=
  (start.config.bind CallConfig.identity).getD "default"

def CallStart.runId (start : CallStart) : Option String := start.config.bind CallConfig.runId

/-- What `_calls` keeps of a call. -/
structure MeterEntry where
  owner : String := "default"
  runId : Option String := none
  model : Option String := none
  deriving Repr, DecidableEq

/-- The metadata of a generation. -/
structure Generation where
  usageMetadata : Option UsageMetadata := none
  modelName : Option String := none
  model : Option String := none
  deriving Repr, DecidableEq

/-- `LLMResult.generations`. -/
abbrev LLMResult := List (List Generation)

/-- `_usage_from_result`. -/
def usageFromResult (response : LLMResult) : TokenUsage :=
  response.flatten.foldl (fun total g => total.add (.fromMetadata g.usageMetadata)) {}

/-- `_model_from_result`. -/
def modelFromResult (response : LLMResult) : Option String :=
  response.flatten.findSome? fun g => (nonEmpty g.modelName).or (nonEmpty g.model)

/-- A row that `record_model_usage` inserts. -/
structure UsageRow where
  owner : String
  runId : Option String
  model : Option String
  inputTokens : Int
  outputTokens : Int
  cacheReadTokens : Int
  cacheWriteTokens : Int
  costUsd : ℚ
  deriving DecidableEq

/-- `record_model_usage`. -/
def usageRow (owner : String) (runId model : Option String) (usage : TokenUsage) : UsageRow where
  owner := owner
  runId := runId
  model := model
  inputTokens := usage.inputTokens
  outputTokens := usage.outputTokens
  cacheReadTokens := usage.cacheReadTokens
  cacheWriteTokens := usage.cacheWriteTokens
  costUsd := usage.costUsd model

/-- The entries of the calls under way. -/
structure UsageMeter where
  calls : Dict Uuid MeterEntry := {}

namespace UsageMeter

variable (meter : UsageMeter) (callId : Uuid)

/-- `on_chat_model_start`. -/
def onChatModelStart (start : CallStart) : UsageMeter where
  calls := meter.calls.set callId ⟨start.owner, start.runId, nonEmpty start.lsModelName⟩

/-- `on_llm_end`, to the row that it gives to `record_model_usage`. -/
def onLlmEnd (response : LLMResult) : UsageMeter × Option UsageRow :=
  let entry := (meter.calls.get? callId).getD {}
  let usage := usageFromResult response
  (⟨meter.calls.erase callId⟩,
    if usage = {} then none
    else some (usageRow entry.owner entry.runId ((modelFromResult response).or entry.model) usage))

/-- `on_llm_error`. -/
def onLlmError : UsageMeter where
  calls := meter.calls.erase callId

end UsageMeter

/-! ### Calls in any order -/

/-- How far a call is. -/
inductive CallPhase
  | running (start : CallStart)
  | ended (start : CallStart) (response : LLMResult)
  | failed (start : CallStart)
  deriving DecidableEq

/-- A call has ended or failed. -/
def CallPhase.finished : CallPhase → Bool
  | running _ => false
  | _ => true

/-- The rows that are due for a call: one if it ended and used something, with the owner and the
run of the config in context at its start. -/
def CallPhase.bill : CallPhase → List UsageRow
  | ended start response =>
    if usageFromResult response = {} then []
    else [usageRow start.owner start.runId
      ((modelFromResult response).or (nonEmpty start.lsModelName)) (usageFromResult response)]
  | _ => []

/-- The calls so far, the meter, the rows that are being inserted, those in the ledger, and those
that the database did not take; each row with its call. -/
structure Metering where
  phases : Dict Uuid CallPhase := {}
  meter : UsageMeter := {}
  recording : List (Uuid × UsageRow) := []
  ledger : List (Uuid × UsageRow) := []
  lost : List (Uuid × UsageRow) := []

inductive MeteringAction
  | start (callId : Uuid) (start : CallStart)
  | llmEnd (callId : Uuid) (response : LLMResult)
  | llmError (callId : Uuid)
  /-- The insertion at an index finishes; `taken` says whether the database has the row. -/
  | insert (index : ℕ) (taken : Bool)

/-- A call starts once, and ends or fails once after that. -/
def Metering.step (s : Metering) : MeteringAction → Option Metering
  | .start callId start =>
    match s.phases.get? callId with
    | some _ => none
    | none => some { s with
        phases := s.phases.set callId (.running start)
        meter := s.meter.onChatModelStart callId start }
  | .llmEnd callId response =>
    match s.phases.get? callId with
    | some (.running start) => some { s with
        phases := s.phases.set callId (.ended start response)
        meter := (s.meter.onLlmEnd callId response).1
        recording := s.recording ++ ((s.meter.onLlmEnd callId response).2.map (callId, ·)).toList }
    | _ => none
  | .llmError callId =>
    match s.phases.get? callId with
    | some (.running start) => some { s with
        phases := s.phases.set callId (.failed start)
        meter := s.meter.onLlmError callId }
    | _ => none
  | .insert index taken =>
    match s.recording[index]? with
    | none => none
    | some row => some { s with
        recording := s.recording.eraseIdx index
        ledger := if taken then s.ledger ++ [row] else s.ledger
        lost := if taken then s.lost else s.lost ++ [row] }

/-- Calls of any number of runs that share a meter. -/
def metering : Machine Metering MeteringAction where
  init s := s = {}
  step := Metering.step

/-! ### Every row is accounted for -/

/-- The rows of a call. -/
def rowsOf (callId : Uuid) (rows : List (Uuid × UsageRow)) : List UsageRow :=
  (rows.filter fun r => r.1 = callId).map Prod.snd

/-- The rows that are due for a call. -/
def Metering.due (s : Metering) (callId : Uuid) : List UsageRow :=
  ((s.phases.get? callId).map CallPhase.bill).getD []

/-- The meter has the entries of the calls under way, and what is due for a call is on its way,
in the ledger or given up. -/
structure CallsAccounted (s : Metering) : Prop where
  entries : ∀ callId, s.meter.calls.get? callId = (s.phases.get? callId).bind fun
    | .running start => some ⟨start.owner, start.runId, nonEmpty start.lsModelName⟩
    | _ => none
  rows : ∀ callId, (rowsOf callId (s.recording ++ s.ledger ++ s.lost)).Perm (s.due callId)

@[simp] theorem rowsOf_append (callId : Uuid) (rows rows' : List (Uuid × UsageRow)) :
    rowsOf callId (rows ++ rows') = rowsOf callId rows ++ rowsOf callId rows' := by
  simp [rowsOf, List.filter_append]

theorem rowsOf_perm {rows rows' : List (Uuid × UsageRow)} (h : rows.Perm rows') (callId : Uuid) :
    (rowsOf callId rows).Perm (rowsOf callId rows') :=
  (h.filter _).map _

theorem rowsOf_singleton (callId : Uuid) (r : Uuid × UsageRow) :
    rowsOf callId [r] = if r.1 = callId then [r.2] else [] := by
  by_cases h : r.1 = callId <;> simp [rowsOf, h]

namespace CallsAccounted

variable {s s' : Metering}

/-- A call that starts. -/
theorem start (h : CallsAccounted s) {callId : Uuid} {start : CallStart}
    (hnew : s.phases.get? callId = none) :
    CallsAccounted { s with
      phases := s.phases.set callId (.running start)
      meter := s.meter.onChatModelStart callId start } := by
  refine ⟨fun id => ?_, fun id => ?_⟩
  · simp only [UsageMeter.onChatModelStart, Dict.get?_set]
    split
    · rfl
    · exact h.entries id
  · refine (h.rows id).trans (List.Perm.of_eq ?_)
    simp only [Metering.due, Dict.get?_set]
    split
    · next heq =>
      rw [heq, hnew]
      rfl
    · rfl

/-- A call that is over leaves the meter. -/
theorem entries_erase (h : CallsAccounted s) {callId : Uuid} {phase : CallPhase}
    (hover : phase.finished = true) (id : Uuid) :
    (s.meter.calls.erase callId).get? id = ((s.phases.set callId phase).get? id).bind fun
      | .running start => some ⟨start.owner, start.runId, nonEmpty start.lsModelName⟩
      | _ => none := by
  rw [Dict.get?_erase, Dict.get?_set]
  split
  · cases phase with
    | running => cases hover
    | ended => rfl
    | failed => rfl
  · exact h.entries id

/-- A call that ends is billed as it was started. -/
theorem llmEnd (h : CallsAccounted s) {callId : Uuid} {start : CallStart} {response : LLMResult}
    (hrunning : s.phases.get? callId = some (.running start)) :
    CallsAccounted { s with
      phases := s.phases.set callId (.ended start response)
      meter := (s.meter.onLlmEnd callId response).1
      recording := s.recording ++
        ((s.meter.onLlmEnd callId response).2.map (callId, ·)).toList } := by
  have hentry : s.meter.calls.get? callId =
      some ⟨start.owner, start.runId, nonEmpty start.lsModelName⟩ := by
    rw [h.entries, hrunning]
    rfl
  -- the meter gives the row that is due
  have hbill : (s.meter.onLlmEnd callId response).2.toList =
      (CallPhase.ended start response).bill := by
    simp only [UsageMeter.onLlmEnd, hentry, Option.getD_some, CallPhase.bill]
    split <;> rfl
  have hown : s.due callId = [] := by
    rw [Metering.due, hrunning]
    rfl
  refine ⟨h.entries_erase rfl, fun id => ?_⟩
  have hsplit : rowsOf id (s.recording ++
      ((s.meter.onLlmEnd callId response).2.map (callId, ·)).toList ++ s.ledger ++ s.lost) =
      rowsOf id s.recording ++ (if id = callId then (s.meter.onLlmEnd callId response).2.toList
        else []) ++ rowsOf id s.ledger ++ rowsOf id s.lost := by
    rw [rowsOf_append, rowsOf_append, rowsOf_append]
    cases (s.meter.onLlmEnd callId response).2 with
    | none => simp [rowsOf]
    | some row =>
      rw [Option.map_some, Option.toList_some, rowsOf_singleton, Option.toList_some]
      simp only [eq_comm]
  have hrows := h.rows id
  rw [rowsOf_append, rowsOf_append] at hrows
  rw [hsplit]
  by_cases hid : id = callId
  · subst hid
    rw [hown] at hrows
    have hnil := hrows.eq_nil
    simp only [List.append_eq_nil_iff] at hnil
    rw [hnil.1.1, hnil.1.2, hnil.2, if_pos rfl, hbill, Metering.due, Dict.get?_set_self]
    simp
  · rw [if_neg hid, List.append_nil]
    refine hrows.trans (List.Perm.of_eq ?_)
    rw [Metering.due, Metering.due, Dict.get?_set_of_ne _ _ hid]

/-- A call that fails. -/
theorem llmError (h : CallsAccounted s) {callId : Uuid} {start : CallStart}
    (hrunning : s.phases.get? callId = some (.running start)) :
    CallsAccounted { s with
      phases := s.phases.set callId (.failed start)
      meter := s.meter.onLlmError callId } := by
  refine ⟨h.entries_erase rfl, fun id => (h.rows id).trans (List.Perm.of_eq ?_)⟩
  simp only [Metering.due, Dict.get?_set]
  split
  · next heq =>
    rw [heq, hrunning]
    rfl
  · rfl

/-- An insertion that finishes. -/
theorem insert (h : CallsAccounted s) {index : ℕ} {row : Uuid × UsageRow} (taken : Bool)
    (hrow : s.recording[index]? = some row) :
    CallsAccounted { s with
      recording := s.recording.eraseIdx index
      ledger := if taken then s.ledger ++ [row] else s.ledger
      lost := if taken then s.lost else s.lost ++ [row] } := by
  refine ⟨h.entries, fun id => List.Perm.trans (rowsOf_perm ?_ id) (h.rows id)⟩
  obtain ⟨hlt, hget⟩ := List.getElem?_eq_some_iff.mp hrow
  have herase : s.recording.Perm (row :: s.recording.eraseIdx index) := by
    rw [← hget]
    exact (List.getElem_cons_eraseIdx_perm hlt).symm
  cases taken with
  | true =>
    refine List.Perm.trans ?_ ((herase.append_right s.ledger).append_right s.lost).symm
    simp only [if_true, List.append_assoc, List.cons_append, List.nil_append]
    refine List.Perm.trans ?_ List.perm_middle
    exact List.Perm.append_left _ List.perm_middle
  | false =>
    refine List.Perm.trans ?_ ((herase.append_right s.ledger).append_right s.lost).symm
    simp only [Bool.false_eq_true, if_false, List.cons_append]
    rw [← List.append_assoc]
    exact List.perm_append_singleton _ _

end CallsAccounted

/-- **What is due for a call is on its way, in the ledger or given up**, and the meter has the
entries of the calls under way alone. -/
theorem accounted_of_reachable {s : Metering} (h : metering.Reachable Machine.free s) :
    CallsAccounted s := by
  refine h.invariant ?_ fun s a s' _ ih _ hstep => ?_
  · rintro s rfl
    exact ⟨fun callId => rfl, fun callId => List.Perm.refl _⟩
  · cases a with
    | start callId start =>
      simp only [metering, Metering.step] at hstep
      split at hstep
      · cases hstep
      · next hnew =>
        cases hstep
        exact ih.start hnew
    | llmEnd callId response =>
      simp only [metering, Metering.step] at hstep
      split at hstep
      · next hrunning =>
        cases hstep
        exact ih.llmEnd hrunning
      · cases hstep
    | llmError callId =>
      simp only [metering, Metering.step] at hstep
      split at hstep
      · next hrunning =>
        cases hstep
        exact ih.llmError hrunning
      · cases hstep
    | insert index taken =>
      simp only [metering, Metering.step] at hstep
      split at hstep
      · cases hstep
      · next row hrow =>
        cases hstep
        exact ih.insert taken hrow

/-! ### Billed once -/

/-- Each call has the rows in the ledger that are due for it, and the meter is empty when all
calls are over. -/
structure BilledOnce (s : Metering) (callId : Uuid) : Prop where
  rows : rowsOf callId s.ledger = s.due callId
  empty : (∀ id phase, s.phases.get? id = some phase → phase.finished = true) →
    s.meter.calls.entries = []

theorem CallPhase.length_bill_le (phase : CallPhase) : phase.bill.length ≤ 1 := by
  cases phase with
  | ended start response =>
    simp only [bill]
    split <;> simp
  | _ => simp [bill]

/-- **Each call that used something is billed once, to its caller**: when the insertions are over,
a call whose row the database took has the one row that is due for it in the ledger, every other
call that ended or failed has none, and the meter is empty when all calls are over. -/
theorem billedOnce_of_reachable {s : Metering} (h : metering.Reachable Machine.free s)
    (hover : s.recording = []) {callId : Uuid} (htaken : ∀ row, (callId, row) ∉ s.lost) :
    BilledOnce s callId := by
  have hacc := accounted_of_reachable h
  refine ⟨?_, fun hall => Dict.entries_eq_nil_iff.mpr fun id => ?_⟩
  · have hlost : rowsOf callId s.lost = [] := by
      rw [rowsOf, List.map_eq_nil_iff, List.filter_eq_nil_iff]
      rintro ⟨id, row⟩ hmem hid
      rw [decide_eq_true_eq] at hid
      subst hid
      exact htaken row hmem
    have hrows := hacc.rows callId
    rw [hover, List.nil_append, rowsOf_append, hlost, List.append_nil] at hrows
    -- at most one row is due
    have hle : (s.due callId).length ≤ 1 := by
      unfold Metering.due
      cases s.phases.get? callId with
      | none => exact Nat.zero_le _
      | some phase => exact phase.length_bill_le
    match hdue : s.due callId with
    | [] => exact (hdue ▸ hrows).eq_nil
    | [row] => exact List.perm_singleton.mp (hdue ▸ hrows)
    | _ :: _ :: _ =>
      rw [hdue] at hle
      simp at hle
  · rw [hacc.entries]
    cases hphase : s.phases.get? id with
    | none => rfl
    | some phase =>
      cases phase with
      | running start => cases hall id _ hphase
      | ended => rfl
      | failed => rfl

/-- A call of alice in a run. -/
def callOfAlice : CallStart where
  config := some { authUser := some "alice", metadataRunId := some "7" }
  lsModelName := some "claude-sonnet-5"

/-- A response with some usage. -/
def shortResponse : LLMResult :=
  [[{ usageMetadata := some { inputTokens := some 10, outputTokens := some 5 } }]]

/-- Two calls that overlap: one ends, the other fails. -/
theorem billedOnce_overlapping : ∃ s, metering.Reachable Machine.free s ∧
    (s.recording = [] ∧ (rowsOf 1 s.ledger).map UsageRow.owner = ["alice"]) ∧ BilledOnce s 1 := by
  obtain ⟨s, h, hs⟩ := metering.exists_reachable Machine.free (s := {}) rfl
    [.start 1 callOfAlice, .start 2 { config := none }, .llmError 2, .llmEnd 1 shortResponse,
      .insert 0 true]
    (fun s => s.recording.isEmpty && s.lost.isEmpty &&
      decide ((rowsOf 1 s.ledger).map UsageRow.owner = ["alice"])) (by decide +kernel)
  simp only [Bool.and_eq_true, List.isEmpty_iff, decide_eq_true_eq] at hs
  obtain ⟨⟨hover, hlost⟩, howner⟩ := hs
  refine ⟨s, h, ⟨hover, howner⟩, billedOnce_of_reachable h hover fun row => ?_⟩
  rw [hlost]
  exact List.not_mem_nil

/-- The database does not take the row of a call. -/
theorem not_billedOnce : ¬ ∀ s, metering.Reachable Machine.free s → s.recording = [] →
    ∀ callId, BilledOnce s callId := by
  intro hall
  obtain ⟨s, h, hs⟩ := metering.exists_reachable Machine.free (s := {}) rfl
    [.start 1 callOfAlice, .llmEnd 1 shortResponse, .insert 0 false]
    (fun s => s.recording.isEmpty && s.ledger.isEmpty && decide ((s.due 1).length = 1))
    (by decide +kernel)
  simp only [Bool.and_eq_true, List.isEmpty_iff, decide_eq_true_eq] at hs
  obtain ⟨⟨hover, hledger⟩, hdue⟩ := hs
  have hrows := (hall s h hover 1).rows
  rw [hledger] at hrows
  rw [← hrows] at hdue
  cases hdue

end NextRole
