import Mathlib.Data.List.FinRange
import NextRole.VisibleReviews

/-!
# Approvals on the calls they decide

Each approval was built from a tool call, of the root conversation or of a subagent.  The hook has
only names and arguments to find the call again.  It finds the calls of all root approvals, and none
for the others, exactly if each approval in its turn fits the call that it was built from before any
other open call.

## Main definitions

* `BuiltReview`, `BuiltReview.Builds` — the calls that an interrupt was built from.
* `ShownOnTheirCalls` — every approval is where it belongs.
* `IsReviewed`, `Unambiguous` — what the approvals and the open calls have to be for that.

## Main results

* `shownOnTheirCalls_iff` — **when approvals are shown on the calls they decide**.
* `not_shownOnTheirCalls` — the approval of a subagent on a root call that runs without review.
-/

namespace NextRole

/-! ### What approvals were built from -/

/-- `toolCall.args ?? {}`. -/
def ToolCall.argsOrEmpty (call : ToolCall) : Json :=
  if call.args = .null then .obj [] else call.args

/-- The gated tool calls of one message, of the root conversation or of a subagent. -/
structure BuiltReview where
  root : Bool
  calls : List ToolCall

/-- An interrupt was built from these calls in their order, with equal names and arguments up to
the order of keys. -/
structure BuiltReview.Builds (review : BuiltReview) (candidate : Candidate) : Prop where
  gated : review.calls ≠ []
  requests : List.Forall₂ (fun call request => ∃ r, actionRequest? request = some r ∧
    r.name = call.name ∧ call.argsOrEmpty.Equal r.args) review.calls
    (listField candidate.value "action_requests")

/-- The root call that an approval was built from. -/
def rootCall (reviewOf : String → BuiltReview) (approval : PendingApproval) : Option ToolCall :=
  if (reviewOf approval.interruptId).root then
    (reviewOf approval.interruptId).calls[approval.index]?
  else none

/-- Every root approval is on the call that it was built from and nowhere else, no approval of a
subagent is on a root call, and no approval has taken a call from another. -/
structure ShownOnTheirCalls (s : InterruptApprovals) (reviewOf : String → BuiltReview) : Prop where
  root : ∀ approval ∈ s.pendingApprovals, ∀ call, rootCall reviewOf approval = some call →
    ∀ id, s.assignment.approvalByToolCallId.get? id = some approval ↔ id = call.id
  subagent : ∀ approval id, s.assignment.approvalByToolCallId.get? id = some approval →
    (reviewOf approval.interruptId).root = true
  card : ∀ nestedBatches approval id,
    (approvalByNestedId nestedBatches s.assignment.unassignedApprovals).get? id = some approval →
      (reviewOf approval.interruptId).root = false
  kept : ∀ approval ∈ s.pendingApprovals, s.assignment.Has approval

/-! ### What they have to be -/

/-- An element of a list satisfies a condition, and none before it does. -/
def IsFirst {α : Type} (p : α → Prop) (l : List α) (a : α) : Prop :=
  ∃ before after, l = before ++ a :: after ∧ p a ∧ ∀ b ∈ before, ¬ p b

/-- A call of the name of a request, that no approval before it was built from. -/
def Fits (claimed : List String) (request : ActionRequest) (call : ToolCall) : Prop :=
  call.id ∉ claimed ∧ call.name = request.name

instance (claimed : List String) (request : ActionRequest) (call : ToolCall) :
    Decidable (Fits claimed request call) :=
  inferInstanceAs (Decidable (_ ∧ _))

/-- The call is the first open one with the name and the text of the arguments, or, if there is no
such call, the first one with the name. -/
def IsReviewed (openCalls : List ToolCall) (claimed : List String) (request : ActionRequest)
    (call : ToolCall) : Prop :=
  ∃ found, found.id = call.id ∧
    (IsFirst (fun c => Fits claimed request c ∧ c.argsOrEmpty = request.args) openCalls found ∨
      (∀ c ∈ openCalls, Fits claimed request c → c.argsOrEmpty ≠ request.args) ∧
        IsFirst (Fits claimed request) openCalls found)

/-- Each approval in its turn: its call is the first that fits, or no open call has the name of an
approval of a subagent. -/
def Unambiguous (openCalls : List ToolCall) (callOf : PendingApproval → Option ToolCall) :
    List String → List PendingApproval → Prop
  | _, [] => True
  | claimed, approval :: approvals =>
    match callOf approval with
    | some call => IsReviewed openCalls claimed approval.actionRequest call ∧
        Unambiguous openCalls callOf (call.id :: claimed) approvals
    | none => (∀ c ∈ openCalls, ¬ Fits claimed approval.actionRequest c) ∧
        Unambiguous openCalls callOf claimed approvals

/-! ### One approval -/

theorem find?_eq_some_iff_isFirst {α : Type} {p : α → Prop} [DecidablePred p] {l : List α} {a : α} :
    (l.find? fun b => decide (p b)) = some a ↔ IsFirst p l a := by
  rw [List.find?_eq_some_iff_append]
  constructor
  · rintro ⟨ha, before, after, hl, hbefore⟩
    exact ⟨before, after, hl, of_decide_eq_true ha, fun b hb => by simpa using hbefore b hb⟩
  · rintro ⟨before, after, hl, ha, hbefore⟩
    exact ⟨decide_eq_true ha, before, after, hl, fun b hb => by simpa using hbefore b hb⟩

namespace Assignment

variable {openCalls : List ToolCall} {s : Assignment} {approval other : PendingApproval}
  {claimed : List String}

/-- The calls that have an approval are those of the list. -/
def Claims (s : Assignment) (claimed : List String) : Prop :=
  ∀ id, s.approvalByToolCallId.get? id = none ↔ id ∉ claimed

theorem findCall_eq (hclaims : s.Claims claimed) : s.findCall openCalls approval =
    (openCalls.find? fun c => decide (Fits claimed approval.actionRequest c ∧
      c.argsOrEmpty = approval.actionRequest.args)).or
    (openCalls.find? fun c => decide (Fits claimed approval.actionRequest c)) := by
  have hunclaimed : ∀ call : ToolCall,
      (s.approvalByToolCallId.get? call.id).isNone = decide (call.id ∉ claimed) := by
    intro call
    rw [Bool.eq_iff_iff, Option.isNone_iff_eq_none, decide_eq_true_eq]
    exact hclaims call.id
  simp only [findCall, hunclaimed, decide_eq_true_eq, Fits, and_assoc]
  rfl

/-- The call that is found is the first that fits. -/
theorem findCall_eq_some_iff (hclaims : s.Claims claimed) {call : ToolCall} :
    (∃ found, s.findCall openCalls approval = some found ∧ found.id = call.id) ↔
      IsReviewed openCalls claimed approval.actionRequest call := by
  rw [findCall_eq hclaims]
  constructor
  · rintro ⟨found, hfound, hid⟩
    refine ⟨found, hid, ?_⟩
    rcases Option.or_eq_some_iff.mp hfound with h | ⟨hnone, h⟩
    · exact .inl (find?_eq_some_iff_isFirst.mp h)
    · refine .inr ⟨fun c hc hfits heq => ?_, find?_eq_some_iff_isFirst.mp h⟩
      have hno := List.find?_eq_none.mp hnone c hc
      exact hno (decide_eq_true ⟨hfits, heq⟩)
  · rintro ⟨found, hid, hfirst | ⟨hnone, hfirst⟩⟩
    · refine ⟨found, ?_, hid⟩
      rw [find?_eq_some_iff_isFirst.mpr hfirst, Option.some_or]
    · refine ⟨found, ?_, hid⟩
      have htext : openCalls.find? (fun c => decide (Fits claimed approval.actionRequest c ∧
          c.argsOrEmpty = approval.actionRequest.args)) = none := by
        rw [List.find?_eq_none]
        intro c hc hfits
        have hboth := of_decide_eq_true hfits
        exact hnone c hc hboth.1 hboth.2
      rw [htext, Option.none_or, find?_eq_some_iff_isFirst.mpr hfirst]

theorem findCall_eq_none_iff (hclaims : s.Claims claimed) :
    s.findCall openCalls approval = none ↔
      ∀ c ∈ openCalls, ¬ Fits claimed approval.actionRequest c := by
  rw [findCall_eq hclaims, Option.or_eq_none_iff, List.find?_eq_none, List.find?_eq_none]
  constructor
  · rintro ⟨-, h⟩ c hc hfits
    exact h c hc (decide_eq_true hfits)
  · intro h
    refine ⟨fun c hc hfits => ?_, fun c hc hfits => ?_⟩
    · exact h c hc (of_decide_eq_true hfits).1
    · exact h c hc (of_decide_eq_true hfits)

/-- Where an approval is after its turn, if it was nowhere before. -/
theorem get?_assign_self (hnew : ∀ id, s.approvalByToolCallId.get? id ≠ some approval)
    (id : String) : (s.assign openCalls approval).approvalByToolCallId.get? id = some approval ↔
      ∃ found, s.findCall openCalls approval = some found ∧ found.id = id := by
  unfold assign
  cases hfind : s.findCall openCalls approval with
  | none => simp [hnew id]
  | some found =>
    by_cases hid : id = found.id
    · subst hid
      simp [Dict.get?_set_self]
    · have hne : found.id ≠ id := fun h => hid h.symm
      simp [Dict.get?_set_of_ne _ _ hid, hnew id, hne]

/-- The turn of an approval does not move another. -/
theorem get?_assign_of_ne (hne : approval ≠ other) (id : String) :
    (s.assign openCalls approval).approvalByToolCallId.get? id = some other ↔
      s.approvalByToolCallId.get? id = some other := by
  unfold assign
  cases hfind : s.findCall openCalls approval with
  | none => exact Iff.rfl
  | some found =>
    by_cases hid : id = found.id
    · subst hid
      rw [Dict.get?_set_self, get?_eq_none_of_findCall hfind]
      simp [hne]
    · rw [Dict.get?_set_of_ne _ _ hid]

theorem get?_assignAll {approvals : List PendingApproval} (h : other ∉ approvals) (id : String) :
    (approvals.foldl (assign openCalls) s).approvalByToolCallId.get? id = some other ↔
      s.approvalByToolCallId.get? id = some other := by
  induction approvals generalizing s with
  | nil => exact Iff.rfl
  | cons approval approvals ih =>
    have hne : other ≠ approval := List.ne_of_not_mem_cons h
    exact (ih (List.not_mem_of_not_mem_cons h)).trans (get?_assign_of_ne hne.symm id)

theorem Claims.assign (hclaims : s.Claims claimed) {found : ToolCall}
    (hfind : s.findCall openCalls approval = some found) :
    (s.assign openCalls approval).Claims (found.id :: claimed) := by
  intro id
  rw [Assignment.assign, hfind]
  by_cases hid : id = found.id
  · subst hid
    simp [Dict.get?_set_self]
  · simp only [Dict.get?_set_of_ne _ _ hid, List.mem_cons, hid, false_or]
    exact hclaims id

/-- **The turns of all approvals.** -/
theorem assignAll_iff (callOf : PendingApproval → Option ToolCall)
    {approvals : List PendingApproval} (hnodup : approvals.Nodup) (hclaims : s.Claims claimed)
    (hnew : ∀ approval ∈ approvals, ∀ id, s.approvalByToolCallId.get? id ≠ some approval) :
    (∀ approval ∈ approvals, match callOf approval with
      | some call => ((approvals.foldl (assign openCalls) s).approvalByToolCallId.get? call.id =
          some approval)
      | none => ∀ id, (approvals.foldl (assign openCalls) s).approvalByToolCallId.get? id ≠
          some approval) ↔ Unambiguous openCalls callOf claimed approvals := by
  induction approvals generalizing s claimed with
  | nil => exact iff_of_true (fun _ h => nomatch h) trivial
  | cons approval approvals ih =>
    obtain ⟨hnot, hnodup⟩ := List.nodup_cons.mp hnodup
    have hself : ∀ id, (approvals.foldl (assign openCalls)
        (s.assign openCalls approval)).approvalByToolCallId.get? id = some approval ↔
          ∃ found, s.findCall openCalls approval = some found ∧ found.id = id := fun id =>
      (get?_assignAll hnot id).trans (get?_assign_self (hnew approval List.mem_cons_self) id)
    have hrest : ∀ other ∈ approvals, ∀ id,
        (s.assign openCalls approval).approvalByToolCallId.get? id ≠ some other := by
      intro other hother id hget
      have hne : approval ≠ other := fun h => hnot (h ▸ hother)
      exact hnew other (List.mem_cons_of_mem _ hother) id ((get?_assign_of_ne hne id).mp hget)
    rw [List.forall_mem_cons, List.foldl_cons, Unambiguous]
    cases hcall : callOf approval with
    | some call =>
      simp only
      rw [hself call.id, findCall_eq_some_iff hclaims]
      refine and_congr_right fun hreviewed => ?_
      obtain ⟨found, hfind, hid⟩ := (findCall_eq_some_iff hclaims).mpr hreviewed
      exact ih hnodup (hid ▸ hclaims.assign hfind) hrest
    | none =>
      simp only
      have hnone : (∀ id, (approvals.foldl (assign openCalls)
          (s.assign openCalls approval)).approvalByToolCallId.get? id ≠ some approval) ↔
          s.findCall openCalls approval = none := by
        constructor
        · intro h
          cases hfind : s.findCall openCalls approval with
          | none => rfl
          | some found => exact absurd ((hself found.id).mpr ⟨found, hfind, rfl⟩) (h found.id)
        · rintro h id hget
          obtain ⟨found, hfind, -⟩ := (hself id).mp hget
          rw [h] at hfind
          cases hfind
      rw [hnone, findCall_eq_none_iff hclaims]
      refine and_congr_right fun hnofit => ?_
      have hfind := (findCall_eq_none_iff hclaims).mpr hnofit
      have hsame : (s.assign openCalls approval).Claims claimed := by
        rw [Assignment.assign, hfind]
        exact hclaims
      exact ih hnodup hsame hrest

theorem mem_unassignedAll {approvals : List PendingApproval} (h : other ∉ approvals) :
    other ∈ (approvals.foldl (assign openCalls) s).unassignedApprovals ↔
      other ∈ s.unassignedApprovals := by
  induction approvals generalizing s with
  | nil => exact Iff.rfl
  | cons approval approvals ih =>
    have hne : other ≠ approval := List.ne_of_not_mem_cons h
    refine (ih (List.not_mem_of_not_mem_cons h)).trans ?_
    unfold assign
    cases s.findCall openCalls approval with
    | none => simp [hne]
    | some found => exact Iff.rfl

theorem mem_of_get?_assignApprovals {approvals : List PendingApproval} {id : String}
    (h : (assignApprovals openCalls approvals).approvalByToolCallId.get? id = some approval) :
    approval ∈ approvals := by
  by_contra hnot
  have hget := (get?_assignAll hnot id).mp h
  cases hget

theorem mem_of_mem_unassigned {approvals : List PendingApproval}
    (h : approval ∈ (assignApprovals openCalls approvals).unassignedApprovals) :
    approval ∈ approvals := by
  by_contra hnot
  have hmem := (mem_unassignedAll hnot).mp h
  cases hmem

variable (openCalls) in
/-- An approval is on one call or is left. -/
theorem exists_found {approvals : List PendingApproval} (hnodup : approvals.Nodup)
    (h : approval ∈ approvals) : ∃ found : Option ToolCall,
      (∀ id, (assignApprovals openCalls approvals).approvalByToolCallId.get? id = some approval ↔
        found.map ToolCall.id = some id) ∧
      (approval ∈ (assignApprovals openCalls approvals).unassignedApprovals ↔ found = none) := by
  obtain ⟨before, after, rfl⟩ := List.append_of_mem h
  obtain ⟨-, hafter, hdisjoint⟩ := List.nodup_append.mp hnodup
  have hbefore : approval ∉ before := fun hmem => hdisjoint _ hmem _ List.mem_cons_self rfl
  have hafter := (List.nodup_cons.mp hafter).1
  refine ⟨(before.foldl (assign openCalls) {}).findCall openCalls approval, fun id => ?_, ?_⟩
  · rw [assignApprovals, List.foldl_append, List.foldl_cons, get?_assignAll hafter,
      get?_assign_self, Option.map_eq_some_iff]
    intro id hget
    cases (get?_assignAll hbefore id).mp hget
  · rw [assignApprovals, List.foldl_append, List.foldl_cons, mem_unassignedAll hafter]
    have hleft : approval ∉ (before.foldl (assign openCalls) {}).unassignedApprovals := by
      intro hmem
      cases (mem_unassignedAll hbefore).mp hmem
    generalize before.foldl (assign openCalls) {} = s at hleft
    unfold assign
    cases s.findCall openCalls approval with
    | none => simp
    | some found => simp [hleft]

end Assignment

/-! ### The pending approvals -/

variable {s : InterruptApprovals} {reviewOf : String → BuiltReview}

/-- The fields of an approval that was parsed. -/
theorem mem_parseApprovals {candidate : Candidate} {approval : PendingApproval}
    (h : approval ∈ parseApprovals candidate) : approval.interruptId = candidate.id ∧
      approval.index < (listField candidate.value "action_requests").length := by
  unfold parseApprovals at h
  dsimp only at h
  split at h
  · cases h
  · next hlength =>
    obtain ⟨-, hlength⟩ := not_or.mp hlength
    obtain ⟨index, rfl⟩ := List.mem_ofFn.mp h
    refine ⟨rfl, ?_⟩
    rw [← not_not.mp hlength]
    exact index.isLt

theorem nodup_parseApprovals (candidate : Candidate) : (parseApprovals candidate).Nodup := by
  unfold parseApprovals
  dsimp only
  split
  · exact List.nodup_nil
  · refine List.nodup_ofFn.mpr fun index index' h => ?_
    exact Fin.ext (congrArg PendingApproval.index h)

theorem nodup_pendingApprovals (hids : (s.input.candidates.map Candidate.id).Nodup) :
    s.pendingApprovals.Nodup := by
  rw [InterruptApprovals.pendingApprovals, List.nodup_flatMap]
  refine ⟨fun candidate _ => nodup_parseApprovals candidate, ?_⟩
  have hpairwise := (List.pairwise_map.mp hids).sublist
    (List.filter_sublist (p := fun candidate => decide (candidate.id ∉ s.respondedIds)))
  refine hpairwise.imp fun hne approval h h' => ?_
  exact hne ((mem_parseApprovals h).1.symm.trans (mem_parseApprovals h').1)

/-- The pending interrupts were built from these calls. -/
def BuiltFrom (s : InterruptApprovals) (reviewOf : String → BuiltReview) : Prop :=
  ∀ candidate ∈ s.input.candidates, candidate.id ∉ s.respondedIds →
    (reviewOf candidate.id).Builds candidate

theorem exists_rootCall (hbuilt : BuiltFrom s reviewOf) {approval : PendingApproval}
    (h : approval ∈ s.pendingApprovals) :
    (rootCall reviewOf approval).isSome = (reviewOf approval.interruptId).root := by
  obtain ⟨candidate, hcandidate, hparsed⟩ := List.mem_flatMap.mp h
  obtain ⟨hmem, hpending⟩ := List.mem_filter.mp hcandidate
  obtain ⟨hid, hindex⟩ := mem_parseApprovals hparsed
  have hlength := (hbuilt candidate hmem (of_decide_eq_true hpending)).requests.length_eq
  rw [rootCall, hid]
  split
  · next hroot => rw [List.getElem?_eq_getElem (by omega), hroot, Option.isSome_some]
  · next hroot => rw [Bool.not_eq_true _ |>.mp hroot, Option.isSome_none]

/-- **Approvals are shown on the calls they decide** exactly if each fits its call, in its turn,
before any other open call. -/
theorem shownOnTheirCalls_iff (s : InterruptApprovals) (reviewOf : String → BuiltReview)
    (hids : (s.input.candidates.map Candidate.id).Nodup) (hbuilt : BuiltFrom s reviewOf) :
    ShownOnTheirCalls s reviewOf ↔
      Unambiguous s.input.openCalls (rootCall reviewOf) [] s.pendingApprovals := by
  have hnodup := nodup_pendingApprovals hids
  have hclaims : Assignment.Claims {} [] := fun id => iff_of_true rfl List.not_mem_nil
  refine Iff.trans ?_ (Assignment.assignAll_iff (rootCall reviewOf) hnodup hclaims
    fun _ _ _ => nofun)
  constructor
  · intro h approval happroval
    cases hcall : rootCall reviewOf approval with
    | some call => exact (h.root approval happroval call hcall call.id).mpr rfl
    | none =>
      intro id hget
      have hroot := h.subagent approval id hget
      rw [← exists_rootCall hbuilt happroval, hcall] at hroot
      cases hroot
  · intro h
    have hroot : ∀ approval ∈ s.pendingApprovals, (reviewOf approval.interruptId).root = true →
        ∃ call, rootCall reviewOf approval = some call ∧
          s.assignment.approvalByToolCallId.get? call.id = some approval := by
      intro approval happroval hroot
      rw [← exists_rootCall hbuilt happroval] at hroot
      obtain ⟨call, hcall⟩ := Option.isSome_iff_exists.mp hroot
      have hget := h approval happroval
      rw [hcall] at hget
      exact ⟨call, hcall, hget⟩
    refine ⟨fun approval happroval call hcall id => ?_, fun approval id hget => ?_,
      fun nestedBatches approval id hget => ?_, fun approval happroval => ?_⟩
    · obtain ⟨found, hfound, -⟩ :=
        Assignment.exists_found s.input.openCalls hnodup happroval
      have hget := h approval happroval
      rw [hcall] at hget
      have hid := (hfound call.id).mp hget
      refine (hfound id).trans ?_
      rw [hid, Option.some.injEq, eq_comm]
    · have happroval := Assignment.mem_of_get?_assignApprovals hget
      by_contra hsub
      have hnone : rootCall reviewOf approval = none := by
        rw [rootCall, if_neg hsub]
      have hnot := h approval happroval
      rw [hnone] at hnot
      exact hnot id hget
    · have hleft := Assignment.mem_of_get?_assignApprovals hget
      have happroval := Assignment.mem_of_mem_unassigned hleft
      by_contra hsub
      obtain ⟨call, -, hplaced⟩ := hroot approval happroval (by simpa using hsub)
      obtain ⟨found, hfound, hnone⟩ :=
        Assignment.exists_found s.input.openCalls hnodup happroval
      have hid := (hfound call.id).mp hplaced
      rw [hnone.mp hleft] at hid
      cases hid
    · exact assigned_or_unassigned s.input.openCalls happroval

/-- A call of the shell. -/
def executeCall (id command : String) : ToolCall := ⟨id, "execute", .obj [("command", .str command)]⟩

/-- What the middleware sends for calls of the shell. -/
def executeReview (commands : List String) : Json :=
  .obj [("action_requests", .arr (commands.map fun command =>
    .obj [("name", .str "execute"), ("args", .obj [("command", .str command)])]))]

/-- Two calls of the root wait for their review. -/
def rootReview : InterruptApprovals where
  input :=
    { interrupts := [⟨"i", some (executeReview ["id", "pwd"])⟩]
      messages := [.human, .ai [executeCall "t1" "id", executeCall "t2" "pwd"]] }

/-- Both are shown on their calls. -/
theorem shownOnTheirCalls_rootReview :
    ShownOnTheirCalls rootReview
        (fun _ => ⟨true, [executeCall "t1" "id", executeCall "t2" "pwd"]⟩) ↔
      Unambiguous rootReview.input.openCalls
        (rootCall fun _ => ⟨true, [executeCall "t1" "id", executeCall "t2" "pwd"]⟩) []
        rootReview.pendingApprovals := by
  refine shownOnTheirCalls_iff rootReview _ (by decide) fun candidate hcandidate _ => ?_
  have hcandidates : rootReview.input.candidates =
      [⟨"i", some (executeReview ["id", "pwd"]), none⟩] := by decide
  rw [hcandidates, List.mem_singleton] at hcandidate
  subst hcandidate
  exact ⟨nofun, .cons ⟨_, rfl, rfl, .refl _⟩ (.cons ⟨_, rfl, rfl, .refl _⟩ .nil)⟩

/-- A subagent waits for the review of a command, and the root has called the shell beside it. -/
def subagentReview : InterruptApprovals where
  input :=
    { threadInterrupts := [⟨"i", some (executeReview ["rm notes"]), some ["tools:t1"]⟩]
      messages := [.human, .ai [⟨"t1", "task", .obj []⟩, executeCall "t2" "ls"]] }

/-- The approval of the subagent is shown on the call of the root. -/
theorem not_shownOnTheirCalls : ¬ ∀ (s : InterruptApprovals) (reviewOf : String → BuiltReview),
    (s.input.candidates.map Candidate.id).Nodup → BuiltFrom s reviewOf →
      ShownOnTheirCalls s reviewOf := by
  intro h
  have hshown := h subagentReview (fun _ => ⟨false, [executeCall "n1" "rm notes"]⟩) (by decide) (by
    intro candidate hcandidate _
    have hcandidates : subagentReview.input.candidates =
        [⟨"i", some (executeReview ["rm notes"]), some ["tools:t1"]⟩] := by decide
    rw [hcandidates, List.mem_singleton] at hcandidate
    subst hcandidate
    exact ⟨nofun, .cons ⟨_, rfl, rfl, .refl _⟩ .nil⟩)
  have hplaced : (subagentReview.assignment.approvalByToolCallId.get? "t2").isSome = true := by
    decide
  obtain ⟨approval, hget⟩ := Option.isSome_iff_exists.mp hplaced
  have hroot := hshown.subagent approval "t2" hget
  cases hroot

end NextRole
