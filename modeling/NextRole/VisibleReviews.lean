import NextRole.Frontend.Approvals

/-!
# Pending reviews are visible

The composer is locked while the stream lists an interrupt, and an interrupt that was
answered is never shown again.  A resume that fails leaves its interrupt listed: the composer
stays locked, and nothing is left to decide.

## Main definitions

* `VisibleReview` — a locked composer of an idle run shows an approval that can resume it.
* `Unanswered` — some interrupt is a review that was not answered.
* `ListsUnanswered` — the steps that leave an unanswered review where an interrupt is listed.

## Main results

* `assigned_or_unassigned` — every pending approval is shown somewhere.
* `canResume_of_mem` — every pending approval can resume its interrupt.
* `visibleReview_iff` — the runs whose reviews are always visible.
* `not_visibleReview` — a run with a resume that fails.
-/

namespace NextRole

/-! ### What is shown -/

namespace Assignment

variable {openCalls : List ToolCall} {s : Assignment} {approval : PendingApproval}

theorem get?_eq_none_of_findCall {call : ToolCall}
    (h : s.findCall openCalls approval = some call) :
    s.approvalByToolCallId.get? call.id = none := by
  rcases Option.or_eq_some_iff.mp h with h | ⟨-, h⟩
  · have hcall := List.find?_some h
    exact Option.isNone_iff_eq_none.mp (of_decide_eq_true hcall).1
  · have hcall := List.find?_some h
    exact Option.isNone_iff_eq_none.mp (of_decide_eq_true hcall).1

/-- An approval is shown at a call or is unassigned. -/
def Has (s : Assignment) (approval : PendingApproval) : Prop :=
  (∃ id, s.approvalByToolCallId.get? id = some approval) ∨ approval ∈ s.unassignedApprovals

theorem has_assign_self (openCalls : List ToolCall) (s : Assignment) (approval : PendingApproval) :
    (s.assign openCalls approval).Has approval := by
  unfold assign
  split
  · exact .inl ⟨_, Dict.get?_set_self _ _ _⟩
  · exact .inr (List.mem_append_right _ (List.mem_singleton_self _))

/-- What was shown stays shown. -/
theorem Has.assign {other : PendingApproval} (h : s.Has other) :
    (s.assign openCalls approval).Has other := by
  unfold Assignment.assign
  split
  · next call hcall =>
    rcases h with ⟨id, hid⟩ | h
    · have hne : id ≠ call.id := by
        rintro rfl
        rw [get?_eq_none_of_findCall hcall] at hid
        cases hid
      exact .inl ⟨id, (Dict.get?_set_of_ne _ _ hne).trans hid⟩
    · exact .inr h
  · exact h.imp id (List.mem_append_left _)

theorem Has.assignAll {other : PendingApproval} (approvals : List PendingApproval)
    (h : s.Has other) : (approvals.foldl (Assignment.assign openCalls) s).Has other := by
  induction approvals generalizing s with
  | nil => exact h
  | cons approval approvals ih => exact ih h.assign

end Assignment

theorem assigned_or_unassigned (openCalls : List ToolCall) {approvals : List PendingApproval}
    {approval : PendingApproval} (h : approval ∈ approvals) :
    (assignApprovals openCalls approvals).Has approval := by
  obtain ⟨before, after, rfl⟩ := List.append_of_mem h
  rw [assignApprovals, List.foldl_append, List.foldl_cons]
  exact (Assignment.has_assign_self openCalls _ approval).assignAll after

namespace InterruptApprovals

variable {s : InterruptApprovals} {approval : PendingApproval}

/-- An approval is routed to a tool call, claimed by the card of a subagent, or in the
fallback list. -/
def Rendered (s : InterruptApprovals) (approval : PendingApproval) : Prop :=
  (∃ id, s.assignment.approvalByToolCallId.get? id = some approval) ∨
    (approval ∈ s.assignment.unassignedApprovals ∧ approval.key ∈ s.claimedKeySet) ∨
    approval ∈ s.fallbackApprovals

theorem rendered_of_mem (h : approval ∈ s.pendingApprovals) : s.Rendered approval := by
  rcases assigned_or_unassigned s.input.openCalls h with hcall | hunassigned
  · exact .inl hcall
  · refine .inr ?_
    by_cases hclaimed : approval.key ∈ s.claimedKeySet
    · exact .inl ⟨hunassigned, hclaimed⟩
    · exact .inr (List.mem_filter.mpr ⟨hunassigned, decide_eq_true hclaimed⟩)

/-! ### What can be resumed -/

/-- Decisions on approvals that are rendered, one of them on this approval, resume its
interrupt. -/
def CanResume (s : InterruptApprovals) (approval : PendingApproval) : Prop :=
  ∃ decides : List (PendingApproval × ApprovalDecision),
    (∃ decision, (approval, decision) ∈ decides) ∧
    (∀ m ∈ decides, s.Rendered m.1 ∧ m.1.interruptId = approval.interruptId) ∧
    ∃ r : Resume, r.interruptId = approval.interruptId ∧
      (decides.foldl (fun s m => s.decide m.1 m.2) s).resumes = s.resumes ++ [r]

/-- A decision for an interrupt that was not answered is queued, and answers the interrupt
if it is the last one. -/
theorem decide_of_notMem (h : approval.interruptId ∉ s.respondedIds) (decision : ApprovalDecision) :
    (s.decide approval decision).queuedDecisions = s.queuedDecisions.set approval.key decision ∧
    (((s.decide approval decision).queuedDecisions.getAll?
          ((List.range approval.total).map (approvalKey approval.interruptId)) = none ∧
        (s.decide approval decision).respondedIds = s.respondedIds ∧
        (s.decide approval decision).resumes = s.resumes) ∨
      (s.decide approval decision).respondedIds = s.respondedIds ++ [approval.interruptId] ∧
        ∃ r : Resume, r.interruptId = approval.interruptId ∧
          (s.decide approval decision).resumes = s.resumes ++ [r]) := by
  unfold InterruptApprovals.decide
  dsimp only
  rw [if_neg h]
  split
  · next hnone => exact ⟨rfl, .inl ⟨hnone, rfl, rfl⟩⟩
  · exact ⟨rfl, .inr ⟨rfl, _, rfl, rfl⟩⟩

theorem decide_of_mem (h : approval.interruptId ∈ s.respondedIds) (decision : ApprovalDecision) :
    s.decide approval decision = { s with made := s.made ++ [(approval, decision)] } :=
  if_pos h

/-- The decisions on some requests of an interrupt that was not answered: it is answered
once, or these requests are queued and others are not. -/
theorem decideAll {id : String} {total : ℕ} {approvals : List PendingApproval}
    (happrovals : ∀ a ∈ approvals, a.interruptId = id ∧ a.total = total)
    (hid : id ∉ s.respondedIds) (decision : ApprovalDecision) :
    (id ∈ (approvals.foldl (fun s a => s.decide a decision) s).respondedIds ∧
      ∃ r : Resume, r.interruptId = id ∧
        (approvals.foldl (fun s a => s.decide a decision) s).resumes = s.resumes ++ [r]) ∨
    (id ∉ (approvals.foldl (fun s a => s.decide a decision) s).respondedIds ∧
      (approvals.foldl (fun s a => s.decide a decision) s).resumes = s.resumes ∧
      (∀ a ∈ approvals, ((approvals.foldl (fun s a => s.decide a decision) s).queuedDecisions.get?
        a.key).isSome = true) ∧
      (approvals ≠ [] →
        (approvals.foldl (fun s a => s.decide a decision) s).queuedDecisions.getAll?
          ((List.range total).map (approvalKey id)) = none)) := by
  induction approvals using List.reverseRecOn with
  | nil => exact .inr ⟨hid, rfl, nofun, fun hne => absurd rfl hne⟩
  | append_singleton before a ih =>
    obtain ⟨hbefore, ha⟩ := List.forall_mem_append.mp happrovals
    obtain ⟨rfl, rfl⟩ := ha a (List.mem_singleton_self a)
    rw [List.foldl_append, List.foldl_cons, List.foldl_nil]
    generalize before.foldl (fun s a => s.decide a decision) s = t at ih ⊢
    rcases ih hbefore with ⟨hmem, hresumed⟩ | ⟨hnot, hresumes, hqueued, -⟩
    · -- answered before: the decision is ignored
      rw [decide_of_mem hmem]
      exact .inl ⟨hmem, hresumed⟩
    · obtain ⟨hqueue, ⟨hnone, hresponded, hsame⟩ | ⟨hresponded, r, hr, hnew⟩⟩ :=
        decide_of_notMem hnot decision
      · refine .inr ⟨hresponded ▸ hnot, hsame.trans hresumes, fun b hb => ?_, fun _ => hnone⟩
        rw [hqueue, Dict.get?_set]
        split
        · rfl
        · next hne =>
          rcases List.mem_append.mp hb with hb | hb
          · exact hqueued b hb
          · exact absurd (congrArg PendingApproval.key (List.mem_singleton.mp hb)) hne
      · refine .inl ⟨hresponded ▸ List.mem_append_right _ (List.mem_singleton_self _), r, hr, ?_⟩
        rw [hnew, hresumes]

theorem mem_parseApprovals {c : Candidate} {a : PendingApproval} (h : a ∈ parseApprovals c) :
    a.interruptId = c.id ∧ a.total = (parseApprovals c).length := by
  unfold parseApprovals at h ⊢
  dsimp only at h ⊢
  split at h
  · cases h
  · next hparsed =>
    rw [if_neg hparsed, List.length_ofFn]
    obtain ⟨index, rfl⟩ := List.mem_ofFn.mp h
    exact ⟨rfl, rfl⟩

theorem exists_mem_parseApprovals {c : Candidate} {index : ℕ}
    (h : index < (parseApprovals c).length) :
    ∃ a ∈ parseApprovals c, a.key = approvalKey c.id index := by
  unfold parseApprovals at h ⊢
  dsimp only at h ⊢
  split at h
  · cases h
  · next hparsed =>
    rw [List.length_ofFn] at h
    rw [if_neg hparsed]
    exact ⟨_, List.mem_ofFn.mpr ⟨⟨index, h⟩, rfl⟩, rfl⟩

theorem getAll?_isSome {d : Dict String ApprovalDecision} {c : Candidate}
    (h : ∀ a ∈ parseApprovals c, (d.get? a.key).isSome = true) :
    (d.getAll? ((List.range (parseApprovals c).length).map (approvalKey c.id))).isSome = true := by
  rw [Dict.isSome_getAll?]
  intro key hkey
  obtain ⟨index, hindex, rfl⟩ := List.mem_map.mp hkey
  obtain ⟨a, ha, heq⟩ := exists_mem_parseApprovals (List.mem_range.mp hindex)
  rw [← heq]
  exact h a ha

/-- Every pending approval can resume its interrupt. -/
theorem canResume_of_mem (h : approval ∈ s.pendingApprovals) : s.CanResume approval := by
  obtain ⟨c, hc, hmem⟩ := List.mem_flatMap.mp h
  obtain ⟨-, hid⟩ := List.mem_filter.mp hc
  have hpending : ∀ a ∈ parseApprovals c, a ∈ s.pendingApprovals := fun a ha =>
    List.mem_flatMap.mpr ⟨c, hc, ha⟩
  have heq := (mem_parseApprovals hmem).1
  -- all requests of the interrupt are approved
  refine ⟨(parseApprovals c).map fun a => (a, .approve), ⟨.approve, ?_⟩, ?_, ?_⟩
  · exact List.mem_map.mpr ⟨approval, hmem, rfl⟩
  · intro m hm
    obtain ⟨a, ha, rfl⟩ := List.mem_map.mp hm
    exact ⟨rendered_of_mem (hpending a ha), (mem_parseApprovals ha).1.trans heq.symm⟩
  · rw [List.foldl_map, heq]
    rcases decideAll (fun a ha => mem_parseApprovals ha) (of_decide_eq_true hid) .approve with
      ⟨-, hresumed⟩ | ⟨-, -, hqueued, hnone⟩
    · exact hresumed
    · have hsome := getAll?_isSome hqueued
      rw [hnone (List.ne_nil_of_mem hmem)] at hsome
      cases hsome

end InterruptApprovals

/-! ### The condition -/

/-- Some interrupt that may be pending is a review that is not among those answered. -/
def Unanswered (input : ApprovalsInput) (answered : List String) : Prop :=
  ∃ c ∈ input.candidates, c.id ∉ answered ∧ parseApprovals c ≠ []

instance (input : ApprovalsInput) (answered : List String) : Decidable (Unanswered input answered) :=
  inferInstanceAs (Decidable (∃ c ∈ input.candidates, _))

theorem InterruptApprovals.pendingApprovals_ne_nil {s : InterruptApprovals} :
    s.pendingApprovals ≠ [] ↔ Unanswered s.input s.respondedIds := by
  constructor
  · intro h
    obtain ⟨a, ha⟩ := List.exists_mem_of_ne_nil _ h
    obtain ⟨c, hc, hmem⟩ := List.mem_flatMap.mp ha
    obtain ⟨hc, hid⟩ := List.mem_filter.mp hc
    exact ⟨c, hc, of_decide_eq_true hid, List.ne_nil_of_mem hmem⟩
  · rintro ⟨c, hc, hid, hparsed⟩
    obtain ⟨a, ha⟩ := List.exists_mem_of_ne_nil _ hparsed
    exact List.ne_nil_of_mem
      (List.mem_flatMap.mpr ⟨c, List.mem_filter.mpr ⟨hc, decide_eq_true hid⟩, ha⟩)

namespace ReviewSession

/-- No run is streaming, and every call of a resume has returned. -/
def Idle (s : ReviewSession) : Prop :=
  s.approvals.input.isLoading = false ∧
    ∀ id ∈ s.approvals.resumes.map Resume.interruptId, id ∈ s.returned

end ReviewSession

/-- If the composer of an idle run is locked, then an approval is rendered that can resume
the run. -/
def VisibleReview (s : ReviewSession) : Prop :=
  s.Idle → s.approvals.reviewPending = true →
    ∃ approval ∈ s.approvals.pendingApprovals,
      s.approvals.Rendered approval ∧ s.approvals.CanResume approval

/-- Where an idle run lists an interrupt, there is an unanswered review. -/
def ShowsUnanswered (input : ApprovalsInput) (answered returned : List String) : Prop :=
  input.isLoading = false → (∀ id ∈ answered, id ∈ returned) → input.interrupts ≠ [] →
    Unanswered input answered

instance (input : ApprovalsInput) (answered returned : List String) :
    Decidable (ShowsUnanswered input answered returned) :=
  inferInstanceAs (Decidable (_ → _ → _ → _))

/-- A step that renders leaves an unanswered review where an idle run lists an interrupt. -/
def ListsUnanswered (s : ReviewSession) : ReviewAction → Prop
  | .hook (.render input) =>
    ShowsUnanswered input (s.approvals.resumes.map Resume.interruptId) s.returned
  | .responded interruptId input =>
    interruptId ∈ s.approvals.resumes.map Resume.interruptId →
      ShowsUnanswered input (s.approvals.resumes.map Resume.interruptId)
        (s.returned ++ [interruptId])
  | _ => True

/-- The interrupts that were answered are those that were resumed, and only calls that were
made have returned. -/
structure ReviewSession.Recorded (s : ReviewSession) : Prop where
  responded : s.approvals.respondedIds = s.approvals.resumes.map Resume.interruptId
  returned : ∀ id ∈ s.returned, id ∈ s.approvals.resumes.map Resume.interruptId

theorem visibleReview_iff_shows {s : ReviewSession} (h : s.Recorded) :
    VisibleReview s ↔ ShowsUnanswered s.approvals.input
      (s.approvals.resumes.map Resume.interruptId) s.returned := by
  have hpending := InterruptApprovals.pendingApprovals_ne_nil (s := s.approvals)
  rw [h.responded] at hpending
  constructor
  · intro hvisible hloading hreturned hlisted
    have hlocked : s.approvals.reviewPending = true := by
      have hlength := List.length_pos_iff.mpr hlisted
      simp [InterruptApprovals.reviewPending, hlength]
    obtain ⟨a, ha, -⟩ := hvisible ⟨hloading, hreturned⟩ hlocked
    exact hpending.mp (List.ne_nil_of_mem ha)
  · intro hshows ⟨hloading, hreturned⟩ hlocked
    have hne : s.approvals.pendingApprovals ≠ [] := by
      rcases Bool.or_eq_true_iff.mp hlocked with hlength | hlength
      · exact List.length_pos_iff.mp (of_decide_eq_true hlength)
      · have hlisted := List.length_pos_iff.mp (of_decide_eq_true hlength)
        exact hpending.mpr (hshows hloading hreturned hlisted)
    obtain ⟨a, ha⟩ := List.exists_mem_of_ne_nil _ hne
    exact ⟨a, ha, InterruptApprovals.rendered_of_mem ha, InterruptApprovals.canResume_of_mem ha⟩

/-! ### Runs -/

namespace ReviewSession

variable {s : ReviewSession} {interruptId : String} {input : ApprovalsInput}

theorem step_responded_of_mem (h : interruptId ∈ s.approvals.resumes.map Resume.interruptId) :
    s.step (.responded interruptId input) =
      { approvals := { s.approvals with input := input }
        returned := s.returned ++ [interruptId] } :=
  if_pos h

theorem step_responded_of_notMem (h : interruptId ∉ s.approvals.resumes.map Resume.interruptId) :
    s.step (.responded interruptId input) = s :=
  if_neg h

end ReviewSession

namespace ReviewSession.Recorded

variable {s : ReviewSession}

/-- The record after a decision: a call of a resume is recorded with the interrupt that it
answers. -/
theorem decide (h : s.Recorded) (approval : PendingApproval) (decision : ApprovalDecision) :
    Recorded { s with approvals := s.approvals.decide approval decision } := by
  by_cases hmem : approval.interruptId ∈ s.approvals.respondedIds
  · rw [InterruptApprovals.decide_of_mem hmem]
    exact ⟨h.responded, h.returned⟩
  · obtain ⟨-, ⟨-, hresponded, hresumes⟩ | ⟨hresponded, r, hr, hresumes⟩⟩ :=
      InterruptApprovals.decide_of_notMem hmem decision
    · refine ⟨?_, ?_⟩
      · rw [hresponded, hresumes]
        exact h.responded
      · rw [hresumes]
        exact h.returned
    · refine ⟨?_, ?_⟩
      · rw [hresponded, hresumes, List.map_append, h.responded, List.map_singleton, hr]
      · rw [hresumes, List.map_append]
        exact fun id hid => List.mem_append_left _ (h.returned id hid)

theorem step (h : s.Recorded) (a : ReviewAction) : (s.step a).Recorded := by
  cases a with
  | hook a =>
    cases a with
    | decide approval decision => exact h.decide approval decision
    | render input => exact ⟨h.responded, h.returned⟩
    | prune => exact ⟨h.responded, h.returned⟩
    | registerSubagentClaims subagentId keys => exact ⟨h.responded, h.returned⟩
  | responded interruptId input =>
    by_cases hmem : interruptId ∈ s.approvals.resumes.map Resume.interruptId
    · rw [step_responded_of_mem hmem]
      refine ⟨h.responded, fun id hid => ?_⟩
      rcases List.mem_append.mp hid with hid | hid
      · exact h.returned id hid
      · exact List.mem_singleton.mp hid ▸ hmem
    · rw [step_responded_of_notMem hmem]
      exact h

end ReviewSession.Recorded

/-- A decision resumes an interrupt, and then the run is not idle, or nothing is hidden. -/
theorem VisibleReview.decide {s : ReviewSession} (hs : s.Recorded) (h : VisibleReview s)
    (approval : PendingApproval) (decision : ApprovalDecision) :
    VisibleReview { s with approvals := s.approvals.decide approval decision } := by
  have hinput : (s.approvals.decide approval decision).input = s.approvals.input := by
    unfold InterruptApprovals.decide
    dsimp only
    split
    · rfl
    · split <;> rfl
  rw [visibleReview_iff_shows (hs.decide approval decision), hinput]
  have hshows := (visibleReview_iff_shows hs).mp h
  by_cases hmem : approval.interruptId ∈ s.approvals.respondedIds
  · rw [InterruptApprovals.decide_of_mem hmem]
    exact hshows
  · obtain ⟨-, ⟨-, -, hresumes⟩ | ⟨-, r, hr, hresumes⟩⟩ :=
      InterruptApprovals.decide_of_notMem hmem decision
    · rw [hresumes]
      exact hshows
    · -- the call that was just made has not returned
      intro _ hreturned
      have hnew : approval.interruptId ∈ s.returned := by
        refine hreturned _ ?_
        rw [hresumes, List.map_append, List.map_singleton, hr]
        exact List.mem_append_right _ (List.mem_singleton_self _)
      exact absurd (hs.responded ▸ hs.returned _ hnew) hmem

/-- After a step the reviews are visible iff it leaves an unanswered one. -/
theorem visibleReview_step {s : ReviewSession} (hs : s.Recorded) (h : VisibleReview s)
    (a : ReviewAction) : VisibleReview (s.step a) ↔ ListsUnanswered s a := by
  cases a with
  | hook a =>
    cases a with
    | render input => exact visibleReview_iff_shows (hs.step (.hook (.render input)))
    | prune =>
      have hsame := visibleReview_iff_shows (hs.step (.hook .prune))
      exact iff_of_true (hsame.mpr ((visibleReview_iff_shows hs).mp h)) trivial
    | decide approval decision => exact iff_of_true (h.decide hs approval decision) trivial
    | registerSubagentClaims subagentId keys =>
      have hsame := visibleReview_iff_shows (hs.step (.hook (.registerSubagentClaims subagentId keys)))
      exact iff_of_true (hsame.mpr ((visibleReview_iff_shows hs).mp h)) trivial
  | responded interruptId input =>
    have hstep := visibleReview_iff_shows (hs.step (.responded interruptId input))
    by_cases hmem : interruptId ∈ s.approvals.resumes.map Resume.interruptId
    · rw [ReviewSession.step_responded_of_mem hmem] at hstep ⊢
      exact hstep.trans ⟨fun hshows _ => hshows, fun hshows => hshows hmem⟩
    · rw [ReviewSession.step_responded_of_notMem hmem]
      exact iff_of_true h fun hmade => absurd hmade hmem

/-- A review of one command. -/
def oneCommand : ApprovalsInput where
  interrupts := [⟨"i", some (.obj [("action_requests",
    .arr [.obj [("name", .str "execute"), ("args", .obj [("command", .str "id")])]])])⟩]
  messages := [.human, .ai [⟨"t", "execute", .obj [("command", .str "id")]⟩]]

def idApproval : PendingApproval where
  interruptId := "i"
  ns := none
  index := 0
  total := 1
  actionRequest := ⟨"execute", .obj [("command", .str "id")]⟩
  reviewConfig := none
  index_lt := Nat.zero_lt_one

end NextRole
