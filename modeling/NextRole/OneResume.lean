import NextRole.Frontend.Approvals
import NextRole.Lib.Path

/-!
# One complete resume for each interrupt

An interrupt that was answered is remembered forever, so that no replay of it resumes it
again.  The queue holds for each request the last decision that was made for it; what a
prune drops from the queue has to be decided again before the interrupt is complete.

## Main definitions

* `lastDecision` — the last decision made for a request.
* `Resume.Complete` — a resume has the last decision for each request.
* `CompleteResumes` — what holds of every run.

## Main results

* `approvalKey_inj` — a key reads back.
* `resumes_complete` — an interrupt is resumed at most once, with all of its decisions.
-/

namespace NextRole

theorem approvalKey_inj {id id' : String} {index index' : ℕ}
    (h : approvalKey id index = approvalKey id' index') : id = id' ∧ index = index' := by
  refine Path.numbered_inj (c := ':') (by decide) ?_
  simpa [approvalKey, String.toList_append] using congrArg String.toList h

/-- The last decision made for a request of an interrupt. -/
def lastDecision (made : List (PendingApproval × ApprovalDecision)) (interruptId : String)
    (index : ℕ) : Option ApprovalDecision :=
  (made.reverse.find? fun m => m.1.interruptId = interruptId ∧ m.1.index = index).map Prod.snd

@[simp] theorem lastDecision_concat (made : List (PendingApproval × ApprovalDecision))
    (m : PendingApproval × ApprovalDecision) (interruptId : String) (index : ℕ) :
    lastDecision (made ++ [m]) interruptId index =
      if m.1.interruptId = interruptId ∧ m.1.index = index then some m.2
      else lastDecision made interruptId index := by
  rw [lastDecision, List.reverse_append, List.reverse_singleton, List.singleton_append,
    List.find?_cons]
  by_cases h : m.1.interruptId = interruptId ∧ m.1.index = index
  · rw [decide_eq_true h, if_pos h]
    rfl
  · rw [decide_eq_false h, if_neg h]
    rfl

/-- A resume has one decision for each request, the last one made before it, and the
decision that completes the interrupt calls it. -/
structure Resume.Complete (made : List (PendingApproval × ApprovalDecision)) (r : Resume) :
    Prop where
  length : r.decisions.length = r.total
  last : ∀ index < r.total,
    r.decisions[index]? = lastDecision (made.take r.made) r.interruptId index
  completed : ∃ m, (made.take r.made).getLast? = some m ∧
    m.1.interruptId = r.interruptId ∧ m.1.total = r.total ∧ m.1.ns = r.ns

/-- What holds of every run. -/
structure CompleteResumes (s : InterruptApprovals) : Prop where
  queued : ∀ id ∉ s.respondedIds, ∀ index decision,
    s.queuedDecisions.get? (approvalKey id index) = some decision →
      lastDecision s.made id index = some decision
  responded : s.resumes.map Resume.interruptId = s.respondedIds
  nodup : s.respondedIds.Nodup
  complete : ∀ r ∈ s.resumes, r.made ≤ s.made.length ∧ r.Complete s.made

theorem Resume.Complete.append {made : List (PendingApproval × ApprovalDecision)} {r : Resume}
    (h : r.Complete made) (hle : r.made ≤ made.length)
    (later : List (PendingApproval × ApprovalDecision)) : r.Complete (made ++ later) := by
  have htake : (made ++ later).take r.made = made.take r.made :=
    List.take_append_of_le_length hle
  exact ⟨h.length, htake ▸ h.last, htake ▸ h.completed⟩

namespace CompleteResumes

variable {s : InterruptApprovals}

theorem prune (h : CompleteResumes s) : CompleteResumes s.prune where
  queued id hid index decision hget :=
    h.queued id hid index decision (Dict.get?_of_get?_filter hget)
  responded := h.responded
  nodup := h.nodup
  complete := h.complete

/-- The queue after a decision for an interrupt that was not answered. -/
theorem queue (h : CompleteResumes s) (approval : PendingApproval) (decision : ApprovalDecision) :
    ∀ id ∉ s.respondedIds, ∀ index d,
      (s.queuedDecisions.set approval.key decision).get? (approvalKey id index) = some d →
        lastDecision (s.made ++ [(approval, decision)]) id index = some d := by
  intro id hid index d hget
  rw [lastDecision_concat]
  by_cases hkey : approvalKey id index = approval.key
  · -- the key reads back as this request
    obtain ⟨rfl, rfl⟩ := approvalKey_inj hkey
    rw [hkey, Dict.get?_set_self] at hget
    rw [if_pos ⟨rfl, rfl⟩]
    exact hget
  · rw [Dict.get?_set_of_ne _ _ hkey] at hget
    have hne : ¬ (approval.interruptId = id ∧ approval.index = index) := by
      rintro ⟨rfl, rfl⟩
      exact hkey rfl
    rw [if_neg hne]
    exact h.queued id hid index d hget

/-- What is found for all keys of an interrupt is one decision for each request. -/
theorem decisions_of_getAll? {d : Dict String ApprovalDecision} {id : String} {total : ℕ}
    {decisions : List ApprovalDecision}
    (h : d.getAll? ((List.range total).map (approvalKey id)) = some decisions) :
    decisions.length = total ∧
      ∀ index < total, d.get? (approvalKey id index) = decisions[index]? := by
  have hmap := Dict.getAll?_eq_some_iff.mp h
  rw [List.map_map] at hmap
  have hlength : decisions.length = total := by
    simpa using (congrArg List.length hmap).symm
  refine ⟨hlength, fun index hindex => ?_⟩
  have hget := congrArg (fun l => l[index]?) hmap
  rw [← hlength] at hindex
  simpa [hlength, hindex, hlength ▸ hindex] using hget

theorem decide (h : CompleteResumes s) (approval : PendingApproval) (decision : ApprovalDecision) :
    CompleteResumes (s.decide approval decision) := by
  have hcomplete : ∀ r ∈ s.resumes, r.made ≤ (s.made ++ [(approval, decision)]).length ∧
      r.Complete (s.made ++ [(approval, decision)]) := by
    intro r hr
    obtain ⟨hle, hr⟩ := h.complete r hr
    refine ⟨?_, hr.append hle _⟩
    rw [List.length_append]
    omega
  unfold InterruptApprovals.decide
  dsimp only
  split
  · -- the interrupt was answered: the decision is for none of the others
    next hresponded =>
    refine ⟨fun id hid index d hget => ?_, h.responded, h.nodup, hcomplete⟩
    have hne : ¬ (approval.interruptId = id ∧ approval.index = index) :=
      fun heq => hid (heq.1 ▸ hresponded)
    rw [lastDecision_concat, if_neg hne]
    exact h.queued id hid index d hget
  · next hresponded =>
    have hqueue := h.queue approval decision
    split
    · exact ⟨hqueue, h.responded, h.nodup, hcomplete⟩
    · next decisions hdecisions =>
      obtain ⟨hlength, hget⟩ := decisions_of_getAll? hdecisions
      refine ⟨fun id hid => hqueue id fun hmem => hid (List.mem_append_left _ hmem), ?_, ?_, ?_⟩
      · rw [List.map_append, h.responded]
        rfl
      · exact List.nodup_append'.mpr ⟨h.nodup, List.nodup_singleton _,
          List.disjoint_singleton.mpr hresponded⟩
      · intro r hr
        rcases List.mem_append.mp hr with hr | hr
        · exact hcomplete r hr
        · obtain rfl := List.mem_singleton.mp hr
          refine ⟨le_refl _, hlength, fun index hindex => ?_, (approval, decision), ?_, rfl, rfl, rfl⟩
          · rw [List.take_length, ← hget index hindex]
            have hsome : (decisions[index]?).isSome = true := by
              simp [hlength, hindex]
            obtain ⟨d, hd⟩ := Option.isSome_iff_exists.mp hsome
            rw [hget index hindex, hd]
            exact (hqueue _ hresponded index d ((hget index hindex).trans hd)).symm
          · rw [List.take_length, List.getLast?_concat]

theorem step (h : CompleteResumes s) (a : ApprovalsAction) : CompleteResumes (s.step a) := by
  cases a with
  | render input => exact ⟨h.queued, h.responded, h.nodup, h.complete⟩
  | prune => exact h.prune
  | decide approval decision => exact h.decide approval decision
  | registerSubagentClaims subagentId keys =>
    exact ⟨h.queued, h.responded, h.nodup, h.complete⟩

theorem of_reachable (h : useInterruptApprovals.Reachable Machine.free s) : CompleteResumes s := by
  refine h.invariant (I := CompleteResumes) ?_ ?_
  · rintro t ⟨input, rfl⟩
    exact ⟨nofun, rfl, List.nodup_nil, nofun⟩
  · intro s a t _ hI _ hstep
    obtain rfl := Option.some.inj hstep
    exact hI.step a

end CompleteResumes

/-- In every run an interrupt is resumed at most once, and each resume has the last decision
made for each of its requests. -/
theorem resumes_complete {s : InterruptApprovals}
    (h : useInterruptApprovals.Reachable Machine.free s) :
    (s.resumes.map Resume.interruptId).Nodup ∧ ∀ r ∈ s.resumes, r.Complete s.made := by
  have hI := CompleteResumes.of_reachable h
  exact ⟨hI.responded ▸ hI.nodup, fun r hr => (hI.complete r hr).2⟩

/-- A review of the commands `id` and `pwd`. -/
def twoCommands : ApprovalsInput where
  interrupts := [⟨"i", some (.obj [("action_requests", .arr (["id", "pwd"].map fun command =>
    .obj [("name", .str "execute"), ("args", .obj [("command", .str command)])]))])⟩]
  messages := [.human, .ai [⟨"t1", "execute", .obj [("command", .str "id")]⟩,
    ⟨"t2", "execute", .obj [("command", .str "pwd")]⟩]]

/-- A request of that review. -/
def commandApproval (index : Fin 2) : PendingApproval where
  interruptId := "i"
  ns := none
  index := index
  total := 2
  actionRequest := ⟨"execute", .obj [("command", .str (if index = 0 then "id" else "pwd"))]⟩
  reviewConfig := none
  index_lt := index.isLt

example : ({ input := twoCommands } : InterruptApprovals).pendingApprovals =
    [commandApproval 0, commandApproval 1] := by decide

/-- The second request is decided twice and then the first, and again when the review comes
back after its resume. -/
theorem resumes_complete_two :
    ∃ s, useInterruptApprovals.Reachable Machine.free s ∧
      s.resumes = [⟨"i", none, [.approve, .reject none], 2, 3⟩] ∧
      (s.resumes.map Resume.interruptId).Nodup ∧ ∀ r ∈ s.resumes, r.Complete s.made := by
  obtain ⟨s, h, hs⟩ := useInterruptApprovals.exists_reachable Machine.free
    (s := { input := twoCommands }) ⟨_, rfl⟩
    [.decide (commandApproval 1) .approve, .decide (commandApproval 1) (.reject none),
      .decide (commandApproval 0) .approve, .render {}, .render twoCommands,
      .decide (commandApproval 0) .approve]
    (fun s => s.resumes = [⟨"i", none, [.approve, .reject none], 2, 3⟩]) (by decide)
  exact ⟨s, h, of_decide_eq_true hs, resumes_complete h⟩

end NextRole
