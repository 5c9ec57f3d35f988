import NextRole.Lib.Dict
import NextRole.Lib.Json
import NextRole.Lib.Transition

/-!
# The approvals of a thread in the browser

`app/hooks/useInterruptApprovals.ts`: what waits for the user's review is derived from the
interrupts that the stream lists and from those of the thread's record.  Each approval is
routed to the tool call that it reviews, claimed by the card of a subagent, or left to the
fallback list.  The decisions of the user are queued until an interrupt has all of its
decisions; one resume then carries them in order.

A record beside the state has the decisions that were made and the resumes that were called.

## Main definitions

* `ApprovalsInput` — what the hook reads of the stream.
* `PendingApproval`, `parseApprovals`, `candidates`, `assignApprovals`.
* `InterruptApprovals` — the state of the hook; `decide` and `prune` on it.
* `useInterruptApprovals` — the machine of all renders, effects and decisions.
* `ReviewSession` — the hook and the resumes that have returned.
-/

namespace NextRole

/-! ### What the hook reads -/

/-- A tool call of a message; a call without an id has the empty one. -/
structure ToolCall where
  id : String
  name : String
  args : Json := .null
  deriving DecidableEq

/-- A message of the thread. -/
inductive ChatMessage
  | ai (toolCalls : List ToolCall)
  | tool (toolCallId : String)
  | human
  deriving DecidableEq

/-- `RootInterruptLike`; a missing id is the empty one. -/
structure RootInterrupt where
  id : String
  value : Option Json
  deriving DecidableEq

/-- `ThreadInterruptLike`. -/
structure ThreadInterrupt where
  interruptId : String
  payload : Option Json
  ns : Option (List String) := none
  deriving DecidableEq

/-- What the hook reads of the stream when it renders. -/
structure ApprovalsInput where
  interrupts : List RootInterrupt := []
  threadInterrupts : List ThreadInterrupt := []
  isLoading : Bool := false
  messages : List ChatMessage := []
  deriving DecidableEq

/-- `ApprovalDecision`. -/
inductive ApprovalDecision
  | approve
  | edit (name : String) (args : Json)
  | reject (message : Option String)
  deriving DecidableEq

/-! ### Approvals -/

/-- A request to run a tool, as far as the hook reads it. -/
structure ActionRequest where
  name : String
  args : Json
  deriving DecidableEq

/-- `isActionRequest`, with what it reads. -/
def actionRequest? (value : Json) : Option ActionRequest :=
  match value.get? "name", value.get? "args" with
  | some (.str name), some args =>
    match args with
    | .obj _ | .arr _ => some ⟨name, args⟩
    | _ => none
  | _, _ => none

/-- An interrupt of either source. -/
structure Candidate where
  id : String
  value : Option Json
  ns : Option (List String) := none
  deriving DecidableEq

/-- `PendingApproval`: one of the requests of an interrupt. -/
structure PendingApproval where
  interruptId : String
  ns : Option (List String)
  index : ℕ
  total : ℕ
  actionRequest : ActionRequest
  reviewConfig : Option Json
  index_lt : index < total
  deriving DecidableEq

/-- The key of a request of an interrupt. -/
def approvalKey (interruptId : String) (index : ℕ) : String :=
  interruptId ++ ":" ++ toString index

def PendingApproval.key (approval : PendingApproval) : String :=
  approvalKey approval.interruptId approval.index

/-- A field of a payload that is an array, else the empty one. -/
def listField (value : Option Json) (field : String) : List Json :=
  match value.bind (·.get? field) with
  | some (.arr xs) => xs
  | _ => []

/-- `parseApprovals`. -/
def parseApprovals (candidate : Candidate) : List PendingApproval :=
  let requests := listField candidate.value "action_requests"
  let configs := listField candidate.value "review_configs"
  let actionRequests := requests.filterMap actionRequest?
  -- a payload with any other element is no review
  if actionRequests.length = 0 ∨ actionRequests.length ≠ requests.length then []
  else
    List.ofFn fun index : Fin actionRequests.length =>
      { interruptId := candidate.id
        ns := candidate.ns
        index := index
        total := actionRequests.length
        actionRequest := actionRequests[index]
        reviewConfig := configs[index.val]?
        index_lt := index.isLt }

namespace ApprovalsInput

variable (input : ApprovalsInput)

/-- The calls of the last message of the model that no tool message has answered. -/
def openCalls : List ToolCall :=
  let answered := input.messages.filterMap fun
    | .tool toolCallId => if toolCallId ≠ "" then some toolCallId else none
    | _ => none
  let lastAI := input.messages.reverse.findSome? fun
    | .ai toolCalls => some toolCalls
    | _ => none
  (lastAI.getD []).filter fun call => call.id ≠ "" ∧ call.id ∉ answered

/-- An entry of the thread's record joins the candidates unless its id is there. -/
def addThreadInterrupt (candidates : List Candidate) (entry : ThreadInterrupt) : List Candidate :=
  if entry.interruptId = "" ∨ candidates.any (·.id = entry.interruptId) then candidates
  else candidates ++ [⟨entry.interruptId, entry.payload, entry.ns⟩]

/-- The interrupts that may be pending: those that the stream lists, and those of the
thread's record while the run is idle with open calls. -/
def candidates : List Candidate :=
  let listed := input.interrupts.filterMap fun interrupt =>
    if interrupt.id ≠ "" ∧ interrupt.value.isSome = true then
      some ⟨interrupt.id, interrupt.value, none⟩
    else none
  if !input.isLoading && input.openCalls.length > 0 then
    input.threadInterrupts.foldl addThreadInterrupt listed
  else listed

end ApprovalsInput

/-- Where the approvals are shown: at a tool call, or elsewhere. -/
structure Assignment where
  approvalByToolCallId : Dict String PendingApproval := {}
  unassignedApprovals : List PendingApproval := []

namespace Assignment

variable (openCalls : List ToolCall)

/-- The call that an approval reviews: by name and arguments, else by name. -/
def findCall (s : Assignment) (approval : PendingApproval) : Option ToolCall :=
  let unclaimed (call : ToolCall) : Bool := (s.approvalByToolCallId.get? call.id).isNone
  let request := approval.actionRequest
  -- `toolCall.args ?? {}`
  let argsOf (call : ToolCall) : Json := if call.args = .null then .obj [] else call.args
  (openCalls.find? fun call =>
      unclaimed call ∧ call.name = request.name ∧ argsOf call = request.args).or
    (openCalls.find? fun call => unclaimed call ∧ call.name = request.name)

/-- An approval goes to the call that it reviews, if there is one. -/
def assign (s : Assignment) (approval : PendingApproval) : Assignment :=
  match s.findCall openCalls approval with
  | some call => { s with approvalByToolCallId := s.approvalByToolCallId.set call.id approval }
  | none => { s with unassignedApprovals := s.unassignedApprovals ++ [approval] }

end Assignment

def assignApprovals (openCalls : List ToolCall) (approvals : List PendingApproval) : Assignment :=
  approvals.foldl (Assignment.assign openCalls) {}

/-! ### The card of a subagent -/

/-- A tool call of a subagent, with its status. -/
structure NestedCall extends ToolCall where
  status : String
  deriving DecidableEq

/-- `approvalByNestedId` of `app/components/SubagentCard.tsx`: the card routes the approvals that
are left to its own pending calls in the same way. -/
def approvalByNestedId (nestedBatches : List (List NestedCall))
    (unassigned : List PendingApproval) : Dict String PendingApproval :=
  let openCalls := nestedBatches.flatten.filter fun call => call.status = "pending"
  (assignApprovals (openCalls.map NestedCall.toToolCall) unassigned).approvalByToolCallId

/-! ### The state of the hook -/

/-- A call of `resumeInterrupt`, with the total of the approval that completed it and the
decisions made before it. -/
structure Resume where
  interruptId : String
  ns : Option (List String)
  decisions : List ApprovalDecision
  total : ℕ
  made : ℕ
  deriving DecidableEq

/-- The state of the hook, with what it has read last. -/
structure InterruptApprovals where
  input : ApprovalsInput := {}
  queuedDecisions : Dict String ApprovalDecision := {}
  respondedIds : List String := []
  claimsBySubagent : Dict String (List String) := {}
  /-- The decisions of the user. -/
  made : List (PendingApproval × ApprovalDecision) := []
  resumes : List Resume := []

namespace InterruptApprovals

variable (s : InterruptApprovals)

def pendingApprovals : List PendingApproval :=
  (s.input.candidates.filter fun candidate => candidate.id ∉ s.respondedIds).flatMap parseApprovals

def assignment : Assignment := assignApprovals s.input.openCalls s.pendingApprovals

def claimedKeySet : List String := s.claimsBySubagent.values.flatten

/-- `fallbackApprovals`. -/
def fallbackApprovals : List PendingApproval :=
  s.assignment.unassignedApprovals.filter fun approval => approval.key ∉ s.claimedKeySet

/-- `reviewPending`: the composer is locked. -/
def reviewPending : Bool := s.pendingApprovals.length > 0 || s.input.interrupts.length > 0

/-- The ids of the pending interrupts as one text. -/
def pendingIdsKey : String :=
  ",".intercalate ((s.pendingApprovals.map PendingApproval.interruptId).dedup.mergeSort (· ≤ ·))

/-- What a key holds before its last colon. -/
def keyInterruptId (key : String) : String :=
  String.ofList ((key.toList.reverse.dropWhile (· ≠ ':')).drop 1).reverse

/-- The effect that drops the decisions of interrupts that are no longer pending. -/
def prune : InterruptApprovals :=
  let alive := if s.pendingIdsKey = "" then [] else s.pendingIdsKey.splitOn ","
  { s with queuedDecisions := s.queuedDecisions.filter fun key => keyInterruptId key ∈ alive }

/-- `decide`. -/
def decide (approval : PendingApproval) (decision : ApprovalDecision) : InterruptApprovals :=
  let s := { s with made := s.made ++ [(approval, decision)] }
  if approval.interruptId ∈ s.respondedIds then s
  else
    let next := s.queuedDecisions.set approval.key decision
    let s := { s with queuedDecisions := next }
    let keys := (List.range approval.total).map (approvalKey approval.interruptId)
    -- every sibling is decided
    match next.getAll? keys with
    | none => s
    | some decisions =>
      { s with
        respondedIds := s.respondedIds ++ [approval.interruptId]
        resumes := s.resumes ++
          [⟨approval.interruptId, approval.ns, decisions, approval.total, s.made.length⟩] }

/-- `registerSubagentClaims`. -/
def registerSubagentClaims (subagentId : String) (keys : List String) : InterruptApprovals :=
  { s with
    claimsBySubagent :=
      if keys.length > 0 then s.claimsBySubagent.set subagentId keys
      else s.claimsBySubagent.erase subagentId }

end InterruptApprovals

/-- What happens to the hook. -/
inductive ApprovalsAction
  | render (input : ApprovalsInput)
  | prune
  | decide (approval : PendingApproval) (decision : ApprovalDecision)
  | registerSubagentClaims (subagentId : String) (keys : List String)
  deriving DecidableEq

namespace InterruptApprovals

/-- The hook does one thing. -/
def step (s : InterruptApprovals) : ApprovalsAction → InterruptApprovals
  | .render input => { s with input := input }
  | .prune => s.prune
  | .decide approval decision => s.decide approval decision
  | .registerSubagentClaims subagentId keys => s.registerSubagentClaims subagentId keys

end InterruptApprovals

/-- The hook from its first render on. -/
def useInterruptApprovals : Machine InterruptApprovals ApprovalsAction where
  init s := ∃ input, s = { input := input }
  step s a := some (s.step a)

/-! ### The review of a thread -/

/-- The hook, with the interrupts whose call of `stream.respond` has returned. -/
structure ReviewSession where
  approvals : InterruptApprovals := {}
  returned : List String := []

/-- What happens to the review of a thread: the hook does something, or a call of
`stream.respond` returns and the stream shows what follows.  After a call that failed the
interrupt is still there. -/
inductive ReviewAction
  | hook (a : ApprovalsAction)
  | responded (interruptId : String) (input : ApprovalsInput)
  deriving DecidableEq

namespace ReviewSession

def step (s : ReviewSession) : ReviewAction → ReviewSession
  | .hook a => { s with approvals := s.approvals.step a }
  | .responded interruptId input =>
    -- only a call that was made returns
    if interruptId ∈ s.approvals.resumes.map Resume.interruptId then
      { approvals := { s.approvals with input := input }
        returned := s.returned ++ [interruptId] }
    else s

end ReviewSession

end NextRole
