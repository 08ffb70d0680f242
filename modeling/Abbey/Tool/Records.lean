import Abbey.Run.Store

/-!
# Records and tables of the tool ledgers

The legacy ledger of `src/runtime/migration_5_tool_approvals.sql` and
`src/runtime/migration_6_tool_executions.sql`, and the governed ledger of
the migrations 8, 9 and 11.

The types of the crate `abi_capability` are the records that the store
reads and writes.  Their hash functions, the lengths of their JSON texts
and their own checks are the fields of `Capability`.  A JSON column holds
the value of its text: the text round-trips, so two texts are equal exactly
when their values are.

Each row type carries the `CHECK` of its table, and a statement that breaks
one answers `database`.  The sequence column of an event table is the
position in the list.
-/

namespace Abbey.Tool

open Abbey.Lib Abbey.Run

/-! ## Legacy approvals -/

inductive ToolApprovalState where
  | pending
  | approved
  | denied
  | cancelled
  | expired
  | consumed
  deriving DecidableEq

/-- `state IN ('pending', 'approved')`. -/
def ToolApprovalState.isOpen : ToolApprovalState → Bool
  | .pending | .approved => true
  | .denied | .cancelled | .expired | .consumed => false

structure ToolApprovalRecord where
  callId : String
  toolId : String
  callDigest : String
  state : ToolApprovalState
  decisionId : Option String
  cancellationId : Option String
  createdAtMs : Nat
  expiresAtMs : Nat
  updatedAtMs : Nat

/-- The identifiers that go with a state. -/
def ToolApprovalState.carries (decisionId cancellationId : Option String) :
    ToolApprovalState → Bool
  | .pending => decisionId.isNone && cancellationId.isNone
  | .approved | .denied | .consumed => decisionId.isSome && cancellationId.isNone
  | .cancelled => cancellationId.isSome
  | .expired => cancellationId.isNone

def ToolApprovalRecord.check (record : ToolApprovalRecord) : Bool :=
  isDigest record.callDigest && record.createdAtMs < record.expiresAtMs &&
    record.createdAtMs ≤ record.updatedAtMs &&
    record.state.carries record.decisionId record.cancellationId

structure NewToolApproval where
  callId : String
  toolId : String
  callDigest : String
  createdAtMs : Nat
  expiresAtMs : Nat

inductive ToolApprovalDecision where
  | approve
  | deny

structure ToolApprovalEvent where
  callId : String
  state : ToolApprovalState
  decisionId : Option String
  cancellationId : Option String
  occurredAtMs : Nat

/-! ## Legacy executions -/

inductive ToolExecutionState where
  | prepared
  | interrupted
  | succeeded
  | failed
  deriving DecidableEq

inductive ToolExecutionOutcome where
  | succeeded
  | failed

def ToolExecutionOutcome.state : ToolExecutionOutcome → ToolExecutionState
  | .succeeded => .succeeded
  | .failed => .failed

structure ToolExecutionRecord where
  callId : String
  executionId : String
  state : ToolExecutionState
  resultDigest : Option String
  startedAtMs : Nat
  finishedAtMs : Option Nat

/-- The result and the end that go with a state. -/
def ToolExecutionState.carries (resultDigest : Option String) (finishedAtMs : Option Nat) :
    ToolExecutionState → Bool
  | .prepared => resultDigest.isNone && finishedAtMs.isNone
  | .interrupted => resultDigest.isNone && finishedAtMs.isSome
  | .succeeded | .failed => resultDigest.isSome && finishedAtMs.isSome

def ToolExecutionRecord.check (record : ToolExecutionRecord) : Bool :=
  record.resultDigest.all isDigest &&
    record.finishedAtMs.all (fun finished => record.startedAtMs ≤ finished) &&
    record.state.carries record.resultDigest record.finishedAtMs

structure ToolExecutionEvent where
  callId : String
  executionId : String
  state : ToolExecutionState
  resultDigest : Option String
  occurredAtMs : Nat

def ToolExecutionEvent.check (event : ToolExecutionEvent) : Bool :=
  event.resultDigest.all isDigest

inductive ToolExecutionPreparation where
  | prepared (record : ToolExecutionRecord)
  | expired (approval : ToolApprovalRecord)

/-! ## Values of `abi_capability` -/

/-- A SHA-256 digest by its 64 hexadecimal digits. -/
structure Digest where
  hex : String
  valid : isDigest hex = true
  deriving DecidableEq

/-- `Digest::to_string`. -/
def Digest.text (digest : Digest) : String := "sha256:" ++ digest.hex

theorem Digest.text_injective {a b : Digest} (h : a.text = b.text) : a = b := by
  have hhex : a.hex = b.hex := by
    unfold Digest.text at h
    simpa using h
  cases a
  cases b
  cases hhex
  rfl

/-- `hex`: `digest.to_string()[7..]`. -/
def hex (digest : Digest) : String := digest.hex

inductive ApprovalLevel where
  | a0None
  | a1Actor
  | a2Manager
  | a3Quorum
  | a4Owner
  deriving DecidableEq

inductive PrincipalKind where
  | humanSubject
  | other (name : String)
  deriving DecidableEq

structure Principal where
  kind : PrincipalKind
  id : String
  deriving DecidableEq

structure CompensationOrigin where
  originalExecutionId : Digest
  originalBindingDigest : Digest
  deriving DecidableEq

structure AuthorizationBinding where
  requestDigest : Digest
  principalDigest : Digest
  scopeDigest : Digest
  packageDigest : Digest
  grantDigest : Digest
  policyDigest : Digest
  schemaDigest : Digest
  preconditionDigest : Digest
  requiredApproval : ApprovalLevel
  compensationOrigin : Option CompensationOrigin
  deriving DecidableEq

inductive ApprovalState where
  | approved
  | other (name : String)
  deriving DecidableEq

structure Approval where
  decisionId : String
  callId : String
  callDigest : Digest
  packageDigest : Digest
  grantId : String
  approver : Principal
  coapprover : Option Principal
  level : ApprovalLevel
  expiresAtMs : Nat
  state : ApprovalState
  deriving DecidableEq

structure ExactApproval where
  binding : AuthorizationBinding
  issuedAtMs : Nat
  approval : Approval
  deriving DecidableEq

structure PrepareRequest where
  callId : String
  toolId : String
  executionId : Digest
  binding : AuthorizationBinding
  approval : Option ExactApproval
  nowMs : Nat

/-- The codes that the store names. -/
inductive ReasonCode where
  | authorized
  | approvalMissing
  | approvalInsufficient
  | approvalExpired
  | approvalReplayed
  | other (name : String)
  deriving DecidableEq

inductive LifecycleReason where
  | authorization (code : ReasonCode)
  | interrupted
  | other (name : String)
  deriving DecidableEq

inductive OutcomeState where
  | prepared
  | succeeded
  | failed
  | uncertain
  | notDispatched
  | unverifiable
  | compensationFailed
  deriving DecidableEq

structure TerminalOutcome where
  version : Nat
  state : OutcomeState
  resultDigest : Option Digest
  reason : LifecycleReason
  deriving DecidableEq

inductive Decision where
  | allow
  | deny
  | approvalRequired
  deriving DecidableEq

structure StageAudit where
  version : Nat
  executionId : Digest
  stage : Nat
  bindingDigest : Digest
  decision : Decision
  reason : LifecycleReason
  deriving DecidableEq

inductive PrepareOutcome where
  | prepared (executionId : Digest) (binding : AuthorizationBinding)
  | refused (code : ReasonCode)
  | uncertain

inductive LifecycleError where
  | unavailable
  | invalidState
  | capacity

/-! ## Local approvals -/

/-- The fields of a scope that the store reads, and the text of the
others. -/
structure Scope where
  tenantId : String
  platform : String
  rest : String
  deriving DecidableEq

/-- `abi_capability::Request`, with the text of the fields that the store
does not read. -/
structure CapabilityRequest where
  callId : String
  principal : Principal
  scope : Scope
  packageDigest : Digest
  parameterDigest : Digest
  requestDigest : Digest
  rest : String
  deriving DecidableEq

structure LocalApprovalPreview where
  version : Nat
  tenantId : String
  accountId : String
  nodeId : String
  userId : String
  request : CapabilityRequest
  binding : AuthorizationBinding
  grantId : String
  toolId : String
  operation : String
  resource : String
  parameters : String
  expectedEffects : List String
  createdAtMs : Nat
  expiresAtMs : Nat
  deriving DecidableEq

structure Owner where
  tenantId : String
  accountId : String
  nodeId : String
  userId : String
  principal : Principal
  deriving DecidableEq

/-- `outcome`. -/
def outcome (state : OutcomeState) (reason : LifecycleReason) : TerminalOutcome :=
  ⟨1, state, none, reason⟩

def preparedOutcome : TerminalOutcome := outcome .prepared (.authorization .authorized)

def interruptedOutcome : TerminalOutcome := outcome .uncertain .interrupted

/-- What the store uses of `abi_capability`, SHA-256 and `serde_json`: the
commitments, the lengths of the JSON texts and the checks of the crate.
The outcome that recovery writes passes the check of the crate and its text
fits its column. -/
structure Capability where
  bindingDigest : AuthorizationBinding → Digest
  commitPrincipal : Principal → Digest
  commitScope : Scope → Digest
  commitParameters : String → Digest
  computedDigest : CapabilityRequest → Digest
  previewDigest : LocalApprovalPreview → Digest
  bindingBytes : AuthorizationBinding → Nat
  approvalBytes : ExactApproval → Nat
  outcomeBytes : TerminalOutcome → Nat
  auditBytes : StageAudit → Nat
  previewBytes : LocalApprovalPreview → Nat
  ownerBytes : Owner → Nat
  isValid : PrepareRequest → Bool
  isValidTerminal : TerminalOutcome → Bool
  exactMatches : ExactApproval → AuthorizationBinding → Nat → Bool
  interrupted_valid : isValidTerminal interruptedOutcome = true
  interrupted_bytes : outcomeBytes interruptedOutcome ≤ 1024

/-- A digest with one digit. -/
def sampleDigest : Digest := ⟨String.ofList (List.replicate 64 'a'), by decide⟩

/-- Commitments with one value and checks that only look at the version. -/
def sampleCapability : Capability where
  bindingDigest _ := sampleDigest
  commitPrincipal _ := sampleDigest
  commitScope _ := sampleDigest
  commitParameters _ := sampleDigest
  computedDigest _ := sampleDigest
  previewDigest _ := sampleDigest
  bindingBytes _ := 900
  approvalBytes _ := 1600
  outcomeBytes _ := 120
  auditBytes _ := 360
  previewBytes _ := 4000
  ownerBytes _ := 200
  isValid _ := true
  isValidTerminal terminal := terminal.version = 1 && terminal.state ≠ .prepared
  exactMatches _ _ _ := true
  interrupted_valid := rfl
  interrupted_bytes := by decide

/-! ## Governed tables -/

structure GovernedIntent where
  executionId : Digest
  callId : String
  toolId : String
  approvalCallId : Option String
  legacyExecutionCallId : Option String
  originalExecutionId : Option Digest
  originalBindingDigest : Option Digest
  binding : AuthorizationBinding
  approval : Option ExactApproval
  outcome : TerminalOutcome
  state : ToolExecutionState
  startedAtMs : Nat

def GovernedIntent.check (C : Capability) (intent : GovernedIntent) : Bool :=
  1 ≤ intent.callId.length && intent.callId.length ≤ 128 &&
    1 ≤ intent.toolId.length && intent.toolId.length ≤ 128 &&
    C.bindingBytes intent.binding ≤ 2048 &&
    intent.approval.all (fun approval => C.approvalBytes approval ≤ 8192) &&
    C.outcomeBytes intent.outcome ≤ 1024 &&
    intent.originalExecutionId.isSome == intent.originalBindingDigest.isSome &&
    ((intent.approvalCallId.isNone && intent.legacyExecutionCallId.isNone &&
        intent.approval.isNone) ||
      (intent.approvalCallId = some intent.callId &&
        intent.legacyExecutionCallId = some intent.callId && intent.approval.isSome))

structure GovernedStageEvent where
  executionId : Digest
  intentId : Option Digest
  stage : Nat
  record : StageAudit

def GovernedStageEvent.check (C : Capability) (event : GovernedStageEvent) : Bool :=
  event.stage ≤ 16 && C.auditBytes event.record ≤ 1024 &&
    (event.stage ≠ 11 || event.intentId = some event.executionId)

structure GovernedOutcomeEvent where
  executionId : Digest
  outcome : TerminalOutcome

def GovernedOutcomeEvent.check (C : Capability) (event : GovernedOutcomeEvent) : Bool :=
  C.outcomeBytes event.outcome ≤ 1024

structure GovernedRefusal where
  executionId : Digest
  stage : Nat
  record : StageAudit

def GovernedRefusal.check (C : Capability) (refusal : GovernedRefusal) : Bool :=
  refusal.stage = 11 && C.auditBytes refusal.record ≤ 1024 && refusal.record.version = 1 &&
    refusal.record.stage = 11 && refusal.record.decision = .deny &&
    refusal.record.executionId = refusal.executionId

structure GovernedPreview where
  callId : String
  binding : AuthorizationBinding

def GovernedPreview.check (C : Capability) (preview : GovernedPreview) : Bool :=
  C.bindingBytes preview.binding ≤ 2048

structure LocalApproval where
  callId : String
  preview : LocalApprovalPreview
  owner : Owner
  exact : Option ExactApproval

def LocalApproval.check (C : Capability) (row : LocalApproval) : Bool :=
  C.previewBytes row.preview ≤ 65536 && C.ownerBytes row.owner ≤ 4096 &&
    row.exact.all (fun exact => C.approvalBytes exact ≤ 8192)

/-- The tables of the two tool ledgers. -/
structure ToolDb where
  approvals : Table ToolApprovalRecord.callId
  approvalEvents : List ToolApprovalEvent
  executions : Table ToolExecutionRecord.callId
  executionEvents : List ToolExecutionEvent
  intents : Table GovernedIntent.executionId
  stageEvents : List GovernedStageEvent
  outcomeEvents : List GovernedOutcomeEvent
  refusals : List GovernedRefusal
  previews : Table GovernedPreview.callId
  localApprovals : Table LocalApproval.callId

def ToolDb.empty : ToolDb where
  approvals := .empty
  approvalEvents := []
  executions := .empty
  executionEvents := []
  intents := .empty
  stageEvents := []
  outcomeEvents := []
  refusals := []
  previews := .empty
  localApprovals := .empty

end Abbey.Tool
