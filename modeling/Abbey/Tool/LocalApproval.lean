import Abbey.Tool.Governed

/-!
# The local approval authority

`src/runtime/store/governed/local.rs`: one authenticated local user requests
and decides approvals with a full preview, and reaches the governed ledger
through calls that check the owner first.

`Owner` is the authority.  A request that is repeated answers the state of
the stored one and writes nothing.
-/

namespace Abbey.Tool

open Abbey.Lib Abbey.Run

variable (C : Capability)

inductive LocalApprovalState where
  | pending
  | approved
  | denied
  | cancelled
  | expired
  | consumed

structure LocalApprovalStatus where
  callId : String
  previewDigest : Digest
  state : LocalApprovalState

/-- `status`. -/
def status (callId : String) (previewDigest : Digest) (state : ToolApprovalState) :
    LocalApprovalStatus where
  callId := callId
  previewDigest := previewDigest
  state := match state with
    | .pending => .pending
    | .approved => .approved
    | .denied => .denied
    | .cancelled => .cancelled
    | .expired => .expired
    | .consumed => .consumed

/-! ## Statements -/

def insertLocal (db : ToolDb) (row : LocalApproval) : Except StoreError ToolDb := do
  ensure ((db.previews.find row.callId).isSome && row.check C) .database
  let localApprovals ← required (db.localApprovals.insert? row) .database
  .ok { db with localApprovals }

/-- `UPDATE local_governed_approvals SET exact_json=?1 WHERE call_id=?2 AND
exact_json IS NULL`. -/
def updateLocal (db : ToolDb) (callId : String) (exact : ExactApproval) :
    Except StoreError ToolDb := do
  let localApprovals ← required (db.localApprovals.update?
    (fun row => row.callId = callId && row.exact.isNone)
    (fun row => { row with exact := some exact }) (fun _ => rfl) (LocalApproval.check C))
    .database
  .ok { db with localApprovals }

/-! ## Previews -/

/-- `AbbeyLocalApprovalAuthority::validate`. -/
def Owner.validate (owner : Owner) (preview : LocalApprovalPreview) :
    Except LifecycleError Unit := do
  let request := preview.request
  let binding := preview.binding
  ensure (!(preview.version ≠ 1 || preview.tenantId ≠ owner.tenantId ||
    preview.accountId ≠ owner.accountId || preview.nodeId ≠ owner.nodeId ||
    preview.userId ≠ owner.userId || request.principal ≠ owner.principal ||
    request.scope.tenantId ≠ owner.tenantId || request.scope.platform ≠ "local" ||
    request.requestDigest ≠ C.computedDigest request ||
    binding.requestDigest ≠ request.requestDigest ||
    binding.principalDigest ≠ C.commitPrincipal request.principal ||
    binding.scopeDigest ≠ C.commitScope request.scope ||
    request.parameterDigest ≠ C.commitParameters preview.parameters ||
    binding.packageDigest ≠ request.packageDigest ||
    binding.requiredApproval ≠ .a1Actor || preview.operation.isEmpty ||
    preview.resource.isEmpty || preview.expectedEffects.isEmpty)) .invalidState
  invalid (validateId preview.toolId "invalid preview identity")
  invalid (validateId preview.grantId "invalid preview identity")
  json (C.previewBytes preview) 65536

/-- `AbbeyLocalApprovalAuthority::load`. -/
def Owner.load (owner : Owner) (db : ToolDb) (callId : String) (digest : Digest) :
    Except LifecycleError LocalApprovalPreview := do
  let row ← required (db.localApprovals.find callId) .invalidState
  ensure (row.owner = owner) .invalidState
  owner.validate C row.preview
  ensure (!(row.preview.request.callId ≠ callId || C.previewDigest row.preview ≠ digest))
    .invalidState
  .ok row.preview

/-- The approval that a preview asks for. -/
def LocalApprovalPreview.newApproval (preview : LocalApprovalPreview) : NewToolApproval where
  callId := preview.request.callId
  toolId := preview.toolId
  callDigest := hex preview.binding.requestDigest
  createdAtMs := preview.createdAtMs
  expiresAtMs := preview.expiresAtMs

/-- The exact approval of a local decision. -/
def Owner.exactApproval (owner : Owner) (preview : LocalApprovalPreview)
    (current : ToolApprovalRecord) (callId decisionId : String) : ExactApproval where
  binding := preview.binding
  issuedAtMs := current.createdAtMs
  approval := {
    decisionId := decisionId
    callId := callId
    callDigest := preview.binding.requestDigest
    packageDigest := preview.binding.packageDigest
    grantId := preview.grantId
    approver := owner.principal
    coapprover := none
    level := .a1Actor
    expiresAtMs := current.expiresAtMs
    state := .approved }

/-! ## Calls -/

/-- `request_local_approval`. -/
def requestLocalApproval (db : ToolDb) (owner : Owner) (preview : LocalApprovalPreview) :
    Except LifecycleError (ToolDb × LocalApprovalStatus) := do
  owner.validate C preview
  let digest := C.previewDigest preview
  if (db.localApprovals.find preview.request.callId).isSome then do
    let _ ← owner.load C db preview.request.callId digest
    let record ← invalid (requireRecord db preview.request.callId)
    .ok (db, status record.callId digest record.state)
  else do
    room db.localApprovals.rows.length
    let (db', record) ← invalid (createOn db preview.newApproval)
    json (C.bindingBytes preview.binding) 2048
    let db' ← unavailable (insertPreview C db' ⟨record.callId, preview.binding⟩)
    json (C.previewBytes preview) 65536
    json (C.ownerBytes owner) 4096
    let db' ← unavailable (insertLocal C db' ⟨record.callId, preview, owner, none⟩)
    .ok (db', status record.callId digest record.state)

/-- The local row of a decision: an approval stores its exact form. -/
def storeExact (db : ToolDb) (callId : String) (exact : ExactApproval) (approved : Bool) :
    Except LifecycleError ToolDb :=
  if approved then do
    json (C.approvalBytes exact) 8192
    unavailable (updateLocal C db callId exact)
  else .ok db

/-- `decide_local_approval`. -/
def decideLocalApproval (db : ToolDb) (owner : Owner) (callId : String)
    (previewDigest : Digest) (decisionId : String) (approved : Bool) (nowMs : Nat) :
    Except LifecycleError (ToolDb × LocalApprovalStatus) := do
  invalid (validateId decisionId "invalid decision id")
  let now ← invalid (sqlU64 nowMs)
  let preview ← owner.load C db callId previewDigest
  let current ← invalid (requireRecord db callId)
  ensure (!(nowMs < current.createdAtMs || nowMs < current.updatedAtMs)) .invalidState
  match ← unavailable (expireIfNeeded db current now) with
  | some (db', expired) => .ok (db', status callId previewDigest expired.state)
  | none => do
    ensure (!(current.state ≠ .pending || resolutionExists db decisionId)) .invalidState
    let state : ToolApprovalState := if approved then .approved else .denied
    let exact := owner.exactApproval preview current callId decisionId
    let db' ← storeExact C db callId exact approved
    let db' ← unavailable (updateApprovals db'
      (ToolApprovalRecord.selected callId (fun s => s = .pending))
      (ToolApprovalRecord.decide state decisionId now)
      (ToolApprovalRecord.callId_decide state decisionId now))
    let db' ← unavailable (insertEvent db' ⟨callId, state, some decisionId, none, now⟩)
    .ok (db', status callId previewDigest state)

/-- `exact_local_approval`: a read that expires first. -/
def exactLocalApproval (db : ToolDb) (owner : Owner) (callId : String)
    (previewDigest : Digest) (nowMs : Nat) :
    Except LifecycleError (ToolDb × Option ExactApproval) := do
  let now ← invalid (sqlU64 nowMs)
  let preview ← owner.load C db callId previewDigest
  let current ← invalid (requireRecord db callId)
  ensure (!(nowMs < current.createdAtMs || nowMs < current.updatedAtMs)) .invalidState
  match ← unavailable (expireIfNeeded db current now) with
  | some (db', _) => .ok (db', none)
  | none =>
    if current.state ≠ .approved then .ok (db, none)
    else do
      let row ← required (db.localApprovals.find callId) .unavailable
      let exact ← required row.exact .invalidState
      ensure (!(exact.binding ≠ preview.binding || exact.approval.approver ≠ owner.principal ||
        some exact.approval.decisionId ≠ current.decisionId ||
        !C.exactMatches exact preview.binding nowMs)) .invalidState
      .ok (db, some exact)

/-! ## The governed ledger of one owner -/

/-- Whose execution it is. -/
inductive ExecutionOwner where
  | unknown
  | foreign
  | localPreview (preview : LocalApprovalPreview)
  deriving DecidableEq

/-- `execution_owner`. -/
def executionOwner (db : ToolDb) (owner : Owner) (executionId : Digest) :
    Except LifecycleError ExecutionOwner :=
  match db.intents.find executionId with
  | none => .ok .unknown
  | some intent =>
    match intent.approvalCallId.bind db.localApprovals.find, intent.approvalCallId with
    | some row, some call =>
      if row.owner ≠ owner then .ok .foreign
      else do
        let _ ← owner.load C db call (C.previewDigest row.preview)
        ensure (intent.binding = row.preview.binding) .invalidState
        .ok (.localPreview row.preview)
    | _, _ => .ok .foreign

/-- `AbbeyLocalApprovalAuthority::refuse_replay`. -/
def localRefuseReplay (db : ToolDb) (owner : Owner) (executionId : Digest) :
    Except LifecycleError (ToolDb × Bool) := do
  match ← executionOwner C db owner executionId with
  | .unknown => .ok (db, false)
  | .foreign => .error .invalidState
  | .localPreview _ => refuseReplay C db executionId

/-- `AbbeyLocalApprovalAuthority::append_stage`. -/
def localAppendStage (db : ToolDb) (owner : Owner) (record : StageAudit) :
    Except LifecycleError ToolDb := do
  let found ← executionOwner C db owner record.executionId
  ensure (found ≠ .foreign) .invalidState
  appendStage C db record

/-- A compensation is of an execution of the owner. -/
def ownOrigin (db : ToolDb) (owner : Owner) :
    Option CompensationOrigin → Except LifecycleError Bool
  | none => .ok true
  | some origin => do
    match ← executionOwner C db owner origin.originalExecutionId with
    | .localPreview _ => .ok true
    | .unknown | .foreign => .ok false

/-- `AbbeyLocalApprovalAuthority::prepare`. -/
def localPrepare (db : ToolDb) (owner : Owner) (request : PrepareRequest) :
    Except LifecycleError (ToolDb × PrepareOutcome) :=
  if request.binding.principalDigest ≠ C.commitPrincipal owner.principal ||
      request.binding.requiredApproval ≠ .a1Actor then
    .ok (db, .refused .approvalInsufficient)
  else
    match request.approval with
    | none => .ok (db, .refused .approvalMissing)
    | some exact => do
      let mine ← ownOrigin C db owner request.binding.compensationOrigin
      if !mine then .ok (db, .refused .approvalInsufficient)
      else
        match db.localApprovals.find request.callId with
        | none => .ok (db, .refused .approvalMissing)
        | some row => do
          let _ ← owner.load C db request.callId (C.previewDigest row.preview)
          if exact.approval.approver ≠ owner.principal then
            .ok (db, .refused .approvalInsufficient)
          else prepare C db request

/-- `AbbeyLocalApprovalAuthority::finish`. -/
def localFinish (db : ToolDb) (owner : Owner) (executionId : Digest)
    (binding : AuthorizationBinding) (terminal : TerminalOutcome) (epochMs : Nat) :
    Except LifecycleError ToolDb := do
  match ← executionOwner C db owner executionId with
  | .localPreview preview => do
    ensure (preview.binding = binding) .invalidState
    finish C db executionId binding terminal epochMs
  | .unknown | .foreign => .error .invalidState

end Abbey.Tool
