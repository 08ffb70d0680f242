import Abbey.Lib.System
import Abbey.Tool.LocalApproval

/-!
# The calls of the tool ledgers as one transition system

`ToolCall` is one call of the store with the readings of the clock that it
makes, and `ToolCall.commit` its transaction.  The history records what the
callers were told: the decisions and cancellations that were accepted, and
the intents that were created.

`Abbey.Tool.Writes` says what each call can write.
-/

namespace Abbey.Tool

open Abbey.Lib Abbey.Run

/-! ## Calls -/

inductive ToolCall where
  | createToolApproval (request : NewToolApproval)
  | createGovernedToolApproval (request : NewToolApproval) (binding : AuthorizationBinding)
  | requestLocalApproval (owner : Owner) (preview : LocalApprovalPreview)
  | decideToolApproval (callId callDigest decisionId : String)
      (decision : ToolApprovalDecision) (nowMs : Nat)
  | decideLocalApproval (owner : Owner) (callId : String) (previewDigest : Digest)
      (decisionId : String) (approved : Bool) (nowMs : Nat)
  | cancelToolApproval (callId cancellationId : String) (nowMs : Nat)
  | toolApproval (callId : String) (nowMs : Nat)
  | exactLocalApproval (owner : Owner) (callId : String) (previewDigest : Digest) (nowMs : Nat)
  | prepareToolExecution (callId callDigest executionId : String) (nowMs : Nat)
  | completeToolExecution (callId executionId : String) (outcome : ToolExecutionOutcome)
      (resultDigest : String) (nowMs : Nat)
  | appendStage (record : StageAudit)
  | refuseReplay (executionId : Digest)
  | prepare (request : PrepareRequest)
  | finish (executionId : Digest) (binding : AuthorizationBinding) (terminal : TerminalOutcome)
      (epochMs : Nat)
  | localAppendStage (owner : Owner) (record : StageAudit)
  | localRefuseReplay (owner : Owner) (executionId : Digest)
  | localPrepare (owner : Owner) (request : PrepareRequest)
  | localFinish (owner : Owner) (executionId : Digest) (binding : AuthorizationBinding)
      (terminal : TerminalOutcome) (epochMs : Nat)
  | recover (epochMs : Nat)
  | reopen (epochMs preparedMs : Nat)

/-- What a caller was told. -/
inductive Observation where
  | decided (callId callDigest decisionId : String) (state : ToolApprovalState)
  | cancelled (callId cancellationId : String)
  | intended (callId executionId : String) (callDigest : Option String) (nowMs : Nat)

/-- The observation of a decision that may have found its approval
expired. -/
def observeDecision (callId callDigest decisionId : String) (state : ToolApprovalState) :
    List Observation :=
  if state = .expired then [] else [.decided callId callDigest decisionId state]

def observeCancellation (callId cancellationId : String) (state : ToolApprovalState) :
    List Observation :=
  if state = .expired then [] else [.cancelled callId cancellationId]

def observePreparation (callId callDigest executionId : String) (nowMs : Nat) :
    ToolExecutionPreparation → List Observation
  | .prepared _ => [.intended callId executionId (some callDigest) nowMs]
  | .expired _ => []

def observePrepare (request : PrepareRequest) : PrepareOutcome → List Observation
  | .prepared _ _ => [.intended request.callId request.executionId.text
      (request.approval.map (fun _ => hex request.binding.requestDigest)) request.nowMs]
  | .refused _ | .uncertain => []

/-- The digest that a local decision is bound to, by its preview. -/
def localDigest (db : ToolDb) (callId : String) : String :=
  match db.localApprovals.find callId with
  | some row => hex row.preview.binding.requestDigest
  | none => ""

def observeLocal (db : ToolDb) (callId decisionId : String) :
    LocalApprovalState → List Observation
  | .approved => [.decided callId (localDigest db callId) decisionId .approved]
  | .denied => [.decided callId (localDigest db callId) decisionId .denied]
  | .pending | .cancelled | .expired | .consumed => []

/-- A failed call. -/
inductive Failure where
  | store (error : StoreError)
  | lifecycle (error : LifecycleError)

/-- The database and the observations of a call. -/
def reply {ε α : Type} (failure : ε → Failure) (x : Except ε (ToolDb × α))
    (observe : α → List Observation) : Except Failure (ToolDb × List Observation) :=
  mapErr failure (x.map (fun result => (result.1, observe result.2)))

/-- A call that answers nothing. -/
def replyUnit {ε : Type} (failure : ε → Failure) (x : Except ε ToolDb) :
    Except Failure (ToolDb × List Observation) :=
  mapErr failure (x.map (fun db => (db, [])))

/-- The second part of a reopen.  It is a transaction of its own: when it
fails, the first part stays committed. -/
def reopenPrepared (db : ToolDb) (nowMs : Nat) : ToolDb :=
  match recoverPreparedOn db nowMs with
  | .ok (db', _) => db'
  | .error _ => db

/-- The transaction of a call. -/
def ToolCall.commit (C : Capability) (db : ToolDb) :
    ToolCall → Except Failure (ToolDb × List Observation)
  | .createToolApproval request =>
    reply .store (Tool.createToolApproval db request) (fun _ => [])
  | .createGovernedToolApproval request binding =>
    reply .lifecycle (Tool.createGovernedToolApproval C db request binding) (fun _ => [])
  | .requestLocalApproval owner preview =>
    reply .lifecycle (Tool.requestLocalApproval C db owner preview) (fun _ => [])
  | .decideToolApproval callId callDigest decisionId decision nowMs =>
    reply .store (Tool.decideToolApproval db callId callDigest decisionId decision nowMs)
      (fun record => observeDecision callId callDigest decisionId record.state)
  | .decideLocalApproval owner callId previewDigest decisionId approved nowMs =>
    reply .lifecycle
      (Tool.decideLocalApproval C db owner callId previewDigest decisionId approved nowMs)
      (fun status => observeLocal db callId decisionId status.state)
  | .cancelToolApproval callId cancellationId nowMs =>
    reply .store (Tool.cancelToolApproval db callId cancellationId nowMs)
      (fun record => observeCancellation callId cancellationId record.state)
  | .toolApproval callId nowMs => reply .store (Tool.toolApproval db callId nowMs) (fun _ => [])
  | .exactLocalApproval owner callId previewDigest nowMs =>
    reply .lifecycle (Tool.exactLocalApproval C db owner callId previewDigest nowMs) (fun _ => [])
  | .prepareToolExecution callId callDigest executionId nowMs =>
    reply .store (Tool.prepareToolExecution db callId callDigest executionId nowMs)
      (observePreparation callId callDigest executionId nowMs)
  | .completeToolExecution callId executionId outcome resultDigest nowMs =>
    reply .store
      (Tool.completeToolExecution db callId executionId outcome resultDigest nowMs) (fun _ => [])
  | .appendStage record => replyUnit .lifecycle (Tool.appendStage C db record)
  | .refuseReplay executionId =>
    reply .lifecycle (Tool.refuseReplay C db executionId) (fun _ => [])
  | .prepare request => reply .lifecycle (Tool.prepare C db request) (observePrepare request)
  | .finish executionId binding terminal epochMs =>
    replyUnit .lifecycle (Tool.finish C db executionId binding terminal epochMs)
  | .localAppendStage owner record =>
    replyUnit .lifecycle (Tool.localAppendStage C db owner record)
  | .localRefuseReplay owner executionId =>
    reply .lifecycle (Tool.localRefuseReplay C db owner executionId) (fun _ => [])
  | .localPrepare owner request =>
    reply .lifecycle (Tool.localPrepare C db owner request) (observePrepare request)
  | .localFinish owner executionId binding terminal epochMs =>
    replyUnit .lifecycle (Tool.localFinish C db owner executionId binding terminal epochMs)
  | .recover epochMs => replyUnit .store (recoverOn C db epochMs)
  | .reopen epochMs preparedMs =>
    replyUnit .store (do
      validateOn C db
      let recovered ← recoverOn C db epochMs
      .ok (reopenPrepared recovered preparedMs))

/-- The store and what its callers were told, newest first. -/
structure ToolSystem where
  db : ToolDb
  history : List Observation

def ToolSystem.initial : ToolSystem := ⟨.empty, []⟩

/-- One call: a call that fails writes nothing. -/
def ToolSystem.after (C : Capability) (s : ToolSystem) (call : ToolCall) : ToolSystem :=
  match call.commit C s.db with
  | .ok (db, observed) => ⟨db, observed ++ s.history⟩
  | .error _ => s

/-- The transition system: every call may come next. -/
def toolStep (C : Capability) (s : ToolSystem) (call : ToolCall) : Option ToolSystem :=
  some (s.after C call)

end Abbey.Tool
