import Abbey.Authority.Audit
import Abbey.Daemon.Handler
import Abbey.Lib.Durable
import Abbey.Tool.Calls

/-!
# The tools of protocol version 3

`src/daemon/runtime_v3.rs`.  A read-only tool runs once its call identifier
is reserved and its authorization is in the audit.  The one mutating tool
asks for an approval first, and runs when the same call comes again after
the approval.

A command is a computation with durable steps, so that a crash may fall
between any two of them.  What the host and the outside decide is in `Host`
and `Env`: the catalogue and its schemas, the digests, the readings of the
clock, the writes that fail, what the tool answers.
-/

namespace Abbey.Authority

open Abbey.Lib Abbey.Run Abbey.Tool Abbey.Daemon

/-! ## Calls and results -/

structure V3ToolCall where
  toolId : String
  callId : String
  input : Value

def maxIdBytes : Nat := 128

def maxToolJsonBytes : Nat := 32 * 1024

def maxToolJsonDepth : Nat := 16

mutual

def jsonDepth : Value → Nat
  | .array items => 1 + itemsDepth items
  | .object fields => 1 + fieldsDepth fields
  | _ => 0

def itemsDepth : List Value → Nat
  | [] => 0
  | value :: rest => max (jsonDepth value) (itemsDepth rest)

def fieldsDepth : List (String × Value) → Nat
  | [] => 0
  | (_, value) :: rest => max (jsonDepth value) (fieldsDepth rest)

end

def validateV3Id (value : String) : Except ValidationError Unit :=
  ensure (isIdentifier value maxIdBytes) ⟨"invalid v3 identifier"⟩

def validateJsonValue (value : Value) (message : String) : Except ValidationError Unit :=
  ensure (bytes value.print ≤ maxToolJsonBytes && jsonDepth value ≤ maxToolJsonDepth) ⟨message⟩

def validateJsonObject (value : Value) (message : String) : Except ValidationError Unit := do
  ensure value.asObject.isSome ⟨message⟩
  validateJsonValue value message

def V3ToolCall.validate (call : V3ToolCall) : Except ValidationError Unit := do
  validateV3Id call.toolId
  validateV3Id call.callId
  validateJsonObject call.input "invalid or oversized v3 tool input"

inductive V3OperationState where
  | succeeded
  | failed

structure V3ToolResult where
  toolId : String
  callId : String
  state : V3OperationState
  output : Value

def V3ToolResult.validate (result : V3ToolResult) : Except ValidationError Unit := do
  validateV3Id result.toolId
  validateV3Id result.callId
  validateJsonValue result.output "invalid or oversized v3 tool output"

/-- `V3ToolApprovalStatus`: the approval states are those of the store. -/
structure V3ToolApprovalStatus where
  toolId : String
  callId : String
  callDigest : String
  state : ToolApprovalState
  expiresAtMs : Nat

def approvalStatus (record : ToolApprovalRecord) : V3ToolApprovalStatus where
  toolId := record.toolId
  callId := record.callId
  callDigest := record.callDigest
  state := record.state
  expiresAtMs := record.expiresAtMs

inductive V3Event where
  | toolApprovalStatus (status : V3ToolApprovalStatus)
  | toolResult (result : V3ToolResult)

/-! ## Failures -/

def capabilityDeniedFailure : HandlerFailure :=
  ⟨"capability_denied", "protocol-v3 capability was not granted"⟩

def conflictFailure : HandlerFailure := ⟨"conflict", "tool call id was already used"⟩

def approvalConflictFailure : HandlerFailure :=
  ⟨"conflict", "tool approval decision conflicts with durable state"⟩

def approvalNotFoundFailure : HandlerFailure := ⟨"not_found", "tool approval was not found"⟩

def toolNotFoundFailure : HandlerFailure := ⟨"not_found", "tool id was not found"⟩

def deadlineFailure : HandlerFailure := ⟨"deadline_exceeded", "safe tool deadline was exceeded"⟩

def responseTooLargeFailure : HandlerFailure :=
  ⟨"response_too_large", "safe tool result exceeded its bound"⟩

def runtimeFailure : HandlerFailure :=
  ⟨"runtime_unavailable", "runtime operation is unavailable"⟩

def mapApprovalStoreError : StoreError → HandlerFailure
  | .toolApprovalNotFound _ => approvalNotFoundFailure
  | .toolApprovalConflict | .toolApprovalDigestMismatch => approvalConflictFailure
  | .invalidInput _ => invalidCommandFailure
  | _ => runtimeFailure

def mapExecutionStoreError : StoreError → HandlerFailure
  | .toolApprovalNotFound _ | .toolExecutionNotFound _ => approvalNotFoundFailure
  | .toolApprovalConflict | .toolApprovalDigestMismatch | .toolExecutionConflict =>
    approvalConflictFailure
  | .invalidInput _ => invalidCommandFailure
  | _ => runtimeFailure

/-! ## What lies outside -/

inductive ToolRoute where
  | directReadOnly
  | approvalRequired
  deriving DecidableEq

inductive PolicyDecision where
  | allow
  | deny
  | requireConfirmation
  deriving DecidableEq

/-- A tool of the catalogue, with its schema and the policy for its
effect. -/
structure BoundTool where
  toolId : String
  route : ToolRoute
  accepts : Value → Bool
  policy : V3ToolCall → PolicyDecision

structure Host where
  tools : List BoundTool
  /-- `PolicyDecision::as_str`. -/
  asStr : PolicyDecision → String
  /-- The digest of a text, and the digest that approvals are bound to. -/
  digest : String → String
  approvalDigest : V3ToolCall → String

/-- What a tool answered: its status, and its payload where it is JSON. -/
structure ToolOutput where
  ok : Bool
  payload : Option Value

/-- What happens to one command from outside. -/
structure Env where
  /-- The readings of the clock. -/
  now : Option Nat
  later : Option Nat
  executionId : String
  /-- The store operations that fail. -/
  readFails : Bool
  writeFails : Bool
  prepareFails : Bool
  authorizationFails : Bool
  completeFails : Bool
  outcomeFails : Bool
  /-- What the tool or the memory does. -/
  output : Option ToolOutput
  late : Bool
  invalidated : Bool

/-! ## The state -/

/-- An effect in the world. -/
inductive Effect where
  | executed (callId : String)
  | invalidated (callId recordId : String)
  deriving DecidableEq

def Effect.callId : Effect → String
  | .executed callId => callId
  | .invalidated callId _ => callId

/-- The audit and the effects in the order in which they came to be. -/
inductive Entry where
  | audit (event : AuditEvent)
  | effect (effect : Effect)

def Entry.audited : Entry → Option AuditEvent
  | .audit event => some event
  | .effect _ => none

def Entry.effected : Entry → Option Effect
  | .audit _ => none
  | .effect e => some e

/-- The store, what has happened, and the calls that the process holds for
used. -/
structure V3RuntimeAuthority where
  db : ToolDb
  log : List Entry
  used : List String

/-- The calls that `from_provider_routes` finds in the audit. -/
def recovered (log : List Entry) : List String :=
  (log.filterMap Entry.audited).filterMap AuditEvent.usedCall

def effects (log : List Entry) : List Effect := log.filterMap Entry.effected

/-! ## Steps -/

abbrev Command (α : Type) : Type := Durable V3RuntimeAuthority HandlerFailure α

/-- A call of the store, which may fail from outside. -/
def storeCall {α : Type} (fails : Bool) (f : ToolDb → Except StoreError (ToolDb × α)) :
    Command (Except StoreError α) :=
  .commit fun s =>
    match (if fails then .error .database else f s.db) with
    | .ok (db, a) => .ok ({ s with db }, .ok a)
    | .error error => .ok (s, .error error)

/-- The same with an error that ends the command. -/
def storeCallOr {α : Type} (failure : StoreError → HandlerFailure) (fails : Bool)
    (f : ToolDb → Except StoreError (ToolDb × α)) : Command α :=
  .commit fun s =>
    match (if fails then .error .database else f s.db) with
    | .ok (db, a) => .ok ({ s with db }, a)
    | .error error => .error (failure error)

/-- Reserve a call identifier in the process. -/
def reserveToolCall (callId : String) : Command Unit :=
  .commit fun s =>
    if callId ∈ s.used then .error conflictFailure
    else .ok ({ s with used := s.used ++ [callId] }, ())

def forgetToolCall (callId : String) : Command Unit :=
  .commit fun s => .ok ({ s with used := s.used.filter (fun id => id ≠ callId) }, ())

/-- `record_audit`: whether the event is in the audit. -/
def recordAudit (fails : Bool) (action outcome : String) (metadata : Value) : Command Bool :=
  .commit fun s =>
    match newAuditEvent action outcome metadata with
    | .ok event =>
      if fails then .ok (s, false) else .ok ({ s with log := s.log ++ [.audit event] }, true)
    | .error _ => .ok (s, false)

/-- The metadata of a tool audit, in the order of its keys. -/
def auditFields (effect policy callId toolId inputDigest : String) (output : Option (String × Nat)) :
    Value :=
  .object <|
    [("call_id", .string callId), ("effect", .string effect),
      ("input_digest", .string inputDigest)] ++
    (output.elim [] fun (digest, size) =>
      [("output_bytes", .number (.posInt size)), ("output_digest", .string digest)]) ++
    [("policy", .string policy), ("tool_id", .string toolId)]

/-- `record_tool_audit`. -/
def recordToolAudit (fails : Bool) (action outcome callId toolId inputDigest : String)
    (output : Option (String × Nat)) : Command Bool :=
  recordAudit fails action outcome
    (auditFields "read_only" "effect-scoped" callId toolId inputDigest output)

/-- `record_mutating_tool_audit`. -/
def recordMutatingToolAudit (fails : Bool) (action outcome callId toolId inputDigest : String)
    (output : Option (String × Nat)) : Command Bool :=
  recordAudit fails action outcome
    (auditFields "mutating" "exact-call-approval" callId toolId inputDigest output)

def succeedOr (failure : HandlerFailure) (ok : Bool) : Command Unit := .lift (ensure ok failure)

/-- An effect in the world. -/
def perform (effect : Effect) : Command Unit :=
  .commit fun s => .ok ({ s with log := s.log ++ [.effect effect] }, ())

/-! ## The mutating tool -/

def pendingStatus (call : V3ToolCall) (callDigest : String) (expiresAtMs : Nat) :
    V3ToolApprovalStatus where
  toolId := call.toolId
  callId := call.callId
  callDigest := callDigest
  state := .pending
  expiresAtMs := expiresAtMs

/-- The first time: the call is reserved and its approval is created. -/
def requestApproval (env : Env) (call : V3ToolCall) (callDigest : String) (now : Nat) :
    Command V3Event := do
  reserveToolCall call.callId
  succeedOr runtimeFailure (now + maxToolApprovalTtlMs < 2 ^ 64)
  let expiresAtMs := now + maxToolApprovalTtlMs
  match ← storeCall env.writeFails (fun db =>
      createToolApproval db ⟨call.callId, call.toolId, callDigest, now, expiresAtMs⟩) with
  | .error .toolApprovalConflict => .lift (.error conflictFailure)
  | .error _ => do
    forgetToolCall call.callId
    .lift (.error runtimeFailure)
  | .ok _ => pure (.toolApprovalStatus (pendingStatus call callDigest expiresAtMs))

def obsoleteOutput (recordId : String) : Value :=
  .object [("obsolete", .bool true), ("record_id", .string recordId)]

def unavailableOutput : Value := .object [("code", .string "memory_unavailable")]

/-- The result of an invalidation. -/
def effectResult (call : V3ToolCall) (recordId : String) (ok : Bool) : V3ToolResult where
  toolId := call.toolId
  callId := call.callId
  state := if ok then .succeeded else .failed
  output := if ok then obsoleteOutput recordId else unavailableOutput

def V3OperationState.asStr : V3OperationState → String
  | .succeeded => "succeeded"
  | .failed => "failed"

/-- The text of a result, as `serde_json::to_vec` writes the structure. -/
def V3ToolResult.text (result : V3ToolResult) : String :=
  String.ofList <| Value.print <| .object
    [("tool_id", .string result.toolId), ("call_id", .string result.callId),
      ("state", .string result.state.asStr), ("output", result.output)]

/-- The call comes again after its approval. -/
def runApproved (host : Host) (env : Env) (call : V3ToolCall) (callDigest inputDigest : String)
    (approval : ToolApprovalRecord) (now : Nat) : Command V3Event := do
  succeedOr approvalConflictFailure
    (approval.toolId = call.toolId && approval.callDigest = callDigest)
  succeedOr approvalConflictFailure (approval.state = .approved)
  match ← storeCallOr mapExecutionStoreError env.prepareFails (fun db =>
      prepareToolExecution db call.callId callDigest env.executionId now) with
  | .expired _ => .lift (.error approvalConflictFailure)
  | .prepared _ => do
    let audited ← recordMutatingToolAudit env.authorizationFails toolAuthorization "approved"
      call.callId call.toolId inputDigest none
    succeedOr runtimeFailure audited
    let recordId ← .lift (required (call.input.index "record_id").asStr invalidCommandFailure)
    perform (.invalidated call.callId recordId)
    let result := effectResult call recordId env.invalidated
    .lift (mapErr (fun _ => responseTooLargeFailure) result.validate)
    let resultDigest := host.digest result.text
    let later ← .lift (required env.later runtimeFailure)
    let _ ← storeCallOr mapExecutionStoreError env.completeFails (fun db =>
      completeToolExecution db call.callId env.executionId
        (if env.invalidated then .succeeded else .failed) resultDigest later)
    let audited ← recordMutatingToolAudit env.outcomeFails "v3_tool_execution" result.state.asStr
      call.callId call.toolId inputDigest (some (resultDigest, bytes result.text.toList))
    succeedOr runtimeFailure audited
    pure (.toolResult result)

def invokeApprovedMemoryEffect (host : Host) (env : Env) (call : V3ToolCall)
    (inputDigest : String) : Command V3Event := do
  let callDigest := host.approvalDigest call
  let now ← .lift (required env.now runtimeFailure)
  match ← storeCallOr mapApprovalStoreError env.readFails (fun db =>
      toolApproval db call.callId now) with
  | none => requestApproval env call callDigest now
  | some approval => runApproved host env call callDigest inputDigest approval now

/-! ## A read-only tool -/

/-- The audit of an execution, and the answer that follows it. -/
def endWith (env : Env) (outcome : String) (call : V3ToolCall) (inputDigest : String)
    (output : Option (String × Nat)) (answer : Except HandlerFailure V3Event) : Command V3Event := do
  let audited ← recordToolAudit env.outcomeFails "v3_tool_execution" outcome call.callId call.toolId
    inputDigest output
  succeedOr runtimeFailure audited
  .lift answer

/-- What follows the call of the executor. -/
def finishReadOnly (host : Host) (env : Env) (call : V3ToolCall) (inputDigest : String) :
    Command V3Event :=
  match env.output with
  | none => endWith env "failed" call inputDigest none (.error runtimeFailure)
  | some output =>
    if env.late then endWith env "deadline_exceeded" call inputDigest none (.error deadlineFailure)
    else
      match output.payload with
      | none => endWith env "failed" call inputDigest none (.error runtimeFailure)
      | some payload =>
        let state := if output.ok then V3OperationState.succeeded else .failed
        let result : V3ToolResult := ⟨call.toolId, call.callId, state, payload⟩
        match result.validate with
        | .error _ =>
          endWith env "response_too_large" call inputDigest none (.error responseTooLargeFailure)
        | .ok () =>
          let text := String.ofList payload.print
          endWith env state.asStr call inputDigest (some (host.digest text, bytes text.toList))
            (.ok (.toolResult result))

def invokeReadOnly (host : Host) (env : Env) (call : V3ToolCall) (inputDigest : String)
    (decision : PolicyDecision) : Command V3Event := do
  reserveToolCall call.callId
  succeedOr capabilityDeniedFailure (decision = .allow)
  let audited ← recordToolAudit env.authorizationFails toolAuthorization (host.asStr decision)
    call.callId call.toolId inputDigest none
  if audited then do
    perform (.executed call.callId)
    finishReadOnly host env call inputDigest
  else do
    forgetToolCall call.callId
    .lift (.error runtimeFailure)

def invokeTool (host : Host) (env : Env) (call : V3ToolCall) : Command V3Event := do
  .lift (mapErr (fun _ => invalidCommandFailure) call.validate)
  let tool ← .lift (required (host.tools.find? (fun tool => tool.toolId = call.toolId))
    toolNotFoundFailure)
  succeedOr invalidCommandFailure (tool.accepts call.input)
  let inputDigest := host.digest (String.ofList call.input.print)
  let decision := tool.policy call
  if tool.route = .approvalRequired then do
    succeedOr capabilityDeniedFailure (decision = .requireConfirmation)
    invokeApprovedMemoryEffect host env call inputDigest
  else invokeReadOnly host env call inputDigest decision

/-! ## Decisions -/

structure V3ToolDecision where
  callId : String
  callDigest : String
  decisionId : String

def V3ToolDecision.validate (decision : V3ToolDecision) : Except ValidationError Unit := do
  validateV3Id decision.callId
  ensure (isDigest decision.callDigest) ⟨"invalid v3 digest"⟩
  validateV3Id decision.decisionId

structure V3Action where
  resourceId : String
  operationId : String

def V3Action.validate (action : V3Action) : Except ValidationError Unit := do
  validateV3Id action.resourceId
  validateV3Id action.operationId

def decide (env : Env) (decision : V3ToolDecision) (outcome : ToolApprovalDecision) :
    Command V3Event := do
  .lift (mapErr (fun _ => invalidCommandFailure) decision.validate)
  let now ← .lift (required env.now runtimeFailure)
  let record ← storeCallOr mapApprovalStoreError env.writeFails (fun db =>
    decideToolApproval db decision.callId decision.callDigest decision.decisionId outcome now)
  pure (.toolApprovalStatus (approvalStatus record))

def cancel (env : Env) (action : V3Action) : Command V3Event := do
  .lift (mapErr (fun _ => invalidCommandFailure) action.validate)
  let now ← .lift (required env.now runtimeFailure)
  let record ← storeCallOr mapApprovalStoreError env.writeFails (fun db =>
    cancelToolApproval db action.resourceId action.operationId now)
  pure (.toolApprovalStatus (approvalStatus record))

/-! ## Runs -/

inductive V3Command where
  | invokeTool (call : V3ToolCall)
  | approveTool (decision : V3ToolDecision)
  | denyTool (decision : V3ToolDecision)
  | cancelTool (action : V3Action)

def V3Command.run (host : Host) (env : Env) : V3Command → Command V3Event
  | .invokeTool call => Authority.invokeTool host env call
  | .approveTool decision => decide env decision .approve
  | .denyTool decision => decide env decision .deny
  | .cancelTool action => cancel env action

/-- A new authority over the store, which may have been reopened. -/
def restart (C : Capability) (reopened : Option (Nat × Nat)) (s : V3RuntimeAuthority) : Option V3RuntimeAuthority :=
  let db : Option ToolDb := reopened.elim (some s.db) fun (epochMs, preparedMs) =>
    ((ToolCall.reopen epochMs preparedMs).commit C s.db).toOption.map Prod.fst
  db.map fun db => { s with db, used := recovered s.log }

inductive Event where
  | command (command : V3Command) (env : Env)
  /-- The process dies after some steps of a command, and is started again. -/
  | crash (command : V3Command) (env : Env) (steps : Nat) (reopened : Option (Nat × Nat))
  | restart (reopened : Option (Nat × Nat))

def step (host : Host) (C : Capability) (s : V3RuntimeAuthority) : Event → Option V3RuntimeAuthority
  | .command command env => some ((command.run host env).final s)
  | .crash command env steps reopened =>
    restart C reopened (cut steps (command.run host env) s)
  | .restart reopened => restart C reopened s

def V3RuntimeAuthority.initial : V3RuntimeAuthority := ⟨.empty, [], []⟩

end Abbey.Authority
