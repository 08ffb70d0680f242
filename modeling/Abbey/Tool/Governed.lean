import Abbey.Tool.Execution

/-!
# The governed ledger

`src/runtime/store/governed.rs`: the durable lifecycle of a governed tool
call on the tables of the legacy ledger.  `prepare` reserves one intent and
consumes the approval of its call, `finish` writes its one terminal
outcome, `appendStage` and `refuseReplay` write the audit, and `recoverOn`
ends every intent that a crash left prepared.

`validateOn` re-derives the cross-table facts.  It runs at every open and at
the start of `prepare`, `finish`, `lookup` and `refuseReplay`, so a store
that it refuses is of no use any more.

`C : Capability` stands for the crate, the hash and the JSON encoder.
-/

namespace Abbey.Tool

open Abbey.Lib Abbey.Run

/-- `CAPACITY`. -/
def capacity : Nat := 100000

/-- `json`: the text of a value within a limit. -/
def json (bytes limit : Nat) : Except LifecycleError Unit := ensure (bytes ≤ limit) .capacity

/-- `room`: a table below its capacity. -/
def room (count : Nat) : Except LifecycleError Unit := ensure (count < capacity) .capacity

/-- `map_err(unavailable)`. -/
def unavailable {ε α : Type} (x : Except ε α) : Except LifecycleError α := orElse x .unavailable

/-- `map_err(invalid)`. -/
def invalid {ε α : Type} (x : Except ε α) : Except LifecycleError α := orElse x .invalidState

@[simp] theorem unavailable_eq_ok {ε α : Type} {x : Except ε α} {a : α} :
    unavailable x = .ok a ↔ x = .ok a := orElse_eq_ok

@[simp] theorem invalid_eq_ok {ε α : Type} {x : Except ε α} {a : α} :
    invalid x = .ok a ↔ x = .ok a := orElse_eq_ok

variable (C : Capability)

/-! ## Statements -/

/-- `INSERT INTO governed_tool_intents` with its unique columns, its
references and its checks. -/
def insertIntent (db : ToolDb) (intent : GovernedIntent) : Except StoreError ToolDb := do
  ensure (!db.hasIntent intent.callId &&
    !db.intents.rows.any (fun row => row.originalExecutionId.isSome &&
      row.originalExecutionId = intent.originalExecutionId)) .database
  ensure (intent.approvalCallId.all (fun call => (db.approvals.find call).isSome) &&
    intent.legacyExecutionCallId.all (fun call => (db.executions.find call).isSome) &&
    intent.originalExecutionId.all (fun id => (db.intents.find id).isSome) &&
    intent.check C) .database
  let intents ← required (db.intents.insert? intent) .database
  .ok { db with intents }

/-- `UPDATE governed_tool_intents` under its trigger: only a prepared row
changes, and only to a terminal state. -/
def updateIntents (db : ToolDb) (select : GovernedIntent → Bool)
    (set : GovernedIntent → GovernedIntent)
    (hset : ∀ intent, (set intent).executionId = intent.executionId) :
    Except StoreError ToolDb := do
  ensure ((db.intents.rows.filter select).all
    (fun intent => intent.state = .prepared && (set intent).state ≠ .prepared)) .database
  let intents ← required (db.intents.update? select set hset (GovernedIntent.check C)) .database
  .ok { db with intents }

def insertOutcomeEvent (db : ToolDb) (event : GovernedOutcomeEvent) :
    Except StoreError ToolDb := do
  ensure ((db.intents.find event.executionId).isSome && event.check C) .database
  .ok { db with outcomeEvents := db.outcomeEvents ++ [event] }

def insertStageEvent (db : ToolDb) (event : GovernedStageEvent) : Except StoreError ToolDb := do
  ensure (event.intentId.all (fun id => (db.intents.find id).isSome) && event.check C) .database
  .ok { db with stageEvents := db.stageEvents ++ [event] }

def insertRefusal (db : ToolDb) (refusal : GovernedRefusal) : Except StoreError ToolDb := do
  ensure (refusal.check C) .database
  .ok { db with refusals := db.refusals ++ [refusal] }

def insertPreview (db : ToolDb) (preview : GovernedPreview) : Except StoreError ToolDb := do
  ensure ((db.approvals.find preview.callId).isSome && preview.check C) .database
  let previews ← required (db.previews.insert? preview) .database
  .ok { db with previews }

/-! ## Audit -/

/-- The binding of the intent under an execution is the one of the record.
After admission there is one. -/
def boundRecord (db : ToolDb) (record : StageAudit) : Bool :=
  match db.intents.find record.executionId with
  | some intent => record.bindingDigest = C.bindingDigest intent.binding
  | none => record.stage < 12

/-- `append`. -/
def append (db : ToolDb) (record : StageAudit) (admitted : Bool) :
    Except LifecycleError ToolDb := do
  ensure (!(record.version ≠ 1 || 16 < record.stage ||
    (record.stage = 11 && !admitted && record.decision ≠ .deny))) .invalidState
  ensure (boundRecord C db record) .invalidState
  if record.stage = 11 && !admitted then do
    room db.refusals.length
    json (C.auditBytes record) 1024
    unavailable (insertRefusal C db ⟨record.executionId, 11, record⟩)
  else do
    room db.stageEvents.length
    json (C.auditBytes record) 1024
    unavailable (insertStageEvent C db
      ⟨record.executionId, if admitted then some record.executionId else none, record.stage,
        record⟩)

/-- The admission audit of an intent. -/
def admissionAudit (executionId : Digest) (binding : AuthorizationBinding) : StageAudit where
  version := 1
  executionId := executionId
  stage := 11
  bindingDigest := C.bindingDigest binding
  decision := .allow
  reason := .authorization .authorized

/-- The audit of a refused replay. -/
def replayAudit (executionId : Digest) (binding : AuthorizationBinding) : StageAudit where
  version := 1
  executionId := executionId
  stage := 11
  bindingDigest := C.bindingDigest binding
  decision := .deny
  reason := .authorization .approvalReplayed

/-- `append_stage`. -/
def appendStage (db : ToolDb) (record : StageAudit) : Except LifecycleError ToolDb :=
  append C db record false

/-! ## Validation -/

/-- `base_state`. -/
def baseState : OutcomeState → ToolExecutionState
  | .prepared => .prepared
  | .succeeded => .succeeded
  | .uncertain | .notDispatched => .interrupted
  | .failed | .unverifiable | .compensationFailed => .failed

/-- `legacy_result_digest`: an interrupted record carries no result. -/
def legacyResultDigest (value : TerminalOutcome) : Option String :=
  match value.state with
  | .uncertain | .notDispatched => none
  | _ => value.resultDigest.map hex

/-- `valid_origin`: a compensation names a failed intent of its scope. -/
def validOrigin (db : ToolDb) (binding : AuthorizationBinding) : Bool :=
  match binding.compensationOrigin with
  | none => true
  | some origin =>
    match db.intents.find origin.originalExecutionId with
    | none => false
    | some original =>
      original.outcome.state = .failed && original.outcome.version = 1 &&
        origin.originalBindingDigest = C.bindingDigest original.binding &&
        binding.scopeDigest = original.binding.scopeDigest

/-- `PRAGMA foreign_key_check` on the tool tables. -/
def foreignKeyCheck (db : ToolDb) : Bool :=
  db.approvalEvents.all (fun event => (db.approvals.find event.callId).isSome) &&
  db.executions.rows.all (fun record => (db.approvals.find record.callId).isSome) &&
  db.executionEvents.all (fun event => (db.executions.find event.callId).isSome) &&
  db.intents.rows.all (fun intent =>
    intent.approvalCallId.all (fun call => (db.approvals.find call).isSome) &&
    intent.legacyExecutionCallId.all (fun call => (db.executions.find call).isSome) &&
    intent.originalExecutionId.all (fun id => (db.intents.find id).isSome)) &&
  db.stageEvents.all (fun event =>
    event.intentId.all (fun id => (db.intents.find id).isSome)) &&
  db.outcomeEvents.all (fun event => (db.intents.find event.executionId).isSome) &&
  db.previews.rows.all (fun preview => (db.approvals.find preview.callId).isSome) &&
  db.localApprovals.rows.all (fun row => (db.previews.find row.callId).isSome)

/-- `PRAGMA quick_check`: every row keeps the checks of its table. -/
def quickCheck (db : ToolDb) : Bool :=
  db.approvals.rows.all ToolApprovalRecord.check &&
  db.executions.rows.all ToolExecutionRecord.check &&
  db.executionEvents.all ToolExecutionEvent.check &&
  db.intents.rows.all (GovernedIntent.check C) &&
  db.stageEvents.all (GovernedStageEvent.check C) &&
  db.outcomeEvents.all (GovernedOutcomeEvent.check C) &&
  db.refusals.all (GovernedRefusal.check C) &&
  db.previews.rows.all (GovernedPreview.check C) &&
  db.localApprovals.rows.all (LocalApproval.check C)

/-- One row of the join of previews and approvals. -/
def validatePreview (db : ToolDb) (preview : GovernedPreview) : Except StoreError Unit :=
  match db.approvals.find preview.callId with
  | none => .ok ()
  | some approval =>
    ensure (!(hex preview.binding.requestDigest ≠ approval.callDigest ||
      preview.binding.requiredApproval = .a0None)) (.corruptData "invalid governed preview")

/-- One row of the two audit tables. -/
def validateAudit (executionId : Digest) (stage : Nat) (record : StageAudit) :
    Except StoreError Unit :=
  ensure (!(record.version ≠ 1 || record.stage ≠ stage || record.executionId ≠ executionId ||
    16 < stage)) (.corruptData "invalid governed audit")

/-- One row of the post-admission audit. -/
def validatePostAdmission (db : ToolDb) (event : GovernedStageEvent) :
    Except StoreError Unit := do
  let intent ← required (db.intents.find event.executionId)
    (.corruptData "orphan post-admission audit")
  ensure (event.record.bindingDigest = C.bindingDigest intent.binding)
    (.corruptData "unbound post-admission audit")

/-- The outcomes of one intent in order. -/
def outcomesOf (db : ToolDb) (executionId : Digest) : List TerminalOutcome :=
  (db.outcomeEvents.filter (fun event => event.executionId = executionId)).map
    GovernedOutcomeEvent.outcome

/-- The admission audits of one intent. -/
def admissionsOf (db : ToolDb) (executionId : Digest) : List StageAudit :=
  (db.stageEvents.filter
    (fun event => event.intentId = some executionId && event.stage = 11)).map
    GovernedStageEvent.record

/-- The request that an intent was prepared with. -/
def GovernedIntent.request (intent : GovernedIntent) : PrepareRequest where
  callId := intent.callId
  toolId := intent.toolId
  executionId := intent.executionId
  binding := intent.binding
  approval := intent.approval
  nowMs := intent.startedAtMs

/-- The recorded state and outcome of an intent fit. -/
def validRecord (intent : GovernedIntent) : Bool :=
  !(!C.isValid intent.request || baseState intent.outcome.state ≠ intent.state ||
    (intent.outcome.state ≠ .prepared && !C.isValidTerminal intent.outcome) ||
    intent.outcome.version ≠ 1 ||
    (intent.outcome.state = .prepared &&
      (intent.outcome.resultDigest.isSome ||
        intent.outcome.reason ≠ .authorization .authorized)))

/-- The approval and the preview that an intent consumed. -/
def validateApproval (db : ToolDb) (intent : GovernedIntent) :
    Option ExactApproval → Except StoreError Unit
  | none => .ok ()
  | some exact => do
    let preview ← required (db.previews.find intent.callId) .database
    ensure (preview.binding = intent.binding) (.corruptData "governed preview mismatch")
    let record ← requireRecord db intent.callId
    ensure (!(record.toolId ≠ intent.toolId ||
      record.callDigest ≠ hex intent.binding.requestDigest ||
      record.createdAtMs ≠ exact.issuedAtMs ||
      record.expiresAtMs ≠ exact.approval.expiresAtMs ||
      record.decisionId ≠ some exact.approval.decisionId))
      (.corruptData "governed approval identity mismatch")

/-- The legacy rows that an intent is linked to. -/
def validateLegacy (db : ToolDb) (intent : GovernedIntent) :
    Option String → Except StoreError Unit
  | none => .ok ()
  | some call => do
    let approval ← required (db.approvals.find call) .database
    let execution ← required (db.executions.find call) .database
    ensure (!(approval.state ≠ .consumed || execution.state ≠ intent.state ||
      execution.executionId ≠ intent.executionId.text ||
      execution.resultDigest ≠ legacyResultDigest intent.outcome))
      (.corruptData "inconsistent governed legacy state")

/-- One row of the loop over the intents. -/
def validateIntent (db : ToolDb) (intent : GovernedIntent) : Except StoreError Unit := do
  let outcomes := outcomesOf db intent.executionId
  let latest ← required outcomes.getLast? .database
  ensure (latest = intent.outcome) (.corruptData "inconsistent governed outcome history")
  let expected := intent.binding.compensationOrigin
  ensure (!(intent.originalExecutionId ≠ expected.map CompensationOrigin.originalExecutionId ||
    intent.originalBindingDigest ≠ expected.map CompensationOrigin.originalBindingDigest ||
    !validOrigin C db intent.binding)) (.corruptData "invalid compensation origin")
  ensure (outcomes.length = if intent.outcome.state = .prepared then 1 else 2)
    (.corruptData "invalid governed transition count")
  ensure (validRecord C intent) (.corruptData "invalid governed record")
  ensure (admissionsOf db intent.executionId =
    [admissionAudit C intent.executionId intent.binding])
    (.corruptData "missing governed admission audit")
  validateApproval db intent intent.approval
  ensure (intent.approval.isSome == intent.legacyExecutionCallId.isSome)
    (.corruptData "invalid governed approval linkage")
  validateLegacy db intent intent.legacyExecutionCallId

/-- `validate_on`. -/
def validateOn (db : ToolDb) : Except StoreError Unit := do
  ensure (foreignKeyCheck db) (.corruptData "governed foreign key mismatch")
  ensure (quickCheck C db) (.corruptData "runtime integrity check failed")
  [db.intents.rows.length, db.stageEvents.length, db.refusals.length,
    db.previews.rows.length].forM
    (fun count => ensure (count ≤ capacity) (.corruptData "governed capacity exceeded"))
  db.previews.rows.forM (validatePreview db)
  ensure (!db.refusals.any (fun refusal => refusal.stage ≠ 11 || refusal.record.decision ≠ .deny))
    (.corruptData "invalid governed refusal")
  db.stageEvents.forM (fun event => validateAudit event.executionId event.stage event.record)
  db.refusals.forM
    (fun refusal => validateAudit refusal.executionId refusal.stage refusal.record)
  (db.stageEvents.filter (fun event => 12 ≤ event.stage)).forM (validatePostAdmission C db)
  db.intents.rows.forM (validateIntent C db)

/-! ## Calls -/

/-- `create_governed_tool_approval`. -/
def createGovernedToolApproval (db : ToolDb) (request : NewToolApproval)
    (binding : AuthorizationBinding) :
    Except LifecycleError (ToolDb × ToolApprovalRecord) := do
  ensure (!(binding.requiredApproval = .a0None || request.callDigest ≠ hex binding.requestDigest))
    .invalidState
  room db.previews.rows.length
  let (db', record) ← invalid (createOn db request)
  json (C.bindingBytes binding) 2048
  let db' ← unavailable (insertPreview C db' ⟨record.callId, binding⟩)
  .ok (db', record)

/-- `refuse_replay`. -/
def refuseReplay (db : ToolDb) (executionId : Digest) : Except LifecycleError (ToolDb × Bool) := do
  invalid (validateOn C db)
  match db.intents.find executionId with
  | none => .ok (db, false)
  | some intent => do
    let db' ← append C db (replayAudit C executionId intent.binding) false
    .ok (db', true)

/-- `exact_matches`: a local row demands its own durable decision. -/
def exactMatches (db : ToolDb) (callId : String) (exact : ExactApproval) : Bool :=
  match db.localApprovals.find callId with
  | none => true
  | some row => row.exact = some exact

/-- The approval that a preparation needs does not fit the stored one. -/
def approvalDiffers (request : PrepareRequest) (exact : ExactApproval)
    (current : ToolApprovalRecord) : Bool :=
  request.nowMs < current.updatedAtMs ||
    current.callDigest ≠ hex request.binding.requestDigest ||
    current.toolId ≠ request.toolId ||
    current.decisionId ≠ some exact.approval.decisionId ||
    current.createdAtMs ≠ exact.issuedAtMs ||
    current.expiresAtMs ≠ exact.approval.expiresAtMs

/-- What the approval part of `prepare` answers. -/
inductive Consumption where
  | done (db : ToolDb) (outcome : PrepareOutcome)
  | consumed (db : ToolDb)

/-- The part of `prepare` for a request with an approval: the approval is
consumed and the legacy execution prepared. -/
def consumeApproval (db : ToolDb) (request : PrepareRequest) (exact : ExactApproval)
    (now : Nat) : Except LifecycleError Consumption := do
  if !exactMatches db request.callId exact then
    .ok (.done db (.refused .approvalInsufficient))
  else if (db.previews.find request.callId).map GovernedPreview.binding ≠
      some request.binding then
    .ok (.done db (.refused .approvalInsufficient))
  else
    match db.approvals.find request.callId with
    | none => .ok (.done db (.refused .approvalMissing))
    | some current =>
      if approvalDiffers request exact current then
        .ok (.done db (.refused .approvalInsufficient))
      else do
        match ← unavailable (expireIfNeeded db current now) with
        | some (db', _) => .ok (.done db' (.refused .approvalExpired))
        | none =>
          if current.state ≠ .approved then .ok (.done db (.refused .approvalReplayed))
          else if resolutionExists db request.executionId.text then .ok (.done db .uncertain)
          else do
            let execution := request.executionId.text
            let db' ← unavailable (updateApprovals db
              (ToolApprovalRecord.selected request.callId (fun state => state = .approved))
              (ToolApprovalRecord.consume now) (ToolApprovalRecord.callId_consume now))
            let db' ← unavailable (insertEvent db'
              ⟨request.callId, .consumed, current.decisionId, none, now⟩)
            let db' ← unavailable (insertExecution db'
              (preparedExecution request.callId execution now))
            let db' ← unavailable (insertExecutionEvent db'
              ⟨request.callId, execution, .prepared, none, now⟩)
            .ok (.consumed db')

/-- The row of a new intent. -/
def PrepareRequest.intent (request : PrepareRequest) : GovernedIntent where
  executionId := request.executionId
  callId := request.callId
  toolId := request.toolId
  approvalCallId := request.approval.map (fun _ => request.callId)
  legacyExecutionCallId := request.approval.map (fun _ => request.callId)
  originalExecutionId :=
    request.binding.compensationOrigin.map CompensationOrigin.originalExecutionId
  originalBindingDigest :=
    request.binding.compensationOrigin.map CompensationOrigin.originalBindingDigest
  binding := request.binding
  approval := request.approval
  outcome := preparedOutcome
  state := .prepared
  startedAtMs := request.nowMs

/-- The intent of a request with its outcome and its admission audit. -/
def insertAdmission (db : ToolDb) (request : PrepareRequest) :
    Except LifecycleError ToolDb := do
  json (C.outcomeBytes preparedOutcome) 1024
  let db' ← unavailable (insertIntent C db request.intent)
  let db' ← unavailable (insertOutcomeEvent C db' ⟨request.executionId, preparedOutcome⟩)
  append C db' (admissionAudit C request.executionId request.binding) true

/-- The compensation of an intent that another one has reserved. -/
def reservedOrigin (db : ToolDb) (origin : CompensationOrigin) : Bool :=
  db.intents.rows.any (fun intent =>
    intent.originalExecutionId = some origin.originalExecutionId)

/-- The last part of `prepare`: the approval, then the intent. -/
def reserve (db : ToolDb) (request : PrepareRequest) (now : Nat) :
    Except LifecycleError (ToolDb × PrepareOutcome) :=
  match request.approval with
  | some exact => do
    match ← consumeApproval db request exact now with
    | .done db' outcome => .ok (db', outcome)
    | .consumed db' => do
      let db' ← insertAdmission C db' request
      .ok (db', .prepared request.executionId request.binding)
  | none =>
    -- A0 may not shadow a legacy approval or execution call identity
    if (db.approvals.find request.callId).isSome then .ok (db, .uncertain)
    else do
      let db' ← insertAdmission C db request
      .ok (db', .prepared request.executionId request.binding)

/-- `prepare`. -/
def prepare (db : ToolDb) (request : PrepareRequest) :
    Except LifecycleError (ToolDb × PrepareOutcome) := do
  ensure (C.isValid request) .invalidState
  json (C.bindingBytes request.binding) 2048
  ensure (request.approval.all (fun exact => C.approvalBytes exact ≤ 8192)) .capacity
  let now ← invalid (sqlU64 request.nowMs)
  invalid (validateOn C db)
  if db.intents.rows.any (fun intent =>
      intent.executionId = request.executionId || intent.callId = request.callId) then
    .ok (db, .uncertain)
  else if resolutionExists db request.executionId.text then .ok (db, .uncertain)
  else do
    room db.intents.rows.length
    if !validOrigin C db request.binding then .ok (db, .refused .approvalInsufficient)
    else if request.binding.compensationOrigin.any (reservedOrigin db) then .ok (db, .uncertain)
    else reserve C db request now

/-- The legacy rows of `finish`. -/
def finishLegacy (db : ToolDb) (executionId : Digest) (terminal : TerminalOutcome)
    (finished : Nat) : Option String → Except LifecycleError ToolDb
  | none => .ok db
  | some call => do
    let base := baseState terminal.state
    let digest := legacyResultDigest terminal
    let db' ← unavailable (updateExecutions db
      (fun record => record.callId = call && record.state = .prepared)
      (ToolExecutionRecord.finish base digest finished)
      (ToolExecutionRecord.callId_finish base digest finished))
    unavailable (insertExecutionEvent db' ⟨call, executionId.text, base, digest, finished⟩)

/-- An intent with its terminal outcome. -/
def GovernedIntent.finish (terminal : TerminalOutcome) (intent : GovernedIntent) :
    GovernedIntent :=
  { intent with state := baseState terminal.state, outcome := terminal }

@[simp] theorem GovernedIntent.executionId_finish (terminal : TerminalOutcome)
    (intent : GovernedIntent) : (intent.finish terminal).executionId = intent.executionId := rfl

/-- `finish`: the one terminal outcome of a prepared execution. -/
def finish (db : ToolDb) (executionId : Digest) (binding : AuthorizationBinding)
    (terminal : TerminalOutcome) (epochMs : Nat) : Except LifecycleError ToolDb := do
  ensure (C.isValidTerminal terminal) .invalidState
  invalid (validateOn C db)
  let intent ← required (db.intents.find executionId) .invalidState
  ensure (intent.state = .prepared && intent.binding = binding) .invalidState
  ensure (epochMs ≤ sqliteMax) .invalidState
  let finished := max epochMs intent.startedAtMs
  let db' ← finishLegacy db executionId terminal finished intent.legacyExecutionCallId
  json (C.outcomeBytes terminal) 1024
  let db' ← unavailable (updateIntents C db' (fun row => row.executionId = executionId)
    (GovernedIntent.finish terminal) (GovernedIntent.executionId_finish terminal))
  unavailable (insertOutcomeEvent C db' ⟨executionId, terminal⟩)

/-! ## Recovery -/

/-- The intents that a crash left prepared. -/
def preparedIntents (db : ToolDb) : List GovernedIntent :=
  db.intents.rows.filter (fun intent => intent.state = .prepared)

/-- Run a statement for each row of a selection. -/
def insertEach {α : Type} (insert : ToolDb → α → Except StoreError ToolDb) :
    ToolDb → List α → Except StoreError ToolDb
  | db, [] => .ok db
  | db, row :: rest => do
    let db' ← insert db row
    insertEach insert db' rest

/-- The event of an interrupted execution of an intent. -/
def interruptedEvent (recoveredAt : Nat) (intent : GovernedIntent) : ToolExecutionEvent :=
  ⟨intent.callId, intent.executionId.text, .interrupted, none,
    max intent.startedAtMs recoveredAt⟩

/-- The execution of an intent that is still prepared. -/
def linkedToPrepared (db : ToolDb) (record : ToolExecutionRecord) : Bool :=
  some record.callId ∈ (preparedIntents db).map GovernedIntent.legacyExecutionCallId

/-- A linked execution after `recover_on`. -/
def ToolExecutionRecord.recover (recoveredAt : Nat) (record : ToolExecutionRecord) :
    ToolExecutionRecord :=
  { record with
    state := .interrupted, finishedAtMs := some (max record.startedAtMs recoveredAt) }

@[simp] theorem ToolExecutionRecord.callId_recover (recoveredAt : Nat)
    (record : ToolExecutionRecord) : (record.recover recoveredAt).callId = record.callId := rfl

/-- `recover_on`: four statements over the prepared intents. -/
def recoverOn (db : ToolDb) (epochMs : Nat) : Except StoreError ToolDb := do
  let recoveredAt ← sqlU64 epochMs
  let prepared := preparedIntents db
  let linked := prepared.filter (fun intent => intent.legacyExecutionCallId.isSome)
  let db' ← insertEach insertExecutionEvent db (linked.map (interruptedEvent recoveredAt))
  let db' ← updateExecutions db' (linkedToPrepared db)
    (ToolExecutionRecord.recover recoveredAt) (ToolExecutionRecord.callId_recover recoveredAt)
  let db' ← insertEach (insertOutcomeEvent C) db'
    (prepared.map (fun intent => ⟨intent.executionId, interruptedOutcome⟩))
  updateIntents C db' (fun intent => intent.state = .prepared)
    (GovernedIntent.finish interruptedOutcome)
    (GovernedIntent.executionId_finish interruptedOutcome)

end Abbey.Tool
