import Abbey.Tool.Records

/-!
# Durable tool approvals

`src/runtime/store/tool_approval.rs`.  Each public call is one transaction:
it answers an error and writes nothing, or the database after the commit
with its result.  The statements that several calls share
(`updateApprovals`, `insertEvent`, `resolutionExists`) come first.

The columns `decision_id` and `cancellation_id` are unique.  No statement
here breaks that: `resolution_exists` refuses a used identifier before it is
written.
-/

namespace Abbey.Tool

open Abbey.Lib Abbey.Run

/-- `MAX_TOOL_APPROVAL_TTL_MS`: fifteen minutes. -/
def maxToolApprovalTtlMs : Nat := 15 * 60 * 1000

/-! ## Checks -/

def validateId (value message : String) : Except StoreError Unit :=
  ensure (isIdentifier value 128) (.invalidInput message)

def validateDigest (value : String) : Except StoreError Unit :=
  ensure (isDigest value) (.invalidInput "tool approval digest is invalid")

def sqlU64 (value : Nat) : Except StoreError Nat :=
  if value ≤ sqliteMax then .ok value
  else .error (.invalidInput "tool approval timestamp exceeds SQLite")

@[simp] theorem sqlU64_eq_ok : sqlU64 value = .ok n ↔ value ≤ sqliteMax ∧ value = n := by
  unfold sqlU64
  split_ifs with h <;> simp [h]

/-- The call has a governed intent. -/
def ToolDb.hasIntent (db : ToolDb) (callId : String) : Bool :=
  db.intents.rows.any (fun intent => intent.callId = callId)

/-- `resolution_exists`: an identifier that was already accepted. -/
def resolutionExists (db : ToolDb) (id : String) : Bool :=
  db.approvals.rows.any
      (fun record => record.decisionId = some id || record.cancellationId = some id) ||
    db.executions.rows.any (fun record => record.executionId = id) ||
    db.intents.rows.any (fun intent => intent.executionId.text = id)

/-! ## Statements -/

def updateApprovals (db : ToolDb) (select : ToolApprovalRecord → Bool)
    (set : ToolApprovalRecord → ToolApprovalRecord)
    (hset : ∀ record, (set record).callId = record.callId) : Except StoreError ToolDb := do
  let approvals ← required
    (db.approvals.update? select set hset ToolApprovalRecord.check) .database
  .ok { db with approvals }

/-- `insert_event`. -/
def insertEvent (db : ToolDb) (event : ToolApprovalEvent) : Except StoreError ToolDb := do
  ensure (db.approvals.find event.callId).isSome .database
  .ok { db with approvalEvents := db.approvalEvents ++ [event] }

def requireRecord (db : ToolDb) (callId : String) : Except StoreError ToolApprovalRecord :=
  required (db.approvals.find callId) (.toolApprovalNotFound callId)

def requireDigest (record : ToolApprovalRecord) (digest : String) : Except StoreError Unit :=
  ensure (record.callDigest = digest) .toolApprovalDigestMismatch

/-- The row under a call, in one of some states. -/
def ToolApprovalRecord.selected (callId : String) (states : ToolApprovalState → Bool)
    (record : ToolApprovalRecord) : Bool :=
  record.callId = callId && states record.state

def ToolApprovalRecord.expire (now : Nat) (record : ToolApprovalRecord) : ToolApprovalRecord :=
  { record with state := .expired, updatedAtMs := now }

def ToolApprovalRecord.decide (state : ToolApprovalState) (decisionId : String) (now : Nat)
    (record : ToolApprovalRecord) : ToolApprovalRecord :=
  { record with state, decisionId := some decisionId, updatedAtMs := now }

def ToolApprovalRecord.cancel (cancellationId : String) (now : Nat)
    (record : ToolApprovalRecord) : ToolApprovalRecord :=
  { record with state := .cancelled, cancellationId := some cancellationId, updatedAtMs := now }

def ToolApprovalRecord.consume (now : Nat) (record : ToolApprovalRecord) : ToolApprovalRecord :=
  { record with state := .consumed, updatedAtMs := now }

@[simp] theorem ToolApprovalRecord.callId_expire (now : Nat) (record : ToolApprovalRecord) :
    (record.expire now).callId = record.callId := rfl

@[simp] theorem ToolApprovalRecord.callId_decide (state : ToolApprovalState)
    (decisionId : String) (now : Nat) (record : ToolApprovalRecord) :
    (record.decide state decisionId now).callId = record.callId := rfl

@[simp] theorem ToolApprovalRecord.callId_cancel (cancellationId : String) (now : Nat)
    (record : ToolApprovalRecord) : (record.cancel cancellationId now).callId = record.callId :=
  rfl

@[simp] theorem ToolApprovalRecord.callId_consume (now : Nat) (record : ToolApprovalRecord) :
    (record.consume now).callId = record.callId := rfl

/-! ## Creation and expiry -/

/-- The row of a new approval. -/
def NewToolApproval.record (request : NewToolApproval) : ToolApprovalRecord where
  callId := request.callId
  toolId := request.toolId
  callDigest := request.callDigest
  state := .pending
  decisionId := none
  cancellationId := none
  createdAtMs := request.createdAtMs
  expiresAtMs := request.expiresAtMs
  updatedAtMs := request.createdAtMs

/-- The transition of a record as an event. -/
def ToolApprovalRecord.event (record : ToolApprovalRecord) (now : Nat) : ToolApprovalEvent :=
  ⟨record.callId, record.state, record.decisionId, record.cancellationId, now⟩

/-- `create_on`. -/
def createOn (db : ToolDb) (request : NewToolApproval) :
    Except StoreError (ToolDb × ToolApprovalRecord) := do
  validateId request.callId "tool approval call id is invalid"
  validateId request.toolId "tool approval tool id is invalid"
  validateDigest request.callDigest
  ensure (request.createdAtMs ≤ request.expiresAtMs)
    (.invalidInput "tool approval expiry is invalid")
  let ttl := request.expiresAtMs - request.createdAtMs
  ensure (ttl ≠ 0 && ttl ≤ maxToolApprovalTtlMs)
    (.invalidInput "tool approval expiry exceeds the server bound")
  let createdAt ← sqlU64 request.createdAtMs
  let _ ← sqlU64 request.expiresAtMs
  ensure (!db.hasIntent request.callId) .toolApprovalConflict
  -- `INSERT OR IGNORE`: a taken call identifier inserts no row
  let approvals ← required (db.approvals.insert? request.record) .toolApprovalConflict
  let db' ← insertEvent { db with approvals } (request.record.event createdAt)
  let record ← required (db'.approvals.find request.callId)
    (.corruptData "created tool approval is missing")
  .ok (db', record)

/-- `expire_if_needed`. -/
def expireIfNeeded (db : ToolDb) (current : ToolApprovalRecord) (now : Nat) :
    Except StoreError (Option (ToolDb × ToolApprovalRecord)) :=
  if !current.state.isOpen then .ok none
  else do
    let expiresAt ← sqlU64 current.expiresAtMs
    if now < expiresAt then .ok none
    else do
      let db' ← updateApprovals db
        (ToolApprovalRecord.selected current.callId ToolApprovalState.isOpen)
        (ToolApprovalRecord.expire now) (ToolApprovalRecord.callId_expire now)
      let db' ← insertEvent db'
        ⟨current.callId, .expired, current.decisionId, none, now⟩
      let record ← requireRecord db' current.callId
      .ok (some (db', record))

/-! ## Calls -/

def createToolApproval (db : ToolDb) (request : NewToolApproval) :
    Except StoreError (ToolDb × ToolApprovalRecord) :=
  createOn db request

def ToolApprovalDecision.state : ToolApprovalDecision → ToolApprovalState
  | .approve => .approved
  | .deny => .denied

def decideToolApproval (db : ToolDb) (callId callDigest decisionId : String)
    (decision : ToolApprovalDecision) (nowMs : Nat) :
    Except StoreError (ToolDb × ToolApprovalRecord) := do
  validateId callId "tool approval call id is invalid"
  validateDigest callDigest
  validateId decisionId "tool approval decision id is invalid"
  let now ← sqlU64 nowMs
  let current ← requireRecord db callId
  requireDigest current callDigest
  match ← expireIfNeeded db current now with
  | some expired => .ok expired
  | none => do
    ensure (!(current.state ≠ .pending || resolutionExists db decisionId))
      .toolApprovalConflict
    let db' ← updateApprovals db (ToolApprovalRecord.selected callId (fun s => s = .pending))
      (ToolApprovalRecord.decide decision.state decisionId now)
      (ToolApprovalRecord.callId_decide decision.state decisionId now)
    let db' ← insertEvent db' ⟨callId, decision.state, some decisionId, none, now⟩
    let record ← requireRecord db' callId
    .ok (db', record)

def cancelToolApproval (db : ToolDb) (callId cancellationId : String) (nowMs : Nat) :
    Except StoreError (ToolDb × ToolApprovalRecord) := do
  validateId callId "tool approval call id is invalid"
  validateId cancellationId "tool cancellation id is invalid"
  let now ← sqlU64 nowMs
  let current ← requireRecord db callId
  match ← expireIfNeeded db current now with
  | some expired => .ok expired
  | none => do
    ensure (!(!current.state.isOpen || resolutionExists db cancellationId))
      .toolApprovalConflict
    let db' ← updateApprovals db
      (ToolApprovalRecord.selected callId ToolApprovalState.isOpen)
      (ToolApprovalRecord.cancel cancellationId now)
      (ToolApprovalRecord.callId_cancel cancellationId now)
    let db' ← insertEvent db'
      ⟨callId, .cancelled, current.decisionId, some cancellationId, now⟩
    let record ← requireRecord db' callId
    .ok (db', record)

/-- `tool_approval`: a read that expires first. -/
def toolApproval (db : ToolDb) (callId : String) (nowMs : Nat) :
    Except StoreError (ToolDb × Option ToolApprovalRecord) := do
  validateId callId "tool approval call id is invalid"
  let now ← sqlU64 nowMs
  match db.approvals.find callId with
  | none => .ok (db, none)
  | some current => do
    match ← expireIfNeeded db current now with
    | some (db', record) => .ok (db', some record)
    | none => .ok (db, some current)

end Abbey.Tool
