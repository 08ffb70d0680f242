import Abbey.Tool.Approval

/-!
# The admission ledger of approved effects

`src/runtime/store/tool_execution.rs`.  A preparation consumes the approval
of its call and records the intent in one transaction.  A reopen interrupts
every intent that is still prepared (`recoverPreparedOn`), at the reading of
the clock, whatever the intent says of its own start.
-/

namespace Abbey.Tool

open Abbey.Lib Abbey.Run

/-! ## Statements -/

/-- `INSERT INTO tool_executions`: the call has an approval, and neither
the call nor the execution identifier is taken. -/
def insertExecution (db : ToolDb) (record : ToolExecutionRecord) : Except StoreError ToolDb := do
  ensure ((db.approvals.find record.callId).isSome && record.check &&
    !db.executions.rows.any (fun row => row.executionId = record.executionId)) .database
  let executions ← required (db.executions.insert? record) .database
  .ok { db with executions }

def updateExecutions (db : ToolDb) (select : ToolExecutionRecord → Bool)
    (set : ToolExecutionRecord → ToolExecutionRecord)
    (hset : ∀ record, (set record).callId = record.callId) : Except StoreError ToolDb := do
  let executions ← required
    (db.executions.update? select set hset ToolExecutionRecord.check) .database
  .ok { db with executions }

/-- `insert_execution_event`. -/
def insertExecutionEvent (db : ToolDb) (event : ToolExecutionEvent) :
    Except StoreError ToolDb := do
  ensure ((db.executions.find event.callId).isSome && event.check) .database
  .ok { db with executionEvents := db.executionEvents ++ [event] }

def requireExecution (db : ToolDb) (callId : String) : Except StoreError ToolExecutionRecord :=
  required (db.executions.find callId) (.toolExecutionNotFound callId)

/-- The row of a new intent. -/
def preparedExecution (callId executionId : String) (now : Nat) : ToolExecutionRecord where
  callId := callId
  executionId := executionId
  state := .prepared
  resultDigest := none
  startedAtMs := now
  finishedAtMs := none

/-- A prepared row under its two identifiers. -/
def ToolExecutionRecord.selected (callId executionId : String) (record : ToolExecutionRecord) :
    Bool :=
  record.callId = callId && record.executionId = executionId && record.state = .prepared

def ToolExecutionRecord.finish (state : ToolExecutionState) (resultDigest : Option String)
    (now : Nat) (record : ToolExecutionRecord) : ToolExecutionRecord :=
  { record with state, resultDigest, finishedAtMs := some now }

@[simp] theorem ToolExecutionRecord.callId_finish (state : ToolExecutionState)
    (resultDigest : Option String) (now : Nat) (record : ToolExecutionRecord) :
    (record.finish state resultDigest now).callId = record.callId := rfl

/-! ## Calls -/

def prepareToolExecution (db : ToolDb) (callId callDigest executionId : String) (nowMs : Nat) :
    Except StoreError (ToolDb × ToolExecutionPreparation) := do
  validateId callId "tool execution call id is invalid"
  validateDigest callDigest
  validateId executionId "tool execution id is invalid"
  let now ← sqlU64 nowMs
  ensure (!(db.intents.rows.any
      (fun intent => intent.callId = callId || intent.executionId.text = executionId) ||
    (db.previews.find callId).isSome)) .toolExecutionConflict
  let current ← requireRecord db callId
  requireDigest current callDigest
  match ← expireIfNeeded db current now with
  | some (db', expired) => .ok (db', .expired expired)
  | none => do
    ensure (!(current.state ≠ .approved || resolutionExists db executionId ||
      (db.executions.find callId).isSome)) .toolExecutionConflict
    let approved := ToolApprovalRecord.selected callId (fun state => state = .approved)
    let db' ← updateApprovals db approved (ToolApprovalRecord.consume now)
      (ToolApprovalRecord.callId_consume now)
    ensure ((db.approvals.rows.filter approved).length = 1) .toolExecutionConflict
    let db' ← insertEvent db' ⟨callId, .consumed, current.decisionId, none, now⟩
    let db' ← insertExecution db' (preparedExecution callId executionId now)
    let db' ← insertExecutionEvent db' ⟨callId, executionId, .prepared, none, now⟩
    let record ← requireExecution db' callId
    .ok (db', .prepared record)

def completeToolExecution (db : ToolDb) (callId executionId : String)
    (outcome : ToolExecutionOutcome) (resultDigest : String) (nowMs : Nat) :
    Except StoreError (ToolDb × ToolExecutionRecord) := do
  validateId callId "tool execution call id is invalid"
  validateId executionId "tool execution id is invalid"
  validateDigest resultDigest
  let now ← sqlU64 nowMs
  ensure (!db.hasIntent callId) .toolExecutionConflict
  let current ← requireExecution db callId
  ensure (!(current.executionId ≠ executionId || current.state ≠ .prepared ||
    nowMs < current.startedAtMs)) .toolExecutionConflict
  let selected := ToolExecutionRecord.selected callId executionId
  let db' ← updateExecutions db selected
    (ToolExecutionRecord.finish outcome.state (some resultDigest) now)
    (ToolExecutionRecord.callId_finish outcome.state (some resultDigest) now)
  ensure ((db.executions.rows.filter selected).length = 1) .toolExecutionConflict
  let db' ← insertExecutionEvent db'
    ⟨callId, executionId, outcome.state, some resultDigest, now⟩
  let record ← requireExecution db' callId
  .ok (db', record)

/-! ## Recovery -/

/-- `ORDER BY started_at_ms, call_id`. -/
def startedBefore (a b : ToolExecutionRecord) : Prop :=
  a.startedAtMs < b.startedAtMs ∨ (a.startedAtMs = b.startedAtMs ∧ a.callId ≤ b.callId)

instance : DecidableRel startedBefore := fun _ _ =>
  inferInstanceAs (Decidable (_ ∨ _))

/-- The intents that recovery selects, by call and execution. -/
def preparedIds (db : ToolDb) : List (String × String) :=
  ((db.executions.rows.filter (fun record => record.state = .prepared)).insertionSort
    startedBefore).map (fun record => (record.callId, record.executionId))

/-- A row that a reopen interrupts. -/
def ToolExecutionRecord.interrupt (now : Nat) (record : ToolExecutionRecord) :
    ToolExecutionRecord :=
  { record with state := .interrupted, finishedAtMs := some now }

@[simp] theorem ToolExecutionRecord.callId_interrupt (now : Nat)
    (record : ToolExecutionRecord) : (record.interrupt now).callId = record.callId := rfl

/-- The loop of `recover_prepared_on`. -/
def interruptPrepared (now : Nat) : ToolDb → List (String × String) → Except StoreError ToolDb
  | db, [] => .ok db
  | db, (callId, executionId) :: rest => do
    let selected := ToolExecutionRecord.selected callId executionId
    let db' ← updateExecutions db selected (ToolExecutionRecord.interrupt now)
      (ToolExecutionRecord.callId_interrupt now)
    ensure ((db.executions.rows.filter selected).length = 1) .toolExecutionConflict
    let db' ← insertExecutionEvent db' ⟨callId, executionId, .interrupted, none, now⟩
    interruptPrepared now db' rest

/-- `recover_prepared_on`. -/
def recoverPreparedOn (db : ToolDb) (nowMs : Nat) : Except StoreError (ToolDb × Nat) := do
  let now ← sqlU64 nowMs
  let db' ← interruptPrepared now db (preparedIds db)
  .ok (db', (preparedIds db).length)

end Abbey.Tool
