import Abbey.Run.Turn

/-!
# The lifecycle calls of the runtime store

`src/runtime/store.rs` and the admission part of
`src/runtime/store/v4_turn.rs`.  Each function is one transaction: it
answers an error and writes nothing, or it answers the database after the
commit with its result.

The identifiers that the source draws (`RunId::new`, `Uuid::new_v4`) and
the readings of the clock are arguments.  A drawn identifier that is taken
breaks the primary key and answers `database`.  `marker` is the second
reading of the clock that `sync_message_state` makes for the terminal
content event.

`Abbey.Run.Writes` says what each call writes.
-/

namespace Abbey.Run

open Abbey.Lib

/-! ## Input checks -/

def maxEventKindBytes : Nat := 64
def maxEventPayloadBytes : Nat := 16 * 1024

/-- 64 lower-case hexadecimal bytes. -/
def isDigest (value : String) : Bool :=
  value.utf8ByteSize = 64 &&
    value.toList.all (fun c => c.isDigit || ('a' ≤ c && c ≤ 'f'))

def validateNewRun (run : NewRun) : Except StoreError Unit :=
  ensure (isDigest run.requestDigest)
    (.invalidInput "request digest must be 64 lower-case hexadecimal bytes")

def validateLabel (value : String) (error : String) : Except StoreError Unit :=
  ensure (!value.isEmpty && value.utf8ByteSize ≤ maxEventKindBytes &&
    !value.toList.any isControl) (.invalidInput error)

def validateEvent (event : NewRunEvent) : Except StoreError Unit := do
  validateLabel event.kind "event kind is empty or exceeds 64 bytes"
  ensure (event.payload.jsonBytes ≤ maxEventPayloadBytes)
    (.invalidInput "event payload exceeds 16384 bytes")

/-! ## Creation -/

/-- `INSERT OR IGNORE INTO conversations`. -/
def createConversation (db : RunDb) (id : ConversationId) : RunDb :=
  if id ∈ db.conversations then db
  else { db with conversations := db.conversations ++ [id] }

/-- The row of a new run. -/
def queuedRun (newRun : NewRun) (id : RunId) (now : Instant) : RunRecord where
  id := id
  conversationId := newRun.conversationId
  idempotencyKey := newRun.idempotencyKey
  requestDigest := newRun.requestDigest
  status := .queued
  nextEventSequence := 2
  createdAt := now
  updatedAt := now

/-- The first event of a new run. -/
def queuedEvent (id : RunId) (now : Instant) : RunEvent where
  runId := id
  sequence := 1
  kind := "run_queued"
  payload := []
  createdAt := now

/-- Insert a run with its first event. -/
def insertRun (db : RunDb) (run : RunRecord) : Except StoreError RunDb := do
  let runs ← required (db.runs.insert? run) .database
  ensure (run.conversationId.all (fun id => decide (id ∈ db.conversations)))
    (.conversationNotFound run.conversationId)
  let events ← required (db.runEvents.insert? (queuedEvent run.id run.createdAt)) .database
  .ok { db with runs, runEvents := events }

/-- `create_or_get_run`: the run of an idempotency key. -/
def createOrGetRun (db : RunDb) (newRun : NewRun) (id : RunId) (now : Instant) :
    Except StoreError (RunDb × RunRecord) := do
  validateNewRun newRun
  match runByIdempotencyKey db newRun.idempotencyKey with
  | some existing =>
    if existing.requestDigest = newRun.requestDigest then .ok (db, existing)
    else .error .idempotencyConflict
  | none => do
    let db' ← insertRun db (queuedRun newRun id now)
    .ok (db', queuedRun newRun id now)

/-- `get_run`. -/
def getRun (db : RunDb) (id : RunId) : Option RunRecord := runById db id

/-! ## Transitions -/

/-- The row after an update that appends one event. -/
def RunRecord.advance (next : RunState) (timestamp : Instant) (run : RunRecord) : RunRecord :=
  { run with
    status := next, nextEventSequence := run.nextEventSequence + 1, updatedAt := timestamp }

@[simp] theorem RunRecord.id_advance (next : RunState) (timestamp : Instant)
    (run : RunRecord) : (run.advance next timestamp).id = run.id := rfl

/-- The event that an append stores for a run. -/
def storedEvent (run : RunRecord) (event : NewRunEvent) (timestamp : Instant) : RunEvent where
  runId := run.id
  sequence := run.nextEventSequence
  kind := event.kind
  payload := event.payload
  createdAt := timestamp

def appendEvent (db : RunDb) (run : RunRecord) (event : NewRunEvent) (timestamp : Instant) :
    Except StoreError (RunDb × RunEvent) := do
  let _ ← sqlSequence run.nextEventSequence
  let events ← required (db.runEvents.insert? (storedEvent run event timestamp)) .database
  .ok ({ db with runEvents := events }, storedEvent run event timestamp)

/-- The `WHERE` clause of the guarded update: the row as it was read. -/
def RunRecord.unchanged (run row : RunRecord) : Bool :=
  row.id = run.id && row.status = run.status &&
    row.nextEventSequence = run.nextEventSequence

def updateAndAppend (db : RunDb) (run : RunRecord) (next : RunState) (event : NewRunEvent)
    (timestamp marker : Instant) : Except StoreError (RunDb × RunEvent) := do
  let _ ← sqlSequence run.nextEventSequence
  let _ ← sqlSequence (run.nextEventSequence + 1)
  if (db.runs.rows.filter run.unchanged).length = 1 then do
    let runs := db.runs.modify run.unchanged (RunRecord.advance next timestamp)
      (RunRecord.id_advance next timestamp)
    let updated : RunDb := { db with runs }
    let (appended, stored) ← appendEvent updated run event timestamp
    let synced ← syncMessageState appended run.id next marker.ms
    .ok (synced, stored)
  else
    match runById db run.id with
    | none => .error (.runNotFound run.id)
    | some found => .error (.unexpectedStatus run.status found.status)

/-- `transition_run`: a compare-and-set on the status with its event. -/
def transitionRun (db : RunDb) (id : RunId) (expected next : RunState) (event : NewRunEvent)
    (now marker : Instant) : Except StoreError (RunDb × RunEvent) := do
  validateEvent event
  let run ← required (runById db id) (.runNotFound id)
  ensure (run.status = expected) (.unexpectedStatus expected run.status)
  ensure (!run.status.isTerminal) (.terminalRun id)
  ensure (run.status.allows next) (.invalidTransition run.status next)
  updateAndAppend db run next event now marker

/-! ## Recovery -/

def recoveredEvent : NewRunEvent where
  kind := "run_recovered_interrupted"
  payload := [("reason", .text "daemon_restart")]

/-- The states that recovery interrupts. -/
def RunState.isActive : RunState → Bool
  | .starting | .running | .cancelRequested => true
  | .queued | .succeeded | .failed | .cancelled | .interrupted => false

/-- `ORDER BY created_at, id`. -/
def createdBefore (a b : RunRecord) : Prop :=
  a.createdAt.ms < b.createdAt.ms ∨
    (a.createdAt.ms = b.createdAt.ms ∧ a.id.uuid ≤ b.id.uuid)

instance : DecidableRel createdBefore := fun _ _ =>
  inferInstanceAs (Decidable (_ ∨ _))

/-- The runs that recovery selects. -/
def interruptedIds (db : RunDb) : List RunId :=
  ((db.runs.rows.filter (fun run => run.status.isActive)).insertionSort
    createdBefore).map RunRecord.id

/-- The loop of `recover_interrupted_on`. -/
def interruptAll (now : Instant) (marker : RunId → Instant) :
    RunDb → List RunId → Except StoreError RunDb
  | db, [] => .ok db
  | db, id :: rest => do
    let run ← required (runById db id) (.corruptData "recovery selected a missing run")
    let (db', _) ← updateAndAppend db run .interrupted recoveredEvent now (marker id)
    interruptAll now marker db' rest

/-- `recover_interrupted_on`: one transaction at every reopen. -/
def recoverInterruptedOn (db : RunDb) (now : Instant) (marker : RunId → Instant) :
    Except StoreError (RunDb × Nat) := do
  let db' ← interruptAll now marker db (interruptedIds db)
  .ok (db', (interruptedIds db).length)

/-! ## Admission of a turn -/

/-- `duplicate_submission`: the receipt of a turn that is already stored. -/
def duplicateSubmission (submitDigest : V4SubmitTurn → String) (db : RunDb)
    (existing : RunRecord) (submit : V4SubmitTurn) : Except StoreError V4TurnSubmission := do
  ensure (existing.requestDigest = submitDigest submit &&
    existing.conversationId = some submit.conversationId) .idempotencyConflict
  let turn ← required (db.assistantTurns.find existing.id) .database
  let submission : V4TurnSubmission :=
    { conversationId := submit.conversationId, runId := existing.id
      idempotencyKey := submit.idempotencyKey, userMessageSequence := turn.userSequence
      state := existing.status, duplicate := true }
  orElse submission.validate (.corruptData "turn sub invalid")
  .ok submission

/-- `submission_for`: the receipt read from the stored turn. -/
def submissionFor (db : RunDb) (id : RunId) : Except StoreError V4TurnSubmission := do
  let run ← required (runById db id) .assistantNotFound
  let turn ← required (db.assistantTurns.find run.id) .database
  let conversationId ← required run.conversationId
    (.corruptData "v4 run missing conversation")
  let submission : V4TurnSubmission :=
    { conversationId, runId := run.id, idempotencyKey := run.idempotencyKey
      userMessageSequence := turn.userSequence, state := run.status, duplicate := false }
  orElse submission.validate (.corruptData "turn sub invalid")
  .ok submission

/-- The user message of a new turn. -/
def userMessage (submit : V4SubmitTurn) (runId : RunId) (messageId sequence now : Nat) :
    AssistantMessage where
  id := messageId
  conversationId := submit.conversationId
  runId := runId
  role := .user
  sequence := sequence
  body := submit.input
  textBytes := submit.input.utf8ByteSize
  textComplete := true
  state := .queued
  createdAtMs := now

/-- The run that a turn submission creates. -/
def turnRun (submitDigest : V4SubmitTurn → String) (submit : V4SubmitTurn) : NewRun where
  conversationId := some submit.conversationId
  idempotencyKey := submit.idempotencyKey
  requestDigest := submitDigest submit

/-- The new part of `v4_admit_turn`: run, event, message and turn binding
in one transaction. -/
def admitNewTurn (submitDigest : V4SubmitTurn → String) (db : RunDb) (submit : V4SubmitTurn)
    (nowMs : Nat) (runId : RunId) (messageId : Nat) :
    Except StoreError (RunDb × V4TurnSubmission) := do
  let cid := submit.conversationId
  let found ← conversationRow db cid
  let row ← required found .assistantNotFound
  ensure (activeRuns db cid = 0) .assistantConflict
  -- room for visible output and for a terminal marker
  ensure (lastContent db cid ≤ maxSequence - 2) .assistantConflict
  let created ← stamp nowMs
  let db' ← insertRun db (queuedRun (turnRun submitDigest submit) runId created)
  let sequence := nextMessageSequence db cid
  let _ ← sqlSequence sequence
  let now ← sqlMs nowMs
  let messages ← required
    (db.assistantMessages.insert? (userMessage submit runId messageId sequence now)) .database
  let turns ← required
    (db.assistantTurns.insert? ⟨runId, cid, sequence, submit.routeId, messageId⟩) .database
  ensure (row.createdAtMs ≤ now) .database
  let submission : V4TurnSubmission :=
    { conversationId := cid, runId, idempotencyKey := submit.idempotencyKey
      userMessageSequence := sequence, state := .queued, duplicate := false }
  orElse submission.validate (.corruptData "turn sub invalid")
  .ok ({ db' with
    assistantMessages := messages
    assistantTurns := turns
    assistantConversations := db.assistantConversations.modify (fun c => c.id = cid)
      (fun c => { c with updatedAtMs := now }) (fun _ => rfl) }, submission)

/-- `v4_admit_turn`. -/
def v4AdmitTurn (submitDigest : V4SubmitTurn → String) (db : RunDb) (submit : V4SubmitTurn)
    (nowMs : Nat) (runId : RunId) (messageId : Nat) :
    Except StoreError (RunDb × V4TurnSubmission) := do
  orElse submit.validate (.invalidInput "turn submit invalid")
  match runByIdempotencyKey db submit.idempotencyKey with
  | some existing => do
    let submission ← duplicateSubmission submitDigest db existing submit
    .ok (db, submission)
  | none => admitNewTurn submitDigest db submit nowMs runId messageId

def unadoptedEvent : NewRunEvent where
  kind := "run_failed"
  payload := [("code", .text "executor_unsupported"),
    ("message", .text "executor does not support this request")]

end Abbey.Run
