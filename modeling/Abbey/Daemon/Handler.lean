import Abbey.Manager.Machine
import Abbey.Run.Reading

/-!
# The runtime handler

`src/daemon/runtime_handler.rs` and the run part of
`src/app_core/contracts.rs`: the commands of a client and the events that
answer them.

`SubmitRun` and `CancelRun` call the manager first and read the run again
afterwards.  The manager's call is a call of `Abbey.Manager.Machine`, so
the handler's part starts with its result and the store at the moment of
the reading (`replySubmit`, `replyCancel`).  `GetRun` and `RunEvents` only
read.  The routes that a request may take are not modelled: a request that
is refused for its route never reaches the manager or the store.
-/

namespace Abbey.Daemon

open Abbey.Lib Abbey.Run Abbey.Manager

/-! ## Commands and events -/

inductive AppCommand where
  | submitRun (request : RunRequest)
  | getRun (runId : RunId)
  | cancelRun (runId : RunId)
  | runEvents (query : RunEventsQuery)

def AppCommand.validate : AppCommand → Except ValidationError Unit
  | submitRun request => request.validate
  | getRun _ | cancelRun _ => .ok ()
  | runEvents query => query.validate

inductive AppEvent where
  | runSubmitted (submission : RunSubmission)
  | runStatus (snapshot : RunSnapshot)
  | cancellationAcknowledged (snapshot : RunSnapshot)
  | runEvents (page : RunEventPage)

def AppEvent.validate : AppEvent → Except ValidationError Unit
  | runSubmitted submission => submission.validate
  | runStatus snapshot | cancellationAcknowledged snapshot => snapshot.validate
  | runEvents page => page.validate

/-! ## Failures -/

structure HandlerFailure where
  code : String
  message : String

def invalidCommandFailure : HandlerFailure := ⟨"invalid_command", "command payload is invalid"⟩

def notFoundFailure : HandlerFailure := ⟨"run_not_found", "run was not found"⟩

def internalFailure : HandlerFailure :=
  ⟨"runtime_unavailable", "runtime operation is unavailable"⟩

def mapStoreError : StoreError → HandlerFailure
  | .runNotFound _ => notFoundFailure
  | .idempotencyConflict =>
    ⟨"idempotency_conflict", "idempotency key belongs to a different request"⟩
  | .invalidInput _ | .conversationNotFound _ | .unexpectedStatus _ _ | .invalidTransition _ _
  | .terminalRun _ | .toolApprovalConflict | .toolApprovalDigestMismatch
  | .toolExecutionConflict | .modelOperationConflict | .modelOperationCapacity =>
    invalidCommandFailure
  | .toolApprovalNotFound _ | .toolExecutionNotFound _ | .modelOperationNotFound _ =>
    notFoundFailure
  | .assistantNotFound => ⟨"not_found", "resource was not found"⟩
  | .assistantConflict => ⟨"conflict", "resource conflicts with stored state"⟩
  | .corruptData _ | .database => internalFailure

def mapManagerError : ManagerError → HandlerFailure
  | .invalidRequest _ => invalidCommandFailure
  | .shuttingDown | .workerPanicked => internalFailure
  | .store error => mapStoreError error

/-! ## Replies -/

/-- `RuntimeHandler::snapshot`. -/
def snapshot (db : RunDb) (id : RunId) : Except HandlerFailure RunSnapshot := do
  let found ← mapErr mapStoreError (runSnapshot db id)
  required found notFoundFailure

theorem snapshot_eq_ok {id : RunId} :
    snapshot db id = .ok result ↔ runSnapshot db id = .ok (some result) := by
  unfold snapshot
  simp [bind_ok_iff]

def dispositionOf : SubmitDisposition → RunSubmissionDisposition
  | .enqueued => .enqueued
  | .existing => .existing
  | .queueFull => .queueFull

/-- The answer to `SubmitRun`, from the result of `RunManager::submit`. -/
def replySubmit (db : RunDb) (result : Except ManagerError SubmitResult) :
    Except HandlerFailure AppEvent := do
  let submitted ← mapErr mapManagerError result
  let run ← snapshot db submitted.run.id
  let submission : RunSubmission := ⟨dispositionOf submitted.disposition, run⟩
  orElse submission.validate internalFailure
  .ok (.runSubmitted submission)

/-- The answer to `GetRun`. -/
def replyGetRun (db : RunDb) (id : RunId) : Except HandlerFailure AppEvent := do
  let run ← snapshot db id
  .ok (.runStatus run)

/-- The answer to `CancelRun`, from the result of `RunManager::cancel`. -/
def replyCancel (db : RunDb) (id : RunId) (result : Except ManagerError RunRecord) :
    Except HandlerFailure AppEvent := do
  let _ ← mapErr mapManagerError result
  let run ← snapshot db id
  .ok (.cancellationAcknowledged run)

/-- The answer to `RunEvents`. -/
def replyRunEvents (db : RunDb) (query : RunEventsQuery) : Except HandlerFailure AppEvent := do
  let page ← mapErr mapStoreError (runEventsPage db query.runId query.afterSequence
    query.throughSequence query.limit)
  .ok (.runEvents page)

end Abbey.Daemon
