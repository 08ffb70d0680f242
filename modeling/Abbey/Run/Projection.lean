import Abbey.Run.Store

/-!
# The readable side of the run ledger

`src/runtime/store/projection.rs`, and `run_snapshot` and
`run_events_page` of `src/runtime/store.rs`.

A stored event is projected onto the lifecycle contract by its kind.  The
kind `run_manager_stopped` alone does not name a state: it is read with
the state of the run, and only the latest event has one.
-/

namespace Abbey.Run

open Abbey.Lib

/-! ## One event -/

def lifecycleState : RunLifecycleEvent → RunState
  | .queued => .queued
  | .starting => .starting
  | .running => .running
  | .cancelRequested => .cancelRequested
  | .succeeded => .succeeded
  | .failed _ => .failed
  | .cancelled _ => .cancelled
  | .interrupted _ => .interrupted

/-- The message and the retry flag of each failure code. -/
def failureMessage : String → Option (String × Bool)
  | "worker_unavailable" => some ("run worker is unavailable", true)
  | "queue_full" => some ("bounded run queue is full", true)
  | "executor_failed" => some ("executor returned a failure", false)
  | "executor_unsupported" => some ("executor does not support this request", false)
  | "executor_spawn_failed" => some ("executor process failed to start", true)
  | "executor_timed_out" => some ("executor exceeded its deadline", true)
  | "executor_output_limit" => some ("executor output exceeded its limit", false)
  | "executor_provider_exit" => some ("executor process exited unsuccessfully", true)
  | "executor_teardown_failed" => some ("executor process teardown failed", false)
  | "executor_panicked" => some ("executor panicked", false)
  | _ => none

def projectFailure (payload : EventPayload) : Except StoreError RunFailure := do
  let code ← required (payload.asStr "code") (.corruptData "run failure code is missing")
  let (message, retryable) ← required (failureMessage code)
    (.corruptData "run failure code is invalid")
  ensure (payload.asStr "message" = some message)
    (.corruptData "run failure message is invalid")
  .ok ⟨code, message, retryable⟩

/-- The lifecycle fact that a kind and its payload name. -/
def projectKind (event : RunEvent) (currentState : Option RunState) :
    Except StoreError RunLifecycleEvent :=
  match event.kind with
  | "run_queued" => .ok .queued
  | "run_starting" => .ok .starting
  | "run_started" => .ok .running
  | "run_cancel_requested" => .ok .cancelRequested
  | "run_succeeded" => .ok .succeeded
  | "run_failed" => do
    let failure ← projectFailure event.payload
    .ok (.failed failure)
  | "run_cancelled" =>
    match event.payload.asStr "reason" with
    | none => .ok (.cancelled .requested)
    | some "requested" => .ok (.cancelled .requested)
    | some "manager_shutdown" => .ok (.cancelled .managerShutdown)
    | some _ => .error (.corruptData "run cancellation reason is invalid")
  | "run_manager_stopped" =>
    match currentState with
    | some .cancelled => .ok (.cancelled .managerShutdown)
    | some .interrupted => .ok (.interrupted .managerShutdown)
    | _ => .error (.corruptData "manager shutdown event does not match the run state")
  | "run_recovered_interrupted" =>
    if event.payload.asStr "reason" = some "daemon_restart" then
      .ok (.interrupted .daemonRestart)
    else .error (.corruptData "run interruption reason is invalid")
  | _ => .error (.corruptData "run event kind cannot cross the application boundary")

/-- `project_run_event`. -/
def projectRunEvent (event : RunEvent) (currentState : Option RunState) :
    Except StoreError RunEventRecord := do
  let projected ← projectKind event currentState
  ensure (currentState.all (fun state => decide (lifecycleState projected = state)))
    (.corruptData "latest run event does not match the run state")
  let record : RunEventRecord :=
    { runId := event.runId, sequence := event.sequence, recordedAt := event.createdAt
      event := projected }
  orElse record.validate (.corruptData "run event projection is invalid")
  .ok record

/-! ## Snapshots -/

/-- `checked_sub(1).filter(|sequence| *sequence > 0)`. -/
def eventWatermark (run : RunRecord) : Except StoreError Nat :=
  if 2 ≤ run.nextEventSequence then .ok (run.nextEventSequence - 1)
  else .error (.corruptData "run event watermark is missing")

/-- `validate_event_snapshot`: the sequences of a run are `1` to the
watermark. -/
def validateEventSnapshot (db : RunDb) (id : RunId) (currentWatermark : Nat) :
    Except StoreError Unit := do
  let sequences := (eventsOf db id).map RunEvent.sequence
  let expected ← sqlSequence currentWatermark
  ensure (sequences.length = expected && sequences.min? = some 1 &&
    sequences.max? = some expected)
    (.corruptData "run event snapshot contains a sequence gap")

/-- `project_run_snapshot`. -/
def projectRunSnapshot (db : RunDb) (run : RunRecord) : Except StoreError RunSnapshot := do
  let eventCount ← eventWatermark run
  validateEventSnapshot db run.id eventCount
  let latest ← required (db.runEvents.find (run.id, eventCount)) .database
  let latest ← projectRunEvent latest (some run.status)
  let failure := match latest.event with
    | .failed failure => some failure
    | _ => none
  let snapshot : RunSnapshot :=
    { runId := run.id, conversationId := run.conversationId
      idempotencyKey := run.idempotencyKey, state := run.status
      createdAt := run.createdAt, updatedAt := run.updatedAt, failure, eventCount }
  orElse snapshot.validate (.corruptData "run snapshot projection is invalid")
  .ok snapshot

/-- `run_snapshot`. -/
def runSnapshot (db : RunDb) (id : RunId) : Except StoreError (Option RunSnapshot) :=
  match runById db id with
  | none => .ok none
  | some run => do
    let snapshot ← projectRunSnapshot db run
    .ok (some snapshot)

/-! ## Pages -/

/-- `SELECT ... WHERE run_id=?1 AND sequence>?2 AND sequence<=?3 ORDER BY
sequence LIMIT ?4`. -/
def eventsBetween (db : RunDb) (id : RunId) (after through limit : Nat) : List RunEvent :=
  ((eventsOf db id).filter
    (fun event => after < event.sequence && event.sequence ≤ through)).take limit

/-- Project the events of a page.  Only the event at the watermark is read
with the state of the run. -/
def projectPage (status : RunState) (currentWatermark : Nat) :
    List RunEvent → Except StoreError (List RunEventRecord)
  | [] => .ok []
  | event :: rest => do
    let record ← projectRunEvent event
      (if event.sequence = currentWatermark then some status else none)
    let records ← projectPage status currentWatermark rest
    .ok (record :: records)

/-- `run_events_page`. -/
def runEventsPage (db : RunDb) (id : RunId) (afterSequence : Nat)
    (throughSequence : Option Nat) (limit : Nat) : Except StoreError RunEventPage := do
  ensure (1 ≤ limit && limit ≤ maxRunEventPage)
    (.invalidInput "run event page limit must be within 1..=16")
  ensure (!(0 < afterSequence && throughSequence.isNone))
    (.invalidInput "run event continuation requires a watermark")
  let run ← required (runById db id) (.runNotFound id)
  let currentWatermark ← eventWatermark run
  validateEventSnapshot db id currentWatermark
  let fixedWatermark := throughSequence.getD currentWatermark
  ensure (!(fixedWatermark = 0 || currentWatermark < fixedWatermark))
    (.invalidInput "run event watermark is missing or in the future")
  ensure (afterSequence ≤ fixedWatermark)
    (.invalidInput "run event cursor is missing or beyond the watermark")
  let afterSql ← sqlSequence afterSequence
  let watermarkSql ← sqlSequence fixedWatermark
  let events ← projectPage run.status currentWatermark
    (eventsBetween db id afterSql watermarkSql limit)
  let nextAfterSequence :=
    (events.getLast?.map RunEventRecord.sequence).getD afterSequence
  let page : RunEventPage :=
    { runId := id, events, afterSequence, nextAfterSequence
      throughSequence := fixedWatermark
      hasMore := nextAfterSequence < fixedWatermark }
  orElse page.validate (.corruptData "run event page projection is invalid")
  .ok page

end Abbey.Run
