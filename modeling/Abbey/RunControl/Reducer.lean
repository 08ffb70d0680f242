import Abbey.Daemon.Handler

/-!
# The lifecycle reducer of the run-control client

`src/run_control.rs`: a client feeds the answers of the daemon to one
`RunLifecycleReducer`.  The reducer keeps the latest snapshot, the latest
disposition and the event pages read so far, and refuses an answer that
does not continue them.

`apply` and its helpers keep the order of the checks of the source.
-/

namespace Abbey.RunControl

open Abbey.Lib Abbey.Run Abbey.Daemon

/-- `RunControlView`: what the reducer has accepted. -/
structure RunControlView where
  snapshot : Option RunSnapshot
  submission : Option RunSubmissionDisposition
  eventPages : List RunEventPage

def RunControlView.empty : RunControlView := ⟨none, none, []⟩

def RunControlView.runId (view : RunControlView) : Option RunId :=
  (view.snapshot.map RunSnapshot.runId).or (view.eventPages.head?.map RunEventPage.runId)

inductive RunControlError where
  | invalidCommand
  | invalidEvent
  | mismatchedResponse
  | mismatchedRun
  | snapshotRegression
  | paginationRegression
  | lifecycleRegression
  deriving DecidableEq

/-! ## Order of states and events -/

def snapshotStateCanFollow (previous next : RunState) : Bool :=
  if previous = next then true
  else
    match previous with
    | .queued => true
    | .starting => next ≠ .queued
    | .running => !(next = .queued || next = .starting)
    | .cancelRequested => next.isTerminal
    | .succeeded | .failed | .cancelled | .interrupted => false

def eventState : RunLifecycleEvent → RunState
  | .queued => .queued
  | .starting => .starting
  | .running => .running
  | .cancelRequested => .cancelRequested
  | .succeeded => .succeeded
  | .failed _ => .failed
  | .cancelled _ => .cancelled
  | .interrupted _ => .interrupted

/-- The loop of `validate_event_order`. -/
def validateTransitions : Option RunState → List RunEventRecord → Except RunControlError Unit
  | _, [] => .ok ()
  | previousState, record :: rest => do
    ensure (previousState.all (fun previous => previous.allows (eventState record.event)))
      .lifecycleRegression
    validateTransitions (some (eventState record.event)) rest

def validateEventOrder (previousPage : Option RunEventPage) (page : RunEventPage) :
    Except RunControlError Unit := do
  let previousEvent := previousPage.bind (fun previous => previous.events.getLast?)
  ensure (!(page.afterSequence = 0 &&
    page.events.head?.any (fun record => record.event ≠ .queued))) .lifecycleRegression
  validateTransitions (previousEvent.map (fun record => eventState record.event)) page.events

/-! ## The reducer -/

def bindRun (view : RunControlView) (runId : RunId) : Except RunControlError Unit :=
  ensure (!view.runId.any (fun current => current ≠ runId)) .mismatchedRun

/-- The snapshot does not continue the previous one. -/
def snapshotRegresses (previous snapshot : RunSnapshot) : Bool :=
  snapshot.eventCount < previous.eventCount ||
    snapshot.idempotencyKey ≠ previous.idempotencyKey ||
    snapshot.conversationId ≠ previous.conversationId ||
    snapshot.createdAt ≠ previous.createdAt ||
    (snapshot.state ≠ previous.state && snapshot.eventCount = previous.eventCount) ||
    (previous.state.isTerminal && snapshot ≠ previous) ||
    !snapshotStateCanFollow previous.state snapshot.state

def mergeSnapshot (view : RunControlView) (snapshot : RunSnapshot) :
    Except RunControlError RunControlView := do
  bindRun view snapshot.runId
  ensure (!view.snapshot.any (fun previous => snapshotRegresses previous snapshot))
    .snapshotRegression
  .ok { view with snapshot := some snapshot }

/-- The page does not continue the previous one. -/
def pageRegresses (query : RunEventsQuery) (page previous : RunEventPage) : Bool :=
  query.afterSequence ≠ previous.nextAfterSequence ||
    query.throughSequence ≠ some previous.throughSequence ||
    page.throughSequence ≠ previous.throughSequence || !previous.hasMore

def mergePage (view : RunControlView) (query : RunEventsQuery) (page : RunEventPage) :
    Except RunControlError RunControlView := do
  ensure (!(page.runId ≠ query.runId || page.afterSequence ≠ query.afterSequence ||
    query.throughSequence.any (fun through => through ≠ page.throughSequence) ||
    query.limit < page.events.length)) .mismatchedResponse
  bindRun view page.runId
  ensure (!view.eventPages.getLast?.any (pageRegresses query page)) .paginationRegression
  validateEventOrder view.eventPages.getLast? page
  .ok { view with eventPages := view.eventPages ++ [page] }

/-- `RunLifecycleReducer::apply`. -/
def apply (view : RunControlView) (command : AppCommand) (event : AppEvent) :
    Except RunControlError RunControlView := do
  orElse command.validate .invalidCommand
  orElse event.validate .invalidEvent
  match command, event with
  | .submitRun request, .runSubmitted submission => do
    ensure (!(submission.run.idempotencyKey ≠ request.idempotencyKey ||
      submission.run.conversationId ≠ request.conversationId)) .mismatchedResponse
    let merged ← mergeSnapshot view submission.run
    .ok { merged with submission := some submission.disposition }
  | .getRun runId, .runStatus snapshot | .cancelRun runId, .cancellationAcknowledged snapshot => do
    ensure (snapshot.runId = runId) .mismatchedResponse
    mergeSnapshot view snapshot
  | .runEvents query, .runEvents page => mergePage view query page
  | _, _ => .error .mismatchedResponse

/-- `next_events_command`. -/
def nextEventsCommand (view : RunControlView) (limit : Nat) :
    Except RunControlError (Option RunEventsQuery) :=
  if limit = 0 || maxRunEventPage < limit then .error .invalidCommand
  else
    match view.eventPages.getLast? with
    | none => .ok none
    | some page =>
      if page.hasMore then
        .ok (some { runId := page.runId, afterSequence := page.nextAfterSequence
                    throughSequence := some page.throughSequence, limit })
      else .ok none

/-! ## The two sides of the lifecycle -/

/-- The client reads the state of an event as the store projects it. -/
theorem eventState_eq (event : RunLifecycleEvent) : eventState event = lifecycleState event := by
  cases event <;> rfl

theorem eq_queued_of_eventState {event : RunLifecycleEvent} (h : eventState event = .queued) :
    event = .queued := by
  cases event <;> first
    | rfl
    | cases h

/-- A state that the graph reaches can follow. -/
theorem snapshotStateCanFollow_of_rank
    (hrank : previous.rank ≤ next.rank) (hterminal : previous.isTerminal → next = previous) :
    snapshotStateCanFollow previous next := by
  unfold snapshotStateCanFollow
  by_cases heq : previous = next
  · rw [if_pos heq]
  · rw [if_neg heq]
    cases previous <;> cases next <;> first
      | rfl
      | exact absurd rfl heq
      | exact absurd hrank (by decide)
      | exact absurd (hterminal rfl) (by decide)

end Abbey.RunControl
