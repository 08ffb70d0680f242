import Abbey.Run.Calls

/-!
# The run manager as a state machine

`src/runtime/manager.rs` and `src/runtime/manager/helpers.rs`: any number
of client threads in `submit`, `submit_v4`, `cancel` and `shutdown`, the
single worker, the bounded queue between them, the store, and crashes.

A thread is a program counter.  One step of a thread does one operation on
shared state: one call of the store, one critical section, one atomic load
or store, one channel operation.  `clientAct` and `workerAct` are the
control flow of the source: they read the machine and answer the `Effect`
of the step with the place the thread goes to.  `Machine.perform` is what
each effect does.

* A store call is an effect `write`, and the store after it is
  `StoreCall.apply`.  A read of the store is no effect.
* Two loads of flags that only rise, with nothing in between, are one step
  (`settleDecide`): every outcome of the two loads is an outcome of one
  load at a moment between them.
* `Env` holds what a step draws or reads: identifiers, clocks, the order
  in which a hash set is walked, and whether the database call fails.
* `history` records what clients, the executor and crashes did, newest
  first.  No step reads it.
-/

namespace Abbey.Manager

open Abbey.Lib Abbey.Run

/-! ## Requests and answers -/

/-- The hash functions of the two admissions: SHA-256 over the serialised
request, in hexadecimal. -/
structure Digests where
  canonicalRequestDigest : RunRequest → String
  submitDigest : V4SubmitTurn → String
  canonical_isDigest : ∀ request, isDigest (canonicalRequestDigest request) = true
  submit_isDigest : ∀ submit, isDigest (submitDigest submit) = true

inductive ManagerError where
  | invalidRequest (message : String)
  | shuttingDown
  | store (error : StoreError)
  | workerPanicked
  deriving DecidableEq

inductive SubmitDisposition where
  | enqueued
  | existing
  | queueFull
  deriving DecidableEq

structure SubmitResult where
  run : RunRecord
  disposition : SubmitDisposition
  deriving DecidableEq

inductive WorkPayload where
  | legacy (request : RunRequest)
  | v4 (request : V4SubmitTurn)

def WorkPayload.isV4 : WorkPayload → Bool
  | .legacy _ => false
  | .v4 _ => true

structure WorkItem where
  runId : RunId
  payload : WorkPayload

/-- The calls of a client. -/
inductive Operation where
  | submit (request : RunRequest)
  | submitV4 (request : V4SubmitTurn)
  | cancel (runId : RunId)
  | shutdown
  deriving DecidableEq

/-- What a call returns. -/
inductive Answer where
  | submitted (result : Except ManagerError SubmitResult)
  | turn (result : Except ManagerError V4TurnSubmission)
  | cancelled (result : Except ManagerError RunRecord)
  | shutdown (result : Except ManagerError Unit)
  deriving DecidableEq

/-- `ExecutionAttempt`: how an executor call ended. -/
inductive ExecutionAttempt where
  | completed
  | failed (kind : ExecutionErrorKind)
  | panicked

/-! ## Program counters -/

abbrev ClientId := Nat
abbrev Token := Nat

/-- What an admission found in the store before it enters the queue. -/
inductive Admission where
  | legacy (run : RunRecord) (request : RunRequest)
  | turn (submission : V4TurnSubmission) (request : V4SubmitTurn)

def Admission.runId : Admission → RunId
  | .legacy run _ => run.id
  | .turn submission _ => submission.runId

def Admission.item : Admission → WorkItem
  | .legacy run request => ⟨run.id, .legacy request⟩
  | .turn submission request => ⟨submission.runId, .v4 request⟩

/-- Why `enqueue` rejects an admission. -/
inductive Rejection where
  | unavailable
  | queueFull
  | disconnected

def Rejection.cause : Rejection → FailureCause
  | .queueFull => .queueFull
  | .unavailable | .disconnected => .workerUnavailable

inductive EnqueueOutcome where
  | enqueued
  | queueFull (failed : RunRecord)
  | failed (error : ManagerError)

def Rejection.outcome : Rejection → RunRecord → EnqueueOutcome
  | .queueFull, record => .queueFull record
  | .unavailable, _ | .disconnected, _ => .failed .shuttingDown

/-- The places of `interrupt_admitted`. -/
inductive InterruptPc where
  | collect
  | each (ids : List RunId)
  | write (record : RunRecord) (rest : List RunId)
  | clearActive

/-- The places of a client. -/
inductive ClientPc where
  -- submit
  | submitCheck (request : RunRequest)
  | submitConversation (request : RunRequest)
  | submitCreate (request : RunRequest)
  -- submit_v4
  | turnCheck (request : V4SubmitTurn)
  | turnAdmit (request : V4SubmitTurn)
  -- the admitted set and enqueue
  | insertAdmitted (admission : Admission)
  | cloneSender (admission : Admission)
  | trySend (admission : Admission)
  | rejectRead (admission : Admission) (why : Rejection) (fuel : Nat)
  | rejectWrite (admission : Admission) (why : Rejection) (fuel : Nat)
  | rejectReread (admission : Admission) (why : Rejection)
  | rejectActive (admission : Admission) (why : Rejection) (record : RunRecord)
  | rejectAdmitted (admission : Admission) (why : Rejection) (record : RunRecord)
  | leave (admission : Admission) (outcome : EnqueueOutcome)
  | turnFail (submission : V4TurnSubmission)
  | turnReceipt (submission : V4TurnSubmission)
  -- cancel
  | cancelRead (runId : RunId) (fuel : Nat)
  | cancelLookup (record : RunRecord) (fuel : Nat)
  | cancelSignal (record : RunRecord) (token : Token) (fuel : Nat)
  | cancelWrite (record : RunRecord) (fuel : Nat)
  | cancelReread (runId : RunId)
  -- shutdown
  | shutdownSwap
  | shutdownTokens
  | shutdownSender
  | shutdownTake
  | shutdownJoin
  | shutdownInterrupt (joinFailed : Bool) (pc : InterruptPc)
  | shutdownVerdict

/-- Where the worker goes after `finish_cancelled`. -/
inductive AfterCancel where
  | finishAdmission
  | finalize

/-- The places of the worker. -/
inductive WorkerPc where
  | recv
  | received (item : WorkItem)
  | cancelQueued (item : WorkItem)
  | start (item : WorkItem)
  | startConflict (item : WorkItem)
  | activate (item : WorkItem)
  | signal (item : WorkItem) (token : Token)
  | confirm (item : WorkItem) (token : Token)
  | checkToken (item : WorkItem) (token : Token) (status : RunState)
  | cancelToken (item : WorkItem) (token : Token)
  | run (item : WorkItem) (token : Token)
  | execute (item : WorkItem) (token : Token)
  | executing (item : WorkItem) (token : Token)
  | settle (item : WorkItem) (token : Token) (attempt : ExecutionAttempt) (fuel : Nat)
  | settleDecide (item : WorkItem) (token : Token) (attempt : ExecutionAttempt) (fuel : Nat)
      (status : RunState)
  | settleWrite (item : WorkItem) (token : Token) (attempt : ExecutionAttempt) (fuel : Nat)
      (status : RunState) (move : Move)
  | finalizeRead (item : WorkItem)
  | finalize (item : WorkItem) (state : RunState)
  | finishCancelled (item : WorkItem) (after : AfterCancel) (fuel : Nat)
  | cancelReason (item : WorkItem) (after : AfterCancel) (fuel : Nat) (status : RunState)
  | cancelRunning (item : WorkItem) (after : AfterCancel) (fuel : Nat) (status : RunState)
      (reason : CancellationReason)
  | finishActive (item : WorkItem)
  | finishAdmitted (item : WorkItem)
  -- the end of worker_entry after an error or a panic
  | failClose
  | failMark
  | failInterrupt (pc : InterruptPc)
  | exited (panicked : Bool)

/-! ## The machine -/

/-- What happened, for statements about whole executions. -/
inductive Observation where
  | called (client : ClientId) (op : Operation)
  | returned (client : ClientId) (op : Operation) (answer : Answer)
  | sent (runId : RunId)
  | executed (runId : RunId)
  | crashed
  deriving DecidableEq

/-- A call in progress. -/
structure Call where
  op : Operation
  pc : ClientPc

structure Machine where
  store : RunDb
  admitted : List RunId
  active : List (RunId × Token)
  nextToken : Token
  cancelled : List Token
  shuttingDown : Bool
  workerFailed : Bool
  sender : Bool
  clones : List ClientId
  queue : List WorkItem
  capacity : Nat
  joinHandle : Bool
  worker : WorkerPc
  clients : ClientId → Option Call
  history : List Observation

/-- `effective_queue_capacity`: clamped to `1..=32`. -/
def effectiveQueueCapacity (queueCapacity : Nat) : Nat := max 1 (min 32 queueCapacity)

/-- `RunManager::start` on an open store. -/
def Machine.start (store : RunDb) (queueCapacity : Nat) (history : List Observation) :
    Machine where
  store := store
  admitted := []
  active := []
  nextToken := 0
  cancelled := []
  shuttingDown := false
  workerFailed := false
  sender := true
  clones := []
  queue := []
  capacity := effectiveQueueCapacity queueCapacity
  joinHandle := true
  worker := .recv
  clients := fun _ => none
  history := history

/-- What a step draws and reads from outside the machine. -/
structure Env where
  now : Instant
  marker : Instant
  clockMs : UInt64
  runId : RunId
  messageId : Nat
  order : List RunId
  fault : Bool

/-! ## Effects -/

/-- One operation on shared state. -/
inductive Effect where
  | read
  | write (call : StoreCall)
  | insertAdmitted (runId : RunId)
  | removeAdmitted (runId : RunId)
  | activate (runId : RunId)
  | deactivate (runId : RunId)
  | signal (token : Token)
  | signalAll
  | close
  | markFailed
  | cloneSender (client : ClientId)
  | dropClone (client : ClientId)
  | dropSender
  | send (item : WorkItem)
  | receive
  | takeHandle
  | clearAdmitted
  | clearActive
  | execute (runId : RunId)

def Machine.perform (D : Digests) (m : Machine) : Effect → Machine
  | .read => m
  | .write call => { m with store := call.apply D.submitDigest m.store }
  | .insertAdmitted runId => { m with admitted := runId :: m.admitted }
  | .removeAdmitted runId =>
    { m with admitted := m.admitted.filter (fun id => id ≠ runId) }
  | .activate runId =>
    { m with
      active := (runId, m.nextToken) :: m.active.filter (fun entry => entry.1 ≠ runId)
      nextToken := m.nextToken + 1 }
  | .deactivate runId => { m with active := m.active.filter (fun entry => entry.1 ≠ runId) }
  | .signal token => { m with cancelled := token :: m.cancelled }
  | .signalAll => { m with cancelled := m.active.map Prod.snd ++ m.cancelled }
  | .close => { m with shuttingDown := true }
  | .markFailed => { m with workerFailed := true }
  | .cloneSender client => { m with clones := client :: m.clones }
  | .dropClone client => { m with clones := m.clones.filter (fun c => c ≠ client) }
  | .dropSender => { m with sender := false }
  | .send item =>
    { m with queue := m.queue ++ [item], history := .sent item.runId :: m.history }
  | .receive => { m with queue := m.queue.tail }
  | .takeHandle => { m with joinHandle := false }
  | .clearAdmitted => { m with admitted := [] }
  | .clearActive => { m with active := [] }
  | .execute runId => { m with history := .executed runId :: m.history }

/-! ## Moves of the lifecycle -/

def startingMove : Move := ⟨.starting, .starting, rfl⟩
def runningMove : Move := ⟨.started, .running, rfl⟩
def cancelRequestedMove : Move := ⟨.cancelRequested, .cancelRequested, rfl⟩
def succeededMove : Move := ⟨.succeeded, .succeeded, rfl⟩
def failedMove (cause : FailureCause) : Move := ⟨.failed cause, .failed, rfl⟩
def unadoptedMove : Move := ⟨.unadopted, .failed, rfl⟩
def cancelledMove (reason : CancellationReason) : Move := ⟨.cancelled reason, .cancelled, rfl⟩

/-- The move of `interrupt_admitted`, none for a terminal run. -/
def stoppedMove : RunState → Option Move
  | .queued => some ⟨.stopped, .cancelled, rfl⟩
  | .starting | .running | .cancelRequested => some ⟨.stopped, .interrupted, rfl⟩
  | .succeeded | .failed | .cancelled | .interrupted => none

/-- `transition_run` with the readings of a step. -/
def Env.transition (env : Env) (runId : RunId) (expected : RunState) (move : Move) : StoreCall :=
  .transition runId expected move env.clockMs env.now env.marker

/-- The answer of a store call. -/
def Env.outcome (env : Env) (D : Digests) (m : Machine) (call : StoreCall) :
    Except StoreError Unit :=
  if env.fault then .error .database
  else (call.commit D.submitDigest m.store).map (fun _ => ())

/-- The effect of a store call: a call that fails writes nothing. -/
def Env.effect (env : Env) (call : StoreCall) : Effect :=
  if env.fault then .read else .write call

/-- `get_run` where a missing run is an error. -/
def Env.getRun (env : Env) (m : Machine) (runId : RunId) : Except StoreError RunRecord :=
  if env.fault then .error .database
  else required (Run.getRun m.store runId) (.runNotFound runId)

/-! ## interrupt_admitted -/

/-- The next place of `interrupt_admitted`, or its result. -/
inductive InterruptNext where
  | goto (pc : InterruptPc)
  | done (result : Except StoreError Unit)

def interruptAct (D : Digests) (m : Machine) (env : Env) :
    InterruptPc → Option (Effect × InterruptNext)
  | .collect =>
    if env.order.isPerm m.admitted then some (.read, .goto (.each env.order)) else none
  | .each [] => some (.clearAdmitted, .goto .clearActive)
  | .each (id :: rest) =>
    if env.fault then some (.read, .done (.error .database))
    else
      match Run.getRun m.store id with
      | none => some (.read, .goto (.each rest))
      | some record =>
        match stoppedMove record.status with
        | none => some (.read, .goto (.each rest))
        | some _ => some (.read, .goto (.write record rest))
  | .write record rest =>
    match stoppedMove record.status with
    | none => some (.read, .goto (.each rest))
    | some move =>
      match env.outcome D m (env.transition record.id record.status move) with
      | .ok _ => some (env.effect (env.transition record.id record.status move),
          .goto (.each rest))
      | .error error => some (.read, .done (.error error))
  | .clearActive => some (.clearActive, .done (.ok ()))

/-! ## Clients -/

/-- The next place of a client, or the answer of its call. -/
inductive ClientNext where
  | goto (pc : ClientPc)
  | done (answer : Answer)

/-- The run that a request asks for. -/
def newRunOf (D : Digests) (request : RunRequest) : NewRun where
  conversationId := request.conversationId
  idempotencyKey := request.idempotencyKey
  requestDigest := D.canonicalRequestDigest request

/-- A submission whose run is already admitted. -/
def Admission.existing : Admission → Answer
  | .legacy run _ => .submitted (.ok ⟨run, .existing⟩)
  | .turn submission _ => .turn (.ok submission)

/-- The end of `enqueue`: what `submit` and `submit_v4` do with its result. -/
def Admission.settled : Admission → EnqueueOutcome → ClientNext
  | .legacy run _, .enqueued => .done (.submitted (.ok ⟨run, .enqueued⟩))
  | .legacy _ _, .queueFull failed => .done (.submitted (.ok ⟨failed, .queueFull⟩))
  | .legacy _ _, .failed error => .done (.submitted (.error error))
  | .turn submission _, .enqueued => .done (.turn (.ok submission))
  | .turn submission _, .queueFull _ => .goto (.turnFail submission)
  | .turn _ _, .failed error => .done (.turn (.error error))

/-- The transition of `cancel` for a run that is not terminal, none where
the request is already recorded. -/
def cancelMove : RunState → Option Move
  | .queued => some (cancelledMove .requested)
  | .starting | .running => some cancelRequestedMove
  | .cancelRequested | .succeeded | .failed | .cancelled | .interrupted => none

/-- The number of times that a compare-and-set is tried. -/
def maxAttempts : Nat := 8

/-- The operation of a client on shared state, and where it goes. -/
def clientAct (D : Digests) (m : Machine) (c : ClientId) (env : Env) :
    ClientPc → Option (Effect × ClientNext)
  | .submitCheck request =>
    if m.shuttingDown then some (.read, .done (.submitted (.error .shuttingDown)))
    else
      match request.validate with
      | .error error =>
        some (.read, .done (.submitted (.error (.invalidRequest error.message))))
      | .ok _ =>
        if request.conversationId.isSome then
          some (.read, .goto (.submitConversation request))
        else some (.read, .goto (.submitCreate request))
  | .submitConversation request =>
    match request.conversationId with
    | none => some (.read, .goto (.submitCreate request))
    | some id =>
      if env.fault then some (.read, .done (.submitted (.error (.store .database))))
      else some (.write (.createConversation id), .goto (.submitCreate request))
  | .submitCreate request =>
    if env.fault then some (.read, .done (.submitted (.error (.store .database))))
    else
      match createOrGetRun m.store (newRunOf D request) env.runId env.now with
      | .error error => some (.read, .done (.submitted (.error (.store error))))
      | .ok (_, run) =>
        some (.write (.createOrGetRun (newRunOf D request) env.runId env.now),
          if run.status = .queued then .goto (.insertAdmitted (.legacy run request))
          else .done (.submitted (.ok ⟨run, .existing⟩)))
  | .turnCheck request =>
    if m.shuttingDown then some (.read, .done (.turn (.error .shuttingDown)))
    else
      match request.validate with
      | .error error => some (.read, .done (.turn (.error (.invalidRequest error.message))))
      | .ok _ => some (.read, .goto (.turnAdmit request))
  | .turnAdmit request =>
    if env.fault then some (.read, .done (.turn (.error (.store .database))))
    else
      match v4AdmitTurn D.submitDigest m.store request env.clockMs.toNat env.runId
          env.messageId with
      | .error error => some (.read, .done (.turn (.error (.store error))))
      | .ok (_, submission) =>
        some (.write (.admitTurn request env.clockMs.toNat env.runId env.messageId),
          if submission.duplicate || submission.state ≠ .queued then
            .done (.turn (.ok submission))
          else .goto (.insertAdmitted (.turn submission request)))
  | .insertAdmitted admission =>
    if admission.runId ∈ m.admitted then some (.read, .done admission.existing)
    else some (.insertAdmitted admission.runId, .goto (.cloneSender admission))
  | .cloneSender admission =>
    if m.sender then some (.cloneSender c, .goto (.trySend admission))
    else some (.read, .goto (.rejectRead admission .unavailable maxAttempts))
  | .trySend admission =>
    match m.worker with
    | .exited _ => some (.read, .goto (.rejectRead admission .disconnected maxAttempts))
    | _ =>
      if m.queue.length < m.capacity then
        some (.send admission.item, .goto (.leave admission .enqueued))
      else some (.read, .goto (.rejectRead admission .queueFull maxAttempts))
  | .rejectRead admission _ 0 =>
    some (.read, .goto (.leave admission (.failed (.store
      (.corruptData "rejected admission did not converge")))))
  | .rejectRead admission why (fuel + 1) =>
    match env.getRun m admission.runId with
    | .error error => some (.read, .goto (.leave admission (.failed (.store error))))
    | .ok record =>
      if record.status.isTerminal then
        some (.read, .goto (.rejectActive admission why record))
      else if record.status ≠ .queued then
        some (.read, .goto (.leave admission (.failed (.store
          (.unexpectedStatus .queued record.status)))))
      else some (.read, .goto (.rejectWrite admission why fuel))
  | .rejectWrite admission why fuel =>
    match env.outcome D m (env.transition admission.runId .queued (failedMove why.cause)) with
    | .ok _ => some (env.effect (env.transition admission.runId .queued
        (failedMove why.cause)), .goto (.rejectReread admission why))
    | .error (.unexpectedStatus _ _) => some (.read, .goto (.rejectRead admission why fuel))
    | .error error => some (.read, .goto (.leave admission (.failed (.store error))))
  | .rejectReread admission why =>
    match env.getRun m admission.runId with
    | .error error => some (.read, .goto (.leave admission (.failed (.store error))))
    | .ok record => some (.read, .goto (.rejectActive admission why record))
  | .rejectActive admission why record =>
    some (.deactivate admission.runId, .goto (.rejectAdmitted admission why record))
  | .rejectAdmitted admission why record =>
    some (.removeAdmitted admission.runId, .goto (.leave admission (why.outcome record)))
  | .leave admission outcome => some (.dropClone c, admission.settled outcome)
  | .turnFail submission =>
    match env.outcome D m (env.transition submission.runId .queued unadoptedMove) with
    | .ok _ => some (env.effect (env.transition submission.runId .queued unadoptedMove),
        .goto (.turnReceipt submission))
    | .error (.unexpectedStatus _ _) | .error (.terminalRun _) =>
      some (.read, .goto (.turnReceipt submission))
    | .error error => some (.read, .done (.turn (.error (.store error))))
  | .turnReceipt submission =>
    if env.fault then some (.read, .done (.turn (.error (.store .database))))
    else
      match submissionFor m.store submission.runId with
      | .error error => some (.read, .done (.turn (.error (.store error))))
      | .ok receipt => some (.read, .done (.turn (.ok receipt)))
  | .cancelRead _ 0 =>
    some (.read, .done (.cancelled (.error (.store
      (.corruptData "cancellation transition did not converge")))))
  | .cancelRead runId (fuel + 1) =>
    match env.getRun m runId with
    | .error error => some (.read, .done (.cancelled (.error (.store error))))
    | .ok record =>
      if record.status.isTerminal then some (.read, .done (.cancelled (.ok record)))
      else some (.read, .goto (.cancelLookup record fuel))
  | .cancelLookup record fuel =>
    match m.active.lookup record.id with
    | some token => some (.read, .goto (.cancelSignal record token fuel))
    | none => some (.read, .goto (.cancelWrite record fuel))
  | .cancelSignal record token fuel =>
    some (.signal token, .goto (.cancelWrite record fuel))
  | .cancelWrite record fuel =>
    match cancelMove record.status with
    | none => some (.read, .done (.cancelled (.ok record)))
    | some move =>
      match env.outcome D m (env.transition record.id record.status move) with
      | .ok _ => some (env.effect (env.transition record.id record.status move),
          .goto (.cancelReread record.id))
      | .error (.unexpectedStatus _ _) => some (.read, .goto (.cancelRead record.id fuel))
      | .error error => some (.read, .done (.cancelled (.error (.store error))))
  | .cancelReread runId =>
    match env.getRun m runId with
    | .error error => some (.read, .done (.cancelled (.error (.store error))))
    | .ok record => some (.read, .done (.cancelled (.ok record)))
  | .shutdownSwap =>
    some (.close, .goto (if m.shuttingDown then .shutdownTake else .shutdownTokens))
  | .shutdownTokens => some (.signalAll, .goto .shutdownSender)
  | .shutdownSender => some (.dropSender, .goto .shutdownTake)
  | .shutdownTake =>
    some (.takeHandle, .goto (if m.joinHandle then .shutdownJoin
      else .shutdownInterrupt false .collect))
  | .shutdownJoin =>
    match m.worker with
    | .exited panicked => some (.read, .goto (.shutdownInterrupt panicked .collect))
    | _ => none
  | .shutdownInterrupt joinFailed pc =>
    match interruptAct D m env pc with
    | none => none
    | some (effect, .goto pc') => some (effect, .goto (.shutdownInterrupt joinFailed pc'))
    | some (effect, .done result) =>
      if joinFailed then some (effect, .done (.shutdown (.error .workerPanicked)))
      else
        match result with
        | .error error => some (effect, .done (.shutdown (.error (.store error))))
        | .ok _ => some (effect, .goto .shutdownVerdict)
  | .shutdownVerdict =>
    some (.read, .done (.shutdown
      (if m.workerFailed then .error .workerPanicked else .ok ())))

/-! ## The worker -/

/-- `finalize_v4_turn` accepts a missing assistant record. -/
def finalized : Except StoreError Unit → Bool
  | .ok _ | .error .assistantNotFound => true
  | .error _ => false

/-- The place after a cancelled run: a turn is finalised first. -/
def WorkItem.afterCancel (item : WorkItem) : AfterCancel :=
  if item.payload.isV4 then .finalize else .finishAdmission

/-- `cancellation_reason`. -/
def cancellationReason (shuttingDown : Bool) (status : RunState) : CancellationReason :=
  if shuttingDown && status ≠ .cancelRequested then .managerShutdown else .requested

/-- The terminal transition of `settle_attempt`. -/
def settledMove (m : Machine) (token : Token) (attempt : ExecutionAttempt)
    (status : RunState) : Move :=
  match attempt with
  | .failed kind => failedMove (.execution kind)
  | .panicked => failedMove .panicked
  | .completed =>
    if token ∈ m.cancelled || status = .cancelRequested || m.shuttingDown then
      cancelledMove (cancellationReason m.shuttingDown status)
    else succeededMove

/-- The operation of the worker on shared state, and where it goes.  Every
error leads to `failClose`. -/
def workerAct (D : Digests) (m : Machine) (env : Env) :
    WorkerPc → Option (Effect × WorkerPc)
  | .recv =>
    match m.queue with
    | item :: _ => some (.receive, .received item)
    | [] =>
      -- every sender is gone, so the loop ends; otherwise the worker waits
      if !m.sender && m.clones.isEmpty then some (.read, .exited false) else none
  | .received item =>
    some (.read, if m.shuttingDown then .cancelQueued item else .start item)
  | .cancelQueued item =>
    match env.outcome D m (env.transition item.runId .queued (cancelledMove .managerShutdown)) with
    | .ok _ => some (env.effect (env.transition item.runId .queued
        (cancelledMove .managerShutdown)), .finishActive item)
    | .error (.terminalRun _) => some (.read, .finishActive item)
    | .error (.unexpectedStatus _ _) =>
      some (.read, .finishCancelled item .finishAdmission maxAttempts)
    | .error _ => some (.read, .failClose)
  | .start item =>
    match env.outcome D m (env.transition item.runId .queued startingMove) with
    | .ok _ => some (env.effect (env.transition item.runId .queued startingMove),
        .activate item)
    | .error (.unexpectedStatus _ _) | .error (.terminalRun _) =>
      some (.read, .startConflict item)
    | .error _ => some (.read, .failClose)
  | .startConflict item =>
    match env.getRun m item.runId with
    | .error _ => some (.read, .failClose)
    | .ok record =>
      if record.status.isTerminal then some (.read, .finishActive item)
      else if record.status = .cancelRequested then
        some (.read, .finishCancelled item .finishAdmission maxAttempts)
      else some (.read, .failClose)
  | .activate item => some (.activate item.runId, .signal item m.nextToken)
  | .signal item token =>
    some (if m.shuttingDown then .signal token else .read, .confirm item token)
  | .confirm item token =>
    match env.getRun m item.runId with
    | .error _ => some (.read, .failClose)
    | .ok record => some (.read, .checkToken item token record.status)
  | .checkToken item token status =>
    some (.read, if status = .cancelRequested || token ∈ m.cancelled then
      .cancelToken item token else .run item token)
  | .cancelToken item token =>
    some (.signal token, .finishCancelled item item.afterCancel maxAttempts)
  | .run item token =>
    match env.outcome D m (env.transition item.runId .starting runningMove) with
    | .ok _ => some (env.effect (env.transition item.runId .starting runningMove),
        .execute item token)
    | .error (.unexpectedStatus _ _) => some (.read, .cancelToken item token)
    | .error _ => some (.read, .failClose)
  | .execute item token => some (.execute item.runId, .executing item token)
  | .executing _ _ => none
  | .settle _ _ _ 0 => some (.read, .failClose)
  | .settle item token attempt (fuel + 1) =>
    match env.getRun m item.runId with
    | .error _ => some (.read, .failClose)
    | .ok record =>
      if record.status.isTerminal then
        some (.read, if item.payload.isV4 then .finalizeRead item else .finishActive item)
      else some (.read, .settleDecide item token attempt fuel record.status)
  | .settleDecide item token attempt fuel status =>
    some (.read, .settleWrite item token attempt fuel status
      (settledMove m token attempt status))
  | .settleWrite item token attempt fuel status move =>
    match env.outcome D m (env.transition item.runId status move) with
    | .ok _ => some (env.effect (env.transition item.runId status move),
        if item.payload.isV4 then .finalizeRead item else .finishActive item)
    | .error (.unexpectedStatus _ _) => some (.read, .settle item token attempt fuel)
    | .error _ => some (.read, .failClose)
  | .finalizeRead item =>
    if env.fault then some (.read, .failClose)
    else
      match Run.getRun m.store item.runId with
      | none => some (.read, .finalize item .failed)
      | some record =>
        some (.read, if record.status.isTerminal then .finalize item record.status
          else .finishActive item)
  | .finalize item state =>
    if finalized (env.outcome D m (.finalizeTurn item.runId state)) then
      some (env.effect (.finalizeTurn item.runId state), .finishActive item)
    else some (.read, .failClose)
  | .finishCancelled _ _ 0 => some (.read, .failClose)
  | .finishCancelled item after (fuel + 1) =>
    match env.getRun m item.runId with
    | .error _ => some (.read, .failClose)
    | .ok record =>
      if record.status.isTerminal then
        some (.read, match after with
          | .finalize => .finalize item .cancelled
          | .finishAdmission => .finishActive item)
      else some (.read, .cancelReason item after fuel record.status)
  | .cancelReason item after fuel status =>
    some (.read, .cancelRunning item after fuel status
      (cancellationReason m.shuttingDown status))
  | .cancelRunning item after fuel status reason =>
    match env.outcome D m (env.transition item.runId status (cancelledMove reason)) with
    | .ok _ => some (env.effect (env.transition item.runId status (cancelledMove reason)),
        match after with
        | .finalize => .finalize item .cancelled
        | .finishAdmission => .finishActive item)
    | .error (.unexpectedStatus _ _) => some (.read, .finishCancelled item after fuel)
    | .error _ => some (.read, .failClose)
  | .finishActive item => some (.deactivate item.runId, .finishAdmitted item)
  | .finishAdmitted item => some (.removeAdmitted item.runId, .recv)
  | .failClose => some (.close, .failMark)
  | .failMark => some (.markFailed, .failInterrupt .collect)
  | .failInterrupt pc =>
    match interruptAct D m env pc with
    | none => none
    | some (effect, .goto pc') => some (effect, .failInterrupt pc')
    | some (effect, .done _) => some (effect, .exited false)
  | .exited _ => none

/-! ## Steps -/

inductive Label where
  | call (client : ClientId) (op : Operation)
  | client (client : ClientId) (env : Env)
  | worker (env : Env)
  | attempt (attempt : ExecutionAttempt)
  | content (payload : V4ContentPayload) (nowMs messageId : Nat)
  | workerPanic
  | createConversation (id : ConversationId) (title : String) (nowMs : Nat)
  | deleteConversation (id : ConversationId) (nowMs : Nat)
  | crash (now : Instant) (marker : RunId → Instant) (queueCapacity : Nat)

/-- The first place of a call. -/
def Operation.entry : Operation → ClientPc
  | .submit request => .submitCheck request
  | .submitV4 request => .turnCheck request
  | .cancel runId => .cancelRead runId maxAttempts
  | .shutdown => .shutdownSwap

def Machine.setClient (m : Machine) (c : ClientId) (call : Option Call) : Machine :=
  { m with clients := Function.update m.clients c call }

def Machine.observe (m : Machine) (observation : Observation) : Machine :=
  { m with history := observation :: m.history }

/-- A client after one operation. -/
def Machine.resume (m : Machine) (c : ClientId) (op : Operation) : ClientNext → Machine
  | .goto pc => m.setClient c (some ⟨op, pc⟩)
  | .done answer => (m.setClient c none).observe (.returned c op answer)

def step (D : Digests) (m : Machine) : Label → Option Machine
  | .call c op =>
    match m.clients c with
    | some _ => none
    | none => some ((m.setClient c (some ⟨op, op.entry⟩)).observe (.called c op))
  | .client c env =>
    match m.clients c with
    | none => none
    | some call =>
      match clientAct D m c env call.pc with
      | none => none
      | some (effect, next) => some ((m.perform D effect).resume c call.op next)
  | .worker env =>
    match workerAct D m env m.worker with
    | none => none
    | some (effect, pc) => some { m.perform D effect with worker := pc }
  | .attempt attempt =>
    match m.worker with
    | .executing item token => some { m with worker := .settle item token attempt maxAttempts }
    | _ => none
  | .content payload nowMs messageId =>
    match m.worker with
    | .executing item _ =>
      if item.payload.isV4 then
        some (m.perform D (.write (.appendContent item.runId payload nowMs messageId)))
      else none
    | _ => none
  | .workerPanic =>
    match m.worker with
    | .failInterrupt _ => some { m with worker := .exited true }
    | _ => none
  | .createConversation id title nowMs =>
    some (m.perform D (.write (.createAssistantConversation id title nowMs)))
  | .deleteConversation id nowMs =>
    some (m.perform D (.write (.deleteAssistantConversation id nowMs)))
  | .crash now marker queueCapacity =>
    match recoverInterruptedOn m.store now marker with
    | .error _ => none
    | .ok (store, _) => some (Machine.start store queueCapacity (.crashed :: m.history))

/-- The first machine: an empty store and a new manager. -/
def Machine.initial (queueCapacity : Nat) : Machine := .start .empty queueCapacity []

/-! ## Sample requests -/

def sampleRequest : RunRequest where
  idempotencyKey := ⟨"k", by decide⟩
  conversationId := none
  mode := .interactive
  backend := .cursor
  input := "hello"
  labels := []

/-- Another request under the key of the sample. -/
def rivalRequest : RunRequest := { sampleRequest with conversationId := some ⟨7⟩ }

/-- The sample under another key. -/
def secondRequest : RunRequest := { sampleRequest with idempotencyKey := ⟨"l", by decide⟩ }

def sampleTurn : V4SubmitTurn where
  conversationId := ⟨7⟩
  idempotencyKey := ⟨"k", by decide⟩
  routeId := "local"
  input := "hello"

/-- SHA-256 at the samples, and the digest of the empty text elsewhere. -/
def sampleDigests : Digests where
  canonicalRequestDigest request :=
    if request = sampleRequest then
      "42845a1375c53cc871dd60346db3a0d5a3cfa4c78a15ac4362aa8481043f2473"
    else if request = rivalRequest then
      "6e32a56898b5f8e5e134b452c6a3e5235ebd40c11976256179323316ca33f39c"
    else if request = secondRequest then
      "240ed23631552f11d2fba55040e0954fe34bc0993af299c9aa2a602d1fbb4f27"
    else "e3b0c44298fc1c149afbf4c8996fb92427ae41e4649b934ca495991b7852b855"
  submitDigest submit :=
    if submit = sampleTurn then
      "1a808d351a733a99da51a5db91f09d8eb1d72e21c762e2dcca0beb4366437028"
    else "e3b0c44298fc1c149afbf4c8996fb92427ae41e4649b934ca495991b7852b855"
  canonical_isDigest request := by split_ifs <;> decide +kernel
  submit_isDigest submit := by split_ifs <;> decide +kernel

/-- The readings of a step at 5 ms that draws one number for every
identifier. -/
def sampleEnv (drawn : Nat) : Env where
  now := ⟨5, by decide⟩
  marker := ⟨5, by decide⟩
  clockMs := 5
  runId := ⟨drawn⟩
  messageId := drawn
  order := []
  fault := false

end Abbey.Manager
