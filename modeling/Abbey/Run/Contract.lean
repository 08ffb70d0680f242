import Mathlib.Tactic.Common
import Abbey.Lib.Checked

/-!
# The run-lifecycle contract

`src/app_core/run.rs` and `src/app_core/ids.rs`: the identifiers, the
lifecycle graph, and the validated records that cross the application
boundary.  Nothing here reads a store.

Every `validate` method keeps the order of its checks and the text of its
errors.  A check is one `ensure` line.

## Time

The store writes `Utc::now()` as RFC 3339 text with milliseconds.  The
text is kept as the instant it names, and equality of texts is equality of
instants.  `Instant` holds the range that the time library can represent
at or after the Unix epoch; `Utc::now()` does not return outside it.
`parseTimestamp` accepts four-digit years only, because the text of a
later year carries a sign that RFC 3339 does not have.
-/

namespace Abbey.Run

open Abbey.Lib

/-! ## Validation -/

/-- `ValidationError`: the fixed text of a rejected record. -/
structure ValidationError where
  message : String
  deriving DecidableEq

/-- `char::is_control`: the Unicode category Cc. -/
def isControl (c : Char) : Bool :=
  c.toNat < 0x20 || (0x7f ≤ c.toNat && c.toNat ≤ 0x9f)

/-- `char::is_whitespace`: the Unicode property White_Space. -/
def isWhitespace (c : Char) : Bool :=
  let n := c.toNat
  (0x09 ≤ n && n ≤ 0x0d) || n = 0x20 || n = 0x85 || n = 0xa0 || n = 0x1680 ||
    (0x2000 ≤ n && n ≤ 0x200a) || n = 0x2028 || n = 0x2029 || n = 0x202f ||
    n = 0x205f || n = 0x3000

/-- The bytes of an identifier: ASCII letters and digits and `-_.:`. -/
def isIdentifierChar (c : Char) : Bool :=
  c.isAlphanum || c = '-' || c = '_' || c = '.' || c = ':'

def isIdentifier (value : String) (maxBytes : Nat) : Bool :=
  !value.isEmpty && value.utf8ByteSize ≤ maxBytes && value.toList.all isIdentifierChar

def validateIdentifier (value : String) (maxBytes : Nat) (message : String) :
    Except ValidationError Unit :=
  ensure (isIdentifier value maxBytes) ⟨message⟩

def validateText (value : String) (maxBytes : Nat) (message : String) :
    Except ValidationError Unit :=
  ensure (!value.toList.all isWhitespace && value.utf8ByteSize ≤ maxBytes &&
    !value.toList.any
      (fun c => isControl c && !(c = '\n' || c = '\r' || c = '\t'))) ⟨message⟩

/-! ## Identifiers -/

/-- `RunId`: a canonical UUID. -/
structure RunId where
  uuid : Nat
  deriving DecidableEq

/-- `ConversationId`: a canonical UUID. -/
structure ConversationId where
  uuid : Nat
  deriving DecidableEq

def maxIdempotencyKeyBytes : Nat := 128

/-- `IdempotencyKey`: caller-provided retry identity.  `FromStr` is the
only way to build one, so the text is a valid identifier. -/
structure IdempotencyKey where
  value : String
  valid : isIdentifier value maxIdempotencyKeyBytes = true
  deriving DecidableEq

/-! ## Time -/

/-- The last millisecond of the year 262142, where the time library ends. -/
def chronoMaxMs : Nat := 8210266876799999

/-- The last millisecond of the year 9999, where RFC 3339 ends. -/
def maxRfc3339Ms : Nat := 253402300799999

/-- An instant at or after the Unix epoch that the time library can
represent, in milliseconds. -/
structure Instant where
  ms : Nat
  representable : ms ≤ chronoMaxMs
  deriving DecidableEq

def parseTimestamp (value : Instant) : Except ValidationError Nat :=
  if value.ms ≤ maxRfc3339Ms then .ok value.ms
  else .error ⟨"invalid RFC 3339 timestamp"⟩

@[simp] theorem parseTimestamp_eq_ok :
    parseTimestamp value = .ok n ↔ value.ms ≤ maxRfc3339Ms ∧ value.ms = n := by
  unfold parseTimestamp
  split_ifs with h <;> simp [h]

/-! ## The lifecycle graph -/

/-- `RunState`: durable lifecycle state of one run. -/
inductive RunState where
  | queued
  | starting
  | running
  | cancelRequested
  | succeeded
  | failed
  | cancelled
  | interrupted
  deriving DecidableEq

namespace RunState

def isTerminal : RunState → Bool
  | succeeded | failed | cancelled | interrupted => true
  | queued | starting | running | cancelRequested => false

/-- The edges of the lifecycle graph. -/
def allows : RunState → RunState → Bool
  | queued, starting | queued, cancelRequested | queued, cancelled
  | queued, failed | queued, interrupted => true
  | queued, _ => false
  | starting, running | starting, cancelRequested | starting, cancelled
  | starting, failed | starting, interrupted => true
  | starting, _ => false
  | running, cancelRequested | running, succeeded | running, failed
  | running, cancelled | running, interrupted => true
  | running, _ => false
  | cancelRequested, succeeded | cancelRequested, failed
  | cancelRequested, cancelled | cancelRequested, interrupted => true
  | cancelRequested, _ => false
  | succeeded, _ | failed, _ | cancelled, _ | interrupted, _ => false

/-- The position of a state on its way to a terminal state.  Every edge of
the graph goes up, so a run takes at most four transitions. -/
def rank : RunState → Nat
  | queued => 0
  | starting => 1
  | running => 2
  | cancelRequested => 3
  | succeeded | failed | cancelled | interrupted => 4

variable {s t : RunState}

theorem rank_lt_of_allows (h : s.allows t) : s.rank < t.rank := by
  cases s <;> cases t <;> first | exact absurd h (by decide) | decide

theorem not_allows_of_isTerminal (h : s.isTerminal) :
    s.allows t = false := by
  cases s <;> first | exact absurd h (by decide) | rfl

theorem not_isTerminal_of_allows (h : s.allows t) :
    s.isTerminal = false := by
  cases hs : s.isTerminal with
  | false => rfl
  | true =>
    rw [not_allows_of_isTerminal hs] at h
    cases h

theorem rank_le_four (s : RunState) : s.rank ≤ 4 := by
  cases s <;> decide

end RunState

/-! ## Requests -/

inductive RunMode where
  | interactive
  | oneShot
  | background
  | automation
  deriving DecidableEq

inductive BackendSelection where
  | cursor
  | abi
  | foundationModels
  | grok
  deriving DecidableEq

def maxInputBytes : Nat := 32 * 1024
def maxLabels : Nat := 16
def maxLabelBytes : Nat := 64

structure RunRequest where
  idempotencyKey : IdempotencyKey
  conversationId : Option ConversationId
  mode : RunMode
  backend : BackendSelection
  input : String
  labels : List String
  deriving DecidableEq

def RunRequest.validate (request : RunRequest) : Except ValidationError Unit := do
  validateText request.input maxInputBytes "invalid run input"
  ensure (request.labels.length ≤ maxLabels) ⟨"run request has too many labels"⟩
  request.labels.forM
    (fun label => validateIdentifier label maxLabelBytes "invalid run label")

def maxRunEventPage : Nat := 16

/-- `RunEventsQuery`: a bounded query over one run's event ledger. -/
structure RunEventsQuery where
  runId : RunId
  afterSequence : Nat
  throughSequence : Option Nat
  limit : Nat
  deriving DecidableEq

def RunEventsQuery.validate (query : RunEventsQuery) :
    Except ValidationError Unit := do
  ensure (query.limit ≠ 0 && query.limit ≤ maxRunEventPage)
    ⟨"run event page limit must be from 1 through 16"⟩
  ensure (!query.throughSequence.any (fun through => through < query.afterSequence))
    ⟨"run event cursor exceeds its snapshot watermark"⟩

/-! ## Snapshots and events -/

def maxFailureCodeBytes : Nat := 64
def maxFailureMessageBytes : Nat := 2048

/-- `RunFailure`: stable failure data. -/
structure RunFailure where
  code : String
  message : String
  retryable : Bool
  deriving DecidableEq

def RunFailure.validate (failure : RunFailure) : Except ValidationError Unit := do
  validateIdentifier failure.code maxFailureCodeBytes "invalid run failure code"
  validateText failure.message maxFailureMessageBytes "invalid run failure message"

def validateFailure : Option RunFailure → Except ValidationError Unit
  | some failure => failure.validate
  | none => .ok ()

/-- `RunSnapshot`: persistable summary of a run. -/
structure RunSnapshot where
  runId : RunId
  conversationId : Option ConversationId
  idempotencyKey : IdempotencyKey
  state : RunState
  createdAt : Instant
  updatedAt : Instant
  failure : Option RunFailure
  eventCount : Nat
  deriving DecidableEq

def RunSnapshot.validate (snapshot : RunSnapshot) :
    Except ValidationError Unit := do
  let created ← parseTimestamp snapshot.createdAt
  let updated ← parseTimestamp snapshot.updatedAt
  ensure (created ≤ updated) ⟨"run timestamps are out of order"⟩
  ensure (snapshot.eventCount ≠ 0)
    ⟨"run snapshot must contain at least one lifecycle event"⟩
  validateFailure snapshot.failure
  ensure (decide (snapshot.state = .failed) == snapshot.failure.isSome)
    ⟨"run snapshot fields do not match its state"⟩

inductive RunCancellationReason where
  | requested
  | managerShutdown
  deriving DecidableEq

inductive RunInterruptionReason where
  | daemonRestart
  | managerShutdown
  deriving DecidableEq

/-- `RunLifecycleEvent`: one append-only lifecycle fact. -/
inductive RunLifecycleEvent where
  | queued
  | starting
  | running
  | cancelRequested
  | succeeded
  | failed (failure : RunFailure)
  | cancelled (reason : RunCancellationReason)
  | interrupted (reason : RunInterruptionReason)
  deriving DecidableEq

def RunLifecycleEvent.validate : RunLifecycleEvent → Except ValidationError Unit
  | .failed failure => failure.validate
  | .queued | .starting | .running | .cancelRequested | .succeeded
  | .cancelled _ | .interrupted _ => .ok ()

/-- `RunEventRecord`: a sequenced event of one run. -/
structure RunEventRecord where
  runId : RunId
  sequence : Nat
  recordedAt : Instant
  event : RunLifecycleEvent
  deriving DecidableEq

def RunEventRecord.validate (record : RunEventRecord) :
    Except ValidationError Unit := do
  ensure (record.sequence ≠ 0) ⟨"run event sequence must start at one"⟩
  let _ ← parseTimestamp record.recordedAt
  record.event.validate

/-! ## Submissions -/

inductive RunSubmissionDisposition where
  | enqueued
  | existing
  | queueFull
  deriving DecidableEq

structure RunSubmission where
  disposition : RunSubmissionDisposition
  run : RunSnapshot

def RunSubmission.validate (submission : RunSubmission) :
    Except ValidationError Unit := do
  submission.run.validate
  ensure (!(submission.disposition = .queueFull &&
      (submission.run.state ≠ .failed ||
        submission.run.failure.map RunFailure.code ≠ some "queue_full")))
    ⟨"queue-full submission must contain a failed run"⟩

/-! ## Event pages -/

/-- `u64::checked_add(1)`. -/
def checkedSucc (n : Nat) : Option Nat :=
  if n + 1 < 2 ^ 64 then some (n + 1) else none

/-- `RunEventPage`: one page through a fixed lifecycle high-water mark. -/
structure RunEventPage where
  runId : RunId
  events : List RunEventRecord
  afterSequence : Nat
  nextAfterSequence : Nat
  throughSequence : Nat
  hasMore : Bool
  deriving DecidableEq

/-- The contiguity loop of `RunEventPage::validate`. -/
def validateRecords (runId : RunId) : Nat → List RunEventRecord →
    Except ValidationError Unit
  | _, [] => .ok ()
  | expected, record :: rest => do
    record.validate
    ensure (record.runId = runId && record.sequence = expected)
      ⟨"run event page is not contiguous for the requested run"⟩
    match checkedSucc expected with
    | none => .error ⟨"run event sequence overflowed"⟩
    | some next => validateRecords runId next rest

def RunEventPage.validate (page : RunEventPage) : Except ValidationError Unit := do
  ensure (page.events.length ≤ maxRunEventPage) ⟨"run event page exceeds 16 records"⟩
  ensure (page.afterSequence ≤ page.nextAfterSequence &&
    page.nextAfterSequence ≤ page.throughSequence)
    ⟨"run event page cursors are invalid"⟩
  match checkedSucc page.afterSequence with
  | none => .error ⟨"run event sequence overflowed"⟩
  | some expected =>
    validateRecords page.runId expected page.events
    ensure (page.nextAfterSequence =
          (page.events.getLast?.map RunEventRecord.sequence).getD page.afterSequence &&
        page.hasMore == decide (page.nextAfterSequence < page.throughSequence) &&
        !(page.events.isEmpty && page.hasMore))
      ⟨"run event page continuation metadata is inconsistent"⟩

end Abbey.Run
