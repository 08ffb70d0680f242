import Abbey.Run.Projection

/-!
# The evidence that the run manager writes

The event constructors of `src/runtime/manager/helpers.rs` and the failure
table of `execution_failure_evidence`.

`Evidence` names every event that the manager, the v4 failure path and
recovery append, with the state it moves a run to.  `Evidence.recorded`
is the agreement of the two sides: what the manager writes for a state is
what the projection reads back as that state.
-/

namespace Abbey.Run

open Abbey.Lib

/-! ## Event constructors -/

/-- `event`: a kind with the manager's clock and at most one detail. -/
def event (clockMs : UInt64) (kind : String) (detail : Option (String × String)) :
    NewRunEvent where
  kind := kind
  payload := ("manager_clock_ms", .number clockMs.toNat) ::
    (detail.map (fun entry => (entry.1, PayloadValue.text entry.2))).toList

/-- `failure_event`. -/
def failureEvent (clockMs : UInt64) (code message : String) : NewRunEvent where
  kind := "run_failed"
  payload := [("manager_clock_ms", .number clockMs.toNat), ("code", .text code),
    ("message", .text message)]

inductive CancellationReason where
  | requested
  | managerShutdown
  deriving DecidableEq

def CancellationReason.asStr : CancellationReason → String
  | .requested => "requested"
  | .managerShutdown => "manager_shutdown"

/-- `cancellation_event`. -/
def cancellationEvent (clockMs : UInt64) (reason : CancellationReason) : NewRunEvent :=
  event clockMs "run_cancelled" (some ("reason", reason.asStr))

inductive ExecutionErrorKind where
  | general
  | unsupported
  | spawn
  | timedOut
  | outputLimit
  | providerExit
  | teardown
  deriving DecidableEq

/-- `execution_failure_evidence`: the code and the message of a class. -/
def executionFailureEvidence : ExecutionErrorKind → String × String
  | .general => ("executor_failed", "executor returned a failure")
  | .unsupported => ("executor_unsupported", "executor does not support this request")
  | .spawn => ("executor_spawn_failed", "executor process failed to start")
  | .timedOut => ("executor_timed_out", "executor exceeded its deadline")
  | .outputLimit => ("executor_output_limit", "executor output exceeded its limit")
  | .providerExit => ("executor_provider_exit", "executor process exited unsuccessfully")
  | .teardown => ("executor_teardown_failed", "executor process teardown failed")

/-! ## All evidence -/

/-- The reasons for which the manager fails a run. -/
inductive FailureCause where
  | workerUnavailable
  | queueFull
  | execution (kind : ExecutionErrorKind)
  | panicked
  deriving DecidableEq

/-- The code and the message that a failure is stored with. -/
def FailureCause.evidence : FailureCause → String × String
  | .workerUnavailable => ("worker_unavailable", "run worker is unavailable")
  | .queueFull => ("queue_full", "bounded run queue is full")
  | .execution kind => executionFailureEvidence kind
  | .panicked => ("executor_panicked", "executor panicked")

/-- Every event that is appended to a run after its first. -/
inductive Evidence where
  | starting
  | started
  | cancelRequested
  | succeeded
  | failed (cause : FailureCause)
  | unadopted
  | cancelled (reason : CancellationReason)
  | stopped
  | recovered
  deriving DecidableEq

namespace Evidence

/-- The event as it is handed to the store. -/
def newEvent (clockMs : UInt64) : Evidence → NewRunEvent
  | starting => event clockMs "run_starting" none
  | started => event clockMs "run_started" none
  | cancelRequested => event clockMs "run_cancel_requested" none
  | succeeded => event clockMs "run_succeeded" none
  | failed cause => failureEvent clockMs cause.evidence.1 cause.evidence.2
  | unadopted => unadoptedEvent
  | cancelled reason => cancellationEvent clockMs reason
  | stopped => event clockMs "run_manager_stopped" none
  | recovered => recoveredEvent

/-- The states that the event is written with. -/
def leadsTo : Evidence → RunState → Bool
  | starting, .starting | started, .running | cancelRequested, .cancelRequested
  | succeeded, .succeeded | failed _, .failed | unadopted, .failed
  | cancelled _, .cancelled | stopped, .cancelled | stopped, .interrupted
  | recovered, .interrupted => true
  | _, _ => false

end Evidence

/-! ## Agreement with the projection -/

/-- A stored event is the record of a state: read with that state it is a
lifecycle fact of that state, and read without it too unless the state is
terminal. -/
def Records (stored : RunEvent) (state : RunState) : Prop :=
  ∃ fact, projectKind stored (some state) = .ok fact ∧ lifecycleState fact = state ∧
    fact.validate = .ok () ∧
    (state.isTerminal = false → projectKind stored none = .ok fact)

/-- The failure table of the projection has every failure of the manager. -/
theorem failureMessage_evidence (cause : FailureCause) :
    ∃ retryable, failureMessage cause.evidence.1 = some (cause.evidence.2, retryable) := by
  cases cause with
  | workerUnavailable => exact ⟨true, rfl⟩
  | queueFull => exact ⟨true, rfl⟩
  | execution kind => cases kind <;> exact ⟨_, rfl⟩
  | panicked => exact ⟨false, rfl⟩

theorem failure_validate (cause : FailureCause) (retryable : Bool) :
    (RunFailure.mk cause.evidence.1 cause.evidence.2 retryable).validate = .ok () := by
  have hparts : isIdentifier cause.evidence.1 maxFailureCodeBytes ∧
      validateText cause.evidence.2 maxFailureMessageBytes "invalid run failure message" =
        .ok () := by
    cases cause with
    | execution kind => cases kind <;> decide +kernel
    | _ => decide +kernel
  simp [RunFailure.validate, validateIdentifier, hparts]

theorem projectFailure_failureEvent (clockMs : UInt64) (cause : FailureCause) :
    ∃ retryable, projectFailure
        (failureEvent clockMs cause.evidence.1 cause.evidence.2).payload =
      .ok ⟨cause.evidence.1, cause.evidence.2, retryable⟩ := by
  obtain ⟨retryable, hmessage⟩ := failureMessage_evidence cause
  refine ⟨retryable, ?_⟩
  simp [projectFailure, failureEvent, EventPayload.asStr, List.lookup_cons, hmessage]

theorem records_queued (id : RunId) (now : Instant) : Records (queuedEvent id now) .queued :=
  ⟨.queued, rfl, rfl, rfl, fun _ => rfl⟩

/-- What the manager writes for a state is read back as that state. -/
theorem Evidence.records {e : Evidence} (h : e.leadsTo state)
    (clockMs : UInt64) (run : RunRecord) (timestamp : Instant) :
    Records (storedEvent run (e.newEvent clockMs) timestamp) state := by
  cases e with
  | starting =>
    cases state <;> first | exact absurd h (by decide) | skip
    exact ⟨.starting, rfl, rfl, rfl, fun _ => rfl⟩
  | started =>
    cases state <;> first | exact absurd h (by decide) | skip
    exact ⟨.running, rfl, rfl, rfl, fun _ => rfl⟩
  | cancelRequested =>
    cases state <;> first | exact absurd h (by decide) | skip
    exact ⟨.cancelRequested, rfl, rfl, rfl, fun _ => rfl⟩
  | succeeded =>
    cases state <;> first | exact absurd h (by decide) | skip
    exact ⟨.succeeded, rfl, rfl, rfl, fun _ => rfl⟩
  | failed cause =>
    have hstate : state = .failed := by
      cases state <;> first | rfl | exact absurd h (by simp [leadsTo])
    subst hstate
    obtain ⟨retryable, hfailure⟩ := projectFailure_failureEvent clockMs cause
    have hkind : ∀ current, projectKind
        (storedEvent run ((failed cause).newEvent clockMs) timestamp) current =
        .ok (.failed ⟨cause.evidence.1, cause.evidence.2, retryable⟩) := by
      intro current
      show (projectFailure _ >>= fun failure => _) = _
      rw [show (storedEvent run ((failed cause).newEvent clockMs) timestamp).payload =
        (failureEvent clockMs cause.evidence.1 cause.evidence.2).payload from rfl, hfailure]
      rfl
    exact ⟨_, hkind _, rfl, failure_validate cause retryable, fun _ => hkind _⟩
  | unadopted =>
    cases state <;> first | exact absurd h (by decide) | skip
    exact ⟨.failed ⟨"executor_unsupported", "executor does not support this request", false⟩,
      rfl, rfl, failure_validate (.execution .unsupported) false, fun _ => rfl⟩
  | cancelled reason =>
    have hstate : state = .cancelled := by
      cases state <;> first | rfl | exact absurd h (by simp [leadsTo])
    subst hstate
    cases reason with
    | requested => exact ⟨.cancelled .requested, rfl, rfl, rfl, fun _ => rfl⟩
    | managerShutdown => exact ⟨.cancelled .managerShutdown, rfl, rfl, rfl, fun _ => rfl⟩
  | stopped =>
    cases state <;> first | exact absurd h (by decide) | skip
    · exact ⟨.cancelled .managerShutdown, rfl, rfl, rfl, fun hs => absurd hs (by decide)⟩
    · exact ⟨.interrupted .managerShutdown, rfl, rfl, rfl, fun hs => absurd hs (by decide)⟩
  | recovered =>
    cases state <;> first | exact absurd h (by decide) | skip
    exact ⟨.interrupted .daemonRestart, rfl, rfl, rfl, fun _ => rfl⟩

/-- Twenty digits hold every reading of the manager's clock. -/
theorem decimalBytes_clock_le (clockMs : UInt64) : decimalBytes clockMs.toNat ≤ 20 := by
  have hlt : clockMs.toNat < 10 ^ 20 := Nat.lt_trans clockMs.toNat_lt (by decide)
  exact (Nat.length_toDigits_le_iff (by decide) (by decide)).mpr hlt

theorem jsonTextBytes_evidence_le (cause : FailureCause) :
    jsonTextBytes cause.evidence.1 ≤ 100 ∧ jsonTextBytes cause.evidence.2 ≤ 100 := by
  cases cause with
  | execution kind => cases kind <;> decide +kernel
  | _ => decide +kernel

/-- Every event of the manager passes the store's own check. -/
theorem Evidence.validateEvent_newEvent (e : Evidence) (clockMs : UInt64) :
    validateEvent (e.newEvent clockMs) = .ok () := by
  have hclock := decimalBytes_clock_le clockMs
  have hkey : jsonTextBytes "manager_clock_ms" = 18 := by decide +kernel
  have hlabel : validateLabel (e.newEvent clockMs).kind
      "event kind is empty or exceeds 64 bytes" = .ok () := by
    have hkinds : ∀ kind ∈ ["run_starting", "run_started", "run_cancel_requested",
        "run_succeeded", "run_failed", "run_cancelled", "run_manager_stopped",
        "run_recovered_interrupted"],
        validateLabel kind "event kind is empty or exceeds 64 bytes" = .ok () := by
      decide +kernel
    refine hkinds _ ?_
    cases e <;> simp [newEvent, event, failureEvent, unadoptedEvent, cancellationEvent,
      recoveredEvent]
  have hbytes : (e.newEvent clockMs).payload.jsonBytes ≤ maxEventPayloadBytes := by
    have hplain : ∀ kind, (event clockMs kind none).payload.jsonBytes ≤ maxEventPayloadBytes := by
      intro kind
      simp [event, EventPayload.jsonBytes, PayloadValue.jsonBytes, hkey, maxEventPayloadBytes]
      omega
    cases e with
    | failed cause =>
      obtain ⟨hcode, hmessage⟩ := jsonTextBytes_evidence_le cause
      have hcodeKey : jsonTextBytes "code" = 6 := by decide +kernel
      have hmessageKey : jsonTextBytes "message" = 9 := by decide +kernel
      simp [newEvent, failureEvent, EventPayload.jsonBytes, PayloadValue.jsonBytes, hkey,
        hcodeKey, hmessageKey, maxEventPayloadBytes]
      omega
    | cancelled reason =>
      have hreasonKey : jsonTextBytes "reason" = 8 := by decide +kernel
      have hreason : jsonTextBytes reason.asStr ≤ 100 := by
        cases reason <;> decide +kernel
      simp [newEvent, cancellationEvent, event, EventPayload.jsonBytes,
        PayloadValue.jsonBytes, hkey, hreasonKey, maxEventPayloadBytes]
      omega
    | unadopted =>
      have hle : unadoptedEvent.payload.jsonBytes ≤ maxEventPayloadBytes := by decide +kernel
      exact hle
    | recovered =>
      have hle : recoveredEvent.payload.jsonBytes ≤ maxEventPayloadBytes := by decide +kernel
      exact hle
    | _ => exact hplain _
  simp [validateEvent, hlabel, hbytes]

end Abbey.Run
