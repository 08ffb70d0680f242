import Abbey.Manager.Origins
import Abbey.RunControl.Agreement

/-!
# A client of the daemon

A sequential client of one daemon: it issues one command at a time, and
feeds every answer to its reducer.  Everything else (other clients, the
worker, crashes) moves between its steps.

`SubmitRun` and `CancelRun` call the manager on the thread `handler` of
the daemon, and the handler reads the run at some moment after the call has
returned.  A first page is asked for at the start of the ledger with no
watermark, a later one with the command of `next_events_command`.

`reducer_accepts_answers` is the agreement of the two sides: over every
session, the reducer refuses an answer only when the client has moved to
another run.
-/

namespace Abbey.RunControl

open Abbey.Lib Abbey.Run Abbey.Manager Abbey.Daemon List Option

variable {command : AppCommand} {event : AppEvent} {queueCapacity : Nat} {op : Operation}
  {id : RunId}

/-! ## Sessions -/

/-- An answer that the reducer refused. -/
structure Refusal where
  view : RunControlView
  event : AppEvent
  error : RunControlError

structure Session where
  machine : Machine
  pending : Option AppCommand
  view : RunControlView
  answers : List AppEvent
  refusals : List Refusal

def Session.initial (queueCapacity : Nat) : Session :=
  ⟨.initial queueCapacity, none, .empty, [], []⟩

inductive SessionLabel where
  | machine (l : Label)
  | issue (command : AppCommand)
  | reply
  | lost

variable {l : SessionLabel} {P : Session → SessionLabel → Prop}

/-- The call of the manager that a command makes. -/
def operation : AppCommand → Option Operation
  | .submitRun request => some (.submit request)
  | .cancelRun runId => some (.cancel runId)
  | .getRun _ | .runEvents _ => none

/-- The commands of the client: pages are read in order. -/
def asks (view : RunControlView) : AppCommand → Bool
  | .runEvents query =>
    (view.eventPages.isEmpty && query.afterSequence = 0 && query.throughSequence = none) ||
      nextEventsCommand view query.limit = .ok (some query)
  | .submitRun _ | .getRun _ | .cancelRun _ => true

/-- The latest answer to a call of a thread. -/
def answerTo (handler : ClientId) (op : Operation) (history : List Observation) :
    Option Answer :=
  history.findSome? (fun
    | .returned c op' answer => if c = handler ∧ op' = op then some answer else none
    | _ => none)

/-- The reply to a command, none while its call is in progress. -/
def replyTo (handler : ClientId) (m : Machine) :
    AppCommand → Option (Except HandlerFailure AppEvent)
  | .submitRun request =>
    match m.clients handler, answerTo handler (.submit request) m.history with
    | none, some (.submitted result) => some (replySubmit m.store result)
    | _, _ => none
  | .cancelRun runId =>
    match m.clients handler, answerTo handler (.cancel runId) m.history with
    | none, some (.cancelled result) => some (replyCancel m.store runId result)
    | _, _ => none
  | .getRun runId => some (replyGetRun m.store runId)
  | .runEvents query => some (replyRunEvents m.store query)

/-- An answer goes to the reducer, a failure does not. -/
def Session.feed (s : Session) (command : AppCommand) :
    Except HandlerFailure AppEvent → Session
  | .error _ => { s with pending := none }
  | .ok event =>
    match apply s.view command event with
    | .ok view => { s with pending := none, view, answers := event :: s.answers }
    | .error error =>
      { s with pending := none, answers := event :: s.answers
               refusals := ⟨s.view, event, error⟩ :: s.refusals }

/-- The calls on the thread of the handler are those of the session. -/
def Label.isCallOf (handler : ClientId) : Label → Bool
  | .call c _ => c = handler
  | _ => false

/-- A crash of the daemon ends its connections. -/
def pendingAfter (pending : Option AppCommand) : Label → Option AppCommand
  | .crash _ _ _ => none
  | _ => pending

/-- One step of a session.  A command that does not pass its check is
answered with a failure at once and changes nothing, so `issue` takes only
the others.  An answer may be lost, by a failed reading or on the way. -/
def sessionStep (D : Digests) (handler : ClientId) (s : Session) :
    SessionLabel → Option Session
  | .machine l =>
    if Label.isCallOf handler l then none
    else (step D s.machine l).map
      (fun m => { s with machine := m, pending := pendingAfter s.pending l })
  | .issue command =>
    if s.pending.isNone && command.validate = .ok () && asks s.view command then
      match operation command with
      | none => some { s with pending := some command }
      | some op => (step D s.machine (.call handler op)).map
          (fun m => { s with machine := m, pending := some command })
    else none
  | .reply =>
    match s.pending with
    | none => none
    | some command => (replyTo handler s.machine command).map (s.feed command)
  | .lost => some { s with pending := none }

/-! ## One answer -/

/-- The run that an answer is about. -/
def eventRunId : AppEvent → RunId
  | .runSubmitted submission => submission.run.runId
  | .runStatus snapshot | .cancellationAcknowledged snapshot => snapshot.runId
  | .runEvents page => page.runId

/-- The reducer accepts an answer, or it is bound to another run. -/
def Received (db : RunDb) (view : RunControlView) (command : AppCommand) (event : AppEvent) :
    Prop :=
  (∃ merged, apply view command event = .ok merged ∧ ViewOf (eventRunId event) db merged) ∨
    (apply view command event = .error .mismatchedRun ∧ Elsewhere view (eventRunId event))

variable {D : Digests} {handler : ClientId} {db : RunDb} {view : RunControlView} {rid : RunId}
  {result : RunSnapshot}

/-- A snapshot that the handler reads. -/
theorem row_of_snapshot (h : Daemon.snapshot db id = .ok result) :
    ∃ row, db.runs.find id = some row ∧ projectRunSnapshot db row = .ok result ∧
      result.runId = id := by
  rw [snapshot_eq_ok] at h
  unfold runSnapshot at h
  split at h
  · cases h
  · rename_i row hrow
    rw [bind_ok_iff] at h
    obtain ⟨snapshot, hsnapshot, heq⟩ := h
    cases heq
    refine ⟨row, hrow, hsnapshot, ?_⟩
    rw [(projectRunSnapshot_writes hsnapshot).1.runId]
    exact Table.pk_of_find (t := db.runs) hrow

variable (hview : ViewOf rid db view)

include hview

/-- The reducer merges a snapshot, or it is bound to another run. -/
theorem mergeSnapshot_cases (h : Daemon.snapshot db id = .ok result) :
    (∃ merged, mergeSnapshot view result = .ok merged ∧ ViewOf result.runId db merged) ∨
      (mergeSnapshot view result = .error .mismatchedRun ∧ Elsewhere view result.runId) := by
  obtain ⟨row, hrow, hproject, hid⟩ := row_of_snapshot h
  rcases hview.or_elsewhere result.runId with hof | hother
  · rw [hid] at hof ⊢
    exact .inl (mergeSnapshot_accepts hof hrow hproject)
  · exact .inr ⟨mergeSnapshot_elsewhere hother, hother⟩

theorem received_status (h : replyGetRun db id = .ok event) :
    Received db view (.getRun id) event := by
  unfold replyGetRun at h
  rw [bind_ok_iff] at h
  obtain ⟨result, hresult, heq⟩ := h
  cases heq
  obtain ⟨row, _, hproject, hid⟩ := row_of_snapshot hresult
  have hvalid := (projectRunSnapshot_writes hproject).2.2
  have happly : apply view (.getRun id) (.runStatus result) = mergeSnapshot view result := by
    simp [apply, AppCommand.validate, AppEvent.validate, hvalid, hid, orElse]
  unfold Received
  rw [happly]
  exact mergeSnapshot_cases hview hresult

theorem received_cancel {result : Except ManagerError RunRecord}
    (h : replyCancel db id result = .ok event) : Received db view (.cancelRun id) event := by
  unfold replyCancel at h
  simp only [bind_ok_iff] at h
  obtain ⟨_, _, result, hresult, heq⟩ := h
  cases heq
  obtain ⟨row, _, hproject, hid⟩ := row_of_snapshot hresult
  have hvalid := (projectRunSnapshot_writes hproject).2.2
  have happly : apply view (.cancelRun id) (.cancellationAcknowledged result) =
      mergeSnapshot view result := by
    simp [apply, AppCommand.validate, AppEvent.validate, hvalid, hid, orElse]
  unfold Received
  rw [happly]
  exact mergeSnapshot_cases hview hresult

/-- A receipt for the row of its request. -/
theorem received_submit {result : SubmitResult}
    (hrequest : request.validate = .ok ()) (hrow : db.runs.find result.run.id = some row)
    (hkey : row.idempotencyKey = request.idempotencyKey)
    (hconversation : row.conversationId = request.conversationId)
    (h : replySubmit db (.ok result) = .ok event) :
    Received db view (.submitRun request) event := by
  unfold replySubmit at h
  simp only [bind_ok_iff, mapErr_eq_ok, Except.ok.injEq, orElse_eq_ok] at h
  obtain ⟨_, rfl, run, hrun, _, hvalid, rfl⟩ := h
  obtain ⟨row', hrow', hproject, hid⟩ := row_of_snapshot hrun
  rw [hrow] at hrow'
  cases hrow'
  have hof := (projectRunSnapshot_writes hproject).1
  have hrunKey : run.idempotencyKey = request.idempotencyKey := hof.idempotencyKey.trans hkey
  have hrunConversation : run.conversationId = request.conversationId :=
    hof.conversationId.trans hconversation
  have happly : apply view (.submitRun request)
      (.runSubmitted ⟨dispositionOf result.disposition, run⟩) =
      (mergeSnapshot view run >>= fun merged =>
        .ok { merged with submission := some (dispositionOf result.disposition) }) := by
    simp [apply, AppCommand.validate, AppEvent.validate, hrequest, hvalid, hrunKey,
      hrunConversation, orElse]
  unfold Received
  rw [happly]
  rcases mergeSnapshot_cases hview hrun with ⟨merged, hmerged, hof'⟩ | ⟨herror, hother⟩
  · rw [hmerged]
    exact .inl ⟨_, rfl, hof'.snapshot, hof'.pages, hof'.last⟩
  · rw [herror]
    exact .inr ⟨rfl, hother⟩

theorem received_events (hledger : Ledger db)
    (hquery : query.validate = .ok ()) (hasks : asks view (.runEvents query))
    (h : replyRunEvents db query = .ok event) : Received db view (.runEvents query) event := by
  unfold replyRunEvents at h
  simp only [bind_ok_iff, mapErr_eq_ok] at h
  obtain ⟨page, hpage, heq⟩ := h
  cases heq
  obtain ⟨run, hrun, hanswers⟩ := runEventsPage_answers hledger hpage
  have hcontinues : Continues view query.runId query := by
    simp only [asks, Bool.or_eq_true, Bool.and_eq_true, decide_eq_true_eq,
      List.isEmpty_iff] at hasks
    rcases hasks with ⟨⟨hpages, hafter⟩, hthrough⟩ | hnext
    · exact .inl ⟨hpages, hafter, hthrough, rfl⟩
    · exact .inr hnext
  have happly : apply view (.runEvents query) (.runEvents page) = mergePage view query page := by
    simp [apply, AppCommand.validate, AppEvent.validate, hquery, hanswers.valid, orElse]
  have hid : run.id = query.runId := Table.pk_of_find hrun
  unfold Received
  rw [happly]
  show (∃ merged, _ ∧ ViewOf page.runId db merged) ∨ _ ∧ Elsewhere view page.runId
  rcases hview.or_elsewhere page.runId with hof | hother
  · rw [hanswers.runId] at hof ⊢
    exact .inl (mergePage_accepts hof (hledger.run _ run hrun) hid hcontinues hanswers)
  · exact .inr ⟨mergePage_elsewhere hanswers hother, hother⟩

omit hview

/-! ## Whole sessions -/

variable {s s' : Session} {m : Machine}

/-- A command that waits for its answer. -/
structure Waiting (m : Machine) (view : RunControlView) (command : AppCommand) : Prop where
  valid : command.validate = .ok ()
  asked : asks view command = true
  called : ∀ op, operation command = some op → Called m op

/-- What a session knows. -/
structure Agrees (s : Session) : Prop where
  view : ∃ rid, ViewOf rid s.machine.store s.view
  bound : ∀ current, s.view.runId = some current →
    ∃ event ∈ s.answers, eventRunId event = current
  pending : ∀ command, s.pending = some command → Waiting s.machine s.view command
  refusals : ∀ refusal ∈ s.refusals, refusal.error = .mismatchedRun ∧
    refusal.event ∈ s.answers ∧ ∃ current, refusal.view.runId = some current ∧
      current ≠ eventRunId refusal.event ∧ ∃ event ∈ s.answers, eventRunId event = current

/-- What a step of a session does: it moves the machine, it drops the
pending command, or it feeds an answer. -/
theorem sessionStep_cases (h : sessionStep D handler s l = some s') :
    (∃ k m pending, step D s.machine k = some m ∧ s' = { s with machine := m, pending := pending } ∧
      (∀ command, pending = some command → s.pending = some command ∨
        (command.validate = .ok () ∧ asks s.view command ∧
          ∀ op, operation command = some op → Called m op))) ∨
    (∃ pending, s' = { s with pending := pending } ∧
      ∀ command, pending = some command → command.validate = .ok () ∧
        asks s.view command ∧ operation command = none) ∨
    ∃ command reply, s.pending = some command ∧
      replyTo handler s.machine command = some reply ∧ s' = s.feed command reply := by
  cases l with
  | machine l =>
    simp only [sessionStep] at h
    split_ifs at h
    rw [map_eq_some_iff] at h
    obtain ⟨m, hstep, rfl⟩ := h
    refine .inl ⟨l, m, _, hstep, rfl, ?_⟩
    intro command hpending
    unfold pendingAfter at hpending
    split at hpending
    · cases hpending
    · exact .inl hpending
  | issue command =>
    simp only [sessionStep, Bool.and_eq_true, decide_eq_true_eq] at h
    split_ifs at h with hissue
    split at h
    · rename_i hop
      cases h
      refine .inr (.inl ⟨some command, rfl, ?_⟩)
      intro other hother
      cases hother
      exact ⟨hissue.1.2, hissue.2, hop⟩
    · rename_i op hop
      rw [map_eq_some_iff] at h
      obtain ⟨m, hstep, rfl⟩ := h
      refine .inl ⟨_, m, some command, hstep, rfl, ?_⟩
      intro other hother
      cases hother
      refine .inr ⟨hissue.1.2, hissue.2, ?_⟩
      intro op' hop'
      rw [hop] at hop'
      cases hop'
      obtain ⟨_, rfl⟩ := step_call hstep
      exact ⟨handler, mem_cons_self⟩
  | reply =>
    simp only [sessionStep] at h
    split at h
    · cases h
    · rename_i command hpending
      rw [map_eq_some_iff] at h
      obtain ⟨reply, hreply, rfl⟩ := h
      exact .inr (.inr ⟨command, reply, hpending, hreply, rfl⟩)
  | lost =>
    cases h
    refine .inr (.inl ⟨none, rfl, ?_⟩)
    intro command hno
    cases hno

/-- A step of a session is a step of its machine, or leaves it alone. -/
theorem machine_of_sessionStep (h : sessionStep D handler s l = some s') :
    s'.machine = s.machine ∨ ∃ k, step D s.machine k = some s'.machine := by
  rcases sessionStep_cases h with ⟨k, m, pending, hmove, rfl, _⟩ | ⟨pending, rfl, _⟩ |
    ⟨command, reply, _, _, rfl⟩
  · exact .inr ⟨k, hmove⟩
  · exact .inl rfl
  · left
    unfold Session.feed
    split
    · rfl
    · split <;> rfl

/-- The machine of a session runs as a machine. -/
theorem machine_of_session (h : Steps (sessionStep D handler) P (.initial queueCapacity) s) :
    Steps (step D) anyStep (.initial queueCapacity) s.machine := by
  refine h.invariant (I := fun s => Steps (step D) anyStep (.initial queueCapacity) s.machine)
    ?_ (.refl _)
  intro s l s' hsteps _ hstep
  rcases machine_of_sessionStep hstep with hsame | ⟨k, hmove⟩
  · rw [hsame]
    exact hsteps
  · exact hsteps.tail trivial hmove

theorem returned_of_answerTo
    (h : answerTo handler op history = some answer) : .returned handler op answer ∈ history := by
  unfold answerTo at h
  obtain ⟨observation, hmem, hsome⟩ := exists_of_findSome?_eq_some h
  split at hsome
  · split_ifs at hsome with hsame
    cases hsome
    rw [← hsame.1, ← hsame.2]
    exact hmem
  · cases hsome

/-- Every answer of the daemon is received. -/
theorem received_of_replyTo (hsound : Sound D m) (hattributed : Attributed D m)
    (hfree : CollisionFree D m) (hview : ViewOf rid m.store view)
    (hwaiting : Waiting m view command) (h : replyTo handler m command = some (.ok event)) :
    Received m.store view command event := by
  cases command with
  | submitRun request =>
    unfold replyTo at h
    simp only at h
    split at h
    · rename_i result _ hanswer
      have hreply := some.inj h
      cases result with
      | error error => cases hreply
      | ok result =>
        have hbound := hsound.told.answers handler _ _ (returned_of_answerTo hanswer)
        obtain ⟨row, hrow, hkey, hdigest⟩ := hbound
        have hcalled := hwaiting.called _ rfl
        have hconversation := conversation_of_digest hattributed hfree hcalled hrow hdigest
        exact received_submit hview hwaiting.valid hrow hkey hconversation hreply
    · cases h
  | cancelRun runId =>
    unfold replyTo at h
    simp only at h
    split at h
    · exact received_cancel hview (some.inj h)
    · cases h
  | getRun runId => exact received_status hview (some.inj h)
  | runEvents query =>
    exact received_events hview hsound.ledger hwaiting.valid hwaiting.asked (some.inj h)

/-- An answer that is received keeps the agreement. -/
theorem Agrees.feed (h : Agrees s) (hreceived : Received s.machine.store s.view command event) :
    Agrees (s.feed command (.ok event)) := by
  have hold : ∀ refusal ∈ s.refusals, refusal.error = .mismatchedRun ∧
      refusal.event ∈ event :: s.answers ∧ ∃ current, refusal.view.runId = some current ∧
        current ≠ eventRunId refusal.event ∧
        ∃ other ∈ event :: s.answers, eventRunId other = current := by
    intro refusal hmem
    obtain ⟨herror, hfed, current, hcurrent, hne, other, hother, hid⟩ := h.refusals refusal hmem
    exact ⟨herror, mem_cons_of_mem _ hfed, current, hcurrent, hne, other,
      mem_cons_of_mem _ hother, hid⟩
  unfold Session.feed
  rcases hreceived with ⟨merged, hmerged, hof⟩ | ⟨herror, current, hcurrent, hne⟩
  · simp only [hmerged]
    refine ⟨⟨_, hof⟩, ?_, nofun, hold⟩
    intro current hcurrent
    exact ⟨event, mem_cons_self, (hof.runId hcurrent).symm⟩
  · simp only [herror]
    refine ⟨h.view, ?_, nofun, ?_⟩
    · intro other hother
      obtain ⟨earlier, hmem, hid⟩ := h.bound other hother
      exact ⟨earlier, mem_cons_of_mem _ hmem, hid⟩
    · intro refusal hmem
      rcases mem_cons.mp hmem with rfl | hmem
      · obtain ⟨earlier, hearlier, hid⟩ := h.bound current hcurrent
        exact ⟨rfl, mem_cons_self, current, hcurrent, hne, earlier,
          mem_cons_of_mem _ hearlier, hid⟩
      · exact hold refusal hmem

theorem Agrees.step (hsound : Sound D s.machine) (hattributed : Attributed D s.machine)
    (hfree : CollisionFree D s.machine) (h : Agrees s)
    (hstep : sessionStep D handler s l = some s') :
    Agrees s' := by
  rcases sessionStep_cases hstep with ⟨k, m, pending, hmove, rfl, hpending⟩ |
    ⟨pending, rfl, hpending⟩ | ⟨command, reply, hcommand, hreply, rfl⟩
  · obtain ⟨rid, hview⟩ := h.view
    refine ⟨⟨rid, hview.mono (extends_of_step hmove)⟩, h.bound, ?_, h.refusals⟩
    intro command hsome
    rcases hpending command hsome with hsame | ⟨hvalid, hasks, hcalled⟩
    · have hwaiting := h.pending command hsame
      exact ⟨hwaiting.valid, hwaiting.asked, fun op hop => (hwaiting.called op hop).step hmove⟩
    · exact ⟨hvalid, hasks, hcalled⟩
  · refine ⟨h.view, h.bound, ?_, h.refusals⟩
    intro command hsome
    obtain ⟨hvalid, hasks, hnone⟩ := hpending command hsome
    refine ⟨hvalid, hasks, ?_⟩
    intro op hop
    rw [hnone] at hop
    cases hop
  · cases reply with
    | error failure => exact ⟨h.view, h.bound, nofun, h.refusals⟩
    | ok event =>
      obtain ⟨rid, hview⟩ := h.view
      exact h.feed (received_of_replyTo hsound hattributed hfree hview
        (h.pending command hcommand) hreply)

theorem Agrees.reachable (h : Steps (sessionStep D handler) P (.initial queueCapacity) s)
    (hfree : CollisionFree D s.machine) : Agrees s := by
  induction h with
  | refl =>
    exact ⟨⟨⟨0⟩, .empty _ _⟩, fun _ hno => (by cases hno), fun _ hno => (by cases hno),
      fun _ hno => (by cases hno)⟩
  | @tail t _ _ hsteps _ hstep ih =>
    have hmachine := machine_of_session hsteps
    have hbefore : CollisionFree D t.machine := by
      rcases machine_of_sessionStep hstep with hsame | ⟨k, hmove⟩
      · rw [hsame] at hfree
        exact hfree
      · exact hfree.before hmove
    exact (ih hbefore).step (.reachable hmachine) (.reachable hmachine) hbefore hstep

/-- The store and the reducer agree.  Over every session, with any moves of
the manager, its worker and its crashes in between, and with any clock:

* the reducer refuses an answer only because it is bound to another run
  than the run of the answer;
* so a session about one run has every answer accepted. -/
theorem reducer_accepts_answers {queueCapacity : Nat}
    (h : Steps (sessionStep D handler) anyStep (.initial queueCapacity) s)
    (hfree : CollisionFree D s.machine) :
    (∀ refusal ∈ s.refusals, refusal.error = .mismatchedRun ∧
      ∃ current, refusal.view.runId = some current ∧ current ≠ eventRunId refusal.event) ∧
    ∀ rid, (∀ event ∈ s.answers, eventRunId event = rid) → s.refusals = [] := by
  have hagrees := Agrees.reachable h hfree
  refine ⟨?_, ?_⟩
  · intro refusal hmem
    obtain ⟨herror, _, current, hcurrent, hne, _⟩ := hagrees.refusals refusal hmem
    exact ⟨herror, current, hcurrent, hne⟩
  · intro rid hrid
    refine List.eq_nil_iff_forall_not_mem.mpr ?_
    intro refusal hmem
    obtain ⟨_, hfed, current, _, hne, other, hother, hid⟩ := hagrees.refusals refusal hmem
    rw [← hid, hrid other hother, hrid refusal.event hfed] at hne
    exact hne rfl

/-- The client submits the sample, reads its run, cancels it, and reads its
two events in two pages. -/
def sampleSessionLabels : List SessionLabel :=
  [.issue (.submitRun sampleRequest)] ++
  List.replicate 6 (.machine (.client 0 (sampleEnv 1))) ++
  [.reply, .issue (.getRun ⟨1⟩), .reply, .issue (.cancelRun ⟨1⟩)] ++
  List.replicate 4 (.machine (.client 0 (sampleEnv 1))) ++
  [.reply, .issue (.runEvents ⟨⟨1⟩, 0, none, 1⟩), .reply,
    .issue (.runEvents ⟨⟨1⟩, 1, some 2, 1⟩), .reply]

def sampleSession : Session :=
  (run (sessionStep sampleDigests 0) (.initial 1) sampleSessionLabels).getD (.initial 1)

theorem sampleSession_reached :
    Steps (sessionStep sampleDigests 0) anyStep (.initial 1) sampleSession := by
  have hrun : run (sessionStep sampleDigests 0) (.initial 1) sampleSessionLabels =
      some sampleSession := rfl
  exact steps_of_run hrun

/-- The operations called, newest first. -/
def calledOperations (history : List Observation) : List Operation :=
  history.filterMap (fun
    | .called _ op => some op
    | _ => none)

theorem mem_calledOperations (h : Called m op) : op ∈ calledOperations m.history := by
  obtain ⟨c, hmem⟩ := h
  exact mem_filterMap.mpr ⟨_, hmem, rfl⟩

theorem sampleSession_collisionFree : CollisionFree sampleDigests sampleSession.machine := by
  have hcalled : ∀ op, Called sampleSession.machine op →
      op = .cancel ⟨1⟩ ∨ op = .submit sampleRequest := by
    intro op h
    have hmem := mem_calledOperations h
    have heq : calledOperations sampleSession.machine.history =
        [.cancel ⟨1⟩, .submit sampleRequest] := rfl
    rw [heq] at hmem
    simpa using hmem
  refine ⟨?_, ?_⟩
  · intro request other hrequest hother _
    have hfirst := hcalled _ hrequest
    have hsecond := hcalled _ hother
    simp only [reduceCtorEq, Operation.submit.injEq, false_or] at hfirst hsecond
    rw [hfirst, hsecond]
  · intro request other _ hother
    have hturn := hcalled _ hother
    simp at hturn

theorem reducer_accepts_answers_sample :
    sampleSession.answers.length = 5 ∧ sampleSession.refusals = [] :=
  ⟨rfl, (reducer_accepts_answers sampleSession_reached sampleSession_collisionFree).2 ⟨1⟩
    (by decide +kernel)⟩

end Abbey.RunControl
