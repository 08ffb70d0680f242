import Abbey.Daemon.Handler
import Abbey.Manager.AtMostOnce
import Abbey.Run.Readable

/-!
# Receipts of a full queue

A client whose `try_send` finds the queue full fails its run with the code
`queue_full` and answers the disposition `QueueFull`.  `reject_admission`
answers whatever terminal record it finds, so the receipt is right only if
nobody else settles the run before.

`Calm` is that condition on one step: the queue is found full only for a
run that is still queued, no other transition of the run commits while its
rejection is in progress, and the rejection is written on time.
`queueFull_receipt_of_calm` is the consequence for every execution: each
receipt names a failed run, and the handler's answer passes
`RunSubmission::validate`.  Without the condition a cancelled run is
answered as `QueueFull` (`queueFull_receipt_of_cancelled_run`).
-/

namespace Abbey.Manager

open Abbey.Lib Abbey.Run Abbey.Daemon Option

variable {D : Digests} {m m' : Machine} {db db' : RunDb} {id : RunId}
variable {admission : Admission} {call : Call} {c : ClientId} {next : ClientNext} {l : Label}
  {why : Rejection}

/-! ## Runs that failed with queue_full -/

/-- The run failed with `queue_full`, at a reading that it accepts. -/
structure FilledRow (db : RunDb) (row : RunRecord) : Prop where
  status : row.status = .failed
  timely : row.Timely
  event : ∃ old clockMs, old.id = row.id ∧
    db.runEvents.find (row.id, row.nextEventSequence - 1) =
      some (storedEvent old ((Evidence.failed .queueFull).newEvent clockMs) row.updatedAt)

def Filled (db : RunDb) (id : RunId) : Prop :=
  ∃ row, db.runs.find id = some row ∧ FilledRow db row

/-- The run waits for its rejection, or was rejected. -/
def Pending (db : RunDb) (id : RunId) : Prop :=
  (∃ row, db.runs.find id = some row ∧ row.status = .queued) ∨ Filled db id

/-- A rejected run stays as it is. -/
theorem Filled.mono (h : Filled db id) (hext : Extends db db') : Filled db' id := by
  obtain ⟨row, hrow, hfilled⟩ := h
  obtain ⟨row', hrow', hlater⟩ := hext.runs id row hrow
  have hsame : row' = row := hlater.terminal (by rw [hfilled.status]; rfl)
  rw [hsame] at hrow'
  obtain ⟨old, clockMs, hid, hevent⟩ := hfilled.event
  exact ⟨row, hrow', hfilled.status, hfilled.timely, old, clockMs, hid, hext.runEvents _ _ hevent⟩

/-- A terminal record of a pending run has failed with `queue_full`. -/
theorem Pending.filled (h : Pending db id)
    (hrecord : db.runs.find id = some record) (hstatus : record.status ≠ .queued) :
    Filled db id ∧ record.status = .failed := by
  rcases h with ⟨row, hrow, hqueued⟩ | hfilled
  · rw [hrecord] at hrow
    cases hrow
    exact absurd hqueued hstatus
  · obtain ⟨row, hrow, hrowFilled⟩ := hfilled
    have heq : row = record := some.inj (hrow.symm.trans hrecord)
    subst heq
    exact ⟨⟨row, hrow, hrowFilled⟩, hrowFilled.status⟩

/-- The transition of a rejection leaves a filled run. -/
theorem filled_of_advanced (hrow : db.runs.find id = some row)
    (hadv : Advanced db db' row .failed ((Evidence.failed .queueFull).newEvent clockMs) now)
    (htime : row.AcceptsReading now) : Filled db' id := by
  have hid : row.id = id := Table.pk_of_find hrow
  have hfound : db'.runs.find id = some (row.advance .failed now) := by
    rw [hadv.runs, if_pos hid.symm]
  have hevent := Table.find_insert_self hadv.runEvents
  exact ⟨_, hfound, rfl, htime, row, clockMs, rfl, hevent⟩

/-! ## The answer of the handler -/

/-- The failure of a snapshot is the one of the latest event. -/
theorem failure_of_projectRunSnapshot {run : RunRecord}
    {failure : RunFailure} (h : projectRunSnapshot db run = .ok result)
    (hstored : db.runEvents.find (run.id, run.nextEventSequence - 1) = some stored)
    (hkind : projectKind stored (some run.status) = .ok (.failed failure)) :
    result.failure = some failure := by
  unfold projectRunSnapshot at h
  simp only [bind_ok_iff, orElse_eq_ok, Except.ok.injEq, required_eq_ok] at h
  obtain ⟨count, hcount, _, _, latest, hlatest, record, hrecord, _, _, rfl⟩ := h
  have hcount' : count = run.nextEventSequence - 1 := by
    unfold eventWatermark at hcount
    split_ifs at hcount
    cases hcount
    rfl
  rw [hcount', hstored] at hlatest
  cases hlatest
  unfold projectRunEvent at hrecord
  simp only [hkind, ok_bind, bind_ok_iff, Except.ok.injEq] at hrecord
  obtain ⟨_, _, _, _, rfl⟩ := hrecord
  rfl

/-- A filled run is read as a failed run with the code `queue_full`. -/
theorem Filled.snapshot (h : Filled db id) (hledger : Ledger db) :
    ∃ result, runSnapshot db id = .ok (some result) ∧ result.state = .failed ∧
      result.failure.map RunFailure.code = some "queue_full" ∧
      result.validate = .ok () := by
  obtain ⟨row, hrow, hfilled⟩ := h
  obtain ⟨old, clockMs, _, hevent⟩ := hfilled.event
  obtain ⟨result, hresult⟩ :=
    projectRunSnapshot_total (hledger.run id row hrow) hfilled.timely
  obtain ⟨hof, _, hvalid⟩ := projectRunSnapshot_writes hresult
  obtain ⟨retryable, hfailure⟩ := projectFailure_failureEvent clockMs .queueFull
  have hkind : projectKind (storedEvent old ((Evidence.failed .queueFull).newEvent clockMs)
      row.updatedAt) (some row.status) =
      .ok (.failed ⟨"queue_full", "bounded run queue is full", retryable⟩) := by
    show (projectFailure _ >>= fun failure => _) = _
    rw [show (storedEvent old ((Evidence.failed .queueFull).newEvent clockMs)
      row.updatedAt).payload = (failureEvent clockMs FailureCause.queueFull.evidence.1
        FailureCause.queueFull.evidence.2).payload from rfl, hfailure]
    rfl
  have hcode := failure_of_projectRunSnapshot hresult hevent hkind
  refine ⟨result, ?_, hof.state.trans hfilled.status, by rw [hcode]; rfl, hvalid⟩
  have hby : runById db id = some row := hrow
  unfold runSnapshot
  rw [hby]
  simp only [hresult, ok_bind]

/-- The handler answers the receipt of a filled run. -/
theorem Filled.reply {run : RunRecord} (h : Filled db run.id) (hledger : Ledger db) :
    ∃ result, runSnapshot db run.id = .ok (some result) ∧ result.state = .failed ∧
      result.failure.map RunFailure.code = some "queue_full" ∧
      RunSubmission.validate ⟨.queueFull, result⟩ = .ok () ∧
      replySubmit db (.ok ⟨run, .queueFull⟩) = .ok (.runSubmitted ⟨.queueFull, result⟩) := by
  obtain ⟨result, hresult, hstate, hcode, hvalid⟩ := h.snapshot hledger
  have hsubmission : RunSubmission.validate ⟨.queueFull, result⟩ = .ok () := by
    simp [RunSubmission.validate, hvalid, hstate, hcode]
  refine ⟨result, hresult, hstate, hcode, hsubmission, ?_⟩
  have hsnapshot : Daemon.snapshot db run.id = .ok result := snapshot_eq_ok.mpr hresult
  simp [replySubmit, mapErr, hsnapshot, dispositionOf, hsubmission, orElse]

/-! ## Calm executions -/

/-- The run of a `submit` that was refused because the queue is full. -/
def rejectedRun : Admission → Rejection → Option RunId
  | .legacy run _, .queueFull => some run.id
  | _, _ => none

theorem runId_of_rejectedRun (h : rejectedRun admission why = some id) : admission.runId = id := by
  cases admission <;> cases why <;> cases h
  rfl

/-- The run whose rejection is in progress at a place. -/
def ClientPc.rejecting : ClientPc → Option RunId
  | .rejectRead admission why _ | .rejectWrite admission why _ => rejectedRun admission why
  | _ => none

/-- The condition on a step.

* `full`: a `submit` finds the queue full only while its run is queued, or
  after it failed with `queue_full`.
* `alone`: while a run is being rejected, no other transition of it
  commits.
* `clock`: the rejection is written at a reading that the run accepts. -/
structure Calm (D : Digests) (m : Machine) (l : Label) : Prop where
  full : ∀ c env call run request, l = .client c env → m.clients c = some call →
    call.pc = .trySend (.legacy run request) → m.capacity ≤ m.queue.length →
    Pending m.store run.id
  alone : ∀ c call id expected move clockMs now marker, m.clients c = some call →
    call.pc.rejecting = some id →
    storeCall D m l = some (.transition id expected move clockMs now marker) →
    move = failedMove .queueFull
  clock : ∀ id expected clockMs now marker row,
    storeCall D m l =
      some (.transition id expected (failedMove .queueFull) clockMs now marker) →
    m.store.runs.find id = some row → row.AcceptsReading now

/-- What a place of a refused submission holds. -/
def PlaceFilled (db : RunDb) : ClientPc → Prop
  | .rejectRead admission why _ | .rejectWrite admission why _ =>
    ∀ id, rejectedRun admission why = some id → Pending db id
  | .rejectReread admission why => ∀ id, rejectedRun admission why = some id → Filled db id
  | .rejectActive admission why record | .rejectAdmitted admission why record =>
    ∀ id, rejectedRun admission why = some id →
      record.id = id ∧ record.status = .failed ∧ Filled db id
  | .leave admission outcome =>
    ∀ run request record, admission = .legacy run request → outcome = .queueFull record →
      record.status = .failed ∧ Filled db record.id
  | _ => True

/-- What a receipt says. -/
def AnswerFilled (db : RunDb) : Answer → Prop
  | .submitted (.ok ⟨run, .queueFull⟩) => run.status = .failed ∧ Filled db run.id
  | _ => True

def NextFilled (db : RunDb) : ClientNext → Prop
  | .goto pc => PlaceFilled db pc
  | .done answer => AnswerFilled db answer

theorem AnswerFilled.mono (h : AnswerFilled db answer)
    (hext : Extends db db') : AnswerFilled db' answer := by
  unfold AnswerFilled at h ⊢
  split at h
  · exact ⟨h.1, h.2.mono hext⟩
  · trivial

/-- A pending run stays pending while it is rejected. -/
theorem Pending.step (h : Pending m.store id) (hcalm : Calm D m l) (hcall : m.clients c = some call)
    (hpc : call.pc.rejecting = some id) (hstep : Manager.step D m l = some m') :
    Pending m'.store id := by
  have hext := extends_of_step hstep
  rcases h with ⟨row, hrow, hqueued⟩ | hfilled
  · rw [step_store hstep]
    cases hstore : storeCall D m l with
    | none => exact .inl ⟨row, hrow, hqueued⟩
    | some storeCall =>
      by_cases htransition : ∃ expected move clockMs now marker,
          storeCall = .transition id expected move clockMs now marker
      · obtain ⟨expected, move, clockMs, now, marker, rfl⟩ := htransition
        have hmove := hcalm.alone c call id expected move clockMs now marker hcall hpc hstore
        subst hmove
        have htime := hcalm.clock id expected clockMs now marker row hstore hrow
        rcases apply_cases D.submitDigest m.store (.transition id expected
          (failedMove .queueFull) clockMs now marker) with hsame | hcommit
        · left
          show ∃ row, (StoreCall.apply _ _ _).runs.find id = some row ∧ _
          rw [hsame]
          exact ⟨row, hrow, hqueued⟩
        · obtain ⟨stored, hstored⟩ := map_fst_eq_ok hcommit
          obtain ⟨run, hrun, _, _, hadv⟩ := transitionRun_writes hstored
          have heq : run = row := some.inj (hrun.symm.trans hrow)
          subst heq
          exact .inr (filled_of_advanced hrow hadv htime)
      · left
        refine ⟨row, find_apply_of_ne hrow D.submitDigest ?_ ?_, hqueued⟩
        · intro expected move clockMs now marker heq
          exact htransition ⟨expected, move, clockMs, now, marker, heq⟩
        · intro now marker _
          rw [hqueued]
          rfl
  · exact .inr (hfilled.mono hext)

/-- Steps of other threads keep what a place holds. -/
theorem PlaceFilled.other (h : PlaceFilled m.store call.pc) (hcalm : Calm D m l)
    (hcall : m.clients c = some call) (hstep : Manager.step D m l = some m') :
    PlaceFilled m'.store call.pc := by
  have hext := extends_of_step hstep
  have hpending : ∀ id, call.pc.rejecting = some id → Pending m.store id →
      Pending m'.store id := fun id hpc hid => hid.step hcalm hcall hpc hstep
  cases hpc : call.pc <;> rw [hpc] at h hpending <;> try trivial
  case rejectRead admission why fuel => exact fun id hid => hpending id hid (h id hid)
  case rejectWrite admission why fuel => exact fun id hid => hpending id hid (h id hid)
  case rejectReread admission why => exact fun id hid => (h id hid).mono hext
  case rejectActive admission why record =>
    intro id hid
    obtain ⟨hrecord, hstatus, hfilled⟩ := h id hid
    exact ⟨hrecord, hstatus, hfilled.mono hext⟩
  case rejectAdmitted admission why record =>
    intro id hid
    obtain ⟨hrecord, hstatus, hfilled⟩ := h id hid
    exact ⟨hrecord, hstatus, hfilled.mono hext⟩
  case leave admission outcome =>
    intro run request record hadmission houtcome
    obtain ⟨hstatus, hfilled⟩ := h run request record hadmission houtcome
    exact ⟨hstatus, hfilled.mono hext⟩

/-- The rejection itself. -/
theorem filled_of_rejection (hcalm : Calm D m (.client c env))
    (hcall : m.clients c = some call) (hact : clientAct D m c env call.pc =
      some (env.effect (env.transition admission.runId .queued (failedMove why.cause)), next))
    (houtcome : env.outcome D m (env.transition admission.runId .queued (failedMove why.cause)) =
      .ok ()) (hid : rejectedRun admission why = some id) :
    Filled (m.perform D (env.effect (env.transition admission.runId .queued
      (failedMove why.cause)))).store id := by
  have hstore := storeCall_client hcall hact
  obtain ⟨heffect, _⟩ := commit_of_outcome houtcome
  obtain ⟨row, hrow, _, _, hadv⟩ := transition_of_outcome houtcome
  rw [heffect] at hstore
  cases admission with
  | turn submission request => cases hid
  | legacy run request =>
    cases why with
    | unavailable => cases hid
    | disconnected => cases hid
    | queueFull =>
      cases hid
      have htime := hcalm.clock _ _ _ _ _ row hstore hrow
      exact filled_of_advanced hrow hadv htime

/-- One operation of a client keeps what its place holds. -/
theorem clientAct_filled (hcalm : Calm D m (.client c env))
    (hcall : m.clients c = some call) (h : PlaceFilled m.store call.pc)
    (hact : clientAct D m c env call.pc = some (effect, next)) :
    NextFilled (m.perform D effect).store next := by
  have hwhole := hact
  cases hpc : call.pc with
  | trySend admission =>
    rw [hpc] at hact
    simp only [clientAct] at hact
    split at hact
    · cases hact
      intro id hid
      cases admission <;> cases hid
    · split at hact
      · cases hact
        intro run request record _ hno
        cases hno
      · rename_i hlen
        cases hact
        intro id hid
        cases admission with
        | turn submission request => cases hid
        | legacy run request =>
          cases hid
          exact hcalm.full c env call run request rfl hcall hpc (Nat.le_of_not_lt hlen)
  | cloneSender admission =>
    rw [hpc] at hact
    simp only [clientAct] at hact
    split at hact
    · cases hact
      trivial
    · cases hact
      intro id hid
      cases admission <;> cases hid
  | rejectRead admission why fuel =>
    rw [hpc] at hact h
    cases fuel with
    | zero =>
      cases hact
      intro run request record _ hno
      cases hno
    | succ fuel =>
      simp only [clientAct] at hact
      split at hact
      · cases hact
        intro run request record _ hno
        cases hno
      · rename_i record hrecord
        split_ifs at hact with hterminal hqueued
        · cases hact
          intro id hid
          have hrow := getRun_eq_ok hrecord
          rw [runId_of_rejectedRun hid] at hrow
          have hstatus : record.status ≠ .queued := by
            intro heq
            rw [heq] at hterminal
            cases hterminal
          obtain ⟨hfilled, hfailed⟩ := (h id hid).filled hrow hstatus
          exact ⟨Table.pk_of_find hrow, hfailed, hfilled⟩
        · cases hact
          intro run request record _ hno
          cases hno
        · cases hact
          exact h
  | rejectWrite admission why fuel =>
    rw [hpc] at hact h
    simp only [clientAct] at hact
    split at hact
    · rename_i houtcome
      cases hact
      intro id hid
      exact filled_of_rejection hcalm hcall hwhole houtcome hid
    · cases hact
      exact h
    · cases hact
      intro run request record _ hno
      cases hno
  | rejectReread admission why =>
    rw [hpc] at hact h
    simp only [clientAct] at hact
    split at hact
    · cases hact
      intro run request record _ hno
      cases hno
    · rename_i record hrecord
      cases hact
      intro id hid
      have hrow := getRun_eq_ok hrecord
      rw [runId_of_rejectedRun hid] at hrow
      obtain ⟨row, hrow', hfilled⟩ := h id hid
      have heq : row = record := some.inj (hrow'.symm.trans hrow)
      subst heq
      exact ⟨Table.pk_of_find hrow, hfilled.status, ⟨row, hrow, hfilled⟩⟩
  | rejectActive admission why record =>
    rw [hpc] at hact h
    cases hact
    exact h
  | rejectAdmitted admission why record =>
    rw [hpc] at hact h
    cases hact
    intro run request other hadmission houtcome
    subst hadmission
    cases why <;> cases houtcome
    obtain ⟨hid, hstatus, hfilled⟩ := h run.id rfl
    exact ⟨hstatus, hid ▸ hfilled⟩
  | leave admission outcome =>
    rw [hpc] at hact h
    cases hact
    cases admission with
    | legacy run request =>
      cases outcome with
      | queueFull record => exact h run request record rfl rfl
      | enqueued => trivial
      | failed error => trivial
    | turn submission request => cases outcome <;> trivial
  | insertAdmitted admission =>
    rw [hpc] at hact
    simp only [clientAct] at hact
    split at hact
    · cases hact
      cases admission <;> trivial
    · cases hact
      trivial
  | cancelRead runId fuel =>
    rw [hpc] at hact
    cases fuel with
    | zero =>
      cases hact
      trivial
    | succ fuel =>
      simp only [clientAct] at hact
      repeat' split at hact
      all_goals cases hact
      all_goals trivial
  | _ =>
    -- no other place leads into a rejection or answers a full queue
    rw [hpc] at hact
    simp only [clientAct] at hact
    repeat' split at hact
    all_goals cases hact
    all_goals trivial

/-- Refused submissions and their receipts. -/
structure Filling (m : Machine) : Prop where
  ledger : Ledger m.store
  told : Told (fun m call => PlaceFilled m.store call.pc)
    (fun m _ answer => AnswerFilled m.store answer) m

theorem Filling.step (h : Filling m) (hcalm : Calm D m l) (hstep : Manager.step D m l = some m') :
    Filling m' := by
  refine ⟨ledger_of_step h.ledger hstep, h.told.step hstep ?_ ?_ ?_ ?_⟩
  · intro c op _
    cases op <;> trivial
  · rintro c env call effect next rfl hcall hact
    have hnext := clientAct_filled hcalm hcall (h.told.clients c call hcall) hact
    rw [step_client_of_act hcall hact] at hstep
    cases hstep
    cases next <;> exact hnext
  · intro c call hcall hplace
    exact hplace.other hcalm hcall hstep
  · intro op answer hanswer
    exact hanswer.mono (extends_of_step hstep)

/-- In every execution of calm steps, each receipt with the disposition
`QueueFull` names a run that failed with `queue_full`, and the handler
answers it with a submission that passes its checks. -/
theorem queueFull_receipt_of_calm {queueCapacity : Nat}
    (h : Steps (Manager.step D) (Calm D) (.initial queueCapacity) m) {c : ClientId}
    {request : RunRequest} {run : RunRecord}
    (hreturned : .returned c (.submit request) (.submitted (.ok ⟨run, .queueFull⟩)) ∈
      m.history) :
    run.status = .failed ∧
      ∃ result, runSnapshot m.store run.id = .ok (some result) ∧ result.state = .failed ∧
        result.failure.map RunFailure.code = some "queue_full" ∧
        RunSubmission.validate ⟨.queueFull, result⟩ = .ok () ∧
        replySubmit m.store (.ok ⟨run, .queueFull⟩) =
          .ok (.runSubmitted ⟨.queueFull, result⟩) := by
  have hfilling : Filling m := by
    refine h.invariant (fun _ _ _ hinv hcalm hstep => hinv.step hcalm hstep) ?_
    exact ⟨.empty, fun _ _ hcall => (by cases hcall), fun _ _ _ hmem => (by cases hmem)⟩
  obtain ⟨hstatus, hfilled⟩ := hfilling.told.answers c _ _ hreturned
  exact ⟨hstatus, hfilled.reply hfilling.ledger⟩

/-! ## A full queue -/

/-- The condition on a step where no run is moved but by a rejection. -/
def quietStep (D : Digests) (m : Machine) (l : Label) : Bool :=
  (match storeCall D m l with
    | some (.transition id _ move _ now _) =>
      move = failedMove .queueFull && (m.store.runs.find id).all
        (fun row => row.createdAt.ms ≤ now.ms && now.ms ≤ maxRfc3339Ms)
    | _ => true) &&
  match l with
    | .client c _ =>
      match m.clients c with
      | some ⟨_, .trySend (.legacy run _)⟩ =>
        (m.store.runs.find run.id).any (fun row => row.status = .queued)
      | _ => true
    | _ => true

theorem calm_of_quietStep (h : quietStep D m l) : Calm D m l := by
  unfold quietStep at h
  rw [Bool.and_eq_true] at h
  obtain ⟨hmove, hsend⟩ := h
  refine ⟨?_, ?_, ?_⟩
  · rintro c env ⟨op, pc⟩ run request rfl hcall rfl _
    simp only [hcall] at hsend
    obtain ⟨row, hrow, hstatus⟩ := (any_eq_true _ _).mp hsend
    exact .inl ⟨row, hrow, by simpa using hstatus⟩
  · intro c call id expected move clockMs now marker _ _ hstore
    simp only [hstore, Bool.and_eq_true, decide_eq_true_eq] at hmove
    exact hmove.1
  · intro id expected clockMs now marker row hstore hrow
    simp only [hstore, hrow, Bool.and_eq_true, decide_eq_true_eq, all_some] at hmove
    exact hmove.2

/-- A client submits the sample request and fills a queue of one place. -/
def fillQueue : List Label :=
  .call 0 (.submit sampleRequest) :: List.replicate 6 (.client 0 (sampleEnv 1))

/-- Another client submits its request up to `try_send`. -/
def submitSecond : List Label :=
  .call 1 (.submit secondRequest) :: List.replicate 4 (.client 1 (sampleEnv 2))

/-- The refusal of the second request. -/
def refuseSecond : List Label := List.replicate 7 (.client 1 (sampleEnv 2))

def refusedMachine : Machine :=
  (run (step sampleDigests) (.initial 1) (fillQueue ++ submitSecond ++ refuseSecond)).getD
    (.initial 1)

/-- The row of the second request after its refusal. -/
def refusedRow : RunRecord :=
  (queuedRun (newRunOf sampleDigests secondRequest) ⟨2⟩ (sampleEnv 2).now).advance .failed
    (sampleEnv 2).now

theorem queueFull_receipt_of_calm_sample :
    refusedRow.status = .failed ∧
      ∃ result, runSnapshot refusedMachine.store ⟨2⟩ = .ok (some result) ∧
        result.state = .failed ∧ result.failure.map RunFailure.code = some "queue_full" ∧
        RunSubmission.validate ⟨.queueFull, result⟩ = .ok () ∧
        replySubmit refusedMachine.store (.ok ⟨refusedRow, .queueFull⟩) =
          .ok (.runSubmitted ⟨.queueFull, result⟩) := by
  have hrun : run (fun m l => if quietStep sampleDigests m l then step sampleDigests m l
      else none) (.initial 1) (fillQueue ++ submitSecond ++ refuseSecond) =
        some refusedMachine := rfl
  have hsteps : Steps (step sampleDigests) (Calm sampleDigests) (.initial 1) refusedMachine :=
    steps_of_checked_run (fun _ _ => calm_of_quietStep) hrun
  have hreturned : Observation.returned 1 (.submit secondRequest)
      (.submitted (.ok ⟨refusedRow, .queueFull⟩)) ∈ refusedMachine.history :=
    List.mem_cons_self
  exact queueFull_receipt_of_calm hsteps hreturned

/-- A third client cancels the second run before the queue is found full. -/
def cancelSecond : List Label :=
  .call 2 (.cancel ⟨2⟩) :: List.replicate 3 (.client 2 (sampleEnv 3))

def overtakenMachine : Machine :=
  (run (step sampleDigests) (.initial 1)
    (fillQueue ++ submitSecond ++ cancelSecond ++ List.replicate 5 (.client 1 (sampleEnv 2)))).getD
    (.initial 1)

/-- A cancelled run is answered as `QueueFull`. -/
theorem queueFull_receipt_of_cancelled_run :
    ¬ ∀ (D : Digests) (queueCapacity : Nat) (m : Machine) (c : ClientId)
        (request : RunRequest) (run : RunRecord),
      Steps (step D) anyStep (.initial queueCapacity) m →
      .returned c (.submit request) (.submitted (.ok ⟨run, .queueFull⟩)) ∈ m.history →
      run.status = .failed ∧
        ∃ result, runSnapshot m.store run.id = .ok (some result) ∧ result.state = .failed ∧
          result.failure.map RunFailure.code = some "queue_full" ∧
          RunSubmission.validate ⟨.queueFull, result⟩ = .ok () ∧
          replySubmit m.store (.ok ⟨run, .queueFull⟩) =
            .ok (.runSubmitted ⟨.queueFull, result⟩) := by
  intro h
  have hrun : run (step sampleDigests) (.initial 1) (fillQueue ++ submitSecond ++
      cancelSecond ++ List.replicate 5 (.client 1 (sampleEnv 2))) = some overtakenMachine := rfl
  have hreturned : Observation.returned 1 (.submit secondRequest) (.submitted (.ok
      ⟨(queuedRun (newRunOf sampleDigests secondRequest) ⟨2⟩ ⟨5, by decide⟩).advance .cancelled
        ⟨5, by decide⟩, .queueFull⟩)) ∈ overtakenMachine.history := List.mem_cons_self
  obtain ⟨hstatus, _⟩ := h _ _ _ _ _ _ (steps_of_run hrun) hreturned
  cases hstatus

end Abbey.Manager
