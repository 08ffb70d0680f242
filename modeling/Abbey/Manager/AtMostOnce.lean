import Abbey.Manager.Effects

/-!
# Every logical request runs at most once

Two invariants of the machine, over any interleaving and any number of
crashes.

`Bound` ties a run to the request that a client submitted: the row of the
run carries the key and the digest of the request.  Every place of a
submission that holds a run holds a bound one (`PcSound`), so every
receipt names the one row of its key (`AnswerSound`).

`ExecutedOnce` is the exclusion of the executor.  A run is executed only
after its status has left `queued` and `starting`, and it is entered only
by the transition from `starting` to `running`.  The same run may be in
the queue twice; the second item finds the status moved on and is
dropped.
-/

namespace Abbey.Manager

open Abbey.Lib Abbey.Run

variable {D : Digests} {m m' : Machine} {db db' : RunDb}
variable {admission : Admission} {next : ClientNext} {pc : ClientPc} {effect : Effect}
  {now : Instant} {P : Machine → Label → Prop} {queueCapacity : Nat}
variable {c : ClientId} {env : Env} {op : Operation} {id : RunId} {row : RunRecord}
  {request : V4SubmitTurn} {nowMs messageId : Nat}

/-! ## The run of a request -/

/-- The row under an identifier is the row of the request. -/
def Bound (D : Digests) (db : RunDb) : Operation → RunId → Prop
  | .submit request, id =>
    ∃ run, db.runs.find id = some run ∧ run.idempotencyKey = request.idempotencyKey ∧
      run.requestDigest = D.canonicalRequestDigest request
  | .submitV4 request, id =>
    ∃ run, db.runs.find id = some run ∧ run.idempotencyKey = request.idempotencyKey ∧
      run.requestDigest = D.submitDigest request ∧
      run.conversationId = some request.conversationId
  | .cancel _, _ | .shutdown, _ => True

theorem Bound.mono (h : Bound D db op id) (hext : Extends db db') : Bound D db' op id := by
  cases op with
  | submit request =>
    obtain ⟨run, hrun, hkey, hdigest⟩ := h
    obtain ⟨run', hrun', hlater⟩ := hext.runs id run hrun
    exact ⟨run', hrun', hlater.idempotencyKey.trans hkey, hlater.requestDigest.trans hdigest⟩
  | submitV4 request =>
    obtain ⟨run, hrun, hkey, hdigest, hconv⟩ := h
    obtain ⟨run', hrun', hlater⟩ := hext.runs id run hrun
    exact ⟨run', hrun', hlater.idempotencyKey.trans hkey,
      hlater.requestDigest.trans hdigest, hlater.conversationId.trans hconv⟩
  | cancel _ => trivial
  | shutdown => trivial

def AdmissionSound (D : Digests) (db : RunDb) (op : Operation) : Admission → Prop
  | .legacy run request => op = .submit request ∧ Bound D db op run.id
  | .turn submission request => op = .submitV4 request ∧ Bound D db op submission.runId

theorem AdmissionSound.mono (h : AdmissionSound D db op admission) (hext : Extends db db') :
    AdmissionSound D db' op admission := by
  cases admission with
  | legacy run request | turn submission request => exact ⟨h.1, h.2.mono hext⟩

/-- What a client holds at each of its places. -/
def PcSound (D : Digests) (db : RunDb) (op : Operation) : ClientPc → Prop
  | .submitCheck request | .submitConversation request | .submitCreate request =>
    op = .submit request
  | .turnCheck request => op = .submitV4 request
  | .turnAdmit request => op = .submitV4 request ∧ request.validate = .ok ()
  | .insertAdmitted admission | .cloneSender admission | .trySend admission
  | .rejectRead admission _ _ | .rejectWrite admission _ _ | .rejectReread admission _ =>
    AdmissionSound D db op admission
  | .rejectActive admission _ record | .rejectAdmitted admission _ record =>
    AdmissionSound D db op admission ∧ record.id = admission.runId
  | .leave admission outcome =>
    AdmissionSound D db op admission ∧
      ∀ record, outcome = .queueFull record → record.id = admission.runId
  | .turnFail submission | .turnReceipt submission =>
    (∃ request, op = .submitV4 request) ∧ Bound D db op submission.runId
  | .cancelRead _ _ | .cancelLookup _ _ | .cancelSignal _ _ _ | .cancelWrite _ _
  | .cancelReread _ => ∃ id, op = .cancel id
  | .shutdownSwap | .shutdownTokens | .shutdownSender | .shutdownTake | .shutdownJoin
  | .shutdownInterrupt _ _ | .shutdownVerdict => op = .shutdown

theorem PcSound.mono (h : PcSound D db op pc) (hext : Extends db db') : PcSound D db' op pc := by
  cases pc <;> simp only [PcSound] at h ⊢ <;> first
    | exact h
    | exact h.mono hext
    | exact ⟨h.1.mono hext, h.2⟩
    | exact ⟨h.1, h.2.mono hext⟩

/-- What an answer says of the store. -/
def AnswerSound (D : Digests) (db : RunDb) (op : Operation) : Answer → Prop
  | .submitted (.ok result) => Bound D db op result.run.id
  | .turn (.ok submission) => Bound D db op submission.runId
  | .submitted (.error _) | .turn (.error _) | .cancelled _ | .shutdown _ => True

theorem AnswerSound.mono (h : AnswerSound D db op answer) (hext : Extends db db') :
    AnswerSound D db' op answer := by
  cases answer with
  | submitted result =>
    cases result with
    | error _ => trivial
    | ok result => exact Bound.mono h hext
  | turn result =>
    cases result with
    | error _ => trivial
    | ok submission => exact Bound.mono h hext
  | cancelled _ => trivial
  | shutdown _ => trivial

def NextSound (D : Digests) (db : RunDb) (op : Operation) : ClientNext → Prop
  | .goto pc => PcSound D db op pc
  | .done answer => AnswerSound D db op answer

/-! ## One operation of a client -/

/-- The run that `create_or_get_run` answers is bound to its request. -/
theorem bound_of_createOrGetRun {request : RunRequest} {run : RunRecord}
    (h : createOrGetRun db (newRunOf D request) id now = .ok (db', run)) :
    (StoreCall.createOrGetRun (newRunOf D request) id now).apply D.submitDigest db = db' ∧
      Bound D db' (.submit request) run.id := by
  have hcommit : (StoreCall.createOrGetRun (newRunOf D request) id now).commit
      D.submitDigest db = .ok db' := by
    simp [StoreCall.commit, h, Except.map]
  refine ⟨by simp [StoreCall.apply, hcommit], ?_⟩
  rcases createOrGetRun_eq_ok h with ⟨hfound, hdigest, rfl⟩ | ⟨_, rfl, hinsert⟩
  · obtain ⟨hrun, hkey⟩ := runByIdempotencyKey_eq_some hfound
    exact ⟨run, hrun, hkey, hdigest⟩
  · obtain ⟨runs, events, hruns, _, _, rfl⟩ := insertRun_eq_ok.mp hinsert
    exact ⟨_, Table.find_insert_self hruns, rfl, rfl⟩

/-- The run that `v4_admit_turn` answers is bound to its request. -/
theorem bound_of_v4AdmitTurn
    (h : v4AdmitTurn D.submitDigest db request nowMs id messageId = .ok (db', submission)) :
    (StoreCall.admitTurn request nowMs id messageId).apply D.submitDigest db = db' ∧
      Bound D db' (.submitV4 request) submission.runId := by
  have hcommit : (StoreCall.admitTurn request nowMs id messageId).commit D.submitDigest db =
      .ok db' := by
    simp [StoreCall.commit, h, Except.map]
  refine ⟨by simp [StoreCall.apply, hcommit], ?_⟩
  rcases v4AdmitTurn_eq_ok h with
    ⟨existing, hfound, hdigest, hconv, hid, _, _, rfl⟩ | ⟨hnone, hnew⟩
  · obtain ⟨hrun, hkey⟩ := runByIdempotencyKey_eq_some hfound
    rw [hid]
    exact ⟨existing, hrun, hkey, hdigest, hconv⟩
  · obtain ⟨created, mid, turns, _, hinsert, _, _, hruns', _, _, _, _, hid, _⟩ :=
      admitNewTurn_writes hnew
    obtain ⟨runs, events, hruns, _, _, rfl⟩ := insertRun_eq_ok.mp hinsert
    rw [hid]
    refine ⟨queuedRun (turnRun D.submitDigest request) id created, ?_, rfl, rfl, rfl⟩
    rw [hruns']
    exact Table.find_insert_self hruns

/-- A receipt read from the store is of the run asked for. -/
theorem runId_of_submissionFor (h : submissionFor db id = .ok receipt) : receipt.runId = id := by
  unfold submissionFor at h
  simp only [bind_ok_iff, required_eq_ok, Except.ok.injEq] at h
  obtain ⟨run, hrun, _, _, _, _, _, _, rfl⟩ := h
  exact Table.pk_of_find (t := db.runs) hrun

theorem id_of_getRun (h : env.getRun m id = .ok record) : record.id = id :=
  Table.pk_of_find (getRun_eq_ok h)

theorem AdmissionSound.settled (h : AdmissionSound D db op admission)
    (hrecord : ∀ record, outcome = .queueFull record → record.id = admission.runId) :
    NextSound D db op (admission.settled outcome) := by
  cases admission with
  | legacy run request =>
    cases outcome with
    | enqueued => exact h.2
    | queueFull failed =>
      have hid : failed.id = run.id := hrecord failed rfl
      show Bound D db op failed.id
      rw [hid]
      exact h.2
    | failed error => trivial
  | turn submission request =>
    cases outcome with
    | enqueued => exact h.2
    | queueFull failed => exact ⟨⟨request, h.1⟩, h.2⟩
    | failed error => trivial

/-- The steps of `submit` and `submit_v4` before the admitted set. -/
theorem clientAct_sound_create (hsound : PcSound D m.store op pc)
    (h : clientAct D m c env pc = some (effect, next))
    (hpc : (∃ request, pc = .submitCreate request) ∨ ∃ request, pc = .turnAdmit request) :
    NextSound D (m.perform D effect).store op next := by
  rcases hpc with ⟨request, rfl⟩ | ⟨request, rfl⟩
  · have hop : op = .submit request := hsound
    subst hop
    simp only [clientAct] at h
    split at h
    · cases h
      trivial
    · split at h
      · cases h
        trivial
      · rename_i db' run hcreate
        cases h
        obtain ⟨hstore, hbound⟩ := bound_of_createOrGetRun hcreate
        rw [perform_store]
        simp only [Effect.call, storeAfter, hstore]
        split_ifs
        · exact ⟨rfl, hbound⟩
        · exact hbound
  · obtain ⟨hop, _⟩ := hsound
    subst hop
    simp only [clientAct] at h
    split at h
    · cases h
      trivial
    · split at h
      · cases h
        trivial
      · rename_i db' submission hadmission
        cases h
        obtain ⟨hstore, hbound⟩ := bound_of_v4AdmitTurn hadmission
        rw [perform_store]
        simp only [Effect.call, storeAfter, hstore]
        split_ifs
        · exact hbound
        · exact ⟨rfl, hbound⟩

/-- One operation of a client keeps what its place says. -/
theorem clientAct_sound (hsound : PcSound D m.store op pc)
    (h : clientAct D m c env pc = some (effect, next)) :
    NextSound D (m.perform D effect).store op next := by
  have hext := extends_perform D m effect
  cases pc with
  | submitCreate request => exact clientAct_sound_create hsound h (.inl ⟨request, rfl⟩)
  | turnAdmit request => exact clientAct_sound_create hsound h (.inr ⟨request, rfl⟩)
  | submitCheck request =>
    simp only [clientAct] at h
    split at h
    · cases h
      trivial
    · split at h
      · cases h
        trivial
      · split at h <;> cases h <;> exact hsound
  | submitConversation request =>
    simp only [clientAct] at h
    split at h
    · cases h
      exact hsound
    · split at h
      · cases h
        trivial
      · cases h
        exact hsound
  | turnCheck request =>
    simp only [clientAct] at h
    split at h
    · cases h
      trivial
    · split at h
      · cases h
        trivial
      · rename_i hvalid
        cases h
        exact ⟨hsound, hvalid⟩
  | insertAdmitted admission =>
    have hadm : AdmissionSound D m.store op admission := hsound
    simp only [clientAct] at h
    split at h
    · cases h
      cases admission with
      | legacy run request => exact hadm.2
      | turn submission request => exact hadm.2
    · cases h
      exact hadm.mono hext
  | cloneSender admission =>
    have hadm : AdmissionSound D m.store op admission := hsound
    simp only [clientAct] at h
    split at h <;> cases h <;> exact hadm.mono hext
  | trySend admission =>
    have hadm : AdmissionSound D m.store op admission := hsound
    simp only [clientAct] at h
    split at h
    · cases h
      exact hadm.mono hext
    · split at h
      · cases h
        exact ⟨hadm.mono hext, nofun⟩
      · cases h
        exact hadm.mono hext
  | rejectRead admission why fuel =>
    have hadm : AdmissionSound D m.store op admission := hsound
    cases fuel with
    | zero =>
      cases h
      exact ⟨hadm.mono hext, nofun⟩
    | succ fuel =>
      simp only [clientAct] at h
      split at h
      · cases h
        exact ⟨hadm.mono hext, nofun⟩
      · rename_i record hrecord
        split at h
        · cases h
          exact ⟨hadm.mono hext, id_of_getRun hrecord⟩
        · split at h
          · cases h
            exact ⟨hadm.mono hext, nofun⟩
          · cases h
            exact hadm.mono hext
  | rejectWrite admission why fuel =>
    have hadm : AdmissionSound D m.store op admission := hsound
    simp only [clientAct] at h
    split at h
    · cases h
      exact hadm.mono hext
    · cases h
      exact hadm.mono hext
    · cases h
      exact ⟨hadm.mono hext, nofun⟩
  | rejectReread admission why =>
    have hadm : AdmissionSound D m.store op admission := hsound
    simp only [clientAct] at h
    split at h
    · cases h
      exact ⟨hadm.mono hext, nofun⟩
    · rename_i record hrecord
      cases h
      exact ⟨hadm.mono hext, id_of_getRun hrecord⟩
  | rejectActive admission why record =>
    obtain ⟨hadm, hid⟩ := hsound
    cases h
    exact ⟨hadm.mono hext, hid⟩
  | rejectAdmitted admission why record =>
    obtain ⟨hadm, hid⟩ := hsound
    cases h
    refine ⟨hadm.mono hext, ?_⟩
    intro other hother
    cases why <;> cases hother
    exact hid
  | leave admission outcome =>
    obtain ⟨hadm, hrecord⟩ := hsound
    cases h
    exact (hadm.mono hext).settled hrecord
  | turnFail submission =>
    obtain ⟨hop, hbound⟩ := hsound
    simp only [clientAct] at h
    split at h <;> cases h <;> first
      | trivial
      | exact ⟨hop, hbound.mono hext⟩
  | turnReceipt submission =>
    obtain ⟨hop, hbound⟩ := hsound
    simp only [clientAct] at h
    split at h
    · cases h
      trivial
    · split at h
      · cases h
        trivial
      · rename_i receipt hreceipt
        cases h
        show Bound D m.store op receipt.runId
        rw [runId_of_submissionFor hreceipt]
        exact hbound
  | cancelRead runId fuel =>
    cases fuel with
    | zero =>
      cases h
      trivial
    | succ fuel =>
      simp only [clientAct] at h
      split at h
      · cases h
        trivial
      · split at h
        · cases h
          trivial
        · cases h
          exact hsound
  | cancelLookup record fuel =>
    simp only [clientAct] at h
    split at h <;> cases h <;> exact hsound
  | cancelSignal record token fuel | shutdownTokens | shutdownSender =>
    cases h
    exact hsound
  | cancelWrite record fuel =>
    simp only [clientAct] at h
    split at h
    · cases h
      trivial
    · split at h <;> cases h <;> trivial
  | cancelReread runId =>
    simp only [clientAct] at h
    split at h <;> cases h <;> trivial
  | shutdownSwap =>
    simp only [clientAct] at h
    cases h
    show PcSound _ _ _ (if m.shuttingDown then _ else _)
    split_ifs <;> exact hsound
  | shutdownTake =>
    simp only [clientAct] at h
    cases h
    show PcSound _ _ _ (if m.joinHandle then _ else _)
    split_ifs <;> exact hsound
  | shutdownJoin =>
    simp only [clientAct] at h
    split at h <;> cases h
    exact hsound
  | shutdownInterrupt joinFailed pc =>
    simp only [clientAct] at h
    split at h
    · cases h
    · cases h
      exact hsound
    · split at h
      · cases h
        trivial
      · split at h <;> cases h <;> trivial
  | shutdownVerdict =>
    cases h
    trivial

/-! ## Receipts along an execution -/

/-- What clients hold, and what they were told, is bound. -/
structure Sound (D : Digests) (m : Machine) : Prop where
  ledger : Ledger m.store
  told : Told (fun m call => PcSound D m.store call.op call.pc)
    (fun m op answer => AnswerSound D m.store op answer) m

theorem PcSound.entry (op : Operation) : PcSound D db op op.entry := by
  cases op with
  | submit request | submitV4 request | shutdown => exact rfl
  | cancel id => exact ⟨id, rfl⟩

theorem Sound.step (h : Sound D m) (hstep : Manager.step D m l = some m') : Sound D m' := by
  have hext := extends_of_step hstep
  refine ⟨ledger_of_step h.ledger hstep, h.told.step hstep ?_ ?_ ?_ ?_⟩
  · intro c op _
    exact .entry op
  · rintro c env call effect next rfl hcall hact
    have hnext := clientAct_sound (h.told.clients c call hcall) hact
    rw [step_client_of_act hcall hact] at hstep
    cases hstep
    cases next <;> exact hnext
  · intro c call _ hsound
    exact hsound.mono hext
  · intro op answer hanswer
    exact hanswer.mono hext

theorem Sound.reachable (h : Steps (Manager.step D) P (.initial queueCapacity) m) : Sound D m := by
  refine h.invariant (fun _ _ _ hinv _ hstep => hinv.step hstep) ?_
  exact ⟨.empty, fun _ _ hcall => (by cases hcall), fun _ _ _ hmem => (by cases hmem)⟩

/-! ## The executor -/

/-- The runs that the executor was called for, newest first. -/
def executedIds (history : List Observation) : List RunId :=
  history.filterMap (fun
    | .executed id => some id
    | _ => none)

/-- A run whose status has left `queued` and `starting`. -/
def Started (db : RunDb) (id : RunId) : Prop :=
  ∃ run, db.runs.find id = some run ∧ RunState.running.rank ≤ run.status.rank

theorem Started.mono (h : Started db id) (hext : Extends db db') : Started db' id := by
  obtain ⟨run, hrun, hrank⟩ := h
  obtain ⟨run', hrun', hlater⟩ := hext.runs id run hrun
  exact ⟨run', hrun', hrank.trans hlater.rank_le⟩

/-- The exclusion of the executor: executed runs have started, and the run
that the worker is about to execute has started and was not executed. -/
structure ExecutedOnce (m : Machine) : Prop where
  nodup : (executedIds m.history).Nodup
  started : ∀ id ∈ executedIds m.history, Started m.store id
  pending : ∀ item token, m.worker = .execute item token →
    Started m.store item.runId ∧ item.runId ∉ executedIds m.history

theorem executedIds_perform (h : ∀ id, effect ≠ .execute id) :
    executedIds (m.perform D effect).history = executedIds m.history := by
  cases effect <;> first
    | rfl
    | exact absurd rfl (h _)

theorem not_execute_of_isClient (h : effect.isClient) (id : RunId) :
    effect ≠ .execute id := by
  intro heq
  rw [heq] at h
  cases h

theorem effect_ne_execute (env : Env) (call : StoreCall) (id : RunId) :
    env.effect call ≠ .execute id :=
  not_execute_of_isClient (isClient_effect env call) id

/-- The executor is called at its own place only. -/
theorem workerAct_execute {pc pc' : WorkerPc} (h : workerAct D m env pc = some (effect, pc'))
    (heffect : effect = .execute id) :
    ∃ item token, pc = .execute item token ∧ id = item.runId ∧ pc' = .executing item token := by
  unfold workerAct at h
  repeat' split at h
  all_goals cases h
  all_goals first
    | exact absurd heffect (effect_ne_execute _ _ _)
    | exact absurd heffect (not_execute_of_isClient (interruptAct_effect ‹_›).1 _)
    | (cases heffect; exact ⟨_, _, rfl, rfl, rfl⟩)
    | cases heffect

/-- The place before the executor is entered only by the transition from
`starting` to `running`. -/
theorem workerAct_enters_execute {pc pc' : WorkerPc}
    (h : workerAct D m env pc = some (effect, pc')) (hpc : pc' = .execute item token) :
    pc = .run item token ∧
      env.outcome D m (env.transition item.runId .starting runningMove) = .ok () ∧
      effect = env.effect (env.transition item.runId .starting runningMove) := by
  unfold workerAct at h
  repeat' split at h
  all_goals cases h
  all_goals first
    | (cases hpc; exact ⟨rfl, ‹_›, rfl⟩)
    | cases hpc

/-- A worker step keeps the exclusion. -/
theorem ExecutedOnce.worker {pc : WorkerPc} (h : ExecutedOnce m)
    (hact : workerAct D m env m.worker = some (effect, pc)) :
    ExecutedOnce { m.perform D effect with worker := pc } := by
  have hext := extends_perform D m effect
  by_cases hexecute : ∃ id, effect = .execute id
  · obtain ⟨id, rfl⟩ := hexecute
    obtain ⟨item, token, hworker, rfl, rfl⟩ := workerAct_execute hact rfl
    obtain ⟨hstarted, hnew⟩ := h.pending item token hworker
    refine ⟨List.nodup_cons.mpr ⟨hnew, h.nodup⟩, ?_, nofun⟩
    intro id hid
    rcases List.mem_cons.mp hid with rfl | hold
    · exact hstarted
    · exact h.started id hold
  · have hids : executedIds (m.perform D effect).history = executedIds m.history :=
      executedIds_perform (fun id heq => hexecute ⟨id, heq⟩)
    refine ⟨?_, ?_, ?_⟩
    · show (executedIds (m.perform D effect).history).Nodup
      rw [hids]
      exact h.nodup
    · intro id hid
      have hold : id ∈ executedIds m.history := hids ▸ hid
      exact (h.started id hold).mono hext
    · intro item token hpc
      obtain ⟨_, houtcome, heffect⟩ := workerAct_enters_execute hact hpc
      obtain ⟨run, hrun, hstatus, _, hadv⟩ := transition_of_outcome houtcome
      rw [← heffect] at hadv
      have hid : run.id = item.runId := Table.pk_of_find hrun
      refine ⟨⟨run.advance .running env.now, ?_, le_refl _⟩, ?_⟩
      · show (m.perform D effect).store.runs.find item.runId = _
        rw [hadv.runs, if_pos hid.symm]
        rfl
      · -- an executed run has left `starting`, and this one was found there
        show item.runId ∉ executedIds (m.perform D effect).history
        rw [hids]
        intro hexecuted
        obtain ⟨run', hrun', hrank⟩ := h.started _ hexecuted
        rw [hrun] at hrun'
        cases hrun'
        rw [hstatus] at hrank
        exact absurd hrank (by decide)

/-- A step that is not the worker's keeps the exclusion. -/
theorem ExecutedOnce.other (h : ExecutedOnce m) (hext : Extends m.store m'.store)
    (hids : executedIds m'.history = executedIds m.history)
    (hworker : ∀ item token, m'.worker = .execute item token →
      m.worker = .execute item token) : ExecutedOnce m' := by
  refine ⟨?_, ?_, ?_⟩
  · rw [hids]
    exact h.nodup
  · intro id hid
    rw [hids] at hid
    exact (h.started id hid).mono hext
  · intro item token hpc
    obtain ⟨hstarted, hnew⟩ := h.pending item token (hworker item token hpc)
    rw [hids]
    exact ⟨hstarted.mono hext, hnew⟩

theorem executedIds_resume : executedIds (m.resume c op next).history = executedIds m.history := by
  cases next <;> rfl

theorem worker_resume : (m.resume c op next).worker = m.worker := by
  cases next <;> rfl

theorem ExecutedOnce.step (h : ExecutedOnce m)
    (hstep : Manager.step D m l = some m') : ExecutedOnce m' := by
  have hext := extends_of_step hstep
  cases step_cases hstep with
  | worker env effect pc hact => exact h.worker hact
  | client c env call effect next hcall hact =>
    refine h.other hext ?_ ?_
    · rw [executedIds_resume]
      exact executedIds_perform (not_execute_of_isClient (clientAct_isClient hact))
    · intro item token hpc
      rw [worker_resume, perform_worker] at hpc
      exact hpc
  | call | write => exact h.other hext rfl (fun _ _ hpc => hpc)
  | attempt | workerPanic | crash => exact h.other hext rfl nofun

theorem ExecutedOnce.reachable (h : Steps (Manager.step D) P (.initial queueCapacity) m) :
    ExecutedOnce m := by
  refine h.invariant (fun _ _ _ hinv _ hstep => hinv.step hstep) ?_
  exact ⟨List.nodup_nil, nofun, nofun⟩

/-! ## Conflicts -/

/-- `create_or_get_run` refuses another digest under a used key. -/
theorem createOrGetRun_conflict {request : RunRequest}
    (hrow : runByIdempotencyKey db request.idempotencyKey = some row)
    (hdigest : row.requestDigest ≠ D.canonicalRequestDigest request) :
    createOrGetRun db (newRunOf D request) id now = .error .idempotencyConflict := by
  have hvalid : validateNewRun (newRunOf D request) = .ok () := by
    unfold validateNewRun
    exact ensure_eq_ok.mpr (D.canonical_isDigest request)
  have hfound : runByIdempotencyKey db (newRunOf D request).idempotencyKey = some row := hrow
  have hother : ¬ row.requestDigest = (newRunOf D request).requestDigest := hdigest
  unfold createOrGetRun
  rw [hvalid, ok_bind, hfound]
  exact if_neg hother

/-- `v4_admit_turn` refuses another digest or another conversation under a
used key. -/
theorem v4AdmitTurn_conflict (hvalid : request.validate = .ok ())
    (hrow : runByIdempotencyKey db request.idempotencyKey = some row)
    (hother : row.requestDigest ≠ D.submitDigest request ∨
      row.conversationId ≠ some request.conversationId) :
    v4AdmitTurn D.submitDigest db request nowMs id messageId = .error .idempotencyConflict := by
  have hguard : (decide (row.requestDigest = D.submitDigest request) &&
      decide (row.conversationId = some request.conversationId)) = false := by
    rcases hother with h | h <;> simp [h]
  unfold v4AdmitTurn
  rw [hvalid]
  simp only [orElse, ok_bind, hrow, duplicateSubmission, hguard, ensure]
  rfl

/-- A conflicting `submit` is refused at its call of `create_or_get_run`,
and the store stays as it is. -/
theorem step_submit_conflict {request : RunRequest}
    (hclient : m.clients c = some ⟨.submit request, .submitCreate request⟩)
    (hfault : env.fault = false)
    (hrow : runByIdempotencyKey m.store request.idempotencyKey = some row)
    (hdigest : row.requestDigest ≠ D.canonicalRequestDigest request) :
    step D m (.client c env) = some ((m.setClient c none).observe
      (.returned c (.submit request)
        (.submitted (.error (.store .idempotencyConflict))))) := by
  have hcreate : createOrGetRun m.store (newRunOf D request) env.runId env.now =
      .error .idempotencyConflict := createOrGetRun_conflict hrow hdigest
  simp only [step, hclient, clientAct, hfault, hcreate]
  rfl

/-- A conflicting `submit_v4` is refused at its call of `v4_admit_turn`. -/
theorem step_submitV4_conflict (hvalid : request.validate = .ok ())
    (hclient : m.clients c = some ⟨.submitV4 request, .turnAdmit request⟩)
    (hfault : env.fault = false)
    (hrow : runByIdempotencyKey m.store request.idempotencyKey = some row)
    (hother : row.requestDigest ≠ D.submitDigest request ∨
      row.conversationId ≠ some request.conversationId) :
    step D m (.client c env) = some ((m.setClient c none).observe
      (.returned c (.submitV4 request)
        (.turn (.error (.store .idempotencyConflict))))) := by
  have hadmission : v4AdmitTurn D.submitDigest m.store request env.clockMs.toNat env.runId
      env.messageId = .error .idempotencyConflict := v4AdmitTurn_conflict hvalid hrow hother
  simp only [step, hclient, clientAct, hfault, hadmission]
  rfl

/-! ## Whole executions -/

/-- Along every execution from a reachable machine, a key keeps its one
row. -/
theorem key_of_steps {run run' : RunRecord} (hledger : Ledger m.store)
    (hsteps : Steps (step D) anyStep m m') (hrun : m.store.runs.find id = some run)
    (hrun' : m'.store.runs.find id' = some run') (hkey : run.idempotencyKey = run'.idempotencyKey) :
    id = id' := by
  obtain ⟨later, hlater, hsame⟩ := (extends_of_steps hsteps).runs id run hrun
  have hkeys : later.idempotencyKey = run'.idempotencyKey := hsame.idempotencyKey.trans hkey
  exact (ledger_of_steps hsteps hledger).keys id id' later run' hlater hrun' hkeys

/-- Every logical request runs at most once.  In every machine that any
interleaving of clients, worker, shutdowns and crashes reaches:

* a key has one row, now and later;
* a receipt names the row of its key, with the digest of its request;
* a submission with another digest or conversation under a used key is
  refused by its admission call, which leaves the store as it is;
* no run was given to the executor twice. -/
theorem request_executes_at_most_once {queueCapacity : Nat}
    (h : Steps (step D) anyStep (.initial queueCapacity) m) :
    (∀ m' id id' run run', Steps (step D) anyStep m m' →
      m.store.runs.find id = some run → m'.store.runs.find id' = some run' →
      run.idempotencyKey = run'.idempotencyKey → id = id') ∧
    (∀ c request result,
      .returned c (.submit request) (.submitted (.ok result)) ∈ m.history →
      ∃ row, m.store.runs.find result.run.id = some row ∧
        row.idempotencyKey = request.idempotencyKey ∧
        row.requestDigest = D.canonicalRequestDigest request) ∧
    (∀ c request submission,
      .returned c (.submitV4 request) (.turn (.ok submission)) ∈ m.history →
      ∃ row, m.store.runs.find submission.runId = some row ∧
        row.idempotencyKey = request.idempotencyKey ∧
        row.requestDigest = D.submitDigest request ∧
        row.conversationId = some request.conversationId) ∧
    (∀ c op request env row, m.clients c = some ⟨op, .submitCreate request⟩ →
      env.fault = false →
      runByIdempotencyKey m.store request.idempotencyKey = some row →
      row.requestDigest ≠ D.canonicalRequestDigest request →
      step D m (.client c env) = some ((m.setClient c none).observe
        (.returned c (.submit request)
          (.submitted (.error (.store .idempotencyConflict)))))) ∧
    (∀ c op request env row, m.clients c = some ⟨op, .turnAdmit request⟩ →
      env.fault = false →
      runByIdempotencyKey m.store request.idempotencyKey = some row →
      (row.requestDigest ≠ D.submitDigest request ∨
        row.conversationId ≠ some request.conversationId) →
      step D m (.client c env) = some ((m.setClient c none).observe
        (.returned c (.submitV4 request)
          (.turn (.error (.store .idempotencyConflict)))))) ∧
    (executedIds m.history).Nodup := by
  have hsound : Sound D m := Sound.reachable h
  have hexecuted : ExecutedOnce m := ExecutedOnce.reachable h
  refine ⟨?_, ?_, ?_, ?_, ?_, hexecuted.nodup⟩
  · intro m' id id' run run' hsteps hrun hrun' hkey
    exact key_of_steps hsound.ledger hsteps hrun hrun' hkey
  · intro c request result hmem
    exact hsound.told.answers c (.submit request) _ hmem
  · intro c request submission hmem
    exact hsound.told.answers c (.submitV4 request) _ hmem
  · intro c op request env row hclient hfault hrow hdigest
    have hop : op = .submit request := hsound.told.clients c _ hclient
    subst hop
    exact step_submit_conflict hclient hfault hrow hdigest
  · intro c op request env row hclient hfault hrow hother
    obtain ⟨hop, hvalid⟩ := hsound.told.clients c _ hclient
    change op = .submitV4 request at hop
    subst hop
    exact step_submitV4_conflict hvalid hclient hfault hrow hother

/-- The labels of one client. -/
def Label.isBy (c : ClientId) : Label → Bool
  | .call c' _ | .client c' _ => c' = c
  | _ => false

/-- One client submits the sample request and creates its run. -/
def submitSample : List Label :=
  [.call 0 (.submit sampleRequest), .client 0 (sampleEnv 1), .client 0 (sampleEnv 1)]

/-- Another client submits another request under the same key. -/
def submitRival : List Label :=
  [.call 1 (.submit rivalRequest), .client 1 (sampleEnv 2), .client 1 (sampleEnv 2),
    .client 1 (sampleEnv 2)]

def sampleMachine : Machine :=
  (run (step sampleDigests) (.initial 1) submitSample).getD (.initial 1)

def rivalMachine : Machine :=
  (run (step sampleDigests) sampleMachine submitRival).getD sampleMachine

theorem sampleMachine_reached : Steps (step sampleDigests) anyStep (.initial 1) sampleMachine := by
  have hrun : run (step sampleDigests) (.initial 1) submitSample = some sampleMachine := rfl
  exact steps_of_run hrun

/-- The second client before it asks for the run. -/
def waitingMachine : Machine :=
  (run (step sampleDigests) sampleMachine (submitRival.take 3)).getD sampleMachine

theorem waitingMachine_reached :
    Steps (step sampleDigests) anyStep (.initial 1) waitingMachine := by
  have hrun : run (step sampleDigests) sampleMachine (submitRival.take 3) =
      some waitingMachine := rfl
  exact sampleMachine_reached.trans (steps_of_run hrun)

theorem request_executes_at_most_once_sample :
    step sampleDigests waitingMachine (.client 1 (sampleEnv 2)) =
      some ((waitingMachine.setClient 1 none).observe
        (.returned 1 (.submit rivalRequest)
          (.submitted (.error (.store .idempotencyConflict))))) :=
  (request_executes_at_most_once waitingMachine_reached).2.2.2.1 1 (.submit rivalRequest)
    rivalRequest (sampleEnv 2)
    (queuedRun (newRunOf sampleDigests sampleRequest) ⟨1⟩ ⟨5, by decide⟩)
    rfl rfl rfl (by decide +kernel)

/-- A conflicting `submit` may leave a conversation behind: it creates the
conversation of its request before it asks for the run. -/
theorem conflicting_submit_creates_conversation :
    ¬ ∀ (D : Digests) (queueCapacity : Nat) (m m' : Machine) (c : ClientId)
        (request : RunRequest) (row : RunRecord) (ls : List Label),
      Steps (step D) anyStep (.initial queueCapacity) m → m.clients c = none →
      runByIdempotencyKey m.store request.idempotencyKey = some row →
      row.requestDigest ≠ D.canonicalRequestDigest request →
      (∀ l ∈ ls, l.isBy c = true) →
      run (step D) m (.call c (.submit request) :: ls) = some m' →
      m'.history.head? = some (.returned c (.submit request)
        (.submitted (.error (.store .idempotencyConflict)))) →
      m'.store = m.store := by
  intro h
  have hsame := h sampleDigests 1 sampleMachine rivalMachine 1 rivalRequest
    (queuedRun (newRunOf sampleDigests sampleRequest) ⟨1⟩ ⟨5, by decide⟩) submitRival.tail
    sampleMachine_reached rfl rfl (by decide +kernel) (by decide +kernel) rfl rfl
  have hconversations : rivalMachine.store.conversations = sampleMachine.store.conversations :=
    congrArg RunDb.conversations hsame
  exact absurd hconversations (by decide +kernel)

end Abbey.Manager
