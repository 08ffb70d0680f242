import Abbey.Manager.AtMostOnce

/-!
# Shutdown drains the queue

When the one call of `shutdown` answers `Ok`, every run that was put in
the queue of this manager is settled, and the executor is not called any
more.

* `Settled` is about the worker: it lets go of a run only after the run is
  terminal (`workerAct_settled`).
* `Accounted` follows every run that was sent: it is terminal, or in the
  queue, or in the hands of the worker, unless the worker fails.  A worker
  that ends without a failure has emptied the queue.
* `Closing` follows the call of `shutdown`.  It takes the join handle, so
  it goes on only when the worker has ended.  A second call would find no
  handle and would not wait: the claim is about one call per manager, and
  `OneShutdown` says so.

The life of one manager is the part of the history since the last crash
(`epoch`).
-/

namespace Abbey.Manager

open Abbey.Lib Abbey.Run Machine List

variable {D : Digests} {m m' : Machine} {db db' : RunDb} {id : RunId}
variable {admission : Admission} {answer : Answer} {c : ClientId} {next : ClientNext}
  {pc : ClientPc} {effect : Effect} {env : Env} {l : Label} {op : Operation} {record : RunRecord}
  {expected : RunState}
variable {c' : ClientId} {op' : Operation} {move : Move}

/-! ## Terminal runs -/

def Terminal (db : RunDb) (id : RunId) : Prop :=
  ∃ run, db.runs.find id = some run ∧ run.status.isTerminal = true

theorem Terminal.mono (h : Terminal db id) (hext : Extends db db') : Terminal db' id := by
  obtain ⟨run, hrun, hterminal⟩ := h
  obtain ⟨run', hrun', hlater⟩ := hext.runs id run hrun
  have hsame : run' = run := hlater.terminal hterminal
  rw [hsame] at hrun'
  exact ⟨run, hrun', hterminal⟩

/-- A transition to a terminal state settles its run. -/
theorem terminal_of_outcome (h : env.outcome D m (env.transition id expected move) = .ok ())
    (hmove : move.next.isTerminal) :
    Terminal (m.perform D (env.effect (env.transition id expected move))).store id := by
  obtain ⟨run, hrun, _, _, hadv⟩ := transition_of_outcome h
  have hid : run.id = id := Table.pk_of_find hrun
  refine ⟨run.advance move.next env.now, ?_, hmove⟩
  rw [hadv.runs, if_pos hid.symm]

theorem terminal_of_terminalRun (hledger : Ledger m.store)
    (h : env.outcome D m (env.transition id expected move) = .error (.terminalRun other)) :
    Terminal m.store id := by
  unfold Env.outcome at h
  split_ifs at h
  · cases h
  · cases htransition : transitionRun m.store id expected move.next
        (move.evidence.newEvent env.clockMs) env.now env.marker with
    | ok result => simp [Env.transition, StoreCall.commit, htransition, Except.map] at h
    | error error =>
      have herror : error = .terminalRun other := by
        simpa [Env.transition, StoreCall.commit, htransition, Except.map] using h
      subst herror
      exact terminal_of_transitionRun_error hledger htransition

/-! ## The worker -/

/-- What the worker knows at its places: the run that it is done with is
terminal, and a terminal transition is one. -/
def Settled (db : RunDb) : WorkerPc → Prop
  | .finalizeRead item | .finalize item _ | .finishActive item | .finishAdmitted item =>
    Terminal db item.runId
  | .settleWrite _ _ _ _ _ move => move.next.isTerminal = true
  | _ => True

theorem Settled.mono {pc : WorkerPc} (h : Settled db pc) (hext : Extends db db') :
    Settled db' pc := by
  cases pc <;> first
    | exact h
    | exact Terminal.mono h hext

theorem settledMove_isTerminal (m : Machine) (token : Token) (attempt : ExecutionAttempt)
    (status : RunState) : (settledMove m token attempt status).next.isTerminal := by
  unfold settledMove
  split
  · rfl
  · rfl
  · split_ifs <;> rfl

theorem terminal_of_getRun (h : env.getRun m id = .ok record)
    (hterminal : record.status.isTerminal) : Terminal m.store id :=
  ⟨record, getRun_eq_ok h, hterminal⟩

/-- The worker lets go of a run only after it is terminal. -/
theorem workerAct_settled {pc pc' : WorkerPc} (hledger : Ledger m.store) (h : Settled m.store pc)
    (hact : workerAct D m env pc = some (effect, pc')) :
    Settled (m.perform D effect).store pc' := by
  have hext := extends_perform D m effect
  cases pc with
  | cancelQueued item =>
    simp only [workerAct] at hact
    split at hact
    · cases hact
      exact terminal_of_outcome ‹_› rfl
    · cases hact
      exact terminal_of_terminalRun hledger ‹_›
    · cases hact
      trivial
    · cases hact
      trivial
  | startConflict item =>
    simp only [workerAct] at hact
    split at hact
    · cases hact
      trivial
    · split_ifs at hact with hterminal hrequested
      · cases hact
        exact terminal_of_getRun ‹_› hterminal
      · cases hact
        trivial
      · cases hact
        trivial
  | settle item token attempt fuel =>
    cases fuel with
    | zero =>
      cases hact
      trivial
    | succ fuel =>
      simp only [workerAct] at hact
      split at hact
      · cases hact
        trivial
      · split_ifs at hact with hterminal hv4
        · cases hact
          exact terminal_of_getRun ‹_› hterminal
        · cases hact
          exact terminal_of_getRun ‹_› hterminal
        · cases hact
          trivial
  | settleDecide item token attempt fuel status =>
    cases hact
    exact settledMove_isTerminal m token attempt status
  | settleWrite item token attempt fuel status move =>
    simp only [workerAct] at hact
    split at hact
    · have hterminal := terminal_of_outcome ‹_› h
      split_ifs at hact <;> cases hact <;> exact hterminal
    · cases hact
      trivial
    · cases hact
      trivial
  | finalizeRead item =>
    have hterminal : Terminal m.store item.runId := h
    simp only [workerAct] at hact
    split_ifs at hact
    · cases hact
      trivial
    · split at hact
      · cases hact
        exact hterminal
      · split_ifs at hact <;> cases hact <;> exact hterminal
  | finalize item state =>
    have hterminal : Terminal m.store item.runId := h
    simp only [workerAct] at hact
    split_ifs at hact
    · cases hact
      exact hterminal.mono hext
    · cases hact
      trivial
  | finishCancelled item after fuel =>
    cases fuel with
    | zero =>
      cases hact
      trivial
    | succ fuel =>
      simp only [workerAct] at hact
      split at hact
      · cases hact
        trivial
      · split_ifs at hact with hterminal
        · have hsettled := terminal_of_getRun ‹_› hterminal
          cases after <;> cases hact <;> exact hsettled
        · cases hact
          trivial
  | cancelRunning item after fuel status reason =>
    simp only [workerAct] at hact
    split at hact
    · have hmove : (cancelledMove reason).next.isTerminal := rfl
      have hterminal := terminal_of_outcome ‹_› hmove
      cases after <;> cases hact <;> exact hterminal
    · cases hact
      trivial
    · cases hact
      trivial
  | finishActive item =>
    cases hact
    exact h
  | finishAdmitted item =>
    cases hact
    trivial
  | _ =>
    simp only [workerAct] at hact
    repeat' split at hact
    all_goals cases hact
    all_goals trivial

/-- The run in the hands of the worker. -/
def WorkerPc.holds : WorkerPc → Option RunId
  | .received item | .cancelQueued item | .start item | .startConflict item | .activate item
  | .signal item _ | .confirm item _ | .checkToken item _ _ | .cancelToken item _
  | .run item _ | .execute item _ | .executing item _ | .settle item _ _ _
  | .settleDecide item _ _ _ _ | .settleWrite item _ _ _ _ _ | .finalizeRead item
  | .finalize item _ | .finishCancelled item _ _ | .cancelReason item _ _ _
  | .cancelRunning item _ _ _ _ | .finishActive item | .finishAdmitted item =>
    some item.runId
  | .recv | .failClose | .failMark | .failInterrupt _ | .exited _ => none

/-- Operations that leave the queue and the failure flag alone. -/
def Effect.keepsQueue : Effect → Bool
  | .send _ | .receive | .markFailed => false
  | _ => true

theorem queue_perform (h : effect.keepsQueue) : (m.perform D effect).queue = m.queue ∧
      (m.perform D effect).workerFailed = m.workerFailed := by
  cases effect <;> first
    | exact ⟨rfl, rfl⟩
    | cases h

theorem keepsQueue_effect (env : Env) (call : StoreCall) : (env.effect call).keepsQueue := by
  unfold Env.effect
  split_ifs <;> rfl

theorem interruptAct_keepsQueue {pc : InterruptPc} {next : InterruptNext}
    (h : interruptAct D m env pc = some (effect, next)) : effect.keepsQueue := by
  unfold interruptAct at h
  repeat' split at h
  all_goals cases h
  all_goals first
    | rfl
    | exact keepsQueue_effect _ _

/-- What a step of the worker does with the run in its hands. -/
inductive WorkerStep (m : Machine) (effect : Effect) : WorkerPc → WorkerPc → Prop where
  | receive (item : WorkItem) (rest : List WorkItem) (hqueue : m.queue = item :: rest)
      (heffect : effect = .receive) : WorkerStep m effect .recv (.received item)
  | leave (hqueue : m.queue = []) (heffect : effect.keepsQueue = true) :
      WorkerStep m effect .recv (.exited false)
  | finish (item : WorkItem) (heffect : effect.keepsQueue = true) :
      WorkerStep m effect (.finishAdmitted item) .recv
  | hold (pc pc' : WorkerPc) (id : RunId) (hpc : pc.holds = some id)
      (hpc' : pc'.holds = some id ∨ pc' = .failClose) (heffect : effect.keepsQueue = true) :
      WorkerStep m effect pc pc'
  | close (heffect : effect.keepsQueue = true) : WorkerStep m effect .failClose .failMark
  | mark (heffect : effect = .markFailed) :
      WorkerStep m effect .failMark (.failInterrupt .collect)
  | interrupt (pc : InterruptPc) (pc' : WorkerPc)
      (hpc' : (∃ next, pc' = .failInterrupt next) ∨ pc' = .exited false)
      (heffect : effect.keepsQueue = true) : WorkerStep m effect (.failInterrupt pc) pc'

theorem workerStep_of_act {pc pc' : WorkerPc} (h : workerAct D m env pc = some (effect, pc')) :
    WorkerStep m effect pc pc' := by
  cases pc with
  | recv =>
    simp only [workerAct] at h
    split at h
    · cases h
      exact .receive _ _ ‹_› rfl
    · split_ifs at h
      cases h
      exact .leave ‹_› rfl
  | finishAdmitted item =>
    cases h
    exact .finish item rfl
  | failClose =>
    cases h
    exact .close rfl
  | failMark =>
    cases h
    exact .mark rfl
  | failInterrupt pc =>
    simp only [workerAct] at h
    split at h
    · cases h
    · cases h
      exact .interrupt _ _ (.inl ⟨_, rfl⟩) (interruptAct_keepsQueue ‹_›)
    · cases h
      exact .interrupt _ _ (.inr rfl) (interruptAct_keepsQueue ‹_›)
  | exited panicked => cases h
  | executing item token => cases h
  | settle item _ _ fuel | finishCancelled item _ fuel =>
    cases fuel with
    | zero =>
      cases h
      exact .hold _ _ item.runId rfl (.inr rfl) rfl
    | succ fuel =>
      simp only [workerAct] at h
      repeat' split at h
      all_goals cases h
      all_goals exact .hold _ _ item.runId rfl (by first | exact .inl rfl | exact .inr rfl) rfl
  | _ =>
    refine .hold _ _ _ rfl ?_ ?_
    all_goals
      simp only [workerAct] at h
      repeat' split at h
      all_goals cases h
      all_goals first
        | rfl
        | exact .inl rfl
        | exact .inr rfl
        | exact keepsQueue_effect _ _

/-! ## The life of a manager -/

/-- What happened since the last crash, newest first. -/
def epoch (history : List Observation) : List Observation :=
  history.takeWhile (fun observation => observation ≠ .crashed)

theorem epoch_cons (h : observation ≠ .crashed) (history : List Observation) :
    epoch (observation :: history) = observation :: epoch history := by
  simp [epoch, h]

/-- A call is added to the epoch. -/
theorem epoch_call (call : Option Call) :
    epoch ((m.setClient c call).observe (.called c op)).history = .called c op :: epoch m.history :=
  epoch_cons (by simp) _

@[simp] theorem epoch_crashed (history : List Observation) : epoch (.crashed :: history) = [] := by
  simp [epoch]

/-- What an operation adds to the history. -/
def Effect.observation : Effect → Option Observation
  | .send item => some (.sent item.runId)
  | .execute runId => some (.executed runId)
  | _ => none

theorem epoch_perform (effect : Effect) :
    epoch (m.perform D effect).history = effect.observation.toList ++ epoch m.history := by
  cases effect <;> rfl

theorem epoch_resume (c : ClientId) (op : Operation) (next : ClientNext) :
    epoch (m.resume c op next).history = (match next with
        | .goto _ => []
        | .done answer => [.returned c op answer]) ++ epoch m.history := by
  cases next with
  | goto pc => rfl
  | done answer => exact epoch_cons (by simp) _

theorem sent_mem_epoch_perform : .sent id ∈ epoch (m.perform D effect).history ↔
      (∃ item, effect = .send item ∧ item.runId = id) ∨ .sent id ∈ epoch m.history := by
  rw [epoch_perform, mem_append]
  cases effect <;> simp [Effect.observation, eq_comm]

theorem sent_mem_epoch_resume :
    .sent id ∈ epoch (m.resume c op next).history ↔ .sent id ∈ epoch m.history := by
  rw [epoch_resume]
  cases next <;> simp

/-! ## Runs that were sent -/

def Failing (m : Machine) : Prop :=
  m.worker = .failClose ∨ m.worker = .failMark ∨ m.workerFailed = true

/-- Where a run that was sent can be. -/
def Traced (m : Machine) (id : RunId) : Prop :=
  Terminal m.store id ∨ (∃ item ∈ m.queue, item.runId = id) ∨ m.worker.holds = some id ∨
    Failing m

structure Accounted (m : Machine) : Prop where
  settled : Settled m.store m.worker
  failing : ∀ pc, m.worker = .failInterrupt pc → m.workerFailed = true
  exited : ∀ panicked, m.worker = .exited panicked → m.workerFailed = true ∨ m.queue = []
  sent : ∀ id, .sent id ∈ epoch m.history → Traced m id

/-- A step that leaves the worker and the queue alone. -/
theorem Accounted.other (h : Accounted m) (hext : Extends m.store m'.store)
    (hworker : m'.worker = m.worker) (hfailed : m'.workerFailed = m.workerFailed)
    (hqueue : m'.queue = m.queue)
    (hsent : ∀ id, .sent id ∈ epoch m'.history → .sent id ∈ epoch m.history) :
    Accounted m' := by
  refine ⟨?_, ?_, ?_, ?_⟩
  · rw [hworker]
    exact h.settled.mono hext
  · rw [hworker, hfailed]
    exact h.failing
  · rw [hworker, hfailed, hqueue]
    exact h.exited
  · intro id hid
    unfold Traced Failing
    rw [hworker, hfailed, hqueue]
    rcases h.sent id (hsent id hid) with hterminal | hrest
    · exact .inl (hterminal.mono hext)
    · exact .inr hrest

/-- The worker keeps account of its runs. -/
theorem Accounted.worker {pc : WorkerPc} (h : Accounted m) (hledger : Ledger m.store)
    (hact : workerAct D m env m.worker = some (effect, pc)) :
    Accounted { m.perform D effect with worker := pc } := by
  have hext := extends_perform D m effect
  have hsettled := workerAct_settled hledger h.settled hact
  have hstep := workerStep_of_act hact
  have hsent : ∀ id, .sent id ∈ epoch (m.perform D effect).history →
      .sent id ∈ epoch m.history := by
    intro id hid
    rcases sent_mem_epoch_perform.mp hid with ⟨item, rfl, _⟩ | hold
    · exact absurd (workerAct_isWorker hact) (by simp [Effect.isWorker])
    · exact hold
  have hold := h.settled
  have hfailing := h.failing
  have htraced : ∀ id, .sent id ∈ epoch m.history → Traced m id := h.sent
  unfold Traced Failing at htraced
  generalize hpc : m.worker = old at hstep hold hfailing htraced
  refine ⟨hsettled, ?_, ?_, ?_⟩
  · -- the flag is raised before the interruption starts
    rintro pc' rfl
    cases hstep with
    | hold _ _ _ _ hpc' _ => rcases hpc' with hno | hno <;> cases hno
    | mark heffect =>
      subst heffect
      rfl
    | interrupt pc'' _ _ heffect =>
      show (m.perform D effect).workerFailed
      rw [(queue_perform heffect).2]
      exact hfailing pc'' rfl
  · rintro panicked rfl
    show (m.perform D effect).workerFailed ∨ (m.perform D effect).queue = []
    cases hstep with
    | leave hqueue heffect =>
      right
      rw [(queue_perform heffect).1]
      exact hqueue
    | hold _ _ _ _ hpc' _ => rcases hpc' with hno | hno <;> cases hno
    | interrupt pc'' _ _ heffect =>
      left
      rw [(queue_perform heffect).2]
      exact hfailing pc'' rfl
  · intro id hid
    show Terminal (m.perform D effect).store id ∨
      (∃ item ∈ (m.perform D effect).queue, item.runId = id) ∨ pc.holds = some id ∨
      (pc = .failClose ∨ pc = .failMark ∨ (m.perform D effect).workerFailed)
    rcases htraced id (hsent id hid) with hterminal | hqueued | hheld | hfail
    · exact .inl (hterminal.mono hext)
    · cases hstep with
      | receive item rest hqueue heffect =>
        subst heffect
        obtain ⟨other, hmem, hother⟩ := hqueued
        rw [hqueue] at hmem
        rcases mem_cons.mp hmem with rfl | htail
        · exact .inr (.inr (.inl (by rw [← hother]; rfl)))
        · refine .inr (.inl ⟨other, ?_, hother⟩)
          show other ∈ m.queue.tail
          rw [hqueue]
          exact htail
      | mark heffect =>
        subst heffect
        exact .inr (.inl hqueued)
      | leave _ heffect | finish _ heffect | hold _ _ _ _ _ heffect | close heffect
      | interrupt _ _ _ heffect =>
        right
        left
        rw [(queue_perform heffect).1]
        exact hqueued
    · cases hstep with
      | finish item heffect =>
        cases hheld
        exact .inl (Terminal.mono hold hext)
      | hold pc₀ _ other hpc₀ hpc' heffect =>
        rw [hpc₀] at hheld
        cases hheld
        rcases hpc' with hsame | hfail
        · exact .inr (.inr (.inl hsame))
        · exact .inr (.inr (.inr (.inl hfail)))
      | receive | leave | close | mark | interrupt => cases hheld
    · right
      right
      right
      rcases hfail with rfl | rfl | hflag
      · cases hstep with
        | hold _ _ _ hno _ _ => cases hno
        | close heffect => exact .inr (.inl rfl)
      · cases hstep with
        | hold _ _ _ hno _ _ => cases hno
        | mark heffect =>
          subst heffect
          exact .inr (.inr rfl)
      · cases hstep with
        | receive _ _ _ heffect =>
          subst heffect
          exact .inr (.inr hflag)
        | mark heffect =>
          subst heffect
          exact .inr (.inr rfl)
        | leave _ heffect | finish _ heffect | hold _ _ _ _ _ heffect | close heffect
        | interrupt _ _ _ heffect =>
          right
          right
          rw [(queue_perform heffect).2]
          exact hflag

/-- A client puts its run in the queue of a worker that has not ended, or
leaves the queue alone. -/
theorem clientAct_queue (h : clientAct D m c env pc = some (effect, next)) :
    effect.keepsQueue ∨
      ∃ admission, pc = .trySend admission ∧ effect = .send admission.item ∧
        next = .goto (.leave admission .enqueued) ∧
        ∀ panicked, m.worker ≠ .exited panicked := by
  unfold clientAct at h
  repeat' split at h
  all_goals cases h
  all_goals first
    | exact .inl rfl
    | exact .inl (keepsQueue_effect _ _)
    | exact .inl (interruptAct_keepsQueue ‹_›)
    | exact .inr ⟨_, rfl, rfl, rfl, ‹_›⟩

theorem Accounted.client {call : Call} (h : Accounted m)
    (hact : clientAct D m c env call.pc = some (effect, next)) :
    Accounted ((m.perform D effect).resume c call.op next) := by
  have hext := extends_perform D m effect
  have hresume : ∀ (s : Machine), (s.resume c call.op next).worker = s.worker ∧
      (s.resume c call.op next).workerFailed = s.workerFailed ∧
      (s.resume c call.op next).queue = s.queue := by
    intro s
    cases next <;> exact ⟨rfl, rfl, rfl⟩
  obtain ⟨hworker, hfailed, hqueue⟩ := hresume (m.perform D effect)
  rw [perform_worker] at hworker
  rcases clientAct_queue hact with hkeep | ⟨admission, _, rfl, rfl, halive⟩
  · obtain ⟨hqueue', hfailed'⟩ := queue_perform (D := D) (m := m) hkeep
    refine h.other (by rw [resume_store]; exact hext) hworker (hfailed.trans hfailed')
      (hqueue.trans hqueue') ?_
    intro id hid
    rcases sent_mem_epoch_perform.mp (sent_mem_epoch_resume.mp hid) with ⟨item, rfl, _⟩ | hold
    · cases hkeep
    · exact hold
  · refine ⟨h.settled, h.failing, ?_, ?_⟩
    · intro panicked hno
      exact absurd hno (halive panicked)
    · intro id hid
      rcases sent_mem_epoch_perform.mp (sent_mem_epoch_resume.mp hid) with ⟨item, hitem, hid'⟩ | hold
      · cases hitem
        exact .inr (.inl ⟨admission.item, mem_append_right _ mem_cons_self, hid'⟩)
      · rcases h.sent id hold with hterminal | ⟨item, hmem, hitem⟩ | hrest
        · exact .inl hterminal
        · exact .inr (.inl ⟨item, mem_append_left _ hmem, hitem⟩)
        · exact .inr (.inr hrest)

theorem Accounted.step (h : Accounted m) (hledger : Ledger m.store)
    (hstep : Manager.step D m l = some m') : Accounted m' := by
  have hext := extends_of_step hstep
  cases step_cases hstep with
  | call c op =>
    refine h.other hext rfl rfl rfl (fun id hid => ?_)
    rw [epoch_call] at hid
    simpa using hid
  | client c env call effect next hcall hact => exact h.client hact
  | worker env effect pc hact => exact h.worker hledger hact
  | attempt attempt item token hworker =>
    refine ⟨trivial, fun _ hno => (by cases hno), fun _ hno => (by cases hno), ?_⟩
    intro id hid
    have hid' := h.sent id hid
    unfold Traced Failing at hid' ⊢
    rw [hworker] at hid'
    simpa [WorkerPc.holds] using hid'
  | workerPanic pc hworker =>
    have hflag := h.failing pc hworker
    exact ⟨trivial, fun _ hno => (by cases hno), fun _ _ => .inl hflag,
      fun _ _ => .inr (.inr (.inr (.inr (.inr hflag))))⟩
  | write => exact h.other hext rfl rfl rfl (fun _ hid => hid)
  | crash =>
    refine ⟨trivial, fun _ hno => (by cases hno), fun _ hno => (by cases hno), ?_⟩
    intro id hid
    simp [start] at hid

/-! ## The call of shutdown -/

/-- `shutdown` is called at most once in the life of a manager. -/
def OneShutdown (m : Machine) : Label → Prop
  | .call _ .shutdown => ∀ c, .called c .shutdown ∉ epoch m.history
  | _ => True

/-- What is known at the places of `shutdown`. -/
def ShutdownPlace (m : Machine) : ClientPc → Prop
  | .shutdownSwap | .shutdownTokens | .shutdownSender | .shutdownTake => m.joinHandle = true
  | .shutdownJoin => True
  | .shutdownInterrupt panicked _ => m.worker = .exited panicked
  | .shutdownVerdict => m.worker = .exited false
  | _ => False

/-- `shutdown` answered `Ok`. -/
def closedBy (c : ClientId) : Observation := .returned c .shutdown (.shutdown (.ok ()))

structure Closing (m : Machine) : Prop where
  called : ∀ c call, m.clients c = some call → call.op = .shutdown →
    ∃ c', .called c' .shutdown ∈ epoch m.history
  place : ∀ c call, m.clients c = some call → call.op = .shutdown → ShutdownPlace m call.pc
  single : ∀ c c' call call', m.clients c = some call → m.clients c' = some call' →
    call.op = .shutdown → call'.op = .shutdown → c = c'
  uncalled : (∀ c, .called c .shutdown ∉ epoch m.history) → m.joinHandle = true
  returned : ∀ c answer, .returned c .shutdown answer ∈ epoch m.history →
    (∃ c', .called c' .shutdown ∈ epoch m.history) ∧
      ∀ c' call, m.clients c' = some call → call.op ≠ .shutdown
  ended : ∀ c, closedBy c ∈ epoch m.history →
    m.worker = .exited false ∧ m.workerFailed = false

theorem ShutdownPlace.congr (h : ShutdownPlace m pc) (hhandle : m'.joinHandle = m.joinHandle)
    (hworker : ∀ panicked, m.worker = .exited panicked → m'.worker = .exited panicked) :
    ShutdownPlace m' pc := by
  cases pc <;> first
    | exact h
    | exact hhandle.trans h
    | exact hworker _ h

/-- A step that moves no client, and no worker that has ended. -/
theorem Closing.other (h : Closing m) (hclients : m'.clients = m.clients)
    (hhandle : m'.joinHandle = m.joinHandle) (hworker : ∀ panicked, m.worker = .exited panicked →
      m'.worker = .exited panicked ∧ m'.workerFailed = m.workerFailed)
    (hcalled : ∀ c op, .called c op ∈ epoch m'.history ↔ .called c op ∈ epoch m.history)
    (hreturned : ∀ c op answer, .returned c op answer ∈ epoch m'.history ↔
      .returned c op answer ∈ epoch m.history) : Closing m' := by
  refine ⟨?_, ?_, ?_, ?_, ?_, ?_⟩
  · intro c call hcall hop
    rw [hclients] at hcall
    obtain ⟨c', hc'⟩ := h.called c call hcall hop
    exact ⟨c', (hcalled _ _).mpr hc'⟩
  · intro c call hcall hop
    rw [hclients] at hcall
    exact (h.place c call hcall hop).congr hhandle (fun p hp => (hworker p hp).1)
  · rw [hclients]
    exact h.single
  · intro hno
    rw [hhandle]
    exact h.uncalled (fun c hc => hno c ((hcalled _ _).mpr hc))
  · intro c answer hmem
    obtain ⟨⟨c', hc'⟩, hidle⟩ := h.returned c answer ((hreturned _ _ _).mp hmem)
    rw [hclients]
    exact ⟨⟨c', (hcalled _ _).mpr hc'⟩, hidle⟩
  · intro c hmem
    obtain ⟨hexited, hfailed⟩ := h.ended c ((hreturned _ _ _).mp hmem)
    obtain ⟨hexited', hfailed'⟩ := hworker false hexited
    exact ⟨hexited', hfailed'.trans hfailed⟩

theorem called_mem_epoch_perform :
    .called c op ∈ epoch (m.perform D effect).history ↔ .called c op ∈ epoch m.history := by
  rw [epoch_perform, mem_append]
  cases effect <;> simp [Effect.observation]

theorem returned_mem_epoch_perform : .returned c op answer ∈ epoch (m.perform D effect).history ↔
      .returned c op answer ∈ epoch m.history := by
  rw [epoch_perform, mem_append]
  cases effect <;> simp [Effect.observation]

/-- The worker that has ended does not move. -/
theorem Closing.worker {pc : WorkerPc} (h : Closing m)
    (hact : workerAct D m env m.worker = some (effect, pc)) :
    Closing { m.perform D effect with worker := pc } := by
  have hhandle : (m.perform D effect).joinHandle = m.joinHandle := by
    have hside := workerAct_isWorker hact
    cases effect <;> first
      | rfl
      | cases hside
  refine h.other (perform_clients D m effect) hhandle ?_
    (fun _ _ => called_mem_epoch_perform) (fun _ _ _ => returned_mem_epoch_perform)
  intro panicked hexited
  rw [hexited] at hact
  cases hact

/-- A new call. -/
theorem Closing.call (h : Closing m) (hone : OneShutdown m (.call c op)) :
    Closing ((m.setClient c (some ⟨op, op.entry⟩)).observe (.called c op)) := by
  have hclients : ∀ c' call, ((m.setClient c (some ⟨op, op.entry⟩)).observe
      (.called c op)).clients c' = some call →
      (c' = c ∧ call = ⟨op, op.entry⟩) ∨ (c' ≠ c ∧ m.clients c' = some call) := by
    intro c' call hcall
    simp only [observe, setClient, Function.update_apply] at hcall
    split_ifs at hcall with hc
    · cases hcall
      exact .inl ⟨hc, rfl⟩
    · exact .inr ⟨hc, hcall⟩
  -- nobody else is in `shutdown` when it is called
  have hfirst : op = .shutdown → ∀ c' call, m.clients c' = some call → call.op ≠ .shutdown := by
    rintro rfl c' call hcall hop
    obtain ⟨c'', hc''⟩ := h.called c' call hcall hop
    exact hone c'' hc''
  refine ⟨?_, ?_, ?_, ?_, ?_, ?_⟩
  · intro c' call hcall hop
    rw [epoch_call]
    rcases hclients c' call hcall with ⟨rfl, rfl⟩ | ⟨_, hold⟩
    · have hop' : op = .shutdown := hop
      subst hop'
      exact ⟨c', mem_cons_self⟩
    · obtain ⟨c'', hc''⟩ := h.called c' call hold hop
      exact ⟨c'', mem_cons_of_mem _ hc''⟩
  · intro c' call hcall hop
    rcases hclients c' call hcall with ⟨rfl, rfl⟩ | ⟨_, hold⟩
    · have hop' : op = .shutdown := hop
      subst hop'
      exact h.uncalled hone
    · exact (h.place c' call hold hop).congr rfl (fun _ hp => hp)
  · intro c₁ c₂ call₁ call₂ hcall₁ hcall₂ hop₁ hop₂
    rcases hclients c₁ call₁ hcall₁ with ⟨rfl, rfl⟩ | ⟨_, hold₁⟩
    · rcases hclients c₂ call₂ hcall₂ with ⟨rfl, rfl⟩ | ⟨_, hold₂⟩
      · rfl
      · exact absurd hop₂ (hfirst hop₁ c₂ call₂ hold₂)
    · rcases hclients c₂ call₂ hcall₂ with ⟨rfl, rfl⟩ | ⟨_, hold₂⟩
      · exact absurd hop₁ (hfirst hop₂ c₁ call₁ hold₁)
      · exact h.single c₁ c₂ call₁ call₂ hold₁ hold₂ hop₁ hop₂
  · intro hno
    refine h.uncalled (fun c' hc' => hno c' ?_)
    rw [epoch_call]
    exact mem_cons_of_mem _ hc'
  · intro c' answer hmem
    rw [epoch_call] at hmem ⊢
    rcases mem_cons.mp hmem with heq | hold
    · cases heq
    · obtain ⟨⟨c'', hc''⟩, hidle⟩ := h.returned c' answer hold
      refine ⟨⟨c'', mem_cons_of_mem _ hc''⟩, ?_⟩
      intro c₁ call₁ hcall₁ hop₁
      rcases hclients c₁ call₁ hcall₁ with ⟨rfl, rfl⟩ | ⟨_, hold₁⟩
      · have hop' : op = .shutdown := hop₁
        subst hop'
        exact hone c'' hc''
      · exact hidle c₁ call₁ hold₁ hop₁
  · intro c' hmem
    rw [epoch_call] at hmem
    rcases mem_cons.mp hmem with heq | hold
    · cases heq
    · exact h.ended c' hold

/-- What `shutdown` knows after one operation. -/
def ShutdownNext (m : Machine) : ClientNext → Prop
  | .goto pc => ShutdownPlace m pc
  | .done answer => answer = .shutdown (.ok ()) →
    m.worker = .exited false ∧ m.workerFailed = false

theorem shutdownPlace_act (h : ShutdownPlace m pc)
    (hact : clientAct D m c env pc = some (effect, next)) :
    ShutdownNext (m.perform D effect) next := by
  cases pc with
  | shutdownSwap =>
    cases hact
    show ShutdownPlace _ (if m.shuttingDown then _ else _)
    split_ifs <;> exact h
  | shutdownTokens | shutdownSender =>
    cases hact
    exact h
  | shutdownTake =>
    have hhandle : m.joinHandle := h
    simp only [clientAct, hhandle, if_true] at hact
    cases hact
    trivial
  | shutdownJoin =>
    simp only [clientAct] at hact
    split at hact
    · rename_i panicked hexited
      cases hact
      exact hexited
    · cases hact
  | shutdownInterrupt panicked pc =>
    have hexited : (m.perform D effect).worker = .exited panicked :=
      (perform_worker D m effect).trans h
    simp only [clientAct] at hact
    split at hact
    · cases hact
    · cases hact
      exact hexited
    · split_ifs at hact with hpanicked
      · cases hact
        intro hno
        cases hno
      · rw [Bool.not_eq_true] at hpanicked
        rw [hpanicked] at hexited
        split at hact
        · cases hact
          intro hno
          cases hno
        · cases hact
          exact hexited
  | shutdownVerdict =>
    cases hact
    intro hanswer
    refine ⟨h, ?_⟩
    show m.workerFailed = false
    by_contra hfailed
    rw [Bool.not_eq_false] at hfailed
    simp [hfailed] at hanswer
  | _ => exact h.elim

theorem ne_takeHandle_of_isWorker (h : effect.isWorker) : effect ≠ .takeHandle := by
  intro heq
  rw [heq] at h
  cases h

/-- Only `shutdown` takes the join handle. -/
theorem clientAct_takeHandle (h : clientAct D m c env pc = some (effect, next)) :
    pc = .shutdownTake ∨ effect ≠ .takeHandle := by
  unfold clientAct at h
  repeat' split at h
  all_goals cases h
  all_goals first
    | exact .inl rfl
    | exact .inr (ne_takeHandle_of_isWorker (isWorker_effect _ _))
    | exact .inr (ne_takeHandle_of_isWorker (interruptAct_effect ‹_›).2)
    | exact .inr (fun hno => by cases hno)

theorem joinHandle_perform (h : effect ≠ .takeHandle) :
    (m.perform D effect).joinHandle = m.joinHandle := by
  cases effect <;> first
    | rfl
    | exact absurd rfl h

theorem workerFailed_perform (h : effect.isClient) :
    (m.perform D effect).workerFailed = m.workerFailed := by
  cases effect <;> first
    | rfl
    | cases h

/-- The clients after one of them moves. -/
theorem clients_resume (h : (m.resume c op next).clients c' = some call) :
    (c' = c ∧ ∃ pc, next = .goto pc ∧ call = ⟨op, pc⟩) ∨ (c' ≠ c ∧ m.clients c' = some call) := by
  cases next with
  | goto pc =>
    simp only [resume, setClient, Function.update_apply] at h
    split_ifs at h with hc
    · cases h
      exact .inl ⟨hc, pc, rfl, rfl⟩
    · exact .inr ⟨hc, h⟩
  | done answer =>
    simp only [resume, observe, setClient, Function.update_apply] at h
    split_ifs at h with hc
    exact .inr ⟨hc, h⟩

theorem called_mem_epoch_resume :
    .called c' op' ∈ epoch (m.resume c op next).history ↔ .called c' op' ∈ epoch m.history := by
  rw [epoch_resume]
  cases next <;> simp

theorem returned_mem_epoch_resume : .returned c' op' answer ∈ epoch (m.resume c op next).history ↔
      (next = .done answer ∧ c' = c ∧ op' = op) ∨ .returned c' op' answer ∈ epoch m.history := by
  rw [epoch_resume]
  cases next with
  | goto pc => simp
  | done other =>
    simp only [singleton_append, mem_cons, Observation.returned.injEq,
      ClientNext.done.injEq]
    constructor
    · rintro (⟨rfl, rfl, rfl⟩ | hold)
      · exact .inl ⟨rfl, rfl, rfl⟩
      · exact .inr hold
    · rintro (⟨rfl, rfl, rfl⟩ | hold)
      · exact .inl ⟨rfl, rfl, rfl⟩
      · exact .inr hold

theorem Closing.client {call : Call} (h : Closing m) (hsound : PcSound D m.store call.op call.pc)
    (hcall : m.clients c = some call) (hact : clientAct D m c env call.pc = some (effect, next)) :
    Closing ((m.perform D effect).resume c call.op next) := by
  have hworker : ((m.perform D effect).resume c call.op next).worker = m.worker := by
    rw [worker_resume, perform_worker]
  have hfailed : ((m.perform D effect).resume c call.op next).workerFailed = m.workerFailed := by
    have hkeep := workerFailed_perform (D := D) (m := m) (clientAct_isClient hact)
    cases next <;> exact hkeep
  have hcalled : ∀ c' op', .called c' op' ∈
      epoch ((m.perform D effect).resume c call.op next).history ↔
        .called c' op' ∈ epoch m.history :=
    fun _ _ => called_mem_epoch_resume.trans called_mem_epoch_perform
  have hreturned : ∀ c' op' answer, .returned c' op' answer ∈
      epoch ((m.perform D effect).resume c call.op next).history →
        (next = .done answer ∧ c' = c ∧ op' = call.op) ∨
          .returned c' op' answer ∈ epoch m.history := by
    intro c' op' answer hmem
    rcases returned_mem_epoch_resume.mp hmem with hnew | hold
    · exact .inl hnew
    · exact .inr (returned_mem_epoch_perform.mp hold)
  by_cases hop : call.op = .shutdown
  · have hnext := shutdownPlace_act (h.place c call hcall hop) hact
    have halone : ∀ c' call', c' ≠ c → m.clients c' = some call' → call'.op ≠ .shutdown := by
      intro c' call' hne hcall' hop'
      exact hne (h.single c' c call' call hcall' hcall hop' hop)
    have hidle : ∀ c' answer, .returned c' .shutdown answer ∉ epoch m.history := by
      intro c' answer hmem
      exact (h.returned c' answer hmem).2 c call hcall hop
    obtain ⟨c₀, hc₀⟩ := h.called c call hcall hop
    refine ⟨?_, ?_, ?_, ?_, ?_, ?_⟩
    · intro _ _ _ _
      exact ⟨c₀, (hcalled _ _).mpr hc₀⟩
    · intro c' call' hcall' hop'
      rcases clients_resume hcall' with ⟨rfl, pc, rfl, rfl⟩ | ⟨hne, hold⟩
      · exact ShutdownPlace.congr (m := m.perform D effect) hnext rfl (fun _ hp => hp)
      · rw [perform_clients] at hold
        exact absurd hop' (halone c' call' hne hold)
    · intro c₁ c₂ call₁ call₂ hcall₁ hcall₂ hop₁ hop₂
      rcases clients_resume hcall₁ with ⟨rfl, _⟩ | ⟨hne₁, hold₁⟩
      · rcases clients_resume hcall₂ with ⟨rfl, _⟩ | ⟨hne₂, hold₂⟩
        · rfl
        · rw [perform_clients] at hold₂
          exact absurd hop₂ (halone c₂ call₂ hne₂ hold₂)
      · rw [perform_clients] at hold₁
        exact absurd hop₁ (halone c₁ call₁ hne₁ hold₁)
    · intro hno
      exact absurd ((hcalled _ _).mpr hc₀) (hno c₀)
    · intro c' answer hmem
      refine ⟨⟨c₀, (hcalled _ _).mpr hc₀⟩, ?_⟩
      rcases hreturned c' _ answer hmem with ⟨rfl, _, _⟩ | hold
      · intro c'' call'' hcall''
        rcases clients_resume hcall'' with ⟨_, pc, hno, _⟩ | ⟨hne, hold'⟩
        · cases hno
        · rw [perform_clients] at hold'
          exact halone c'' call'' hne hold'
      · exact absurd hold (hidle c' answer)
    · intro c' hmem
      rcases hreturned c' _ _ hmem with ⟨rfl, _, _⟩ | hold
      · obtain ⟨hexited, hflag⟩ := hnext rfl
        exact ⟨hexited, hflag⟩
      · exact absurd hold (hidle c' _)
  · -- another call leaves the handle and the worker alone
    have hhandle : ((m.perform D effect).resume c call.op next).joinHandle = m.joinHandle := by
      have hkeep : (m.perform D effect).joinHandle = m.joinHandle := by
        rcases clientAct_takeHandle hact with htake | hne
        · rw [htake] at hsound
          exact absurd hsound hop
        · exact joinHandle_perform hne
      cases next <;> exact hkeep
    have hold : ∀ c' call', ((m.perform D effect).resume c call.op next).clients c' =
        some call' → call'.op = .shutdown → m.clients c' = some call' := by
      intro c' call' hcall' hop'
      rcases clients_resume hcall' with ⟨_, pc, _, rfl⟩ | ⟨_, hold⟩
      · exact absurd hop' hop
      · rw [perform_clients] at hold
        exact hold
    have hreturned' : ∀ c' answer, .returned c' .shutdown answer ∈
        epoch ((m.perform D effect).resume c call.op next).history →
          .returned c' .shutdown answer ∈ epoch m.history := by
      intro c' answer hmem
      rcases hreturned c' _ answer hmem with ⟨_, _, hno⟩ | hold'
      · exact absurd hno.symm hop
      · exact hold'
    refine ⟨?_, ?_, ?_, ?_, ?_, ?_⟩
    · intro c' call' hcall' hop'
      obtain ⟨c'', hc''⟩ := h.called c' call' (hold c' call' hcall' hop') hop'
      exact ⟨c'', (hcalled _ _).mpr hc''⟩
    · intro c' call' hcall' hop'
      exact (h.place c' call' (hold c' call' hcall' hop') hop').congr hhandle
        (fun _ hp => hworker.trans hp)
    · intro c₁ c₂ call₁ call₂ hcall₁ hcall₂ hop₁ hop₂
      exact h.single c₁ c₂ call₁ call₂ (hold c₁ call₁ hcall₁ hop₁) (hold c₂ call₂ hcall₂ hop₂)
        hop₁ hop₂
    · intro hno
      rw [hhandle]
      exact h.uncalled (fun c' hc' => hno c' ((hcalled _ _).mpr hc'))
    · intro c' answer hmem
      obtain ⟨⟨c'', hc''⟩, hidle⟩ := h.returned c' answer (hreturned' c' answer hmem)
      refine ⟨⟨c'', (hcalled _ _).mpr hc''⟩, ?_⟩
      intro c₁ call₁ hcall₁ hop₁
      exact hidle c₁ call₁ (hold c₁ call₁ hcall₁ hop₁) hop₁
    · intro c' hmem
      rw [hworker, hfailed]
      exact h.ended c' (hreturned' c' _ hmem)

theorem Closing.step (h : Closing m) (hsound : Sound D m) (hone : OneShutdown m l)
    (hstep : Manager.step D m l = some m') : Closing m' := by
  cases step_cases hstep with
  | call => exact h.call hone
  | client c env call effect next hcall hact =>
    exact h.client (hsound.told.clients c call hcall) hcall hact
  | worker env effect pc hact => exact h.worker hact
  | attempt _ _ _ hworker | workerPanic _ hworker =>
    refine h.other rfl rfl ?_ (fun _ _ => Iff.rfl) (fun _ _ _ => Iff.rfl)
    intro panicked hexited
    rw [hexited] at hworker
    cases hworker
  | write =>
    exact h.other rfl rfl (fun _ hp => ⟨hp, rfl⟩) (fun _ _ => Iff.rfl) (fun _ _ _ => Iff.rfl)
  | crash =>
    refine ⟨fun _ _ hcall => (by cases hcall), fun _ _ hcall => (by cases hcall),
      fun _ _ _ _ hcall => (by cases hcall), fun _ => rfl, ?_, ?_⟩
    · intro c answer hmem
      simp [start] at hmem
    · intro c hmem
      simp [start] at hmem

/-! ## The order of the epoch -/

/-- No call of the executor comes after a `shutdown` that answered `Ok`. -/
def Ordered : List Observation → Prop
  | [] => True
  | .executed _ :: older => (∀ c, closedBy c ∉ older) ∧ Ordered older
  | _ :: older => Ordered older

theorem Ordered.of_append
    (h : Ordered (newer ++ .executed id :: older)) (c : ClientId) : closedBy c ∉ older := by
  induction newer with
  | nil => exact h.1 c
  | cons observation newer ih =>
    cases observation <;> first
      | exact ih h
      | exact ih h.2

/-- A submission that was answered `Enqueued` was sent in this epoch. -/
structure Enqueued (m : Machine) : Prop where
  place : ∀ c call run request, m.clients c = some call →
    call.pc = .leave (.legacy run request) .enqueued → .sent run.id ∈ epoch m.history
  answer : ∀ c op run, .returned c op (.submitted (.ok ⟨run, .enqueued⟩)) ∈ epoch m.history →
    .sent run.id ∈ epoch m.history

theorem Enqueued.other (h : Enqueued m) (hclients : m'.clients = m.clients)
    (hsent : ∀ id, .sent id ∈ epoch m.history → .sent id ∈ epoch m'.history)
    (hreturned : ∀ c op answer, .returned c op answer ∈ epoch m'.history →
      .returned c op answer ∈ epoch m.history) : Enqueued m' := by
  refine ⟨?_, ?_⟩
  · intro c call run request hcall hpc
    rw [hclients] at hcall
    exact hsent _ (h.place c call run request hcall hpc)
  · intro c op run hmem
    exact hsent _ (h.answer c op run (hreturned c op _ hmem))

theorem settled_eq_enqueued {run : RunRecord}
    (h : admission.settled outcome = .done (.submitted (.ok ⟨run, .enqueued⟩))) :
    ∃ request, admission = .legacy run request ∧ outcome = .enqueued := by
  cases admission with
  | legacy other request =>
    cases outcome <;> cases h
    exact ⟨request, rfl, rfl⟩
  | turn submission request => cases outcome <;> cases h

theorem existing_ne_enqueued {run : RunRecord}
    (h : ClientNext.done admission.existing = .done (.submitted (.ok ⟨run, .enqueued⟩))) :
    False := by
  cases admission <;> cases h

/-- `Enqueued` is answered at the end of `enqueue` only. -/
theorem clientAct_enqueued {run : RunRecord} (h : clientAct D m c env pc = some (effect, next))
    (hnext : next = .done (.submitted (.ok ⟨run, .enqueued⟩))) :
    ∃ request, pc = .leave (.legacy run request) .enqueued := by
  unfold clientAct at h
  repeat' split at h
  all_goals cases h
  all_goals first
    | cases hnext
    | exact (existing_ne_enqueued hnext).elim
    | (obtain ⟨request, rfl, rfl⟩ := settled_eq_enqueued hnext
       exact ⟨request, rfl⟩)

theorem outcome_ne_enqueued {why : Rejection}
    (h : ClientNext.goto (.leave other (why.outcome record)) = .goto (.leave admission .enqueued)) :
    False := by
  cases why <;> cases h

theorem settled_ne_leave {other : Admission}
    (h : other.settled outcome = .goto (.leave admission outcome')) : False := by
  cases other <;> cases outcome <;> cases h

/-- The place after a successful `try_send` is entered by it only. -/
theorem clientAct_enters_leave (h : clientAct D m c env pc = some (effect, next))
    (hnext : next = .goto (.leave admission .enqueued)) : effect = .send admission.item := by
  rcases clientAct_queue h with hkeep | ⟨other, _, heffect, hgoto, _⟩
  · exfalso
    unfold clientAct at h
    repeat' split at h
    all_goals cases h
    all_goals first
      | exact outcome_ne_enqueued hnext
      | exact settled_ne_leave hnext
      | (cases hnext; done)
      | cases hkeep
  · rw [hgoto] at hnext
    cases hnext
    exact heffect

theorem Enqueued.step (h : Enqueued m) (hstep : Manager.step D m l = some m') : Enqueued m' := by
  cases step_cases hstep with
  | call c op =>
    refine ⟨?_, ?_⟩
    · intro c' call run request hcall hpc
      rw [epoch_call]
      simp only [observe, setClient, Function.update_apply] at hcall
      split_ifs at hcall
      · cases hcall
        cases op <;> cases hpc
      · exact mem_cons_of_mem _ (h.place c' call run request hcall hpc)
    · intro c' op' run hmem
      rw [epoch_call] at hmem ⊢
      rcases mem_cons.mp hmem with heq | hold
      · cases heq
      · exact mem_cons_of_mem _ (h.answer c' op' run hold)
  | client c env call effect next hcall hact =>
    have hsent : ∀ id, .sent id ∈ epoch m.history →
        .sent id ∈ epoch ((m.perform D effect).resume c call.op next).history :=
      fun id hid => sent_mem_epoch_resume.mpr (sent_mem_epoch_perform.mpr (.inr hid))
    refine ⟨?_, ?_⟩
    · intro c' call' run request hcall' hpc
      rcases clients_resume hcall' with ⟨_, pc, rfl, rfl⟩ | ⟨_, hold⟩
      · change pc = _ at hpc
        subst hpc
        have heffect := clientAct_enters_leave hact rfl
        exact sent_mem_epoch_resume.mpr (sent_mem_epoch_perform.mpr (.inl ⟨_, heffect, rfl⟩))
      · rw [perform_clients] at hold
        exact hsent _ (h.place c' call' run request hold hpc)
    · intro c' op' run hmem
      rcases returned_mem_epoch_resume.mp hmem with ⟨hdone, _, _⟩ | hold
      · obtain ⟨request, hpc⟩ := clientAct_enqueued hact hdone
        exact hsent _ (h.place c call run request hcall hpc)
      · exact hsent _ (h.answer c' op' run (returned_mem_epoch_perform.mp hold))
  | worker env effect =>
    exact h.other (perform_clients D m effect)
      (fun _ hid => sent_mem_epoch_perform.mpr (.inr hid))
      (fun _ _ _ hmem => returned_mem_epoch_perform.mp hmem)
  | crash =>
    refine ⟨fun _ _ _ _ hcall => (by cases hcall), ?_⟩
    intro c op run hmem
    simp [start] at hmem
  | _ => exact h.other rfl (fun _ hid => hid) (fun _ _ _ hmem => hmem)

/-- The executor is called by a worker that has not ended. -/
theorem Ordered.step (h : Ordered (epoch m.history)) (hclosing : Closing m)
    (hstep : Manager.step D m l = some m') : Ordered (epoch m'.history) := by
  cases step_cases hstep with
  | call c op =>
    rw [epoch_call]
    exact h
  | client c env call effect next hcall hact =>
    have hperform : Ordered (epoch (m.perform D effect).history) := by
      rw [epoch_perform]
      have hside := clientAct_isClient hact
      cases effect <;> first
        | exact h
        | cases hside
    rw [epoch_resume]
    cases next <;> exact hperform
  | worker env effect pc hact =>
    show Ordered (epoch (m.perform D effect).history)
    rw [epoch_perform]
    cases effect with
    | execute id =>
      refine ⟨?_, h⟩
      intro c hclosed
      rw [(hclosing.ended c hclosed).1] at hact
      cases hact
    | send item => exact absurd (workerAct_isWorker hact) (by simp [Effect.isWorker])
    | _ => exact h
  | crash =>
    show Ordered (epoch (.crashed :: m.history))
    rw [epoch_crashed]
    trivial
  | _ => exact h

/-! ## Whole executions -/

structure Draining (D : Digests) (m : Machine) : Prop where
  sound : Sound D m
  accounted : Accounted m
  closing : Closing m
  enqueued : Enqueued m
  ordered : Ordered (epoch m.history)

theorem Draining.initial (queueCapacity : Nat) : Draining D (.initial queueCapacity) where
  sound := .reachable (.refl (P := anyStep) _)
  accounted := ⟨trivial, fun _ hno => (by cases hno), fun _ hno => (by cases hno),
    fun _ hid => (by cases hid)⟩
  closing := ⟨fun _ _ hcall => (by cases hcall), fun _ _ hcall => (by cases hcall),
    fun _ _ _ _ hcall => (by cases hcall), fun _ => rfl, fun _ _ hmem => (by cases hmem),
    fun _ hmem => (by cases hmem)⟩
  enqueued := ⟨fun _ _ _ _ hcall => (by cases hcall), fun _ _ _ hmem => (by cases hmem)⟩
  ordered := trivial

theorem Draining.step (h : Draining D m) (hone : OneShutdown m l)
    (hstep : Manager.step D m l = some m') : Draining D m' where
  sound := h.sound.step hstep
  accounted := h.accounted.step h.sound.ledger hstep
  closing := h.closing.step h.sound hone hstep
  enqueued := h.enqueued.step hstep
  ordered := h.ordered.step h.closing hstep

/-- Runs that were sent are settled once `shutdown` has answered `Ok`. -/
theorem Draining.terminal (h : Draining D m) (hclosed : closedBy c ∈ epoch m.history)
    (hsent : .sent id ∈ epoch m.history) : Terminal m.store id := by
  obtain ⟨hexited, hfailed⟩ := h.closing.ended c hclosed
  have hqueue : m.queue = [] := by
    rcases h.accounted.exited false hexited with hflag | hempty
    · rw [hfailed] at hflag
      cases hflag
    · exact hempty
  rcases h.accounted.sent id hsent with hterminal | ⟨item, hmem, _⟩ | hheld | hfailing
  · exact hterminal
  · rw [hqueue] at hmem
    cases hmem
  · rw [hexited] at hheld
    cases hheld
  · rcases hfailing with hno | hno | hflag
    · rw [hexited] at hno
      cases hno
    · rw [hexited] at hno
      cases hno
    · rw [hfailed] at hflag
      cases hflag

/-- In every execution with one call of `shutdown` per manager, once it has
answered `Ok` every run that was put in the queue is terminal, whether its
submission was told or not, and no call of the executor follows. -/
theorem shutdown_drains {queueCapacity : Nat}
    (h : Steps (Manager.step D) OneShutdown (.initial queueCapacity) m) :
    (∀ c, closedBy c ∈ epoch m.history →
      (∀ id, .sent id ∈ epoch m.history → Terminal m.store id) ∧
      ∀ c' request run, .returned c' (.submit request) (.submitted (.ok ⟨run, .enqueued⟩)) ∈
        epoch m.history → Terminal m.store run.id) ∧
    ∀ id newer older, epoch m.history = newer ++ .executed id :: older →
      ∀ c, closedBy c ∉ older := by
  have hdraining : Draining D m :=
    h.invariant (fun _ _ _ hinv hone hstep => hinv.step hone hstep) (.initial queueCapacity)
  refine ⟨?_, ?_⟩
  · intro c hclosed
    refine ⟨fun id hsent => hdraining.terminal hclosed hsent, ?_⟩
    intro c' request run hmem
    exact hdraining.terminal hclosed (hdraining.enqueued.answer c' _ run hmem)
  · intro id newer older hepoch c
    have hordered := hdraining.ordered
    rw [hepoch] at hordered
    exact hordered.of_append c

/-- The condition as a check. -/
def oneShutdownStep (m : Machine) : Label → Bool
  | .call _ .shutdown =>
    (epoch m.history).all (fun
      | .called _ .shutdown => false
      | _ => true)
  | _ => true

theorem oneShutdown_of_step (h : oneShutdownStep m l) : OneShutdown m l := by
  cases l with
  | call c op =>
    cases op with
    | shutdown =>
      intro c' hmem
      exact absurd (all_eq_true.mp h _ hmem) (by simp)
    | _ => trivial
  | _ => trivial

/-- A client fills the queue, and `shutdown` drains it. -/
def shutdownLabels : List Label :=
  .call 0 (.submit sampleRequest) :: List.replicate 6 (.client 0 (sampleEnv 1)) ++
    .call 1 .shutdown :: List.replicate 4 (.client 1 (sampleEnv 2)) ++
    List.replicate 6 (.worker (sampleEnv 2)) ++ List.replicate 5 (.client 1 (sampleEnv 2))

def drainedMachine : Machine :=
  (run (Manager.step sampleDigests) (.initial 1) shutdownLabels).getD (.initial 1)

theorem shutdown_drains_sample :
    closedBy 1 ∈ epoch drainedMachine.history ∧ Terminal drainedMachine.store ⟨1⟩ := by
  have hrun : run (fun m l => if oneShutdownStep m l then Manager.step sampleDigests m l
      else none) (.initial 1) shutdownLabels = some drainedMachine := rfl
  have hsteps : Steps (Manager.step sampleDigests) OneShutdown (.initial 1) drainedMachine :=
    steps_of_checked_run (fun _ _ => oneShutdown_of_step) hrun
  have hclosed : closedBy 1 ∈ epoch drainedMachine.history := by decide +kernel
  have hsent : Observation.sent ⟨1⟩ ∈ epoch drainedMachine.history := by decide +kernel
  exact ⟨hclosed, ((shutdown_drains hsteps).1 1 hclosed).1 ⟨1⟩ hsent⟩

end Abbey.Manager
