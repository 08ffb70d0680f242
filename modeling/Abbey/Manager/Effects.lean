import Abbey.Manager.Machine

/-!
# The store calls of the machine

Every step of the machine makes at most one call of the store.
`storeCall` names it, and `step_store` says that the store after the step
is the store after that call.  So an execution of the machine is a run of
store calls, and the ledger invariant and what no call undoes hold along
every execution (`ledger_of_steps`, `extends_of_steps`).
-/

namespace Abbey.Manager

open Abbey.Lib Abbey.Run Machine List

variable {D : Digests} {m m' : Machine}
variable {c : ClientId} {next : ClientNext} {effect : Effect} {env : Env} {l : Label}
  {P : Machine → Label → Prop} {op : Operation}

/-! ## What an effect leaves alone -/

section Perform

variable (D) (m)

@[simp] theorem perform_worker (effect : Effect) : (m.perform D effect).worker = m.worker := by
  cases effect <;> rfl

@[simp] theorem perform_clients (effect : Effect) : (m.perform D effect).clients = m.clients := by
  cases effect <;> rfl

@[simp] theorem perform_capacity (effect : Effect) :
    (m.perform D effect).capacity = m.capacity := by
  cases effect <;> rfl

end Perform

/-- The call that an effect makes. -/
def Effect.call : Effect → Option StoreCall
  | .write call => some call
  | _ => none

/-- The store after an optional call. -/
def storeAfter (D : Digests) (db : RunDb) : Option StoreCall → RunDb
  | some call => call.apply D.submitDigest db
  | none => db

theorem perform_store (D : Digests) (m : Machine) (effect : Effect) :
    (m.perform D effect).store = storeAfter D m.store effect.call := by
  cases effect <;> rfl

@[simp] theorem setClient_store (m : Machine) (c : ClientId) (call : Option Call) :
    (m.setClient c call).store = m.store := rfl

@[simp] theorem observe_store (m : Machine) (observation : Observation) :
    (m.observe observation).store = m.store := rfl

@[simp] theorem resume_store (m : Machine) (c : ClientId) (op : Operation)
    (next : ClientNext) : (m.resume c op next).store = m.store := by
  cases next <;> rfl

/-! ## The call of a step -/

/-- The store call that a step makes. -/
def storeCall (D : Digests) (m : Machine) : Label → Option StoreCall
  | .client c env =>
    match m.clients c with
    | none => none
    | some call =>
      match clientAct D m c env call.pc with
      | none => none
      | some (effect, _) => effect.call
  | .worker env =>
    match workerAct D m env m.worker with
    | none => none
    | some (effect, _) => effect.call
  | .content payload nowMs messageId =>
    match m.worker with
    | .executing item _ => some (.appendContent item.runId payload nowMs messageId)
    | _ => none
  | .createConversation id title nowMs => some (.createAssistantConversation id title nowMs)
  | .deleteConversation id nowMs => some (.deleteAssistantConversation id nowMs)
  | .crash now marker _ => some (.recover now marker)
  | .call _ _ | .attempt _ | .workerPanic => none

/-- A client step is one effect and one move of the client. -/
theorem step_client (h : step D m (.client c env) = some m') :
    ∃ call effect next, m.clients c = some call ∧
      clientAct D m c env call.pc = some (effect, next) ∧
      m' = (m.perform D effect).resume c call.op next := by
  unfold step at h
  simp only at h
  split at h
  · cases h
  · rename_i call hcall
    split at h
    · cases h
    · rename_i effect next hact
      cases h
      exact ⟨call, effect, next, hcall, hact, rfl⟩

theorem step_client_of_act (hcall : m.clients c = some call)
    (hact : clientAct D m c env call.pc = some (effect, next)) :
    step D m (.client c env) = some ((m.perform D effect).resume c call.op next) := by
  simp only [step, hcall, hact]

theorem storeCall_client (hcall : m.clients c = some call)
    (hact : clientAct D m c env call.pc = some (effect, next)) :
    storeCall D m (.client c env) = effect.call := by
  simp only [storeCall, hcall, hact]

/-- A worker step is one effect and one move of the worker. -/
theorem step_worker (h : step D m (.worker env) = some m') :
    ∃ effect pc, workerAct D m env m.worker = some (effect, pc) ∧
      m' = { m.perform D effect with worker := pc } := by
  unfold step at h
  simp only at h
  split at h
  · cases h
  · rename_i effect pc hact
    cases h
    exact ⟨effect, pc, hact, rfl⟩

theorem step_call (h : step D m (.call c op) = some m') : m.clients c = none ∧
      m' = (m.setClient c (some ⟨op, op.entry⟩)).observe (.called c op) := by
  unfold step at h
  simp only at h
  split at h
  · cases h
  · rename_i hidle
    cases h
    exact ⟨hidle, rfl⟩

theorem step_attempt (h : step D m (.attempt attempt) = some m') :
    ∃ item token, m.worker = .executing item token ∧
      m' = { m with worker := .settle item token attempt maxAttempts } := by
  unfold step at h
  simp only at h
  split at h
  · rename_i item token hworker
    cases h
    exact ⟨item, token, hworker, rfl⟩
  · cases h

theorem step_content (h : step D m (.content payload nowMs messageId) = some m') :
    ∃ item token, m.worker = .executing item token ∧
      m' = m.perform D (.write (.appendContent item.runId payload nowMs messageId)) := by
  unfold step at h
  simp only at h
  split at h
  · rename_i item token hworker
    split at h
    · cases h
      exact ⟨item, token, hworker, rfl⟩
    · cases h
  · cases h

theorem step_workerPanic (h : step D m .workerPanic = some m') :
    ∃ pc, m.worker = .failInterrupt pc ∧ m' = { m with worker := .exited true } := by
  unfold step at h
  simp only at h
  split at h
  · rename_i pc hworker
    cases h
    exact ⟨pc, hworker, rfl⟩
  · cases h

theorem step_crash (h : step D m (.crash now marker queueCapacity) = some m') :
    ∃ store count, recoverInterruptedOn m.store now marker = .ok (store, count) ∧
      m' = start store queueCapacity (.crashed :: m.history) := by
  unfold step at h
  simp only at h
  split at h
  · cases h
  · rename_i store count hrecover
    cases h
    exact ⟨store, count, hrecover, rfl⟩

/-- What a step does: a call begins, a client or the worker performs one
effect, the manager starts again, or only the store or the place of the
worker changes. -/
inductive Stepped (D : Digests) (m : Machine) : Label → Machine → Prop where
  | call (c : ClientId) (op : Operation) (hidle : m.clients c = none) : Stepped D m (.call c op)
      ((m.setClient c (some ⟨op, op.entry⟩)).observe (.called c op))
  | client (c : ClientId) (env : Env) (call : Call) (effect : Effect) (next : ClientNext)
      (hcall : m.clients c = some call) (hact : clientAct D m c env call.pc = some (effect, next)) :
      Stepped D m (.client c env) ((m.perform D effect).resume c call.op next)
  | worker (env : Env) (effect : Effect) (pc : WorkerPc)
      (hact : workerAct D m env m.worker = some (effect, pc)) :
      Stepped D m (.worker env) { m.perform D effect with worker := pc }
  | attempt (attempt : ExecutionAttempt) (item : WorkItem) (token : Token)
      (hworker : m.worker = .executing item token) :
      Stepped D m (.attempt attempt) { m with worker := .settle item token attempt maxAttempts }
  | workerPanic (pc : InterruptPc) (hworker : m.worker = .failInterrupt pc) :
      Stepped D m .workerPanic { m with worker := .exited true }
  | write (l : Label) (call : StoreCall) : Stepped D m l (m.perform D (.write call))
  | crash (now : Instant) (marker : RunId → Instant) (queueCapacity : Nat) (store : RunDb) :
      Stepped D m (.crash now marker queueCapacity)
        (start store queueCapacity (.crashed :: m.history))

theorem step_cases (h : step D m l = some m') : Stepped D m l m' := by
  cases l with
  | call c op =>
    obtain ⟨hidle, rfl⟩ := step_call h
    exact .call c op hidle
  | client c env =>
    obtain ⟨call, effect, next, hcall, hact, rfl⟩ := step_client h
    exact .client c env call effect next hcall hact
  | worker env =>
    obtain ⟨effect, pc, hact, rfl⟩ := step_worker h
    exact .worker env effect pc hact
  | attempt attempt =>
    obtain ⟨item, token, hworker, rfl⟩ := step_attempt h
    exact .attempt attempt item token hworker
  | content payload nowMs messageId =>
    obtain ⟨_, _, _, rfl⟩ := step_content h
    exact .write _ _
  | workerPanic =>
    obtain ⟨pc, hworker, rfl⟩ := step_workerPanic h
    exact .workerPanic pc hworker
  | createConversation id title nowMs | deleteConversation id nowMs =>
    cases h
    exact .write _ _
  | crash now marker queueCapacity =>
    obtain ⟨store, _, _, rfl⟩ := step_crash h
    exact .crash now marker queueCapacity store

/-- The store after a step is the store after its call. -/
theorem step_store (h : step D m l = some m') :
    m'.store = storeAfter D m.store (storeCall D m l) := by
  cases l with
  | call c op =>
    obtain ⟨_, rfl⟩ := step_call h
    rfl
  | client c env =>
    obtain ⟨call, effect, next, hcall, hact, rfl⟩ := step_client h
    rw [resume_store, perform_store]
    simp only [storeCall, hcall, hact]
  | worker env =>
    obtain ⟨effect, pc, hact, rfl⟩ := step_worker h
    show (m.perform D effect).store = _
    rw [perform_store]
    simp only [storeCall, hact]
  | attempt attempt =>
    obtain ⟨_, _, _, rfl⟩ := step_attempt h
    rfl
  | content payload nowMs messageId =>
    obtain ⟨item, token, hworker, rfl⟩ := step_content h
    simp only [storeCall, hworker]
    rfl
  | workerPanic =>
    obtain ⟨_, _, rfl⟩ := step_workerPanic h
    rfl
  | createConversation id title nowMs =>
    cases h
    rfl
  | deleteConversation id nowMs =>
    cases h
    rfl
  | crash now marker queueCapacity =>
    obtain ⟨store, count, hrecover, rfl⟩ := step_crash h
    show store = (StoreCall.recover now marker).apply D.submitDigest m.store
    simp only [StoreCall.apply, StoreCall.commit, hrecover, Except.map]

/-! ## The ledger along an execution -/

theorem ledger_storeAfter (hledger : Ledger m.store) (call : Option StoreCall) :
    Ledger (storeAfter D m.store call) := by
  cases call with
  | none => exact hledger
  | some call => exact hledger.apply D.submitDigest call

theorem extends_storeAfter (D : Digests) (db : RunDb) (call : Option StoreCall) :
    Extends db (storeAfter D db call) := by
  cases call with
  | none => exact .refl db
  | some call => exact .apply D.submitDigest db call

theorem ledger_of_step (hledger : Ledger m.store) (h : step D m l = some m') : Ledger m'.store := by
  rw [step_store h]
  exact ledger_storeAfter hledger _

theorem extends_of_step (h : step D m l = some m') : Extends m.store m'.store := by
  rw [step_store h]
  exact extends_storeAfter D m.store _

theorem extends_perform (D : Digests) (m : Machine) (effect : Effect) :
    Extends m.store (m.perform D effect).store := by
  rw [perform_store]
  exact extends_storeAfter D m.store _

/-- The ledger of every machine that is reached is sound. -/
theorem ledger_of_steps (h : Steps (step D) P m m') (hledger : Ledger m.store) :
    Ledger m'.store := by
  induction h with
  | refl => exact hledger
  | tail _ _ hstep ih => exact ledger_of_step ih hstep

/-- What no call undoes, no execution undoes. -/
theorem extends_of_steps (h : Steps (step D) P m m') : Extends m.store m'.store := by
  induction h with
  | refl => exact .refl _
  | tail _ _ hstep ih => exact ih.trans (extends_of_step hstep)

/-- A call that succeeds without a fault commits. -/
theorem commit_of_outcome (h : env.outcome D m call = .ok ()) : env.effect call = .write call ∧
      call.commit D.submitDigest m.store = .ok (call.apply D.submitDigest m.store) := by
  unfold Env.outcome at h
  unfold Env.effect
  split_ifs at h with hfault
  refine ⟨if_neg hfault, ?_⟩
  rcases apply_cases D.submitDigest m.store call with _ | hcommit
  · cases hcommit : call.commit D.submitDigest m.store with
    | error e =>
      rw [hcommit] at h
      cases h
    | ok db =>
      unfold StoreCall.apply
      rw [hcommit]
  · exact hcommit

/-- A transition that succeeds found the run in the expected state and
moved it. -/
theorem transition_of_outcome {id : RunId}
    (h : env.outcome D m (env.transition id expected move) = .ok ()) :
    ∃ run, m.store.runs.find id = some run ∧ run.status = expected ∧
      expected.allows move.next ∧
      Advanced m.store (m.perform D (env.effect (env.transition id expected move))).store run
        move.next (move.evidence.newEvent env.clockMs) env.now := by
  obtain ⟨heffect, hcommit⟩ := commit_of_outcome h
  rw [heffect]
  obtain ⟨stored, htransition⟩ := map_fst_eq_ok hcommit
  exact transitionRun_writes htransition

theorem getRun_eq_ok {id : RunId} (h : env.getRun m id = .ok record) :
    m.store.runs.find id = some record := by
  unfold Env.getRun at h
  split_ifs at h
  exact required_eq_ok.mp h

/-! ## Which thread does what -/

/-- The operations of a client: it never runs the worker's side of the
channel or the executor. -/
def Effect.isClient : Effect → Bool
  | .activate _ | .markFailed | .receive | .execute _ => false
  | _ => true

/-- The operations of the worker: it never touches the sending side. -/
def Effect.isWorker : Effect → Bool
  | .insertAdmitted _ | .cloneSender _ | .dropClone _ | .dropSender | .send _ | .takeHandle
  | .signalAll => false
  | _ => true

@[simp] theorem isClient_effect (env : Env) (call : StoreCall) :
    (env.effect call).isClient := by
  unfold Env.effect
  split_ifs <;> rfl

@[simp] theorem isWorker_effect (env : Env) (call : StoreCall) :
    (env.effect call).isWorker := by
  unfold Env.effect
  split_ifs <;> rfl

theorem interruptAct_effect {next : InterruptNext}
    (h : interruptAct D m env pc = some (effect, next)) : effect.isClient ∧ effect.isWorker := by
  unfold interruptAct at h
  repeat' split at h
  all_goals cases h
  all_goals first
    | exact ⟨rfl, rfl⟩
    | exact ⟨isClient_effect _ _, isWorker_effect _ _⟩

theorem clientAct_isClient (h : clientAct D m c env pc = some (effect, next)) :
    effect.isClient := by
  unfold clientAct at h
  repeat' split at h
  all_goals cases h
  all_goals first
    | rfl
    | exact isClient_effect _ _
    | exact (interruptAct_effect ‹_›).1

theorem workerAct_isWorker (h : workerAct D m env pc = some (effect, pc')) : effect.isWorker := by
  unfold workerAct at h
  repeat' split at h
  all_goals cases h
  all_goals first
    | rfl
    | exact isWorker_effect _ _
    | exact (interruptAct_effect ‹_›).2

/-! ## The history grows -/

theorem history_perform (effect : Effect) :
    ∃ recent, (m.perform D effect).history = recent ++ m.history := by
  cases effect <;> first
    | exact ⟨[], rfl⟩
    | exact ⟨[_], rfl⟩

theorem history_resume (c : ClientId) (op : Operation) (next : ClientNext) :
    ∃ recent, (m.resume c op next).history = recent ++ m.history := by
  cases next <;> first
    | exact ⟨[], rfl⟩
    | exact ⟨[_], rfl⟩

theorem history_of_step (h : step D m l = some m') :
    ∃ recent, m'.history = recent ++ m.history := by
  cases step_cases h with
  | call c op => exact ⟨[.called c op], rfl⟩
  | client c env call effect next =>
    obtain ⟨first, hfirst⟩ := history_perform (D := D) (m := m) effect
    obtain ⟨second, hsecond⟩ := history_resume (m := m.perform D effect) c call.op next
    exact ⟨second ++ first, by rw [hsecond, hfirst, append_assoc]⟩
  | worker env effect => exact history_perform effect
  | crash => exact ⟨[.crashed], rfl⟩
  | _ => exact ⟨[], rfl⟩

/-! ## Invariants of the clients -/

theorem returned_mem_perform :
    .returned c op answer ∈ (m.perform D effect).history ↔ .returned c op answer ∈ m.history := by
  cases effect <;> simp [perform]

/-- Facts about the place of every call, and about every answer given. -/
structure Told (I : Machine → Call → Prop) (A : Machine → Operation → Answer → Prop)
    (m : Machine) : Prop where
  clients : ∀ c call, m.clients c = some call → I m call
  answers : ∀ c op answer, .returned c op answer ∈ m.history → A m op answer

/-- The fact after one operation of a client. -/
def NextTold (I : Machine → Call → Prop) (A : Machine → Operation → Answer → Prop)
    (m : Machine) (op : Operation) : ClientNext → Prop
  | .goto pc => I m ⟨op, pc⟩
  | .done answer => A m op answer

section Told

variable {I : Machine → Call → Prop} {A : Machine → Operation → Answer → Prop}

/-- A step that moves no client. -/
theorem Told.other (h : Told I A m) (hclients : m'.clients = m.clients)
    (hhistory : ∀ c op answer, .returned c op answer ∈ m'.history →
      .returned c op answer ∈ m.history)
    (hkeep : ∀ c call, m.clients c = some call → I m call → I m' call)
    (hanswers : ∀ op answer, A m op answer → A m' op answer) : Told I A m' := by
  refine ⟨?_, ?_⟩
  · intro c call hcall
    rw [hclients] at hcall
    exact hkeep c call hcall (h.clients c call hcall)
  · intro c op answer hmem
    exact hanswers op answer (h.answers c op answer (hhistory c op answer hmem))

/-- The rule for an invariant of the clients: a new call starts with it,
the client that moves keeps it, and no step takes it from the others. -/
theorem Told.step (h : Told I A m) (hstep : Manager.step D m l = some m')
    (hentry : ∀ c op, l = .call c op → I m' ⟨op, op.entry⟩)
    (hact : ∀ c env call effect next, l = .client c env → m.clients c = some call →
      clientAct D m c env call.pc = some (effect, next) → NextTold I A m' call.op next)
    (hkeep : ∀ c call, m.clients c = some call → I m call → I m' call)
    (hanswers : ∀ op answer, A m op answer → A m' op answer) : Told I A m' := by
  cases step_cases hstep with
  | call c op =>
    have hnew := hentry c op rfl
    refine ⟨?_, ?_⟩
    · intro c' call hcall
      simp only [observe, setClient, Function.update_apply] at hcall
      split_ifs at hcall
      · cases hcall
        exact hnew
      · exact hkeep c' call hcall (h.clients c' call hcall)
    · intro c' op' answer hmem
      simp only [observe, setClient, mem_cons, reduceCtorEq, false_or] at hmem
      exact hanswers op' answer (h.answers c' op' answer hmem)
  | client c env call effect next hcall hmove =>
    have hnext := hact c env call effect next rfl hcall hmove
    cases next with
    | goto pc =>
      refine ⟨?_, ?_⟩
      · intro c' call' hcall'
        simp only [resume, setClient, Function.update_apply, perform_clients] at hcall'
        split_ifs at hcall'
        · cases hcall'
          exact hnext
        · exact hkeep c' call' hcall' (h.clients c' call' hcall')
      · intro c' op' answer hmem
        exact hanswers op' answer (h.answers c' op' answer (returned_mem_perform.mp hmem))
    | done answer =>
      refine ⟨?_, ?_⟩
      · intro c' call' hcall'
        simp only [resume, observe, setClient, Function.update_apply, perform_clients] at hcall'
        split_ifs at hcall'
        exact hkeep c' call' hcall' (h.clients c' call' hcall')
      · intro c' op' answer' hmem
        rcases mem_cons.mp hmem with heq | hold
        · cases heq
          exact hnext
        · exact hanswers op' answer' (h.answers c' op' answer' (returned_mem_perform.mp hold))
  | worker env effect =>
    exact h.other (perform_clients D m effect)
      (fun _ _ _ hmem => returned_mem_perform.mp hmem) hkeep hanswers
  | crash =>
    refine ⟨fun _ _ hcall => (by cases hcall), ?_⟩
    intro c op answer hmem
    rcases mem_cons.mp hmem with heq | hold
    · cases heq
    · exact hanswers op answer (h.answers c op answer hold)
  | _ => exact h.other rfl (fun _ _ _ hmem => hmem) hkeep hanswers

end Told

end Abbey.Manager
