import Abbey.Manager.AtMostOnce

/-!
# Queued runs after a restart

A crash loses the queue and the admitted set, and recovery leaves every
queued run as it is.  The run is adopted again when its client submits the
original request to the new manager.

`submit` decides by the status of the row: a queued run enters the queue
(`Waiting.step`).  `submit_v4` decides by the duplicate flag of the
receipt, which is set for every row that exists, so it answers the receipt
and the run stays behind (`Stranded.step`).  `readopts_iff` is the exact
line between the two.
-/

namespace Abbey.Manager

open Abbey.Lib Abbey.Run ClientPc

variable {D : Digests} {m m' : Machine} {db : RunDb}
variable {l : Label} {row : RunRecord} {c : ClientId}

/-! ## Resubmission -/

/-- The row of a key is found by the key. -/
theorem runByIdempotencyKey_of_find {id : RunId} (hledger : Ledger db)
    (hrow : db.runs.find id = some row) : runByIdempotencyKey db row.idempotencyKey = some row := by
  cases hfound : runByIdempotencyKey db row.idempotencyKey with
  | none => exact absurd rfl (runByIdempotencyKey_eq_none.mp hfound id row hrow)
  | some other =>
    obtain ⟨hother, hkey⟩ := runByIdempotencyKey_eq_some hfound
    have hid : other.id = id := hledger.keys _ _ _ _ hother hrow hkey
    rw [hid, hrow] at hother
    exact hother.symm

/-- The labels of a resubmission: the client without database failures,
and the worker. -/
def Label.resubmits (c : ClientId) : Label → Bool
  | .client c' env => c' = c && !env.fault
  | .worker _ | .attempt _ | .content _ _ _ | .workerPanic => true
  | _ => false

/-- A client calls `op` and its call returns, with the worker alongside. -/
def Resubmitted (D : Digests) (m : Machine) (c : ClientId) (op : Operation)
    (m' : Machine) : Prop :=
  ∃ called, step D m (.call c op) = some called ∧
    Steps (step D) (fun _ l => l.resubmits c = true) called m' ∧ m'.clients c = none

/-- The run was put in the queue between two machines. -/
def Placed (m m' : Machine) (id : RunId) : Prop :=
  ∃ recent, m'.history = recent ++ m.history ∧ .sent id ∈ recent

/-- The run entered the queue, or it is settled. -/
def Adopted (m m' : Machine) (id : RunId) : Prop :=
  Placed m m' id ∨ ∃ run, m'.store.runs.find id = some run ∧ run.status.isTerminal = true

/-- A request that passed its checks and whose row is the run. -/
def Original (D : Digests) (db : RunDb) (id : RunId) : Operation → Prop
  | .submit request => request.validate = .ok () ∧ Bound D db (.submit request) id
  | .submitV4 request => request.validate = .ok () ∧ Bound D db (.submitV4 request) id
  | .cancel _ | .shutdown => False

/-- The call returns, and whenever it has returned the run is adopted. -/
def Readopts (D : Digests) (m : Machine) (c : ClientId) (op : Operation) (id : RunId) : Prop :=
  (∃ m', Resubmitted D m c op m') ∧ ∀ m', Resubmitted D m c op m' → Adopted m m' id

/-! ## Steps of a resubmission -/

theorem Placed.step {id : RunId} (h : Placed start m id)
    (hstep : Manager.step D m l = some m') : Placed start m' id := by
  obtain ⟨recent, hrecent, hsent⟩ := h
  obtain ⟨more, hmore⟩ := history_of_step hstep
  refine ⟨more ++ recent, ?_, List.mem_append_right more hsent⟩
  rw [hmore, hrecent, List.append_assoc]

/-- The worker leaves the clients alone. -/
theorem clients_of_step_resubmits (hl : l.resubmits c)
    (hclient : ∀ env, l ≠ .client c env) (h : step D m l = some m') : m'.clients = m.clients := by
  cases l with
  | client c' env =>
    simp only [Label.resubmits, Bool.and_eq_true, decide_eq_true_eq] at hl
    exact absurd (hl.1 ▸ rfl) (hclient env)
  | worker env =>
    obtain ⟨effect, pc, _, rfl⟩ := step_worker h
    exact perform_clients D m effect
  | attempt attempt =>
    obtain ⟨_, _, _, rfl⟩ := step_attempt h
    rfl
  | content payload nowMs messageId =>
    obtain ⟨item, token, _, rfl⟩ := step_content h
    rfl
  | workerPanic =>
    obtain ⟨_, _, rfl⟩ := step_workerPanic h
    rfl
  | call | createConversation | deleteConversation | crash => cases hl

/-! ## A manager that waits -/

/-- An idle manager: its worker waits at an empty queue. -/
structure Idle (m : Machine) : Prop where
  worker : m.worker = .recv
  queue : m.queue = []
  sender : m.sender = true
  accepting : m.shuttingDown = false

/-- The worker of an idle manager does not move. -/
theorem Idle.client_of_resubmits (h : Idle m) (hl : l.resubmits c)
    (hstep : step D m l = some m') : ∃ env, l = .client c env ∧ env.fault = false := by
  cases l with
  | client c' env =>
    simp only [Label.resubmits, Bool.and_eq_true, decide_eq_true_eq, Bool.not_eq_true'] at hl
    exact ⟨env, by rw [hl.1], hl.2⟩
  | worker env =>
    obtain ⟨effect, pc, hact, _⟩ := step_worker hstep
    rw [h.worker] at hact
    simp only [workerAct, h.queue, h.sender] at hact
    cases hact
  | attempt attempt =>
    obtain ⟨_, _, hworker, _⟩ := step_attempt hstep
    rw [h.worker] at hworker
    cases hworker
  | content payload nowMs messageId =>
    obtain ⟨_, _, hworker, _⟩ := step_content hstep
    rw [h.worker] at hworker
    cases hworker
  | workerPanic =>
    obtain ⟨_, hworker, _⟩ := step_workerPanic hstep
    rw [h.worker] at hworker
    cases hworker
  | call _ _ => cases hl
  | createConversation _ _ _ => cases hl
  | deleteConversation _ _ => cases hl
  | crash _ _ _ => cases hl

/-! ## submit -/

/-- The places of `submit` before the run is in the queue, with what is
known there.  The run was not admitted since the restart. -/
def Ahead (request : RunRequest) (id : RunId) (m : Machine) : ClientPc → Prop
  | .submitCheck other | .submitConversation other | .submitCreate other =>
    other = request ∧ m.admitted = []
  | .insertAdmitted admission =>
    (∃ run, admission = .legacy run request ∧ run.id = id) ∧ m.admitted = []
  | .cloneSender admission | .trySend admission =>
    ∃ run, admission = .legacy run request ∧ run.id = id
  | _ => False

/-- How far a place is from the queue. -/
def ClientPc.distance : ClientPc → Nat
  | .submitCheck _ => 6
  | .submitConversation _ => 5
  | .submitCreate _ => 4
  | .insertAdmitted _ => 3
  | .cloneSender _ => 2
  | .trySend _ => 1
  | _ => 0

/-- A client that resubmits a queued run, on its way to the queue. -/
structure Waiting (D : Digests) (start : Machine) (c : ClientId) (request : RunRequest)
    (id : RunId) (pc : ClientPc) (m : Machine) : Prop where
  idle : Idle m
  capacity : 0 < m.capacity
  history : ∃ recent, m.history = recent ++ start.history
  ledger : Ledger m.store
  row : ∃ run, m.store.runs.find id = some run ∧ run.status = .queued ∧
    run.idempotencyKey = request.idempotencyKey ∧
    run.requestDigest = D.canonicalRequestDigest request
  client : m.clients c = some ⟨.submit request, pc⟩
  ahead : Ahead request id m pc

/-- The run is in the queue, or was taken from it, and the call is about
to return or has returned. -/
structure Delivered (start : Machine) (c : ClientId) (request : RunRequest) (id : RunId)
    (m : Machine) : Prop where
  placed : Placed start m id
  client : m.clients c = none ∨
    ∃ run, m.clients c = some ⟨.submit request, .leave (.legacy run request) .enqueued⟩

section Submit

variable {start : Machine} {c : ClientId} {request : RunRequest} {id : RunId}
  {pc : ClientPc} {env : Env}

/-- `create_or_get_run` finds the row of the request. -/
theorem createOrGetRun_existing (hfound : runByIdempotencyKey db request.idempotencyKey = some row)
    (hdigest : row.requestDigest = D.canonicalRequestDigest request) :
    createOrGetRun db (newRunOf D request) newId now = .ok (db, row) := by
  have hvalid : validateNewRun (newRunOf D request) = .ok () := by
    unfold validateNewRun
    exact ensure_eq_ok.mpr (D.canonical_isDigest request)
  have hkey : runByIdempotencyKey db (newRunOf D request).idempotencyKey = some row := hfound
  unfold createOrGetRun
  rw [hvalid, ok_bind, hkey]
  exact if_pos hdigest

/-- A waiting client that goes on to a place nearer to the queue still
waits. -/
theorem Waiting.goto (h : Waiting D start c request id pc m)
    (hact : clientAct D m c env pc = some (effect, .goto pc')) (hidle : Idle (m.perform D effect))
    (hhistory : (m.perform D effect).history = m.history)
    (hruns : (m.perform D effect).store.runs = m.store.runs)
    (hledger : Ledger (m.perform D effect).store)
    (hahead : Ahead request id (m.perform D effect) pc') :
    ∃ m', step D m (.client c env) = some m' ∧ Waiting D start c request id pc' m' := by
  refine ⟨(m.perform D effect).resume c (.submit request) (.goto pc'), ?_, ?_⟩
  · exact step_client_of_act h.client hact
  · obtain ⟨recent, hrecent⟩ := h.history
    refine ⟨⟨hidle.worker, hidle.queue, hidle.sender, hidle.accepting⟩, ?_,
      ⟨recent, hhistory.trans hrecent⟩, hledger, ?_, ?_, ?_⟩
    · show 0 < (m.perform D effect).capacity
      rw [perform_capacity]
      exact h.capacity
    · show ∃ run, (m.perform D effect).store.runs.find id = some run ∧ _
      rw [hruns]
      exact h.row
    · exact Function.update_self ..
    · cases pc' <;> exact hahead

/-- One step of a waiting client brings it nearer to the queue, or puts the
run into it. -/
theorem Waiting.step (h : Waiting D start c request id pc m)
    (hvalid : request.validate = .ok ()) (hfault : env.fault = false) :
    ∃ m', Manager.step D m (.client c env) = some m' ∧
      ((∃ pc', Waiting D start c request id pc' m' ∧ pc'.distance < pc.distance) ∨
        Delivered start c request id m') := by
  have hread : ∀ pc', clientAct D m c env pc = some (.read, .goto pc') →
      Ahead request id m pc' → pc'.distance < pc.distance →
      ∃ m', Manager.step D m (.client c env) = some m' ∧
        ((∃ pc', Waiting D start c request id pc' m' ∧ pc'.distance < pc.distance) ∨
          Delivered start c request id m') := by
    intro pc' hact hahead hlt
    obtain ⟨m', hstep, hnext⟩ := h.goto hact h.idle rfl rfl h.ledger hahead
    exact ⟨m', hstep, .inl ⟨pc', hnext, hlt⟩⟩
  have hahead := h.ahead
  have hidle : ∀ {effect}, (m.perform D effect).queue = m.queue →
      (m.perform D effect).sender = m.sender →
      (m.perform D effect).shuttingDown = m.shuttingDown → Idle (m.perform D effect) := by
    intro effect hqueue hsender haccepting
    exact ⟨(perform_worker D m effect).trans h.idle.worker, hqueue.trans h.idle.queue,
      hsender.trans h.idle.sender, haccepting.trans h.idle.accepting⟩
  cases pc with
  | submitCheck other =>
    obtain ⟨rfl, hadmitted⟩ := hahead
    by_cases hconversation : other.conversationId.isSome
    · refine hread (.submitConversation other) ?_ ⟨rfl, hadmitted⟩ (by simp [distance])
      simp [clientAct, h.idle.accepting, hvalid, hconversation]
    · refine hread (.submitCreate other) ?_ ⟨rfl, hadmitted⟩ (by simp [distance])
      simp [clientAct, h.idle.accepting, hvalid, hconversation]
  | submitConversation other =>
    obtain ⟨rfl, hadmitted⟩ := hahead
    cases hconversation : other.conversationId with
    | none =>
      refine hread (.submitCreate other) ?_ ⟨rfl, hadmitted⟩ (by simp [distance])
      simp [clientAct, hconversation]
    | some conversation =>
      have hact : clientAct D m c env (.submitConversation other) =
          some (.write (.createConversation conversation), .goto (.submitCreate other)) := by
        simp [clientAct, hconversation, hfault]
      have hsame := createConversation_sameLedger m.store conversation
      have hledger : Ledger (createConversation m.store conversation) := h.ledger.same hsame
      obtain ⟨m', hstep, hnext⟩ :=
        h.goto hact (hidle rfl rfl rfl) rfl hsame.runs hledger ⟨rfl, hadmitted⟩
      exact ⟨m', hstep, .inl ⟨_, hnext, by simp [distance]⟩⟩
  | submitCreate other =>
    obtain ⟨rfl, hadmitted⟩ := hahead
    obtain ⟨row, hrow, hstatus, hkey, hdigest⟩ := h.row
    have hfound := runByIdempotencyKey_of_find h.ledger hrow
    rw [hkey] at hfound
    have hcreate : createOrGetRun m.store (newRunOf D other) env.runId env.now =
        .ok (m.store, row) := createOrGetRun_existing hfound hdigest
    have hstore : (StoreCall.createOrGetRun (newRunOf D other) env.runId env.now).apply
        D.submitDigest m.store = m.store := (bound_of_createOrGetRun hcreate).1
    have hledger : Ledger ((StoreCall.createOrGetRun (newRunOf D other) env.runId
        env.now).apply D.submitDigest m.store) := by
      rw [hstore]
      exact h.ledger
    have hact : clientAct D m c env (.submitCreate other) =
        some (.write (.createOrGetRun (newRunOf D other) env.runId env.now),
          .goto (.insertAdmitted (.legacy row other))) := by
      simp [clientAct, hfault, hcreate, hstatus]
    obtain ⟨m', hstep, hnext⟩ :=
      h.goto hact (hidle rfl rfl rfl) rfl (congrArg RunDb.runs hstore) hledger
        ⟨⟨row, rfl, Table.pk_of_find hrow⟩, hadmitted⟩
    exact ⟨m', hstep, .inl ⟨_, hnext, by simp [distance]⟩⟩
  | insertAdmitted admission =>
    obtain ⟨⟨run, rfl, hid⟩, hadmitted⟩ := hahead
    have hact : clientAct D m c env (.insertAdmitted (.legacy run request)) =
        some (.insertAdmitted run.id, .goto (.cloneSender (.legacy run request))) := by
      simp [clientAct, hadmitted, Admission.runId]
    obtain ⟨m', hstep, hnext⟩ :=
      h.goto hact (hidle rfl rfl rfl) rfl rfl h.ledger ⟨run, rfl, hid⟩
    exact ⟨m', hstep, .inl ⟨_, hnext, by simp [distance]⟩⟩
  | cloneSender admission =>
    obtain ⟨run, rfl, hid⟩ := hahead
    have hact : clientAct D m c env (.cloneSender (.legacy run request)) =
        some (.cloneSender c, .goto (.trySend (.legacy run request))) := by
      simp [clientAct, h.idle.sender]
    obtain ⟨m', hstep, hnext⟩ :=
      h.goto hact (hidle rfl rfl rfl) rfl rfl h.ledger ⟨run, rfl, hid⟩
    exact ⟨m', hstep, .inl ⟨_, hnext, by simp [distance]⟩⟩
  | trySend admission =>
    obtain ⟨run, rfl, hid⟩ := hahead
    have hact : clientAct D m c env (.trySend (.legacy run request)) =
        some (.send ⟨run.id, .legacy request⟩, .goto (.leave (.legacy run request) .enqueued)) := by
      simp [clientAct, h.idle.worker, h.idle.queue, h.capacity, Admission.item]
    obtain ⟨recent, hrecent⟩ := h.history
    refine ⟨_, step_client_of_act h.client hact, .inr ⟨?_, ?_⟩⟩
    · refine ⟨.sent id :: recent, ?_, List.mem_cons_self⟩
      show Observation.sent run.id :: m.history = _
      rw [hid, hrecent]
      rfl
    · exact .inr ⟨run, Function.update_self ..⟩
  | _ => exact hahead.elim

/-- Once the run is in the queue the call can only return. -/
theorem Delivered.step (h : Delivered start c request id m) (hl : l.resubmits c)
    (hstep : Manager.step D m l = some m') : Delivered start c request id m' := by
  refine ⟨h.placed.step hstep, ?_⟩
  by_cases hclient : ∃ env, l = .client c env
  · obtain ⟨env, rfl⟩ := hclient
    obtain ⟨call, effect, next, hcall, hact, rfl⟩ := step_client hstep
    rcases h.client with hnone | ⟨run, hleave⟩
    · rw [hnone] at hcall
      cases hcall
    · rw [hleave] at hcall
      cases hcall
      cases hact
      exact .inl (Function.update_self ..)
  · have hsame : m'.clients = m.clients :=
      clients_of_step_resubmits hl (fun env heq => hclient ⟨env, heq⟩) hstep
    rw [hsame]
    exact h.client

/-- Along a resubmission the client waits, or the run was delivered. -/
theorem Waiting.steps (h : Waiting D start c request id pc m) (hvalid : request.validate = .ok ())
    (hsteps : Steps (Manager.step D) (fun _ l => l.resubmits c = true) m m') :
    (∃ pc', Waiting D start c request id pc' m') ∨ Delivered start c request id m' := by
  refine hsteps.invariant
    (I := fun m => (∃ pc', Waiting D start c request id pc' m) ∨
      Delivered start c request id m) ?_ (.inl ⟨pc, h⟩)
  intro s l t hinv hl hstep
  rcases hinv with ⟨pc', hwaiting⟩ | hdelivered
  · obtain ⟨env, rfl, hfault⟩ := hwaiting.idle.client_of_resubmits hl hstep
    obtain ⟨t', hstep', hnext⟩ := hwaiting.step hvalid hfault
    rw [hstep] at hstep'
    cases hstep'
    rcases hnext with ⟨pc'', hwaiting', _⟩ | hdelivered
    · exact .inl ⟨pc'', hwaiting'⟩
    · exact .inr hdelivered
  · exact .inr (hdelivered.step hl hstep)

/-- A waiting client returns when it is left to run. -/
theorem Waiting.returns (h : Waiting D start c request id pc m)
    (hvalid : request.validate = .ok ()) (hfault : env.fault = false) :
    ∃ m', Steps (Manager.step D) (fun _ l => l.resubmits c = true) m m' ∧ m'.clients c = none := by
  have hl : (Label.client c env).resubmits c := by simp [Label.resubmits, hfault]
  -- the distance to the queue goes down with every step
  induction hn : pc.distance using Nat.strong_induction_on generalizing pc m with
  | _ n ih =>
    obtain ⟨t, hstep, hnext⟩ := h.step hvalid hfault
    have hfirst : Steps (Manager.step D) (fun _ l => l.resubmits c = true) m t :=
      (Steps.refl m).tail hl hstep
    rcases hnext with ⟨pc', hwaiting, hlt⟩ | hdelivered
    · obtain ⟨m', hsteps, hnone⟩ := ih pc'.distance (hn ▸ hlt) hwaiting rfl
      exact ⟨m', hfirst.trans hsteps, hnone⟩
    · rcases hdelivered.client with hnone | ⟨run, hleave⟩
      · exact ⟨t, hfirst, hnone⟩
      · have hreturn : Manager.step D t (.client c env) =
            some ((t.perform D (.dropClone c)).resume c (.submit request)
              (.done (.submitted (.ok ⟨run, .enqueued⟩)))) := by
          simp only [Manager.step, hleave]
          rfl
        exact ⟨_, hfirst.tail hl hreturn, Function.update_self ..⟩

end Submit

/-! ## submit_v4 -/

/-- A client that resubmits a turn whose run exists: the manager stays
idle and the store stays as it is. -/
structure Stranded (start : Machine) (c : ClientId) (request : V4SubmitTurn)
    (m : Machine) : Prop where
  idle : Idle m
  store : m.store = start.store
  history : ∃ recent, m.history = recent ++ start.history ∧ ∀ id, .sent id ∉ recent
  client : m.clients c = none ∨ m.clients c = some ⟨.submitV4 request, .turnCheck request⟩ ∨
    m.clients c = some ⟨.submitV4 request, .turnAdmit request⟩

section SubmitV4

variable {start : Machine} {c : ClientId} {request : V4SubmitTurn} {env : Env}

/-- `v4_admit_turn` under a used key writes nothing, and a receipt that it
answers is marked as a duplicate. -/
theorem v4AdmitTurn_duplicate (hfound : runByIdempotencyKey db request.idempotencyKey = some row)
    (h : v4AdmitTurn D.submitDigest db request nowMs newId messageId = .ok (after, submission)) :
    after = db ∧ submission.duplicate := by
  rcases v4AdmitTurn_eq_ok h with ⟨existing, _, _, _, _, _, hduplicate, rfl⟩ | ⟨hnone, _⟩
  · exact ⟨rfl, hduplicate⟩
  · rw [hfound] at hnone
    cases hnone

/-- A returning client with nothing sent leaves the manager stranded. -/
theorem Stranded.done (h : Stranded start c request m) (call : Call) :
    Stranded start c request ((m.setClient c none).observe (.returned c call.op answer)) := by
  obtain ⟨recent, hrecent, hnone⟩ := h.history
  refine ⟨⟨h.idle.worker, h.idle.queue, h.idle.sender, h.idle.accepting⟩, h.store,
    ⟨.returned c call.op answer :: recent, ?_, ?_⟩, .inl (Function.update_self ..)⟩
  · show _ :: m.history = _
    rw [hrecent]
    rfl
  · intro id hmem
    rcases List.mem_cons.mp hmem with heq | hold
    · cases heq
    · exact hnone id hold

/-- No step of the resubmission puts anything in the queue. -/
theorem Stranded.step (hfound : runByIdempotencyKey start.store request.idempotencyKey = some row)
    (h : Stranded start c request m) (hl : l.resubmits c)
    (hstep : Manager.step D m l = some m') : Stranded start c request m' := by
  obtain ⟨env, rfl, hfault⟩ := h.idle.client_of_resubmits hl hstep
  obtain ⟨call, effect, next, hcall, hact, rfl⟩ := step_client hstep
  rcases h.client with hnone | hcheck | hadmission
  · rw [hnone] at hcall
    cases hcall
  · rw [hcheck] at hcall
    cases hcall
    simp only [clientAct, h.idle.accepting, Bool.false_eq_true, if_false] at hact
    split at hact
    · cases hact
      exact h.done ⟨.submitV4 request, .turnCheck request⟩
    · cases hact
      exact ⟨⟨h.idle.worker, h.idle.queue, h.idle.sender, h.idle.accepting⟩, h.store,
        h.history, .inr (.inr (Function.update_self ..))⟩
  · rw [hadmission] at hcall
    cases hcall
    simp only [clientAct, hfault, Bool.false_eq_true, if_false] at hact
    split at hact
    · cases hact
      exact h.done ⟨.submitV4 request, .turnAdmit request⟩
    · rename_i after submission hresult
      rw [h.store] at hresult
      obtain ⟨rfl, hduplicate⟩ := v4AdmitTurn_duplicate hfound hresult
      have hstore : (StoreCall.admitTurn request env.clockMs.toNat env.runId
          env.messageId).apply D.submitDigest m.store = start.store := by
        rw [h.store]
        exact (bound_of_v4AdmitTurn hresult).1
      simp only [hduplicate, Bool.true_or, if_true] at hact
      cases hact
      have hnext : Stranded start c request (m.perform D (.write (.admitTurn request
          env.clockMs.toNat env.runId env.messageId))) :=
        ⟨⟨h.idle.worker, h.idle.queue, h.idle.sender, h.idle.accepting⟩, hstore, h.history,
          h.client⟩
      exact hnext.done ⟨.submitV4 request, .turnAdmit request⟩

/-- A stranded run is not adopted. -/
theorem Stranded.not_adopted {id : RunId} {run : RunRecord} (h : Stranded start c request m)
    (hrun : start.store.runs.find id = some run) (hqueued : run.status = .queued) :
    ¬ Adopted start m id := by
  rintro (⟨recent, hrecent, hsent⟩ | ⟨row, hrow, hterminal⟩)
  · obtain ⟨recent', hrecent', hnone⟩ := h.history
    have heq : recent = recent' := List.append_cancel_right (hrecent.symm.trans hrecent')
    rw [heq] at hsent
    exact hnone id hsent
  · rw [h.store, hrun] at hrow
    cases hrow
    rw [hqueued] at hterminal
    cases hterminal

end SubmitV4

/-! ## The restart -/

section Restart

variable {m₀ : Machine} {queueCapacity newCapacity : Nat} {now : Instant}
  {marker : RunId → Instant} {c : ClientId} {id : RunId} {run : RunRecord}

/-- After a restart the original request of a queued run brings the run
into the queue if it is a `submit`, and leaves it behind if it is a
`submit_v4`. -/
theorem readopts_iff (h : Steps (step D) anyStep (.initial queueCapacity) m₀)
    (hcrash : step D m₀ (.crash now marker newCapacity) = some m)
    (hrun : m.store.runs.find id = some run) (hqueued : run.status = .queued)
    {op : Operation} (hop : Original D m.store id op) :
    Readopts D m c op id ↔ ∃ request, op = .submit request := by
  have hledger : Ledger m.store := (Sound.reachable (h.tail trivial hcrash)).ledger
  obtain ⟨store, count, _, rfl⟩ := step_crash hcrash
  have hfault : (sampleEnv 0).fault = false := rfl
  cases op with
  | submit request =>
    refine ⟨fun _ => ⟨request, rfl⟩, fun _ => ?_⟩
    obtain ⟨hvalid, row, hrow, hkey, hdigest⟩ := hop
    have heq : row = run := Option.some.inj (hrow.symm.trans hrun)
    subst heq
    have hcall : step D (Machine.start store newCapacity (.crashed :: m₀.history))
        (.call c (.submit request)) = some _ := rfl
    have hwaiting : Waiting D (Machine.start store newCapacity (.crashed :: m₀.history)) c
        request id (.submitCheck request)
        (((Machine.start store newCapacity (.crashed :: m₀.history)).setClient c
          (some ⟨.submit request, .submitCheck request⟩)).observe
            (.called c (.submit request))) :=
      ⟨⟨rfl, rfl, rfl, rfl⟩, (by show 0 < max 1 _; omega), ⟨[_], rfl⟩, hledger,
        ⟨row, hrun, hqueued, hkey, hdigest⟩, Function.update_self .., ⟨rfl, rfl⟩⟩
    refine ⟨?_, ?_⟩
    · obtain ⟨m', hsteps, hnone⟩ := hwaiting.returns hvalid hfault
      exact ⟨m', _, hcall, hsteps, hnone⟩
    · rintro m' ⟨called, hcalled, hsteps, hnone⟩
      rw [hcall] at hcalled
      cases hcalled
      rcases hwaiting.steps hvalid hsteps with ⟨pc, hstill⟩ | hdelivered
      · rw [hstill.client] at hnone
        cases hnone
      · exact .inl hdelivered.placed
  | submitV4 request =>
    refine ⟨?_, fun ⟨_, hno⟩ => by cases hno⟩
    rintro ⟨⟨m', hresubmitted⟩, hadopted⟩
    obtain ⟨hvalid, row, hrow, hkey, _⟩ := hop
    have hfound := runByIdempotencyKey_of_find hledger hrow
    rw [hkey] at hfound
    have hnot : ¬ Adopted (Machine.start store newCapacity (.crashed :: m₀.history)) m' id := by
      obtain ⟨called, hcalled, hsteps, _⟩ := hresubmitted
      obtain ⟨_, rfl⟩ := step_call hcalled
      have hstranded : Stranded (Machine.start store newCapacity (.crashed :: m₀.history)) c
          request m' := by
        refine hsteps.invariant (fun _ _ _ hinv hl hstep => hinv.step hfound hl hstep) ?_
        refine ⟨⟨rfl, rfl, rfl, rfl⟩, rfl, ⟨[_], rfl, ?_⟩, .inr (.inl (Function.update_self ..))⟩
        intro other hmem
        cases List.mem_singleton.mp hmem
      exact hstranded.not_adopted hrun hqueued
    exact absurd (hadopted m' hresubmitted) hnot
  | cancel _ => exact hop.elim
  | shutdown => exact hop.elim

end Restart

/-- The sample run after a restart. -/
def restartedSample : Machine :=
  (step sampleDigests sampleMachine (.crash ⟨6, by decide⟩ (fun _ => ⟨6, by decide⟩) 1)).getD
    sampleMachine

theorem readopts_iff_sample :
    Readopts sampleDigests restartedSample 0 (.submit sampleRequest) ⟨1⟩ := by
  have hcrash : step sampleDigests sampleMachine
      (.crash ⟨6, by decide⟩ (fun _ => ⟨6, by decide⟩) 1) = some restartedSample := rfl
  have hrow : restartedSample.store.runs.find ⟨1⟩ =
      some (queuedRun (newRunOf sampleDigests sampleRequest) ⟨1⟩ ⟨5, by decide⟩) := rfl
  have hop : Original sampleDigests restartedSample.store ⟨1⟩ (.submit sampleRequest) :=
    ⟨by decide +kernel, _, hrow, rfl, rfl⟩
  exact (readopts_iff sampleMachine_reached hcrash hrow rfl hop).mpr ⟨sampleRequest, rfl⟩

/-! ## A stranded turn -/

/-- A client submits a turn, and the process stops before the queue. -/
def submitTurnThenCrash : List Label :=
  [.createConversation ⟨7⟩ "notes" 5, .call 0 (.submitV4 sampleTurn), .client 0 (sampleEnv 1),
    .client 0 (sampleEnv 1)]

def turnMachine : Machine :=
  (run (step sampleDigests) (.initial 1) submitTurnThenCrash).getD (.initial 1)

/-- The manager after the restart. -/
def restartedTurn : Machine :=
  (step sampleDigests turnMachine (.crash ⟨6, by decide⟩ (fun _ => ⟨6, by decide⟩) 1)).getD
    turnMachine

/-- The steps of the client that submits the turn again. -/
def resubmitTurn : List Label := [.client 0 (sampleEnv 2), .client 0 (sampleEnv 2)]

def resubmittedTurn : Machine :=
  (run (step sampleDigests) restartedTurn
    (.call 0 (.submitV4 sampleTurn) :: resubmitTurn)).getD restartedTurn

theorem resubmittedTurn_returned :
    Resubmitted sampleDigests restartedTurn 0 (.submitV4 sampleTurn) resubmittedTurn := by
  have hlabels : resubmitTurn.all (Label.resubmits 0) := rfl
  refine ⟨_, rfl, ?_, rfl⟩
  exact steps_of_run_of_forall (fun l hl _ => List.all_eq_true.mp hlabels l hl) rfl

/-- The receipt is a duplicate, the run is queued and the queue is empty. -/
theorem resubmitted_turn_stays_queued :
    ¬ ∀ (D : Digests) (queueCapacity newCapacity : Nat) (m₀ m : Machine) (now : Instant)
        (marker : RunId → Instant) (c : ClientId) (id : RunId) (run : RunRecord)
        (op : Operation),
      Steps (step D) anyStep (.initial queueCapacity) m₀ →
      step D m₀ (.crash now marker newCapacity) = some m →
      m.store.runs.find id = some run → run.status = .queued →
      Original D m.store id op → Readopts D m c op id := by
  intro h
  have hreached : run (step sampleDigests) (.initial 1) submitTurnThenCrash =
      some turnMachine := rfl
  have hcrash : step sampleDigests turnMachine
      (.crash ⟨6, by decide⟩ (fun _ => ⟨6, by decide⟩) 1) = some restartedTurn := rfl
  have hrow : restartedTurn.store.runs.find ⟨1⟩ =
      some (queuedRun (turnRun sampleDigests.submitDigest sampleTurn) ⟨1⟩ ⟨5, by decide⟩) := rfl
  have hop : Original sampleDigests restartedTurn.store ⟨1⟩ (.submitV4 sampleTurn) :=
    ⟨by decide +kernel, _, hrow, rfl, rfl, rfl⟩
  have hreadopts := h sampleDigests 1 1 turnMachine restartedTurn _ _ 0 ⟨1⟩ _ _
    (steps_of_run hreached) hcrash hrow rfl hop
  have hstranded : Stranded restartedTurn 0 sampleTurn resubmittedTurn := by
    refine ⟨⟨rfl, rfl, rfl, rfl⟩, rfl, ⟨[_, _], rfl, ?_⟩, .inl rfl⟩
    intro id hmem
    simp at hmem
  exact hstranded.not_adopted hrow rfl (hreadopts.2 _ resubmittedTurn_returned)

end Abbey.Manager
