import Abbey.Manager.Effects

/-!
# The retry loops converge

`cancel`, `settle_attempt`, `finish_cancelled` and `reject_admission` read
the status of a run and try a compare-and-set on it, eight times at most.
The compare-and-set fails only when the status has moved on since it was
read.  Every edge of the lifecycle graph goes up in rank, and the highest
rank is four, so a loop starts again at most four times, whoever the
competing writers are.

* `Spare` is what a loop knows before it reads: the attempts that are left
  and the rank of the run together make up the attempts that it began with.
* `Seen` is what it knows between its read and its write.
* `Seen.retry` is the step of the argument: a failed compare-and-set costs
  one attempt and finds a higher rank.
-/

namespace Abbey.Manager

open Abbey.Lib Abbey.Run Machine

variable {D : Digests} {m m' : Machine} {db db' : RunDb} {id : RunId}
variable {c : ClientId} {next : ClientNext} {effect : Effect} {env : Env} {l : Label}
  {record : RunRecord} {expected status s t wanted found : RunState} {fuel : Nat} {pc : ClientPc}
  {move : Move}

/-! ## The rank of a run -/

/-- One state leads to another along the edges of the lifecycle graph. -/
abbrev LeadsTo : RunState → RunState → Prop :=
  Relation.TransGen (fun s t => s.allows t = true)

/-- A higher rank is reached along the edges. -/
theorem leadsTo_of_rank_lt (h : s.rank < t.rank) : LeadsTo s t := by
  -- an edge, or a way over one state between
  cases s <;> cases t <;> first
    | exact absurd h (by decide)
    | exact .single rfl
    | exact .head (b := .starting) rfl (.single rfl)
    | exact .head (b := .cancelRequested) rfl (.single rfl)

/-- States of one rank are the same before the end. -/
theorem eq_of_rank_eq (hopen : s.isTerminal = false) (h : s.rank = t.rank) : s = t := by
  cases s <;> cases t <;> first
    | rfl
    | exact absurd h (by decide)
    | exact absurd hopen (by decide)

/-- The rank of the stored status, the lowest for an unknown run. -/
def rankOf (db : RunDb) (id : RunId) : Nat :=
  ((db.runs.find id).map (fun run => run.status.rank)).getD 0

theorem rankOf_of_find {run : RunRecord} (h : db.runs.find id = some run) :
    rankOf db id = run.status.rank := by
  simp [rankOf, h]

theorem rankOf_mono (hext : Extends db db') (id : RunId) : rankOf db id ≤ rankOf db' id := by
  cases hrun : db.runs.find id with
  | none => simp [rankOf, hrun]
  | some run =>
    obtain ⟨run', hrun', hlater⟩ := hext.runs id run hrun
    rw [rankOf_of_find hrun, rankOf_of_find hrun']
    exact hlater.rank_le

theorem rankOf_le_four (db : RunDb) (id : RunId) : rankOf db id ≤ 4 := by
  unfold rankOf
  cases db.runs.find id with
  | none => exact Nat.zero_le 4
  | some run => exact run.status.rank_le_four

/-! ## The attempts of a loop -/

/-- Before a read: what the loop has spent, the run has gained in rank. -/
def Spare (db : RunDb) (id : RunId) (fuel : Nat) : Prop := maxAttempts ≤ fuel + rankOf db id

/-- Between a read and the write that compares: the status that was read is
not above the stored one. -/
structure Seen (db : RunDb) (id : RunId) (status : RunState) (fuel : Nat) : Prop where
  active : status.isTerminal = false
  below : ∃ run, db.runs.find id = some run ∧ status.rank ≤ run.status.rank
  spare : maxAttempts ≤ fuel + 1 + status.rank

theorem Spare.initial (db : RunDb) (id : RunId) : Spare db id maxAttempts :=
  Nat.le_add_right _ _

theorem Spare.mono (h : Spare db id fuel) (hext : Extends db db') : Spare db' id fuel := by
  have hrank := rankOf_mono hext id
  unfold Spare at h ⊢
  omega

theorem Spare.four_le (h : Spare db id fuel) : 4 ≤ fuel := by
  have hrank := rankOf_le_four db id
  have hmax : maxAttempts = 8 := rfl
  unfold Spare at h
  omega

theorem Seen.mono (h : Seen db id status fuel) (hext : Extends db db') :
    Seen db' id status fuel := by
  obtain ⟨run, hrun, hle⟩ := h.below
  obtain ⟨run', hrun', hlater⟩ := hext.runs id run hrun
  exact ⟨h.active, ⟨run', hrun', hle.trans hlater.rank_le⟩, h.spare⟩

/-- A read that goes on to the write. -/
theorem Spare.seen (h : Spare m.store id (fuel + 1)) (hrecord : env.getRun m id = .ok record)
    (hactive : record.status.isTerminal = false) : Seen m.store id record.status fuel := by
  have hrun := getRun_eq_ok hrecord
  refine ⟨hactive, ⟨record, hrun, le_refl _⟩, ?_⟩
  unfold Spare at h
  rw [rankOf_of_find hrun] at h
  exact h

/-- A compare-and-set is refused because the status is another one. -/
theorem status_of_unexpected (hledger : Ledger m.store)
    (h : env.outcome D m (env.transition id expected move) =
      .error (.unexpectedStatus wanted found)) :
    ∃ run, m.store.runs.find id = some run ∧ run.status ≠ expected := by
  unfold Env.outcome at h
  split_ifs at h
  · cases h
  simp only [Env.transition, StoreCall.commit] at h
  have hvalid := move.evidence.validateEvent_newEvent env.clockMs
  cases hrun : m.store.runs.find id with
  | none =>
    have hby : runById m.store id = none := hrun
    simp [transitionRun, hvalid, hby, Except.map] at h
  | some run =>
    refine ⟨run, rfl, ?_⟩
    rintro rfl
    have hby : runById m.store id = some run := hrun
    cases hterminal : run.status.isTerminal with
    | true => simp [transitionRun, hvalid, hby, hterminal, Except.map] at h
    | false =>
      cases hallows : run.status.allows move.next with
      | false => simp [transitionRun, hvalid, hby, hterminal, hallows, Except.map] at h
      | true =>
        obtain ⟨db', stored, hok⟩ := transitionRun_total hledger hrun hallows env.clockMs env.now
          env.marker
        rw [hok] at h
        cases h

/-- The run has advanced along the lifecycle graph since it had a status. -/
def MovedOn (db : RunDb) (id : RunId) (status : RunState) : Prop :=
  ∃ run, db.runs.find id = some run ∧ LeadsTo status run.status

/-- A refused compare-and-set: the run has moved on since it was read, and
the loop may try again. -/
theorem Seen.retry (h : Seen m.store id expected fuel) (hledger : Ledger m.store)
    (hrefused : env.outcome D m (env.transition id expected move) =
      .error (.unexpectedStatus wanted found)) :
    Spare m.store id fuel ∧ MovedOn m.store id expected := by
  obtain ⟨run, hrun, hne⟩ := status_of_unexpected hledger hrefused
  obtain ⟨run', hrun', hle⟩ := h.below
  have heq : run' = run := Option.some.inj (hrun'.symm.trans hrun)
  subst heq
  have hlt : expected.rank < run'.status.rank := by
    refine Nat.lt_of_le_of_ne hle ?_
    intro hrank
    exact hne (eq_of_rank_eq h.active hrank).symm
  refine ⟨?_, run', hrun, leadsTo_of_rank_lt hlt⟩
  have hspare := h.spare
  unfold Spare
  rw [rankOf_of_find hrun]
  omega

/-! ## The places of the loops -/

/-- The attempts left at the head of a loop of a client. -/
def ClientPc.attemptsLeft : ClientPc → Option Nat
  | .rejectRead _ _ fuel | .cancelRead _ fuel => some fuel
  | _ => none

/-- The attempts left at the head of a loop of the worker. -/
def WorkerPc.attemptsLeft : WorkerPc → Option Nat
  | .settle _ _ _ fuel | .finishCancelled _ _ fuel => some fuel
  | _ => none

/-- The run and the status that the next operation of a client compares. -/
def ClientPc.compares : ClientPc → Option (RunId × RunState)
  | .rejectWrite admission _ _ => some (admission.runId, .queued)
  | .cancelWrite record _ => some (record.id, record.status)
  | _ => none

/-- The run and the status that the next operation of the worker compares. -/
def WorkerPc.compares : WorkerPc → Option (RunId × RunState)
  | .settleWrite item _ _ _ status _ | .cancelRunning item _ _ status _ =>
    some (item.runId, status)
  | _ => none

def ClientPc.Converging (db : RunDb) : ClientPc → Prop
  | .rejectRead admission _ fuel => Spare db admission.runId fuel
  | .rejectWrite admission _ fuel => Seen db admission.runId .queued fuel
  | .cancelRead runId fuel => Spare db runId fuel
  | .cancelLookup record fuel | .cancelSignal record _ fuel | .cancelWrite record fuel =>
    Seen db record.id record.status fuel
  | _ => True

def WorkerPc.Converging (db : RunDb) : WorkerPc → Prop
  | .settle item _ _ fuel | .finishCancelled item _ fuel => Spare db item.runId fuel
  | .settleDecide item _ _ fuel status | .settleWrite item _ _ fuel status _
  | .cancelReason item _ fuel status | .cancelRunning item _ fuel status _ =>
    Seen db item.runId status fuel
  | _ => True

theorem ClientPc.Converging.mono (h : pc.Converging db) (hext : Extends db db') :
    pc.Converging db' := by
  cases pc <;> first
    | exact h
    | exact Spare.mono h hext
    | exact Seen.mono h hext

theorem WorkerPc.Converging.mono {pc : WorkerPc} (h : pc.Converging db) (hext : Extends db db') :
    pc.Converging db' := by
  cases pc <;> first
    | exact h
    | exact Spare.mono h hext
    | exact Seen.mono h hext

/-! ## Steps -/

/-- The next place of a client that does not answer. -/
def NextConverging (db : RunDb) : ClientNext → Prop
  | .goto pc => pc.Converging db
  | .done _ => True

theorem settled_converging (admission : Admission) (outcome : EnqueueOutcome) (db : RunDb) :
    NextConverging db (admission.settled outcome) := by
  cases admission <;> cases outcome <;> trivial

theorem clientAct_converging (hledger : Ledger m.store)
    (h : pc.Converging m.store) (hact : clientAct D m c env pc = some (effect, next)) :
    NextConverging (m.perform D effect).store next := by
  have hext := extends_perform D m effect
  cases pc with
  | cloneSender admission =>
    simp only [clientAct] at hact
    split at hact <;> cases hact
    · trivial
    · exact Spare.initial _ _
  | trySend admission =>
    simp only [clientAct] at hact
    split at hact
    · cases hact
      exact Spare.initial _ _
    · split at hact <;> cases hact
      · trivial
      · exact Spare.initial _ _
  | rejectRead admission why fuel =>
    cases fuel with
    | zero =>
      cases hact
      trivial
    | succ fuel =>
      simp only [clientAct] at hact
      split at hact
      · cases hact
        trivial
      · rename_i record hrecord
        split_ifs at hact with hterminal hqueued
        · cases hact
          trivial
        · cases hact
          trivial
        · cases hact
          have hstatus : record.status = .queued := not_not.mp hqueued
          have hseen := Spare.seen h hrecord (by simpa using hterminal)
          rw [hstatus] at hseen
          exact hseen
  | rejectWrite admission why fuel =>
    simp only [clientAct] at hact
    split at hact
    · cases hact
      trivial
    · cases hact
      exact (Seen.retry h hledger ‹_›).1
    · cases hact
      trivial
  | leave admission outcome =>
    cases hact
    exact settled_converging admission outcome _
  | cancelRead runId fuel =>
    cases fuel with
    | zero =>
      cases hact
      trivial
    | succ fuel =>
      simp only [clientAct] at hact
      split at hact
      · cases hact
        trivial
      · rename_i record hrecord
        split_ifs at hact with hterminal
        · cases hact
          trivial
        · cases hact
          have hid : record.id = runId := Table.pk_of_find (getRun_eq_ok hrecord)
          subst hid
          exact Spare.seen h hrecord (by simpa using hterminal)
  | cancelLookup record fuel =>
    simp only [clientAct] at hact
    split at hact <;> cases hact <;> exact h
  | cancelSignal record token fuel =>
    cases hact
    exact Seen.mono h hext
  | cancelWrite record fuel =>
    simp only [clientAct] at hact
    split at hact
    · cases hact
      trivial
    · split at hact
      · cases hact
        trivial
      · cases hact
        exact (Seen.retry h hledger ‹_›).1
      · cases hact
        trivial
  | shutdownSwap =>
    simp only [clientAct] at hact
    cases hact
    show ClientPc.Converging _ (if m.shuttingDown then _ else _)
    split_ifs <;> trivial
  | shutdownTake =>
    simp only [clientAct] at hact
    cases hact
    show ClientPc.Converging _ (if m.joinHandle then _ else _)
    split_ifs <;> trivial
  | _ =>
    simp only [clientAct] at hact
    repeat' split at hact
    all_goals cases hact
    all_goals trivial

theorem workerAct_converging (hledger : Ledger m.store) {pc pc' : WorkerPc}
    (h : pc.Converging m.store) (hact : workerAct D m env pc = some (effect, pc')) :
    pc'.Converging (m.perform D effect).store := by
  cases pc with
  | cancelQueued item =>
    simp only [workerAct] at hact
    split at hact <;> cases hact <;> first
      | trivial
      | exact Spare.initial _ _
  | startConflict item =>
    simp only [workerAct] at hact
    split at hact
    · cases hact
      trivial
    · split_ifs at hact <;> cases hact <;> first
        | trivial
        | exact Spare.initial _ _
  | cancelToken item token =>
    cases hact
    exact Spare.initial _ _
  | settle item token attempt fuel =>
    cases fuel with
    | zero =>
      cases hact
      trivial
    | succ fuel =>
      simp only [workerAct] at hact
      split at hact
      · cases hact
        trivial
      · rename_i record hrecord
        split_ifs at hact with hterminal hv4
        · cases hact
          trivial
        · cases hact
          trivial
        · cases hact
          exact Spare.seen h hrecord (by simpa using hterminal)
  | settleDecide item token attempt fuel status | cancelReason item after fuel status =>
    cases hact
    exact h
  | settleWrite item token attempt fuel status move =>
    simp only [workerAct] at hact
    split at hact
    · split_ifs at hact <;> cases hact <;> trivial
    · cases hact
      exact (Seen.retry h hledger ‹_›).1
    · cases hact
      trivial
  | finishCancelled item after fuel =>
    cases fuel with
    | zero =>
      cases hact
      trivial
    | succ fuel =>
      simp only [workerAct] at hact
      split at hact
      · cases hact
        trivial
      · rename_i record hrecord
        split_ifs at hact with hterminal
        · cases after <;> cases hact <;> trivial
        · cases hact
          exact Spare.seen h hrecord (by simpa using hterminal)
  | cancelRunning item after fuel status reason =>
    simp only [workerAct] at hact
    split at hact
    · cases after <;> cases hact <;> trivial
    · cases hact
      exact (Seen.retry h hledger ‹_›).1
    · cases hact
      trivial
  | _ =>
    simp only [workerAct] at hact
    repeat' split at hact
    all_goals cases hact
    all_goals trivial

/-! ## Every run of the machine -/

structure Converging (m : Machine) : Prop where
  ledger : Ledger m.store
  clients : Told (fun m call => call.pc.Converging m.store) (fun _ _ _ => True) m
  worker : m.worker.Converging m.store

theorem Converging.initial (queueCapacity : Nat) : Converging (.initial queueCapacity) := by
  refine ⟨Ledger.empty, ⟨?_, ?_⟩, trivial⟩
  · intro c call hcall
    cases hcall
  · exact fun _ _ _ _ => trivial

theorem Converging.step (h : Converging m) (hstep : Manager.step D m l = some m') :
    Converging m' := by
  have hext := extends_of_step hstep
  refine ⟨ledger_of_step h.ledger hstep, ?_, ?_⟩
  · refine h.clients.step hstep ?_ ?_ ?_ ?_
    · intro c op hl
      cases op <;> first
        | trivial
        | exact Spare.initial _ _
    · intro c env call effect next hl hcall hact
      subst hl
      have hnext := clientAct_converging h.ledger (h.clients.clients c call hcall) hact
      obtain ⟨call', effect', next', hcall', hact', rfl⟩ := step_client hstep
      rw [hcall] at hcall'
      cases hcall'
      rw [hact] at hact'
      cases hact'
      cases next with
      | goto pc =>
        show pc.Converging ((m.perform D effect).resume c call.op (.goto pc)).store
        rw [resume_store]
        exact hnext
      | done answer => trivial
    · intro c call _ hpc
      exact hpc.mono hext
    · exact fun _ _ _ => trivial
  · cases step_cases hstep with
    | worker env effect pc hact => exact workerAct_converging h.ledger h.worker hact
    | client c env call effect next =>
      have hworker : ((m.perform D effect).resume c call.op next).worker = m.worker := by
        cases next <;> exact perform_worker D m effect
      rw [hworker]
      exact h.worker.mono hext
    | attempt => exact Spare.initial _ _
    | workerPanic | crash => trivial
    | call | write => exact h.worker.mono hext

theorem Converging.of_steps
    (h : Steps (Manager.step D) anyStep (.initial queueCapacity) m) : Converging m := by
  refine h.invariant ?_ (.initial queueCapacity)
  intro m l m' hm _ hstep
  exact hm.step hstep

/-- A client goes back to the head of its loop only from a refused
compare-and-set. -/
theorem clientAct_retry (hledger : Ledger m.store)
    (h : pc.Converging m.store) (hact : clientAct D m c env pc = some (effect, .goto pc'))
    (hcompares : pc.compares = some (id, status)) (hhead : pc'.attemptsLeft.isSome) :
    MovedOn m.store id status := by
  cases pc with
  | rejectWrite admission why fuel =>
    cases hcompares
    simp only [clientAct] at hact
    split at hact
    · cases hact
      cases hhead
    · exact (Seen.retry h hledger ‹_›).2
    · cases hact
      cases hhead
  | cancelWrite record fuel =>
    cases hcompares
    simp only [clientAct] at hact
    split at hact
    · cases hact
    · split at hact
      · cases hact
        cases hhead
      · exact (Seen.retry h hledger ‹_›).2
      · cases hact
  | _ => cases hcompares

theorem workerAct_retry (hledger : Ledger m.store) {pc pc' : WorkerPc}
    (h : pc.Converging m.store) (hact : workerAct D m env pc = some (effect, pc'))
    (hcompares : pc.compares = some (id, status)) (hhead : pc'.attemptsLeft.isSome) :
    MovedOn m.store id status := by
  cases pc with
  | settleWrite item token attempt fuel seen move =>
    cases hcompares
    simp only [workerAct] at hact
    split at hact
    · split_ifs at hact <;> cases hact <;> cases hhead
    · exact (Seen.retry h hledger ‹_›).2
    · cases hact
      cases hhead
  | cancelRunning item after fuel seen reason =>
    cases hcompares
    simp only [workerAct] at hact
    split at hact
    · cases after <;> cases hact <;> cases hhead
    · exact (Seen.retry h hledger ‹_›).2
    · cases hact
      cases hhead
  | _ => cases hcompares

/-- In every machine that any interleaving of clients, worker, shutdowns
and crashes reaches, a loop that reads the status of a run has at least
four of its eight attempts left, so none falls through.  A step that takes
a thread from its compare-and-set back to the head of its loop finds the
run advanced along the lifecycle graph since the thread read it. -/
theorem retry_loops_converge (D : Digests) (queueCapacity : Nat) {m : Machine}
    (h : Steps (step D) anyStep (.initial queueCapacity) m) :
    (∀ c call fuel, m.clients c = some call → call.pc.attemptsLeft = some fuel → 4 ≤ fuel) ∧
    (∀ fuel, m.worker.attemptsLeft = some fuel → 4 ≤ fuel) ∧
    (∀ c env m' call call' id status, step D m (.client c env) = some m' →
      m.clients c = some call → call.pc.compares = some (id, status) →
      m'.clients c = some call' → call'.pc.attemptsLeft.isSome = true →
      MovedOn m.store id status) ∧
    ∀ env m' id status, step D m (.worker env) = some m' →
      m.worker.compares = some (id, status) → m'.worker.attemptsLeft.isSome = true →
      MovedOn m.store id status := by
  have hm := Converging.of_steps h
  refine ⟨?_, ?_, ?_, ?_⟩
  · intro c call fuel hcall hfuel
    have hpc := hm.clients.clients c call hcall
    cases hplace : call.pc <;> rw [hplace] at hfuel hpc <;> cases hfuel <;>
      exact Spare.four_le hpc
  · intro fuel hfuel
    have hpc := hm.worker
    cases hplace : m.worker <;> rw [hplace] at hfuel hpc <;> cases hfuel <;>
      exact Spare.four_le hpc
  · intro c env m' call call' id status hstep hcall hcompares hcall' hhead
    obtain ⟨found, effect, next, hfound, hact, rfl⟩ := step_client hstep
    rw [hcall] at hfound
    cases hfound
    cases next with
    | goto pc =>
      simp only [resume, setClient, Function.update_self] at hcall'
      cases hcall'
      exact clientAct_retry hm.ledger (hm.clients.clients c call hcall) hact hcompares hhead
    | done answer =>
      simp only [resume, observe, setClient, Function.update_self] at hcall'
      cases hcall'
  · intro env m' id status hstep hcompares hhead
    obtain ⟨effect, pc, hact, rfl⟩ := step_worker hstep
    exact workerAct_retry hm.ledger hm.worker hact hcompares hhead

/-- A client reads a queued run to cancel it, and the worker starts the run
before the client writes. -/
def raceLabels : List Label :=
  .call 0 (.submit sampleRequest) :: List.replicate 6 (.client 0 (sampleEnv 1)) ++
    .call 1 (.cancel ⟨1⟩) :: List.replicate 2 (.client 1 (sampleEnv 2)) ++
    List.replicate 3 (.worker (sampleEnv 2))

def racedMachine : Machine :=
  (run (Manager.step sampleDigests) (.initial 1) raceLabels).getD (.initial 1)

/-- The write of the client is refused, and it reads again with seven
attempts left. -/
theorem retry_loops_converge_raced :
    ∃ m' call', step sampleDigests racedMachine (.client 1 (sampleEnv 2)) = some m' ∧
      m'.clients 1 = some call' ∧ call'.pc.attemptsLeft = some 7 ∧
      MovedOn racedMachine.store ⟨1⟩ .queued := by
  have hrun : run (Manager.step sampleDigests) (.initial 1) raceLabels = some racedMachine := rfl
  have hconverge := retry_loops_converge sampleDigests 1 (steps_of_run hrun)
  refine ⟨_, _, rfl, rfl, rfl, ?_⟩
  exact hconverge.2.2.1 1 (sampleEnv 2) _ _ _ ⟨1⟩ .queued rfl rfl rfl rfl rfl

end Abbey.Manager
