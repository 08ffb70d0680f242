import Abbey.Lib.System
import Abbey.Run.Ledger

/-!
# The calls of the store as one transition system

`StoreCall` is one call that the manager, the daemon or recovery makes,
with the values it draws and reads.  `StoreCall.commit` is its
transaction.

`commit_steps` is the bridge to the ledger: a call that commits is a
sequence of ledger steps.  A recovery is one step for each interrupted
run, every other call is at most one.  `Ledger.commit` and
`Extends.commit` follow, and no proof about a whole run looks at a call
again.
-/

namespace Abbey.Run

open Abbey.Lib Table

variable {ids : List RunId} {db' : RunDb} {marker : RunId → Instant} {row : RunRecord}
  {P : RunRecord → Prop} {submitDigest : V4SubmitTurn → String}
variable {now : Instant} {db : RunDb} {id : RunId}

/-! ## Calls -/

/-- A transition as the manager makes it: an event with a state that it is
written with. -/
structure Move where
  evidence : Evidence
  next : RunState
  leads : evidence.leadsTo next = true
  deriving DecidableEq

theorem starting_leads : Evidence.leadsTo .starting .starting = true := rfl

/-- One call of the store that writes. -/
inductive StoreCall where
  | createConversation (id : ConversationId)
  | createOrGetRun (newRun : NewRun) (id : RunId) (now : Instant)
  | admitTurn (submit : V4SubmitTurn) (nowMs : Nat) (runId : RunId) (messageId : Nat)
  | transition (id : RunId) (expected : RunState) (move : Move) (clockMs : UInt64)
      (now marker : Instant)
  | recover (now : Instant) (marker : RunId → Instant)
  | appendContent (id : RunId) (payload : V4ContentPayload) (nowMs messageId : Nat)
  | finalizeTurn (id : RunId) (state : RunState)
  | createAssistantConversation (id : ConversationId) (title : String) (nowMs : Nat)
  | deleteAssistantConversation (id : ConversationId) (nowMs : Nat)

variable {call : StoreCall} {nowMs : Nat} {move : Move}

/-- The transaction of a call. -/
def StoreCall.commit (submitDigest : V4SubmitTurn → String) (db : RunDb) :
    StoreCall → Except StoreError RunDb
  | .createConversation id => .ok (Run.createConversation db id)
  | .createOrGetRun newRun id now => (Run.createOrGetRun db newRun id now).map Prod.fst
  | .admitTurn submit nowMs runId messageId =>
    (v4AdmitTurn submitDigest db submit nowMs runId messageId).map Prod.fst
  | .transition id expected move clockMs now marker =>
    (transitionRun db id expected move.next (move.evidence.newEvent clockMs) now marker).map
      Prod.fst
  | .recover now marker => (recoverInterruptedOn db now marker).map Prod.fst
  | .appendContent id payload nowMs messageId =>
    (v4AppendContent db id payload nowMs messageId).map Prod.fst
  | .finalizeTurn id state => v4FinalizeTurn db id state
  | .createAssistantConversation id title nowMs => v4CreateConversation db id title nowMs
  | .deleteAssistantConversation id nowMs => v4DeleteConversation db id nowMs

/-- The database after a call: a call that fails writes nothing. -/
def StoreCall.apply (submitDigest : V4SubmitTurn → String) (db : RunDb) (call : StoreCall) :
    RunDb :=
  match call.commit submitDigest db with
  | .ok db' => db'
  | .error _ => db

/-- The transition system of the calls: every call is enabled. -/
def callStep (submitDigest : V4SubmitTurn → String) (db : RunDb) (call : StoreCall) :
    Option RunDb :=
  some (call.apply submitDigest db)

/-! ## Recovery -/

/-- The moves of a recovery. -/
theorem isActive_allows_interrupted {state : RunState} (h : state.isActive) :
    state.allows .interrupted := by
  cases state <;> first | rfl | exact absurd h (by decide)

theorem interruptedIds_nodup (db : RunDb) : (interruptedIds db).Nodup := by
  have hsub : ((db.runs.rows.filter (fun run => run.status.isActive)).map
      RunRecord.id).Nodup :=
    List.Nodup.sublist (List.Sublist.map _ List.filter_sublist) db.runs.nodup
  have hperm := (List.perm_insertionSort createdBefore
    (db.runs.rows.filter (fun run => run.status.isActive))).map RunRecord.id
  exact hperm.symm.nodup hsub

theorem mem_interruptedIds : id ∈ interruptedIds db ↔
      ∃ run, db.runs.find id = some run ∧ run.status.isActive := by
  unfold interruptedIds
  simp only [List.mem_map, List.mem_insertionSort, List.mem_filter]
  constructor
  · rintro ⟨run, ⟨hmem, hactive⟩, hid⟩
    exact ⟨run, find_eq_some_iff.mpr ⟨hmem, hid⟩, hactive⟩
  · rintro ⟨run, hrun, hactive⟩
    obtain ⟨hmem, hid⟩ := find_eq_some_iff.mp hrun
    exact ⟨run, ⟨hmem, hactive⟩, hid⟩

/-- The loop of a recovery moves each selected run to `interrupted` and
leaves every other run alone. -/
theorem interruptAll_writes (hnodup : ids.Nodup)
    (hactive : ∀ id ∈ ids, ∃ run, db.runs.find id = some run ∧ run.status.isActive ∧
      P (run.advance .interrupted now))
    (h : interruptAll now marker db ids = .ok db') :
    LedgerSteps P db db' ∧ db'.assistantTurns = db.assistantTurns ∧
      ∀ id, db'.runs.find id = if id ∈ ids then
        (db.runs.find id).map (RunRecord.advance .interrupted now) else db.runs.find id := by
  induction ids generalizing db with
  | nil =>
    cases h
    exact ⟨.refl, rfl, fun id => by simp⟩
  | cons first rest ih =>
    obtain ⟨hfirst, hrest⟩ := List.nodup_cons.mp hnodup
    unfold interruptAll at h
    simp only [bind_ok_iff, required_eq_ok] at h
    obtain ⟨run, hrun, ⟨mid, stored⟩, hupdate, hloop⟩ := h
    have hrid : run.id = first := pk_of_find hrun
    have hfind : db.runs.find run.id = some run := by rw [hrid]; exact hrun
    have hadv := (updateAndAppend_writes hfind hupdate).1
    obtain ⟨run', hrun', hact, hP⟩ := hactive first List.mem_cons_self
    have heq : run' = run := by
      have hsome : some run' = some run := hrun'.symm.trans hrun
      cases hsome
      rfl
    subst heq
    have hstep : LedgerStep P db mid :=
      .advance run' .interrupted recoveredEvent now hfind (isActive_allows_interrupted hact)
        (Evidence.records (e := .recovered) rfl 0 run' now) hadv hP
    have hmid : ∀ id ∈ rest, mid.runs.find id = db.runs.find id := by
      intro id hid
      rw [hadv.runs, if_neg]
      rintro rfl
      exact hfirst (hrid ▸ hid)
    obtain ⟨hsteps, hturns, hruns⟩ := ih hrest (fun id hid => by
      rw [hmid id hid]
      exact hactive id (List.mem_cons_of_mem _ hid)) hloop
    refine ⟨.head hstep hsteps, hturns.trans hadv.assistantTurns, ?_⟩
    intro id
    rw [hruns id, hadv.runs id]
    by_cases hid : id = first
    · subst hid
      rw [if_neg hfirst, if_pos hrid.symm, if_pos List.mem_cons_self, hrun']
      rfl
    · have hne : id ≠ run'.id := fun h => hid (h.trans hrid)
      simp only [if_neg hne, List.mem_cons, hid, false_or]

/-- On a sound ledger the loop of a recovery never fails. -/
theorem interruptAll_total (now : Instant) (marker : RunId → Instant) (hnodup : ids.Nodup)
    (hledger : Ledger db)
    (hactive : ∀ id ∈ ids, ∃ run, db.runs.find id = some run ∧ run.status.isActive) :
    ∃ db', interruptAll now marker db ids = .ok db' := by
  induction ids generalizing db with
  | nil => exact ⟨db, rfl⟩
  | cons first rest ih =>
    obtain ⟨hfirst, hrest⟩ := List.nodup_cons.mp hnodup
    obtain ⟨run, hrun, hact⟩ := hactive first List.mem_cons_self
    have hrid : run.id = first := pk_of_find hrun
    have hfind : db.runs.find run.id = some run := by rw [hrid]; exact hrun
    have hrun_ledger := hledger.run _ _ hrun
    have hfree : db.runEvents.find (run.id, run.nextEventSequence) = none := by
      cases hstored : db.runEvents.find (run.id, run.nextEventSequence) with
      | none => rfl
      | some stored =>
        have hlt := (hrun_ledger.within _ _ hstored).2
        omega
    have hrange : run.nextEventSequence + 1 ≤ sqliteMax := by
      have hsix := hrun_ledger.next_le_six
      unfold sqliteMax
      omega
    obtain ⟨mid, hmid⟩ := updateAndAppend_total .interrupted recoveredEvent now (marker first)
      hfind hfree hrange
    have hadv := (updateAndAppend_writes hfind hmid).1
    have hmid_ledger : Ledger mid := hledger.advance hfind (isActive_allows_interrupted hact)
      (Evidence.records (e := .recovered) rfl 0 run now) hadv
    obtain ⟨db', hdb'⟩ := ih hrest hmid_ledger (fun id hid => by
      obtain ⟨row, hrow, hrow_active⟩ := hactive id (List.mem_cons_of_mem _ hid)
      refine ⟨row, ?_, hrow_active⟩
      rw [hadv.runs, if_neg, hrow]
      intro heq
      exact hfirst (hrid ▸ heq ▸ hid))
    refine ⟨db', ?_⟩
    unfold interruptAll
    have hby : runById db first = some run := hrun
    simp only [hby, required_some, ok_bind, hmid, hdb']

/-- Recovery never fails on a sound ledger. -/
theorem recoverInterruptedOn_total (hledger : Ledger db) (now : Instant)
    (marker : RunId → Instant) :
    ∃ db', recoverInterruptedOn db now marker = .ok (db', (interruptedIds db).length) := by
  obtain ⟨db', hdb'⟩ := interruptAll_total now marker (interruptedIds_nodup db) hledger (fun id hid => mem_interruptedIds.mp hid)
  exact ⟨db', by simp [recoverInterruptedOn, hdb']⟩

/-- Recovery moves exactly the active runs, each to `interrupted`. -/
theorem recoverInterruptedOn_writes
    (hP : ∀ id run, db.runs.find id = some run → run.status.isActive →
      P (run.advance .interrupted now))
    (h : recoverInterruptedOn db now marker = .ok (db', count)) :
    LedgerSteps P db db' ∧ db'.assistantTurns = db.assistantTurns ∧
      ∀ id, db'.runs.find id = (db.runs.find id).map
        (fun run => if run.status.isActive then run.advance .interrupted now else run) := by
  unfold recoverInterruptedOn at h
  simp only [bind_ok_iff, Except.ok.injEq, Prod.mk.injEq] at h
  obtain ⟨_, hloop, rfl, _⟩ := h
  obtain ⟨hsteps, hturns, hruns⟩ := interruptAll_writes (P := P) (interruptedIds_nodup db)
    (fun id hid => by
      obtain ⟨run, hrun, hact⟩ := mem_interruptedIds.mp hid
      exact ⟨run, hrun, hact, hP id run hrun hact⟩) hloop
  refine ⟨hsteps, hturns, ?_⟩
  intro id
  rw [hruns id]
  cases hrun : db.runs.find id with
  | none => simp
  | some run =>
    have hmem : id ∈ interruptedIds db ↔ run.status.isActive := by
      rw [mem_interruptedIds, hrun]
      simp
    by_cases hact : run.status.isActive
    · simp [hmem.mpr hact, hact]
    · have hnot : id ∉ interruptedIds db := fun h => hact (hmem.mp h)
      simp [hnot, hact]

/-! ## Every call -/

theorem createConversation_sameLedger (db : RunDb) (id : ConversationId) :
    SameLedger db (createConversation db id) := by
  unfold createConversation
  split_ifs
  · exact ⟨rfl, rfl, rfl⟩
  · exact ⟨rfl, rfl, rfl⟩

theorem insertConversation_sameLedger {id : ConversationId}
    (h : insertConversation db id title imported nowMs known = .ok db') : SameLedger db db' := by
  unfold insertConversation at h
  simp only [bind_ok_iff, Except.ok.injEq] at h
  obtain ⟨_, _, _, _, _, _, _, _, _, _, _, _, _, _, rfl⟩ := h
  exact ⟨rfl, rfl, rfl⟩

theorem inserted_of_insertRun (hnone : runByIdempotencyKey db newRun.idempotencyKey = none)
    (h : insertRun db (queuedRun newRun id now) = .ok db') : Inserted db db' newRun id now := by
  obtain ⟨runs, events, hruns, _, hevents, rfl⟩ := insertRun_eq_ok.mp h
  exact ⟨hnone, hruns, hevents, .inl rfl⟩

theorem inserted_of_admitNewTurn (hnone : runByIdempotencyKey db submit.idempotencyKey = none)
    (h : admitNewTurn submitDigest db submit nowMs runId messageId = .ok (db', submission)) :
    ∃ created, nowMs = created.ms ∧
      Inserted db db' (turnRun submitDigest submit) runId created := by
  obtain ⟨created, mid, turns, hcreated, hinsert, hturns, _, hruns', hevents', hturns', _,
    _, _, _, _, _, hvalid⟩ := admitNewTurn_writes h
  obtain ⟨runs, events, hruns, _, hevents, rfl⟩ := insertRun_eq_ok.mp hinsert
  have hseq : 0 < submission.userMessageSequence ∧
      submission.userMessageSequence ≤ maxSafeInteger := by
    simpa [V4TurnSubmission.validate] using hvalid
  refine ⟨created, hcreated, ⟨hnone, ?_, ?_, .inr
    ⟨⟨runId, submit.conversationId, submission.userMessageSequence, submit.routeId, messageId⟩,
      rfl, rfl, hseq, ?_⟩⟩⟩
  · rw [hruns']
    exact hruns
  · rw [hevents']
    exact hevents
  · rw [hturns']
    exact hturns

/-- The condition that every row a call would write meets `P`. -/
def StoreCall.Writes (P : RunRecord → Prop) (submitDigest : V4SubmitTurn → String)
    (db : RunDb) : StoreCall → Prop
  | .createOrGetRun newRun id now =>
    runByIdempotencyKey db newRun.idempotencyKey = none → P (queuedRun newRun id now)
  | .admitTurn submit nowMs runId _ =>
    runByIdempotencyKey db submit.idempotencyKey = none →
      ∀ created : Instant, nowMs = created.ms →
        P (queuedRun (turnRun submitDigest submit) runId created)
  | .transition id expected move _ now _ =>
    ∀ run, db.runs.find id = some run → run.status = expected →
      expected.allows move.next = true → P (run.advance move.next now)
  | .recover now _ =>
    ∀ id run, db.runs.find id = some run → run.status.isActive = true →
      P (run.advance .interrupted now)
  | .createConversation _ | .appendContent _ _ _ _ | .finalizeTurn _ _
  | .createAssistantConversation _ _ _ | .deleteAssistantConversation _ _ => True

theorem map_fst_eq_ok {ε α β : Type} {x : Except ε (α × β)} {a : α}
    (h : x.map Prod.fst = .ok a) : ∃ b, x = .ok (a, b) := by
  cases x with
  | error e => cases h
  | ok p =>
    cases h
    exact ⟨p.2, rfl⟩

/-- What a call that commits does to the run tables. -/
inductive Committed (submitDigest : V4SubmitTurn → String) (db db' : RunDb) :
    StoreCall → Prop where
  | same (call : StoreCall) (h : SameLedger db db') : Committed submitDigest db db' call
  | create (newRun : NewRun) (id : RunId) (now : Instant) (h : Inserted db db' newRun id now) :
      Committed submitDigest db db' (.createOrGetRun newRun id now)
  | turn (submit : V4SubmitTurn) (nowMs : Nat) (id : RunId) (messageId : Nat)
      (created : Instant) (hnow : nowMs = created.ms)
      (h : Inserted db db' (turnRun submitDigest submit) id created) :
      Committed submitDigest db db' (.admitTurn submit nowMs id messageId)
  | move (id : RunId) (move : Move) (clockMs : UInt64) (now marker : Instant)
      (run : RunRecord) (hrun : db.runs.find id = some run)
      (hallows : run.status.allows move.next = true)
      (h : Advanced db db' run move.next (move.evidence.newEvent clockMs) now) :
      Committed submitDigest db db' (.transition id run.status move clockMs now marker)
  | recover (now : Instant) (marker : RunId → Instant) (count : Nat)
      (h : recoverInterruptedOn db now marker = .ok (db', count)) :
      Committed submitDigest db db' (.recover now marker)

theorem committed_of_commit (h : call.commit submitDigest db = .ok db') :
    Committed submitDigest db db' call := by
  cases call with
  | createConversation id =>
    cases h
    exact .same _ (createConversation_sameLedger db id)
  | createOrGetRun newRun id now =>
    obtain ⟨run, hrun⟩ := map_fst_eq_ok h
    rcases createOrGetRun_eq_ok hrun with ⟨_, _, rfl⟩ | ⟨hnone, rfl, hinsert⟩
    · exact .same _ ⟨rfl, rfl, rfl⟩
    · exact .create newRun id now (inserted_of_insertRun hnone hinsert)
  | admitTurn submit nowMs runId messageId =>
    obtain ⟨submission, hadmission⟩ := map_fst_eq_ok h
    rcases v4AdmitTurn_eq_ok hadmission with ⟨_, _, _, _, _, _, _, rfl⟩ | ⟨hnone, hnew⟩
    · exact .same _ ⟨rfl, rfl, rfl⟩
    · obtain ⟨created, hcreated, hins⟩ := inserted_of_admitNewTurn hnone hnew
      exact .turn submit nowMs runId messageId created hcreated hins
  | transition id expected move clockMs now marker =>
    obtain ⟨stored, htransition⟩ := map_fst_eq_ok h
    obtain ⟨run, hrun, rfl, hallows, hadv⟩ := transitionRun_writes htransition
    exact .move id move clockMs now marker run hrun hallows hadv
  | recover now marker =>
    obtain ⟨count, hrecover⟩ := map_fst_eq_ok h
    exact .recover now marker count hrecover
  | appendContent id payload nowMs messageId =>
    obtain ⟨event, happend⟩ := map_fst_eq_ok h
    exact .same _ (v4AppendContent_sameRuns happend).sameLedger
  | finalizeTurn id state => exact .same _ (v4FinalizeTurn_sameRuns h).sameLedger
  | createAssistantConversation id title nowMs =>
    exact .same _ (insertConversation_sameLedger h)
  | deleteAssistantConversation id nowMs =>
    exact .same _ (v4DeleteConversation_sameRuns h).sameLedger

/-- A call that commits is a sequence of ledger steps. -/
theorem commit_steps (hP : call.Writes P submitDigest db)
    (h : call.commit submitDigest db = .ok db') : LedgerSteps P db db' := by
  cases committed_of_commit h with
  | same _ hsame => exact .single (.same hsame)
  | create newRun id now hins => exact .single (.insert newRun id now hins (hP hins.unknown))
  | turn submit nowMs id messageId created hnow hins =>
    exact .single (.insert _ id created hins (hP hins.unknown created hnow))
  | move id move clockMs now marker run hrun hallows hadv =>
    have hrid : run.id = id := pk_of_find hrun
    refine .single (.advance run move.next _ now ?_ hallows ?_ hadv (hP run hrun rfl hallows))
    · rw [hrid]
      exact hrun
    · exact Evidence.records move.leads clockMs run now
  | recover now marker count hrecover => exact (recoverInterruptedOn_writes hP hrecover).1

/-- The condition that every call meets. -/
theorem StoreCall.writes_trivial (submitDigest : V4SubmitTurn → String) (db : RunDb)
    (call : StoreCall) : call.Writes (fun _ => True) submitDigest db := by
  cases call <;> simp [StoreCall.Writes]

theorem Ledger.commit (hledger : Ledger db) (h : call.commit submitDigest db = .ok db') :
    Ledger db' :=
  hledger.steps (commit_steps (call.writes_trivial submitDigest db) h)

theorem Extends.commit (h : call.commit submitDigest db = .ok db') : Extends db db' :=
  .steps (commit_steps (call.writes_trivial submitDigest db) h)

/-- A transition that the graph allows succeeds on a sound ledger. -/
theorem transitionRun_total (hledger : Ledger db) {run : RunRecord}
    (hrun : db.runs.find id = some run) (hallows : run.status.allows move.next)
    (clockMs : UInt64) (now marker : Instant) :
    ∃ db' stored, transitionRun db id run.status move.next (move.evidence.newEvent clockMs)
      now marker = .ok (db', stored) := by
  have hid : run.id = id := pk_of_find hrun
  have hrow := hledger.run id run hrun
  have hsix := hrow.next_le_six
  have hfree : db.runEvents.find (run.id, run.nextEventSequence) = none := by
    cases hfind : db.runEvents.find (run.id, run.nextEventSequence) with
    | none => rfl
    | some stored =>
      have hwithin := hrow.within _ _ hfind
      omega
  obtain ⟨db', hupdate⟩ := updateAndAppend_total move.next (move.evidence.newEvent clockMs) now
    marker (hid ▸ hrun) hfree (by unfold sqliteMax; omega)
  have hby : runById db id = some run := hrun
  refine ⟨db', storedEvent run (move.evidence.newEvent clockMs) now, ?_⟩
  unfold transitionRun
  simp only [move.evidence.validateEvent_newEvent clockMs, ok_bind, hby, required_some,
    decide_true, ensure_true, RunState.not_isTerminal_of_allows hallows, Bool.not_false, hallows]
  exact hupdate

/-- The error of a terminal run is answered for a terminal run only. -/
theorem terminal_of_transitionRun_error (hledger : Ledger db) {marker : Instant}
    (h : transitionRun db id expected move.next (move.evidence.newEvent clockMs) now marker =
      .error (.terminalRun other)) : ∃ run, db.runs.find id = some run ∧ run.status.isTerminal := by
  have hvalid := move.evidence.validateEvent_newEvent clockMs
  cases hrun : db.runs.find id with
  | none =>
    have hby : runById db id = none := hrun
    unfold transitionRun at h
    simp [hvalid, hby] at h
  | some run =>
    refine ⟨run, rfl, ?_⟩
    have hby : runById db id = some run := hrun
    by_contra hterminal
    rw [Bool.not_eq_true] at hterminal
    by_cases hstatus : run.status = expected
    · subst hstatus
      by_cases hallows : run.status.allows move.next
      · obtain ⟨db', stored, hok⟩ := transitionRun_total hledger hrun hallows clockMs now marker
        rw [hok] at h
        cases h
      · rw [Bool.not_eq_true] at hallows
        unfold transitionRun at h
        simp [hvalid, hby, hterminal, hallows] at h
    · unfold transitionRun at h
      simp [hvalid, hby, hstatus] at h

/-- A call commits, or it leaves the database as it was. -/
theorem apply_cases (submitDigest : V4SubmitTurn → String) (db : RunDb) (call : StoreCall) :
    call.apply submitDigest db = db ∨
      call.commit submitDigest db = .ok (call.apply submitDigest db) := by
  unfold StoreCall.apply
  split
  · rename_i hcommit
    exact .inr hcommit
  · exact .inl rfl

theorem Ledger.apply (hledger : Ledger db) (submitDigest : V4SubmitTurn → String)
    (call : StoreCall) :
    Ledger (call.apply submitDigest db) := by
  rcases apply_cases submitDigest db call with heq | hcommit
  · rw [heq]
    exact hledger
  · exact hledger.commit hcommit

theorem Extends.apply (submitDigest : V4SubmitTurn → String) (db : RunDb)
    (call : StoreCall) : Extends db (call.apply submitDigest db) := by
  rcases apply_cases submitDigest db call with heq | hcommit
  · rw [heq]
    exact .refl db
  · exact .commit hcommit

/-- Only a transition of a run changes its row, and the recovery of an
active one. -/
theorem find_apply_of_ne (hrow : db.runs.find id = some row) (submitDigest : V4SubmitTurn → String)
    (htransition : ∀ expected move clockMs now marker,
      call ≠ .transition id expected move clockMs now marker)
    (hrecover : ∀ now marker, call = .recover now marker → row.status.isActive = false) :
    (call.apply submitDigest db).runs.find id = some row := by
  rcases apply_cases submitDigest db call with heq | hcommit
  · rw [heq]
    exact hrow
  cases committed_of_commit hcommit with
  | same _ hsame =>
    rw [hsame.runs]
    exact hrow
  | create newRun newId now hins | turn submit nowMs newId messageId created _ hins =>
    exact find_insert_of_some hins.runs hrow
  | move otherId move clockMs now marker run hrun _ hadv =>
    have hrid : run.id = otherId := pk_of_find hrun
    have hne : id ≠ run.id := by
      intro heq
      exact htransition _ move clockMs now marker (by rw [heq, hrid])
    rw [hadv.runs, if_neg hne]
    exact hrow
  | recover now marker count hcount =>
    have hruns := (recoverInterruptedOn_writes (P := fun _ => True)
      (fun _ _ _ _ => trivial) hcount).2.2 id
    rw [hruns, hrow]
    simp [hrecover now marker rfl]

/-- A row is a later row of the same run, or the call inserted it. -/
theorem row_of_apply (hrow : (call.apply submitDigest db).runs.find id = some row) :
    (∃ old, db.runs.find id = some old ∧ old.Later row) ∨
      (∃ newRun now, call = .createOrGetRun newRun id now ∧ row = queuedRun newRun id now) ∨
      ∃ submit nowMs messageId created, call = .admitTurn submit nowMs id messageId ∧
        row = queuedRun (turnRun submitDigest submit) id created := by
  have hkept : ∀ old, db.runs.find id = some old → old.Later row := by
    intro old hold
    obtain ⟨row', hrow', hlater⟩ := (Extends.apply submitDigest db call).runs id old hold
    have heq : row' = row := Option.some.inj (hrow'.symm.trans hrow)
    rw [heq] at hlater
    exact hlater
  cases hold : db.runs.find id with
  | some old => exact .inl ⟨old, rfl, hkept old hold⟩
  | none =>
    right
    rcases apply_cases submitDigest db call with heq | hcommit
    · rw [heq, hold] at hrow
      cases hrow
    generalize call.apply submitDigest db = db' at hcommit hrow
    have hinsert : ∀ newRun newId now, Inserted db db' newRun newId now →
        newId = id ∧ row = queuedRun newRun id now := by
      intro newRun newId now h
      rw [find_insert h.runs, hold] at hrow
      split_ifs at hrow with hid
      have hid' : newId = id := hid
      subst hid'
      cases hrow
      exact ⟨rfl, rfl⟩
    cases committed_of_commit hcommit with
    | same _ hsame =>
      rw [hsame.runs, hold] at hrow
      cases hrow
    | create newRun newId now hins =>
      obtain ⟨rfl, hrow'⟩ := hinsert newRun newId now hins
      exact .inl ⟨newRun, now, rfl, hrow'⟩
    | turn submit nowMs newId messageId created _ hins =>
      obtain ⟨rfl, hrow'⟩ := hinsert _ newId created hins
      exact .inr ⟨submit, nowMs, messageId, created, rfl, hrow'⟩
    | move otherId move clockMs now marker run hrun _ hadv =>
      have hrid : run.id = otherId := pk_of_find hrun
      rw [hadv.runs, hold] at hrow
      split_ifs at hrow with hid
      rw [← hrid, ← hid, hold] at hrun
      cases hrun
    | recover now marker count hcount =>
      have hruns := (recoverInterruptedOn_writes (P := fun _ => True)
        (fun _ _ _ _ => trivial) hcount).2.2 id
      rw [hruns, hold] at hrow
      cases hrow

/-- Every database that the calls reach has a sound ledger. -/
theorem Ledger.reachable {P : RunDb → StoreCall → Prop}
    (h : Steps (callStep submitDigest) P RunDb.empty db) : Ledger db := by
  refine h.invariant ?_ Ledger.empty
  intro db call db' hledger _ hstep
  cases hstep
  exact hledger.apply submitDigest call

/-- Several calls in a row. -/
def applyAll (submitDigest : V4SubmitTurn → String) : RunDb → List StoreCall → RunDb
  | db, [] => db
  | db, call :: calls => applyAll submitDigest (call.apply submitDigest db) calls

theorem applyAll_sound (submitDigest : V4SubmitTurn → String) (hledger : Ledger db)
    (calls : List StoreCall) :
    Ledger (applyAll submitDigest db calls) ∧ Extends db (applyAll submitDigest db calls) := by
  induction calls generalizing db with
  | nil => exact ⟨hledger, .refl db⟩
  | cons call calls ih =>
    obtain ⟨hledger', hextends⟩ := ih (hledger.apply submitDigest call)
    exact ⟨hledger', (Extends.apply submitDigest db call).trans hextends⟩

end Abbey.Run
