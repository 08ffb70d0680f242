import Abbey.Tool.Calls

/-!
# What the calls of the tool ledgers write

`Written` says everything that one transaction can write, with the guards
that it has passed.  `written_of_commit` shows that every call is at most
two such writes (a reopen is two, every other call one), so the proofs
about whole runs split on `Written` and look at no call again.
-/

namespace Abbey.Tool

open Abbey.Lib Abbey.Run ToolApprovalRecord Except Option

variable {C : Capability} {db db' : ToolDb}
variable {request : NewToolApproval} {record : ToolApprovalRecord}
  {set : ToolApprovalRecord → ToolApprovalRecord}
variable {nowMs : Nat} {callId callDigest executionId : String}

/-! ## The writes -/

/-- What a write needs to know of the call that it comes from. -/
inductive Source where
  | plain
  | owned
  | ending (terminal : TerminalOutcome)

/-- The previews that come with a new approval.  Only a local request does
not look at the room of the preview table. -/
inductive Previewed (C : Capability) (db : ToolDb) (request : NewToolApproval) :
    Source → Table GovernedPreview.callId → Table LocalApproval.callId → Prop where
  | plain : Previewed C db request .plain db.previews db.localApprovals
  | governed (binding : AuthorizationBinding) {previews : Table GovernedPreview.callId}
      (room : db.previews.rows.length < capacity)
      (digest : hex binding.requestDigest = request.callDigest)
      (level : binding.requiredApproval ≠ .a0None)
      (check : GovernedPreview.check C ⟨request.callId, binding⟩ = true)
      (insert : db.previews.insert? ⟨request.callId, binding⟩ = some previews) :
      Previewed C db request .plain previews db.localApprovals
  | owned (row : LocalApproval) {previews : Table GovernedPreview.callId}
      {locals : Table LocalApproval.callId}
      (call : row.callId = request.callId)
      (fresh : db.localApprovals.find request.callId = none)
      (digest : hex row.preview.binding.requestDigest = request.callDigest)
      (level : row.preview.binding.requiredApproval ≠ .a0None)
      (check : GovernedPreview.check C ⟨request.callId, row.preview.binding⟩ = true)
      (insert : db.previews.insert? ⟨request.callId, row.preview.binding⟩ = some previews)
      (localCheck : row.check C = true)
      (localInsert : db.localApprovals.insert? row = some locals) :
      Previewed C db request .owned previews locals

/-- The guards of a preparation that creates an intent. -/
structure Admissible (C : Capability) (db : ToolDb) (request : PrepareRequest) : Prop where
  valid : C.isValid request = true
  fresh : ∀ intent ∈ db.intents.rows,
    intent.executionId ≠ request.executionId ∧ intent.callId ≠ request.callId
  unused : resolutionExists db request.executionId.text = false
  roomIntents : db.intents.rows.length < capacity
  roomStages : db.stageEvents.length < capacity
  origin : validOrigin C db request.binding = true
  check : request.intent.check C = true
  auditBytes : C.auditBytes (admissionAudit C request.executionId request.binding) ≤ 1024

/-- The database after the intent of a request is inserted. -/
def ToolDb.withIntent (C : Capability) (db : ToolDb) (request : PrepareRequest)
    (intents : Table GovernedIntent.executionId) : ToolDb :=
  { db with
    intents
    outcomeEvents := db.outcomeEvents ++ [⟨request.executionId, preparedOutcome⟩]
    stageEvents := db.stageEvents ++ [⟨request.executionId, some request.executionId, 11,
      admissionAudit C request.executionId request.binding⟩] }

/-- The guards of an audit record. -/
structure Auditable (C : Capability) (db : ToolDb) (record : StageAudit) : Prop where
  version : record.version = 1
  stage : record.stage ≤ 16
  bound : boundRecord C db record = true
  bytes : C.auditBytes record ≤ 1024

/-- The legacy rows that the end of an intent writes. -/
inductive LegacyFinished (db : ToolDb) (state : ToolExecutionState) (digest : Option String)
    (finished : Nat) : Option String → Table ToolExecutionRecord.callId →
      List ToolExecutionEvent → Prop where
  | unlinked : LegacyFinished db state digest finished none db.executions db.executionEvents
  | linked (call : String) (event : ToolExecutionEvent)
      (check : ∀ record ∈ db.executions.rows,
        (record.callId = call && record.state = .prepared) = true →
        (record.finish state digest finished).check = true)
      (parent : (db.executions.find call).isSome = true)
      (eventCall : event.callId = call) (eventCheck : event.check = true) :
      LegacyFinished db state digest finished (some call)
        (db.executions.modify (fun record => record.callId = call && record.state = .prepared)
          (ToolExecutionRecord.finish state digest finished)
          (ToolExecutionRecord.callId_finish state digest finished))
        (db.executionEvents ++ [event])

/-- The database after `recover_on`. -/
def ToolDb.recovered (db : ToolDb) (recoveredAt : Nat) : ToolDb :=
  { db with
    executionEvents := db.executionEvents ++
      ((preparedIntents db).filter (fun intent => intent.legacyExecutionCallId.isSome)).map
        (interruptedEvent recoveredAt)
    executions := db.executions.modify (linkedToPrepared db)
      (ToolExecutionRecord.recover recoveredAt) (ToolExecutionRecord.callId_recover recoveredAt)
    outcomeEvents := db.outcomeEvents ++
      (preparedIntents db).map (fun intent => ⟨intent.executionId, interruptedOutcome⟩)
    intents := db.intents.modify (fun intent => intent.state = .prepared)
      (GovernedIntent.finish interruptedOutcome)
      (GovernedIntent.executionId_finish interruptedOutcome) }

/-- The event of an execution that a reopen interrupts. -/
def stoppedEvent (now : Nat) (ids : String × String) : ToolExecutionEvent :=
  ⟨ids.1, ids.2, .interrupted, none, now⟩

/-- The database after `recover_prepared_on`. -/
def ToolDb.stopped (db : ToolDb) (now : Nat) : ToolDb :=
  { db with
    executions := db.executions.modify (fun record => record.state = .prepared)
      (ToolExecutionRecord.interrupt now) (ToolExecutionRecord.callId_interrupt now)
    executionEvents := db.executionEvents ++ (preparedIds db).map (stoppedEvent now) }

/-- What one transaction writes, and what the callers are told. -/
inductive Written (C : Capability) (db : ToolDb) : Source → ToolDb → List Observation → Prop where
  | same {source : Source} : Written C db source db []
  | created {source : Source} (request : NewToolApproval)
      {approvals : Table ToolApprovalRecord.callId} {previews : Table GovernedPreview.callId}
      {locals : Table LocalApproval.callId}
      (check : request.record.check = true)
      (noIntent : db.hasIntent request.callId = false)
      (insert : db.approvals.insert? request.record = some approvals)
      (previewed : Previewed C db request source previews locals) :
      Written C db source
        { db with
          approvals, previews, localApprovals := locals
          approvalEvents := db.approvalEvents ++ [request.record.event request.createdAtMs] } []
  | expired {source : Source} (record : ToolApprovalRecord) (event : ToolApprovalEvent)
      (now : Nat) {approvals : Table ToolApprovalRecord.callId}
      (isOpen : record.state.isOpen = true) (late : record.expiresAtMs ≤ now)
      (change : db.approvals.Changes approvals record (record.expire now))
      (check : (record.expire now).check = true) (call : event.callId = record.callId) :
      Written C db source
        { db with approvals, approvalEvents := db.approvalEvents ++ [event] } []
  | decided (record : ToolApprovalRecord) (event : ToolApprovalEvent)
      (state : ToolApprovalState) (digest decisionId : String) (now : Nat)
      {approvals : Table ToolApprovalRecord.callId} {locals : Table LocalApproval.callId}
      (pending : record.state = .pending) (verdict : state = .approved ∨ state = .denied)
      (bound : digest = record.callDigest ∨
        ∃ row, db.localApprovals.find record.callId = some row ∧
          digest = hex row.preview.binding.requestDigest)
      (unused : resolutionExists db decisionId = false)
      (change : db.approvals.Changes approvals record (record.decide state decisionId now))
      (check : (record.decide state decisionId now).check = true)
      (call : event.callId = record.callId)
      (locals_ : locals = db.localApprovals ∨ ∃ exact : ExactApproval,
        db.localApprovals.update? (fun row => row.callId = record.callId && row.exact.isNone)
          (fun row => { row with exact := some exact }) (fun _ => rfl)
          (LocalApproval.check C) = some locals) :
      Written C db .plain
        { db with
          approvals, localApprovals := locals, approvalEvents := db.approvalEvents ++ [event] }
        [.decided record.callId digest decisionId state]
  | cancelled (record : ToolApprovalRecord) (event : ToolApprovalEvent)
      (cancellationId : String) (now : Nat) {approvals : Table ToolApprovalRecord.callId}
      (isOpen : record.state.isOpen = true)
      (unused : resolutionExists db cancellationId = false)
      (change : db.approvals.Changes approvals record (record.cancel cancellationId now))
      (check : (record.cancel cancellationId now).check = true)
      (call : event.callId = record.callId) :
      Written C db .plain
        { db with approvals, approvalEvents := db.approvalEvents ++ [event] }
        [.cancelled record.callId cancellationId]
  | prepared (record : ToolApprovalRecord) (event : ToolApprovalEvent)
      (executionEvent : ToolExecutionEvent) (executionId : String) (now : Nat)
      {approvals : Table ToolApprovalRecord.callId}
      {executions : Table ToolExecutionRecord.callId}
      (approved : record.state = .approved) (inTime : now < record.expiresAtMs)
      (noIntent : db.hasIntent record.callId = false)
      (noPreview : db.previews.find record.callId = none)
      (unused : resolutionExists db executionId = false)
      (change : db.approvals.Changes approvals record (record.consume now))
      (check : (record.consume now).check = true) (call : event.callId = record.callId)
      (insert : db.executions.insert? (preparedExecution record.callId executionId now) =
        some executions)
      (executionCall : executionEvent.callId = record.callId)
      (executionCheck : executionEvent.check = true) :
      Written C db .plain
        { db with
          approvals, executions, approvalEvents := db.approvalEvents ++ [event]
          executionEvents := db.executionEvents ++ [executionEvent] }
        [.intended record.callId executionId (some record.callDigest) now]
  | completed (record : ToolExecutionRecord) (event : ToolExecutionEvent)
      (state : ToolExecutionState) (digest : String) (now : Nat)
      {executions : Table ToolExecutionRecord.callId}
      (open_ : record.state = .prepared) (noIntent : db.hasIntent record.callId = false)
      (change : db.executions.Changes executions record (record.finish state (some digest) now))
      (check : (record.finish state (some digest) now).check = true)
      (call : event.callId = record.callId) (eventCheck : event.check = true) :
      Written C db .plain
        { db with executions, executionEvents := db.executionEvents ++ [event] } []
  | admitted (request : PrepareRequest) {intents : Table GovernedIntent.executionId}
      (a0 : request.approval = none) (noApproval : db.approvals.find request.callId = none)
      (admissible : Admissible C db request)
      (insert : db.intents.insert? request.intent = some intents) :
      Written C db .plain (db.withIntent C request intents)
        [.intended request.callId request.executionId.text none request.nowMs]
  | admittedApproval (request : PrepareRequest) (exact : ExactApproval)
      (record : ToolApprovalRecord) (event : ToolApprovalEvent)
      (executionEvent : ToolExecutionEvent) {approvals : Table ToolApprovalRecord.callId}
      {executions : Table ToolExecutionRecord.callId}
      {intents : Table GovernedIntent.executionId}
      (approval : request.approval = some exact) (admissible : Admissible C db request)
      (previewed : db.previews.find request.callId = some ⟨request.callId, request.binding⟩)
      (recordCall : record.callId = request.callId)
      (matching : approvalDiffers request exact record = false)
      (approved : record.state = .approved) (inTime : request.nowMs < record.expiresAtMs)
      (change : db.approvals.Changes approvals record (record.consume request.nowMs))
      (check : (record.consume request.nowMs).check = true)
      (call : event.callId = record.callId)
      (insertExecution : db.executions.insert?
        (preparedExecution request.callId request.executionId.text request.nowMs) =
          some executions)
      (executionCall : executionEvent.callId = record.callId)
      (executionCheck : executionEvent.check = true)
      (insert : db.intents.insert? request.intent = some intents) :
      Written C db .plain
        (ToolDb.withIntent C
          { db with
            approvals, executions, approvalEvents := db.approvalEvents ++ [event]
            executionEvents := db.executionEvents ++ [executionEvent] } request intents)
        [.intended request.callId request.executionId.text
          (some (hex request.binding.requestDigest)) request.nowMs]
  | finished (intent : GovernedIntent) (terminal : TerminalOutcome) (finished : Nat)
      {intents : Table GovernedIntent.executionId}
      {executions : Table ToolExecutionRecord.callId} {events : List ToolExecutionEvent}
      (open_ : intent.state = .prepared) (valid : C.isValidTerminal terminal = true)
      (ends : baseState terminal.state ≠ .prepared)
      (change : db.intents.Changes intents intent (intent.finish terminal))
      (check : (intent.finish terminal).check C = true)
      (legacy : LegacyFinished db (baseState terminal.state) (legacyResultDigest terminal)
        finished intent.legacyExecutionCallId executions events) :
      Written C db (.ending terminal)
        { db with
          intents, executions, executionEvents := events
          outcomeEvents := db.outcomeEvents ++ [⟨intent.executionId, terminal⟩] } []
  | staged (record : StageAudit) (auditable : Auditable C db record)
      (stage : record.stage ≠ 11) (room : db.stageEvents.length < capacity) :
      Written C db .plain
        { db with stageEvents := db.stageEvents ++
            [⟨record.executionId, none, record.stage, record⟩] } []
  | refused (record : StageAudit) (auditable : Auditable C db record)
      (stage : record.stage = 11) (decision : record.decision = .deny)
      (room : db.refusals.length < capacity) :
      Written C db .plain
        { db with refusals := db.refusals ++ [⟨record.executionId, 11, record⟩] } []
  | recovered {source : Source} (at_ : Nat)
      (check : ∀ record ∈ db.executions.rows, linkedToPrepared db record = true →
        (record.recover at_).check = true)
      (intentCheck : ∀ intent ∈ preparedIntents db,
        (intent.finish interruptedOutcome).check C = true)
      (parents : ∀ intent ∈ preparedIntents db, intent.legacyExecutionCallId.isSome = true →
        (db.executions.find intent.callId).isSome = true) :
      Written C db source (db.recovered at_) []
  | stopped {source : Source} (now : Nat)
      (settled : ∀ intent ∈ db.intents.rows, intent.state ≠ .prepared)
      (check : ∀ record ∈ db.executions.rows, record.state = .prepared →
        (record.interrupt now).check = true) :
      Written C db source (db.stopped now) []

/-! ## Statements -/

theorem updateApprovals_eq_ok : updateApprovals db select set hset = .ok db' ↔
      ∃ approvals, db.approvals.update? select set hset check =
        some approvals ∧ { db with approvals } = db' := by
  simp [updateApprovals, bind_ok_iff]

theorem insertEvent_eq_ok {event : ToolApprovalEvent} :
    insertEvent db event = .ok db' ↔ (db.approvals.find event.callId).isSome ∧
      { db with approvalEvents := db.approvalEvents ++ [event] } = db' := by
  simp [insertEvent, bind_ok_iff]

theorem insertExecution_eq_ok {record : ToolExecutionRecord} :
    insertExecution db record = .ok db' ↔ ((db.approvals.find record.callId).isSome &&
      record.check && !db.executions.rows.any
        (fun row => row.executionId = record.executionId)) ∧
      ∃ executions, db.executions.insert? record = some executions ∧
        { db with executions } = db' := by
  simp [insertExecution, bind_ok_iff]

theorem updateExecutions_eq_ok {set : ToolExecutionRecord → ToolExecutionRecord}
    {hset : ∀ record, (set record).callId = record.callId} :
    updateExecutions db select set hset = .ok db' ↔
      ∃ executions, db.executions.update? select set hset ToolExecutionRecord.check =
        some executions ∧ { db with executions } = db' := by
  simp [updateExecutions, bind_ok_iff]

theorem insertExecutionEvent_eq_ok {event : ToolExecutionEvent} :
    insertExecutionEvent db event = .ok db' ↔
      ((db.executions.find event.callId).isSome = true ∧ event.check) ∧
      { db with executionEvents := db.executionEvents ++ [event] } = db' := by
  simp [insertExecutionEvent, bind_ok_iff]

/-- An update of the approval under a call in one of some states. -/
theorem changes_of_selected (h : db.approvals.update? (selected callId states) set hset
      check = some approvals)
    (hrow : db.approvals.find callId = some record) (hstate : states record.state) :
    db.approvals.Changes approvals record (set record) ∧ (set record).check := by
  have hid : record.callId = callId := Table.pk_of_find hrow
  refine Table.changes_of_update? h hrow ?_ ?_
  · simp [selected, hid, hstate]
  · intro other hother
    simp only [selected, Bool.and_eq_true, decide_eq_true_eq] at hother
    exact hother.1

/-! ## Approvals -/

/-- `create_on` inserts a pending row and its first event. -/
theorem createOn_writes (h : createOn db request = .ok (db', record)) :
    request.record.check ∧ db.hasIntent request.callId = false ∧ record = request.record ∧
      ∃ approvals, db.approvals.insert? request.record = some approvals ∧
        { db with
          approvals
          approvalEvents := db.approvalEvents ++
            [request.record.event request.createdAtMs] } = db' := by
  unfold createOn at h
  simp only [bind_ok_iff, validateId, validateDigest, ensure_eq_ok, sqlU64_eq_ok, required_eq_ok,
    insertEvent_eq_ok, Bool.and_eq_true, decide_eq_true_eq, Bool.not_eq_true',
    ok.injEq, Prod.mk.injEq] at h
  obtain ⟨_, _, _, _, _, hdigest, _, hle, _, ⟨hpos, _⟩, created, ⟨_, rfl⟩, _, _, _, hintent,
    approvals, hinsert, _, ⟨_, rfl⟩, found, hfound, rfl, rfl⟩ := h
  have hself := Table.find_insert_self hinsert
  have hrecord : found = request.record := by
    have hcall : approvals.find request.callId = some request.record := hself
    exact some.inj (hfound.symm.trans hcall)
  refine ⟨?_, hintent, hrecord, approvals, hinsert, rfl⟩
  have hlt : request.createdAtMs < request.expiresAtMs := by
    omega
  simp [check, NewToolApproval.record, hdigest, hlt, ToolApprovalState.carries]

/-- `expire_if_needed` on the row that was just read. -/
theorem expireIfNeeded_writes (C : Capability) (source : Source) {current : ToolApprovalRecord}
    (hrow : db.approvals.find current.callId = some current)
    (h : expireIfNeeded db current now = .ok result) :
    (result = none ∧ (current.state.isOpen = true → now < current.expiresAtMs)) ∨
      ∃ db' record, result = some (db', record) ∧ record.state = .expired ∧
        Written C db source db' [] := by
  unfold expireIfNeeded at h
  split_ifs at h with hopen
  · cases h
    left
    refine ⟨rfl, ?_⟩
    intro hopen'
    simp [hopen'] at hopen
  · simp only [bind_ok_iff, sqlU64_eq_ok] at h
    obtain ⟨_, ⟨_, rfl⟩, h⟩ := h
    have hopen' : current.state.isOpen := by simpa using hopen
    split_ifs at h with hlate
    · cases h
      exact .inl ⟨rfl, fun _ => hlate⟩
    · right
      simp only [bind_ok_iff, updateApprovals_eq_ok, insertEvent_eq_ok, requireRecord,
        required_eq_ok, ok.injEq] at h
      obtain ⟨_, ⟨approvals, hupdate, rfl⟩, _, ⟨_, rfl⟩, record, hrecord, rfl⟩ := h
      obtain ⟨hchange, hcheck⟩ := changes_of_selected hupdate hrow hopen'
      have hself : approvals.find current.callId = some (current.expire now) := hchange.self
      have heq : record = current.expire now := some.inj (hrecord.symm.trans hself)
      refine ⟨_, record, rfl, ?_, ?_⟩
      · rw [heq]
        rfl
      · exact .expired current _ now hopen' (by omega) hchange hcheck rfl

theorem createToolApproval_writes (h : createToolApproval db request = .ok (db', record)) :
    Written C db .plain db' [] := by
  obtain ⟨hcheck, hintent, _, approvals, hinsert, rfl⟩ := createOn_writes h
  exact .created request hcheck hintent hinsert .plain

theorem decideToolApproval_writes {decisionId : String}
    (h : decideToolApproval db callId callDigest decisionId decision nowMs = .ok (db', record)) :
    Written C db .plain db' (observeDecision callId callDigest decisionId record.state) := by
  unfold decideToolApproval at h
  simp only [bind_ok_iff, validateId, validateDigest, ensure_eq_ok, sqlU64_eq_ok, requireRecord,
    required_eq_ok, requireDigest, decide_eq_true_eq] at h
  obtain ⟨_, _, _, _, _, _, now, ⟨_, rfl⟩, current, hrow, _, hdigest, result, hexpire, h⟩ := h
  have hid : current.callId = callId := Table.pk_of_find hrow
  rw [← hid] at hrow
  rcases expireIfNeeded_writes C .plain hrow hexpire with
    ⟨rfl, _⟩ | ⟨expired, found, rfl, hstate, hwritten⟩
  · simp only [bind_ok_iff, ensure_eq_ok, updateApprovals_eq_ok, insertEvent_eq_ok,
      required_eq_ok, ok.injEq, Prod.mk.injEq, Bool.not_eq_true', Bool.or_eq_false_iff,
      decide_eq_false_iff_not, not_not, ne_eq] at h
    obtain ⟨_, ⟨hpending, hunused⟩, _, ⟨approvals, hupdate, rfl⟩, _, ⟨_, rfl⟩, found, hfound,
      rfl, rfl⟩ := h
    rw [← hid] at hupdate hfound
    obtain ⟨hchange, hcheck⟩ := changes_of_selected hupdate hrow (by simp [hpending])
    have hself : approvals.find current.callId = some (current.decide decision.state decisionId
        nowMs) := hchange.self
    have heq := some.inj (hfound.symm.trans hself)
    have hobserved : observeDecision callId callDigest decisionId found.state =
        [.decided current.callId current.callDigest decisionId decision.state] := by
      rw [heq, ← hid, ← hdigest]
      cases decision <;> rfl
    rw [hobserved]
    refine .decided current _ decision.state current.callDigest decisionId nowMs hpending ?_
      (.inl rfl) hunused hchange hcheck hid.symm (.inl rfl)
    cases decision <;> simp [ToolApprovalDecision.state]
  · cases h
    have hobserved : observeDecision callId callDigest decisionId record.state = [] := by
      simp [observeDecision, hstate]
    rw [hobserved]
    exact hwritten

theorem cancelToolApproval_writes {cancellationId : String}
    (h : cancelToolApproval db callId cancellationId nowMs = .ok (db', record)) :
    Written C db .plain db' (observeCancellation callId cancellationId record.state) := by
  unfold cancelToolApproval at h
  simp only [bind_ok_iff, validateId, ensure_eq_ok, sqlU64_eq_ok, requireRecord,
    required_eq_ok] at h
  obtain ⟨_, _, _, _, now, ⟨_, rfl⟩, current, hrow, result, hexpire, h⟩ := h
  have hid : current.callId = callId := Table.pk_of_find hrow
  rw [← hid] at hrow
  rcases expireIfNeeded_writes C .plain hrow hexpire with
    ⟨rfl, _⟩ | ⟨expired, found, rfl, hstate, hwritten⟩
  · simp only [bind_ok_iff, ensure_eq_ok, updateApprovals_eq_ok, insertEvent_eq_ok,
      required_eq_ok, ok.injEq, Prod.mk.injEq, Bool.not_eq_true', Bool.or_eq_false_iff,
      Bool.not_eq_false'] at h
    obtain ⟨_, ⟨hopen, hunused⟩, _, ⟨approvals, hupdate, rfl⟩, _, ⟨_, rfl⟩, found, hfound,
      rfl, rfl⟩ := h
    rw [← hid] at hupdate hfound
    obtain ⟨hchange, hcheck⟩ := changes_of_selected hupdate hrow hopen
    have hself : approvals.find current.callId = some (current.cancel cancellationId nowMs) :=
      hchange.self
    have heq := some.inj (hfound.symm.trans hself)
    have hobserved : observeCancellation callId cancellationId found.state =
        [.cancelled current.callId cancellationId] := by
      rw [heq, ← hid]
      rfl
    rw [hobserved]
    exact .cancelled current _ cancellationId nowMs hopen hunused hchange hcheck hid.symm
  · cases h
    have hobserved : observeCancellation callId cancellationId record.state = [] := by
      simp [observeCancellation, hstate]
    rw [hobserved]
    exact hwritten

theorem toolApproval_writes {record : Option ToolApprovalRecord}
    (h : toolApproval db callId nowMs = .ok (db', record)) : Written C db .plain db' [] := by
  unfold toolApproval at h
  simp only [bind_ok_iff, validateId, ensure_eq_ok, sqlU64_eq_ok] at h
  obtain ⟨_, _, now, ⟨_, rfl⟩, h⟩ := h
  split at h
  · cases h
    exact .same
  · rename_i current hrow
    rw [bind_ok_iff] at h
    obtain ⟨result, hexpire, h⟩ := h
    have hid : current.callId = callId := Table.pk_of_find hrow
    rw [← hid] at hrow
    rcases expireIfNeeded_writes C .plain hrow hexpire with
      ⟨rfl, _⟩ | ⟨expired, found, rfl, hstate, hwritten⟩
    · cases h
      exact .same
    · cases h
      exact hwritten

/-! ## Executions -/

theorem hasIntent_eq_false :
    db.hasIntent callId = false ↔ ∀ intent ∈ db.intents.rows, intent.callId ≠ callId := by
  simp [ToolDb.hasIntent]

theorem prepareToolExecution_writes {preparation : ToolExecutionPreparation}
    (h : prepareToolExecution db callId callDigest executionId nowMs = .ok (db', preparation)) :
    Written C db .plain db'
      (observePreparation callId callDigest executionId nowMs preparation) := by
  unfold prepareToolExecution at h
  simp only [bind_ok_iff, validateId, validateDigest, ensure_eq_ok, sqlU64_eq_ok, requireRecord,
    required_eq_ok, requireDigest, decide_eq_true_eq, Bool.not_eq_true', Bool.or_eq_false_iff] at h
  obtain ⟨_, _, _, _, _, _, now, ⟨_, rfl⟩, _, ⟨hintents, hpreview⟩, current, hrow, _, hdigest,
    result, hexpire, h⟩ := h
  have hid : current.callId = callId := Table.pk_of_find hrow
  rw [← hid] at hrow
  rcases expireIfNeeded_writes C .plain hrow hexpire with
    ⟨rfl, htime⟩ | ⟨expired, found, rfl, hstate, hwritten⟩
  · simp only [bind_ok_iff, ensure_eq_ok, updateApprovals_eq_ok, insertEvent_eq_ok,
      insertExecution_eq_ok, insertExecutionEvent_eq_ok, requireExecution,
      required_eq_ok, ok.injEq, Prod.mk.injEq, Bool.not_eq_true', Bool.or_eq_false_iff,
      decide_eq_false_iff_not, not_not, ne_eq] at h
    obtain ⟨_, ⟨⟨happroved, hunused⟩, _⟩, _, ⟨approvals, hupdate, rfl⟩, _, _, _, ⟨_, rfl⟩, _,
      ⟨_, executions, hinsert, rfl⟩, _, ⟨⟨_, hevent⟩, rfl⟩, found, hfound, rfl, rfl⟩ := h
    rw [← hid] at hupdate
    obtain ⟨hchange, hcheck⟩ := changes_of_selected hupdate hrow (by simp [happroved])
    have hnone : db.hasIntent current.callId = false := by
      rw [hasIntent_eq_false]
      intro intent hmem
      have hne := List.any_eq_false.mp hintents intent hmem
      simp only [Bool.or_eq_true, decide_eq_true_eq, not_or] at hne
      rw [hid]
      exact hne.1
    have hobserved : observePreparation callId callDigest executionId nowMs (.prepared found) =
        [.intended current.callId executionId (some current.callDigest) nowMs] := by
      rw [hid, hdigest]
      rfl
    rw [hobserved]
    refine .prepared current _ _ executionId nowMs happroved (htime (by simp [happroved,
      ToolApprovalState.isOpen])) hnone ?_ hunused hchange hcheck hid.symm ?_ hid.symm hevent
    · rw [hid]
      simpa using hpreview
    · rw [hid]
      exact hinsert
  · cases h
    exact hwritten

theorem completeToolExecution_writes {resultDigest : String}
    {outcome : ToolExecutionOutcome} {record : ToolExecutionRecord}
    (h : completeToolExecution db callId executionId outcome resultDigest nowMs =
      .ok (db', record)) : Written C db .plain db' [] := by
  unfold completeToolExecution at h
  simp only [bind_ok_iff, validateId, validateDigest, ensure_eq_ok, sqlU64_eq_ok,
    requireExecution, required_eq_ok, updateExecutions_eq_ok, insertExecutionEvent_eq_ok,
    Bool.not_eq_true', Bool.or_eq_false_iff, decide_eq_false_iff_not, not_not, ne_eq,
    ok.injEq, Prod.mk.injEq] at h
  obtain ⟨_, _, _, _, _, _, now, ⟨_, rfl⟩, _, hintent, current, hrow, _,
    ⟨⟨hexecution, hprepared⟩, _⟩, _, ⟨executions, hupdate, rfl⟩, _, _, _, ⟨⟨_, hevent⟩, rfl⟩, _,
    _, rfl, _⟩ := h
  have hid : current.callId = callId := Table.pk_of_find hrow
  obtain ⟨hchange, hcheck⟩ := Table.changes_of_update? hupdate hrow
    (by simp [ToolExecutionRecord.selected, hid, hexecution, hprepared]) (by
      intro other hother
      simp only [ToolExecutionRecord.selected, Bool.and_eq_true, decide_eq_true_eq] at hother
      exact hother.1.1)
  rw [← hid] at hintent
  exact .completed current _ outcome.state resultDigest nowMs hprepared hintent hchange hcheck
    hid.symm hevent

end Abbey.Tool
