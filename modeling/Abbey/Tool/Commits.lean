import Abbey.Tool.Writes

/-!
# The governed and the local calls as writes

The rest of the calls in terms of `Written`.  `written_of_commit` puts the
calls together: one call is two writes in a row, of which the second is
empty except in a reopen.
-/

namespace Abbey.Tool

open Abbey.Lib Abbey.Run ToolExecutionRecord ToolCall Table List

variable {C : Capability} {db db' : ToolDb}
variable {binding : AuthorizationBinding} {executionId : Digest} {exact : ExactApproval}
  {ids : List (String × String)} {observed : List Observation} {preview : LocalApprovalPreview}
  {epochMs now : Nat} {answer : PrepareOutcome} {request : PrepareRequest} {record : StageAudit}
  {i : String × String} {terminal : TerminalOutcome}
variable {digest : Digest} {nowMs count : Nat} {owner : Owner} {callId : String}
  {refused approved : Bool} {ε α : Type} {failure : ε → Failure} {observe : α → List Observation}
  {x : Except ε (ToolDb × α)}

/-! ## Statements -/

@[simp] theorem json_eq_ok {bytes limit : Nat} {u : Unit} :
    json bytes limit = .ok u ↔ bytes ≤ limit := by
  simp [json]

@[simp] theorem room_eq_ok {u : Unit} : room count = .ok u ↔ count < capacity := by
  simp [room]

theorem insertIntent_eq_ok {intent : GovernedIntent} : insertIntent C db intent = .ok db' ↔
      (!db.hasIntent intent.callId && !db.intents.rows.any
        (fun row => row.originalExecutionId.isSome &&
          row.originalExecutionId = intent.originalExecutionId)) ∧
      (intent.approvalCallId.all (fun call => (db.approvals.find call).isSome) &&
        intent.legacyExecutionCallId.all (fun call => (db.executions.find call).isSome) &&
        intent.originalExecutionId.all (fun id => (db.intents.find id).isSome) &&
        intent.check C) = true ∧
      ∃ intents, db.intents.insert? intent = some intents ∧ { db with intents } = db' := by
  simp [insertIntent, bind_ok_iff]

theorem updateIntents_eq_ok {select : GovernedIntent → Bool} {set : GovernedIntent → GovernedIntent}
    {hset : ∀ intent, (set intent).executionId = intent.executionId} :
    updateIntents C db select set hset = .ok db' ↔
      (∀ intent ∈ db.intents.rows, select intent →
        intent.state = .prepared ∧ (set intent).state ≠ .prepared) ∧
      ∃ intents, db.intents.update? select set hset (GovernedIntent.check C) = some intents ∧
        { db with intents } = db' := by
  simp only [updateIntents, bind_ok_iff, ensure_eq_ok, all_eq_true, mem_filter, Bool.and_eq_true,
    decide_eq_true_eq, and_imp, required_eq_ok, Except.ok.injEq, ne_eq, exists_const]

theorem insertOutcomeEvent_eq_ok {event : GovernedOutcomeEvent} :
    insertOutcomeEvent C db event = .ok db' ↔
      ((db.intents.find event.executionId).isSome = true ∧ event.check C) ∧
      { db with outcomeEvents := db.outcomeEvents ++ [event] } = db' := by
  simp [insertOutcomeEvent, bind_ok_iff]

theorem insertStageEvent_eq_ok {event : GovernedStageEvent} :
    insertStageEvent C db event = .ok db' ↔
      (event.intentId.all (fun id => (db.intents.find id).isSome) = true ∧ event.check C) ∧
      { db with stageEvents := db.stageEvents ++ [event] } = db' := by
  simp [insertStageEvent, bind_ok_iff]

theorem insertRefusal_eq_ok {refusal : GovernedRefusal} :
    insertRefusal C db refusal = .ok db' ↔ refusal.check C ∧
      { db with refusals := db.refusals ++ [refusal] } = db' := by
  simp [insertRefusal, bind_ok_iff]

theorem insertPreview_eq_ok {preview : GovernedPreview} : insertPreview C db preview = .ok db' ↔
      ((db.approvals.find preview.callId).isSome = true ∧ preview.check C) ∧
      ∃ previews, db.previews.insert? preview = some previews ∧ { db with previews } = db' := by
  simp [insertPreview, bind_ok_iff]

theorem insertLocal_eq_ok {row : LocalApproval} : insertLocal C db row = .ok db' ↔
      ((db.previews.find row.callId).isSome = true ∧ row.check C) ∧
      ∃ localApprovals, db.localApprovals.insert? row = some localApprovals ∧
        { db with localApprovals } = db' := by
  simp [insertLocal, bind_ok_iff]

theorem updateLocal_eq_ok : updateLocal C db callId exact = .ok db' ↔
      ∃ localApprovals, db.localApprovals.update?
          (fun row => row.callId = callId && row.exact.isNone)
          (fun row => { row with exact := some exact }) (fun _ => rfl) (LocalApproval.check C) =
        some localApprovals ∧ { db with localApprovals } = db' := by
  simp [updateLocal, bind_ok_iff]

/-! ## Audit -/

theorem append_writes (h : append C db record false = .ok db') : Written C db .plain db' [] := by
  unfold append at h
  simp only [bind_ok_iff, ensure_eq_ok, Bool.not_eq_true', Bool.or_eq_false_iff,
    Bool.and_eq_false_iff, decide_eq_false_iff_not, ne_eq, not_not, not_lt, Bool.not_false,
    Bool.and_true, Bool.false_eq_true, if_false] at h
  obtain ⟨_, ⟨⟨hversion, hstage⟩, hdeny⟩, _, hbound, h⟩ := h
  split_ifs at h with h11
  · simp only [bind_ok_iff, room_eq_ok, json_eq_ok, unavailable_eq_ok, insertRefusal_eq_ok] at h
    obtain ⟨_, hroom, _, hbytes, _, rfl⟩ := h
    have h11' : record.stage = 11 := by simpa using h11
    have hdecision : record.decision = .deny := by
      rcases hdeny with hne | hdeny
      · exact absurd h11' hne
      · exact hdeny
    exact .refused record ⟨hversion, hstage, hbound, hbytes⟩ h11' hdecision hroom
  · simp only [bind_ok_iff, room_eq_ok, json_eq_ok, unavailable_eq_ok, insertStageEvent_eq_ok] at h
    obtain ⟨_, hroom, _, hbytes, _, rfl⟩ := h
    have h11' : record.stage ≠ 11 := by simpa using h11
    exact .staged record ⟨hversion, hstage, hbound, hbytes⟩ h11' hroom

theorem refuseReplay_writes
    (h : refuseReplay C db executionId = .ok (db', refused)) : Written C db .plain db' [] := by
  unfold refuseReplay at h
  simp only [bind_ok_iff, invalid_eq_ok] at h
  obtain ⟨_, _, h⟩ := h
  split at h
  · cases h
    exact .same
  · simp only [bind_ok_iff, Except.ok.injEq, Prod.mk.injEq] at h
    obtain ⟨_, happend, rfl, _⟩ := h
    exact append_writes happend

/-! ## Previews -/

theorem createGovernedToolApproval_writes {request : NewToolApproval} {record : ToolApprovalRecord}
    (h : createGovernedToolApproval C db request binding = .ok (db', record)) :
    Written C db .plain db' [] := by
  unfold createGovernedToolApproval at h
  simp only [bind_ok_iff, ensure_eq_ok, Bool.not_eq_true', Bool.or_eq_false_iff,
    decide_eq_false_iff_not, ne_eq, not_not, room_eq_ok, invalid_eq_ok, json_eq_ok,
    unavailable_eq_ok, Except.ok.injEq, Prod.mk.injEq] at h
  obtain ⟨_, ⟨hlevel, hdigest⟩, _, hroom, ⟨mid, created⟩, hcreate, _, _, _, hpreview, rfl, _⟩ := h
  obtain ⟨hcheck, hintent, rfl, approvals, hinsert, rfl⟩ := createOn_writes hcreate
  rw [insertPreview_eq_ok] at hpreview
  obtain ⟨⟨_, hbinding⟩, previews, hpreviews, rfl⟩ := hpreview
  exact .created request hcheck hintent hinsert
    (.governed binding hroom hdigest.symm hlevel hbinding hpreviews)

/-- A preview that passes the check of its owner asks for an approval. -/
theorem level_of_validate (h : owner.validate C preview = .ok ()) :
    preview.binding.requiredApproval ≠ .a0None := by
  unfold Owner.validate at h
  simp only [bind_ok_iff, ensure_eq_ok, Bool.not_eq_true', Bool.or_eq_false_iff,
    decide_eq_false_iff_not, ne_eq, not_not] at h
  have hlevel : preview.binding.requiredApproval = .a1Actor := by
    obtain ⟨_, ⟨⟨⟨⟨_, hlevel⟩, _⟩, _⟩, _⟩, _⟩ := h
    exact hlevel
  rw [hlevel]
  simp

theorem requestLocalApproval_writes {answer : LocalApprovalStatus}
    (h : requestLocalApproval C db owner preview = .ok (db', answer)) :
    Written C db .owned db' [] := by
  unfold requestLocalApproval at h
  rw [bind_ok_iff] at h
  obtain ⟨_, hvalid, h⟩ := h
  split_ifs at h with hfound
  · simp only [bind_ok_iff, Except.ok.injEq, Prod.mk.injEq] at h
    obtain ⟨_, _, _, _, rfl, _⟩ := h
    exact .same
  · simp only [bind_ok_iff, room_eq_ok, invalid_eq_ok, json_eq_ok, unavailable_eq_ok,
      Except.ok.injEq, Prod.mk.injEq] at h
    obtain ⟨_, _, ⟨mid, created⟩, hcreate, _, _, _, hpreview, _, _, _, _, _, hlocal, rfl, _⟩ := h
    obtain ⟨hcheck, hintent, rfl, approvals, hinsert, rfl⟩ := createOn_writes hcreate
    rw [insertPreview_eq_ok] at hpreview
    obtain ⟨⟨_, hbinding⟩, previews, hpreviews, rfl⟩ := hpreview
    rw [insertLocal_eq_ok] at hlocal
    obtain ⟨⟨_, hrow⟩, locals, hlocals, rfl⟩ := hlocal
    have hfresh : db.localApprovals.find preview.request.callId = none := by simpa using hfound
    have howned : Previewed C db preview.newApproval .owned previews locals :=
      .owned ⟨preview.request.callId, preview, owner, none⟩ rfl hfresh rfl
        (level_of_validate hvalid) hbinding hpreviews hrow hlocals
    exact .created preview.newApproval hcheck hintent hinsert howned

/-! ## Local decisions -/

/-- A preview is loaded from the row of its call. -/
theorem find_of_load (h : owner.load C db callId digest = .ok preview) :
    ∃ row, db.localApprovals.find callId = some row ∧ row.preview = preview := by
  unfold Owner.load at h
  simp only [bind_ok_iff, required_eq_ok, Except.ok.injEq] at h
  obtain ⟨row, hrow, _, _, _, _, _, _, hpreview⟩ := h
  exact ⟨row, hrow, hpreview⟩

theorem exactLocalApproval_writes {answer : Option ExactApproval}
    (h : exactLocalApproval C db owner callId digest nowMs = .ok (db', answer)) :
    Written C db .plain db' [] := by
  unfold exactLocalApproval at h
  simp only [bind_ok_iff, invalid_eq_ok, sqlU64_eq_ok, requireRecord, required_eq_ok,
    unavailable_eq_ok] at h
  obtain ⟨now, ⟨_, rfl⟩, preview, _, current, hrow, _, _, result, hexpire, h⟩ := h
  have hid : current.callId = callId := pk_of_find hrow
  rw [← hid] at hrow
  rcases expireIfNeeded_writes C .plain hrow hexpire with
    ⟨rfl, _⟩ | ⟨expired, found, rfl, hstate, hwritten⟩
  · have hsame : db = db' := by
      simp only at h
      split_ifs at h with happroved
      · cases h
        rfl
      · simp only [bind_ok_iff, Except.ok.injEq, Prod.mk.injEq] at h
        obtain ⟨_, _, _, _, _, _, hsame, _⟩ := h
        exact hsame
    rw [← hsame]
    exact .same
  · cases h
    exact hwritten

/-- A decision writes at most the exact approval of its local row. -/
theorem storeExact_writes (h : storeExact C db callId exact approved = .ok db') :
    ∃ locals, db' = { db with localApprovals := locals } ∧
      (locals = db.localApprovals ∨ ∃ exact : ExactApproval,
        db.localApprovals.update? (fun row => row.callId = callId && row.exact.isNone)
          (fun row => { row with exact := some exact }) (fun _ => rfl)
          (LocalApproval.check C) = some locals) := by
  unfold storeExact at h
  split_ifs at h with happroved
  · rw [bind_ok_iff] at h
    obtain ⟨_, _, h⟩ := h
    rw [unavailable_eq_ok, updateLocal_eq_ok] at h
    obtain ⟨locals, hlocals, rfl⟩ := h
    exact ⟨locals, rfl, .inr ⟨exact, hlocals⟩⟩
  · cases h
    exact ⟨_, rfl, .inl rfl⟩

theorem decideLocalApproval_writes {decisionId : String} {answer : LocalApprovalStatus}
    (h : decideLocalApproval C db owner callId digest decisionId approved nowMs =
      .ok (db', answer)) :
    Written C db .plain db' (observeLocal db callId decisionId answer.state) := by
  unfold decideLocalApproval at h
  simp only [bind_ok_iff, invalid_eq_ok, sqlU64_eq_ok, requireRecord, required_eq_ok,
    unavailable_eq_ok] at h
  obtain ⟨_, _, now, ⟨_, rfl⟩, preview, hload, current, hrow, _, _, result, hexpire, h⟩ := h
  have hid : current.callId = callId := pk_of_find hrow
  rw [← hid] at hrow
  obtain ⟨row, hfind, hpreview⟩ := find_of_load hload
  rcases expireIfNeeded_writes C .plain hrow hexpire with
    ⟨rfl, _⟩ | ⟨expired, found, rfl, hstate, hwritten⟩
  · simp only [bind_ok_iff, ensure_eq_ok, unavailable_eq_ok, updateApprovals_eq_ok,
      insertEvent_eq_ok, Except.ok.injEq, Prod.mk.injEq, Bool.not_eq_true',
      Bool.or_eq_false_iff, decide_eq_false_iff_not, not_not, ne_eq] at h
    obtain ⟨_, ⟨hpending, hunused⟩, mid, hmid, _, ⟨approvals, hupdate, rfl⟩, _, ⟨_, rfl⟩, rfl,
      rfl⟩ := h
    obtain ⟨locals, rfl, hlocals⟩ := storeExact_writes hmid
    rw [← hid] at hupdate
    obtain ⟨hchange, hcheck⟩ := changes_of_selected hupdate hrow (by simp [hpending])
    have hdigest : localDigest db callId = hex row.preview.binding.requestDigest := by
      simp [localDigest, hfind]
    have hobserved : observeLocal db callId decisionId
        (status callId digest (if approved then .approved else .denied)).state =
        [.decided current.callId (hex row.preview.binding.requestDigest) decisionId
          (if approved then .approved else .denied)] := by
      rw [hid, ← hdigest]
      cases approved <;> rfl
    rw [hobserved]
    refine .decided current _ _ _ decisionId nowMs hpending ?_ (.inr ⟨row, ?_, rfl⟩) hunused
      hchange hcheck hid.symm ?_
    · cases approved <;> simp
    · rw [hid]
      exact hfind
    · rw [hid]
      exact hlocals
  · cases h
    have hobserved : observeLocal db callId decisionId (status callId digest found.state).state =
        [] := by
      rw [hstate]
      rfl
    rw [hobserved]
    exact hwritten

/-! ## Preparation -/

/-- The audit of an admission goes to the stage events. -/
theorem append_admitted (h : append C db record true = .ok db') :
    db.stageEvents.length < capacity ∧ C.auditBytes record ≤ 1024 ∧
      { db with stageEvents := db.stageEvents ++
          [⟨record.executionId, some record.executionId, record.stage, record⟩] } = db' := by
  unfold append at h
  simp only [bind_ok_iff, ensure_eq_ok] at h
  obtain ⟨_, _, _, _, h⟩ := h
  split_ifs at h with hcase
  · simp at hcase
  · simp only [bind_ok_iff, room_eq_ok, json_eq_ok, unavailable_eq_ok, insertStageEvent_eq_ok] at h
    obtain ⟨_, hroom, _, hbytes, _, rfl⟩ := h
    exact ⟨hroom, hbytes, rfl⟩

/-- An admission inserts the intent with its first outcome and its audit. -/
theorem insertAdmission_writes (h : insertAdmission C db request = .ok db') :
    request.intent.check C ∧ db.stageEvents.length < capacity ∧
      C.auditBytes (admissionAudit C request.executionId request.binding) ≤ 1024 ∧
      ∃ intents, db.intents.insert? request.intent = some intents ∧
        db.withIntent C request intents = db' := by
  unfold insertAdmission at h
  simp only [bind_ok_iff, json_eq_ok, unavailable_eq_ok, insertIntent_eq_ok,
    insertOutcomeEvent_eq_ok, Bool.and_eq_true] at h
  obtain ⟨_, _, _, ⟨_, ⟨_, hcheck⟩, intents, hinsert, rfl⟩, _, ⟨_, rfl⟩, h⟩ := h
  obtain ⟨hroom, hbytes, rfl⟩ := append_admitted h
  exact ⟨hcheck, hroom, hbytes, intents, hinsert, rfl⟩

/-- What the approval part of `prepare` does: it ends the call with at most
an expiry, or it consumes the approval and prepares the execution. -/
inductive Consumed (C : Capability) (db : ToolDb) (request : PrepareRequest)
    (exact : ExactApproval) : Consumption → Prop where
  | done {mid : ToolDb} {outcome : PrepareOutcome}
      (written : Written C db .plain mid []) (refused : observePrepare request outcome = []) :
      Consumed C db request exact (.done mid outcome)
  | consumed (record : ToolApprovalRecord) (event : ToolApprovalEvent)
      (executionEvent : ToolExecutionEvent) {approvals : Table ToolApprovalRecord.callId}
      {executions : Table ToolExecutionRecord.callId}
      (previewed : db.previews.find request.callId = some ⟨request.callId, request.binding⟩)
      (recordCall : record.callId = request.callId)
      (matching : approvalDiffers request exact record = false)
      (approved : record.state = .approved) (inTime : request.nowMs < record.expiresAtMs)
      (change : db.approvals.Changes approvals record (record.consume request.nowMs))
      (check : (record.consume request.nowMs).check = true)
      (call : event.callId = record.callId)
      (insert : db.executions.insert?
        (preparedExecution request.callId request.executionId.text request.nowMs) =
          some executions)
      (executionCall : executionEvent.callId = record.callId)
      (executionCheck : executionEvent.check = true) :
      Consumed C db request exact (.consumed
        { db with
          approvals, executions, approvalEvents := db.approvalEvents ++ [event]
          executionEvents := db.executionEvents ++ [executionEvent] })

theorem consumeApproval_writes {result : Consumption}
    (h : consumeApproval db request exact request.nowMs = .ok result) :
    Consumed C db request exact result := by
  unfold consumeApproval at h
  by_cases hexact : (!exactMatches db request.callId exact) = true
  · rw [if_pos hexact] at h
    cases h
    exact .done .same rfl
  rw [if_neg hexact] at h
  by_cases hpreview : (db.previews.find request.callId).map GovernedPreview.binding ≠
      some request.binding
  · rw [if_pos hpreview] at h
    cases h
    exact .done .same rfl
  rw [if_neg hpreview] at h
  cases hrow : db.approvals.find request.callId with
  | none =>
    rw [hrow] at h
    cases h
    exact .done .same rfl
  | some current =>
    simp only [hrow] at h
    by_cases hmatch : approvalDiffers request exact current = true
    · rw [if_pos hmatch] at h
      cases h
      exact .done .same rfl
    rw [if_neg hmatch] at h
    simp only [bind_ok_iff, unavailable_eq_ok] at h
    obtain ⟨answer, hexpire, h⟩ := h
    have hid : current.callId = request.callId := pk_of_find hrow
    rw [← hid] at hrow
    rcases expireIfNeeded_writes C .plain hrow hexpire with
      ⟨rfl, htime⟩ | ⟨expired, found, rfl, hstate, hwritten⟩
    · simp only at h
      split_ifs at h with happroved hused
      · cases h
        exact .done .same rfl
      · cases h
        exact .done .same rfl
      · simp only [bind_ok_iff, unavailable_eq_ok, updateApprovals_eq_ok, insertEvent_eq_ok,
          insertExecution_eq_ok, insertExecutionEvent_eq_ok, Except.ok.injEq] at h
        obtain ⟨_, ⟨approvals, hupdate, rfl⟩, _, ⟨_, rfl⟩, _, ⟨_, executions, hinsert, rfl⟩,
          _, ⟨⟨_, hevent⟩, rfl⟩, rfl⟩ := h
        have happroved' : current.state = .approved := by simpa using happroved
        rw [← hid] at hupdate
        obtain ⟨hchange, hcheck⟩ := changes_of_selected hupdate hrow (by simp [happroved'])
        have hbinding : db.previews.find request.callId =
            some ⟨request.callId, request.binding⟩ := by
          simp only [ne_eq, not_not, Option.map_eq_some_iff] at hpreview
          obtain ⟨preview, hfind, hbinding⟩ := hpreview
          have hcall : preview.callId = request.callId := pk_of_find hfind
          rw [hfind, ← hcall, ← hbinding]
        exact .consumed current _ _ hbinding hid (by simpa using hmatch) happroved'
          (htime (by simp [happroved', ToolApprovalState.isOpen])) hchange hcheck hid.symm
          hinsert hid.symm hevent
    · cases h
      exact .done hwritten rfl

/-- The guards of `prepare` up to the approval. -/
structure Reservable (C : Capability) (db : ToolDb) (request : PrepareRequest) : Prop where
  valid : C.isValid request = true
  fresh : ∀ intent ∈ db.intents.rows,
    intent.executionId ≠ request.executionId ∧ intent.callId ≠ request.callId
  unused : resolutionExists db request.executionId.text = false
  room : db.intents.rows.length < capacity
  origin : validOrigin C db request.binding = true

theorem reserve_writes (hguards : Reservable C db request)
    (h : reserve C db request request.nowMs = .ok (db', answer)) :
    Written C db .plain db' (observePrepare request answer) := by
  unfold reserve at h
  cases happroval : request.approval with
  | none =>
    simp only [happroval] at h
    split_ifs at h with hfound
    · cases h
      exact .same
    · simp only [bind_ok_iff, Except.ok.injEq, Prod.mk.injEq] at h
      obtain ⟨_, hinsert, rfl, rfl⟩ := h
      obtain ⟨hcheck, hstages, hbytes, intents, hintents, rfl⟩ := insertAdmission_writes hinsert
      have hobserved : observePrepare request (.prepared request.executionId request.binding) =
          [.intended request.callId request.executionId.text none request.nowMs] := by
        simp [observePrepare, happroval]
      rw [hobserved]
      exact .admitted request happroval (by simpa using hfound) ⟨hguards.valid, hguards.fresh,
        hguards.unused, hguards.room, hstages, hguards.origin, hcheck, hbytes⟩ hintents
  | some exact =>
    simp only [happroval, bind_ok_iff] at h
    obtain ⟨result, hconsume, h⟩ := h
    cases consumeApproval_writes (C := C) hconsume with
    | done hwritten hrefused =>
      cases h
      rw [hrefused]
      exact hwritten
    | consumed record event executionEvent hpreview hcall hmatch happroved htime hchange hrow
        hevent hexecution hexecutionCall hexecutionCheck =>
      simp only [bind_ok_iff, Except.ok.injEq, Prod.mk.injEq] at h
      obtain ⟨_, hinsert, rfl, rfl⟩ := h
      obtain ⟨hcheck, hstages, hbytes, intents, hintents, rfl⟩ := insertAdmission_writes hinsert
      have hobserved : observePrepare request (.prepared request.executionId request.binding) =
          [.intended request.callId request.executionId.text
            (some (hex request.binding.requestDigest)) request.nowMs] := by
        simp [observePrepare, happroval]
      rw [hobserved]
      exact .admittedApproval request exact record event executionEvent happroval
        ⟨hguards.valid, hguards.fresh, hguards.unused, hguards.room, hstages, hguards.origin,
          hcheck, hbytes⟩ hpreview hcall hmatch happroved htime hchange hrow hevent hexecution
        hexecutionCall hexecutionCheck hintents

theorem prepare_writes (h : prepare C db request = .ok (db', answer)) :
    Written C db .plain db' (observePrepare request answer) := by
  unfold prepare at h
  simp only [bind_ok_iff, ensure_eq_ok, json_eq_ok, invalid_eq_ok, sqlU64_eq_ok] at h
  obtain ⟨_, hvalid, _, _, _, _, now, ⟨_, rfl⟩, _, _, h⟩ := h
  by_cases hfresh : db.intents.rows.any (fun intent =>
      intent.executionId = request.executionId || intent.callId = request.callId)
  · rw [if_pos hfresh] at h
    cases h
    exact .same
  rw [if_neg hfresh] at h
  by_cases hunused : resolutionExists db request.executionId.text
  · rw [if_pos hunused] at h
    cases h
    exact .same
  rw [if_neg hunused, bind_ok_iff] at h
  obtain ⟨_, hroom, h⟩ := h
  rw [room_eq_ok] at hroom
  by_cases horigin : (!validOrigin C db request.binding)
  · rw [if_pos horigin] at h
    cases h
    exact .same
  rw [if_neg horigin] at h
  by_cases hreserved : request.binding.compensationOrigin.any (reservedOrigin db)
  · rw [if_pos hreserved] at h
    cases h
    exact .same
  rw [if_neg hreserved] at h
  have hfresh' : ∀ intent ∈ db.intents.rows,
      intent.executionId ≠ request.executionId ∧ intent.callId ≠ request.callId := by
    intro intent hmem
    simp only [any_eq_true, not_exists, not_and, Bool.or_eq_true, decide_eq_true_eq,
      not_or] at hfresh
    exact hfresh intent hmem
  have hunused' : resolutionExists db request.executionId.text = false := by simpa using hunused
  have horigin' : validOrigin C db request.binding := by simpa using horigin
  exact reserve_writes ⟨hvalid, hfresh', hunused', hroom, horigin'⟩ h

/-! ## Completion -/

theorem finishLegacy_writes {finished : Nat} {legacy : Option String}
    (h : finishLegacy db executionId terminal finished legacy = .ok db') : ∃ executions events,
      LegacyFinished db (baseState terminal.state) (legacyResultDigest terminal) finished legacy
        executions events ∧
      db' = { db with executions, executionEvents := events } := by
  cases legacy with
  | none =>
    cases h
    exact ⟨_, _, .unlinked, rfl⟩
  | some call =>
    simp only [finishLegacy, bind_ok_iff, unavailable_eq_ok, updateExecutions_eq_ok,
      insertExecutionEvent_eq_ok] at h
    obtain ⟨_, ⟨executions, hupdate, rfl⟩, ⟨hparent, hevent⟩, rfl⟩ := h
    obtain ⟨hcheck, rfl⟩ := update?_eq_some_iff.mp hupdate
    have hparent' : (db.executions.find call).isSome := by
      simpa [find_modify] using hparent
    exact ⟨_, _, .linked call _ hcheck hparent' rfl hevent, rfl⟩

theorem finish_writes (h : finish C db executionId binding terminal epochMs = .ok db') :
    Written C db (.ending terminal) db' [] := by
  unfold finish at h
  simp only [bind_ok_iff, ensure_eq_ok, invalid_eq_ok, required_eq_ok, Bool.and_eq_true,
    decide_eq_true_eq, json_eq_ok, unavailable_eq_ok, updateIntents_eq_ok,
    insertOutcomeEvent_eq_ok] at h
  obtain ⟨_, hvalid, _, _, intent, hfind, _, ⟨hprepared, _⟩, _, _, _, hlegacy, _, _, _,
    ⟨hguard, intents, hupdate, rfl⟩, _, rfl⟩ := h
  obtain ⟨executions, events, hrows, rfl⟩ := finishLegacy_writes hlegacy
  have hid : intent.executionId = executionId := pk_of_find hfind
  obtain ⟨hchange, hcheck⟩ := changes_of_update? hupdate hfind (by simp [hid]) (by simp)
  have hends : baseState terminal.state ≠ .prepared :=
    (hguard intent (mem_rows_of_find hfind) (by simp [hid])).2
  rw [← hid]
  exact .finished intent terminal _ hprepared hvalid hends hchange hcheck hrows

/-! ## Recovery -/

theorem insertEach_executionEvents {events : List ToolExecutionEvent} :
    insertEach insertExecutionEvent db events = .ok db' ↔
      (∀ event ∈ events, (db.executions.find event.callId).isSome ∧ event.check) ∧
      { db with executionEvents := db.executionEvents ++ events } = db' := by
  induction events generalizing db with
  | nil => simp [insertEach]
  | cons event events ih =>
    simp only [insertEach, bind_ok_iff, insertExecutionEvent_eq_ok, forall_mem_cons]
    constructor
    · rintro ⟨_, ⟨hevent, rfl⟩, h⟩
      obtain ⟨hevents, rfl⟩ := ih.mp h
      exact ⟨⟨hevent, hevents⟩, by simp⟩
    · rintro ⟨⟨hevent, hevents⟩, rfl⟩
      exact ⟨_, ⟨hevent, rfl⟩, ih.mpr ⟨hevents, by simp⟩⟩

theorem insertEach_outcomeEvents {events : List GovernedOutcomeEvent} :
    insertEach (insertOutcomeEvent C) db events = .ok db' ↔
      (∀ event ∈ events, (db.intents.find event.executionId).isSome ∧ event.check C) ∧
      { db with outcomeEvents := db.outcomeEvents ++ events } = db' := by
  induction events generalizing db with
  | nil => simp [insertEach]
  | cons event events ih =>
    simp only [insertEach, bind_ok_iff, insertOutcomeEvent_eq_ok, forall_mem_cons]
    constructor
    · rintro ⟨_, ⟨hevent, rfl⟩, h⟩
      obtain ⟨hevents, rfl⟩ := ih.mp h
      exact ⟨⟨hevent, hevents⟩, by simp⟩
    · rintro ⟨⟨hevent, hevents⟩, rfl⟩
      exact ⟨_, ⟨hevent, rfl⟩, ih.mpr ⟨hevents, by simp⟩⟩

/-- `recover_on` succeeds exactly when the rows that it writes keep their
references and checks. -/
theorem recoverOn_eq_ok : recoverOn C db epochMs = .ok db' ↔ epochMs ≤ sqliteMax ∧
      (∀ intent ∈ preparedIntents db, intent.legacyExecutionCallId.isSome →
        (db.executions.find intent.callId).isSome) ∧
      (∀ record ∈ db.executions.rows, linkedToPrepared db record →
        (record.recover epochMs).check) ∧
      (∀ intent ∈ preparedIntents db, (intent.finish interruptedOutcome).check C) ∧
      db.recovered epochMs = db' := by
  unfold recoverOn
  simp only [bind_ok_iff, sqlU64_eq_ok, insertEach_executionEvents, updateExecutions_eq_ok,
    insertEach_outcomeEvents, updateIntents_eq_ok, update?_eq_some_iff]
  constructor
  · rintro ⟨_, ⟨hmax, rfl⟩, _, ⟨hevents, rfl⟩, _, ⟨executions, ⟨hexecutions, rfl⟩, rfl⟩, _,
      ⟨_, rfl⟩, _, intents, ⟨hintents, rfl⟩, rfl⟩
    refine ⟨hmax, ?_, hexecutions, ?_, rfl⟩
    · intro intent hmem hlinked
      exact (hevents (interruptedEvent epochMs intent) (mem_map_of_mem
        (mem_filter.mpr ⟨hmem, hlinked⟩))).1
    · intro intent hmem
      obtain ⟨hrow, hprepared⟩ := mem_filter.mp hmem
      exact hintents intent hrow hprepared
  · rintro ⟨hmax, hparents, hexecutions, hintents, rfl⟩
    refine ⟨epochMs, ⟨hmax, rfl⟩, _, ⟨?_, rfl⟩, _, ⟨_, ⟨hexecutions, rfl⟩, rfl⟩, _, ⟨?_, rfl⟩,
      ?_, _, ⟨?_, rfl⟩, rfl⟩
    · intro event hmem
      obtain ⟨intent, hintent, rfl⟩ := mem_map.mp hmem
      obtain ⟨hprepared, hlinked⟩ := mem_filter.mp hintent
      exact ⟨hparents intent hprepared hlinked, rfl⟩
    · intro event hmem
      obtain ⟨intent, hprepared, rfl⟩ := mem_map.mp hmem
      have hrow : intent ∈ db.intents.rows := (mem_filter.mp hprepared).1
      refine ⟨by simp [mem_rows_iff_find.mp hrow], ?_⟩
      simpa [GovernedOutcomeEvent.check] using C.interrupted_bytes
    · intro intent _ hprepared
      exact ⟨by simpa using hprepared, by simp [GovernedIntent.finish, interruptedOutcome,
        outcome, baseState]⟩
    · intro intent hrow hprepared
      exact hintents intent (mem_filter.mpr ⟨hrow, hprepared⟩)

/-- The loop of `recover_prepared_on` over a part of the prepared rows. -/
def ToolDb.stoppedIn (db : ToolDb) (now : Nat) (ids : List (String × String)) : ToolDb :=
  { db with
    executions := db.executions.modify
      (fun record => record.state = .prepared && (record.callId, record.executionId) ∈ ids)
      (ToolExecutionRecord.interrupt now) (ToolExecutionRecord.callId_interrupt now)
    executionEvents := db.executionEvents ++ ids.map (stoppedEvent now) }

/-- A row that the loop can interrupt. -/
def Stoppable (db : ToolDb) (now : Nat) (ids : String × String) : Prop :=
  ∃ record, db.executions.find ids.1 = some record ∧ record.executionId = ids.2 ∧
    record.state = .prepared ∧ (record.interrupt now).check = true

/-- Two rounds of the loop on the rows. -/
theorem stoppedIn_cons (now : Nat) (ids : String × String) (rest : List (String × String)) :
    (db.stoppedIn now [ids]).stoppedIn now rest = db.stoppedIn now (ids :: rest) := by
  unfold ToolDb.stoppedIn
  congr 1
  · refine ext ?_
    simp only [rows_modify, map_map]
    refine map_congr_left (fun record _ => ?_)
    simp only [Function.comp_apply]
    by_cases hprepared : record.state = .prepared
    · by_cases hhead : (record.callId, record.executionId) = ids
      · simp [hprepared, hhead, interrupt]
      · simp [hprepared, hhead]
    · simp [hprepared]
  · simp

/-- One round of the loop. -/
theorem stoppedIn_single (now : Nat) (callId executionId : String) :
    db.stoppedIn now [(callId, executionId)] =
      { db with
        executions := db.executions.modify (selected callId executionId)
          (interrupt now) (callId_interrupt now)
        executionEvents := db.executionEvents ++
          [⟨callId, executionId, .interrupted, none, now⟩] } := by
  have hselect : (fun record : ToolExecutionRecord => (record.state = .prepared &&
      (record.callId, record.executionId) ∈ [(callId, executionId)] : Bool)) =
      selected callId executionId := by
    funext record
    simp [selected, Bool.and_comm]
  unfold ToolDb.stoppedIn
  simp only [hselect]
  rfl

theorem stoppedIn_nil (now : Nat) : db.stoppedIn now [] = db := by
  have hrows : (db.stoppedIn now []).executions = db.executions := by
    refine ext ?_
    simp [ToolDb.stoppedIn]
  have hevents : (db.stoppedIn now []).executionEvents = db.executionEvents := by
    simp [ToolDb.stoppedIn]
  show { db with
    executions := (db.stoppedIn now []).executions
    executionEvents := (db.stoppedIn now []).executionEvents } = db
  rw [hrows, hevents]

/-- A prepared row after some rounds is the row from before them. -/
theorem find_of_stoppedIn {k : String} {record : ToolExecutionRecord}
    (h : (db.stoppedIn now ids).executions.find k = some record)
    (hprepared : record.state = .prepared) : db.executions.find k = some record := by
  rw [ToolDb.stoppedIn, find_modify, Option.map_eq_some_iff] at h
  obtain ⟨old, hold, rfl⟩ := h
  split_ifs at hprepared ⊢ with hselect
  · cases hprepared
  · exact hold

theorem interruptPrepared_cons {rest : List (String × String)} :
    interruptPrepared now db (i :: rest) = .ok db' ↔
      Stoppable db now i ∧ interruptPrepared now (db.stoppedIn now [i]) rest = .ok db' := by
  obtain ⟨callId, executionId⟩ := i
  simp only [interruptPrepared, bind_ok_iff, updateExecutions_eq_ok, update?_eq_some_iff,
    ensure_eq_ok, decide_eq_true_eq, insertExecutionEvent_eq_ok]
  rw [stoppedIn_single]
  constructor
  · rintro ⟨_, ⟨_, ⟨hcheck, rfl⟩, rfl⟩, _, hone, _, ⟨_, rfl⟩, h⟩
    refine ⟨?_, h⟩
    obtain ⟨record, hrecord⟩ := length_eq_one_iff.mp hone
    have hmem : record ∈ db.executions.rows.filter
        (selected callId executionId) := by simp [hrecord]
    obtain ⟨hrow, hselect⟩ := mem_filter.mp hmem
    have hcheck' := hcheck record hrow hselect
    simp only [selected, Bool.and_eq_true, decide_eq_true_eq] at hselect
    exact ⟨record, find_eq_some_iff.mpr ⟨hrow, hselect.1.1⟩, hselect.1.2, hselect.2, hcheck'⟩
  · rintro ⟨⟨record, hfind, hexecution, hprepared, hcheck⟩, h⟩
    have hid : record.callId = callId := pk_of_find hfind
    have hexecution' : record.executionId = executionId := hexecution
    have hselect : selected callId executionId record := by
      simp [selected, hid, hexecution', hprepared]
    have hkey : ∀ other, selected callId executionId other → other.callId = callId := by
      intro other hother
      simp only [selected, Bool.and_eq_true, decide_eq_true_eq] at hother
      exact hother.1.1
    refine ⟨_, ⟨_, ⟨?_, rfl⟩, rfl⟩, (), length_filter_eq_one hfind hselect hkey, _,
      ⟨⟨?_, rfl⟩, rfl⟩, h⟩
    · intro other hother hselected
      have heq : other = record := by
        have hfound := find_eq_some_iff.mpr ⟨hother, hkey other hselected⟩
        exact Option.some.inj (hfound.symm.trans hfind)
      rw [heq]
      exact hcheck
    · have hfind' : db.executions.find callId = some record := hfind
      simp [find_modify, hfind']

theorem interruptPrepared_eq_ok (h : interruptPrepared now db ids = .ok db') :
    (∀ i ∈ ids, Stoppable db now i) ∧ db.stoppedIn now ids = db' := by
  induction ids generalizing db with
  | nil =>
    cases h
    exact ⟨by simp, stoppedIn_nil now⟩
  | cons i rest ih =>
    obtain ⟨hhead, h⟩ := interruptPrepared_cons.mp h
    obtain ⟨hrest, rfl⟩ := ih h
    refine ⟨?_, (stoppedIn_cons now i rest).symm⟩
    intro j hmem
    rcases mem_cons.mp hmem with rfl | hmem
    · exact hhead
    · obtain ⟨record, hfind, hexecution, hprepared, hcheck⟩ := hrest j hmem
      exact ⟨record, find_of_stoppedIn hfind hprepared, hexecution, hprepared, hcheck⟩

theorem interruptPrepared_total (hnodup : (ids.map Prod.fst).Nodup)
    (h : ∀ i ∈ ids, Stoppable db now i) :
    interruptPrepared now db ids = .ok (db.stoppedIn now ids) := by
  induction ids generalizing db with
  | nil =>
    rw [stoppedIn_nil]
    rfl
  | cons i rest ih =>
    rw [interruptPrepared_cons, ← stoppedIn_cons now i rest]
    rw [map_cons, nodup_cons] at hnodup
    refine ⟨h i mem_cons_self, ih hnodup.2 ?_⟩
    intro j hmem
    obtain ⟨record, hfind, hrecord⟩ := h j (mem_cons_of_mem i hmem)
    -- the round for another call leaves the row as it is
    have hne : record.callId ≠ i.1 := by
      rw [pk_of_find hfind]
      intro heq
      exact hnodup.1 (heq ▸ mem_map_of_mem hmem)
    refine ⟨record, ?_, hrecord⟩
    rw [ToolDb.stoppedIn, find_modify, hfind]
    have hother : (record.callId, record.executionId) ≠ i := fun heq => hne (heq ▸ rfl)
    simp [hother]

theorem mem_preparedIds : i ∈ preparedIds db ↔
    ∃ record ∈ db.executions.rows, record.state = .prepared ∧
      (record.callId, record.executionId) = i := by
  simp [preparedIds, and_assoc]

theorem preparedIds_nodup (db : ToolDb) : ((preparedIds db).map Prod.fst).Nodup := by
  have hsub : ((db.executions.rows.filter (fun record => record.state = .prepared)).map
      callId).Nodup :=
    List.Nodup.sublist (List.Sublist.map _ filter_sublist) db.executions.nodup
  have hperm := (perm_insertionSort startedBefore
    (db.executions.rows.filter (fun record => record.state = .prepared))).map
    callId
  have hfst : (preparedIds db).map Prod.fst =
      ((db.executions.rows.filter (fun record => record.state = .prepared)).insertionSort
        startedBefore).map callId := by
    simp [preparedIds]
  rw [hfst]
  exact hperm.symm.nodup hsub

/-- The loop over all the prepared rows. -/
theorem stoppedIn_preparedIds (db : ToolDb) (now : Nat) :
    db.stoppedIn now (preparedIds db) = db.stopped now := by
  have hrows : (db.stoppedIn now (preparedIds db)).executions = (db.stopped now).executions := by
    refine ext ?_
    refine map_congr_left (fun record hmem => ?_)
    by_cases hprepared : record.state = .prepared
    · have hid : (record.callId, record.executionId) ∈ preparedIds db :=
        mem_preparedIds.mpr ⟨record, hmem, hprepared, rfl⟩
      simp [hprepared, hid]
    · simp [hprepared]
  show { db with
    executions := (db.stoppedIn now (preparedIds db)).executions
    executionEvents := (db.stopped now).executionEvents } = _
  rw [hrows]
  rfl

/-- `recover_prepared_on` succeeds exactly when no prepared row started
after the reading of the clock. -/
theorem recoverPreparedOn_eq_ok :
    recoverPreparedOn db nowMs = .ok (db', count) ↔ nowMs ≤ sqliteMax ∧
      (∀ record ∈ db.executions.rows, record.state = .prepared →
        (record.interrupt nowMs).check) ∧
      db.stopped nowMs = db' ∧ (preparedIds db).length = count := by
  simp only [recoverPreparedOn, bind_ok_iff, sqlU64_eq_ok, Except.ok.injEq, Prod.mk.injEq]
  constructor
  · rintro ⟨_, ⟨hmax, rfl⟩, _, hloop, rfl, hcount⟩
    obtain ⟨hstop, rfl⟩ := interruptPrepared_eq_ok hloop
    refine ⟨hmax, ?_, (stoppedIn_preparedIds db nowMs).symm, hcount⟩
    intro record hmem hprepared
    obtain ⟨found, hfind, _, _, hcheck⟩ :=
      hstop _ (mem_preparedIds.mpr ⟨record, hmem, hprepared, rfl⟩)
    have heq : found = record :=
      Option.some.inj (hfind.symm.trans (mem_rows_iff_find.mp hmem))
    rw [← heq]
    exact hcheck
  · rintro ⟨hmax, hcheck, rfl, hcount⟩
    refine ⟨nowMs, ⟨hmax, rfl⟩, _, interruptPrepared_total (preparedIds_nodup db) ?_,
      stoppedIn_preparedIds db nowMs, hcount⟩
    intro i hmem
    obtain ⟨record, hrow, hprepared, rfl⟩ := mem_preparedIds.mp hmem
    exact ⟨record, mem_rows_iff_find.mp hrow, rfl, hprepared, hcheck record hrow hprepared⟩

/-- After `recover_on` no intent is prepared. -/
theorem settled_recovered (recoveredAt : Nat) :
    ∀ intent ∈ (db.recovered recoveredAt).intents.rows, intent.state ≠ .prepared := by
  intro intent hmem
  obtain ⟨old, _, rfl⟩ := mem_map.mp hmem
  split_ifs with hprepared
  · simp [GovernedIntent.finish, interruptedOutcome, outcome, baseState]
  · simpa using hprepared

/-! ## Local wrappers -/

theorem localAppendStage_writes (h : localAppendStage C db owner record = .ok db') :
    Written C db .plain db' [] := by
  unfold localAppendStage at h
  simp only [bind_ok_iff] at h
  obtain ⟨_, _, _, _, h⟩ := h
  exact append_writes h

theorem localRefuseReplay_writes
    (h : localRefuseReplay C db owner executionId = .ok (db', refused)) :
    Written C db .plain db' [] := by
  unfold localRefuseReplay at h
  rw [bind_ok_iff] at h
  obtain ⟨found, _, h⟩ := h
  cases found with
  | unknown =>
    cases h
    exact .same
  | «foreign» => cases h
  | localPreview => exact refuseReplay_writes h

theorem localFinish_writes
    (h : localFinish C db owner executionId binding terminal epochMs = .ok db') :
    Written C db (.ending terminal) db' [] := by
  unfold localFinish at h
  rw [bind_ok_iff] at h
  obtain ⟨found, _, h⟩ := h
  cases found with
  | unknown => cases h
  | «foreign» => cases h
  | localPreview preview =>
    simp only [bind_ok_iff] at h
    obtain ⟨_, _, h⟩ := h
    exact finish_writes h

theorem localPrepare_writes (h : localPrepare C db owner request = .ok (db', answer)) :
    Written C db .plain db' (observePrepare request answer) := by
  unfold localPrepare at h
  by_cases hprincipal : (request.binding.principalDigest ≠ C.commitPrincipal owner.principal ||
      request.binding.requiredApproval ≠ .a1Actor)
  · rw [if_pos hprincipal] at h
    cases h
    exact .same
  rw [if_neg hprincipal] at h
  cases happroval : request.approval with
  | none =>
    simp only [happroval] at h
    cases h
    exact .same
  | some exact =>
    simp only [happroval, bind_ok_iff] at h
    obtain ⟨mine, _, h⟩ := h
    by_cases hmine : (!mine)
    · rw [if_pos hmine] at h
      cases h
      exact .same
    rw [if_neg hmine] at h
    split at h
    · cases h
      exact .same
    · rw [bind_ok_iff] at h
      obtain ⟨_, _, h⟩ := h
      split_ifs at h with hprincipal
      · cases h
        exact .same
      · exact prepare_writes h

/-! ## Calls -/

/-- What the writes of a call need to know of it. -/
def ToolCall.source : ToolCall → Source
  | .requestLocalApproval _ _ => .owned
  | .finish _ _ terminal _ => .ending terminal
  | .localFinish _ _ _ terminal _ => .ending terminal
  | _ => .plain

theorem reply_eq_ok : reply failure x observe = .ok (db', observed) ↔
      ∃ a, x = .ok (db', a) ∧ observe a = observed := by
  cases x with
  | error e => simp [reply, Except.map, mapErr]
  | ok result =>
    obtain ⟨after, a⟩ := result
    simp [reply, Except.map, mapErr]

theorem replyUnit_eq_ok {x : Except ε ToolDb} :
    replyUnit failure x = .ok (db', observed) ↔ x = .ok db' ∧ [] = observed := by
  cases x <;> simp [replyUnit, Except.map, mapErr]

/-- The second part of a reopen, on a store without prepared intents. -/
theorem reopenPrepared_writes {source : Source} (nowMs : Nat)
    (hsettled : ∀ intent ∈ db.intents.rows, intent.state ≠ .prepared) :
    Written C db source (reopenPrepared db nowMs) [] := by
  unfold reopenPrepared
  split
  · rename_i after count h
    obtain ⟨_, hcheck, rfl, _⟩ := recoverPreparedOn_eq_ok.mp h
    exact .stopped nowMs hsettled hcheck
  · exact .same

theorem reopenPrepared_approvals (db : ToolDb) (nowMs : Nat) :
    (reopenPrepared db nowMs).approvals = db.approvals := by
  unfold reopenPrepared
  split
  · rename_i after count h
    obtain ⟨_, _, rfl, _⟩ := recoverPreparedOn_eq_ok.mp h
    rfl
  · rfl

/-- A call whose answer tells of one write. -/
theorem written_reply {source : Source}
    (hx : ∀ {a}, x = .ok (db', a) → Written C db source db' (observe a))
    (h : reply failure x observe = .ok (db', observed)) :
    ∃ mid, Written C db source mid observed ∧ Written C mid .plain db' [] ∧
      db'.approvals = mid.approvals := by
  obtain ⟨_, hcall, rfl⟩ := reply_eq_ok.mp h
  exact ⟨db', hx hcall, .same, rfl⟩

/-- Every call is one write, and a second one in a reopen, which leaves the
approvals alone. -/
theorem written_of_commit {call : ToolCall} (h : call.commit C db = .ok (db', observed)) :
    ∃ mid, Written C db call.source mid observed ∧ Written C mid .plain db' [] ∧
      db'.approvals = mid.approvals := by
  cases call with
  | createToolApproval => exact written_reply createToolApproval_writes h
  | createGovernedToolApproval => exact written_reply createGovernedToolApproval_writes h
  | requestLocalApproval => exact written_reply requestLocalApproval_writes h
  | decideToolApproval => exact written_reply decideToolApproval_writes h
  | decideLocalApproval => exact written_reply decideLocalApproval_writes h
  | cancelToolApproval => exact written_reply cancelToolApproval_writes h
  | toolApproval => exact written_reply toolApproval_writes h
  | exactLocalApproval => exact written_reply exactLocalApproval_writes h
  | prepareToolExecution => exact written_reply prepareToolExecution_writes h
  | completeToolExecution => exact written_reply completeToolExecution_writes h
  | appendStage =>
    obtain ⟨hcall, rfl⟩ := replyUnit_eq_ok.mp h
    exact ⟨db', append_writes hcall, .same, rfl⟩
  | refuseReplay => exact written_reply refuseReplay_writes h
  | prepare => exact written_reply prepare_writes h
  | finish =>
    obtain ⟨hcall, rfl⟩ := replyUnit_eq_ok.mp h
    exact ⟨db', finish_writes hcall, .same, rfl⟩
  | localAppendStage =>
    obtain ⟨hcall, rfl⟩ := replyUnit_eq_ok.mp h
    exact ⟨db', localAppendStage_writes hcall, .same, rfl⟩
  | localRefuseReplay => exact written_reply localRefuseReplay_writes h
  | localPrepare => exact written_reply localPrepare_writes h
  | localFinish =>
    obtain ⟨hcall, rfl⟩ := replyUnit_eq_ok.mp h
    exact ⟨db', localFinish_writes hcall, .same, rfl⟩
  | recover epochMs =>
    rw [commit, replyUnit_eq_ok] at h
    obtain ⟨h, rfl⟩ := h
    obtain ⟨_, hparents, hcheck, hintents, rfl⟩ := recoverOn_eq_ok.mp h
    exact ⟨_, .recovered epochMs hcheck hintents hparents, .same, rfl⟩
  | reopen epochMs preparedMs =>
    rw [commit, replyUnit_eq_ok] at h
    obtain ⟨h, rfl⟩ := h
    simp only [bind_ok_iff, Except.ok.injEq] at h
    obtain ⟨_, _, _, hrecover, rfl⟩ := h
    obtain ⟨_, hparents, hcheck, hintents, rfl⟩ := recoverOn_eq_ok.mp hrecover
    exact ⟨_, .recovered epochMs hcheck hintents hparents,
      reopenPrepared_writes preparedMs (settled_recovered epochMs),
      reopenPrepared_approvals _ preparedMs⟩

end Abbey.Tool
