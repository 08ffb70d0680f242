import Abbey.Run.Store

/-!
# What the lifecycle calls write

One lemma for each call of `Abbey.Run.Store`: when it succeeds, and what
the database is afterwards.  Later proofs cite these and never unfold a
call.

* `createOrGetRun_eq_ok` and `admitNewTurn_writes` for the two creations.
* `updateAndAppend_writes` for the guarded update of a run, and
  `updateAndAppend_total` for its success on a row that was just read.
* `transitionRun_writes` and `transitionRun_error` for a transition.
* `interruptAll` is reasoned about through `updateAndAppend` only.

The assistant tables are hidden behind `SameRuns`: the part of the
database that the projection of a transition leaves alone.
-/

namespace Abbey.Run

open Abbey.Lib V4ContentPayload Table RunRecord Except List

variable {event : ContentEvent} {key : IdempotencyKey} {messageId nowMs : Nat} {db db' : RunDb}
  {stored : RunEvent} {rid id runId : RunId} {run : RunRecord} {next state : RunState}
  {payload : V4ContentPayload} {submit : V4SubmitTurn} {submitDigest : V4SubmitTurn → String}
  {submission : V4TurnSubmission} {now timestamp marker : Instant}

/-! ## Lookups -/

theorem runByIdempotencyKey_eq_some (h : runByIdempotencyKey db key = some run) :
    db.runs.find run.id = some run ∧ run.idempotencyKey = key := by
  refine ⟨?_, ?_⟩
  · exact mem_rows_iff_find.mp (mem_of_find?_eq_some h)
  · simpa using find?_some h

theorem runByIdempotencyKey_eq_none : runByIdempotencyKey db key = none ↔
      ∀ id run, db.runs.find id = some run → run.idempotencyKey ≠ key := by
  unfold runByIdempotencyKey
  rw [find?_eq_none]
  constructor
  · intro h id run hrun
    simpa using h run (mem_rows_of_find hrun)
  · intro h run hrun
    simpa using h run.id run (mem_rows_iff_find.mp hrun)

/-! ## The frame of the assistant tables -/

/-- The tables that content and message writes leave alone. -/
structure SameRuns (db db' : RunDb) : Prop where
  conversations : db'.conversations = db.conversations
  runs : db'.runs = db.runs
  runEvents : db'.runEvents = db.runEvents
  assistantTurns : db'.assistantTurns = db.assistantTurns

namespace SameRuns

theorem refl (db : RunDb) : SameRuns db db := ⟨rfl, rfl, rfl, rfl⟩

theorem trans (h : SameRuns db db') (h' : SameRuns db' db'') : SameRuns db db'' :=
  ⟨h'.conversations.trans h.conversations, h'.runs.trans h.runs,
    h'.runEvents.trans h.runEvents, h'.assistantTurns.trans h.assistantTurns⟩

end SameRuns

theorem insertContentEvent_sameRuns
    (h : insertContentEvent db cid rid payload nowMs = .ok (db', event)) : SameRuns db db' := by
  unfold insertContentEvent at h
  simp only [bind_ok_iff, ok.injEq, Prod.mk.injEq] at h
  obtain ⟨_, _, _, _, _, _, _, _, _, _, _, _, _, _, hdb, _⟩ := h
  rw [← hdb]
  exact ⟨rfl, rfl, rfl, rfl⟩

theorem updateAssistantPreview_sameRuns
    (h : updateAssistantPreview db rid delta nowMs messageId = .ok db') : SameRuns db db' := by
  unfold updateAssistantPreview at h
  simp only [bind_ok_iff] at h
  obtain ⟨_, _, h⟩ := h
  split at h
  · cases h
    exact ⟨rfl, rfl, rfl, rfl⟩
  · simp only [bind_ok_iff, ok.injEq] at h
    obtain ⟨_, _, _, _, _, _, hdb⟩ := h
    rw [← hdb]
    exact ⟨rfl, rfl, rfl, rfl⟩

theorem v4AppendContent_sameRuns
    (h : v4AppendContent db rid payload nowMs messageId = .ok (db', event)) : SameRuns db db' := by
  unfold v4AppendContent at h
  simp only [bind_ok_iff] at h
  obtain ⟨_, _, _, _, _, _, ⟨mid, _⟩, hinsert, h⟩ := h
  have hmid := insertContentEvent_sameRuns hinsert
  split at h
  · simp only [bind_ok_iff, ok.injEq, Prod.mk.injEq] at h
    obtain ⟨_, hpreview, rfl, _⟩ := h
    exact hmid.trans (updateAssistantPreview_sameRuns hpreview)
  · cases h
    exact hmid

theorem v4FinalizeTurn_sameRuns (h : v4FinalizeTurn db rid state = .ok db') : SameRuns db db' := by
  unfold v4FinalizeTurn at h
  simp only [bind_ok_iff, ok.injEq] at h
  obtain ⟨_, _, _, _, rfl⟩ := h
  exact ⟨rfl, rfl, rfl, rfl⟩

theorem v4DeleteConversation_sameRuns {id : ConversationId}
    (h : v4DeleteConversation db id nowMs = .ok db') : SameRuns db db' := by
  unfold v4DeleteConversation at h
  simp only [bind_ok_iff, ok.injEq] at h
  obtain ⟨_, _, _, _, _, _, _, _, _, _, rfl⟩ := h
  exact ⟨rfl, rfl, rfl, rfl⟩

theorem syncMessageState_sameRuns (h : syncMessageState db rid next nowMs = .ok db') :
    SameRuns db db' := by
  unfold syncMessageState at h
  split at h
  · cases h
    exact .refl db
  · simp only at h
    split at h
    · cases h
      exact ⟨rfl, rfl, rfl, rfl⟩
    · split at h
      · cases h
        exact ⟨rfl, rfl, rfl, rfl⟩
      · split at h
        · rename_i hinsert
          cases h
          have hsame := insertContentEvent_sameRuns hinsert
          exact ⟨hsame.conversations, hsame.runs, hsame.runEvents, hsame.assistantTurns⟩
        · cases h
          exact ⟨rfl, rfl, rfl, rfl⟩
        · cases h

/-- The place after the last one is free. -/
theorem contentEvents_find_lastContent_succ (db : RunDb) (cid : ConversationId) :
    db.contentEvents.find (cid, lastContent db cid + 1) = none := by
  rw [find_eq_none_iff]
  intro event hevent hkey
  have hcid : event.conversationId = cid := congrArg Prod.fst hkey
  have hseq : event.sequence = lastContent db cid + 1 := congrArg Prod.snd hkey
  have hmem : event.sequence ∈ (db.contentEvents.rows.filter
      (fun e => e.conversationId = cid)).map ContentEvent.sequence :=
    mem_map.mpr ⟨event, mem_filter.mpr ⟨hevent, by simpa using hcid⟩, rfl⟩
  have hle : event.sequence ≤ lastContent db cid := le_max?_getD_of_mem hmem
  omega

theorem byteCount_terminal_le (state : RunState) : (terminal state).byteCount ≤ 32768 := by
  cases state <;> decide

/-- A terminal marker is stored, or the ledger of its conversation is full. -/
theorem insertContentEvent_terminal (db : RunDb) (cid : ConversationId) (rid : RunId)
    (hstate : state.isTerminal) (now : Instant) :
    (∃ db' event, insertContentEvent db cid rid (.terminal state) now.ms = .ok (db', event)) ∨
      insertContentEvent db cid rid (.terminal state) now.ms = .error .assistantConflict := by
  have hchrono := now.representable
  have hsql : sqlMs now.ms = .ok now.ms := by
    have hle : now.ms ≤ sqliteMax := by
      unfold chronoMaxMs at hchrono
      unfold sqliteMax
      omega
    rw [sqlMs, if_pos hle]
  have hsafe : v4Timestamp now.ms = .ok () := by
    have hle : now.ms ≤ maxSafeInteger := by
      unfold chronoMaxMs at hchrono
      unfold maxSafeInteger
      omega
    simp [v4Timestamp, hle]
  have hvalid : (terminal state).validate = .ok () := by
    simp [validate, hstate]
  have hbytes := byteCount_terminal_le state
  by_cases hfull : lastContent db cid + 1 ≤ maxSequence
  · left
    unfold insertContentEvent
    obtain ⟨events, hevents⟩ := insert?_of_find_none
      (t := db.contentEvents)
      (r := { conversationId := cid, sequence := lastContent db cid + 1, runId := rid
              kind := kindOf (.terminal state)
              byteCount := (terminal state).byteCount
              timestampMs := now.ms, payload := .terminal state })
      (contentEvents_find_lastContent_succ db cid)
    simp [hvalid, orElse, hfull, isTerminal, hsql, hbytes, hevents, hsafe]
  · right
    unfold insertContentEvent
    simp [hvalid, orElse, hfull]

/-- The projection of a transition never fails. -/
theorem syncMessageState_total (db : RunDb) (rid : RunId) (next : RunState)
    (now : Instant) : ∃ db', syncMessageState db rid next now.ms = .ok db' := by
  unfold syncMessageState
  split
  · exact ⟨_, rfl⟩
  · rename_i turn _
    simp only
    split
    · exact ⟨_, rfl⟩
    · rename_i hterminal
      have hstate : next.isTerminal := by simpa using hterminal
      split
      · exact ⟨_, rfl⟩
      · rcases insertContentEvent_terminal
          { db with
            assistantMessages := db.assistantMessages.modify (fun m => m.runId = rid)
              (AssistantMessage.settle next) (fun _ => rfl) }
          turn.conversationId rid hstate now with ⟨db', event, hok⟩ | hconflict
        · rw [hok]
          exact ⟨_, rfl⟩
        · rw [hconflict]
          exact ⟨_, rfl⟩

/-! ## Creation -/

/-- A run and its first event are inserted together. -/
theorem insertRun_eq_ok : insertRun db run = .ok db' ↔
      ∃ runs events, db.runs.insert? run = some runs ∧
        (∀ id, run.conversationId = some id → id ∈ db.conversations) ∧
        db.runEvents.insert? (queuedEvent run.id run.createdAt) = some events ∧
        db' = { db with runs, runEvents := events } := by
  unfold insertRun
  simp only [bind_ok_iff, required_eq_ok, ensure_eq_ok, ok.injEq]
  constructor
  · rintro ⟨runs, hruns, _, hconv, events, hevents, rfl⟩
    refine ⟨runs, events, hruns, ?_, hevents, rfl⟩
    intro id hid
    simpa [hid] using hconv
  · rintro ⟨runs, events, hruns, hconv, hevents, rfl⟩
    refine ⟨runs, hruns, (), ?_, events, hevents, rfl⟩
    cases hid : run.conversationId with
    | none => rfl
    | some id => simpa using hconv id hid

/-- `create_or_get_run` answers the stored run of the key when the digest
is the same, and creates it when there is none. -/
theorem createOrGetRun_eq_ok (h : createOrGetRun db newRun id now = .ok (db', run)) :
    (runByIdempotencyKey db newRun.idempotencyKey = some run ∧
        run.requestDigest = newRun.requestDigest ∧ db' = db) ∨
      (runByIdempotencyKey db newRun.idempotencyKey = none ∧
        run = queuedRun newRun id now ∧ insertRun db run = .ok db') := by
  unfold createOrGetRun at h
  rw [bind_ok_iff] at h
  obtain ⟨_, _, h⟩ := h
  split at h
  · rename_i existing hfound
    split at h
    · rename_i hdigest
      cases h
      exact .inl ⟨hfound, hdigest, rfl⟩
    · cases h
  · rename_i hnone
    simp only [bind_ok_iff, ok.injEq, Prod.mk.injEq] at h
    obtain ⟨_, hinsert, rfl, rfl⟩ := h
    exact .inr ⟨hnone, rfl, hinsert⟩

/-- The admission of a new turn writes the run, its event and the turn
binding. -/
theorem admitNewTurn_writes
    (h : admitNewTurn submitDigest db submit nowMs runId messageId = .ok (db', submission)) :
    ∃ created mid turns, nowMs = created.ms ∧
      insertRun db (queuedRun (turnRun submitDigest submit) runId created) = .ok mid ∧
      db.assistantTurns.insert?
        ⟨runId, submit.conversationId, submission.userMessageSequence, submit.routeId,
          messageId⟩ = some turns ∧
      db'.conversations = mid.conversations ∧ db'.runs = mid.runs ∧
      db'.runEvents = mid.runEvents ∧ db'.assistantTurns = turns ∧
      activeRuns db submit.conversationId = 0 ∧
      submission.conversationId = submit.conversationId ∧ submission.runId = runId ∧
      submission.idempotencyKey = submit.idempotencyKey ∧
      submission.state = .queued ∧ submission.duplicate = false ∧
      submission.validate = .ok () := by
  unfold admitNewTurn at h
  simp only [bind_ok_iff, required_eq_ok, ensure_eq_ok, stamp_eq_ok, ok.injEq,
    Prod.mk.injEq, decide_eq_true_eq, orElse_eq_ok] at h
  obtain ⟨_, _, row, _, _, hactive, _, _, created, hcreated, mid, hmid, _, _, now, _,
    messages, hmessages, turns, hturns, _, _, _, hvalid, rfl, rfl⟩ := h
  exact ⟨created, mid, turns, hcreated, hmid, hturns, rfl, rfl, rfl, rfl, hactive, rfl, rfl,
    rfl, rfl, rfl, hvalid⟩

/-- `v4_admit_turn` answers the stored turn of the key, or admits a new
one. -/
theorem v4AdmitTurn_eq_ok
    (h : v4AdmitTurn submitDigest db submit nowMs runId messageId = .ok (db', submission)) :
    (∃ existing, runByIdempotencyKey db submit.idempotencyKey = some existing ∧
        existing.requestDigest = submitDigest submit ∧
        existing.conversationId = some submit.conversationId ∧
        submission.runId = existing.id ∧ submission.state = existing.status ∧
        submission.duplicate ∧ db' = db) ∨
      (runByIdempotencyKey db submit.idempotencyKey = none ∧
        admitNewTurn submitDigest db submit nowMs runId messageId = .ok (db', submission)) := by
  unfold v4AdmitTurn at h
  rw [bind_ok_iff] at h
  obtain ⟨_, _, h⟩ := h
  split at h
  · rename_i existing hfound
    unfold duplicateSubmission at h
    simp only [bind_ok_iff, ensure_eq_ok, required_eq_ok, ok.injEq, Prod.mk.injEq,
      Bool.and_eq_true, decide_eq_true_eq] at h
    obtain ⟨_, ⟨_, ⟨hdigest, hconv⟩, _, _, _, _, rfl⟩, rfl, rfl⟩ := h
    exact .inl ⟨existing, hfound, hdigest, hconv, rfl, rfl, rfl, rfl⟩
  · rename_i hnone
    exact .inr ⟨hnone, h⟩

/-! ## Transitions -/

theorem unchanged_self (run : RunRecord) : run.unchanged run := by
  simp [unchanged]

theorem id_of_unchanged (h : run.unchanged row) : row.id = run.id := by
  simp only [unchanged, Bool.and_eq_true, decide_eq_true_eq] at h
  exact h.1.1

/-- The row under an identifier after a guarded update of a row that was
just read. -/
theorem find_modify_unchanged (hrun : db.runs.find run.id = some run) (id : RunId) :
    (db.runs.modify run.unchanged (advance next timestamp) (id_advance next timestamp)).find id =
      if id = run.id then some (run.advance next timestamp) else db.runs.find id := by
  rw [find_modify]
  split_ifs with hid
  · rw [hid, hrun, Option.map_some, if_pos (unchanged_self run)]
  · cases hrow : db.runs.find id with
    | none => rfl
    | some row =>
      rw [Option.map_some, if_neg]
      intro hun
      exact hid ((pk_of_find hrow).symm.trans (id_of_unchanged hun))

/-- What a committed update of a run writes. -/
structure Advanced (db db' : RunDb) (run : RunRecord) (next : RunState) (event : NewRunEvent)
    (timestamp : Instant) : Prop where
  runs : ∀ id, db'.runs.find id =
    if id = run.id then some (run.advance next timestamp) else db.runs.find id
  runEvents : db.runEvents.insert? (storedEvent run event timestamp) = some db'.runEvents
  conversations : db'.conversations = db.conversations
  assistantTurns : db'.assistantTurns = db.assistantTurns

theorem updateAndAppend_writes {event : NewRunEvent} (hrun : db.runs.find run.id = some run)
    (h : updateAndAppend db run next event timestamp marker = .ok (db', stored)) :
    Advanced db db' run next event timestamp ∧ stored = storedEvent run event timestamp := by
  have hone : (db.runs.rows.filter run.unchanged).length = 1 :=
    length_filter_eq_one hrun (unchanged_self run) (fun _ => id_of_unchanged)
  unfold updateAndAppend at h
  simp only [bind_ok_iff] at h
  obtain ⟨_, _, _, _, h⟩ := h
  rw [if_pos hone] at h
  simp only [bind_ok_iff, appendEvent, required_eq_ok, ok.injEq] at h
  obtain ⟨_, ⟨_, _, events, hevents, rfl⟩, synced, hsync, heq⟩ := h
  cases heq
  have hsame := syncMessageState_sameRuns hsync
  refine ⟨⟨?_, ?_, hsame.conversations, hsame.assistantTurns⟩, rfl⟩
  · intro id
    rw [hsame.runs]
    exact find_modify_unchanged hrun id
  · rw [hsame.runEvents]
    exact hevents

/-- The update of a row that was just read succeeds when its next sequence
is free and in range. -/
theorem updateAndAppend_total (next : RunState) (event : NewRunEvent) (timestamp marker : Instant)
    (hrun : db.runs.find run.id = some run)
    (hfree : db.runEvents.find (run.id, run.nextEventSequence) = none)
    (hrange : run.nextEventSequence + 1 ≤ sqliteMax) :
    ∃ db', updateAndAppend db run next event timestamp marker =
      .ok (db', storedEvent run event timestamp) := by
  have hone : (db.runs.rows.filter run.unchanged).length = 1 :=
    length_filter_eq_one hrun (unchanged_self run) (fun _ => id_of_unchanged)
  have hseq : sqlSequence run.nextEventSequence = .ok run.nextEventSequence := by
    rw [sqlSequence_eq_ok]
    exact ⟨by omega, rfl⟩
  have hsucc : sqlSequence (run.nextEventSequence + 1) = .ok (run.nextEventSequence + 1) := by
    rw [sqlSequence_eq_ok]
    exact ⟨hrange, rfl⟩
  obtain ⟨events, hevents⟩ := insert?_of_find_none (t := db.runEvents)
    (r := storedEvent run event timestamp) hfree
  obtain ⟨db', hdb'⟩ := syncMessageState_total
    { db with
      runs := db.runs.modify run.unchanged (advance next timestamp)
        (id_advance next timestamp)
      runEvents := events } run.id next marker
  refine ⟨db', ?_⟩
  unfold updateAndAppend appendEvent
  simp only [hseq, hsucc, ok_bind, if_pos hone, hevents, required_some, hdb']

/-- A committed transition found the run in the expected state, and moved
it along the graph with one event. -/
theorem transitionRun_writes {expected : RunState} {event : NewRunEvent}
    (h : transitionRun db id expected next event now marker = .ok (db', stored)) :
    ∃ run, db.runs.find id = some run ∧ run.status = expected ∧
      expected.allows next ∧ Advanced db db' run next event now := by
  unfold transitionRun at h
  simp only [bind_ok_iff, required_eq_ok, ensure_eq_ok, decide_eq_true_eq] at h
  obtain ⟨_, _, run, hrun, _, hstatus, _, _, _, hallows, hupdate⟩ := h
  have hid : run.id = id := pk_of_find hrun
  have hfind : db.runs.find run.id = some run := by rw [hid]; exact hrun
  exact ⟨run, hrun, hstatus, hstatus ▸ hallows, (updateAndAppend_writes hfind hupdate).1⟩

end Abbey.Run
