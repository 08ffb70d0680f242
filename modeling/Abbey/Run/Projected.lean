import Abbey.Run.Calls

/-!
# What the calls write to the assistant tables

`Abbey.Run.Writes` describes the run tables and hides the assistant
tables behind a frame.  This module is the other half: one lemma for each
function of `v4_turn.rs`, and `TurnWrite`, which says once what a call can
do to the turns, the messages and the content events.

A transition projects its state onto the messages of the turn and may
store a terminal marker.  `Projected` has the four cases of that
projection; `full` is the refusal that the source swallows.

`turnWrites_of_commit` is the bridge: a committed call is a sequence of
such writes, several of them only in a recovery.
-/

namespace Abbey.Run

open Abbey.Lib StoreCall Table List V4ContentPayload Except

variable {turn : AssistantTurn} {event : ContentEvent} {cid : ConversationId}
  {messageId nowMs : Nat} {db db' : RunDb} {rid : RunId} {next : RunState} {call : StoreCall}
  {delta : String} {payload : V4ContentPayload} {submitDigest : V4SubmitTurn → String}

/-! ## Content events -/

/-- The event that `insertContentEvent` stores. -/
def nextContent (db : RunDb) (cid : ConversationId) (rid : RunId) (payload : V4ContentPayload)
    (nowMs : Nat) : ContentEvent where
  conversationId := cid
  sequence := lastContent db cid + 1
  runId := rid
  kind := kindOf payload
  byteCount := payload.byteCount
  timestampMs := nowMs
  payload := payload

/-- A content event is stored at the next place of its conversation. -/
structure Stored (db db' : RunDb) (cid : ConversationId) (rid : RunId)
    (payload : V4ContentPayload) (nowMs : Nat) : Prop where
  valid : payload.validate = .ok ()
  place : lastContent db cid + 1 ≤ maxSequence
  reserved : payload.isTerminal = true ∨ lastContent db cid + 1 ≠ maxSequence
  contents : db.contentEvents.insert? (nextContent db cid rid payload nowMs) =
    some db'.contentEvents

theorem insertContentEvent_writes
    (h : insertContentEvent db cid rid payload nowMs = .ok (db', event)) :
    Stored db db' cid rid payload nowMs ∧ db'.assistantMessages = db.assistantMessages ∧
      db'.assistantConversations = db.assistantConversations := by
  unfold insertContentEvent at h
  simp only [bind_ok_iff, orElse_eq_ok, ensure_eq_ok, required_eq_ok, sqlMs, ok.injEq,
    Prod.mk.injEq, decide_eq_true_eq, Bool.or_eq_true] at h
  obtain ⟨_, hvalid, _, hplace, _, hreserved, now, hnow, _, _, events, hinsert, _, _, rfl, _⟩ := h
  split_ifs at hnow
  cases hnow
  refine ⟨⟨hvalid, hplace, ?_, hinsert⟩, rfl, rfl⟩
  simpa using hreserved

/-! ## The projection of a transition -/

theorem settle_id (next : RunState) (m : AssistantMessage) : (m.settle next).id = m.id := rfl

/-- The messages of a turn in a new state. -/
def settleAll (db : RunDb) (rid : RunId) (next : RunState) : Table AssistantMessage.id :=
  db.assistantMessages.modify (fun m => m.runId = rid) (AssistantMessage.settle next)
    (settle_id next)

/-- What a transition of a run to a state does to the assistant tables. -/
inductive Projected (db db' : RunDb) (rid : RunId) (next : RunState) : Prop where
  | unbound (turn : db.assistantTurns.find rid = none)
      (messages : db'.assistantMessages = db.assistantMessages)
      (contents : db'.contentEvents = db.contentEvents)
  | open_ (turn : AssistantTurn) (bound : db.assistantTurns.find rid = some turn)
      (messages : db'.assistantMessages = settleAll db rid next)
      (settled : next.isTerminal = false ∨ ∃ event ∈ db.contentEvents.rows,
        event.runId = rid ∧ event.kind.isMarker = true)
      (contents : db'.contentEvents = db.contentEvents)
  | marked (turn : AssistantTurn) (bound : db.assistantTurns.find rid = some turn)
      (messages : db'.assistantMessages = settleAll db rid next)
      (terminal : next.isTerminal = true)
      (unmarked : ∀ event ∈ db.contentEvents.rows, event.runId = rid →
        event.kind.isMarker = false)
      (nowMs : Nat) (stored : Stored db db' turn.conversationId rid (.terminal next) nowMs)
  | full (turn : AssistantTurn) (bound : db.assistantTurns.find rid = some turn)
      (messages : db'.assistantMessages = settleAll db rid next)
      (terminal : next.isTerminal = true) (last : maxSequence ≤ lastContent db turn.conversationId)
      (contents : db'.contentEvents = db.contentEvents)

/-- Only a full ledger refuses a terminal marker with a conflict. -/
theorem full_of_conflict
    (h : insertContentEvent db cid rid (.terminal next) nowMs = .error .assistantConflict) :
    maxSequence ≤ lastContent db cid := by
  by_contra hroom
  have hplace : lastContent db cid + 1 ≤ maxSequence := by omega
  obtain ⟨events, hevents⟩ := insert?_of_find_none
    (t := db.contentEvents) (r := nextContent db cid rid (.terminal next) nowMs)
    (contentEvents_find_lastContent_succ db cid)
  have hbytes := byteCount_terminal_le next
  unfold insertContentEvent at h
  cases hvalid : (terminal next).validate with
  | error e => simp [orElse, hvalid] at h
  | ok u =>
    by_cases hnow : nowMs ≤ sqliteMax
    · have hinsert : db.contentEvents.insert?
          { conversationId := cid, sequence := lastContent db cid + 1, runId := rid
            kind := kindOf (.terminal next)
            byteCount := (terminal next).byteCount
            timestampMs := nowMs, payload := .terminal next } = some events := hevents
      simp only [hvalid, orElse, hplace, isTerminal, sqlMs, hnow, hbytes,
        hinsert, ok_bind, decide_true, ensure_true, Bool.true_or, if_true, required_some] at h
      split at h <;> simp at h
    · simp [hvalid, orElse, hplace, isTerminal, sqlMs, hnow] at h

theorem syncMessageState_writes (h : syncMessageState db rid next nowMs = .ok db') :
    Projected db db' rid next ∧ db'.assistantConversations = db.assistantConversations := by
  unfold syncMessageState at h
  split at h
  · rename_i hturn
    cases h
    exact ⟨.unbound hturn rfl rfl, rfl⟩
  · rename_i turn hturn
    simp only at h
    split at h
    · rename_i hterminal
      cases h
      exact ⟨.open_ turn hturn rfl (.inl (by simpa using hterminal)) rfl, rfl⟩
    · rename_i hterminal
      have hnext : next.isTerminal := by simpa using hterminal
      split at h
      · rename_i hmarked
        cases h
        refine ⟨.open_ turn hturn rfl (.inr ?_) rfl, rfl⟩
        simpa [any_eq_true] using hmarked
      · rename_i hunmarked
        have hnone : ∀ event ∈ db.contentEvents.rows, event.runId = rid →
            event.kind.isMarker = false := by
          intro event hevent hrid
          simp only [any_eq_true, not_exists, not_and] at hunmarked
          simpa [hrid] using hunmarked event hevent
        split at h
        · rename_i after event hinsert
          cases h
          obtain ⟨hstored, hmessages, hconversations⟩ := insertContentEvent_writes hinsert
          exact ⟨.marked turn hturn hmessages hnext hnone nowMs
            ⟨hstored.valid, hstored.place, hstored.reserved, hstored.contents⟩, hconversations⟩
        · rename_i hconflict
          cases h
          have hlast := full_of_conflict hconflict
          exact ⟨.full turn hturn rfl hnext hlast rfl, rfl⟩
        · cases h

/-! ## Writes -/

/-- The transcript of a conversation was deleted. -/
def isDeleted (db : RunDb) (cid : ConversationId) : Bool :=
  (db.assistantConversations.find cid).any AssistantConversation.deleted

/-- A new turn with its run and its user message. -/
structure Opened (submitDigest : V4SubmitTurn → String) (db db' : RunDb) (submit : V4SubmitTurn)
    (id : RunId) (messageId : Nat) (created : Instant) : Prop where
  unknown : runByIdempotencyKey db submit.idempotencyKey = none
  valid : submit.validate = .ok ()
  live : isDeleted db submit.conversationId = false
  idle : activeRuns db submit.conversationId = 0
  room : lastContent db submit.conversationId ≤ maxSequence - 2
  runs : db.runs.insert? (queuedRun (turnRun submitDigest submit) id created) = some db'.runs
  messages : db.assistantMessages.insert? (userMessage submit id messageId
    (nextMessageSequence db submit.conversationId) created.ms) = some db'.assistantMessages
  turns : db.assistantTurns.insert? ⟨id, submit.conversationId,
    nextMessageSequence db submit.conversationId, submit.routeId, messageId⟩ =
      some db'.assistantTurns
  contents : db'.contentEvents = db.contentEvents
  deleted : ∀ cid, isDeleted db' cid = isDeleted db cid

/-- The text that a preview keeps of a delta. -/
def previewBody (existing : Option AssistantMessage) (delta : String) : String :=
  let body := (existing.map AssistantMessage.body).getD ""
  if existing.all (fun m => m.body.utf8ByteSize = m.textBytes) then
    body ++ String.ofList (charPrefix delta.toList (16 * 1024 - body.utf8ByteSize))
  else body

/-- The bytes of a reply after a delta. -/
def previewBytes (existing : Option AssistantMessage) (delta : String) : Nat :=
  (existing.map AssistantMessage.textBytes).getD 0 + delta.utf8ByteSize

/-- A message with a longer preview. -/
def AssistantMessage.extend (body : String) (textBytes : Nat) (m : AssistantMessage) :
    AssistantMessage :=
  { m with body, textBytes, textComplete := false, state := .running }

/-- What a delta does to the messages of its turn. -/
inductive Previewed (db db' : RunDb) (turn : AssistantTurn) (delta : String) : Prop where
  | extended (m : AssistantMessage) (found : assistantMessageOf db turn.runId = some m)
      (messages : db'.assistantMessages = db.assistantMessages.modify
        (fun m => m.runId = turn.runId && m.role = .assistant)
        (AssistantMessage.extend (previewBody (some m) delta) (previewBytes (some m) delta))
        (fun _ => rfl))
  | started (found : assistantMessageOf db turn.runId = none) (messageId now : Nat)
      (messages : db.assistantMessages.insert?
        { id := messageId, conversationId := turn.conversationId, runId := turn.runId
          role := .assistant, sequence := nextMessageSequence db turn.conversationId
          body := previewBody none delta, textBytes := previewBytes none delta
          textComplete := false, state := .running, createdAtMs := now } =
            some db'.assistantMessages)

/-- A condition on the contents that are appended to a run. -/
abbrev AppendCond := RunDb → RunRecord → V4ContentPayload → Prop

/-- What the callers of a conversation have been told: a turn was admitted
under a new run, a delta was accepted. -/
inductive TurnEvent where
  | admitted (id : RunId) (submit : V4SubmitTurn)
  | emitted (id : RunId) (text : String)

/-- The event of an accepted payload. -/
def emittedOf (id : RunId) : V4ContentPayload → List TurnEvent
  | .textDelta text => [.emitted id text]
  | _ => []

/-- The database with the history of its conversations, oldest first. -/
structure Turns where
  db : RunDb
  log : List TurnEvent

variable {I : Turns → Prop}

/-- One write, as the assistant tables and the runs see it.  `P` is a
condition on the contents that it appends. -/
inductive TurnWrite (submitDigest : V4SubmitTurn → String) (P : AppendCond) (s s' : Turns) :
    Prop where
  | identity (runs : s'.db.runs = s.db.runs)
      (turns : s'.db.assistantTurns = s.db.assistantTurns)
      (messages : s'.db.assistantMessages = s.db.assistantMessages)
      (contents : s'.db.contentEvents = s.db.contentEvents)
      (deleted : ∀ cid, isDeleted s'.db cid = isDeleted s.db cid) (log : s'.log = s.log)
  | run (newRun : NewRun) (id : RunId) (now : Instant)
      (runs : s.db.runs.insert? (queuedRun newRun id now) = some s'.db.runs)
      (turns : s'.db.assistantTurns = s.db.assistantTurns)
      (messages : s'.db.assistantMessages = s.db.assistantMessages)
      (contents : s'.db.contentEvents = s.db.contentEvents)
      (deleted : ∀ cid, isDeleted s'.db cid = isDeleted s.db cid) (log : s'.log = s.log)
  | opened (submit : V4SubmitTurn) (id : RunId) (messageId : Nat) (created : Instant)
      (h : Opened submitDigest s.db s'.db submit id messageId created)
      (log : s'.log = s.log ++ [.admitted id submit])
  | moved (run : RunRecord) (next : RunState) (now : Instant)
      (found : s.db.runs.find run.id = some run) (allows : run.status.allows next = true)
      (runs : ∀ id, s'.db.runs.find id =
        if id = run.id then some (run.advance next now) else s.db.runs.find id)
      (turns : s'.db.assistantTurns = s.db.assistantTurns)
      (deleted : ∀ cid, isDeleted s'.db cid = isDeleted s.db cid)
      (projected : Projected s.db s'.db run.id next) (log : s'.log = s.log)
  | appended (run : RunRecord) (turn : AssistantTurn) (payload : V4ContentPayload) (nowMs : Nat)
      (found : s.db.runs.find turn.runId = some run) (active : run.status.isTerminal = false)
      (cond : P s.db run payload)
      (bound : s.db.assistantTurns.find turn.runId = some turn)
      (stored : Stored s.db s'.db turn.conversationId turn.runId payload nowMs)
      (runs : s'.db.runs = s.db.runs) (turns : s'.db.assistantTurns = s.db.assistantTurns)
      (deleted : ∀ cid, isDeleted s'.db cid = isDeleted s.db cid)
      (preview : ∀ text, payload = .textDelta text →
        Previewed s.db s'.db turn text ∧ previewBytes (assistantMessageOf s.db turn.runId) text ≤
          maxV4ContentBytes)
      (silent : (∀ text, payload ≠ .textDelta text) →
        s'.db.assistantMessages = s.db.assistantMessages)
      (log : s'.log = s.log ++ emittedOf turn.runId payload)
  | finalized (run : RunRecord) (found : s.db.runs.find run.id = some run)
      (terminal : run.status.isTerminal = true) (runs : s'.db.runs = s.db.runs)
      (turns : s'.db.assistantTurns = s.db.assistantTurns)
      (messages : s'.db.assistantMessages = s.db.assistantMessages.modify
        (fun m => m.runId = run.id && m.role = .assistant)
        (AssistantMessage.settle run.status) (fun _ => rfl))
      (contents : s'.db.contentEvents = s.db.contentEvents)
      (deleted : ∀ cid, isDeleted s'.db cid = isDeleted s.db cid) (log : s'.log = s.log)
  | deleted (cid : ConversationId) (idle : activeRuns s.db cid = 0)
      (runs : s'.db.runs = s.db.runs) (turns : s'.db.assistantTurns = s.db.assistantTurns)
      (messages : s'.db.assistantMessages = s.db.assistantMessages.delete
        (fun m => m.conversationId = cid))
      (contents : s'.db.contentEvents =
        s.db.contentEvents.delete (fun e => e.conversationId = cid))
      (deleted : ∀ id, isDeleted s'.db id = (id = cid || isDeleted s.db id))
      (log : s'.log = s.log)

/-- Several writes. -/
abbrev TurnWrites (submitDigest : V4SubmitTurn → String) (P : AppendCond) : Turns → Turns → Prop :=
  Relation.ReflTransGen (TurnWrite submitDigest P)

/-- What a call tells when it commits. -/
def StoreCall.told (db : RunDb) : StoreCall → List TurnEvent
  | .admitTurn submit _ id _ =>
    if (runByIdempotencyKey db submit.idempotencyKey).isNone then [.admitted id submit] else []
  | .appendContent id payload _ _ => emittedOf id payload
  | _ => []

/-- What a call adds to the history. -/
def observe (submitDigest : V4SubmitTurn → String) (db : RunDb) (call : StoreCall) :
    List TurnEvent :=
  match call.commit submitDigest db with
  | .error _ => []
  | .ok _ => call.told db

/-- The transition system of the calls with the history. -/
def turnStep (submitDigest : V4SubmitTurn → String) (s : Turns) (call : StoreCall) :
    Option Turns :=
  some ⟨call.apply submitDigest s.db, s.log ++ observe submitDigest s.db call⟩

def Turns.initial : Turns := ⟨.empty, []⟩

/-- The condition on what a call would append. -/
def StoreCall.Appends (P : AppendCond) (db : RunDb) : StoreCall → Prop
  | .appendContent id payload _ _ =>
    ∀ run, db.runs.find id = some run → run.status.isTerminal = false → P db run payload
  | _ => True

/-! ## What each call writes -/

theorem conversationRow_eq_some (h : conversationRow db cid = .ok (some row)) :
    db.assistantConversations.find cid = some row ∧ row.deleted = false := by
  unfold conversationRow at h
  split at h
  · cases h
  · rename_i found hfound
    split_ifs at h with hdeleted
    · cases h
    · obtain ⟨_, _, heq⟩ := bind_ok_iff.mp h
      cases heq
      exact ⟨hfound, by simpa using hdeleted⟩

theorem isDeleted_congr (h : db'.assistantConversations = db.assistantConversations)
    (cid : ConversationId) : isDeleted db' cid = isDeleted db cid := by
  unfold isDeleted
  rw [h]

theorem opened_of_admitNewTurn {id : RunId}
    (hunknown : runByIdempotencyKey db submit.idempotencyKey = none)
    (hvalid : submit.validate = .ok ())
    (h : admitNewTurn submitDigest db submit nowMs id messageId = .ok (db', submission)) :
    ∃ created, Opened submitDigest db db' submit id messageId created := by
  unfold admitNewTurn at h
  simp only [bind_ok_iff, required_eq_ok, ensure_eq_ok, stamp_eq_ok, ok.injEq,
    Prod.mk.injEq, decide_eq_true_eq, orElse_eq_ok, insertRun_eq_ok, sqlMs] at h
  obtain ⟨_, hrow, row, rfl, _, hidle, _, hroom, created, rfl, _,
    ⟨runs, events, hruns, _, _, rfl⟩, _, _, now, hnow, messages, hmessages, turns, hturns, _, _,
    _, _, rfl, rfl⟩ := h
  split_ifs at hnow
  cases hnow
  obtain ⟨hfound, hlive⟩ := conversationRow_eq_some hrow
  refine ⟨created, hunknown, hvalid, by simp [isDeleted, hfound, hlive], hidle, hroom, hruns,
    hmessages, hturns, rfl, ?_⟩
  intro cid
  unfold isDeleted
  rw [find_modify]
  cases db.assistantConversations.find cid with
  | none => rfl
  | some found =>
    simp only [Option.map_some, Option.any_some]
    split_ifs <;> rfl

theorem Previewed.congr (hmessages : mid.assistantMessages = db.assistantMessages)
    (h : Previewed mid db' turn delta) : Previewed db db' turn delta := by
  have hfound : assistantMessageOf mid turn.runId = assistantMessageOf db turn.runId := by
    unfold assistantMessageOf
    rw [hmessages]
  have hnext : nextMessageSequence mid turn.conversationId =
      nextMessageSequence db turn.conversationId := by
    unfold nextMessageSequence
    rw [hmessages]
  cases h with
  | extended m found messages =>
    rw [hmessages] at messages
    exact .extended m (hfound ▸ found) messages
  | started found messageId now messages =>
    rw [hmessages, hnext] at messages
    exact .started (hfound ▸ found) messageId now messages

theorem updateAssistantPreview_writes (hturn : db.assistantTurns.find turn.runId = some turn)
    (h : updateAssistantPreview db turn.runId delta nowMs messageId = .ok db') :
    Previewed db db' turn delta ∧
      previewBytes (assistantMessageOf db turn.runId) delta ≤ maxV4ContentBytes ∧
      db'.contentEvents = db.contentEvents ∧
      db'.assistantConversations = db.assistantConversations := by
  unfold updateAssistantPreview at h
  simp only [bind_ok_iff, ensure_eq_ok, decide_eq_true_eq] at h
  obtain ⟨_, htotal, h⟩ := h
  split at h
  · rename_i m hm
    cases h
    refine ⟨.extended m hm ?_, htotal, rfl, rfl⟩
    rw [hm]
    rfl
  · rename_i hm
    simp only [bind_ok_iff, required_eq_ok, ok.injEq, sqlMs] at h
    obtain ⟨found, hfound, now, hnow, rows, hrows, rfl⟩ := h
    rw [hturn] at hfound
    cases hfound
    refine ⟨.started hm messageId now ?_, htotal, rfl, rfl⟩
    rw [hm] at hrows
    exact hrows

variable {P : AppendCond}
variable (log : List TurnEvent)

theorem turnWrite_of_append
    (hP : ∀ run, db.runs.find rid = some run → run.status.isTerminal = false → P db run payload)
    (h : v4AppendContent db rid payload nowMs messageId = .ok (db', event)) :
    TurnWrite submitDigest P ⟨db, log⟩ ⟨db', log ++ emittedOf rid payload⟩ := by
  have hsame := v4AppendContent_sameRuns h
  unfold v4AppendContent at h
  simp only [bind_ok_iff, required_eq_ok, ensure_eq_ok, Bool.not_eq_eq_eq_not, Bool.not_true] at h
  obtain ⟨run, hrun, _, hactive, turn, hturn, ⟨mid, stored⟩, hinsert, h⟩ := h
  have hrid : turn.runId = rid := pk_of_find hturn
  subst hrid
  obtain ⟨hstored, hmessages, hconversations⟩ := insertContentEvent_writes hinsert
  split at h
  · rename_i text
    simp only [bind_ok_iff, ok.injEq, Prod.mk.injEq] at h
    obtain ⟨_, hpreview, rfl, _⟩ := h
    have hturn' : mid.assistantTurns.find turn.runId = some turn := by
      rw [(insertContentEvent_sameRuns hinsert).assistantTurns]
      exact hturn
    have hfound : assistantMessageOf mid turn.runId = assistantMessageOf db turn.runId := by
      unfold assistantMessageOf
      rw [hmessages]
    obtain ⟨hprev, hbytes, hcontents, hconv⟩ := updateAssistantPreview_writes hturn' hpreview
    refine .appended run turn _ nowMs hrun hactive (hP run hrun hactive) hturn ?_ hsame.runs hsame.assistantTurns
      (isDeleted_congr (hconv.trans hconversations)) ?_ (fun hne => absurd rfl (hne text)) rfl
    · refine ⟨hstored.valid, hstored.place, hstored.reserved, ?_⟩
      rw [hcontents]
      exact hstored.contents
    · intro other heq
      cases heq
      exact ⟨hprev.congr hmessages, hfound ▸ hbytes⟩
  · rename_i hne
    cases h
    exact .appended run turn payload nowMs hrun hactive (hP run hrun hactive) hturn hstored hsame.runs
      hsame.assistantTurns (isDeleted_congr hconversations) (fun text heq => absurd heq (hne text))
      (fun _ => hmessages) rfl

/-- A transition of a row that was just read. -/
theorem turnWrite_of_update {run : RunRecord} {event : NewRunEvent}
    (hrun : db.runs.find run.id = some run) (hallows : run.status.allows next)
    (h : updateAndAppend db run next event timestamp marker = .ok (db', stored)) :
    TurnWrite submitDigest P ⟨db, log⟩ ⟨db', log⟩ := by
  have hadv := (updateAndAppend_writes hrun h).1
  have hone : (db.runs.rows.filter run.unchanged).length = 1 :=
    length_filter_eq_one hrun (unchanged_self run) (fun _ => id_of_unchanged)
  unfold updateAndAppend at h
  simp only [bind_ok_iff] at h
  obtain ⟨_, _, _, _, h⟩ := h
  rw [if_pos hone] at h
  simp only [bind_ok_iff, appendEvent, required_eq_ok, ok.injEq] at h
  obtain ⟨_, ⟨_, _, events, hevents, rfl⟩, synced, hsync, heq⟩ := h
  cases heq
  obtain ⟨hprojected, hconversations⟩ := syncMessageState_writes hsync
  refine .moved run next timestamp hrun hallows hadv.runs hadv.assistantTurns
    (isDeleted_congr hconversations) ?_ rfl
  -- the projection reads none of the run tables
  cases hprojected with
  | unbound turn messages contents => exact .unbound turn messages contents
  | open_ turn bound messages settled contents =>
    exact .open_ turn bound messages settled contents
  | marked turn bound messages terminal unmarked nowMs stored =>
    exact .marked turn bound messages terminal unmarked nowMs
      ⟨stored.valid, stored.place, stored.reserved, stored.contents⟩
  | full turn bound messages terminal last contents =>
    exact .full turn bound messages terminal last contents

theorem turnWrites_of_interruptAll (hnodup : ids.Nodup)
    (hactive : ∀ id ∈ ids, ∃ run, db.runs.find id = some run ∧ run.status.isActive)
    (h : interruptAll now marker db ids = .ok db') :
    TurnWrites submitDigest P ⟨db, log⟩ ⟨db', log⟩ := by
  induction ids generalizing db with
  | nil =>
    cases h
    exact .refl
  | cons first rest ih =>
    obtain ⟨hfirst, hrest⟩ := nodup_cons.mp hnodup
    unfold interruptAll at h
    simp only [bind_ok_iff, required_eq_ok] at h
    obtain ⟨run, hrun, ⟨mid, stored⟩, hupdate, hloop⟩ := h
    have hrid : run.id = first := pk_of_find hrun
    have hfind : db.runs.find run.id = some run := by
      rw [hrid]
      exact hrun
    obtain ⟨found, hfound, hact⟩ := hactive first mem_cons_self
    have heq : found = run := Option.some.inj (hfound.symm.trans hrun)
    subst heq
    have hadv := (updateAndAppend_writes hfind hupdate).1
    refine .head (turnWrite_of_update log hfind (isActive_allows_interrupted hact) hupdate)
      (ih hrest ?_ hloop)
    intro id hid
    rw [hadv.runs, if_neg]
    · exact hactive id (mem_cons_of_mem _ hid)
    · rintro rfl
      exact hfirst (hrid ▸ hid)

/-- A new assistant row changes nothing else. -/
theorem turnWrite_of_insertConversation {id : ConversationId}
    (h : insertConversation db id title imported nowMs known = .ok db') :
    TurnWrite submitDigest P ⟨db, log⟩ ⟨db', log⟩ := by
  simp only [insertConversation, bind_ok_iff, required_eq_ok, ok.injEq] at h
  obtain ⟨_, _, _, _, _, _, _, _, rows, hrows, _, _, _, _, rfl⟩ := h
  refine .identity rfl rfl rfl rfl ?_ rfl
  intro cid
  unfold isDeleted
  rw [find_insert hrows]
  split_ifs with hcid
  · have hfree : db.assistantConversations.find cid = none := by
      rw [← hcid]
      exact (insert?_eq_some_iff.mp hrows).1
    simp only [hfree]
    rfl
  · rfl

/-- A committed call is a sequence of writes. -/
theorem turnWrites_of_commit (hP : call.Appends P db) (h : call.commit submitDigest db = .ok db') :
    TurnWrites submitDigest P ⟨db, log⟩ ⟨db', log ++ observe submitDigest db call⟩ := by
  have hlog : observe submitDigest db call = call.told db := by
    simp only [observe, h]
  rw [hlog]
  cases call with
  | createConversation id =>
    cases h
    refine .single (.identity ?_ ?_ ?_ ?_ ?_ (append_nil log)) <;>
      (simp only [createConversation]; split_ifs) <;> first | rfl | exact fun _ => rfl
  | createOrGetRun newRun id now =>
    obtain ⟨run, hrun⟩ := map_fst_eq_ok h
    simp only [told, append_nil]
    rcases createOrGetRun_eq_ok hrun with ⟨_, _, rfl⟩ | ⟨_, rfl, hinsert⟩
    · exact .refl
    · obtain ⟨runs, events, hruns, _, _, rfl⟩ := insertRun_eq_ok.mp hinsert
      exact .single (.run newRun id now hruns rfl rfl rfl (fun _ => rfl) rfl)
  | admitTurn submit nowMs runId messageId =>
    obtain ⟨submission, hcall⟩ := map_fst_eq_ok h
    have hvalid : submit.validate = .ok () := by
      unfold v4AdmitTurn at hcall
      rw [bind_ok_iff] at hcall
      obtain ⟨_, hvalid, _⟩ := hcall
      exact orElse_eq_ok.mp hvalid
    rcases v4AdmitTurn_eq_ok hcall with ⟨_, hsome, _, _, _, _, _, rfl⟩ | ⟨hnone, hnew⟩
    · simp only [told, hsome, Option.isNone_some, Bool.false_eq_true, if_false, append_nil]
      exact .refl
    · obtain ⟨created, hopened⟩ := opened_of_admitNewTurn hnone hvalid hnew
      simp only [told, hnone, Option.isNone_none, if_true]
      exact .single (.opened submit runId messageId created hopened rfl)
  | transition id expected move clockMs now marker =>
    obtain ⟨stored, htransition⟩ := map_fst_eq_ok h
    unfold transitionRun at htransition
    simp only [bind_ok_iff, required_eq_ok, ensure_eq_ok, decide_eq_true_eq] at htransition
    obtain ⟨_, _, run, hrun, _, _, _, _, _, hallows, hupdate⟩ := htransition
    have hid : run.id = id := pk_of_find hrun
    have hfind : db.runs.find run.id = some run := by
      rw [hid]
      exact hrun
    simp only [told, append_nil]
    exact .single (turnWrite_of_update log hfind hallows hupdate)
  | recover now marker =>
    obtain ⟨count, hrecover⟩ := map_fst_eq_ok h
    unfold recoverInterruptedOn at hrecover
    simp only [bind_ok_iff, ok.injEq, Prod.mk.injEq] at hrecover
    obtain ⟨_, hloop, rfl, _⟩ := hrecover
    simp only [told, append_nil]
    exact turnWrites_of_interruptAll log (interruptedIds_nodup db)
      (fun id hid => mem_interruptedIds.mp hid) hloop
  | appendContent id payload nowMs messageId =>
    obtain ⟨event, happend⟩ := map_fst_eq_ok h
    exact .single (turnWrite_of_append log hP happend)
  | finalizeTurn id state =>
    simp only [commit, v4FinalizeTurn, bind_ok_iff, required_eq_ok, ensure_eq_ok,
      Bool.and_eq_true, decide_eq_true_eq, ok.injEq] at h
    obtain ⟨run, hrun, _, ⟨hterminal, hstatus⟩, rfl⟩ := h
    have hid : run.id = id := pk_of_find hrun
    subst hstatus
    subst hid
    simp only [told, append_nil]
    exact .single (.finalized run hrun hterminal rfl rfl rfl rfl (fun _ => rfl) rfl)
  | createAssistantConversation id title nowMs =>
    simp only [told, append_nil]
    exact .single (turnWrite_of_insertConversation log h)
  | deleteAssistantConversation id nowMs =>
    simp only [commit, v4DeleteConversation, bind_ok_iff, required_eq_ok, ensure_eq_ok,
      decide_eq_true_eq, ok.injEq] at h
    obtain ⟨_, hrow, row, rfl, _, hidle, now, _, _, _, rfl⟩ := h
    have hfound := (conversationRow_eq_some hrow).1
    simp only [told, append_nil]
    refine .single (.deleted id hidle rfl rfl rfl rfl ?_ rfl)
    intro cid
    unfold isDeleted
    rw [find_modify]
    by_cases hcid : cid = id
    · subst hcid
      have hid : row.id = cid := pk_of_find hfound
      simp [hfound, hid]
    · cases hother : db.assistantConversations.find cid with
      | none => simp [hcid]
      | some other =>
        have hid : other.id ≠ id := fun h => hcid ((pk_of_find hother).symm.trans h)
        simp [hid, hcid]

/-- What one write keeps, every call keeps. -/
theorem TurnWrites.invariant (hstep : ∀ s s', I s → TurnWrite submitDigest P s s' → I s')
    (h : TurnWrites submitDigest P s s') (hs : I s) : I s' := by
  induction h with
  | refl => exact hs
  | tail _ hwrite ih => exact hstep _ _ ih hwrite

/-- A call that fails writes nothing and tells nothing. -/
theorem turnWrites_of_step (hP : call.Appends P s.db)
    (h : turnStep submitDigest s call = some s') : TurnWrites submitDigest P s s' := by
  cases h
  cases hcommit : call.commit submitDigest s.db with
  | error e =>
    have happly : call.apply submitDigest s.db = s.db := by
      simp [apply, hcommit]
    have hobserve : observe submitDigest s.db call = [] := by
      simp [observe, hcommit]
    simp only [happly, hobserve, append_nil]
    exact .refl
  | ok db' =>
    have happly : call.apply submitDigest s.db = db' := by
      simp [apply, hcommit]
    rw [happly]
    exact turnWrites_of_commit s.log hP hcommit

/-- An invariant of every write with the condition holds in every run whose
calls meet the condition. -/
theorem turns_invariant (hempty : I .initial)
    (hstep : ∀ s s', I s → TurnWrite submitDigest P s s' → I s')
    (h : Steps (turnStep submitDigest) (fun s call => call.Appends P s.db) .initial s) : I s := by
  refine h.invariant ?_ hempty
  intro s call s' hs hP hcall
  exact (turnWrites_of_step hP hcall).invariant hstep hs

/-- The same without the history. -/
theorem reachable_invariant {I : RunDb → Prop} (hempty : I .empty)
    (hstep : ∀ s s', I s.db → TurnWrite submitDigest P s s' → I s'.db)
    (h : Steps (callStep submitDigest) (fun db call => call.Appends P db) .empty db) : I db := by
  refine h.invariant ?_ hempty
  intro db call db' hdb hP hcall
  cases hcall
  rcases apply_cases submitDigest db call with heq | hcommit
  · rw [heq]
    exact hdb
  · exact (turnWrites_of_commit [] hP hcommit).invariant (I := fun s => I s.db) hstep hdb

/-! ## A streamed turn -/

def notesId : ConversationId := ⟨7⟩

def notesTurn : V4SubmitTurn where
  conversationId := notesId
  idempotencyKey := ⟨"turn-1", by decide⟩
  routeId := "local"
  input := "hello"

/-- A clock reading. -/
def tick (ms : Nat) (h : ms ≤ chronoMaxMs := by decide) : Instant := ⟨ms, h⟩

def moveRun (id : RunId) (expected : RunState) (move : Move) (ms : Nat)
    (h : ms ≤ chronoMaxMs := by decide) : StoreCall :=
  .transition id expected move 5 (tick ms h) (tick ms h)

theorem started_leads : Evidence.leadsTo .started .running = true := rfl

theorem six_representable : 6 ≤ chronoMaxMs := by decide

/-- A turn that a worker runs, with one delta. -/
def streamedCalls : List StoreCall :=
  [.createAssistantConversation notesId "notes" 5,
    .admitTurn notesTurn 5 ⟨1⟩ 1,
    moveRun ⟨1⟩ .queued ⟨.starting, .starting, starting_leads⟩ 6 six_representable,
    moveRun ⟨1⟩ .starting ⟨.started, .running, started_leads⟩ 7,
    .appendContent ⟨1⟩ (.textDelta "hi") 8 2]

def applyCalls (calls : List StoreCall) : RunDb :=
  applyAll (fun _ => "") .empty calls

theorem run_callStep (db : RunDb) (calls : List StoreCall) :
    run (callStep (fun _ => "")) db calls = some (applyAll (fun _ => "") db calls) := by
  induction calls generalizing db with
  | nil => rfl
  | cons call calls ih => exact ih _

end Abbey.Run
