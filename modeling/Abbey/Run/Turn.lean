import Abbey.Run.Records

/-!
# Assistant turns and content

`src/runtime/store/v4.rs` and `src/runtime/store/v4_turn.rs`: the
conversation rows, the content ledger of a conversation and the preview
message of a turn.

`syncMessageState` is the projection that every lifecycle transition runs
in its own transaction.  It writes assistant tables only, so the run
tables of a transition do not depend on it (`syncMessageState_runs`).

A conversation's content ledger has `maxSequence` places.  The last one is
kept for the terminal marker: `insertContentEvent` refuses any other
payload there, and `AssistantConflict` is the refusal.
-/

namespace Abbey.Run

open Abbey.Lib

/-! ## Wire checks of protocol v4 -/

def maxV4InputBytes : Nat := 32 * 1024
def maxV4ContentBytes : Nat := 4 * 1024 * 1024
def maxV4ContentEvents : Nat := 65536
def maxV4DeltaBytes : Nat := 16 * 1024
def maxSafeInteger : Nat := 9007199254740991

/-- The text of every v4 wire rejection. -/
def invalidV4 : ValidationError := ⟨"invalid v4 contract"⟩

def v4Text (value : String) (max : Nat) : Except ValidationError Unit :=
  ensure (!value.toList.all isWhitespace && value.utf8ByteSize ≤ max &&
    !value.toList.contains '\x00') invalidV4

def v4Label (value : String) : Except ValidationError Unit := do
  v4Text value 256
  ensure (!value.toList.any isControl) invalidV4

def v4Route (value : String) : Except ValidationError Unit :=
  ensure (isIdentifier value 128) invalidV4

def v4Timestamp (value : Nat) : Except ValidationError Unit :=
  ensure (value ≤ maxSafeInteger) invalidV4

/-- `V4SubmitTurn`: one turn submission. -/
structure V4SubmitTurn where
  conversationId : ConversationId
  idempotencyKey : IdempotencyKey
  routeId : String
  input : String
  deriving DecidableEq

def V4SubmitTurn.validate (submit : V4SubmitTurn) : Except ValidationError Unit := do
  v4Route submit.routeId
  v4Text submit.input maxV4InputBytes

/-- `V4TurnSubmission`: the receipt of a turn. -/
structure V4TurnSubmission where
  conversationId : ConversationId
  runId : RunId
  idempotencyKey : IdempotencyKey
  userMessageSequence : Nat
  state : RunState
  duplicate : Bool
  deriving DecidableEq

def V4TurnSubmission.validate (submission : V4TurnSubmission) :
    Except ValidationError Unit :=
  ensure (0 < submission.userMessageSequence &&
    submission.userMessageSequence ≤ maxSafeInteger) invalidV4

def V4ContentPayload.validate : V4ContentPayload → Except ValidationError Unit
  | .textDelta text =>
    ensure (!text.isEmpty && text.utf8ByteSize ≤ maxV4DeltaBytes &&
      !text.toList.contains '\x00') invalidV4
  | .tool toolId _ => v4Label toolId
  | .terminal state => ensure state.isTerminal invalidV4
  | .notice _ | .usage _ _ => .ok ()

/-- The check of `V4Conversation::validate` on a stored row with the number
of its messages. -/
def validateConversation (row : AssistantConversation) (messageCount : Nat) :
    Except ValidationError Unit := do
  v4Label row.title
  v4Timestamp row.updatedAtMs
  v4Timestamp row.sequence
  v4Timestamp messageCount
  ensure (0 < row.sequence && row.createdAtMs ≤ row.updatedAtMs) invalidV4

/-! ## Conversations -/

/-- `ms`: a `u64` of milliseconds as an SQLite integer. -/
def sqlMs (value : Nat) : Except StoreError Nat :=
  if value ≤ sqliteMax then .ok value else .error (.invalidInput "ts range")

/-- `stamp`: the text of a `u64` of milliseconds. -/
def stamp (value : Nat) : Except StoreError Instant :=
  if h : value ≤ chronoMaxMs then .ok ⟨value, h⟩
  else .error (.invalidInput "ts range")

@[simp] theorem stamp_eq_ok : stamp value = .ok at' ↔ value = at'.ms := by
  unfold stamp
  split_ifs with h
  · constructor
    · intro heq
      cases heq
      rfl
    · rintro rfl
      rfl
  · simp only [false_iff]
    rintro rfl
    exact h at'.representable

/-- The undeleted row of a conversation, checked as it is read. -/
def conversationRow (db : RunDb) (id : ConversationId) :
    Except StoreError (Option AssistantConversation) :=
  match db.assistantConversations.find id with
  | none => .ok none
  | some row =>
    if row.deleted then .ok none
    else do
      orElse (validateConversation row
          (db.assistantMessages.rows.filter (fun m => m.conversationId = id)).length)
        (.corruptData "stored conv invalid")
      .ok (some row)

/-- `length(title)` in SQL: the characters before the first NUL. -/
def sqlLength (value : String) : Nat := (value.toList.takeWhile (fun c => c ≠ '\x00')).length

/-- The constraints of the table `assistant_conversations` on one row. -/
def AssistantConversation.checked (row : AssistantConversation) : Bool :=
  1 ≤ sqlLength row.title && sqlLength row.title ≤ 256 && row.createdAtMs ≤ row.updatedAtMs

/-- `insert_conversation`: the assistant row of an identity.  With `known`
the identity must exist, without it the identity is created too. -/
def insertConversation (db : RunDb) (id : ConversationId) (title : String) (imported : Bool)
    (nowMs : Nat) (known : Bool) : Except StoreError RunDb := do
  let _ ← stamp nowMs
  ensure (!known || decide (id ∈ db.conversations)) (.conversationNotFound (some id))
  ensure (db.assistantConversations.find id).isNone .assistantConflict
  let sequence :=
    ((db.assistantConversations.rows.map AssistantConversation.sequence).max?).getD 0 + 1
  let row : AssistantConversation :=
    { id, sequence, title, archived := false, pinned := false, importedHistory := imported
      deleted := false, createdAtMs := nowMs, updatedAtMs := nowMs }
  ensure row.checked .database
  let rows ← required (db.assistantConversations.insert? row) .database
  let db' : RunDb :=
    { db with
      conversations := if id ∈ db.conversations then db.conversations
        else db.conversations ++ [id]
      assistantConversations := rows }
  let stored ← conversationRow db' id
  let _ ← required stored .assistantNotFound
  .ok db'

/-- `v4_create_conversation`: a new identity with its assistant row. -/
def v4CreateConversation (db : RunDb) (id : ConversationId) (title : String)
    (nowMs : Nat) : Except StoreError RunDb :=
  insertConversation db id title true nowMs false

/-- `active_runs`: the runs of a conversation that are not terminal. -/
def activeRuns (db : RunDb) (id : ConversationId) : Nat :=
  (db.runs.rows.filter
    (fun run => run.conversationId = some id && !run.status.isTerminal)).length

/-- `v4_delete_conversation`. -/
def v4DeleteConversation (db : RunDb) (id : ConversationId) (nowMs : Nat) :
    Except StoreError RunDb := do
  let found ← conversationRow db id
  let row ← required found .assistantNotFound
  ensure (activeRuns db id = 0) .assistantConflict
  let now ← sqlMs nowMs
  ensure (row.createdAtMs ≤ now) .database
  .ok { db with
    contentEvents := db.contentEvents.delete (fun e => e.conversationId = id)
    assistantMessages := db.assistantMessages.delete (fun m => m.conversationId = id)
    assistantConversations := db.assistantConversations.modify (fun c => c.id = id)
      (fun c => { c with deleted := true, updatedAtMs := now }) (fun _ => rfl) }

/-! ## The content ledger -/

def maxSequence : Nat := 65536

/-- `COALESCE(MAX(sequence), 0)` over a conversation's content events. -/
def lastContent (db : RunDb) (id : ConversationId) : Nat :=
  (((db.contentEvents.rows.filter (fun e => e.conversationId = id)).map
    ContentEvent.sequence).max?).getD 0

def nextMessageSequence (db : RunDb) (id : ConversationId) : Nat :=
  (((db.assistantMessages.rows.filter (fun m => m.conversationId = id)).map
    AssistantMessage.sequence).max?).getD 0 + 1

def stateAsStr : RunState → String
  | .queued => "queued"
  | .starting => "starting"
  | .running => "running"
  | .cancelRequested => "cancel_requested"
  | .succeeded => "succeeded"
  | .failed => "failed"
  | .cancelled => "cancelled"
  | .interrupted => "interrupted"

def toolStateAsStr : V4ToolState → String
  | .started => "started"
  | .succeeded => "succeeded"
  | .failed => "failed"
  | .cancelled => "cancelled"

def noticeCodeAsStr : V4NoticeCode → String
  | .truncated => "truncated"
  | .reconnecting => "reconnecting"
  | .providerUnavailable => "provider_unavailable"
  | .recoveryRequired => "recovery_required"

/-- The `byte_count` column: the bytes of a delta's text, or of the JSON
text of any other payload. -/
def V4ContentPayload.byteCount : V4ContentPayload → Nat
  | .textDelta text => text.utf8ByteSize
  | .tool toolId state =>
    "\x7b\"kind\":\"tool\",\"data\":\x7b\"tool_id\":".utf8ByteSize + jsonTextBytes toolId +
      ",\"state\":\"".utf8ByteSize + (toolStateAsStr state).utf8ByteSize +
      "\"\x7d\x7d".utf8ByteSize
  | .notice code =>
    "\x7b\"kind\":\"notice\",\"data\":\x7b\"code\":\"".utf8ByteSize +
      (noticeCodeAsStr code).utf8ByteSize + "\"\x7d\x7d".utf8ByteSize
  | .usage inputTokens outputTokens =>
    "\x7b\"kind\":\"usage\",\"data\":\x7b\"input_tokens\":".utf8ByteSize +
      decimalBytes inputTokens + ",\"output_tokens\":".utf8ByteSize +
      decimalBytes outputTokens + "\x7d\x7d".utf8ByteSize
  | .terminal state =>
    "\x7b\"kind\":\"terminal\",\"data\":\x7b\"state\":\"".utf8ByteSize +
      (stateAsStr state).utf8ByteSize + "\"\x7d\x7d".utf8ByteSize

def V4ContentPayload.isTerminal : V4ContentPayload → Bool
  | .terminal _ => true
  | _ => false

def kindOf : V4ContentPayload → ContentKind
  | .textDelta _ => .outputBounded
  | .terminal .cancelled | .terminal .cancelRequested => .cancelled
  | .terminal .failed => .failed
  | .terminal .interrupted => .interrupted
  | .terminal _ => .completed
  | .tool _ .started => .started
  | _ => .outputBounded

/-- The kinds that mark the end of a turn. -/
def ContentKind.isMarker : ContentKind → Bool
  | .completed | .cancelled | .failed | .interrupted => true
  | .queued | .started | .outputBounded => false

/-- The content event with the next sequence of its conversation. -/
def insertContentEvent (db : RunDb) (cid : ConversationId) (rid : RunId)
    (payload : V4ContentPayload) (nowMs : Nat) : Except StoreError (RunDb × ContentEvent) := do
  orElse payload.validate (.invalidInput "content payload invalid")
  let sequence := lastContent db cid + 1
  ensure (sequence ≤ maxSequence) .assistantConflict
  -- the last place of the ledger is kept for the terminal marker
  ensure (payload.isTerminal || sequence ≠ maxSequence) .assistantConflict
  let now ← sqlMs nowMs
  ensure (payload.byteCount ≤ 32768) .database
  let event : ContentEvent :=
    { conversationId := cid, sequence, runId := rid, kind := kindOf payload
      byteCount := payload.byteCount, timestampMs := now, payload }
  let events ← required (db.contentEvents.insert? event) .database
  orElse (v4Timestamp now) (.corruptData "content event invalid")
  .ok ({ db with contentEvents := events }, event)

/-! ## The preview message -/

/-- The longest prefix of a text with at most `n` bytes: the walk back from
byte `n` to a character boundary. -/
def charPrefix : List Char → Nat → List Char
  | [], _ => []
  | c :: cs, n => if c.utf8Size ≤ n then c :: charPrefix cs (n - c.utf8Size) else []

def assistantMessageOf (db : RunDb) (rid : RunId) : Option AssistantMessage :=
  db.assistantMessages.rows.find? (fun m => m.runId = rid && m.role = .assistant)

/-- Append a delta to the assistant message of a run. -/
def updateAssistantPreview (db : RunDb) (rid : RunId) (delta : String) (nowMs : Nat)
    (messageId : Nat) : Except StoreError RunDb := do
  let existing := assistantMessageOf db rid
  let total := (existing.map AssistantMessage.textBytes).getD 0 + delta.utf8ByteSize
  ensure (total ≤ maxV4ContentBytes) .assistantConflict
  let body := (existing.map AssistantMessage.body).getD ""
  -- once a preview is truncated it stays a prefix
  let combined :=
    if existing.all (fun m => m.body.utf8ByteSize = m.textBytes) then
      body ++ String.ofList (charPrefix delta.toList (16 * 1024 - body.utf8ByteSize))
    else body
  match existing with
  | some _ =>
    .ok { db with
      assistantMessages := db.assistantMessages.modify
        (fun m => m.runId = rid && m.role = .assistant)
        (fun m => { m with
          body := combined, textBytes := total, textComplete := false, state := .running })
        (fun _ => rfl) }
  | none => do
    let turn ← required (db.assistantTurns.find rid) .database
    let now ← sqlMs nowMs
    let row : AssistantMessage :=
      { id := messageId, conversationId := turn.conversationId, runId := rid
        role := .assistant, sequence := nextMessageSequence db turn.conversationId
        body := combined, textBytes := total, textComplete := false, state := .running
        createdAtMs := now }
    let rows ← required (db.assistantMessages.insert? row) .database
    .ok { db with assistantMessages := rows }

/-- `v4_append_content`: one ordered content event with its preview. -/
def v4AppendContent (db : RunDb) (rid : RunId) (payload : V4ContentPayload)
    (nowMs : Nat) (messageId : Nat) : Except StoreError (RunDb × ContentEvent) := do
  let run ← required (runById db rid) .assistantNotFound
  ensure (!run.status.isTerminal) (.terminalRun run.id)
  let turn ← required (db.assistantTurns.find rid) .database
  let (db', event) ← insertContentEvent db turn.conversationId rid payload nowMs
  match payload with
  | .textDelta text => do
    let db'' ← updateAssistantPreview db' rid text nowMs messageId
    .ok (db'', event)
  | _ => .ok (db', event)

/-! ## The projection of a transition -/

/-- `text_complete=(length(CAST(body AS BLOB))=text_bytes)`. -/
def AssistantMessage.settle (state : RunState) (m : AssistantMessage) : AssistantMessage :=
  { m with state, textComplete := m.body.utf8ByteSize = m.textBytes }

/-- Project a lifecycle transition onto the messages of its turn. -/
def syncMessageState (db : RunDb) (rid : RunId) (next : RunState) (nowMs : Nat) :
    Except StoreError RunDb :=
  match db.assistantTurns.find rid with
  | none => .ok db
  | some turn =>
    let db' : RunDb :=
      { db with
        assistantMessages := db.assistantMessages.modify (fun m => m.runId = rid)
          (AssistantMessage.settle next) (fun _ => rfl) }
    if !next.isTerminal then .ok db'
    else if db'.contentEvents.rows.any (fun e => e.runId = rid && e.kind.isMarker) then
      .ok db'
    else
      match insertContentEvent db' turn.conversationId rid (.terminal next) nowMs with
      | .ok (db'', _) => .ok db''
      | .error .assistantConflict => .ok db'
      | .error error => .error error

/-- `v4_finalize_turn`: settle the assistant message of a terminal run. -/
def v4FinalizeTurn (db : RunDb) (rid : RunId) (finalState : RunState) :
    Except StoreError RunDb := do
  let run ← required (runById db rid) .assistantNotFound
  ensure (finalState.isTerminal && run.status = finalState) .assistantConflict
  .ok { db with
    assistantMessages := db.assistantMessages.modify
      (fun m => m.runId = rid && m.role = .assistant)
      (AssistantMessage.settle finalState) (fun _ => rfl) }

end Abbey.Run
