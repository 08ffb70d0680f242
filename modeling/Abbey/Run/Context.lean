import Abbey.Run.Store

/-!
# The context of a turn

`src/runtime/store/v4_context.rs`: the earlier replies of a conversation,
read back from the content events and checked against the messages, within
a budget of bytes.  `v4TurnContext` follows the source statement by
statement: two queries, a scan of at most 32 earlier turns, and for each of
them a scan of its content events (`readEvent`).
-/

namespace Abbey.Run

open Abbey.Lib

/-! ## Records -/

structure V4ContextPair where
  user : String
  assistant : String

structure V4TurnContext where
  pairs : List V4ContextPair
  truncated : Bool

/-- The bytes of `payload_json`. -/
def V4ContentPayload.jsonBytes : V4ContentPayload → Nat
  | .textDelta text =>
    "\x7b\"kind\":\"text_delta\",\"data\":\x7b\"text\":".utf8ByteSize + jsonTextBytes text +
      "\x7d\x7d".utf8ByteSize
  | payload => payload.byteCount

/-- The content events of a run in one conversation, by sequence. -/
def contentRows (db : RunDb) (cid : ConversationId) (rid : RunId) : List ContentEvent :=
  (db.contentEvents.rows.filter (fun e => e.conversationId = cid && e.runId = rid)).insertionSort
    (fun a b => a.sequence ≤ b.sequence)

/-! ## A success without a reply -/

/-- The state of the loop of `validate_empty_success`. -/
structure EmptyScan where
  terminal : Bool
  index : Nat
  notice : Bool

def emptyStep (scan : EmptyScan) (event : ContentEvent) : Except StoreError EmptyScan := do
  ensure (!scan.terminal && scan.index < 3) (.corruptData "empty context events invalid")
  ensure (event.payload.jsonBytes ≤ 1024) (.corruptData "empty context payload missing")
  orElse event.payload.validate (.corruptData "empty context payload invalid")
  ensure (event.byteCount = event.payload.jsonBytes)
    (.corruptData "empty context byte count invalid")
  match event.payload with
  | .terminal .succeeded => do
    ensure (event.kind = .completed) (.corruptData "empty context content invalid")
    .ok { scan with terminal := true, index := scan.index + 1 }
  | .notice .truncated => do
    ensure (!scan.notice && event.kind = .outputBounded)
      (.corruptData "empty context content invalid")
    .ok { scan with notice := true, index := scan.index + 1 }
  | .textDelta text => do
    ensure (scan.index = 0 && text = "[admitted]" && event.kind = .outputBounded)
      (.corruptData "empty context content invalid")
    .ok { scan with index := scan.index + 1 }
  | _ => .error (.corruptData "empty context content invalid")

def validateEmptySuccess (db : RunDb) (cid : ConversationId) (rid : RunId) :
    Except StoreError Unit := do
  let scan ← ((contentRows db cid rid).take 4).foldlM emptyStep ⟨false, 0, false⟩
  ensure scan.terminal (.corruptData "empty context terminal missing")

/-! ## A reply -/

/-- The state of the loop over the content events of a reply. -/
structure ReplyScan where
  firstText : Bool
  legacyMarker : Bool
  assistant : String
  actualBytes : Nat
  legacyEncoding : Bool
  oversized : Bool
  count : Nat
  terminal : Bool
  parsedBytes : Nat

def ReplyScan.initial : ReplyScan := ⟨true, false, "", 0, false, false, 0, false, 0⟩

/-- The longest prefix of a text that fits in `n` bytes. -/
def fitting (text : String) (n : Nat) : String := String.ofList (charPrefix text.toList n)

/-- The part of a delta that still fits. -/
def readText (budget : Nat) (scan : ReplyScan) (text : String) : Except StoreError ReplyScan := do
  let actualBytes := scan.actualBytes + text.utf8ByteSize
  ensure (actualBytes ≤ maxV4ContentBytes) (.corruptData "context text invalid")
  .ok { scan with
    firstText := false
    actualBytes
    oversized := scan.oversized || budget < actualBytes
    assistant := scan.assistant ++ fitting text (budget - scan.assistant.utf8ByteSize) }

/-- One content event of a reply. -/
def readEvent (budget : Nat) (scan : ReplyScan) (event : ContentEvent) :
    Except StoreError ReplyScan := do
  let count := scan.count + 1
  let size := event.payload.jsonBytes
  ensure (count ≤ 65536 && !scan.terminal && size ≤ maxV4DeltaBytes * 6 + 1024)
    (.corruptData "context event bound invalid")
  let parsedBytes := scan.parsedBytes + size
  ensure (parsedBytes ≤ maxV4ContentBytes * 6 + 1024)
    (.corruptData "context aggregate bound invalid")
  orElse event.payload.validate (.corruptData "context payload invalid")
  let scan := { scan with count, parsedBytes }
  match event.payload with
  | .textDelta text => do
    let scan := { scan with legacyEncoding := scan.legacyEncoding || event.byteCount = size }
    ensure ((event.byteCount = text.utf8ByteSize || event.byteCount = size) &&
      event.kind = .outputBounded) (.corruptData "context text metadata invalid")
    if scan.firstText && count = 1 && text = "[admitted]" && event.byteCount = size then
      .ok { scan with firstText := false, legacyMarker := true }
    else readText budget scan text
  | .terminal .succeeded => .ok { scan with terminal := true }
  | .terminal _ => .error (.corruptData "context terminal invalid")
  | _ => .ok scan

/-- The marker that an old admission wrote is put back unless the rest of
the reply agrees with the stored evidence. -/
def restoreMarker (budget assistantBytes : Nat) (preview : String) (scan : ReplyScan) :
    ReplyScan :=
  let strip := scan.legacyMarker && !preview.isEmpty &&
    preview.toList.isPrefixOf scan.assistant.toList &&
    preview.utf8ByteSize ≤ scan.actualBytes &&
    (scan.actualBytes = assistantBytes || assistantBytes = preview.utf8ByteSize)
  if scan.legacyMarker && !strip then
    let actualBytes := scan.actualBytes + "[admitted]".utf8ByteSize
    { scan with
      actualBytes
      assistant := "[admitted]" ++
        fitting scan.assistant (budget - "[admitted]".utf8ByteSize)
      oversized := scan.oversized || budget < actualBytes }
  else scan

/-- The reply of one earlier turn: its text, and whether it is too long for
the budget. -/
def readReply (db : RunDb) (cid : ConversationId) (rid : RunId) (budget assistantBytes : Nat)
    (preview : String) : Except StoreError ReplyScan := do
  let scan ← ((contentRows db cid rid).take 65537).foldlM (readEvent budget) .initial
  let scan := restoreMarker budget assistantBytes preview scan
  ensure (scan.terminal &&
    (scan.actualBytes = assistantBytes || (scan.legacyEncoding &&
      assistantBytes = preview.utf8ByteSize && preview.utf8ByteSize ≤ scan.actualBytes)) &&
    preview.toList.isPrefixOf scan.assistant.toList)
    (.corruptData "context output incomplete")
  .ok scan

/-! ## The scan of the earlier turns -/

/-- A row of the query over the earlier turns: the run, its user message
and its assistant message, if there is one. -/
structure TurnIdentity where
  runId : RunId
  userMessageId : Nat
  assistantMessageId : Option Nat

/-- The sequence of the turn itself, when the request is its own. -/
def currentSequence (submitDigest : V4SubmitTurn → String) (db : RunDb) (run : RunId)
    (request : V4SubmitTurn) : Option Nat := do
  let turn ← db.assistantTurns.find run
  let row ← db.runs.find run
  let message ← db.assistantMessages.find turn.userMessageId
  if turn.conversationId = request.conversationId ∧
      row.conversationId = some request.conversationId ∧ turn.routeId = request.routeId ∧
      row.requestDigest = submitDigest request ∧ row.idempotencyKey = request.idempotencyKey ∧
      message.conversationId = request.conversationId ∧ message.runId = run ∧
      message.role = .user ∧ message.sequence = turn.userSequence ∧
      message.body = request.input ∧ message.textBytes = message.body.utf8ByteSize
    then some turn.userSequence else none

/-- The `WHERE` clause of the query over the earlier turns. -/
def isEarlier (db : RunDb) (request : V4SubmitTurn) (before : Nat) (turn : AssistantTurn) :
    Bool :=
  turn.conversationId = request.conversationId && turn.routeId = request.routeId &&
    turn.userSequence < before &&
    (db.runs.find turn.runId).any
      (fun row => row.conversationId = some turn.conversationId && row.status = .succeeded)

/-- The left join of a turn with its assistant messages. -/
def withReplies (db : RunDb) (turn : AssistantTurn) : List TurnIdentity :=
  match db.assistantMessages.rows.filter
      (fun m => m.runId = turn.runId && m.role = .assistant) with
  | [] => [⟨turn.runId, turn.userMessageId, none⟩]
  | replies => replies.map (fun m => ⟨turn.runId, turn.userMessageId, some m.id⟩)

/-- `ORDER BY t.user_sequence DESC LIMIT 33`. -/
def earlierTurns (db : RunDb) (request : V4SubmitTurn) (before : Nat) : List TurnIdentity :=
  (((db.assistantTurns.rows.filter (isEarlier db request before)).insertionSort
    (fun a b => b.userSequence ≤ a.userSequence)).flatMap (withReplies db)).take 33

/-- The user message and the assistant message of a pair. -/
def pairMessages (db : RunDb) (cid : ConversationId) (identity : TurnIdentity)
    (assistantId : Nat) : Option (AssistantMessage × AssistantMessage) := do
  let user ← db.assistantMessages.find identity.userMessageId
  let assistant ← db.assistantMessages.find assistantId
  if user.conversationId = cid ∧ assistant.conversationId = cid ∧
      user.runId = identity.runId ∧ assistant.runId = identity.runId ∧ user.role = .user ∧
      assistant.role = .assistant ∧ assistant.state = .succeeded
    then some (user, assistant) else none

/-- The state of the scan: the pairs kept so far, newest first. -/
structure ContextScan where
  pairs : List V4ContextPair
  truncated : Bool
  remaining : Nat

/-- A pair that fits by its stored lengths. -/
def readPair (db : RunDb) (cid : ConversationId) (rid : RunId) (scan : ContextScan)
    (user assistant : AssistantMessage) : Except StoreError ContextScan := do
  ensure (assistant.body.utf8ByteSize ≤ 16384) (.corruptData "context preview invalid")
  let reply ← readReply db cid rid (scan.remaining - user.body.utf8ByteSize)
    assistant.textBytes assistant.body
  .ok (if reply.oversized then { scan with truncated := true }
    else { scan with
      pairs := scan.pairs ++ [⟨user.body, reply.assistant⟩]
      remaining := scan.remaining - (user.body.utf8ByteSize + reply.assistant.utf8ByteSize) })

def contextStep (db : RunDb) (cid : ConversationId) (scan : ContextScan)
    (identity : TurnIdentity) : Except StoreError ContextScan :=
  match identity.assistantMessageId with
  | none => do
    validateEmptySuccess db cid identity.runId
    .ok scan
  | some assistantId => do
    let (user, assistant) ← required (pairMessages db cid identity assistantId)
      (.corruptData "context pair invalid")
    ensure (assistant.textBytes ≤ maxV4ContentBytes) (.corruptData "context lengths invalid")
    if scan.remaining < user.body.utf8ByteSize + assistant.textBytes then
      .ok { scan with truncated := true }
    else readPair db cid identity.runId scan user assistant

/-- `v4_turn_context`. -/
def v4TurnContext (submitDigest : V4SubmitTurn → String) (db : RunDb) (run : RunId)
    (request : V4SubmitTurn) (maxBytes : Nat) : Except StoreError V4TurnContext := do
  orElse request.validate (.invalidInput "context request invalid")
  ensure (maxBytes ≤ 24 * 1024) (.invalidInput "context bound invalid")
  let before ← required (currentSequence submitDigest db run request) .assistantConflict
  let identities := earlierTurns db request before
  let scan ← (identities.take 32).foldlM (contextStep db request.conversationId)
    ⟨[], 32 < identities.length, maxBytes⟩
  .ok ⟨scan.pairs.reverse, scan.truncated⟩

end Abbey.Run
