import Abbey.Lib.Table
import Abbey.Run.Contract

/-!
# Records and tables of the runtime store

`src/runtime/store/records.rs` and the run and assistant tables of
`src/runtime/migration_1_runtime_core.sql` and
`src/runtime/migration_10_assistant.sql`.

`RunDb` holds the tables that the run lifecycle reads or writes.  Each
table carries its primary key (`Abbey.Lib.Table`).  The columns that no
modelled operation reads are left out: the permission profile of a turn
and the times of a conversation's identity.
-/

namespace Abbey.Run

open Abbey.Lib

/-! ## Errors -/

/-- `StoreError`, without the constructors that carry an error of the file
system.  `database` is a constraint of the schema that a statement broke,
or a query that found no row. -/
inductive StoreError where
  | invalidInput (message : String)
  | idempotencyConflict
  | runNotFound (id : RunId)
  | conversationNotFound (id : Option ConversationId)
  | assistantNotFound
  | assistantConflict
  | unexpectedStatus (expected found : RunState)
  | invalidTransition (source target : RunState)
  | terminalRun (id : RunId)
  | toolApprovalNotFound (callId : String)
  | toolApprovalConflict
  | toolApprovalDigestMismatch
  | toolExecutionNotFound (callId : String)
  | toolExecutionConflict
  | modelOperationNotFound (operationId : String)
  | modelOperationConflict
  | modelOperationCapacity
  | corruptData (message : String)
  | database
  deriving DecidableEq

/-! ## Runs and their events -/

/-- A value of an event payload: the manager writes numbers and texts. -/
inductive PayloadValue where
  | number (n : Nat)
  | text (s : String)

/-- The JSON object of an event payload. -/
abbrev EventPayload := List (String × PayloadValue)

/-- `payload.get(key).and_then(Value::as_str)`. -/
def EventPayload.asStr (payload : EventPayload) (key : String) : Option String :=
  match payload.lookup key with
  | some (.text s) => some s
  | _ => none

/-- The bytes of one character in JSON text. -/
def jsonCharBytes (c : Char) : Nat :=
  if c = '"' || c = '\\' || c = '\n' || c = '\r' || c = '\t' || c = '\x08' ||
      c = '\x0c' then 2
  else if c.toNat < 0x20 then 6
  else c.utf8Size

def jsonTextBytes (s : String) : Nat := 2 + (s.toList.map jsonCharBytes).sum

/-- The decimal digits of a number. -/
def decimalBytes (n : Nat) : Nat := (Nat.toDigits 10 n).length

def PayloadValue.jsonBytes : PayloadValue → Nat
  | .number n => decimalBytes n
  | .text s => jsonTextBytes s

/-- `serde_json::to_vec(&event.payload)?.len()`: braces, quoted keys,
colons and commas. -/
def EventPayload.jsonBytes (payload : EventPayload) : Nat :=
  2 + (payload.map (fun entry => jsonTextBytes entry.1 + 1 + entry.2.jsonBytes)).sum +
    (payload.length - 1)

/-- `NewRun`: a durable run request after application validation. -/
structure NewRun where
  conversationId : Option ConversationId
  idempotencyKey : IdempotencyKey
  requestDigest : String

/-- `RunRecord`: durable run identity and lifecycle state. -/
structure RunRecord where
  id : RunId
  conversationId : Option ConversationId
  idempotencyKey : IdempotencyKey
  requestDigest : String
  status : RunState
  nextEventSequence : Nat
  createdAt : Instant
  updatedAt : Instant
  deriving DecidableEq

structure NewRunEvent where
  kind : String
  payload : EventPayload

/-- `RunEvent`: one durable event of the append-only lifecycle. -/
structure RunEvent where
  runId : RunId
  sequence : Nat
  kind : String
  payload : EventPayload
  createdAt : Instant

/-- The primary key of `run_events`. -/
def RunEvent.key (event : RunEvent) : RunId × Nat := (event.runId, event.sequence)

/-! ## Assistant conversations, turns and content -/

inductive MessageRole where
  | user
  | assistant
  deriving DecidableEq

/-- A row of `assistant_conversations`. -/
structure AssistantConversation where
  id : ConversationId
  sequence : Nat
  title : String
  archived : Bool
  pinned : Bool
  importedHistory : Bool
  deleted : Bool
  createdAtMs : Nat
  updatedAtMs : Nat

/-- A row of `assistant_messages`. -/
structure AssistantMessage where
  id : Nat
  conversationId : ConversationId
  runId : RunId
  role : MessageRole
  sequence : Nat
  body : String
  textBytes : Nat
  textComplete : Bool
  state : RunState
  createdAtMs : Nat

/-- A row of `assistant_turns`.  The column `assistant_message_id` is left
out: every row has `NULL` there.  The source also sets `user_message_id` to
`NULL` when the messages of a conversation are deleted; here the identifier
of the deleted message stays, and no lookup of a message of the turn finds
one under it. -/
structure AssistantTurn where
  runId : RunId
  conversationId : ConversationId
  userSequence : Nat
  routeId : String
  userMessageId : Nat

inductive V4ToolState where
  | started
  | succeeded
  | failed
  | cancelled

inductive V4NoticeCode where
  | truncated
  | reconnecting
  | providerUnavailable
  | recoveryRequired

/-- `V4ContentPayload`: one visible transcript event. -/
inductive V4ContentPayload where
  | textDelta (text : String)
  | tool (toolId : String) (state : V4ToolState)
  | notice (code : V4NoticeCode)
  | usage (inputTokens outputTokens : Nat)
  | terminal (state : RunState)

/-- The `kind` column of `assistant_content_events`. -/
inductive ContentKind where
  | queued
  | started
  | outputBounded
  | completed
  | cancelled
  | failed
  | interrupted
  deriving DecidableEq

/-- A row of `assistant_content_events` with its payload row. -/
structure ContentEvent where
  conversationId : ConversationId
  sequence : Nat
  runId : RunId
  kind : ContentKind
  byteCount : Nat
  timestampMs : Nat
  payload : V4ContentPayload

/-- The primary key of `assistant_content_events`. -/
def ContentEvent.key (event : ContentEvent) : ConversationId × Nat :=
  (event.conversationId, event.sequence)

/-! ## The database -/

/-- The tables of the run lifecycle. -/
structure RunDb where
  conversations : List ConversationId
  runs : Table RunRecord.id
  runEvents : Table RunEvent.key
  assistantConversations : Table AssistantConversation.id
  assistantMessages : Table AssistantMessage.id
  assistantTurns : Table AssistantTurn.runId
  contentEvents : Table ContentEvent.key

/-- The database that the migrations create. -/
def RunDb.empty : RunDb where
  conversations := []
  runs := .empty
  runEvents := .empty
  assistantConversations := .empty
  assistantMessages := .empty
  assistantTurns := .empty
  contentEvents := .empty

/-- `SELECT ... FROM runs WHERE id=?1`. -/
def runById (db : RunDb) (id : RunId) : Option RunRecord := db.runs.find id

/-- `SELECT ... FROM runs WHERE idempotency_key=?1`. -/
def runByIdempotencyKey (db : RunDb) (key : IdempotencyKey) : Option RunRecord :=
  db.runs.rows.find? (fun run => run.idempotencyKey = key)

/-- The events of one run in the order of their sequence. -/
def eventsOf (db : RunDb) (id : RunId) : List RunEvent :=
  (db.runEvents.rows.filter (fun event => event.runId = id)).insertionSort
    (fun a b => a.sequence ≤ b.sequence)

/-- The greatest integer SQLite stores. -/
def sqliteMax : Nat := 2 ^ 63 - 1

def sqlSequence (sequence : Nat) : Except StoreError Nat :=
  if sequence ≤ sqliteMax then .ok sequence
  else .error (.corruptData "event sequence exceeds SQLite integer range")

@[simp] theorem sqlSequence_eq_ok {sequence n : Nat} :
    sqlSequence sequence = .ok n ↔ sequence ≤ sqliteMax ∧ sequence = n := by
  unfold sqlSequence
  split_ifs with h <;> simp [h]

end Abbey.Run
