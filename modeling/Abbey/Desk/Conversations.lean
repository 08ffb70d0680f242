import Abbey.Daemon.Handler
import Abbey.Lib.Like

/-!
# Conversations of the desktop

`src/runtime/store/v4.rs` and `src/app_core/v4/conversation.rs`: the
conversation records of protocol v4, their pages, and the store operations
that read them.

`required_conversation` reads one row with the number of its messages and
checks it.  `list_conversations` answers a page: the rows after the cursor,
which is an identifier that is looked up again under the filter of the
query.

The identifier stands twice in the wire form of a conversation, as
`conversation_id` and as the text `id`; the record has it once, and the
bytes count it twice.
-/

namespace Abbey.Desk

open Abbey.Lib Abbey.Run

/-! ## Bytes of the wire form -/

/-- A JSON object: its braces, quoted keys, colons and commas. -/
def jsonObjectBytes (fields : List (String × Nat)) : Nat :=
  2 + (fields.map (fun field => jsonTextBytes field.1 + 1 + field.2)).sum + (fields.length - 1)

def jsonArrayBytes (items : List Nat) : Nat := 2 + items.sum + (items.length - 1)

def jsonBoolBytes (b : Bool) : Nat := if b then 4 else 5

/-- The quoted text of a canonical UUID. -/
def jsonUuidBytes : Nat := 38

/-! ## Records -/

def maxV4Page : Nat := 50
def maxV4PageBytes : Nat := 512 * 1024
def maxV4QueryBytes : Nat := 256

structure V4Conversation where
  conversationId : ConversationId
  title : String
  createdAtMs : Nat
  updatedAtMs : Nat
  archived : Bool
  pinned : Bool
  sequence : Nat
  messageCount : Nat

def V4Conversation.validate (c : V4Conversation) : Except ValidationError Unit := do
  v4Label c.title
  v4Timestamp c.updatedAtMs
  v4Timestamp c.sequence
  v4Timestamp c.messageCount
  ensure (0 < c.sequence && c.createdAtMs ≤ c.updatedAtMs) invalidV4

def V4Conversation.jsonBytes (c : V4Conversation) : Nat :=
  jsonObjectBytes [("conversation_id", jsonUuidBytes), ("id", jsonUuidBytes),
    ("title", jsonTextBytes c.title), ("created_at_ms", decimalBytes c.createdAtMs),
    ("updated_at_ms", decimalBytes c.updatedAtMs), ("archived", jsonBoolBytes c.archived),
    ("pinned", jsonBoolBytes c.pinned), ("sequence", decimalBytes c.sequence),
    ("message_count", decimalBytes c.messageCount)]

/-- The record of a row with the number of its messages. -/
def V4Conversation.of (row : AssistantConversation) (messageCount : Nat) : V4Conversation where
  conversationId := row.id
  title := row.title
  createdAtMs := row.createdAtMs
  updatedAtMs := row.updatedAtMs
  archived := row.archived
  pinned := row.pinned
  sequence := row.sequence
  messageCount := messageCount

@[simp] theorem validate_of (row : AssistantConversation) (messageCount : Nat) :
    (V4Conversation.of row messageCount).validate = validateConversation row messageCount :=
  rfl

structure V4ConversationQuery where
  search : Option String
  after : Option ConversationId
  limit : Nat
  archived : Bool

def v4Limit (value : Nat) : Except ValidationError Unit :=
  ensure (1 ≤ value && value ≤ maxV4Page) invalidV4

def V4ConversationQuery.validate (q : V4ConversationQuery) : Except ValidationError Unit := do
  v4Limit q.limit
  match q.search with
  | some s => v4Text s maxV4QueryBytes
  | none => .ok ()

structure V4ConversationPage where
  conversations : List V4Conversation
  nextAfter : Option ConversationId

def V4ConversationPage.jsonBytes (page : V4ConversationPage) : Nat :=
  jsonObjectBytes [("conversations", jsonArrayBytes (page.conversations.map
      V4Conversation.jsonBytes)),
    ("next_after", if page.nextAfter.isSome then jsonUuidBytes else 4)]

def V4ConversationPage.validate (page : V4ConversationPage) : Except ValidationError Unit := do
  ensure (page.jsonBytes ≤ maxV4PageBytes) invalidV4
  ensure (page.conversations.length ≤ maxV4Page) invalidV4
  page.conversations.forM V4Conversation.validate
  ensure (page.nextAfter.all (fun id =>
    page.conversations.getLast?.any (fun c => c.conversationId = id))) invalidV4

/-! ## Reading -/

/-- `SELECT COUNT(*) FROM assistant_messages WHERE conversation_id=?1`. -/
def messageCount (db : RunDb) (id : ConversationId) : Nat :=
  (db.assistantMessages.rows.filter (fun m => m.conversationId = id)).length

/-- `required_conversation`. -/
def requiredConversation (db : RunDb) (id : ConversationId) : Except StoreError V4Conversation := do
  let found ← conversationRow db id
  let row ← required found .assistantNotFound
  .ok (.of row (messageCount db id))

/-- `v4_conversation`. -/
def v4Conversation (db : RunDb) (id : ConversationId) : Except StoreError V4Conversation :=
  requiredConversation db id

/-- `like_contains`: the pattern of a text that contains `v`. -/
def likeContains (v : String) : List Char := '%' :: (escapeLike '\\' v.toList ++ ['%'])

/-- The filter of a query: `deleted=0 AND archived=?2 AND (?3 IS NULL OR
title LIKE ?3 ESCAPE '\')`. -/
def V4ConversationQuery.selects (q : V4ConversationQuery) (row : AssistantConversation) : Bool :=
  !row.deleted && row.archived = q.archived &&
    q.search.all (fun s => likeEscape '\\' (likeContains s) row.title.toList)

/-- The sequence of the row that the cursor of a query names. -/
def cursorSequence (db : RunDb) (q : V4ConversationQuery) : Except StoreError Nat :=
  match q.after with
  | none => .ok 0
  | some after => do
    let row ← required ((db.assistantConversations.find after).filter q.selects)
      (.invalidInput "conversation cursor invalid")
    .ok row.sequence

/-- `u16::saturating_add`. -/
def saturatingAdd16 (a b : Nat) : Nat := min (a + b) (2 ^ 16 - 1)

/-- The identifiers of the rows after a sequence, `ORDER BY sequence LIMIT`. -/
def selectIds (db : RunDb) (q : V4ConversationQuery) (afterSeq fetch : Nat) : List ConversationId :=
  (((db.assistantConversations.rows.filter
    (fun row => q.selects row && decide (afterSeq < row.sequence))).insertionSort
      (fun a b => a.sequence ≤ b.sequence)).take fetch).map AssistantConversation.id

/-- `list_conversations`. -/
def listConversations (db : RunDb) (q : V4ConversationQuery) :
    Except StoreError V4ConversationPage := do
  let afterSeq ← cursorSequence db q
  let convs ← (selectIds db q afterSeq (saturatingAdd16 q.limit 1)).mapM (requiredConversation db)
  let shown := convs.take q.limit
  let page : V4ConversationPage :=
    { conversations := shown
      nextAfter := if q.limit < convs.length then shown.getLast?.map V4Conversation.conversationId
        else none }
  orElse page.validate (.corruptData "v4 conv page invalid")
  .ok page

/-- `v4_list_conversations`. -/
def v4ListConversations (db : RunDb) (q : V4ConversationQuery) :
    Except StoreError V4ConversationPage := do
  orElse q.validate (.invalidInput "conversation query invalid")
  listConversations db q

/-- `v4_search_conversations`: the escaped title-substring filter of
`v4_list_conversations`. -/
def v4SearchConversations (db : RunDb) (q : V4ConversationQuery) :
    Except StoreError V4ConversationPage :=
  v4ListConversations db q

/-! ## Serving -/

structure V4PageQuery where
  after : Nat
  through : Option Nat
  limit : Nat

def V4PageQuery.validate (q : V4PageQuery) : Except ValidationError Unit := do
  v4Timestamp q.after
  v4Limit q.limit
  match q.through with
  | some t => do
    v4Timestamp t
    ensure (q.after ≤ t) invalidV4
  | none => .ok ()

structure V4SearchQuery where
  query : String
  page : V4PageQuery

def V4SearchQuery.validate (q : V4SearchQuery) : Except ValidationError Unit := do
  v4Text q.query maxV4QueryBytes
  q.page.validate

/-- The two commands that answer a page of conversations. -/
inductive V4Command where
  | listConversations (query : V4ConversationQuery)
  | searchConversations (query : V4SearchQuery)

namespace V4Command

def validate : V4Command → Except ValidationError Unit
  | listConversations q => q.validate
  | searchConversations q => q.validate

def limit : V4Command → Nat
  | listConversations q => q.limit
  | searchConversations q => q.page.limit

end V4Command

/-- `map_store`. -/
def mapStore : StoreError → Daemon.HandlerFailure
  | .assistantNotFound | .conversationNotFound _ | .runNotFound _ =>
    ⟨"not_found", "resource was not found"⟩
  | .assistantConflict | .terminalRun _ => ⟨"conflict", "resource conflicts with stored state"⟩
  | .idempotencyConflict =>
    ⟨"idempotency_conflict", "idempotency key belongs to a different request"⟩
  | .invalidInput _ => Daemon.invalidCommandFailure
  | _ => Daemon.internalFailure

/-- `handle` on the two commands.  A search does not pass its cursor on. -/
def handle (db : RunDb) : V4Command → Except Daemon.HandlerFailure V4ConversationPage
  | .listConversations query => mapErr mapStore (v4ListConversations db query)
  | .searchConversations query =>
    mapErr mapStore (v4SearchConversations db
      { search := some query.query
        after := none
        limit := query.page.limit
        archived := false })

/-- `matches_event`: what the authenticated server requires of an answer. -/
def V4Command.matchesEvent (command : V4Command) (page : V4ConversationPage) : Bool :=
  page.validate.isOk && decide (page.conversations.length ≤ command.limit)

/-- `dispatch_inner`, for a request that may read conversations. -/
def dispatchInner (db : RunDb) (command : V4Command) :
    Except Daemon.HandlerFailure V4ConversationPage := do
  orElse command.validate Daemon.invalidCommandFailure
  let page ← handle db command
  ensure (command.matchesEvent page) ⟨"internal", "handler returned an invalid event"⟩
  .ok page

/-- `trim_tail`: a page without its last item.  One item is not cut. -/
def trimTail (page : V4ConversationPage) : Option V4ConversationPage :=
  if page.validate.isOk && decide (1 < page.conversations.length) then
    let shown := page.conversations.dropLast
    some { conversations := shown, nextAfter := shown.getLast?.map V4Conversation.conversationId }
  else none

/-- The loop of `write_wire_response_framed`: trim until the page fits the
bytes that the frame leaves for it.  Every round cuts an item. -/
def fitFrame (room : Nat) : Nat → V4ConversationPage →
    Except Daemon.HandlerFailure V4ConversationPage
  | rounds, page =>
    if page.jsonBytes ≤ room then .ok page
    else match rounds, trimTail page with
      | rounds + 1, some shorter => fitFrame room rounds shorter
      | _, _ => .error ⟨"response_too_large", "handler response exceeds configured limit"⟩

/-- One request and the page that is written for it. -/
def answer (db : RunDb) (room : Nat) (command : V4Command) :
    Except Daemon.HandlerFailure V4ConversationPage := do
  let page ← dispatchInner db command
  fitFrame room page.conversations.length page

end Abbey.Desk
