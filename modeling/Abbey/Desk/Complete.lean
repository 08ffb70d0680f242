import Abbey.Desk.Listing

/-!
# A whole reading of the conversations

`Listing` is what a client asks for, and `serve` one request of it with its
limit and the bytes that the frame leaves for the page.  The client stops at
the first page without `next_after`; else it passes `next_after` on
(`ListConversations`), or the sequence of the last conversation
(`SearchConversations`).

`Listing.expected` says what the client is promised.  `complete_iff_fits`:
listing always delivers it.  Searching does not, because the daemon never
reads the cursor of a search: it delivers it exactly when the first page
holds every match (`searchFits`).
-/

namespace Abbey.Desk

open Abbey.Lib Abbey.Run List

variable {back : List AssistantConversation} {search : Option String}
variable {front : List AssistantConversation}

inductive Listing where
  | listConversations (search : Option String) (archived : Bool)
  | searchConversations (query : String)

/-- The last conversation of a page: `next_after` and its sequence. -/
structure Cursor where
  nextAfter : ConversationId
  sequence : Nat

variable {cursor : Option Cursor}

/-- The limit of a request, and the bytes of its frame. -/
structure Ask where
  limit : Nat
  room : Nat

variable {ask : Ask} {asks : Nat → Ask}

namespace Listing

/-- The request that continues a reading. -/
def command : Listing → Option Cursor → Nat → V4Command
  | listConversations search archived, cursor, limit =>
    .listConversations
      { search
        after := cursor.map Cursor.nextAfter
        limit
        archived }
  | searchConversations query, cursor, limit =>
    .searchConversations
      { query
        page :=
          { after := (cursor.map Cursor.sequence).getD 0
            through := none
            limit } }

def text : Listing → Option String
  | listConversations search _ => search
  | searchConversations query => some query

def archived : Listing → Bool
  | listConversations _ archived => archived
  | searchConversations _ => false

/-- The query text is one that a request may carry. -/
def Valid (l : Listing) : Prop := ∀ s ∈ l.text, v4Text s maxV4QueryBytes = .ok ()

/-- The conversations a client is promised: not deleted, with the archived
flag, and with the query text in the title up to ASCII case. -/
def wants (l : Listing) (row : AssistantConversation) : Bool :=
  !row.deleted && row.archived = l.archived &&
    l.text.all (fun s => decide (foldCase s.toList <:+: foldCase row.title.toList))

/-- All of them, in sequence order. -/
def expected (l : Listing) (db : RunDb) : List V4Conversation :=
  ((db.assistantConversations.rows.filter l.wants).insertionSort
    (fun a b => a.sequence ≤ b.sequence)).map (view db)

end Listing

/-- One request. -/
def serve (db : RunDb) (l : Listing) (cursor : Option Cursor) (ask : Ask) :
    Except Daemon.HandlerFailure (Page V4Conversation Cursor) := do
  let page ← answer db ask.room (l.command cursor ask.limit)
  .ok ⟨page.conversations, page.nextAfter.map (fun id =>
    ⟨id, (page.conversations.getLast?.map V4Conversation.sequence).getD 0⟩)⟩

/-- A request as clients make it, with a frame that has room for one
conversation. -/
structure Ask.Fair (ask : Ask) : Prop where
  positive : 1 ≤ ask.limit
  bounded : ask.limit ≤ maxV4Page
  room : 2048 ≤ ask.room

/-- Following the continuation ends, and has returned the promised
conversations, each once and in order. -/
def Complete (db : RunDb) (l : Listing) (asks : Nat → Ask) : Prop :=
  ∃ n, follow (serve db l) none ((List.range n).map asks) = .ok (some (l.expected db))

/-- The first page can hold every match. -/
def searchFits (db : RunDb) (l : Listing) (ask : Ask) : Bool :=
  decide ((l.expected db).length ≤ ask.limit) &&
    decide ((V4ConversationPage.mk (l.expected db) none).jsonBytes ≤ ask.room)

/-- A listing needs nothing; a search needs no second page. -/
def Listing.fits (l : Listing) (db : RunDb) (ask : Ask) : Bool :=
  match l with
  | .listConversations _ _ => true
  | .searchConversations _ => searchFits db l ask

variable {db : RunDb} {l : Listing} {limit k : Nat}

/-! ## One request -/

/-- The store query of a request. -/
def Listing.query (l : Listing) (cursor : Option Cursor) (limit : Nat) : V4ConversationQuery where
  search := l.text
  after :=
    match l with
    | .listConversations _ _ => cursor.map Cursor.nextAfter
    | .searchConversations _ => none
  limit := limit
  archived := l.archived

theorem handle_command (cursor : Option Cursor) (limit : Nat) :
    handle db (l.command cursor limit) = mapErr mapStore (v4ListConversations db
      (l.query cursor limit)) := by
  cases l <;> rfl

/-- The escaped pattern finds the text itself. -/
theorem selects_eq_wants (cursor : Option Cursor) (limit : Nat) :
    (l.query cursor limit).selects = l.wants := by
  funext row
  have hlike : (fun s : String => likeEscape '\\' (likeContains s) row.title.toList) =
      fun s => decide (foldCase s.toList <:+: foldCase row.title.toList) := by
    funext s
    rw [Bool.eq_iff_iff, decide_eq_true_eq]
    exact likeEscape_contains (by decide)
  unfold V4ConversationQuery.selects Listing.wants
  rw [← hlike]
  rfl

/-- The rows behind the promised conversations. -/
def Listing.rows (l : Listing) (db : RunDb) : List AssistantConversation :=
  (db.assistantConversations.rows.filter l.wants).insertionSort
    (fun a b => a.sequence ≤ b.sequence)

theorem query_rows (cursor : Option Cursor) (limit : Nat) :
    (l.query cursor limit).rows db = l.rows db := by
  unfold V4ConversationQuery.rows
  rw [selects_eq_wants]
  rfl

theorem expected_eq : l.expected db = (l.rows db).map (view db) := rfl

theorem query_validate (hl : l.Valid) (cursor : Option Cursor) (hlow : 1 ≤ limit)
    (hhigh : limit ≤ maxV4Page) : (l.query cursor limit).validate = .ok () := by
  have hlimit : v4Limit limit = .ok () := by
    simp only [v4Limit, ensure_eq_ok, Bool.and_eq_true, decide_eq_true_eq]
    exact ⟨hlow, hhigh⟩
  unfold V4ConversationQuery.validate
  simp only [Listing.query, hlimit, ok_bind]
  cases hs : l.text with
  | none => rfl
  | some s => exact hl s hs

theorem command_validate (hl : l.Valid) (hlow : 1 ≤ limit) (hhigh : limit ≤ maxV4Page)
    (hcursor : (cursor.map Cursor.sequence).getD 0 ≤ maxSafeInteger) :
    (l.command cursor limit).validate = .ok () := by
  cases l with
  | listConversations search archived => exact query_validate hl cursor hlow hhigh
  | searchConversations query =>
    have hquery : v4Text query maxV4QueryBytes = .ok () := hl query rfl
    have hlimit : v4Limit limit = .ok () := by
      simp only [v4Limit, ensure_eq_ok, Bool.and_eq_true, decide_eq_true_eq]
      exact ⟨hlow, hhigh⟩
    have hafter : v4Timestamp ((cursor.map Cursor.sequence).getD 0) = .ok () := by
      simp only [v4Timestamp, ensure_eq_ok, decide_eq_true_eq]
      exact hcursor
    simp only [Listing.command, V4Command.validate, V4SearchQuery.validate, V4PageQuery.validate,
      hquery, hlimit, hafter, ok_bind]

/-- The mark of a conversation. -/
def markOf (c : V4Conversation) : Cursor := ⟨c.conversationId, c.sequence⟩

theorem markOf_view (row : AssistantConversation) :
    markOf (view db row) = ⟨row.id, (view db row).sequence⟩ := rfl

/-- The page of the first `k` remaining rows, as the client takes it. -/
theorem continues_pageOf (hk : 0 < k ∨ back = []) :
    Continues markOf (back.map (view db)) ⟨(pageOf db back k).conversations,
      (pageOf db back k).nextAfter.map (fun id =>
        ⟨id, ((pageOf db back k).conversations.getLast?.map V4Conversation.sequence).getD 0⟩)⟩ := by
  by_cases hmore : k < back.length
  · have hpos : 0 < k := by
      rcases hk with hk | hk
      · exact hk
      · rw [hk] at hmore
        simp at hmore
    obtain ⟨front, final, rest, rfl, hlength⟩ : ∃ front final rest,
        back = front ++ final :: rest ∧ front.length = k - 1 := by
      have hpositive : 0 < (back.drop (k - 1)).length := by
        rw [length_drop]
        omega
      obtain ⟨final, rest, hdrop⟩ := exists_cons_of_length_pos hpositive
      refine ⟨back.take (k - 1), final, rest, ?_, ?_⟩
      · rw [← hdrop, take_append_drop]
      · rw [length_take]
        omega
    have htake : (front ++ final :: rest).take k = front ++ [final] := by
      have hone : k - front.length = 1 := by omega
      rw [take_append, hone, take_of_length_le (by omega)]
      rfl
    have hleft : rest.map (view db) ≠ [] := by
      intro hnil
      rw [map_eq_nil_iff] at hnil
      rw [hnil, length_append, length_singleton] at hmore
      omega
    have hsplit : (front ++ final :: rest).map (view db) =
        front.map (view db) ++ view db final :: rest.map (view db) := by
      rw [map_append, map_cons]
    have hcont : Continues markOf ((front ++ final :: rest).map (view db))
        ⟨front.map (view db) ++ [view db final], some (markOf (view db final))⟩ :=
      .more _ _ _ hsplit hleft
    simpa only [pageOf, hmore, if_true, htake, getLast?_concat, Option.map_some,
      map_append, map_cons, map_nil, Option.getD_some, markOf_view] using hcont
  · have htake : back.take k = back := take_of_length_le (by omega)
    simpa only [pageOf, hmore, if_false, htake, Option.map_none] using Continues.last

/-- A request that goes on after `front` is answered with a front of the
rows that the store query has left. -/
theorem serve_eq (hdb : Listable db) (hl : l.Valid) (hask : ask.Fair)
    (hcursor : (cursor.map Cursor.sequence).getD 0 ≤ maxSafeInteger)
    (hrows : l.rows db = front ++ back)
    (hafter : (l.query cursor ask.limit).after = front.getLast?.map AssistantConversation.id) :
    ∃ k, serve db l cursor ask = .ok ⟨(pageOf db back k).conversations,
        (pageOf db back k).nextAfter.map (fun id =>
          ⟨id, ((pageOf db back k).conversations.getLast?.map V4Conversation.sequence).getD 0⟩)⟩ ∧
      (0 < k ∨ back = []) ∧ (back.length ≤ k ↔ back.length ≤ ask.limit ∧
        (V4ConversationPage.mk (back.map (view db)) none).jsonBytes ≤ ask.room) := by
  have hqrows : (l.query cursor ask.limit).rows db = front ++ back := by
    rw [query_rows, hrows]
  have hvalid : ∀ row ∈ back, validateConversation row (messageCount db row.id) = .ok () := by
    intro row hrow
    exact hdb.valid_of_mem (by rw [hqrows]; exact mem_append_right front hrow)
  have hcommand := command_validate hl hask.positive hask.bounded hcursor
  have hlist : handle db (l.command cursor ask.limit) = .ok (pageOf db back ask.limit) := by
    rw [handle_command, v4ListConversations, query_validate hl cursor hask.positive hask.bounded]
    have hpage := listConversations_eq hdb hqrows hafter hask.bounded
    have hlimit : (l.query cursor ask.limit).limit = ask.limit := rfl
    rw [hlimit] at hpage
    simp only [orElse, ok_bind, hpage, mapErr]
  -- a page of the first `limit` rows has no more than there are
  have hclip : pageOf db back ask.limit = pageOf db back (min ask.limit back.length) := by
    rcases Nat.le_total ask.limit back.length with hle | hle
    · rw [Nat.min_eq_left hle]
    · rw [Nat.min_eq_right hle]
      simp only [pageOf, take_of_length_le hle, take_length, Nat.lt_irrefl, if_false,
        Nat.not_lt.mpr hle]
  have hcount : (pageOf db back ask.limit).conversations.length = min ask.limit back.length := by
    simp only [pageOf, length_map, length_take]
  have hlength : (l.command cursor ask.limit).limit = ask.limit := by
    cases l <;> rfl
  have hmatches : (l.command cursor ask.limit).matchesEvent (pageOf db back ask.limit) := by
    unfold V4Command.matchesEvent
    rw [pageOf_validate hvalid hask.bounded, hcount, hlength]
    simp [Except.isOk, Except.toBool]
  have hdispatch : dispatchInner db (l.command cursor ask.limit) =
      .ok (pageOf db back ask.limit) := by
    simp only [dispatchInner, hcommand, orElse, ok_bind, hlist, hmatches, ensure_true]
  have hbounded := hask.bounded
  have hrounds : min ask.limit back.length ≤
      (pageOf db back ask.limit).conversations.length + 1 := by
    rw [hcount]
    omega
  obtain ⟨j, hj, hle, hpos, hall⟩ := fitFrame_pageOf hvalid (by omega) (Nat.min_le_right _ _)
    hrounds hask.room
  refine ⟨j, ?_, ?_, ?_⟩
  · rw [serve, answer, hdispatch, ok_bind]
    rw [← hclip] at hj
    rw [hj]
    rfl
  · have hpositive := hask.positive
    rcases Nat.eq_zero_or_pos back.length with hnil | hsome
    · exact .inr (length_eq_zero_iff.mp hnil)
    · exact .inl (hpos (by omega))
  · constructor
    · intro hreach
      have heq : j = min ask.limit back.length := by omega
      have hfew : back.length ≤ ask.limit := by omega
      have hbytes := hall.mp heq
      rw [Nat.min_eq_right hfew] at hbytes
      refine ⟨hfew, ?_⟩
      simpa only [pageOf, take_length, Nat.lt_irrefl, if_false] using hbytes
    · rintro ⟨hfew, hbytes⟩
      rw [Nat.min_eq_right hfew] at hall
      have heq := hall.mpr (by
        simpa only [pageOf, take_length, Nat.lt_irrefl, if_false] using hbytes)
      omega

/-! ## The whole reading -/

theorem mark_le (hdb : Listable db) (cursor : Option Cursor) (limit : Nat)
    (hrows : l.rows db = front ++ back) :
    (((front.map (view db)).getLast?.map markOf).map Cursor.sequence).getD 0 ≤ maxSafeInteger := by
  rw [getLast?_map, Option.map_map, Option.map_map]
  cases hlast : front.getLast? with
  | none => exact Nat.zero_le _
  | some row =>
    have hmem : row ∈ (l.query cursor limit).rows db := by
      rw [query_rows, hrows]
      exact mem_append_left back (mem_of_getLast? hlast)
    exact (validateConversation_eq_ok.mp (hdb.valid_of_mem hmem)).2.2.1

theorem pageOf_next_eq_none (hk : 0 < k ∨ back = []) :
    (pageOf db back k).nextAfter = none ↔ back.length ≤ k := by
  unfold pageOf
  by_cases hmore : k < back.length
  · simp only [hmore, if_true, Option.map_eq_none_iff, getLast?_eq_none_iff, take_eq_nil_iff]
    constructor
    · rintro (rfl | rfl)
      · simpa using hk
      · exact Nat.zero_le _
    · omega
  · simp only [hmore, if_false, true_iff]
    omega

variable {front back : List V4Conversation} {archived : Bool} {query : String}

/-- Each request of a listing continues it. -/
theorem serve_listConversations (hdb : Listable db)
    (hl : (Listing.listConversations search archived).Valid) (hask : ask.Fair)
    (h : (Listing.listConversations search archived).expected db = front ++ back) :
    ∃ page, serve db (.listConversations search archived) (front.getLast?.map markOf) ask =
      .ok page ∧ Continues markOf back page := by
  rw [expected_eq, map_eq_append_iff] at h
  obtain ⟨frontRows, backRows, hrows, rfl, rfl⟩ := h
  have hcursor := mark_le hdb none ask.limit hrows
  have hafter : ((Listing.listConversations search archived).query
      ((frontRows.map (view db)).getLast?.map markOf) ask.limit).after =
        frontRows.getLast?.map AssistantConversation.id := by
    simp only [Listing.query, getLast?_map, Option.map_map]
    rfl
  obtain ⟨k, hserve, hk, _⟩ := serve_eq hdb hl hask hcursor hrows hafter
  exact ⟨_, hserve, continues_pageOf hk⟩

/-- Each request of a search starts it again. -/
theorem serve_searchConversations (hdb : Listable db)
    (hl : (Listing.searchConversations query).Valid) (hask : ask.Fair)
    (h : (Listing.searchConversations query).expected db = front ++ back) :
    ∃ page, serve db (.searchConversations query) (front.getLast?.map markOf) ask = .ok page ∧
      Continues markOf ((Listing.searchConversations query).expected db) page ∧
      (page.next = none ↔ searchFits db (.searchConversations query) ask) := by
  rw [expected_eq, map_eq_append_iff] at h
  obtain ⟨frontRows, backRows, hrows, rfl, rfl⟩ := h
  have hcursor := mark_le hdb none ask.limit hrows
  have hstart : (Listing.searchConversations query).rows db = [] ++ (Listing.searchConversations
      query).rows db := rfl
  obtain ⟨k, hserve, hk, hall⟩ := serve_eq hdb hl hask hcursor hstart rfl
  refine ⟨_, hserve, continues_pageOf hk, ?_⟩
  rw [Option.map_eq_none_iff, pageOf_next_eq_none hk, hall]
  rw [searchFits, Bool.and_eq_true, decide_eq_true_eq, decide_eq_true_eq, expected_eq, length_map]

theorem fair_of_mem (hasks : ∀ i, (asks i).Fair) (hask : ask ∈ (range n).map asks) : ask.Fair := by
  obtain ⟨i, _, rfl⟩ := mem_map.mp hask
  exact hasks i

theorem listConversations_complete (hdb : Listable db)
    (hl : (Listing.listConversations search archived).Valid) (hasks : ∀ i, (asks i).Fair) :
    Complete db (.listConversations search archived) asks := by
  have hlength : ((Listing.listConversations search archived).expected db).length <
      ((range (((Listing.listConversations search archived).expected db).length + 1)).map
        asks).length := by
    rw [length_map, length_range]
    exact Nat.lt_succ_self _
  exact ⟨_, follow_complete (fun front back ask hask h =>
    serve_listConversations hdb hl (fair_of_mem hasks hask) h) hlength⟩

/-- A search is complete exactly when its first page holds every match: the
next request answers the first page again. -/
theorem searchConversations_complete_iff (hdb : Listable db)
    (hl : (Listing.searchConversations query).Valid) (hasks : ∀ i, (asks i).Fair) :
    Complete db (.searchConversations query) asks ↔
      searchFits db (.searchConversations query) (asks 0) := by
  have hsplit : ∀ n, (range (n + 1)).map asks =
      asks 0 :: (range n).map (fun i => asks (i + 1)) := by
    intro n
    rw [range_succ_eq_map, map_cons, map_map]
    rfl
  have hserve : ∀ n, ∀ front back ask, ask ∈ (range n).map (fun i => asks (i + 1)) →
      (Listing.searchConversations query).expected db = front ++ back →
      ∃ page, serve db (.searchConversations query) (front.getLast?.map markOf) ask = .ok page ∧
        Continues markOf ((Listing.searchConversations query).expected db) page := by
    intro n front back ask hask h
    obtain ⟨page, hpage, hcont, _⟩ := serve_searchConversations hdb hl
      (fair_of_mem (fun i => hasks (i + 1)) hask) h
    exact ⟨page, hpage, hcont⟩
  have hstart : (Listing.searchConversations query).expected db =
      [] ++ (Listing.searchConversations query).expected db := rfl
  obtain ⟨page, hpage, hcont, hnext⟩ := serve_searchConversations hdb hl (hasks 0) hstart
  have hrestart := fun n => follow_restarts (hserve n) hpage hcont
  rw [← hnext]
  constructor
  · rintro ⟨n, hn⟩
    cases n with
    | zero => simp [follow] at hn
    | succ n =>
      rw [hsplit] at hn
      exact (hrestart n).mp hn
  · intro hlast
    refine ⟨1, ?_⟩
    rw [hsplit]
    exact (hrestart 0).mpr hlast

/-- Listing is complete, and searching is when it needs no second page. -/
theorem complete_iff_fits (hdb : Listable db) (hl : l.Valid) {asks : Nat → Ask}
    (hasks : ∀ i, (asks i).Fair) : Complete db l asks ↔ l.fits db (asks 0) = true := by
  cases l with
  | listConversations search archived =>
    simp only [Listing.fits, iff_true]
    exact listConversations_complete hdb hl hasks
  | searchConversations query => exact searchConversations_complete_iff hdb hl hasks

/-! ## Two matches and a limit of one -/

/-- The store after the creation of two conversations. -/
def sampleStore : RunDb :=
  match insertConversation .empty ⟨1⟩ "alpha one" true 0 false with
  | .ok db =>
    match insertConversation db ⟨2⟩ "Alpha two" true 0 false with
    | .ok db' => db'
    | .error _ => db
  | .error _ => .empty

theorem sampleStore_listable : Listable sampleStore where
  unique := by decide +kernel
  valid := by decide +kernel

def sampleAsk : Ask := ⟨1, 65536⟩

theorem sampleAsk_fair : sampleAsk.Fair := ⟨by decide, by decide, by decide⟩

/-- The search for `alpha` with a limit of one never ends. -/
theorem search_never_continues :
    ¬ Complete sampleStore (.searchConversations "alpha") (fun _ => sampleAsk) := by
  have hl : (Listing.searchConversations "alpha").Valid := by
    rintro s ⟨rfl⟩
    decide +kernel
  rw [searchConversations_complete_iff sampleStore_listable hl (fun _ => sampleAsk_fair)]
  decide +kernel

theorem complete_iff_fits_sample :
    Complete sampleStore (.searchConversations "alpha") (fun _ => ⟨50, 65536⟩) ↔
      (Listing.searchConversations "alpha").fits sampleStore ⟨50, 65536⟩ = true :=
  complete_iff_fits sampleStore_listable
    (by
      rintro s ⟨rfl⟩
      decide +kernel)
    (fun _ => ⟨by decide, by decide, by decide⟩)

end Abbey.Desk
