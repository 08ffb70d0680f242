import Abbey.Desk.Conversations
import Abbey.Lib.Pages
import Abbey.Run.Text
import Mathlib.Algebra.Group.Action.Defs
import Mathlib.Algebra.Order.BigOperators.Group.List
import Mathlib.Algebra.Order.Ring.Nat

/-!
# Reading the list of conversations

A client lists or searches conversations and follows the continuation that
each page carries.

* `Listable` is what the schema and the writers of the store promise about
  the conversation rows.
* `listConversations_eq` is one query of the store: from a cursor it answers
  the rows that remain, as many as the limit allows.
* `fitFrame_pageOf` is the trimming of the server: it leaves the front of the
  page, at least one conversation.
* `answer_continues` puts the two together.
-/

namespace Abbey.Desk

open Abbey.Lib Abbey.Run AssistantConversation List AssistantConversation

variable {row : AssistantConversation}
variable {front : List AssistantConversation}

/-- The rows of `assistant_conversations` as the store writes them: the
sequence is unique, and a row that is not deleted passed the check of
`conversation_row` in the transaction that wrote it. -/
structure Listable (db : RunDb) : Prop where
  unique : (db.assistantConversations.rows.map AssistantConversation.sequence).Nodup
  valid : ∀ row ∈ db.assistantConversations.rows, row.deleted = false →
    validateConversation row (messageCount db row.id) = .ok ()

/-- A row as a client sees it. -/
def view (db : RunDb) (row : AssistantConversation) : V4Conversation :=
  .of row (messageCount db row.id)

variable {db : RunDb}

/-! ## Rows -/

theorem validateConversation_eq_ok {n : Nat} :
    validateConversation row n = .ok () ↔ v4Label row.title = .ok () ∧
      row.updatedAtMs ≤ maxSafeInteger ∧ row.sequence ≤ maxSafeInteger ∧ n ≤ maxSafeInteger ∧
      0 < row.sequence ∧ row.createdAtMs ≤ row.updatedAtMs := by
  unfold validateConversation v4Timestamp
  simp only [bind_ok_iff, ensure_eq_ok, Bool.and_eq_true, decide_eq_true_eq]
  constructor
  · rintro ⟨_, hlabel, _, hupdated, _, hsequence, _, hcount, hordered⟩
    exact ⟨hlabel, hupdated, hsequence, hcount, hordered⟩
  · rintro ⟨hlabel, hupdated, hsequence, hcount, hordered⟩
    exact ⟨(), hlabel, (), hupdated, (), hsequence, (), hcount, hordered⟩

theorem v4Label_size {title : String} (h : v4Label title = .ok ()) : title.utf8ByteSize ≤ 256 := by
  unfold v4Label v4Text at h
  simp only [bind_ok_iff, ensure_eq_ok, Bool.and_eq_true, decide_eq_true_eq] at h
  obtain ⟨_, ⟨⟨_, hsize⟩, _⟩, _⟩ := h
  exact hsize

theorem Listable.required (hdb : Listable db) (hrow : row ∈ db.assistantConversations.rows)
    (hlive : row.deleted = false) : requiredConversation db row.id = .ok (view db row) := by
  have hfind : db.assistantConversations.find row.id = some row :=
    Table.mem_rows_iff_find.mp hrow
  have hvalid := hdb.valid row hrow hlive
  unfold messageCount at hvalid
  have hfound : conversationRow db row.id = .ok (some row) := by
    unfold conversationRow
    simp only [hfind, hlive, Bool.false_eq_true, if_false, hvalid]
    rfl
  simp only [requiredConversation, hfound, ok_bind, required_some, view]

/-! ## Bytes -/

theorem decimalBytes_le {n : Nat} (h : n ≤ maxSafeInteger) : decimalBytes n ≤ 16 := by
  unfold decimalBytes
  rw [Nat.length_toDigits_le_iff (by decide) (by decide)]
  exact Nat.lt_of_le_of_lt h (by decide)

/-- A valid conversation takes less than two KiB. -/
theorem jsonBytes_view_le (h : validateConversation row (messageCount db row.id) = .ok ()) :
    (view db row).jsonBytes ≤ 1900 := by
  obtain ⟨hlabel, hupdated, hsequence, hcount, _, hcreated⟩ := validateConversation_eq_ok.mp h
  have htitle := (jsonTextBytes_bounds row.title).2
  have hsize := v4Label_size hlabel
  have h1 := decimalBytes_le (hcreated.trans hupdated)
  have h2 := decimalBytes_le hupdated
  have h3 := decimalBytes_le hsequence
  have h4 := decimalBytes_le hcount
  have hbool : ∀ b, jsonBoolBytes b ≤ 5 := by decide
  have hkeys : jsonTextBytes "conversation_id" = 17 ∧ jsonTextBytes "id" = 4 ∧
      jsonTextBytes "title" = 7 ∧ jsonTextBytes "created_at_ms" = 15 ∧
      jsonTextBytes "updated_at_ms" = 15 ∧ jsonTextBytes "archived" = 10 ∧
      jsonTextBytes "pinned" = 8 ∧ jsonTextBytes "sequence" = 10 ∧
      jsonTextBytes "message_count" = 15 := by decide +kernel
  obtain ⟨k1, k2, k3, k4, k5, k6, k7, k8, k9⟩ := hkeys
  have ha := hbool row.archived
  have hp := hbool row.pinned
  simp only [view, V4Conversation.of, V4Conversation.jsonBytes, jsonObjectBytes, jsonUuidBytes,
    map_cons, map_nil, sum_cons, sum_nil, length_cons, length_nil,
    k1, k2, k3, k4, k5, k6, k7, k8, k9]
  omega

/-- The bytes of a page, by the number of its conversations. -/
theorem page_jsonBytes_le {rows : List AssistantConversation} {next : Option ConversationId}
    (h : ∀ row ∈ rows, validateConversation row (messageCount db row.id) = .ok ()) :
    (V4ConversationPage.mk (rows.map (view db)) next).jsonBytes ≤ 100 + 1901 * rows.length := by
  have hsum : ((rows.map (view db)).map V4Conversation.jsonBytes).sum ≤ rows.length * 1900 := by
    have heach : ∀ n ∈ (rows.map (view db)).map V4Conversation.jsonBytes, n ≤ 1900 := by
      simp only [map_map, forall_mem_map, Function.comp_apply]
      exact fun row hrow => jsonBytes_view_le (h row hrow)
    have hle := sum_le_card_nsmul _ _ heach
    simpa only [length_map, smul_eq_mul] using hle
  have hkeys : jsonTextBytes "conversations" = 15 ∧ jsonTextBytes "next_after" = 12 := by
    decide +kernel
  have hnext : (if next.isSome then jsonUuidBytes else 4) ≤ 38 := by
    unfold jsonUuidBytes
    split_ifs <;> omega
  simp only [V4ConversationPage.jsonBytes, jsonObjectBytes, jsonArrayBytes, map_cons, map_nil,
    sum_cons, sum_nil, length_cons, length_nil, hkeys.1, hkeys.2, length_map]
  omega

/-! ## The rows of a query -/

/-- The rows that a query selects, in their order. -/
def V4ConversationQuery.rows (q : V4ConversationQuery) (db : RunDb) : List AssistantConversation :=
  (db.assistantConversations.rows.filter q.selects).insertionSort
    (fun a b => a.sequence ≤ b.sequence)

section Rows

variable {q : V4ConversationQuery}

theorem mem_rows :
    row ∈ q.rows db ↔ row ∈ db.assistantConversations.rows ∧ q.selects row := by
  unfold V4ConversationQuery.rows
  rw [mem_insertionSort, mem_filter]

theorem live_of_selects (h : q.selects row) : row.deleted = false := by
  unfold V4ConversationQuery.selects at h
  simp only [Bool.and_eq_true, Bool.not_eq_true'] at h
  exact h.1.1

theorem Listable.valid_of_mem (hdb : Listable db) (h : row ∈ q.rows db) :
    validateConversation row (messageCount db row.id) = .ok () := by
  obtain ⟨hrow, hselects⟩ := mem_rows.mp h
  exact hdb.valid row hrow (live_of_selects hselects)

theorem Listable.pairwise_sort (hdb : Listable db) (p : AssistantConversation → Bool) :
    ((db.assistantConversations.rows.filter p).insertionSort
      (fun a b => a.sequence ≤ b.sequence)).Pairwise (fun a b => a.sequence < b.sequence) := by
  have hsorted := pairwise_insertionSort
    (fun a b : AssistantConversation => a.sequence ≤ b.sequence)
    (db.assistantConversations.rows.filter p)
  have hnodup : (((db.assistantConversations.rows.filter p).insertionSort
      (fun a b => a.sequence ≤ b.sequence)).map AssistantConversation.sequence).Nodup := by
    rw [((perm_insertionSort _ _).map AssistantConversation.sequence).nodup_iff]
    exact hdb.unique.sublist (filter_sublist.map _)
  have hne := pairwise_map.mp hnodup
  exact (hsorted.and hne).imp (fun h => Nat.lt_of_le_of_ne h.1 h.2)

variable {back : List AssistantConversation}

/-- The rows after a cursor are the rest of the rows of the query. -/
theorem Listable.selectIds_eq (hdb : Listable db) (hrows : q.rows db = front ++ back)
    (fetch : Nat) : selectIds db q ((front.getLast?.map sequence).getD 0) fetch =
      (back.take fetch).map AssistantConversation.id := by
  have hsorted : (front ++ back).Pairwise (fun a b => a.sequence < b.sequence) := by
    rw [← hrows]
    exact hdb.pairwise_sort q.selects
  have hpos : ∀ row ∈ front ++ back, 0 < row.sequence := by
    intro row hrow
    rw [← hrows] at hrow
    exact (validateConversation_eq_ok.mp (hdb.valid_of_mem hrow)).2.2.2.2.1
  have hback : back.Pairwise (fun a b => a.sequence < b.sequence) :=
    (pairwise_append.mp hsorted).2.1
  have hperm : ((db.assistantConversations.rows.filter (fun row => q.selects row &&
      decide ((front.getLast?.map sequence).getD 0 < row.sequence))).insertionSort
        (fun a b => a.sequence ≤ b.sequence)).Perm back := by
    refine (perm_insertionSort _ _).trans ?_
    rw [← filter_after hsorted hpos, ← hrows]
    unfold V4ConversationQuery.rows
    have hcomm : (fun row : AssistantConversation => q.selects row &&
        decide ((front.getLast?.map sequence).getD 0 < row.sequence)) =
        fun row => decide ((front.getLast?.map sequence).getD 0 <
          row.sequence) && q.selects row := by
      funext row
      rw [Bool.and_comm]
    rw [hcomm, ← filter_filter]
    exact ((perm_insertionSort _ _).symm).filter _
  have hle := pairwise_insertionSort
    (fun a b : AssistantConversation => a.sequence ≤ b.sequence)
    (db.assistantConversations.rows.filter (fun row => q.selects row &&
      decide ((front.getLast?.map sequence).getD 0 < row.sequence)))
  unfold selectIds
  rw [eq_of_perm_of_sorted hperm hle hback]

/-- The cursor of the last row read. -/
theorem cursorSequence_eq (hrows : q.rows db = front ++ back)
    (hafter : q.after = front.getLast?.map AssistantConversation.id) :
    cursorSequence db q = .ok ((front.getLast?.map AssistantConversation.sequence).getD 0) := by
  unfold cursorSequence
  rw [hafter]
  cases hlast : front.getLast? with
  | none => rfl
  | some row =>
    have hmem : row ∈ q.rows db := by
      rw [hrows]
      exact mem_append_left back (mem_of_getLast? hlast)
    obtain ⟨hrow, hselects⟩ := mem_rows.mp hmem
    have hfind : db.assistantConversations.find row.id = some row :=
      Table.mem_rows_iff_find.mp hrow
    simp only [Option.map_some, hfind, Option.filter_some, hselects, if_true, required_some,
      ok_bind, Option.getD_some]

end Rows

/-! ## Pages -/

/-- The page of the first `k` of the rows that remain. -/
def pageOf (db : RunDb) (back : List AssistantConversation) (k : Nat) : V4ConversationPage where
  conversations := (back.take k).map (view db)
  nextAfter := if k < back.length then (back.take k).getLast?.map AssistantConversation.id else none

section Pages

variable {back : List AssistantConversation}
variable {page : V4ConversationPage}

theorem getLast?_map_view (rows : List AssistantConversation) :
    (rows.map (view db)).getLast?.map V4Conversation.conversationId =
      rows.getLast?.map AssistantConversation.id := by
  rw [getLast?_map, Option.map_map]
  rfl

variable (hback : ∀ row ∈ back, validateConversation row (messageCount db row.id) = .ok ())
  {k room rounds : Nat}

include hback

theorem pageOf_jsonBytes_le (k : Nat) :
    (pageOf db back k).jsonBytes ≤ 100 + 1901 * min k back.length := by
  have htake : ∀ row ∈ back.take k, validateConversation row (messageCount db row.id) = .ok () :=
    fun row hrow => hback row (mem_of_mem_take hrow)
  have hle : (pageOf db back k).jsonBytes ≤ 100 + 1901 * (back.take k).length :=
    page_jsonBytes_le htake
  rw [length_take] at hle
  exact hle

theorem pageOf_validate (hk : k ≤ maxV4Page) : (pageOf db back k).validate = .ok () := by
  have hbytes := pageOf_jsonBytes_le hback k
  have hpage : maxV4Page = 50 := rfl
  have hmax : maxV4PageBytes = 524288 := by decide
  have hsize : (pageOf db back k).jsonBytes ≤ maxV4PageBytes := by omega
  have hlength : (pageOf db back k).conversations.length ≤ maxV4Page := by
    simp only [pageOf, length_map, length_take]
    omega
  have heach : (pageOf db back k).conversations.forM V4Conversation.validate = .ok () := by
    rw [forM_eq_ok]
    simp only [pageOf, forall_mem_map, view, validate_of]
    exact fun row hrow => hback row (mem_of_mem_take hrow)
  have hnext : (pageOf db back k).nextAfter.all (fun id =>
      (pageOf db back k).conversations.getLast?.any (fun c => c.conversationId = id)) := by
    simp only [pageOf, getLast?_map]
    split_ifs
    · cases (back.take k).getLast? <;> simp [view, V4Conversation.of]
    · rfl
  simp only [V4ConversationPage.validate, hsize, hlength, heach, hnext, decide_true, ensure_true,
    ok_bind]

omit hback

/-- One query of the store, from the cursor of the last row read. -/
theorem listConversations_eq (hdb : Listable db) {q : V4ConversationQuery}
    (hrows : q.rows db = front ++ back)
    (hafter : q.after = front.getLast?.map AssistantConversation.id)
    (hlimit : q.limit ≤ maxV4Page) : listConversations db q = .ok (pageOf db back q.limit) := by
  have hvalid : ∀ row ∈ back, validateConversation row (messageCount db row.id) = .ok () := by
    intro row hrow
    exact hdb.valid_of_mem (q := q) (by rw [hrows]; exact mem_append_right front hrow)
  have hread : ((back.take (saturatingAdd16 q.limit 1)).map AssistantConversation.id).mapM
      (requiredConversation db) = .ok ((back.take (saturatingAdd16 q.limit 1)).map (view db)) := by
    rw [mapM_eq_ok, forall₂_map_left_iff, forall₂_map_right_iff, forall₂_same]
    intro row hrow
    have hmem : row ∈ q.rows db := by
      rw [hrows]
      exact mem_append_right front (mem_of_mem_take hrow)
    obtain ⟨hstored, hselects⟩ := mem_rows.mp hmem
    exact hdb.required hstored (live_of_selects hselects)
  have hfetch : saturatingAdd16 q.limit 1 = q.limit + 1 := by
    unfold saturatingAdd16
    unfold maxV4Page at hlimit
    omega
  have htake : (back.take (q.limit + 1)).take q.limit = back.take q.limit := by
    rw [take_take, Nat.min_eq_left (Nat.le_succ _)]
  have hmore : (q.limit < min (q.limit + 1) back.length) = (q.limit < back.length) := by
    rw [eq_iff_iff]
    omega
  have hpage : pageOf db back q.limit =
      { conversations := (back.take q.limit).map (view db)
        nextAfter := if q.limit < back.length then
          ((back.take q.limit).map (view db)).getLast?.map V4Conversation.conversationId
          else none } := by
    rw [getLast?_map_view]
    rfl
  have hok := pageOf_validate hvalid hlimit
  rw [hpage] at hok
  unfold listConversations
  rw [cursorSequence_eq hrows hafter, ok_bind, hdb.selectIds_eq hrows, hread, ok_bind]
  simp only [hfetch, ← map_take, htake, length_map, length_take, hmore]
  rw [hok, hpage]
  rfl

theorem fitFrame_of_le (h : page.jsonBytes ≤ room) : fitFrame room rounds page = .ok page := by
  rw [fitFrame.eq_def]
  exact if_pos h

theorem fitFrame_trimmed {shorter : V4ConversationPage}
    (h : ¬ page.jsonBytes ≤ room) (htrim : trimTail page = some shorter) :
    fitFrame room (rounds + 1) page = fitFrame room rounds shorter := by
  rw [fitFrame.eq_def]
  simp only [if_neg h, htrim]

/-- A page that trimming made shorter. -/
theorem trimTail_pageOf
    (hback : ∀ row ∈ back, validateConversation row (messageCount db row.id) = .ok ())
    (hk : k ≤ maxV4Page) (hlength : k ≤ back.length) (hmany : 1 < k) :
    trimTail (pageOf db back k) = some (pageOf db back (k - 1)) := by
  have hok := pageOf_validate hback hk
  have hcount : (pageOf db back k).conversations.length = k := by
    simp only [pageOf, length_map, length_take]
    omega
  have hshown : (pageOf db back k).conversations.dropLast = (back.take (k - 1)).map (view db) := by
    rw [dropLast_eq_take, hcount]
    simp only [pageOf, ← map_take, take_take]
    rw [Nat.min_eq_left (Nat.sub_le k 1)]
  have hleft : k - 1 < back.length := by omega
  unfold trimTail
  rw [hok, hcount, hshown]
  simp only [Except.isOk, Except.toBool, hmany, decide_true, Bool.and_self, if_true,
    getLast?_map_view]
  simp only [pageOf, hleft, if_true]

/-- The frame keeps the front of the page, at least one conversation, and
all of it when it fits. -/
theorem fitFrame_pageOf
    (hback : ∀ row ∈ back, validateConversation row (messageCount db row.id) = .ok ())
    (hk : k ≤ maxV4Page) (hlength : k ≤ back.length)
    (hrounds : k ≤ rounds + 1) (hroom : 2048 ≤ room) :
    ∃ j, fitFrame room rounds (pageOf db back k) = .ok (pageOf db back j) ∧ j ≤ k ∧
      (0 < k → 0 < j) ∧ (j = k ↔ (pageOf db back k).jsonBytes ≤ room) := by
  induction rounds generalizing k with
  | zero =>
    have hfits : (pageOf db back k).jsonBytes ≤ room := by
      have hbytes := pageOf_jsonBytes_le hback k
      omega
    exact ⟨k, fitFrame_of_le hfits, le_rfl, id, by simp [hfits]⟩
  | succ rounds ih =>
    by_cases hfits : (pageOf db back k).jsonBytes ≤ room
    · exact ⟨k, fitFrame_of_le hfits, le_rfl, id, by simp [hfits]⟩
    · have hmany : 1 < k := by
        by_contra hfew
        have hbytes := pageOf_jsonBytes_le hback k
        omega
      obtain ⟨j, hj, hle, hpos, _⟩ :=
        ih (k := k - 1) (by omega) (by omega) (by omega)
      refine ⟨j, ?_, by omega, fun _ => hpos (by omega), ?_⟩
      · rw [fitFrame_trimmed hfits (trimTail_pageOf hback hk hlength hmany)]
        exact hj
      · simp only [hfits, iff_false]
        omega

end Pages

end Abbey.Desk
