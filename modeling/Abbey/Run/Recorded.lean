import Abbey.Run.Marker
import Abbey.Run.Text

/-!
# What the tables record of a conversation

The history `Turns.log` lists the turns that were admitted and the deltas
that were accepted.  `Recorded` says what the tables hold of it: a turn
and a run for each admission, in order, and for each turn of an undeleted
conversation the exact user message (`UserOf`), the preview of the reply
(`ReplyOf`) and the content events (`ContentSound`).

`Recorded.write` keeps it through every write.  `Abbey.Run.Exactness` reads
the context of a turn back from it.
-/

namespace Abbey.Run

open Abbey.Lib List Table V4ContentPayload AssistantMessage

variable {m : AssistantMessage} {f : AssistantMessage → AssistantMessage}
  {p : AssistantMessage → Bool} {now : Instant} {nowMs : Nat} {next status : RunState}
  {text : String} {payload : V4ContentPayload}
variable {turn : AssistantTurn} {cid : ConversationId} {deltas : List String} {id : RunId}
  {run : RunRecord} {submit : V4SubmitTurn} {hf : ∀ m, (f m).id = m.id}

/-! ## The history -/

/-- The text of a delta of a run. -/
def TurnEvent.delta (id : RunId) : TurnEvent → Option String
  | .emitted other text => if other = id then some text else none
  | .admitted _ _ => none

def TurnEvent.admission : TurnEvent → Option (RunId × V4SubmitTurn)
  | .admitted id submit => some (id, submit)
  | .emitted _ _ => none

/-- The deltas of a run, oldest first. -/
def deltasOf (log : List TurnEvent) (id : RunId) : List String :=
  log.filterMap (TurnEvent.delta id)

/-- The reply of a run: its deltas put together. -/
def joined (deltas : List String) : String := deltas.foldl (· ++ ·) ""

/-- The turns that were admitted, oldest first. -/
def admissions (log : List TurnEvent) : List (RunId × V4SubmitTurn) :=
  log.filterMap TurnEvent.admission

theorem joined_append (deltas : List String) (text : String) :
    joined (deltas ++ [text]) = joined deltas ++ text := by
  simp [joined]

@[simp] theorem deltasOf_append (log log' : List TurnEvent) (id : RunId) :
    deltasOf (log ++ log') id = deltasOf log id ++ deltasOf log' id := by
  simp [deltasOf]

@[simp] theorem admissions_append (log log' : List TurnEvent) :
    admissions (log ++ log') = admissions log ++ admissions log' := by
  simp [admissions]

@[simp] theorem deltasOf_admitted (id other : RunId) (submit : V4SubmitTurn) :
    deltasOf [.admitted other submit] id = [] := rfl

@[simp] theorem admissions_admitted (id : RunId) (submit : V4SubmitTurn) :
    admissions [.admitted id submit] = [(id, submit)] := rfl

@[simp] theorem admissions_emittedOf (id : RunId) (payload : V4ContentPayload) :
    admissions (emittedOf id payload) = [] := by
  cases payload <;> rfl

/-- The text of a payload. -/
def V4ContentPayload.delta : V4ContentPayload → Option String
  | .textDelta text => some text
  | _ => none

theorem deltasOf_emittedOf_self (id : RunId) (payload : V4ContentPayload) :
    deltasOf (emittedOf id payload) id = payload.delta.toList := by
  cases payload <;> simp [emittedOf, deltasOf, TurnEvent.delta, delta]

theorem deltasOf_emittedOf_other (h : other ≠ id) (payload : V4ContentPayload) :
    deltasOf (emittedOf other payload) id = [] := by
  cases payload <;> simp [emittedOf, deltasOf, TurnEvent.delta, h]

/-! ## The rows of a turn -/

/-- The run and the binding of an admitted turn. -/
structure BoundTo (submitDigest : V4SubmitTurn → String) (db : RunDb) (id : RunId)
    (submit : V4SubmitTurn) (turn : AssistantTurn) (run : RunRecord) : Prop where
  turnRow : db.assistantTurns.find id = some turn
  conversation : turn.conversationId = submit.conversationId
  route : turn.routeId = submit.routeId
  runRow : db.runs.find id = some run
  owner : run.conversationId = some submit.conversationId
  digest : run.requestDigest = submitDigest submit
  key : run.idempotencyKey = submit.idempotencyKey
  valid : submit.validate = .ok ()

/-- The user message of a turn. -/
structure UserOf (m : AssistantMessage) (id : RunId) (submit : V4SubmitTurn)
    (turn : AssistantTurn) : Prop where
  conversation : m.conversationId = submit.conversationId
  run : m.runId = id
  role : m.role = .user
  sequence : m.sequence = turn.userSequence
  body : m.body = submit.input
  bytes : m.textBytes = submit.input.utf8ByteSize

/-- The assistant messages of a run. -/
def repliesOf (db : RunDb) (id : RunId) : List AssistantMessage :=
  db.assistantMessages.rows.filter (fun m => m.runId = id && m.role = .assistant)

/-- The one message of a reply, which exists from its first delta on. -/
inductive ReplyOf (db : RunDb) (id : RunId) (cid : ConversationId) (status : RunState)
    (text : String) : Prop where
  | silent (none : repliesOf db id = []) (empty : text = "")
  | spoken (m : AssistantMessage) (one : repliesOf db id = [m]) (nonempty : text ≠ "")
      (conversation : m.conversationId = cid) (preview : PreviewOf m text)
      (bounded : m.textBytes ≤ maxV4ContentBytes)
      (settled : status.isTerminal = true → m.state = status)

/-- The payloads that the sink and the prompt of a turn append. -/
def V4ContentPayload.isSink : V4ContentPayload → Bool
  | .textDelta _ | .notice .truncated => true
  | _ => false

def V4ContentPayload.isNotice : V4ContentPayload → Bool
  | .notice _ => true
  | _ => false

/-- The content events of a turn: the payloads of the sink, and the marker
once the run is terminal. -/
structure ContentSound (db : RunDb) (id : RunId) (cid : ConversationId) (status : RunState)
    (deltas : List String) : Prop where
  payloads : ∃ body, (contentOf db id).map ContentEvent.payload =
      body ++ (if status.isTerminal then [.terminal status] else []) ∧
    (∀ payload ∈ body, payload.isSink = true) ∧
    body.filterMap V4ContentPayload.delta = deltas ∧
    (body.filter V4ContentPayload.isNotice).length ≤ 1
  sorted : (contentOf db id).Pairwise (fun a b => a.sequence < b.sequence)
  rows : ∀ event ∈ contentOf db id, event.conversationId = cid ∧
    event.kind = kindOf event.payload ∧ event.byteCount = event.payload.byteCount ∧
    event.payload.validate = .ok ()

/-- What the tables hold of a turn in an undeleted conversation. -/
structure Told (db : RunDb) (deltas : List String) (id : RunId) (submit : V4SubmitTurn)
    (turn : AssistantTurn) (run : RunRecord) : Prop where
  user : ∃ m, db.assistantMessages.find turn.userMessageId = some m ∧ UserOf m id submit turn
  reply : ReplyOf db id submit.conversationId run.status (joined deltas)
  content : ContentSound db id submit.conversationId run.status deltas

structure Recorded (submitDigest : V4SubmitTurn → String) (s : Turns) : Prop where
  marked : Marked s.db
  rows : s.db.assistantTurns.rows.map AssistantTurn.runId = (admissions s.log).map Prod.fst
  owned : ∀ id m, s.db.assistantMessages.find id = some m →
    ∃ turn, s.db.assistantTurns.find m.runId = some turn
  emitted : ∀ id text, TurnEvent.emitted id text ∈ s.log →
    ∃ turn, s.db.assistantTurns.find id = some turn
  order : s.db.assistantTurns.rows.Pairwise (fun a b => a.conversationId = b.conversationId →
    isDeleted s.db a.conversationId = false → a.userSequence < b.userSequence)
  turns : ∀ id submit, (id, submit) ∈ admissions s.log → ∃ turn run,
    BoundTo submitDigest s.db id submit turn run ∧
    (isDeleted s.db submit.conversationId = false →
      Told s.db (deltasOf s.log id) id submit turn run)

/-- What the prompt and the sink of a turn append: deltas, and one notice
that the context was truncated. -/
def sinkContent : AppendCond := fun db run payload =>
  payload.isSink = true ∧ (payload.isNotice = true →
    ∀ event ∈ db.contentEvents.rows, event.runId = run.id → event.payload.isNotice = false)

theorem Recorded.initial (submitDigest : V4SubmitTurn → String) :
    Recorded submitDigest .initial := by
  have hrows : (empty : Table AssistantTurn.runId).rows = [] := rfl
  refine ⟨Marked.empty, ?_, ?_, ?_, ?_, ?_⟩ <;>
    simp [Turns.initial, RunDb.empty, admissions, hrows]

/-! ## Frames -/

variable {submitDigest : V4SubmitTurn → String} {db db' : RunDb} {s s' : Turns}

theorem ReplyOf.congr (h : ReplyOf db id cid status text)
    (hreplies : repliesOf db' id = repliesOf db id) : ReplyOf db' id cid status text := by
  cases h with
  | silent none empty => exact .silent (hreplies.trans none) empty
  | spoken m one nonempty conversation preview bounded settled =>
    exact .spoken m (hreplies.trans one) nonempty conversation preview bounded settled

theorem ContentSound.congr (h : ContentSound db id cid status deltas)
    (hcontent : contentOf db' id = contentOf db id) : ContentSound db' id cid status deltas := by
  refine ⟨?_, ?_, ?_⟩
  · rw [hcontent]
    exact h.payloads
  · rw [hcontent]
    exact h.sorted
  · rw [hcontent]
    exact h.rows

/-- A turn stays told when its own rows stay. -/
theorem Told.congr (h : Told db deltas id submit turn run)
    (huser : ∀ m, db.assistantMessages.find turn.userMessageId = some m → UserOf m id submit turn →
      ∃ m', db'.assistantMessages.find turn.userMessageId = some m' ∧ UserOf m' id submit turn)
    (hreplies : repliesOf db' id = repliesOf db id)
    (hcontent : contentOf db' id = contentOf db id) :
    Told db' deltas id submit turn run := by
  obtain ⟨m, hm, hof⟩ := h.user
  exact ⟨huser m hm hof, h.reply.congr hreplies, h.content.congr hcontent⟩

theorem BoundTo.congr (h : BoundTo submitDigest db id submit turn run)
    (hturns : ∀ turn, db.assistantTurns.find id = some turn → db'.assistantTurns.find id =
      some turn)
    (hruns : ∀ run, db.runs.find id = some run → db'.runs.find id = some run) :
    BoundTo submitDigest db' id submit turn run :=
  { h with turnRow := hturns turn h.turnRow, runRow := hruns run h.runRow }

theorem contentOf_congr (h : db'.contentEvents = db.contentEvents) (id : RunId) :
    contentOf db' id = contentOf db id := by
  unfold contentOf
  rw [h]

theorem repliesOf_congr (h : db'.assistantMessages = db.assistantMessages) (id : RunId) :
    repliesOf db' id = repliesOf db id := by
  unfold repliesOf
  rw [h]

/-- A stored event is the last of its run, and none of another. -/
theorem contentOf_stored (h : Stored db db' cid rid payload nowMs) (id : RunId) :
    contentOf db' id = contentOf db id ++
      (if id = rid then [nextContent db cid rid payload nowMs] else []) := by
  unfold contentOf
  rw [rows_insert h.contents, filter_append]
  by_cases hid : id = rid
  · simp [hid, nextContent]
  · have hne : ¬ rid = id := fun h => hid h.symm
    simp [hid, nextContent, hne]

/-- The replies after an update that keeps runs and roles. -/
theorem repliesOf_modify (h : db'.assistantMessages = db.assistantMessages.modify p f hf)
    (hkeep : ∀ m, (f m).runId = m.runId ∧ (f m).role = m.role) (id : RunId) :
    repliesOf db' id = (repliesOf db id).map (fun m => if p m then f m else m) := by
  unfold repliesOf
  rw [h, rows_modify, filter_map]
  congr 1
  refine filter_congr (fun m _ => ?_)
  simp only [Function.comp_apply]
  split_ifs
  · rw [(hkeep m).1, (hkeep m).2]
  · rfl

theorem mem_repliesOf : m ∈ repliesOf db id ↔
      m ∈ db.assistantMessages.rows ∧ m.runId = id ∧ m.role = .assistant := by
  simp [repliesOf, mem_filter]

theorem assistantMessageOf_eq (db : RunDb) (id : RunId) :
    assistantMessageOf db id = (repliesOf db id).head? := by
  unfold assistantMessageOf repliesOf
  rw [← head?_filter]

/-! ## Writes that admit no turn -/

/-- A later row of the same run. -/
structure SameRequest (run run' : RunRecord) : Prop where
  owner : run'.conversationId = run.conversationId
  digest : run'.requestDigest = run.requestDigest
  key : run'.idempotencyKey = run.idempotencyKey

theorem SameRequest.refl (run : RunRecord) : SameRequest run run := ⟨rfl, rfl, rfl⟩

/-- The turns stay, and each of them stays told. -/
theorem Recorded.keep (h : Recorded submitDigest s) (hmarked : Marked s'.db)
    (hturns : s'.db.assistantTurns = s.db.assistantTurns)
    (hadmissions : admissions s'.log = admissions s.log)
    (hemitted : ∀ id text, TurnEvent.emitted id text ∈ s'.log →
      TurnEvent.emitted id text ∈ s.log ∨ ∃ turn, s.db.assistantTurns.find id = some turn)
    (howned : ∀ id m, s'.db.assistantMessages.find id = some m →
      ∃ turn, s.db.assistantTurns.find m.runId = some turn)
    (hdeleted : ∀ cid, isDeleted s'.db cid = false → isDeleted s.db cid = false)
    (heach : ∀ id submit turn run, BoundTo submitDigest s.db id submit turn run →
      ∃ run', s'.db.runs.find id = some run' ∧ SameRequest run run' ∧
        (isDeleted s'.db submit.conversationId = false →
          Told s.db (deltasOf s.log id) id submit turn run →
          Told s'.db (deltasOf s'.log id) id submit turn run')) : Recorded submitDigest s' := by
  refine ⟨hmarked, ?_, ?_, ?_, ?_, ?_⟩
  · rw [hturns, hadmissions]
    exact h.rows
  · rw [hturns]
    exact howned
  · intro id text hmem
    rw [hturns]
    rcases hemitted id text hmem with hold | hnew
    · exact h.emitted id text hold
    · exact hnew
  · rw [hturns]
    refine h.order.imp (fun {a b} hab hsame hlive => hab hsame (hdeleted _ hlive))
  · intro id submit hmem
    rw [hadmissions] at hmem
    obtain ⟨turn, run, hbound, htold⟩ := h.turns id submit hmem
    obtain ⟨run', hrun', hsame, htold'⟩ := heach id submit turn run hbound
    refine ⟨turn, run', ?_, fun hlive => htold' hlive (htold (hdeleted _ hlive))⟩
    exact { hbound with
      turnRow := by rw [hturns]; exact hbound.turnRow
      runRow := hrun'
      owner := hsame.owner.trans hbound.owner
      digest := hsame.digest.trans hbound.digest
      key := hsame.key.trans hbound.key }

/-- An update of messages keeps the user message of a turn. -/
theorem userOf_modify (h : db'.assistantMessages = db.assistantMessages.modify p f hf)
    (hkeep : ∀ m, p m → UserOf m id submit turn → UserOf (f m) id submit turn)
    (hm : db.assistantMessages.find turn.userMessageId = some m) (hof : UserOf m id submit turn) :
    ∃ m', db'.assistantMessages.find turn.userMessageId = some m' ∧ UserOf m' id submit turn := by
  rw [h, find_modify, hm]
  refine ⟨_, rfl, ?_⟩
  show UserOf (if p m then f m else m) id submit turn
  split_ifs with hp
  · exact hkeep m hp hof
  · exact hof

theorem owned_modify (h : Recorded submitDigest s)
    (hmessages : s'.db.assistantMessages = s.db.assistantMessages.modify p f hf)
    (hkeep : ∀ m, (f m).runId = m.runId) :
    ∀ id m, s'.db.assistantMessages.find id = some m →
      ∃ turn, s.db.assistantTurns.find m.runId = some turn := by
  intro id m hm
  rw [hmessages, find_modify, Option.map_eq_some_iff] at hm
  obtain ⟨old, hold, rfl⟩ := hm
  have hrun : (if p old then f old else old).runId = old.runId := by
    split_ifs
    · exact hkeep old
    · rfl
  rw [hrun]
  exact h.owned id old hold

/-- A write that leaves messages, contents and history alone. -/
theorem Recorded.quiet (h : Recorded submitDigest s) (hmarked : Marked s'.db)
    (hruns : ∀ id run, s.db.runs.find id = some run → s'.db.runs.find id = some run)
    (hturns : s'.db.assistantTurns = s.db.assistantTurns)
    (hmessages : s'.db.assistantMessages = s.db.assistantMessages)
    (hcontents : s'.db.contentEvents = s.db.contentEvents)
    (hdeleted : ∀ cid, isDeleted s'.db cid = isDeleted s.db cid) (hlog : s'.log = s.log) :
    Recorded submitDigest s' := by
  refine h.keep hmarked hturns (by rw [hlog]) (fun _ _ hmem => .inl (hlog ▸ hmem)) ?_
    (fun cid hlive => (hdeleted cid) ▸ hlive) ?_
  · rw [hmessages]
    exact h.owned
  · intro id submit turn run hbound
    refine ⟨run, hruns id run hbound.runRow, .refl run, fun _ htold => ?_⟩
    rw [hlog]
    refine htold.congr (fun m hm hof => ⟨m, ?_, hof⟩) (repliesOf_congr hmessages id)
      (contentOf_congr hcontents id)
    rw [hmessages]
    exact hm

/-- The replies of another run stay. -/
theorem repliesOf_modify_other (h : db'.assistantMessages = db.assistantMessages.modify p f hf)
    (hkeep : ∀ m, (f m).runId = m.runId ∧ (f m).role = m.role)
    (hp : ∀ m, m.runId = id → p m = false) : repliesOf db' id = repliesOf db id := by
  rw [repliesOf_modify h hkeep]
  conv_rhs => rw [← map_id (repliesOf db id)]
  refine map_congr_left (fun m hm => ?_)
  rw [hp m (mem_repliesOf.mp hm).2.1]
  rfl

/-- A settled reply shows the state it is settled in. -/
theorem ReplyOf.settle (h : ReplyOf db id cid status text) {hf : ∀ m, (settle next m).id = m.id}
    (hmessages : db'.assistantMessages =
      db.assistantMessages.modify p (settle next) hf)
    (hp : ∀ m, m.runId = id → m.role = .assistant → p m) : ReplyOf db' id cid next text := by
  have hreplies := repliesOf_modify hmessages (fun _ => ⟨rfl, rfl⟩) id
  cases h with
  | silent none empty =>
    refine .silent ?_ empty
    rw [hreplies, none]
    rfl
  | spoken m one nonempty conversation preview bounded settled =>
    have hm : m.runId = id ∧ m.role = .assistant := by
      have hmem : m ∈ repliesOf db id := by simp [one]
      exact (mem_repliesOf.mp hmem).2
    refine .spoken (m.settle next) ?_ nonempty conversation
      ⟨preview.longest, preview.bytes⟩ bounded (fun _ => rfl)
    rw [hreplies, one, map_cons, hp m hm.1 hm.2]
    rfl

theorem UserOf.settle (h : UserOf m id submit turn) (next : RunState) :
    UserOf (m.settle next) id submit turn :=
  ⟨h.conversation, h.run, h.role, h.sequence, h.body, h.bytes⟩

variable (h : ContentSound db id cid status deltas)

include h

/-- The content of a run that goes on. -/
theorem ContentSound.goOn (hactive : status.isTerminal = false) (hnext : next.isTerminal = false) :
    ContentSound db id cid next deltas := by
  refine ⟨?_, h.sorted, h.rows⟩
  obtain ⟨body, hbody, hrest⟩ := h.payloads
  refine ⟨body, ?_, hrest⟩
  rw [hbody]
  simp [hactive, hnext]

/-- An event at the next place comes after the others of its run. -/
theorem sorted_stored (hstored : Stored db db' cid id payload nowMs) :
    (contentOf db' id).Pairwise (fun a b => a.sequence < b.sequence) ∧
      ∀ event ∈ contentOf db' id, event.conversationId = cid ∧
        event.kind = kindOf event.payload ∧ event.byteCount = event.payload.byteCount ∧
        event.payload.validate = .ok () := by
  rw [contentOf_stored hstored id, if_pos rfl]
  refine ⟨List.pairwise_append.mpr ⟨h.sorted, pairwise_singleton _ _, ?_⟩, ?_⟩
  · intro event hevent last hlast
    rw [mem_singleton] at hlast
    subst hlast
    have hle := le_lastContent (mem_filter.mp hevent).1
    rw [(h.rows event hevent).1] at hle
    show event.sequence < lastContent db cid + 1
    omega
  · intro event hevent
    rcases mem_append.mp hevent with hold | hnew
    · exact h.rows event hold
    · rw [mem_singleton] at hnew
      subst hnew
      exact ⟨rfl, rfl, rfl, hstored.valid⟩

/-- The content of a run that ends with its marker. -/
theorem ContentSound.finish (hactive : status.isTerminal = false) (hnext : next.isTerminal)
    (hstored : Stored db db' cid id (.terminal next) nowMs) :
    ContentSound db' id cid next deltas := by
  obtain ⟨hsorted, hrows⟩ := sorted_stored h hstored
  refine ⟨?_, hsorted, hrows⟩
  obtain ⟨body, hbody, hrest⟩ := h.payloads
  refine ⟨body, ?_, hrest⟩
  rw [contentOf_stored hstored id, if_pos rfl, map_append, hbody]
  simp [nextContent, hactive, hnext]

omit h

/-- A write for another run leaves a turn as it was told. -/
theorem Projected.told_other (h : Projected db db' rid next) (hne : id ≠ rid)
    (htold : Told db deltas id submit turn run) : Told db' deltas id submit turn run := by
  have hsettled : db'.assistantMessages = settleAll db rid next →
      contentOf db' id = contentOf db id → Told db' deltas id submit turn run := by
    intro hmessages hcontent
    refine htold.congr (fun m hm hof => userOf_modify hmessages
      (fun _ _ hother => hother.settle next) hm hof) ?_ hcontent
    refine repliesOf_modify_other hmessages (fun _ => ⟨rfl, rfl⟩) (fun m hm => ?_)
    simp [hm, hne]
  cases h with
  | unbound _ messages contents =>
    refine htold.congr (fun m hm hof => ⟨m, ?_, hof⟩) (repliesOf_congr messages id)
      (contentOf_congr contents id)
    rw [messages]
    exact hm
  | open_ _ _ messages _ contents | full _ _ messages _ _ contents =>
    exact hsettled messages (contentOf_congr contents id)
  | marked _ _ messages _ _ _ stored =>
    refine hsettled messages ?_
    rw [contentOf_stored stored, if_neg hne, append_nil]

/-- A transition leaves its own turn told in the new state. -/
theorem Projected.told_self (h : Projected db db' id next) (hmarked : Marked db)
    (hbound : BoundTo submitDigest db id submit turn run) (hactive : run.status.isTerminal = false)
    (htold : Told db deltas id submit turn run) :
    Told db' deltas id submit turn (run.advance next now) := by
  have hturn := hmarked.turns id turn run hbound.turnRow hbound.runRow
  obtain ⟨m, hm, hof⟩ := htold.user
  have hreply : ∀ hmessages : db'.assistantMessages = settleAll db id next,
      ReplyOf db' id submit.conversationId next (joined deltas) :=
    fun hmessages => htold.reply.settle hmessages (fun m hm _ => by simp [hm])
  have huser : ∀ hmessages : db'.assistantMessages = settleAll db id next,
      ∃ m, db'.assistantMessages.find turn.userMessageId = some m ∧ UserOf m id submit turn :=
    fun hmessages => userOf_modify hmessages (fun _ _ hother => hother.settle next) hm hof
  cases h with
  | unbound hunbound =>
    rw [hbound.turnRow] at hunbound
    cases hunbound
  | open_ _ _ messages settled contents =>
    have hnext : next.isTerminal = false := by
      rcases settled with hnext | ⟨event, hevent, hid, hmarker⟩
      · exact hnext
      · rw [hmarked.kinds event hevent, isMarker_kindOf,
          hturn.unmarked hactive event hevent hid] at hmarker
        cases hmarker
    exact ⟨huser messages, hreply messages,
      (htold.content.congr (contentOf_congr contents id)).goOn hactive hnext⟩
  | marked other bound messages terminal _ _ stored =>
    rw [hbound.turnRow] at bound
    cases bound
    rw [hbound.conversation] at stored
    exact ⟨huser messages, hreply messages, htold.content.finish hactive terminal stored⟩
  | full other bound _ _ last =>
    rw [hbound.turnRow] at bound
    cases bound
    have hroom := hturn.room hactive
    omega

theorem Recorded.moved (h : Recorded submitDigest s) (hfound : s.db.runs.find run.id = some run)
    (hallows : run.status.allows next) (hruns : ∀ id, s'.db.runs.find id = if id =
      run.id then some (run.advance next now) else s.db.runs.find id)
    (hturns : s'.db.assistantTurns = s.db.assistantTurns)
    (hdeleted : ∀ cid, isDeleted s'.db cid = isDeleted s.db cid)
    (hprojected : Projected s.db s'.db run.id next) (hlog : s'.log = s.log) :
    Recorded submitDigest s' := by
  have hactive : run.status.isTerminal = false := RunState.not_isTerminal_of_allows hallows
  refine h.keep (h.marked.moved hfound hallows hruns hturns hdeleted hprojected) hturns
    (by rw [hlog]) (fun _ _ hmem => .inl (hlog ▸ hmem)) ?_ (fun cid hlive => hdeleted cid ▸ hlive)
    ?_
  · have hsettled : s'.db.assistantMessages = settleAll s.db run.id next →
        ∀ id m, s'.db.assistantMessages.find id = some m →
          ∃ turn, s.db.assistantTurns.find m.runId = some turn :=
      fun hmessages => owned_modify h hmessages (fun _ => rfl)
    cases hprojected with
    | unbound _ messages =>
      rw [messages]
      exact h.owned
    | open_ _ _ messages | marked _ _ messages | full _ _ messages => exact hsettled messages
  · intro id submit turn row hbound
    rw [hruns, hlog]
    by_cases hid : id = run.id
    · subst hid
      have hrow : row = run := Option.some.inj (hbound.runRow.symm.trans hfound)
      subst hrow
      rw [if_pos rfl]
      exact ⟨_, rfl, ⟨rfl, rfl, rfl⟩,
        fun _ htold => hprojected.told_self h.marked hbound hactive htold⟩
    · rw [if_neg hid]
      exact ⟨row, hbound.runRow, .refl row, fun _ htold => hprojected.told_other hid htold⟩

/-! ## Appends -/

/-- A payload of the sink extends the content of an active run. -/
theorem ContentSound.extend (h : ContentSound db id cid status deltas)
    (hactive : status.isTerminal = false) (hsink : payload.isSink)
    (hnotice : payload.isNotice → ∀ event ∈ db.contentEvents.rows, event.runId = id →
      event.payload.isNotice = false)
    (hstored : Stored db db' cid id payload nowMs) :
    ContentSound db' id cid status (deltas ++ payload.delta.toList) := by
  obtain ⟨hsorted, hrows⟩ := sorted_stored h hstored
  refine ⟨?_, hsorted, hrows⟩
  obtain ⟨body, hbody, hall, hdeltas, hcount⟩ := h.payloads
  have hpayloads : (contentOf db id).map ContentEvent.payload = body := by
    rw [hbody]
    simp [hactive]
  refine ⟨body ++ [payload], ?_, ?_, ?_, ?_⟩
  · rw [contentOf_stored hstored id, if_pos rfl, map_append, hpayloads]
    simp [nextContent, hactive]
  · intro other hother
    rcases mem_append.mp hother with hold | hnew
    · exact hall other hold
    · rw [mem_singleton] at hnew
      rw [hnew]
      exact hsink
  · rw [filterMap_append, hdeltas]
    cases payload <;> rfl
  · rw [filter_append, length_append]
    by_cases hpayload : payload.isNotice
    · -- the notice is the first
      have hnone : body.filter isNotice = [] := by
        rw [filter_eq_nil_iff, ← hpayloads]
        intro other hother
        obtain ⟨event, hevent, rfl⟩ := mem_map.mp hother
        have hmem := mem_filter.mp hevent
        rw [hnotice hpayload event hmem.1 (by simpa using hmem.2)]
        simp
      rw [hnone]
      simp [hpayload]
    · simpa [hpayload] using hcount

/-- The first message of a reply. -/
theorem ReplyOf.first (hmessages : db.assistantMessages.insert? new = some db'.assistantMessages)
    (hnone : repliesOf db id = []) (hrun : new.runId = id) (hrole : new.role = .assistant)
    (hnonempty : text ≠ "") (hcid : new.conversationId = cid) (hpreview : PreviewOf new text)
    (hbounded : new.textBytes ≤ maxV4ContentBytes)
    (hsettled : status.isTerminal → new.state = status) : ReplyOf db' id cid status text := by
  refine .spoken new ?_ hnonempty hcid hpreview hbounded hsettled
  unfold repliesOf at hnone ⊢
  rw [rows_insert hmessages, filter_append, hnone]
  simp [hrun, hrole]

variable {delta : String}

/-- A delta extends the reply of an active run. -/
theorem ReplyOf.extend (h : ReplyOf db turn.runId cid status text)
    (hcid : turn.conversationId = cid) (hactive : status.isTerminal = false) (hdelta : delta ≠ "")
    (hpreview : Previewed db db' turn delta)
    (hbound : previewBytes (assistantMessageOf db turn.runId) delta ≤ maxV4ContentBytes) :
    ReplyOf db' turn.runId cid status (text ++ delta) := by
  have hnonempty : text ++ delta ≠ "" := by
    intro hempty
    have hsize := congrArg String.utf8ByteSize hempty
    rw [String.utf8ByteSize_append] at hsize
    have hzero : delta.utf8ByteSize = 0 := by
      have hnil : ("" : String).utf8ByteSize = 0 := rfl
      omega
    exact hdelta (String.utf8ByteSize_eq_zero_iff.mp hzero)
  have hsettled : ∀ m : AssistantMessage, status.isTerminal → m.state = status := by
    intro m hterminal
    rw [hactive] at hterminal
    cases hterminal
  have hfound := assistantMessageOf_eq db turn.runId
  cases h with
  | silent none empty =>
    rw [none] at hfound
    rw [hfound] at hbound
    have hnone : ∀ m, (Option.none : Option AssistantMessage) = some m → PreviewOf m text :=
      nofun
    have hbody := previewBody_eq (fun _ => empty) hnone delta
    have hbytes := previewBytes_eq (fun _ => empty) hnone delta
    cases hpreview with
    | extended m found messages =>
      rw [hfound] at found
      cases found
    | started found messageId now messages =>
      exact .first messages none rfl rfl hnonempty hcid ⟨hbody, hbytes⟩ hbound (hsettled _)
  | spoken m one nonempty conversation preview bounded settled =>
    rw [one] at hfound
    rw [hfound] at hbound
    have hsome : ∀ m', some m = some m' → PreviewOf m' text := by
      rintro _ ⟨⟩
      exact preview
    have hno : some m = none → text = "" := nofun
    have hbody := previewBody_eq hno hsome delta
    have hbytes := previewBytes_eq hno hsome delta
    cases hpreview with
    | extended m' found messages =>
      rw [hfound] at found
      cases found
      have hm : m.runId = turn.runId ∧ m.role = .assistant := by
        have hmem : m ∈ repliesOf db turn.runId := by simp [one]
        exact (mem_repliesOf.mp hmem).2
      refine .spoken (m.extend (previewBody (some m) delta) (previewBytes (some m) delta)) ?_
        hnonempty conversation ⟨hbody, hbytes⟩ hbound (hsettled _)
      rw [repliesOf_modify messages (fun _ => ⟨rfl, rfl⟩), one]
      simp [hm]
    | started found messageId now messages =>
      rw [hfound] at found
      cases found

/-- A delta keeps the user message and the replies of the other runs. -/
theorem Previewed.told_user (h : Previewed db db' turn delta)
    (hm : db.assistantMessages.find other.userMessageId = some m) (hof : UserOf m id submit other) :
    ∃ m', db'.assistantMessages.find other.userMessageId = some m' ∧ UserOf m' id submit other := by
  cases h with
  | extended _ _ messages =>
    refine userOf_modify messages (fun m' hp hother => ?_) hm hof
    simp [hother.role] at hp
  | started _ _ _ messages => exact ⟨m, find_insert_of_some messages hm, hof⟩

theorem Previewed.repliesOf_other (h : Previewed db db' turn delta)
    (hne : id ≠ turn.runId) : repliesOf db' id = repliesOf db id := by
  cases h with
  | extended _ _ messages =>
    refine repliesOf_modify_other messages (fun _ => ⟨rfl, rfl⟩) (fun m hm => ?_)
    simp [hm, hne]
  | started _ _ _ messages =>
    have hne' : ¬ turn.runId = id := fun h => hne h.symm
    unfold repliesOf
    rw [rows_insert messages, filter_append]
    simp [hne']

theorem Previewed.owned (h : Recorded submitDigest s) (hpreview : Previewed s.db s'.db turn delta)
    (hbound : s.db.assistantTurns.find turn.runId = some turn) :
    ∀ id m, s'.db.assistantMessages.find id = some m →
      ∃ turn, s.db.assistantTurns.find m.runId = some turn := by
  cases hpreview with
  | extended _ _ messages => exact owned_modify h messages (fun _ => rfl)
  | started _ _ _ messages =>
    intro id m hm
    rw [find_insert messages] at hm
    split_ifs at hm
    · cases hm
      exact ⟨turn, hbound⟩
    · exact h.owned id m hm

theorem V4ContentPayload.isTerminal_of_isSink (h : payload.isSink) :
    payload.isTerminal = false := by
  cases payload <;> first | rfl | cases h

theorem V4ContentPayload.ne_empty_of_validate
    (h : (textDelta text).validate = .ok ()) : text ≠ "" := by
  simp only [validate, ensure_eq_ok, Bool.and_eq_true] at h
  rintro rfl
  simp at h

theorem Recorded.appended (h : Recorded submitDigest s)
    (hfound : s.db.runs.find turn.runId = some run) (hactive : run.status.isTerminal = false)
    (hcond : sinkContent s.db run payload)
    (hbound : s.db.assistantTurns.find turn.runId = some turn)
    (hstored : Stored s.db s'.db turn.conversationId turn.runId payload nowMs)
    (hruns : s'.db.runs = s.db.runs) (hturns : s'.db.assistantTurns = s.db.assistantTurns)
    (hdeleted : ∀ cid, isDeleted s'.db cid = isDeleted s.db cid)
    (hpreview : ∀ text, payload = .textDelta text → Previewed s.db s'.db turn text ∧
      previewBytes (assistantMessageOf s.db turn.runId) text ≤ maxV4ContentBytes)
    (hsilent : (∀ text, payload ≠ .textDelta text) → s'.db.assistantMessages =
      s.db.assistantMessages)
    (hlog : s'.log = s.log ++ emittedOf turn.runId payload) : Recorded submitDigest s' := by
  obtain ⟨hsink, hnotice⟩ := hcond
  have hvisible := isTerminal_of_isSink hsink
  have hmarked := h.marked.appended hfound hactive hvisible hbound hstored hruns hturns hdeleted
  have hquiet : payload.delta = none → s'.db.assistantMessages = s.db.assistantMessages := by
    intro hnone
    refine hsilent (fun text heq => ?_)
    rw [heq] at hnone
    cases hnone
  have hspoken : ∀ text, payload.delta = some text → payload = .textDelta text := by
    intro text hsome
    cases payload <;> cases hsome
    rfl
  refine h.keep hmarked hturns (by simp [hlog]) ?_ ?_ (fun cid hlive => hdeleted cid ▸ hlive) ?_
  · intro id text hmem
    rw [hlog, mem_append] at hmem
    rcases hmem with hold | hnew
    · exact .inl hold
    · right
      cases payload <;> simp [emittedOf] at hnew
      rw [hnew.1]
      exact ⟨turn, hbound⟩
  · cases hdelta : payload.delta with
    | none =>
      rw [hquiet hdelta]
      exact h.owned
    | some text => exact (hpreview text (hspoken text hdelta)).1.owned h hbound
  · intro id submit other row hrow
    refine ⟨row, hruns ▸ hrow.runRow, .refl row, fun _ htold => ?_⟩
    obtain ⟨m, hm, hof⟩ := htold.user
    have huser : ∃ m', s'.db.assistantMessages.find other.userMessageId = some m' ∧
        UserOf m' id submit other := by
      cases hdelta : payload.delta with
      | none =>
        rw [hquiet hdelta]
        exact ⟨m, hm, hof⟩
      | some text => exact (hpreview text (hspoken text hdelta)).1.told_user hm hof
    rw [hlog, deltasOf_append]
    by_cases hid : id = turn.runId
    · subst hid
      have hturn : other = turn := Option.some.inj (hrow.turnRow.symm.trans hbound)
      have hrun : row = run := Option.some.inj (hrow.runRow.symm.trans hfound)
      subst hturn hrun
      have hrid : row.id = other.runId := pk_of_find hfound
      rw [hrow.conversation] at hstored
      rw [hrid] at hnotice
      rw [deltasOf_emittedOf_self]
      refine ⟨huser, ?_, htold.content.extend hactive hsink hnotice hstored⟩
      cases hdelta : payload.delta with
      | none =>
        simp only [Option.toList_none, append_nil]
        exact htold.reply.congr (repliesOf_congr (hquiet hdelta) _)
      | some text =>
        have hpayload := hspoken text hdelta
        have hvalid := hstored.valid
        rw [hpayload] at hvalid
        simp only [Option.toList_some, joined_append]
        exact htold.reply.extend hrow.conversation hactive
          (ne_empty_of_validate hvalid) (hpreview text hpayload).1
          (hpreview text hpayload).2
    · rw [deltasOf_emittedOf_other (fun h => hid h.symm), append_nil]
      refine ⟨huser, htold.reply.congr ?_, htold.content.congr ?_⟩
      · cases hdelta : payload.delta with
        | none => exact repliesOf_congr (hquiet hdelta) id
        | some text => exact (hpreview text (hspoken text hdelta)).1.repliesOf_other hid
      · rw [contentOf_stored hstored, if_neg hid, append_nil]

/-! ## Finalisation and deletion -/

theorem Recorded.finalized (h : Recorded submitDigest s) (hfound : s.db.runs.find run.id = some run)
    (hruns : s'.db.runs = s.db.runs) (hturns : s'.db.assistantTurns = s.db.assistantTurns)
    (hmessages : s'.db.assistantMessages =
      s.db.assistantMessages.modify (fun m => m.runId = run.id && m.role =
      .assistant) (settle run.status) (fun _ => rfl))
    (hcontents : s'.db.contentEvents = s.db.contentEvents)
    (hdeleted : ∀ cid, isDeleted s'.db cid = isDeleted s.db cid) (hlog : s'.log = s.log) :
    Recorded submitDigest s' := by
  have hmarked := h.marked.keep (fun _ _ _ _ hrun => hruns ▸ hrun) hturns hcontents hdeleted
  refine h.keep hmarked hturns (by rw [hlog]) (fun _ _ hmem => .inl (hlog ▸ hmem))
    (owned_modify h hmessages (fun _ => rfl)) (fun cid hlive => hdeleted cid ▸ hlive) ?_
  intro id submit turn row hrow
  refine ⟨row, hruns ▸ hrow.runRow, .refl row, fun _ htold => ?_⟩
  obtain ⟨m, hm, hof⟩ := htold.user
  rw [hlog]
  refine ⟨userOf_modify hmessages (fun _ _ hother => hother.settle _) hm hof, ?_,
    htold.content.congr (contentOf_congr hcontents id)⟩
  by_cases hid : id = run.id
  · subst hid
    have heq : row = run := Option.some.inj (hrow.runRow.symm.trans hfound)
    subst heq
    exact htold.reply.settle hmessages (fun m hm hrole => by simp [hm, hrole])
  · refine htold.reply.congr (repliesOf_modify_other hmessages (fun _ => ⟨rfl, rfl⟩) ?_)
    intro m hm
    simp [hm, hid]

/-- Rows of another conversation survive a deletion. -/
theorem filter_delete {ρ κ : Type} {pk : ρ → κ} {t u : Table pk} {p q : ρ → Bool}
    (h : u = t.delete p) (hkeep : ∀ r ∈ t.rows.filter q, p r = false) :
    u.rows.filter q = t.rows.filter q := by
  rw [h, delete, filter_filter]
  refine filter_congr (fun r hr => ?_)
  by_cases hq : q r
  · have hp := hkeep r (mem_filter.mpr ⟨hr, hq⟩)
    simp [hp, hq]
  · simp [hq]

theorem Recorded.deleted (h : Recorded submitDigest s) (hidle : activeRuns s.db cid = 0)
    (hruns : s'.db.runs = s.db.runs) (hturns : s'.db.assistantTurns = s.db.assistantTurns)
    (hmessages : s'.db.assistantMessages =
      s.db.assistantMessages.delete (fun m => m.conversationId = cid))
    (hcontents : s'.db.contentEvents = s.db.contentEvents.delete (fun e => e.conversationId = cid))
    (hdeleted : ∀ id, isDeleted s'.db id = (id = cid || isDeleted s.db id))
    (hlog : s'.log = s.log) :
    Recorded submitDigest s' := by
  have hlive : ∀ other, isDeleted s'.db other = false →
      other ≠ cid ∧ isDeleted s.db other = false := by
    intro other hother
    rw [hdeleted] at hother
    simpa using hother
  refine h.keep (h.marked.deleted hidle hruns hturns hcontents hdeleted) hturns (by rw [hlog])
    (fun _ _ hmem => .inl (hlog ▸ hmem)) ?_ (fun other hother => (hlive other hother).2) ?_
  · intro id m hm
    rw [hmessages, find_delete] at hm
    have hold := (Option.filter_eq_some_iff.mp hm).1
    exact h.owned id m hold
  · intro id submit turn row hrow
    refine ⟨row, hruns ▸ hrow.runRow, .refl row, fun hother htold => ?_⟩
    have hne := (hlive _ hother).1
    rw [hlog]
    refine htold.congr (fun m hm hof => ⟨m, ?_, hof⟩) ?_ ?_
    · rw [hmessages, find_delete, hm, Option.filter_eq_some_iff]
      exact ⟨rfl, by simp [hof.conversation, hne]⟩
    · refine filter_delete hmessages (fun m hm => ?_)
      cases htold.reply with
      | silent none _ =>
        unfold repliesOf at none
        rw [none] at hm
        cases hm
      | spoken reply one _ conversation =>
        unfold repliesOf at one
        rw [one, mem_singleton] at hm
        simp [hm, conversation, hne]
    · refine filter_delete hcontents (fun event hevent => ?_)
      have hconversation := (htold.content.rows event hevent).1
      simp [hconversation, hne]

/-! ## A new turn -/

/-- A turn of the history has its row. -/
theorem Recorded.admission_of_turn (h : Recorded submitDigest s)
    (hturn : turn ∈ s.db.assistantTurns.rows) :
    ∃ submit run, (turn.runId, submit) ∈ admissions s.log ∧
      BoundTo submitDigest s.db turn.runId submit turn run ∧
      (isDeleted s.db submit.conversationId = false →
        Told s.db (deltasOf s.log turn.runId) turn.runId submit turn run) := by
  have hmem : turn.runId ∈ (admissions s.log).map Prod.fst := by
    rw [← h.rows]
    exact mem_map.mpr ⟨turn, hturn, rfl⟩
  obtain ⟨⟨id, submit⟩, hadmitted, hid⟩ := mem_map.mp hmem
  have hid' : id = turn.runId := hid
  subst hid'
  obtain ⟨other, run, hbound, htold⟩ := h.turns _ submit hadmitted
  have heq : other = turn := by
    have hfind : s.db.assistantTurns.find turn.runId = some turn :=
      mem_rows_iff_find.mp hturn
    exact Option.some.inj (hbound.turnRow.symm.trans hfind)
  subst heq
  exact ⟨submit, run, hadmitted, hbound, htold⟩

theorem lt_nextMessageSequence (h : m ∈ db.assistantMessages.rows) :
    m.sequence < nextMessageSequence db m.conversationId := by
  have hle : m.sequence ≤ (((db.assistantMessages.rows.filter
      (fun other => other.conversationId = m.conversationId)).map
        sequence).max?).getD 0 := by
    refine le_max?_getD_of_mem (mem_map.mpr ⟨m, mem_filter.mpr ⟨h, ?_⟩, rfl⟩)
    simp
  unfold nextMessageSequence
  omega

theorem deltasOf_eq_nil (h : ∀ text, TurnEvent.emitted id text ∉ log) : deltasOf log id = [] := by
  unfold deltasOf
  rw [filterMap_eq_nil_iff]
  intro event hevent
  cases event with
  | admitted _ _ => rfl
  | emitted other text =>
    have hne : ¬ other = id := by
      rintro rfl
      exact h text hevent
    simp [TurnEvent.delta, hne]

theorem Recorded.opened (h : Recorded submitDigest s)
    (hopened : Opened submitDigest s.db s'.db submit id messageId created)
    (hlog : s'.log = s.log ++ [.admitted id submit]) : Recorded submitDigest s' := by
  have hfree : s.db.assistantTurns.find id = none :=
    (insert?_eq_some_iff.mp hopened.turns).1
  have hkept : ∀ id' turn, s.db.assistantTurns.find id' = some turn →
      s'.db.assistantTurns.find id' = some turn :=
    fun id' turn => find_insert_of_some hopened.turns
  have hself : s'.db.assistantTurns.find id = some _ := find_insert_self hopened.turns
  have hreplies : ∀ other, repliesOf s'.db other = repliesOf s.db other := by
    intro other
    unfold repliesOf
    rw [rows_insert hopened.messages, filter_append]
    simp [userMessage]
  refine ⟨h.marked.opened hopened, ?_, ?_, ?_, ?_, ?_⟩
  · rw [rows_insert hopened.turns, hlog, admissions_append, map_append, map_append, h.rows]
    rfl
  · intro messageId' m hm
    rw [find_insert hopened.messages] at hm
    split_ifs at hm
    · cases hm
      exact ⟨_, hself⟩
    · obtain ⟨turn, hturn⟩ := h.owned messageId' m hm
      exact ⟨turn, hkept _ _ hturn⟩
  · intro other text hmem
    rw [hlog, mem_append] at hmem
    rcases hmem with hold | hnew
    · obtain ⟨turn, hturn⟩ := h.emitted other text hold
      exact ⟨turn, hkept _ _ hturn⟩
    · simp at hnew
  · rw [rows_insert hopened.turns]
    refine pairwise_append.mpr ⟨?_, pairwise_singleton _ _, ?_⟩
    · refine h.order.imp (fun {a b} hab hsame hlive => hab hsame ?_)
      rw [← hopened.deleted]
      exact hlive
    · intro a ha b hb hsame hlive
      rw [mem_singleton] at hb
      subst hb
      rw [hopened.deleted] at hlive
      obtain ⟨earlier, run, _, hbound, htold⟩ := h.admission_of_turn ha
      rw [hbound.conversation] at hlive
      obtain ⟨m, hm, hof⟩ := (htold hlive).user
      have hlt := lt_nextMessageSequence (mem_rows_of_find hm)
      rw [hof.sequence, hof.conversation, ← hbound.conversation, hsame] at hlt
      exact hlt
  · intro other request hmem
    rw [hlog, admissions_append, mem_append] at hmem
    rw [hopened.deleted]
    have hdeltas : deltasOf s'.log other = deltasOf s.log other := by
      rw [hlog, deltasOf_append, deltasOf_admitted, append_nil]
    rw [hdeltas]
    rcases hmem with hold | hnew
    · obtain ⟨turn, run, hbound, htold⟩ := h.turns other request hold
      refine ⟨turn, run, hbound.congr (fun turn => hkept other turn)
        (fun run => find_insert_of_some hopened.runs), fun hlive => ?_⟩
      refine (htold hlive).congr (fun m hm hof => ⟨m, ?_, hof⟩) (hreplies other)
        (contentOf_congr hopened.contents other)
      exact find_insert_of_some hopened.messages hm
    · simp only [admissions_admitted, mem_singleton, Prod.mk.injEq] at hnew
      obtain ⟨rfl, rfl⟩ := hnew
      refine ⟨_, _, ⟨hself, rfl, rfl, find_insert_self hopened.runs, rfl, rfl, rfl,
        hopened.valid⟩, fun _ => ?_⟩
      -- nothing was told of the run before it was admitted
      have hsilent : deltasOf s.log other = [] := by
        refine deltasOf_eq_nil (fun text hemitted => ?_)
        obtain ⟨turn, hturn⟩ := h.emitted other text hemitted
        rw [hfree] at hturn
        cases hturn
      have hnone : repliesOf s.db other = [] := by
        rw [eq_nil_iff_forall_not_mem]
        intro m hm
        obtain ⟨hrow, hrun, _⟩ := mem_repliesOf.mp hm
        obtain ⟨turn, hturn⟩ := h.owned m.id m (mem_rows_iff_find.mp hrow)
        rw [hrun, hfree] at hturn
        cases hturn
      have hempty : contentOf s'.db other = [] := by
        rw [contentOf_congr hopened.contents, eq_nil_iff_forall_not_mem]
        intro event hevent
        obtain ⟨hrow, hrun⟩ := mem_filter.mp hevent
        obtain ⟨turn, hturn, _⟩ := h.marked.owned event hrow
        rw [of_decide_eq_true hrun, hfree] at hturn
        cases hturn
      rw [hsilent]
      refine ⟨⟨_, find_insert_self hopened.messages, rfl, rfl, rfl, rfl, rfl, rfl⟩,
        .silent ((hreplies other).trans hnone) rfl, ?_, ?_, ?_⟩
      · refine ⟨[], ?_, by simp, rfl, by simp⟩
        rw [hempty]
        rfl
      · rw [hempty]
        exact List.Pairwise.nil
      · rw [hempty]
        simp

theorem Recorded.write (h : Recorded submitDigest s)
    (hwrite : TurnWrite submitDigest sinkContent s s') : Recorded submitDigest s' := by
  cases hwrite with
  | identity runs turns messages contents deleted log =>
    exact h.quiet (h.marked.keep (fun _ _ _ _ hrun => runs ▸ hrun) turns contents deleted)
      (fun _ _ hrun => runs ▸ hrun) turns messages contents deleted log
  | run newRun id now runs turns messages contents deleted log =>
    exact h.quiet (h.marked.keep (fun _ _ _ _ hrun => find_insert_of_some runs hrun) turns
      contents deleted) (fun _ _ hrun => find_insert_of_some runs hrun) turns messages
      contents deleted log
  | opened submit id messageId created hopened log => exact h.opened hopened log
  | moved run next now found allows runs turns deleted projected log =>
    exact h.moved found allows runs turns deleted projected log
  | appended run turn payload nowMs found active cond bound stored runs turns deleted preview
      silent log =>
    exact h.appended found active cond bound stored runs turns deleted preview silent log
  | finalized run found terminal runs turns messages contents deleted log =>
    exact h.finalized found runs turns messages contents deleted log
  | deleted cid idle runs turns messages contents deleted log =>
    exact h.deleted idle runs turns messages contents deleted log

/-- In every run of calls whose appends come from the prompt and the sink
of a turn, the tables record the history. -/
theorem recorded_of_steps
    (h : Steps (turnStep submitDigest) (fun s call => call.Appends sinkContent s.db) .initial s) :
    Recorded submitDigest s :=
  turns_invariant (Recorded.initial submitDigest) (fun _ _ hs hwrite => hs.write hwrite) h

end Abbey.Run
