import Abbey.Run.Projected

/-!
# The terminal marker of a turn

A lifecycle transition stores the terminal marker of a turn as a side
effect, and swallows the conflict of a full content ledger.  The conflict
never comes: a turn is admitted with two free places, an append never
takes the last one, and a conversation has one active turn at a time, so
the last place is free until that turn ends (`Marked.room`).

`Marked` is the invariant: an active turn has no marker, and a finished
one has exactly one, after all its other events.
-/

namespace Abbey.Run

open Abbey.Lib Table List

variable {turn : AssistantTurn} {event : ContentEvent} {cid : ConversationId} {nowMs : Nat}
  {rid : RunId} {run : RunRecord} {payload : V4ContentPayload}
variable {id : RunId}

/-! ## The last place of a content ledger -/

variable {submitDigest : V4SubmitTurn → String} {db db' : RunDb}

theorem le_lastContent (h : event ∈ db.contentEvents.rows) :
    event.sequence ≤ lastContent db event.conversationId := by
  refine le_max?_getD_of_mem (mem_map.mpr ⟨event, mem_filter.mpr ⟨h, ?_⟩, rfl⟩)
  simp

theorem lastContent_congr (h : db'.contentEvents = db.contentEvents) (cid : ConversationId) :
    lastContent db' cid = lastContent db cid := by
  unfold lastContent
  rw [h]

/-- The greatest of the earlier sequences and the next one is the next one. -/
theorem max?_append_succ (xs : List Nat) :
    ((xs ++ [xs.max?.getD 0 + 1]).max?).getD 0 = xs.max?.getD 0 + 1 := by
  have hmem : xs.max?.getD 0 + 1 ∈ xs ++ [xs.max?.getD 0 + 1] := by simp
  have hle : ∀ x ∈ xs ++ [xs.max?.getD 0 + 1], x ≤ xs.max?.getD 0 + 1 := by
    intro x hx
    rcases mem_append.mp hx with hx | hx
    · have hmax : x ≤ xs.max?.getD 0 := le_max?_getD_of_mem hx
      omega
    · simp only [mem_singleton] at hx
      omega
  rw [max?_eq_some_iff.mpr ⟨hmem, hle⟩]
  rfl

theorem Stored.lastContent (h : Stored db db' cid rid payload nowMs) (other : ConversationId) :
    lastContent db' other =
      if other = cid then lastContent db cid + 1 else lastContent db other := by
  have hrows := rows_insert h.contents
  split_ifs with hother
  · subst hother
    unfold Run.lastContent
    rw [hrows, filter_append, map_append]
    have hnew : filter (fun e : ContentEvent => e.conversationId = other)
        [nextContent db other rid payload nowMs] = [nextContent db other rid payload nowMs] := by
      simp [nextContent]
    rw [hnew]
    exact max?_append_succ _
  · unfold Run.lastContent
    have hnew : filter (fun e : ContentEvent => e.conversationId = other)
        [nextContent db cid rid payload nowMs] = [] := by
      have hne : ¬ cid = other := fun h => hother h.symm
      simp [nextContent, hne]
    rw [hrows, filter_append, hnew, append_nil]

theorem Stored.mem_rows (h : Stored db db' cid rid payload nowMs) : event ∈ db'.contentEvents.rows ↔
      event ∈ db.contentEvents.rows ∨ event = nextContent db cid rid payload nowMs := by
  rw [rows_insert h.contents, mem_append, mem_singleton]

theorem mem_delete {ρ κ : Type} {pk : ρ → κ} {t : Table pk} {p : ρ → Bool} {r : ρ} :
    r ∈ (t.delete p).rows ↔ r ∈ t.rows ∧ p r = false := by
  unfold delete
  simp [mem_filter]

/-- The kinds of terminal markers are those of terminal payloads. -/
theorem isMarker_kindOf (payload : V4ContentPayload) :
    (kindOf payload).isMarker = payload.isTerminal := by
  cases payload with
  | terminal state => cases state <;> rfl
  | tool id state => cases state <;> rfl
  | _ => rfl

theorem activeRuns_eq_zero (h : activeRuns db cid = 0) (hrun : db.runs.find id = some run)
    (hconversation : run.conversationId = some cid) : run.status.isTerminal := by
  unfold activeRuns at h
  rw [length_eq_zero_iff, filter_eq_nil_iff] at h
  have hnot := h run (mem_rows_of_find hrun)
  simpa [hconversation] using hnot

/-! ## The invariant -/

/-- The one marker of a finished turn, and its place after the others. -/
def MarkedOnce (db : RunDb) (id : RunId) (status : RunState) : Prop :=
  ∃ marker ∈ db.contentEvents.rows, marker.runId = id ∧ marker.payload = .terminal status ∧
    ∀ event ∈ db.contentEvents.rows, event.runId = id →
      event = marker ∨ event.payload.isTerminal = false ∧ event.sequence < marker.sequence

/-- The payloads that a worker appends. -/
def visible : AppendCond := fun _ _ payload => payload.isTerminal = false

/-- What holds of a turn with its run. -/
structure TurnMarked (db : RunDb) (id : RunId) (turn : AssistantTurn) (run : RunRecord) :
    Prop where
  room : run.status.isTerminal = false → lastContent db turn.conversationId < maxSequence
  unmarked : run.status.isTerminal = false → ∀ event ∈ db.contentEvents.rows,
    event.runId = id → event.payload.isTerminal = false
  marked : run.status.isTerminal = true → isDeleted db turn.conversationId = false →
    MarkedOnce db id run.status

structure Marked (db : RunDb) : Prop where
  bound : ∀ id turn, db.assistantTurns.find id = some turn →
    ∃ run, db.runs.find id = some run ∧ run.conversationId = some turn.conversationId
  owned : ∀ event ∈ db.contentEvents.rows, ∃ turn,
    db.assistantTurns.find event.runId = some turn ∧ turn.conversationId = event.conversationId
  kinds : ∀ event ∈ db.contentEvents.rows, event.kind = kindOf event.payload
  single : ∀ id id' turn turn' run run', db.assistantTurns.find id = some turn →
    db.assistantTurns.find id' = some turn' → turn.conversationId = turn'.conversationId →
    db.runs.find id = some run → db.runs.find id' = some run' →
    run.status.isTerminal = false → run'.status.isTerminal = false → id = id'
  turns : ∀ id turn run, db.assistantTurns.find id = some turn → db.runs.find id = some run →
    TurnMarked db id turn run

theorem Marked.empty : Marked .empty := by
  have hrows : (Table.empty : Table ContentEvent.key).rows = [] := rfl
  constructor <;> simp [RunDb.empty, hrows]

/-- Content that belongs to other runs changes nothing for a run. -/
theorem MarkedOnce.congr {status : RunState} (h : MarkedOnce db id status)
    (hrows : ∀ event : ContentEvent, event.runId = id →
      (event ∈ db'.contentEvents.rows ↔ event ∈ db.contentEvents.rows)) :
    MarkedOnce db' id status := by
  obtain ⟨marker, hmarker, hid, hpayload, hlast⟩ := h
  refine ⟨marker, (hrows marker hid).mpr hmarker, hid, hpayload, ?_⟩
  intro event hevent hevid
  exact hlast event ((hrows event hevid).mp hevent) hevid

theorem TurnMarked.congr (h : TurnMarked db id turn run)
    (hcontents : db'.contentEvents = db.contentEvents)
    (hdeleted : isDeleted db' turn.conversationId = isDeleted db turn.conversationId) :
    TurnMarked db' id turn run := by
  refine ⟨?_, ?_, ?_⟩
  · rw [lastContent_congr hcontents]
    exact h.room
  · rw [hcontents]
    exact h.unmarked
  · rw [hdeleted]
    intro hterminal hlive
    exact (h.marked hterminal hlive).congr (fun _ _ => by rw [hcontents])

/-- The contents are the same, and no turn sees another run. -/
theorem Marked.keep (h : Marked db) (hruns : ∀ id turn run, db.assistantTurns.find id = some turn →
      db.runs.find id = some run → db'.runs.find id = some run)
    (hturns : db'.assistantTurns = db.assistantTurns)
    (hcontents : db'.contentEvents = db.contentEvents)
    (hdeleted : ∀ cid, isDeleted db' cid = isDeleted db cid) : Marked db' := by
  have hold : ∀ id turn run, db'.assistantTurns.find id = some turn →
      db'.runs.find id = some run → db.assistantTurns.find id = some turn ∧
        db.runs.find id = some run := by
    intro id turn run hturn hrun
    rw [hturns] at hturn
    obtain ⟨old, hold, _⟩ := h.bound id turn hturn
    have heq : old = run :=
      Option.some.inj ((hruns id turn old hturn hold).symm.trans hrun)
    exact ⟨hturn, heq ▸ hold⟩
  refine ⟨?_, ?_, ?_, ?_, ?_⟩
  · intro id turn hturn
    rw [hturns] at hturn
    obtain ⟨run, hrun, hconversation⟩ := h.bound id turn hturn
    exact ⟨run, hruns id turn run hturn hrun, hconversation⟩
  · rw [hcontents, hturns]
    exact h.owned
  · rw [hcontents]
    exact h.kinds
  · intro id id' turn turn' run run' hturn hturn' hsame hrun hrun'
    obtain ⟨hturn, hrun⟩ := hold id turn run hturn hrun
    obtain ⟨hturn', hrun'⟩ := hold id' turn' run' hturn' hrun'
    exact h.single id id' turn turn' run run' hturn hturn' hsame hrun hrun'
  · intro id turn run hturn hrun
    obtain ⟨hturn, hrun⟩ := hold id turn run hturn hrun
    exact (h.turns id turn run hturn hrun).congr hcontents (hdeleted _)

/-- A new turn starts without content, in a conversation without another
active turn. -/
theorem Marked.opened (h : Marked db) {submit : V4SubmitTurn} {messageId : Nat} {created : Instant}
    (hopened : Opened submitDigest db db' submit id messageId created) : Marked db' := by
  have hfree : db.assistantTurns.find id = none :=
    (insert?_eq_some_iff.mp hopened.turns).1
  have hruns : ∀ id', db'.runs.find id' = if id = id' then
      some (queuedRun (turnRun submitDigest submit) id created) else db.runs.find id' :=
    find_insert hopened.runs
  have hturns : ∀ id', db'.assistantTurns.find id' = if id = id' then
      some ⟨id, submit.conversationId, nextMessageSequence db submit.conversationId,
        submit.routeId, messageId⟩ else db.assistantTurns.find id' :=
    find_insert hopened.turns
  have hkept : ∀ id' turn, db.assistantTurns.find id' = some turn →
      db'.assistantTurns.find id' = some turn :=
    fun id' turn => find_insert_of_some hopened.turns
  -- an earlier turn of the conversation has ended
  have hended : ∀ id' turn run, db.assistantTurns.find id' = some turn →
      db.runs.find id' = some run → turn.conversationId = submit.conversationId →
      run.status.isTerminal := by
    intro id' turn run hturn hrun hsame
    obtain ⟨row, hrow, hconversation⟩ := h.bound id' turn hturn
    have heq : row = run := Option.some.inj (hrow.symm.trans hrun)
    rw [heq, hsame] at hconversation
    exact activeRuns_eq_zero hopened.idle hrun hconversation
  refine ⟨?_, ?_, ?_, ?_, ?_⟩
  · intro id' turn hturn
    rw [hruns]
    rw [hturns] at hturn
    split_ifs at hturn ⊢
    · cases hturn
      exact ⟨_, rfl, rfl⟩
    · exact h.bound id' turn hturn
  · intro event hevent
    rw [hopened.contents] at hevent
    obtain ⟨turn, hturn, hsame⟩ := h.owned event hevent
    exact ⟨turn, hkept _ _ hturn, hsame⟩
  · rw [hopened.contents]
    exact h.kinds
  · intro id₁ id₂ turn₁ turn₂ run₁ run₂ hturn₁ hturn₂ hsame hrun₁ hrun₂ hactive₁ hactive₂
    rw [hruns] at hrun₁ hrun₂
    rw [hturns] at hturn₁ hturn₂
    by_cases h₁ : id = id₁
    · by_cases h₂ : id = id₂
      · exact h₁.symm.trans h₂
      · rw [if_pos h₁] at hturn₁
        rw [if_neg h₂] at hturn₂ hrun₂
        cases hturn₁
        rw [hended id₂ turn₂ run₂ hturn₂ hrun₂ hsame.symm] at hactive₂
        cases hactive₂
    · rw [if_neg h₁] at hturn₁ hrun₁
      by_cases h₂ : id = id₂
      · rw [if_pos h₂] at hturn₂
        cases hturn₂
        rw [hended id₁ turn₁ run₁ hturn₁ hrun₁ hsame] at hactive₁
        cases hactive₁
      · rw [if_neg h₂] at hturn₂ hrun₂
        exact h.single id₁ id₂ turn₁ turn₂ run₁ run₂ hturn₁ hturn₂ hsame hrun₁ hrun₂ hactive₁
          hactive₂
  · intro id' turn run hturn hrun
    rw [hruns] at hrun
    rw [hturns] at hturn
    split_ifs at hturn hrun with hid
    · cases hturn
      cases hrun
      refine ⟨fun _ => ?_, fun _ event hevent hrid => ?_, by rintro ⟨⟩⟩
      · show lastContent db' submit.conversationId < maxSequence
        have hroom := hopened.room
        have hmax : maxSequence = 65536 := rfl
        rw [lastContent_congr hopened.contents]
        omega
      · rw [hopened.contents] at hevent
        obtain ⟨turn, hturn, _⟩ := h.owned event hevent
        rw [hrid, ← hid, hfree] at hturn
        cases hturn
    · exact (h.turns id' turn run hturn hrun).congr hopened.contents (hopened.deleted _)

/-- A stored event belongs to its turn. -/
theorem Marked.owned_stored (h : Marked db) (hturn : db.assistantTurns.find turn.runId = some turn)
    (hturns : db'.assistantTurns = db.assistantTurns)
    (hstored : Stored db db' turn.conversationId turn.runId payload nowMs) :
    ∀ event ∈ db'.contentEvents.rows, ∃ turn, db'.assistantTurns.find event.runId = some turn ∧
      turn.conversationId = event.conversationId := by
  intro event hevent
  rw [hturns]
  rcases hstored.mem_rows.mp hevent with hold | rfl
  · exact h.owned event hold
  · exact ⟨turn, hturn, rfl⟩

theorem Marked.kinds_stored (h : Marked db) (hstored : Stored db db' cid rid payload nowMs) :
    ∀ event ∈ db'.contentEvents.rows, event.kind = kindOf event.payload := by
  intro event hevent
  rcases hstored.mem_rows.mp hevent with hold | rfl
  · exact h.kinds event hold
  · rfl

/-- An event of one turn leaves a turn of another conversation, or one that
has ended, as it was. -/
theorem TurnMarked.other (h : TurnMarked db id turn run)
    (hstored : Stored db db' cid rid payload nowMs) (hne : id ≠ rid)
    (hactive : run.status.isTerminal = false → turn.conversationId ≠ cid)
    (hdeleted : ∀ cid, isDeleted db' cid = isDeleted db cid) : TurnMarked db' id turn run := by
  have hrows : ∀ event : ContentEvent, event.runId = id →
      (event ∈ db'.contentEvents.rows ↔ event ∈ db.contentEvents.rows) := by
    intro event hid
    rw [hstored.mem_rows]
    constructor
    · rintro (hold | rfl)
      · exact hold
      · exact absurd hid.symm hne
    · exact .inl
  refine ⟨?_, ?_, ?_⟩
  · intro hrun
    rw [hstored.lastContent, if_neg (hactive hrun)]
    exact h.room hrun
  · intro hrun event hevent hid
    exact h.unmarked hrun event ((hrows event hid).mp hevent) hid
  · rw [hdeleted]
    intro hterminal hlive
    exact (h.marked hterminal hlive).congr hrows

/-- A transition ends a turn with its marker, or leaves it open. -/
theorem Marked.moved (h : Marked db) {next : RunState} {now : Instant}
    (hfound : db.runs.find run.id = some run) (hallows : run.status.allows next)
    (hruns : ∀ id, db'.runs.find id = if id =
      run.id then some (run.advance next now) else db.runs.find id)
    (hturns : db'.assistantTurns = db.assistantTurns)
    (hdeleted : ∀ cid, isDeleted db' cid = isDeleted db cid)
    (hprojected : Projected db db' run.id next) : Marked db' := by
  have hactive : run.status.isTerminal = false := RunState.not_isTerminal_of_allows hallows
  have hself : db'.runs.find run.id = some (run.advance next now) := by
    rw [hruns, if_pos rfl]
  have hbound : ∀ id turn, db'.assistantTurns.find id = some turn →
      ∃ run, db'.runs.find id = some run ∧ run.conversationId = some turn.conversationId := by
    intro id turn hturn
    rw [hturns] at hturn
    obtain ⟨row, hrow, hconversation⟩ := h.bound id turn hturn
    rw [hruns]
    split_ifs with hid
    · rw [hid, hfound] at hrow
      cases hrow
      exact ⟨_, rfl, hconversation⟩
    · exact ⟨row, hrow, hconversation⟩
  -- a run that is active after the move was active before
  have hbefore : ∀ id row, db'.runs.find id = some row → row.status.isTerminal = false →
      ∃ old, db.runs.find id = some old ∧ old.status.isTerminal = false := by
    intro id row hrow hstatus
    rw [hruns] at hrow
    split_ifs at hrow with hid
    · exact ⟨run, hid ▸ hfound, hactive⟩
    · exact ⟨row, hrow, hstatus⟩
  have hsingle : ∀ id id' turn turn' row row', db'.assistantTurns.find id = some turn →
      db'.assistantTurns.find id' = some turn' → turn.conversationId = turn'.conversationId →
      db'.runs.find id = some row → db'.runs.find id' = some row' →
      row.status.isTerminal = false → row'.status.isTerminal = false → id = id' := by
    intro id id' turn turn' row row' hturn hturn' hsame hrow hrow' hstatus hstatus'
    rw [hturns] at hturn hturn'
    obtain ⟨old, hold, holdActive⟩ := hbefore id row hrow hstatus
    obtain ⟨old', hold', holdActive'⟩ := hbefore id' row' hrow' hstatus'
    exact h.single id id' turn turn' old old' hturn hturn' hsame hold hold' holdActive holdActive'
  cases hprojected with
  | unbound hunbound messages contents =>
    refine h.keep ?_ hturns contents hdeleted
    intro id turn row hturn hrow
    rw [hruns, if_neg, hrow]
    rintro rfl
    rw [hunbound] at hturn
    cases hturn
  | open_ turn bound messages settled contents =>
    have hturn := h.turns _ _ _ bound hfound
    have hnext : next.isTerminal = false := by
      rcases settled with hnext | ⟨event, hevent, hid, hmarker⟩
      · exact hnext
      · rw [h.kinds event hevent, isMarker_kindOf,
          hturn.unmarked hactive event hevent hid] at hmarker
        cases hmarker
    refine ⟨hbound, ?_, ?_, hsingle, ?_⟩
    · rw [contents, hturns]
      exact h.owned
    · rw [contents]
      exact h.kinds
    · intro id turn' row hturn' hrow
      rw [hturns] at hturn'
      rw [hruns] at hrow
      split_ifs at hrow with hid
      · cases hrow
        subst hid
        rw [bound] at hturn'
        cases hturn'
        have hkept := hturn.congr contents (hdeleted _)
        exact ⟨fun _ => hkept.room hactive, fun _ => hkept.unmarked hactive,
          fun hterminal => absurd hterminal (by simp [RunRecord.advance, hnext])⟩
      · exact (h.turns id turn' row hturn' hrow).congr contents (hdeleted _)
  | marked turn bound messages terminal unmarked nowMs stored =>
    have hrid : turn.runId = run.id := pk_of_find bound
    have hturn := h.turns _ _ _ bound hfound
    rw [← hrid] at stored
    have hbound' : db.assistantTurns.find turn.runId = some turn := hrid ▸ bound
    refine ⟨hbound, h.owned_stored hbound' hturns stored, h.kinds_stored stored, hsingle, ?_⟩
    intro id turn' row hturn' hrow
    rw [hturns] at hturn'
    by_cases hid : id = run.id
    · subst hid
      rw [bound] at hturn'
      cases hturn'
      rw [hself] at hrow
      cases hrow
      refine ⟨fun hopen => absurd terminal (by simpa [RunRecord.advance] using hopen),
        fun hopen => absurd terminal (by simpa [RunRecord.advance] using hopen), fun _ _ => ?_⟩
      refine ⟨_, stored.mem_rows.mpr (.inr rfl), hrid, rfl, ?_⟩
      intro event hevent heid
      rcases stored.mem_rows.mp hevent with hold | rfl
      · right
        obtain ⟨owner, howner, hsame⟩ := h.owned event hold
        rw [heid, bound] at howner
        cases howner
        refine ⟨hturn.unmarked hactive event hold heid, ?_⟩
        have hle := le_lastContent hold
        show event.sequence < lastContent db turn.conversationId + 1
        rw [hsame]
        omega
      · exact .inl rfl
    · rw [hruns, if_neg hid] at hrow
      refine (h.turns id turn' row hturn' hrow).other stored (fun h => hid (h.trans hrid)) ?_
        hdeleted
      intro hrow' hsame
      exact hid (h.single _ _ _ _ _ _ hturn' bound hsame hrow hfound hrow' hactive)
  | full turn bound messages terminal last contents =>
    have hroom := (h.turns _ _ _ bound hfound).room hactive
    omega

/-- An append leaves the last place free. -/
theorem Marked.appended (h : Marked db) (hfound : db.runs.find turn.runId = some run)
    (hactive : run.status.isTerminal = false) (hvisible : payload.isTerminal = false)
    (hbound : db.assistantTurns.find turn.runId = some turn)
    (hstored : Stored db db' turn.conversationId turn.runId payload nowMs)
    (hruns : db'.runs = db.runs) (hturns : db'.assistantTurns = db.assistantTurns)
    (hdeleted : ∀ cid, isDeleted db' cid = isDeleted db cid) : Marked db' := by
  refine ⟨?_, h.owned_stored hbound hturns hstored, h.kinds_stored hstored, ?_, ?_⟩
  · rw [hruns, hturns]
    exact h.bound
  · rw [hruns, hturns]
    exact h.single
  · intro id turn' row hturn' hrow
    rw [hturns] at hturn'
    rw [hruns] at hrow
    have hold := h.turns id turn' row hturn' hrow
    by_cases hid : id = turn.runId
    · subst hid
      rw [hbound] at hturn'
      rw [hfound] at hrow
      cases hturn'
      cases hrow
      refine ⟨fun _ => ?_, fun _ event hevent heid => ?_,
        fun hterminal => by rw [hactive] at hterminal; cases hterminal⟩
      · have hplace := hstored.place
        have hfree : lastContent db turn.conversationId + 1 ≠ maxSequence := by
          rcases hstored.reserved with hterminal | hfree
          · rw [hvisible] at hterminal
            cases hterminal
          · exact hfree
        rw [hstored.lastContent, if_pos rfl]
        omega
      · rcases hstored.mem_rows.mp hevent with hmem | rfl
        · exact hold.unmarked hactive event hmem heid
        · exact hvisible
    · refine hold.other hstored hid ?_ hdeleted
      intro hrow' hsame
      exact hid (h.single _ _ _ _ _ _ hturn' hbound hsame hrow hfound hrow' hactive)

/-- A deletion removes the content of a conversation without active runs. -/
theorem Marked.deleted (h : Marked db) (hidle : activeRuns db cid = 0) (hruns : db'.runs = db.runs)
    (hturns : db'.assistantTurns = db.assistantTurns)
    (hcontents : db'.contentEvents = db.contentEvents.delete (fun e => e.conversationId = cid))
    (hdeleted : ∀ id, isDeleted db' id = (id = cid || isDeleted db id)) : Marked db' := by
  have hmem : ∀ event, event ∈ db'.contentEvents.rows ↔
      event ∈ db.contentEvents.rows ∧ event.conversationId ≠ cid := by
    intro event
    rw [hcontents, mem_delete]
    simp
  have hlast : ∀ other, other ≠ cid → lastContent db' other = lastContent db other := by
    intro other hne
    unfold lastContent
    rw [hcontents, delete, filter_filter]
    congr 3
    refine filter_congr (fun event _ => ?_)
    by_cases heq : event.conversationId = other
    · simp [heq, hne]
    · simp [heq]
  refine ⟨?_, ?_, ?_, ?_, ?_⟩
  · rw [hruns, hturns]
    exact h.bound
  · intro event hevent
    rw [hturns]
    exact h.owned event ((hmem event).mp hevent).1
  · intro event hevent
    exact h.kinds event ((hmem event).mp hevent).1
  · rw [hruns, hturns]
    exact h.single
  · intro id turn run hturn hrun
    rw [hturns] at hturn
    rw [hruns] at hrun
    have hold := h.turns id turn run hturn hrun
    refine ⟨fun hactive => ?_, fun hactive event hevent => ?_, fun hterminal hlive => ?_⟩
    · obtain ⟨row, hrow, hconversation⟩ := h.bound id turn hturn
      have heq : row = run := Option.some.inj (hrow.symm.trans hrun)
      have hne : turn.conversationId ≠ cid := by
        intro hcid
        rw [heq, hcid] at hconversation
        rw [activeRuns_eq_zero hidle hrun hconversation] at hactive
        cases hactive
      rw [hlast _ hne]
      exact hold.room hactive
    · exact hold.unmarked hactive event ((hmem event).mp hevent).1
    · have hboth : turn.conversationId ≠ cid ∧ isDeleted db turn.conversationId = false := by
        rw [hdeleted] at hlive
        simpa using hlive
      refine (hold.marked hterminal hboth.2).congr (fun event hid => ?_)
      rw [hmem]
      refine ⟨fun hevent => hevent.1, fun hevent => ⟨hevent, ?_⟩⟩
      obtain ⟨owner, howner, hsame⟩ := h.owned event hevent
      rw [hid, hturn] at howner
      cases howner
      rw [← hsame]
      exact hboth.1

theorem Marked.write {s s' : Turns} (h : Marked s.db)
    (hwrite : TurnWrite submitDigest visible s s') : Marked s'.db := by
  cases hwrite with
  | identity runs turns messages contents deleted
  | finalized run found terminal runs turns messages contents deleted =>
    exact h.keep (fun _ _ _ _ hrun => runs ▸ hrun) turns contents deleted
  | run newRun id now runs turns messages contents deleted _ =>
    exact h.keep (fun _ _ _ _ hrun => find_insert_of_some runs hrun) turns contents deleted
  | opened submit id messageId created hopened _ => exact h.opened hopened
  | moved run next now found allows runs turns deleted projected _ =>
    exact h.moved found allows runs turns deleted projected
  | appended run turn payload nowMs found active cond bound stored runs turns deleted preview
      silent _ => exact h.appended found active cond bound stored runs turns deleted
  | deleted cid idle runs turns messages contents deleted _ =>
    exact h.deleted idle runs turns contents deleted

/-! ## Exactly one marker -/

/-- The content events of a run. -/
def contentOf (db : RunDb) (id : RunId) : List ContentEvent :=
  db.contentEvents.rows.filter (fun event => event.runId = id)

/-- In every run of calls whose appends are visible payloads, a turn has a
terminal content event exactly when its run is terminal; it is the only
one, it carries the status of the run and it comes last.  While the run is
active, a terminal marker meets no full ledger. -/
theorem turn_ends_with_one_marker (submitDigest : V4SubmitTurn → String) {db : RunDb}
    (h : Steps (callStep submitDigest) (fun db call => call.Appends visible db) .empty db)
    {id : RunId} {turn : AssistantTurn} {run : RunRecord}
    (hturn : db.assistantTurns.find id = some turn) (hrun : db.runs.find id = some run) :
    (isDeleted db turn.conversationId = false →
      ((∃ event ∈ contentOf db id, event.payload.isTerminal = true) ↔
        run.status.isTerminal = true) ∧
      ∀ event ∈ contentOf db id, event.payload.isTerminal = true →
        event.payload = .terminal run.status ∧
        (∀ other ∈ contentOf db id, other.payload.isTerminal = true → other = event) ∧
        ∀ other ∈ contentOf db id, other.sequence ≤ event.sequence) ∧
      (run.status.isTerminal = false →
        ∀ (mid : RunDb) (next : RunState) (nowMs : Nat), mid.contentEvents = db.contentEvents →
          insertContentEvent mid turn.conversationId id (.terminal next) nowMs ≠
            .error .assistantConflict) := by
  have hmarked : Marked db :=
    reachable_invariant Marked.empty (fun _ _ hdb hwrite => hdb.write hwrite) h
  have hfacts := hmarked.turns id turn run hturn hrun
  have hmem : ∀ event, event ∈ contentOf db id ↔
      event ∈ db.contentEvents.rows ∧ event.runId = id := by
    intro event
    simp [contentOf, mem_filter]
  refine ⟨fun hlive => ?_, fun hactive mid next nowMs hsame hconflict => ?_⟩
  · cases hterminal : run.status.isTerminal with
    | false =>
      have hnone : ∀ event ∈ contentOf db id, event.payload.isTerminal = false := by
        intro event hevent
        obtain ⟨hrow, hid⟩ := (hmem event).mp hevent
        exact hfacts.unmarked hterminal event hrow hid
      refine ⟨⟨?_, nofun⟩, ?_⟩
      · rintro ⟨event, hevent, hpayload⟩
        rw [hnone event hevent] at hpayload
        cases hpayload
      · intro event hevent hpayload
        rw [hnone event hevent] at hpayload
        cases hpayload
    | true =>
      obtain ⟨marker, hmarker, hid, hpayload, hlast⟩ := hfacts.marked hterminal hlive
      have hunique : ∀ event ∈ contentOf db id, event.payload.isTerminal = true →
          event = marker := by
        intro event hevent heterminal
        obtain ⟨hrow, heid⟩ := (hmem event).mp hevent
        rcases hlast event hrow heid with heq | ⟨hopen, _⟩
        · exact heq
        · rw [hopen] at heterminal
          cases heterminal
      refine ⟨⟨fun _ => rfl, fun _ => ⟨marker, (hmem marker).mpr ⟨hmarker, hid⟩, ?_⟩⟩, ?_⟩
      · rw [hpayload]
        rfl
      · intro event hevent heterminal
        have heq := hunique event hevent heterminal
        subst heq
        refine ⟨hpayload, hunique, ?_⟩
        intro other hother
        obtain ⟨hrow, hoid⟩ := (hmem other).mp hother
        rcases hlast other hrow hoid with rfl | ⟨_, hlt⟩
        · exact le_refl _
        · omega
  · have hroom := hfacts.room hactive
    have hfull := full_of_conflict hconflict
    rw [lastContent_congr hsame] at hfull
    omega

theorem succeeded_leads : Evidence.leadsTo .succeeded .succeeded = true := rfl

/-- The streamed turn, up to its end. -/
def finishedCalls : List StoreCall :=
  streamedCalls ++ [moveRun ⟨1⟩ .running ⟨.succeeded, .succeeded, succeeded_leads⟩ 9,
    .finalizeTurn ⟨1⟩ .succeeded]

/-- `Appends visible` as a check. -/
def isVisible : StoreCall → Bool
  | .appendContent _ payload _ _ => !payload.isTerminal
  | _ => true

theorem appends_of_isVisible {call : StoreCall} (h : isVisible call) (db : RunDb) :
    call.Appends visible db := by
  cases call with
  | appendContent id payload nowMs messageId =>
    intro _ _ _
    simpa [isVisible, visible] using h
  | _ => trivial

theorem turn_ends_with_one_marker_finished :
    ∃ turn run, (applyCalls finishedCalls).assistantTurns.find ⟨1⟩ = some turn ∧
      (applyCalls finishedCalls).runs.find ⟨1⟩ = some run ∧ run.status = .succeeded ∧
      isDeleted (applyCalls finishedCalls) turn.conversationId = false ∧
      ∃ event ∈ contentOf (applyCalls finishedCalls) ⟨1⟩, event.payload.isTerminal = true := by
  have hvisible : finishedCalls.all isVisible = true := rfl
  have hsteps : Steps (callStep (fun _ => "")) (fun db call => call.Appends visible db) .empty
      (applyCalls finishedCalls) :=
    steps_of_run_of_forall
      (fun call hcall db => appends_of_isVisible (all_eq_true.mp hvisible call hcall) db)
      (run_callStep .empty finishedCalls)
  refine ⟨_, _, rfl, rfl, rfl, rfl, ?_⟩
  exact ((turn_ends_with_one_marker _ hsteps rfl rfl).1 rfl).1.mpr rfl

end Abbey.Run
