import Abbey.RunControl.Reducer
import Abbey.Run.Paging

/-!
# The reducer accepts what the store says

Two models of the run lifecycle meet here: the ledger of the store with
its projection, and the monotonicity checks of the client.

`ViewOf` ties a view to a database: its snapshot was read from an earlier
database, and the last event of an unfinished reading is still stored as
it was read.  It survives every later write (`ViewOf.mono`), and every
snapshot and every page that the store answers extends it
(`mergeSnapshot_accepts`, `mergePage_accepts`).
-/

namespace Abbey.RunControl

open Abbey.Lib Abbey.Run Abbey.Daemon List

variable {db db' : RunDb} {rid : RunId} {view : RunControlView}
variable {page : RunEventPage} {query : RunEventsQuery} {run : RunRecord} {snapshot : RunSnapshot}

/-- The last record of a page that has a continuation. -/
structure PageEnd (db : RunDb) (rid : RunId) (page : RunEventPage)
    (record : RunEventRecord) : Prop where
  last : page.events.getLast? = some record
  sequence : record.sequence = page.nextAfterSequence
  more : page.nextAfterSequence < page.throughSequence
  stored : ∃ stored, db.runEvents.find (rid, record.sequence) = some stored ∧
    projectKind stored none = .ok record.event

/-- A view of one run that the answers of the store led to. -/
structure ViewOf (rid : RunId) (db : RunDb) (view : RunControlView) : Prop where
  snapshot : ∀ snapshot, view.snapshot = some snapshot →
    ∃ before old, Extends before db ∧ before.runs.find rid = some old ∧
      projectRunSnapshot before old = .ok snapshot
  pages : ∀ page ∈ view.eventPages, page.runId = rid
  last : ∀ page, view.eventPages.getLast? = some page → page.hasMore = true →
    ∃ record, PageEnd db rid page record

theorem ViewOf.empty (rid : RunId) (db : RunDb) : ViewOf rid db .empty :=
  ⟨nofun, nofun, nofun⟩

theorem ViewOf.mono (h : ViewOf rid db view) (hext : Extends db db') : ViewOf rid db' view := by
  refine ⟨?_, h.pages, ?_⟩
  · intro snapshot hsnapshot
    obtain ⟨before, old, hbefore, hold, hproject⟩ := h.snapshot snapshot hsnapshot
    exact ⟨before, old, hbefore.trans hext, hold, hproject⟩
  · intro page hpage hmore
    obtain ⟨record, hend⟩ := h.last page hpage hmore
    obtain ⟨stored, hstored, hkind⟩ := hend.stored
    exact ⟨record, hend.last, hend.sequence, hend.more, stored, hext.runEvents _ _ hstored, hkind⟩

/-- A view of a run is bound to no other run. -/
theorem ViewOf.runId {current : RunId} (h : ViewOf rid db view)
    (hrunId : view.runId = some current) : current = rid := by
  unfold RunControlView.runId at hrunId
  cases hsnapshot : view.snapshot with
  | some snapshot =>
    obtain ⟨before, old, _, hold, hproject⟩ := h.snapshot snapshot hsnapshot
    rw [hsnapshot] at hrunId
    cases hrunId
    rw [(projectRunSnapshot_writes hproject).1.runId]
    exact Table.pk_of_find hold
  | none =>
    rw [hsnapshot] at hrunId
    cases hpages : view.eventPages with
    | nil =>
      rw [hpages] at hrunId
      cases hrunId
    | cons page rest =>
      rw [hpages] at hrunId
      cases hrunId
      exact h.pages page (by rw [hpages]; exact mem_cons_self)

theorem ViewOf.bindRun (h : ViewOf rid db view) : bindRun view rid = .ok () := by
  unfold RunControl.bindRun
  rw [ensure_eq_ok]
  cases hrunId : view.runId with
  | none => rfl
  | some current => simp [h.runId hrunId]

/-- A view that is bound to no run is empty. -/
theorem viewOf_of_unbound (h : view.runId = none) : ViewOf rid db view := by
  unfold RunControlView.runId at h
  rw [Option.or_eq_none_iff, Option.map_eq_none_iff, Option.map_eq_none_iff, head?_eq_none_iff] at h
  obtain ⟨hsnapshot, hpages⟩ := h
  refine ⟨?_, ?_, ?_⟩
  · intro snapshot hsome
    rw [hsnapshot] at hsome
    cases hsome
  · intro page hmem
    rw [hpages] at hmem
    cases hmem
  · intro page hlast
    rw [hpages] at hlast
    cases hlast

/-- The view is bound to another run. -/
def Elsewhere (view : RunControlView) (rid : RunId) : Prop :=
  ∃ current, view.runId = some current ∧ current ≠ rid

theorem ViewOf.or_elsewhere (h : ViewOf rid db view) (other : RunId) :
    ViewOf other db view ∨ Elsewhere view other := by
  cases hrunId : view.runId with
  | none => exact .inl (viewOf_of_unbound hrunId)
  | some current =>
    by_cases hsame : current = other
    · have hrid := h.runId hrunId
      rw [← hsame, hrid]
      exact .inl h
    · exact .inr ⟨current, hrunId, hsame⟩

theorem Elsewhere.bindRun (h : Elsewhere view rid) : bindRun view rid = .error .mismatchedRun := by
  obtain ⟨current, hcurrent, hne⟩ := h
  unfold RunControl.bindRun
  simp [hcurrent, hne]

/-! ## Snapshots -/

/-- A snapshot of a later row continues a snapshot of an earlier one. -/
theorem snapshotRegresses_eq_false {before : RunDb} {old row : RunRecord} {previous : RunSnapshot}
    (hext : Extends before db) (hlater : old.Later row)
    (hprevious : projectRunSnapshot before old = .ok previous)
    (hsnapshot : projectRunSnapshot db row = .ok snapshot) :
    snapshotRegresses previous snapshot = false := by
  have hof := (projectRunSnapshot_writes hprevious).1
  have hof' := (projectRunSnapshot_writes hsnapshot).1
  have hcount : ¬ snapshot.eventCount < previous.eventCount := by
    have hle := hlater.next_le
    rw [hof.eventCount, hof'.eventCount]
    omega
  have hkey : snapshot.idempotencyKey = previous.idempotencyKey := by
    rw [hof.idempotencyKey, hof'.idempotencyKey, hlater.idempotencyKey]
  have hconversation : snapshot.conversationId = previous.conversationId := by
    rw [hof.conversationId, hof'.conversationId, hlater.conversationId]
  have hcreated : snapshot.createdAt = previous.createdAt := by
    rw [hof.createdAt, hof'.createdAt, hlater.createdAt]
  have hterminal : previous.state.isTerminal → snapshot = previous := by
    intro hterminal
    rw [hof.state] at hterminal
    have hsame := hlater.terminal hterminal
    subst hsame
    exact projectRunSnapshot_unique hext hprevious hsnapshot
  have hfollow : snapshotStateCanFollow previous.state snapshot.state := by
    refine snapshotStateCanFollow_of_rank ?_ ?_
    · rw [hof.state, hof'.state]
      exact hlater.rank_le
    · intro h
      rw [hterminal h]
  have hstate : snapshot.eventCount = previous.eventCount → snapshot.state = previous.state := by
    intro heq
    have htwo := two_le_of_projectRunSnapshot hprevious
    rw [hof.eventCount, hof'.eventCount] at heq
    have hsame := hlater.same (by omega)
    rw [hof.state, hof'.state, hsame]
  have hrepeat : (decide (snapshot.state ≠ previous.state) &&
      decide (snapshot.eventCount = previous.eventCount)) = false := by
    by_cases heq : snapshot.eventCount = previous.eventCount
    · simp [hstate heq]
    · simp [heq]
  have hchanged : (previous.state.isTerminal && decide (snapshot ≠ previous)) = false := by
    by_cases hend : previous.state.isTerminal
    · simp [hterminal hend]
    · simp [hend]
  unfold snapshotRegresses
  simp only [hcount, hkey, hconversation, hcreated, hrepeat, hchanged, hfollow, ne_eq,
    not_true_eq_false, decide_false, Bool.or_self, Bool.not_true]

/-- Every snapshot that the store answers is accepted. -/
theorem mergeSnapshot_accepts {row : RunRecord} (h : ViewOf rid db view)
    (hrow : db.runs.find rid = some row) (hsnapshot : projectRunSnapshot db row = .ok snapshot) :
    ∃ merged, mergeSnapshot view snapshot = .ok merged ∧ ViewOf rid db merged := by
  have hrunId : snapshot.runId = rid := by
    rw [(projectRunSnapshot_writes hsnapshot).1.runId]
    exact Table.pk_of_find hrow
  have hregress : view.snapshot.any
      (fun previous => snapshotRegresses previous snapshot) = false := by
    cases hprevious : view.snapshot with
    | none => rfl
    | some previous =>
      obtain ⟨before, old, hext, hold, hproject⟩ := h.snapshot previous hprevious
      obtain ⟨row', hrow', hlater⟩ := hext.runs rid old hold
      have heq : row' = row := Option.some.inj (hrow'.symm.trans hrow)
      subst heq
      exact snapshotRegresses_eq_false hext hlater hproject hsnapshot
  refine ⟨{ view with snapshot := some snapshot }, ?_, ?_, h.pages, h.last⟩
  · unfold mergeSnapshot
    rw [hrunId, h.bindRun, ok_bind, hregress]
    rfl
  · intro other hother
    cases hother
    exact ⟨db, row, .refl db, hrow, hsnapshot⟩

theorem mergeSnapshot_elsewhere (h : Elsewhere view snapshot.runId) :
    mergeSnapshot view snapshot = .error .mismatchedRun := by
  unfold mergeSnapshot
  rw [h.bindRun, error_bind]

/-! ## Pages -/

/-- Consecutive events of a walk pass the transition check. -/
theorem validateTransitions_eq_ok {states : Nat → RunState} {last start : Nat}
    {records : List RunEventRecord} {previous : Option RunState}
    (hmoves : ∀ k, 1 ≤ k → k + 1 ≤ last → (states k).allows (states (k + 1)))
    (hstates : ∀ record ∈ records, eventState record.event = states record.sequence)
    (hseq : records.map RunEventRecord.sequence = range' (start + 1) records.length)
    (hlast : start + records.length ≤ last)
    (hprevious : ∀ state, previous = some state → 1 ≤ start ∧ state = states start) :
    validateTransitions previous records = .ok () := by
  induction records generalizing start previous with
  | nil => rfl
  | cons record rest ih =>
    rw [map_cons, length_cons, range'_succ, cons.injEq] at hseq
    rw [length_cons] at hlast
    have hstate : eventState record.event = states (start + 1) := by
      rw [hstates record mem_cons_self, hseq.1]
    have hallows : previous.all (fun state => state.allows (eventState record.event)) := by
      cases previous with
      | none => rfl
      | some state =>
        obtain ⟨hone, hsame⟩ := hprevious state rfl
        rw [Option.all_some, hstate, hsame]
        exact hmoves start hone (by omega)
    have hloop : validateTransitions (some (eventState record.event)) rest = .ok () := by
      refine ih (fun r hr => hstates r (mem_cons_of_mem _ hr)) hseq.2 (by omega) ?_
      intro state hsome
      cases hsome
      exact ⟨by omega, hstate⟩
    unfold validateTransitions
    rw [hallows, ensure_true, ok_bind, hloop]

/-- The two ways in which the client asks for a page. -/
def Continues (view : RunControlView) (rid : RunId) (query : RunEventsQuery) : Prop :=
  (view.eventPages = [] ∧ query.afterSequence = 0 ∧ query.throughSequence = none ∧
    query.runId = rid) ∨
  nextEventsCommand view query.limit = .ok (some query)

/-- A continuation carries the cursor and the watermark of the last page. -/
theorem continues_cases (h : ViewOf rid db view) (hquery : Continues view rid query) :
    query.runId = rid ∧ ((view.eventPages.getLast? = none ∧ query.afterSequence = 0) ∨
        ∃ previous, view.eventPages.getLast? = some previous ∧ previous.hasMore ∧
          query.afterSequence = previous.nextAfterSequence ∧
          query.throughSequence = some previous.throughSequence) := by
  rcases hquery with ⟨hpages, hafter, _, hid⟩ | hnext
  · refine ⟨hid, .inl ⟨?_, hafter⟩⟩
    rw [hpages]
    rfl
  · unfold nextEventsCommand at hnext
    split_ifs at hnext
    split at hnext
    · cases hnext
    · rename_i previous hprevious
      split_ifs at hnext with hmore
      · have hfields := Option.some.inj (Except.ok.inj hnext)
        rw [← hfields]
        refine ⟨?_, .inr ⟨previous, hprevious, hmore, rfl, rfl⟩⟩
        exact h.pages previous (mem_of_getLast? hprevious)
      · cases hnext

/-- A page that continues the view keeps the order of the lifecycle. -/
theorem validateEventOrder_eq_ok (h : ViewOf rid db view) (hledger : RunLedger db run)
    (hid : run.id = rid) (hquery : Continues view rid query) (hpage : page.Answers db run query) :
    validateEventOrder view.eventPages.getLast? page = .ok () := by
  obtain ⟨states, hstates⟩ := hledger.history
  have hread : ∀ record ∈ page.events, eventState record.event = states record.sequence := by
    intro record hmem
    rw [eventState_eq]
    exact (hpage.read record hmem).state hledger hstates
  have hknown := hpage.known
  have hordered := hpage.ordered
  have hbound : query.afterSequence + page.events.length ≤ run.nextEventSequence - 1 := by
    by_cases hempty : page.events = []
    · rw [hempty, length_nil]
      omega
    · obtain ⟨record, hmem, _, hseq, _⟩ := hpage.last hempty
      obtain ⟨stored, hstored, _⟩ := hpage.read record hmem
      have hwithin := hledger.within _ _ hstored
      omega
  have hfirst : (!(decide (page.afterSequence = 0) &&
      page.events.head?.any (fun record => decide (record.event ≠ .queued)))) = true := by
    by_cases hzero : page.afterSequence = 0
    · rw [hpage.after] at hzero
      cases hevents : page.events with
      | nil => simp
      | cons record rest =>
        have hmem : record ∈ page.events := by
          rw [hevents]
          exact mem_cons_self
        have hseq := hpage.sequences
        rw [hevents, map_cons, length_cons, range'_succ, cons.injEq, hzero] at hseq
        have hqueued : eventState record.event = .queued := by
          rw [hread record hmem, hseq.1]
          exact hstates.start
        simp [eq_queued_of_eventState hqueued]
    · simp [hzero]
  have hprevious : ∀ state, (view.eventPages.getLast?.bind
      (fun previous => previous.events.getLast?)).map
        (fun record => eventState record.event) = some state →
      1 ≤ query.afterSequence ∧ state = states query.afterSequence := by
    intro state hstate
    rcases (continues_cases h hquery).2 with ⟨hnone, _⟩ | ⟨previous, hlast, hmore, hafter, hthrough⟩
    · rw [hnone] at hstate
      cases hstate
    · -- the event before the cursor is not the latest, so it was read without a state
      obtain ⟨record, hend⟩ := h.last previous hlast hmore
      obtain ⟨stored, hstored, hkind⟩ := hend.stored
      rw [hlast, Option.bind_some, hend.last] at hstate
      cases hstate
      rw [hend.sequence, ← hafter, ← hid] at hstored
      have hwithin := hledger.within _ _ hstored
      have hwatermark := hpage.through _ hthrough
      have hbefore := hend.more
      obtain ⟨fact, _, hfact, _, hnone⟩ := hstates.records _ _ hstored
      rw [hnone (hstates.not_terminal hwithin.1 (by omega))] at hkind
      refine ⟨hwithin.1, ?_⟩
      show eventState record.event = _
      rw [eventState_eq, ← Except.ok.inj hkind]
      exact hfact
  have htransitions := validateTransitions_eq_ok
    (fun k hk hlt => hstates.moves k hk (by omega)) hread hpage.sequences hbound hprevious
  unfold validateEventOrder
  rw [hfirst, ensure_true, ok_bind, htransitions]

/-- A page that the store answers is the page asked for. -/
theorem page_matches (hpage : page.Answers db run query) : (!(decide (page.runId ≠ query.runId) ||
      decide (page.afterSequence ≠ query.afterSequence) ||
      query.throughSequence.any (fun through => decide (through ≠ page.throughSequence)) ||
      decide (query.limit < page.events.length))) = true := by
  have hthrough : query.throughSequence.any
      (fun through => decide (through ≠ page.throughSequence)) = false := by
    cases hsome : query.throughSequence with
    | none => rfl
    | some through =>
      have hsame := hpage.through through hsome
      simp [hsame]
  have hlimit : ¬ query.limit < page.events.length := by
    have hle := hpage.length
    omega
  simp only [hpage.runId, hpage.after, hthrough, hlimit, ne_eq, not_true_eq_false,
    decide_false, Bool.or_self, Bool.not_false]

theorem mergePage_elsewhere (hpage : page.Answers db run query) (h : Elsewhere view page.runId) :
    mergePage view query page = .error .mismatchedRun := by
  unfold mergePage
  rw [page_matches hpage, ensure_true, ok_bind, h.bindRun, error_bind]

/-- Every page that the store answers is accepted. -/
theorem mergePage_accepts (h : ViewOf rid db view) (hledger : RunLedger db run) (hid : run.id = rid)
    (hquery : Continues view rid query) (hpage : page.Answers db run query) :
    ∃ merged, mergePage view query page = .ok merged ∧ ViewOf rid db merged := by
  obtain ⟨hrunId, hcases⟩ := continues_cases h hquery
  have hpageId : page.runId = rid := hpage.runId.trans hrunId
  have hcontinues : view.eventPages.getLast?.any (pageRegresses query page) = false := by
    rcases hcases with ⟨hnone, _⟩ | ⟨previous, hlast, hmore, hafter, hthrough⟩
    · rw [hnone]
      rfl
    · have hsame := hpage.through _ hthrough
      rw [hlast, Option.any_some]
      unfold pageRegresses
      simp [hafter, hthrough, hsame, hmore]
  have horder := validateEventOrder_eq_ok h hledger hid hquery hpage
  refine ⟨{ view with eventPages := view.eventPages ++ [page] }, ?_, h.snapshot, ?_, ?_⟩
  · unfold mergePage
    rw [page_matches hpage, ensure_true, ok_bind, hpageId, h.bindRun, ok_bind, hcontinues, Bool.not_false,
      ensure_true, ok_bind, horder, ok_bind]
  · intro other hmem
    rcases mem_append.mp hmem with hold | hnew
    · exact h.pages other hold
    · rw [mem_singleton.mp hnew]
      exact hpageId
  · intro other hother hmore
    rw [getLast?_concat] at hother
    cases hother
    obtain ⟨hne, hlt⟩ := hpage.more hmore
    obtain ⟨record, hmem, hlast, hseq, hnext⟩ := hpage.last hne
    obtain ⟨stored, hstored, hkind⟩ := hpage.read record hmem
    have hknown := hpage.known
    have hnotLatest : ¬ record.sequence = run.nextEventSequence - 1 := by omega
    rw [if_neg hnotLatest] at hkind
    rw [hid] at hstored
    exact ⟨record, hlast, hnext.symm, hlt, stored, hstored, hkind⟩

end Abbey.RunControl
