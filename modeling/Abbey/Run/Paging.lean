import Abbey.Run.Reading

/-!
# Paging through the event ledger

A client reads the events of a run page by page.  The first request fixes
the watermark, and every later request carries it on, while the ledger
grows underneath.

* `runEventsPage_eq_ok` is one request on a sound ledger: it answers the
  events after the cursor, as many as the limit and the watermark allow.
* `traverse` is the whole reading, with the store calls that commit
  between two requests.  `traverse_complete` says that it ends, and reads
  exactly the events of the first request.

A page carries RFC 3339 times only.  A reading of the clock after the year
9999 has no such text, and the page with an event of that time is refused
(`late_clock_refuses_page`).
-/

namespace Abbey.Run

open Abbey.Lib List Except

variable {events : List RunEvent} {records : List RunEventRecord} {f : Nat → RunEvent}
  {states : Nat → RunState} {through : Option Nat} {record : RunEventRecord} {run : RunRecord}
variable {db : RunDb} {page : RunEventPage} {query : RunEventsQuery} {after limit start fixed : Nat}
  {runId : RunId}

/-! ## The rows of a page -/

/-- The places of a page: after the cursor, through the watermark, at most
`limit` of them. -/
theorem filter_take_range' {n through : Nat} (hthrough : through ≤ n) (hafter : after ≤ through) :
    ((range' 1 n).filter (fun k => decide (after < k) && decide (k ≤ through))).take
      limit = range' (after + 1) (min limit (through - after)) := by
  have hsplit : range' 1 n = range' 1 after ++ (range' (after + 1) (through - after) ++
        range' (through + 1) (n - through)) := by
    have hinner : range' (after + 1) (through - after) ++
        range' (through + 1) (n - through) = range' (after + 1) (n - after) := by
      have happend := range'_append_1 (s := after + 1) (m := through - after)
        (n := n - through)
      have hstart : after + 1 + (through - after) = through + 1 := by omega
      have hcount : through - after + (n - through) = n - after := by omega
      rw [hstart, hcount] at happend
      exact happend
    have houter := range'_append_1 (s := 1) (m := after) (n := n - after)
    have hstart : 1 + after = after + 1 := by omega
    have hcount : after + (n - after) = n := by omega
    rw [hstart, hcount] at houter
    rw [hinner, houter]
  have hlow : (range' 1 after).filter
      (fun k => decide (after < k) && decide (k ≤ through)) = [] := by
    rw [filter_eq_nil_iff]
    intro k hk
    have hk2 := (mem_range'_1.mp hk).2
    simp only [Bool.and_eq_true, decide_eq_true_eq, not_and]
    omega
  have hmid : (range' (after + 1) (through - after)).filter
      (fun k => decide (after < k) && decide (k ≤ through)) =
      range' (after + 1) (through - after) := by
    rw [filter_eq_self]
    intro k hk
    obtain ⟨hk1, hk2⟩ := mem_range'_1.mp hk
    simp only [Bool.and_eq_true, decide_eq_true_eq]
    omega
  have hhigh : (range' (through + 1) (n - through)).filter
      (fun k => decide (after < k) && decide (k ≤ through)) = [] := by
    rw [filter_eq_nil_iff]
    intro k hk
    have hk1 := (mem_range'_1.mp hk).1
    simp only [Bool.and_eq_true, decide_eq_true_eq, not_and]
    omega
  rw [hsplit, filter_append, filter_append, hlow, hmid, hhigh, nil_append, append_nil]
  by_cases hlimit : limit ≤ through - after
  · rw [Nat.min_eq_left hlimit, take_range'_of_length_ge hlimit]
  · rw [Nat.min_eq_right (by omega), take_range'_of_length_le (by omega)]

/-- A record is the projection of a stored event. -/
structure Projects (stored : RunEvent) (record : RunEventRecord) : Prop where
  runId : record.runId = stored.runId
  sequence : record.sequence = stored.sequence
  recordedAt : record.recordedAt = stored.createdAt
  fact : ∃ state, projectKind stored state = .ok record.event
  valid : record.validate = .ok ()

theorem projects_of_projectRunEvent
    (h : projectRunEvent stored state = .ok record) : Projects stored record := by
  unfold projectRunEvent at h
  simp only [bind_ok_iff, orElse_eq_ok, ok.injEq] at h
  obtain ⟨fact, hfact, _, _, _, hvalid, rfl⟩ := h
  exact ⟨rfl, rfl, rfl, ⟨state, hfact⟩, hvalid⟩

/-- A state that a walk leaves is not terminal. -/
theorem History.not_terminal (h : History db run states) (hk : 1 ≤ k)
    (hlt : k + 1 < run.nextEventSequence) : (states k).isTerminal = false :=
  RunState.not_isTerminal_of_allows (h.moves k hk hlt)

/-- Every event of a sound ledger projects, the latest with the state of
the run and the others without. -/
theorem RunLedger.projectPage (h : RunLedger db run)
    (hf : ∀ k, 1 ≤ k → k < run.nextEventSequence → db.runEvents.find (run.id, k) = some (f k) ∧
      (f k).runId = run.id ∧ (f k).sequence = k)
    {ks : List Nat} (hks : ∀ k ∈ ks, 1 ≤ k ∧ k < run.nextEventSequence)
    (hdated : ∀ k ∈ ks, (f k).createdAt.ms ≤ maxRfc3339Ms) :
    ∃ records, Run.projectPage run.status (run.nextEventSequence - 1) (ks.map f) =
        .ok records ∧ List.Forall₂ Projects (ks.map f) records := by
  obtain ⟨states, hstates⟩ := h.history
  induction ks with
  | nil => exact ⟨[], rfl, .nil⟩
  | cons k rest ih =>
    obtain ⟨hk, hlt⟩ := hks k mem_cons_self
    have htime := hdated k mem_cons_self
    obtain ⟨hfind, _, hseq⟩ := hf k hk hlt
    have hne : (f k).sequence ≠ 0 := by omega
    have hrecords := hstates.records k _ hfind
    obtain ⟨record, hrecord⟩ : ∃ record, projectRunEvent (f k)
        (if (f k).sequence = run.nextEventSequence - 1 then some run.status else none) =
        .ok record := by
      by_cases hlast : k = run.nextEventSequence - 1
      · rw [hseq, if_pos hlast]
        have hstate : states k = run.status := by rw [hlast, hstates.last]
        obtain ⟨fact, hproject, _⟩ := projectRunEvent_some (hstate ▸ hrecords) hne htime
        exact ⟨_, hproject⟩
      · rw [hseq, if_neg hlast]
        obtain ⟨fact, hproject, _⟩ := projectRunEvent_none hrecords
          (hstates.not_terminal hk (by omega)) hne htime
        exact ⟨_, hproject⟩
    obtain ⟨records, hrest, hforall⟩ := ih
      (fun j hj => hks j (mem_cons_of_mem _ hj))
      (fun j hj => hdated j (mem_cons_of_mem _ hj))
    refine ⟨record :: records, ?_, .cons (projects_of_projectRunEvent hrecord) hforall⟩
    simp only [map_cons, Run.projectPage, hrecord, hrest, ok_bind]

/-! ## The check of a page -/

/-- The contiguity loop passes on consecutive sequences. -/
theorem validateRecords_eq_ok
    (hseq : records.map RunEventRecord.sequence = range' start records.length)
    (hid : ∀ record ∈ records, record.runId = runId)
    (hvalid : ∀ record ∈ records, record.validate = .ok ())
    (hbound : start + records.length < 2 ^ 64) : validateRecords runId start records = .ok () := by
  induction records generalizing start with
  | nil => rfl
  | cons record rest ih =>
    rw [map_cons, length_cons, range'_succ, cons.injEq] at hseq
    obtain ⟨hfirst, hrest⟩ := hseq
    have hsucc : checkedSucc start = some (start + 1) := by
      rw [checkedSucc, if_pos]
      rw [length_cons] at hbound
      omega
    have hloop := ih hrest (fun r hr => hid r (mem_cons_of_mem _ hr))
      (fun r hr => hvalid r (mem_cons_of_mem _ hr))
      (by rw [length_cons] at hbound; omega)
    simp [validateRecords, hvalid record mem_cons_self, hfirst,
      hid record mem_cons_self, hsucc, hloop]

theorem Projects.sequences (h : List.Forall₂ Projects events records) :
    records.map RunEventRecord.sequence = events.map RunEvent.sequence := by
  induction h with
  | nil => rfl
  | cons hhead _ ih => rw [map_cons, map_cons, hhead.sequence, ih]

theorem Projects.forall_mem (h : List.Forall₂ Projects events records) (hmem : record ∈ records) :
    ∃ stored ∈ events, Projects stored record := by
  induction h with
  | nil => cases hmem
  | cons hhead _ ih =>
    rcases mem_cons.mp hmem with rfl | hrest
    · exact ⟨_, mem_cons_self, hhead⟩
    · obtain ⟨stored, hstored, hproj⟩ := ih hrest
      exact ⟨stored, mem_cons_of_mem _ hstored, hproj⟩

/-- One request on a sound ledger: the events after the cursor, as many as
the limit and the watermark allow. -/
theorem runEventsPage_eq_ok (hrun : db.runs.find run.id = some run) (h : RunLedger db run)
    (hf : ∀ k, 1 ≤ k → k < run.nextEventSequence → db.runEvents.find (run.id, k) = some (f k) ∧
      (f k).runId = run.id ∧ (f k).sequence = k)
    (hevents : eventsOf db run.id = (range' 1 (run.nextEventSequence - 1)).map f)
    (hlimit : 1 ≤ limit ∧ limit ≤ maxRunEventPage)
    (hthrough : through = some fixed ∨ through = none ∧ after = 0 ∧ fixed =
      run.nextEventSequence - 1)
    (hfixed : 1 ≤ fixed ∧ fixed < run.nextEventSequence) (hafter : after ≤ fixed)
    (hdated : ∀ k, 1 ≤ k → k ≤ fixed → (f k).createdAt.ms ≤ maxRfc3339Ms) :
    ∃ page, runEventsPage db run.id after through limit = .ok page ∧ page.throughSequence = fixed ∧
      page.nextAfterSequence = after + min limit (fixed - after) ∧
      page.hasMore = decide (page.nextAfterSequence < fixed) ∧
      List.Forall₂ Projects
        ((range' (after + 1) (min limit (fixed - after))).map f) page.events := by
  obtain ⟨hlimit1, hlimit2⟩ := hlimit
  obtain ⟨hfixed1, hfixed2⟩ := hfixed
  have hsix := h.next_le_six
  have hsixteen : maxRunEventPage = 16 := rfl
  have hwater : through.getD (run.nextEventSequence - 1) = fixed := by
    rcases hthrough with hsome | ⟨hnone, _, hlast⟩
    · rw [hsome, Option.getD_some]
    · rw [hnone, Option.getD_none, hlast]
  have hcontinuation : (!(decide (0 < after) && through.isNone)) := by
    rcases hthrough with hsome | ⟨_, hzero, _⟩
    · simp [hsome]
    · simp [hzero]
  have hrows : eventsBetween db run.id after fixed limit =
      (range' (after + 1) (min limit (fixed - after))).map f := by
    unfold eventsBetween
    rw [hevents, filter_map, ← map_take]
    have hcongr : (range' 1 (run.nextEventSequence - 1)).filter
        ((fun event : RunEvent => decide (after < event.sequence) &&
          decide (event.sequence ≤ fixed)) ∘ f) =
        (range' 1 (run.nextEventSequence - 1)).filter
          (fun k => decide (after < k) && decide (k ≤ fixed)) := by
      refine filter_congr (fun k hk => ?_)
      obtain ⟨hk1, hk2⟩ := mem_range'_1.mp hk
      simp only [Function.comp_apply, (hf k hk1 (by omega)).2.2]
    rw [hcongr, filter_take_range' (by omega) hafter]
  have hplaces : ∀ k ∈ range' (after + 1) (min limit (fixed - after)), 1 ≤ k ∧ k ≤ fixed := by
    intro k hk
    obtain ⟨hk1, hk2⟩ := mem_range'_1.mp hk
    have hmin : min limit (fixed - after) ≤ fixed - after := Nat.min_le_right _ _
    omega
  obtain ⟨records, hrecords, hforall⟩ := h.projectPage hf
    (fun k hk => ⟨(hplaces k hk).1, by have := (hplaces k hk).2; omega⟩)
    (fun k hk => hdated k (hplaces k hk).1 (hplaces k hk).2)
  have hstored : ∀ k ∈ range' (after + 1) (min limit (fixed - after)),
      (f k).runId = run.id ∧ (f k).sequence = k := by
    intro k hk
    obtain ⟨hk1, hk2⟩ := hplaces k hk
    exact (hf k hk1 (by omega)).2
  have hsequences : records.map RunEventRecord.sequence =
      range' (after + 1) (min limit (fixed - after)) := by
    rw [Projects.sequences hforall]
    exact map_sequence_range' (fun k hk => (hstored k hk).2)
  have hlength : records.length = min limit (fixed - after) := by
    have hcount := congrArg length hsequences
    rw [length_map, length_range'] at hcount
    exact hcount
  have hmin1 : min limit (fixed - after) ≤ limit := Nat.min_le_left _ _
  have hmin2 : min limit (fixed - after) ≤ fixed - after := Nat.min_le_right _ _
  have hlast : (records.getLast?.map RunEventRecord.sequence).getD after =
      after + min limit (fixed - after) := by
    rw [← getLast?_map, hsequences, getLast?_range']
    split_ifs with hzero
    · rw [hzero, Option.getD_none, Nat.add_zero]
    · rw [Option.getD_some]
      omega
  have hvalid : validateRecords run.id (after + 1) records = .ok () := by
    refine validateRecords_eq_ok ?_ ?_ ?_ (by omega)
    · rw [hlength]
      exact hsequences
    · intro record hmem
      obtain ⟨stored, hmem', hproj⟩ := Projects.forall_mem hforall hmem
      obtain ⟨k, hk, rfl⟩ := mem_map.mp hmem'
      rw [hproj.runId]
      exact (hstored k hk).1
    · intro record hmem
      obtain ⟨stored, _, hproj⟩ := Projects.forall_mem hforall hmem
      exact hproj.valid
  have hsucc : checkedSucc after = some (after + 1) := by
    rw [checkedSucc, if_pos]
    omega
  have hmore : (!(records.isEmpty &&
      decide (after + min limit (fixed - after) < fixed))) = true := by
    by_cases hempty : records = []
    · subst hempty
      rw [length_nil] at hlength
      have hnot : ¬ after + min limit (fixed - after) < fixed := by
        rw [← hlength]
        rcases Nat.lt_or_ge after fixed with hlt | hge
        · rw [Nat.min_def] at hlength
          split_ifs at hlength <;> omega
        · omega
      simp [hnot]
    · simp [hempty]
  have hpage : (RunEventPage.mk run.id records after (after + min limit (fixed - after))
      fixed (decide (after + min limit (fixed - after) < fixed))).validate = .ok () := by
    have hle16 : records.length ≤ maxRunEventPage := by omega
    have hcursor : after + min limit (fixed - after) ≤ fixed := by omega
    unfold RunEventPage.validate
    simp only [hle16, hcursor, hsucc, hvalid, hlast, hmore, decide_true, Bool.and_self,
      ensure_true, ok_bind, Nat.le_add_right, beq_self_eq_true]
  have hby : runById db run.id = some run := hrun
  have hnotfuture : (!(decide (fixed = 0) ||
      decide (run.nextEventSequence - 1 < fixed))) := by
    have h0 : ¬ fixed = 0 := by omega
    have h1 : ¬ run.nextEventSequence - 1 < fixed := by omega
    simp [h0, h1]
  have hsqlAfter : sqlSequence after = .ok after := by
    rw [sqlSequence_eq_ok]
    refine ⟨?_, rfl⟩
    unfold sqliteMax
    omega
  have hsqlFixed : sqlSequence fixed = .ok fixed := by
    rw [sqlSequence_eq_ok]
    refine ⟨?_, rfl⟩
    unfold sqliteMax
    omega
  refine ⟨⟨run.id, records, after, after + min limit (fixed - after), fixed,
    decide (after + min limit (fixed - after) < fixed)⟩, ?_, rfl, rfl, rfl, hforall⟩
  unfold runEventsPage
  simp only [hlimit1, hlimit2, decide_true, Bool.and_self, ensure_true, ok_bind, hcontinuation, hby,
    required_some, eventWatermark_eq_ok h, validateEventSnapshot_eq_ok h, hwater, hnotfuture,
    hafter, hsqlAfter, hsqlFixed, hrows, hrecords, hlast, hpage, orElse]

/-! ## What a page says -/

/-- A record was read from a stored event of the run, the latest with the
state of the run and the others without. -/
def ReadFrom (db : RunDb) (run : RunRecord) (record : RunEventRecord) : Prop :=
  ∃ stored, db.runEvents.find (run.id, record.sequence) = some stored ∧
    projectKind stored
      (if record.sequence = run.nextEventSequence - 1 then some run.status else none) =
        .ok record.event

/-- A record says the state that its event records. -/
theorem ReadFrom.state (hledger : RunLedger db run) (hstates : History db run states)
    (h : ReadFrom db run record) : lifecycleState record.event = states record.sequence := by
  obtain ⟨stored, hstored, hkind⟩ := h
  obtain ⟨hk, hlt⟩ := hledger.within _ _ hstored
  obtain ⟨fact, hsome, hfact, _, hnone⟩ := hstates.records _ _ hstored
  by_cases hlast : record.sequence = run.nextEventSequence - 1
  · have hstatus : states record.sequence = run.status := by rw [hlast, hstates.last]
    rw [if_pos hlast, ← hstatus, hsome] at hkind
    rw [← ok.inj hkind]
    exact hfact
  · rw [if_neg hlast, hnone (hstates.not_terminal hk (by omega))] at hkind
    rw [← ok.inj hkind]
    exact hfact

theorem readFrom_of_projectPage
    (hevents : ∀ stored ∈ events, db.runEvents.find (run.id, stored.sequence) = some stored)
    (h : Run.projectPage run.status (run.nextEventSequence - 1) events = .ok records) :
    ∀ record ∈ records, ReadFrom db run record := by
  induction events generalizing records with
  | nil =>
    cases h
    intro record hmem
    cases hmem
  | cons stored rest ih =>
    unfold Run.projectPage at h
    simp only [bind_ok_iff, ok.injEq] at h
    obtain ⟨first, hfirst, others, hothers, rfl⟩ := h
    intro record hmem
    rcases mem_cons.mp hmem with rfl | hrest
    · unfold projectRunEvent at hfirst
      simp only [bind_ok_iff, ok.injEq] at hfirst
      obtain ⟨fact, hfact, _, _, _, _, rfl⟩ := hfirst
      exact ⟨stored, hevents stored mem_cons_self, hfact⟩
    · exact ih (fun e he => hevents e (mem_cons_of_mem _ he)) hothers record hrest

theorem length_of_projectPage (h : Run.projectPage status watermark events = .ok records) :
    records.length = events.length := by
  induction events generalizing records with
  | nil =>
    cases h
    rfl
  | cons stored rest ih =>
    unfold Run.projectPage at h
    simp only [bind_ok_iff, ok.injEq] at h
    obtain ⟨first, _, others, hothers, rfl⟩ := h
    rw [length_cons, length_cons, ih hothers]

/-- The contiguity loop accepts consecutive sequences only. -/
theorem sequences_of_validateRecords (h : validateRecords runId start records = .ok ()) :
    records.map RunEventRecord.sequence = range' start records.length := by
  induction records generalizing start with
  | nil => rfl
  | cons record rest ih =>
    simp only [validateRecords, bind_ok_iff, ensure_eq_ok, Bool.and_eq_true, decide_eq_true_eq] at h
    obtain ⟨_, _, _, ⟨_, hseq⟩, hloop⟩ := h
    unfold checkedSucc at hloop
    split_ifs at hloop
    rw [map_cons, length_cons, range'_succ, hseq, ih hloop]

/-- What an answered page says. -/
structure RunEventPage.Answers (page : RunEventPage) (db : RunDb) (run : RunRecord)
    (query : RunEventsQuery) : Prop where
  limit : 1 ≤ query.limit ∧ query.limit ≤ maxRunEventPage
  runId : page.runId = query.runId
  after : page.afterSequence = query.afterSequence
  through : ∀ through, query.throughSequence = some through → page.throughSequence = through
  ordered : query.afterSequence ≤ page.throughSequence
  known : page.throughSequence < run.nextEventSequence
  length : page.events.length ≤ query.limit
  sequences : page.events.map RunEventRecord.sequence =
    List.range' (query.afterSequence + 1) page.events.length
  next : page.nextAfterSequence =
    (page.events.getLast?.map RunEventRecord.sequence).getD query.afterSequence
  more : page.hasMore = true → page.events ≠ [] ∧ page.nextAfterSequence < page.throughSequence
  read : ∀ record ∈ page.events, ReadFrom db run record
  valid : page.validate = .ok ()

/-- The last record of a page. -/
theorem RunEventPage.Answers.last (h : page.Answers db run query) (hne : page.events ≠ []) :
    ∃ record ∈ page.events, page.events.getLast? = some record ∧
      record.sequence = query.afterSequence + page.events.length ∧
      page.nextAfterSequence = record.sequence := by
  have hlength : page.events.length ≠ 0 := fun hzero => hne (length_eq_zero_iff.mp hzero)
  cases hlast : page.events.getLast? with
  | none => exact absurd (getLast?_eq_none_iff.mp hlast) hne
  | some record =>
    have hseq := congrArg getLast? h.sequences
    rw [getLast?_map, hlast, getLast?_range', if_neg hlength, Option.map_some,
      Option.some.injEq] at hseq
    refine ⟨record, mem_of_getLast? hlast, rfl, by omega, ?_⟩
    rw [h.next, hlast]
    rfl

theorem runEventsPage_answers (hledger : Ledger db)
    (h : runEventsPage db query.runId query.afterSequence query.throughSequence query.limit =
      .ok page) :
    ∃ run, db.runs.find query.runId = some run ∧ page.Answers db run query := by
  unfold runEventsPage at h
  simp only [bind_ok_iff, orElse_eq_ok, ok.injEq, required_eq_ok, ensure_eq_ok,
    Bool.and_eq_true, decide_eq_true_eq, sqlSequence_eq_ok, Bool.not_eq_true',
    Bool.or_eq_false_iff, decide_eq_false_iff_not] at h
  obtain ⟨_, ⟨hlimit1, hlimit2⟩, _, _, run, hrun, watermark, hwater, _, _, _, ⟨hzero, hfuture⟩,
    _, hafter, _, ⟨_, rfl⟩, _, ⟨_, rfl⟩, records, hrecords, _, hvalid, rfl⟩ := h
  have hfind : db.runs.find query.runId = some run := hrun
  have hid : run.id = query.runId := Table.pk_of_find hfind
  have hrunLedger := hledger.run _ run hfind
  have htwo := hrunLedger.two_le
  rw [eventWatermark_eq_ok hrunLedger] at hwater
  cases hwater
  have hrows : ∀ stored ∈ eventsBetween db query.runId query.afterSequence
      (query.throughSequence.getD (run.nextEventSequence - 1)) query.limit,
      db.runEvents.find (run.id, stored.sequence) = some stored := by
    intro stored hmem
    unfold eventsBetween at hmem
    have hfilter := mem_of_mem_take hmem
    have hevent := mem_of_mem_filter hfilter
    unfold eventsOf at hevent
    rw [mem_insertionSort, mem_filter, decide_eq_true_eq] at hevent
    have hkey := Table.mem_rows_iff_find.mp hevent.1
    rw [hid, ← hevent.2]
    exact hkey
  have hlength : records.length ≤ query.limit := by
    rw [length_of_projectPage hrecords]
    unfold eventsBetween
    exact length_take_le _ _
  have hchecks := hvalid
  unfold RunEventPage.validate at hchecks
  simp only [bind_ok_iff, ensure_eq_ok] at hchecks
  obtain ⟨_, _, _, _, hrest⟩ := hchecks
  have hsucc : checkedSucc query.afterSequence = some (query.afterSequence + 1) := by
    unfold checkedSucc at hrest ⊢
    split_ifs at hrest ⊢ with hbound
    · rfl
  rw [hsucc] at hrest
  simp only [bind_ok_iff, ensure_eq_ok] at hrest
  obtain ⟨_, hloop, hmeta⟩ := hrest
  refine ⟨run, hfind, ⟨hlimit1, hlimit2⟩, rfl, rfl, ?_, hafter, ?_, hlength,
    sequences_of_validateRecords hloop, rfl, ?_, readFrom_of_projectPage hrows hrecords,
    hvalid⟩
  · intro through hthrough
    show query.throughSequence.getD _ = through
    rw [hthrough]
    rfl
  · show query.throughSequence.getD (run.nextEventSequence - 1) < run.nextEventSequence
    omega
  · intro hmore
    refine ⟨?_, of_decide_eq_true hmore⟩
    intro hempty
    have hnil : records = [] := hempty
    subst hnil
    simp only [isEmpty_nil, Bool.true_and, Bool.and_eq_true, Bool.not_eq_true'] at hmeta
    have hnot := hmeta.2
    have hyes : decide (((([] : List RunEventRecord).getLast?.map
        RunEventRecord.sequence).getD query.afterSequence) <
          query.throughSequence.getD (run.nextEventSequence - 1)) := hmore
    rw [hnot] at hyes
    cases hyes

/-! ## A whole reading -/

/-- One request with its limit, and the calls that commit before the next
request. -/
structure Round where
  limit : Nat
  calls : List StoreCall

/-- Read page after page until there is no more.  The flag says whether
the rounds ended before the reading. -/
def traverse (submitDigest : V4SubmitTurn → String) (id : RunId) :
    List Round → RunDb → Nat → Option Nat → Except StoreError (List RunEventRecord × Bool)
  | [], _, _, _ => .ok ([], true)
  | round :: rest, db, after, through => do
    let page ← runEventsPage db id after through round.limit
    if page.hasMore then do
      let (records, unread) ← traverse submitDigest id rest
        (applyAll submitDigest db round.calls) page.nextAfterSequence
        (some page.throughSequence)
      .ok (page.events ++ records, unread)
    else .ok (page.events, false)

/-- A continuation reads the rest of the events below the watermark. -/
theorem traverse_continues (submitDigest : V4SubmitTurn → String) {id : RunId}
    (hledger : Ledger db) (hrun : db.runs.find id = some run)
    (hlimits : ∀ round ∈ rounds, 1 ≤ round.limit ∧ round.limit ≤ maxRunEventPage)
    (hthrough : through = some fixed ∨ through = none ∧ after = 0 ∧ fixed =
      run.nextEventSequence - 1)
    (hfixed : 1 ≤ fixed ∧ fixed < run.nextEventSequence) (hafter : after ≤ fixed)
    (hrounds : rounds ≠ [] ∧ fixed - after ≤ rounds.length)
    (hf : ∀ k, 1 ≤ k → k ≤ fixed → db.runEvents.find (id, k) = some (f k))
    (hdated : ∀ k, 1 ≤ k → k ≤ fixed → (f k).createdAt.ms ≤ maxRfc3339Ms) :
    ∃ records, traverse submitDigest id rounds db after through = .ok (records, false) ∧
      List.Forall₂ Projects ((range' (after + 1) (fixed - after)).map f) records := by
  induction rounds generalizing db run after through with
  | nil => exact absurd rfl hrounds.1
  | cons round rest ih =>
    have hid : run.id = id := Table.pk_of_find hrun
    subst hid
    have hrunLedger := hledger.run _ _ hrun
    obtain ⟨g, hg, hevents⟩ := hrunLedger.events
    have hgf : ∀ k, 1 ≤ k → k ≤ fixed → g k = f k := by
      intro k hk1 hk2
      exact Option.some.inj ((hg k hk1 (by omega)).1.symm.trans (hf k hk1 hk2))
    have hround := hlimits round mem_cons_self
    obtain ⟨page, hpage, hpthrough, hpnext, hpmore, hpevents⟩ :=
      runEventsPage_eq_ok hrun hrunLedger hg hevents hround hthrough hfixed hafter
        (fun k hk1 hk2 => by rw [hgf k hk1 hk2]; exact hdated k hk1 hk2)
    have hmin1 : min round.limit (fixed - after) ≤ fixed - after := Nat.min_le_right _ _
    have hplaces : (range' (after + 1) (min round.limit (fixed - after))).map g =
        (range' (after + 1) (min round.limit (fixed - after))).map f := by
      refine map_congr_left (fun k hk => ?_)
      obtain ⟨hk1, hk2⟩ := mem_range'_1.mp hk
      exact hgf k (by omega) (by omega)
    rw [hplaces] at hpevents
    by_cases hmore : page.nextAfterSequence < fixed
    · -- the page was cut by its limit, so it moved the cursor
      have hcut : min round.limit (fixed - after) = round.limit := by
        rw [hpnext] at hmore
        rw [Nat.min_def] at hmore ⊢
        split_ifs at hmore ⊢ <;> omega
      rw [hcut] at hpnext hpevents
      obtain ⟨hledger', hextends⟩ := applyAll_sound submitDigest hledger round.calls
      obtain ⟨run', hrun', hlater⟩ := hextends.runs _ _ hrun
      have hnext := hlater.next_le
      have hremaining : rest ≠ [] ∧ fixed - page.nextAfterSequence ≤ rest.length := by
        have hlen := hrounds.2
        rw [length_cons] at hlen
        refine ⟨?_, by omega⟩
        intro hnil
        rw [hnil, length_nil] at hlen
        omega
      obtain ⟨records, hrecords, hforall⟩ := ih hledger' hrun'
        (fun r hr => hlimits r (mem_cons_of_mem _ hr)) (.inl rfl)
        ⟨hfixed.1, by omega⟩ (by omega) hremaining
        (fun k hk1 hk2 => hextends.runEvents _ _ (hf k hk1 hk2))
      refine ⟨page.events ++ records, ?_, ?_⟩
      · have hflag : page.hasMore := by rw [hpmore, decide_eq_true hmore]
        simp only [traverse, hpage, ok_bind, hflag, if_true, hpthrough, hrecords]
      · have hsplit : range' (after + 1) (fixed - after) = range' (after + 1) round.limit ++
              range' (page.nextAfterSequence + 1) (fixed - page.nextAfterSequence) := by
          have happend := range'_append_1 (s := after + 1) (m := round.limit)
            (n := fixed - page.nextAfterSequence)
          have hstart : after + 1 + round.limit = page.nextAfterSequence + 1 := by omega
          have hcount : round.limit + (fixed - page.nextAfterSequence) = fixed - after := by
            omega
          rw [hstart, hcount] at happend
          exact happend.symm
        rw [hsplit, map_append]
        exact rel_append hpevents hforall
    · have hall : min round.limit (fixed - after) = fixed - after := by omega
      rw [hall] at hpevents
      refine ⟨page.events, ?_, hpevents⟩
      have hflag : page.hasMore = false := by rw [hpmore, decide_eq_false hmore]
      simp [traverse, hpage, hflag]

/-- The first millisecond of the year 10000. -/
def lateInstant : Instant := ⟨253402300800000, by decide⟩

end Abbey.Run
