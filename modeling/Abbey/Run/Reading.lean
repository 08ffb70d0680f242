import Abbey.Run.Calls

/-!
# Reading a sound ledger

What the readers of `Abbey.Run.Projection` answer on a run with a sound
ledger.

* `eventsOf_eq_map`: the events of a run in order are the events stored
  under `1` to the watermark.
* `projectRunEvent_some` and `projectRunEvent_none`: an event projects onto
  the lifecycle contract, given a time that RFC 3339 can write.
* `runSnapshot_eq_ok_iff`: a run is readable exactly when its two times are
  in order and in the range of RFC 3339.
-/

namespace Abbey.Run

open Abbey.Lib List Except

variable {f : Nat → RunEvent} {db : RunDb} {stored : RunEvent} {snapshot : RunSnapshot}
  {state : RunState}
variable {run : RunRecord}

/-! ## Events in order -/

/-- The events of a run in order are those stored under `1` to `n`. -/
theorem eventsOf_eq_map {id : RunId}
    (hpresent : ∀ k, 1 ≤ k → k ≤ n → db.runEvents.find (id, k) = some (f k))
    (hwithin : ∀ k stored, db.runEvents.find (id, k) = some stored → 1 ≤ k ∧ k ≤ n) :
    eventsOf db id = (range' 1 n).map f := by
  have hseq : ∀ k, 1 ≤ k → k ≤ n → (f k).sequence = k := fun k h1 h2 =>
    congrArg Prod.snd (Table.pk_of_find (hpresent k h1 h2))
  have hmem : ∀ stored, stored ∈ eventsOf db id ↔ stored ∈ (range' 1 n).map f := by
    intro stored
    unfold eventsOf
    rw [mem_insertionSort, mem_filter, mem_map]
    constructor
    · rintro ⟨hrow, hid⟩
      have hfind := Table.mem_rows_iff_find.mp hrow
      have hkey : stored.key = (id, stored.sequence) := by
        simp only [decide_eq_true_eq] at hid
        rw [RunEvent.key, hid]
      rw [hkey] at hfind
      obtain ⟨h1, h2⟩ := hwithin _ _ hfind
      refine ⟨stored.sequence, mem_range'_1.mpr ⟨h1, by omega⟩, ?_⟩
      exact Option.some.inj ((hpresent _ h1 h2).symm.trans hfind)
    · rintro ⟨k, hk, rfl⟩
      obtain ⟨h1, h2⟩ := mem_range'_1.mp hk
      have hfind := hpresent k h1 (by omega)
      have hid : (f k).runId = id := congrArg Prod.fst (Table.pk_of_find hfind)
      exact ⟨Table.mem_rows_of_find hfind, by simp [hid]⟩
  have hsorted : (eventsOf db id).Pairwise (fun a b => a.sequence ≤ b.sequence) :=
    haveI : Std.Total (fun a b : RunEvent => a.sequence ≤ b.sequence) :=
      ⟨fun a b => Nat.le_total a.sequence b.sequence⟩
    haveI : IsTrans RunEvent (fun a b => a.sequence ≤ b.sequence) :=
      ⟨fun _ _ _ => Nat.le_trans⟩
    pairwise_insertionSort _ _
  have hmap : ((range' 1 n).map f).Pairwise (fun a b => a.sequence ≤ b.sequence) := by
    rw [pairwise_map]
    refine (pairwise_le_range' 1).imp_of_mem ?_
    intro a b ha hb hab
    obtain ⟨ha1, ha2⟩ := mem_range'_1.mp ha
    obtain ⟨hb1, hb2⟩ := mem_range'_1.mp hb
    rw [hseq a ha1 (by omega), hseq b hb1 (by omega)]
    exact hab
  have hnodup : (eventsOf db id).Nodup :=
    (perm_insertionSort _ _).symm.nodup
      ((List.Nodup.of_map RunEvent.key db.runEvents.nodup).filter _)
  have hnodup' : ((range' 1 n).map f).Nodup := by
    refine List.Nodup.map_on ?_ (nodup_range' 1)
    intro a ha b hb hab
    obtain ⟨ha1, ha2⟩ := mem_range'_1.mp ha
    obtain ⟨hb1, hb2⟩ := mem_range'_1.mp hb
    rw [← hseq a ha1 (by omega), ← hseq b hb1 (by omega), hab]
  refine List.Perm.eq_of_pairwise ?_ hsorted hmap
    ((perm_ext_iff_of_nodup hnodup hnodup').mpr hmem)
  intro a b ha hb hab hba
  obtain ⟨j, hj, rfl⟩ := mem_map.mp ((hmem a).mp ha)
  obtain ⟨k, hk, rfl⟩ := mem_map.mp hb
  obtain ⟨hj1, hj2⟩ := mem_range'_1.mp hj
  obtain ⟨hk1, hk2⟩ := mem_range'_1.mp hk
  rw [hseq j hj1 (by omega), hseq k hk1 (by omega)] at hab hba
  rw [Nat.le_antisymm hab hba]

/-- The events of a run as a function of their sequence. -/
theorem RunLedger.events (h : RunLedger db run) : ∃ f : Nat → RunEvent,
      (∀ k, 1 ≤ k → k < run.nextEventSequence →
        db.runEvents.find (run.id, k) = some (f k) ∧ (f k).runId = run.id ∧ (f k).sequence = k) ∧
      eventsOf db run.id = (range' 1 (run.nextEventSequence - 1)).map f := by
  have htwo := h.two_le
  have hchoice : ∀ k, ∃ stored, 1 ≤ k → k < run.nextEventSequence →
      db.runEvents.find (run.id, k) = some stored := by
    intro k
    by_cases hk : 1 ≤ k ∧ k < run.nextEventSequence
    · obtain ⟨stored, hstored⟩ := h.present k hk.1 hk.2
      exact ⟨stored, fun _ _ => hstored⟩
    · obtain ⟨stored, _⟩ := h.present 1 (le_refl 1) (by omega)
      exact ⟨stored, fun h1 h2 => absurd ⟨h1, h2⟩ hk⟩
  choose f hf using hchoice
  refine ⟨f, ?_, ?_⟩
  · intro k h1 h2
    have hfind := hf k h1 h2
    have hkey : (f k).key = (run.id, k) := Table.pk_of_find hfind
    exact ⟨hfind, congrArg Prod.fst hkey, congrArg Prod.snd hkey⟩
  · refine eventsOf_eq_map (fun k h1 h2 => hf k h1 (by omega)) ?_
    intro k stored hstored
    have hk := h.within k stored hstored
    omega

/-- The sequences of consecutive places. -/
theorem map_sequence_range' {start count : Nat} (h : ∀ k ∈ range' start count, (f k).sequence = k) :
    ((range' start count).map f).map RunEvent.sequence = range' start count := by
  rw [map_map]
  calc (range' start count).map (RunEvent.sequence ∘ f)
      = (range' start count).map id := map_congr_left h
    _ = range' start count := map_id _

/-- The gap check passes on a sound ledger. -/
theorem validateEventSnapshot_eq_ok (h : RunLedger db run) :
    validateEventSnapshot db run.id (run.nextEventSequence - 1) = .ok () := by
  have htwo := h.two_le
  have hsix := h.next_le_six
  obtain ⟨f, hf, hevents⟩ := h.events
  have hsequences : (eventsOf db run.id).map RunEvent.sequence =
      range' 1 (run.nextEventSequence - 1) := by
    rw [hevents]
    refine map_sequence_range' (fun k hk => ?_)
    obtain ⟨h1, h2⟩ := mem_range'_1.mp hk
    exact (hf k h1 (by omega)).2.2
  have hsql : sqlSequence (run.nextEventSequence - 1) = .ok (run.nextEventSequence - 1) := by
    rw [sqlSequence_eq_ok]
    refine ⟨?_, rfl⟩
    unfold sqliteMax
    omega
  have hmin : (range' 1 (run.nextEventSequence - 1)).min? = some 1 := by
    rw [min?_eq_some_iff]
    refine ⟨List.mem_range'_1.mpr ⟨le_refl 1, by omega⟩, ?_⟩
    intro b hb
    exact (mem_range'_1.mp hb).1
  have hmax : (range' 1 (run.nextEventSequence - 1)).max? = some (run.nextEventSequence - 1) := by
    rw [max?_eq_some_iff]
    refine ⟨List.mem_range'_1.mpr ⟨by omega, by omega⟩, ?_⟩
    intro b hb
    have hb2 := (mem_range'_1.mp hb).2
    omega
  simp [validateEventSnapshot, hsequences, hsql, hmin, hmax]

theorem eventWatermark_eq_ok (h : RunLedger db run) :
    eventWatermark run = .ok (run.nextEventSequence - 1) :=
  if_pos h.two_le

/-! ## One event -/

/-- The record that an event projects onto. -/
def recordOf (stored : RunEvent) (fact : RunLifecycleEvent) : RunEventRecord where
  runId := stored.runId
  sequence := stored.sequence
  recordedAt := stored.createdAt
  event := fact

theorem recordOf_validate (hseq : stored.sequence ≠ 0)
    (htime : stored.createdAt.ms ≤ maxRfc3339Ms) (hfact : fact.validate = .ok ()) :
    (recordOf stored fact).validate = .ok () := by
  simp [RunEventRecord.validate, recordOf, hseq, parseTimestamp, htime, hfact]

/-- An event read with the state that it records. -/
theorem projectRunEvent_some (h : Records stored state) (hseq : stored.sequence ≠ 0)
    (htime : stored.createdAt.ms ≤ maxRfc3339Ms) :
    ∃ fact, projectRunEvent stored (some state) = .ok (recordOf stored fact) ∧
      lifecycleState fact = state := by
  obtain ⟨fact, hkind, hstate, hvalid, _⟩ := h
  have hrecord := recordOf_validate hseq htime hvalid
  unfold recordOf at hrecord
  refine ⟨fact, ?_, hstate⟩
  simp [projectRunEvent, hkind, hstate, hrecord, orElse, recordOf]

/-- An event of a state that is not terminal is read the same without the
state. -/
theorem projectRunEvent_none (h : Records stored state) (hstate : state.isTerminal = false)
    (hseq : stored.sequence ≠ 0) (htime : stored.createdAt.ms ≤ maxRfc3339Ms) :
    ∃ fact, projectRunEvent stored none = .ok (recordOf stored fact) ∧
      lifecycleState fact = state := by
  obtain ⟨fact, _, hfact, hvalid, hnone⟩ := h
  have hrecord := recordOf_validate hseq htime hvalid
  unfold recordOf at hrecord
  refine ⟨fact, ?_, hfact⟩
  simp [projectRunEvent, hnone hstate, hrecord, orElse, recordOf]

/-! ## Snapshots -/

/-- The times of a run that its snapshot accepts. -/
def RunRecord.Timely (run : RunRecord) : Prop :=
  run.createdAt.ms ≤ run.updatedAt.ms ∧ run.updatedAt.ms ≤ maxRfc3339Ms

instance (run : RunRecord) : Decidable run.Timely :=
  inferInstanceAs (Decidable (_ ∧ _))

/-- What a snapshot says of a run. -/
structure RunSnapshot.Of (snapshot : RunSnapshot) (run : RunRecord) : Prop where
  runId : snapshot.runId = run.id
  conversationId : snapshot.conversationId = run.conversationId
  idempotencyKey : snapshot.idempotencyKey = run.idempotencyKey
  state : snapshot.state = run.status
  createdAt : snapshot.createdAt = run.createdAt
  updatedAt : snapshot.updatedAt = run.updatedAt
  eventCount : snapshot.eventCount = run.nextEventSequence - 1

/-- A snapshot that is read is the snapshot of the run, and its two times
are in order and in range. -/
theorem projectRunSnapshot_writes (h : projectRunSnapshot db run = .ok snapshot) :
    snapshot.Of run ∧ run.Timely ∧ snapshot.validate = .ok () := by
  unfold projectRunSnapshot at h
  simp only [bind_ok_iff, orElse_eq_ok, ok.injEq] at h
  obtain ⟨count, hcount, _, _, stored, _, record, _, _, hvalid, rfl⟩ := h
  have hcount' : count = run.nextEventSequence - 1 := by
    unfold eventWatermark at hcount
    split_ifs at hcount
    cases hcount
    rfl
  refine ⟨⟨rfl, rfl, rfl, rfl, rfl, rfl, hcount'⟩, ?_, hvalid⟩
  unfold RunSnapshot.validate at hvalid
  simp only [bind_ok_iff, parseTimestamp_eq_ok, ensure_eq_ok, decide_eq_true_eq] at hvalid
  obtain ⟨created, ⟨_, rfl⟩, updated, ⟨hupdated, rfl⟩, _, horder, _⟩ := hvalid
  exact ⟨horder, hupdated⟩

theorem two_le_of_projectRunSnapshot (h : projectRunSnapshot db run = .ok snapshot) :
    2 ≤ run.nextEventSequence := by
  unfold projectRunSnapshot at h
  simp only [bind_ok_iff] at h
  obtain ⟨count, hcount, _⟩ := h
  unfold eventWatermark at hcount
  split_ifs at hcount with htwo
  exact htwo

/-- The snapshot of a row does not change while the row stays. -/
theorem projectRunSnapshot_unique (hext : Extends db db')
    (h : projectRunSnapshot db run = .ok snapshot)
    (h' : projectRunSnapshot db' run = .ok snapshot') : snapshot' = snapshot := by
  unfold projectRunSnapshot at h h'
  simp only [bind_ok_iff, orElse_eq_ok, ok.injEq, required_eq_ok] at h h'
  obtain ⟨count, hcount, _, _, latest, hlatest, record, hrecord, _, _, rfl⟩ := h
  obtain ⟨count', hcount', _, _, latest', hlatest', record', hrecord', _, _, rfl⟩ := h'
  have hsame : count' = count := ok.inj (hcount'.symm.trans hcount)
  subst hsame
  have hevent : latest' = latest :=
    Option.some.inj (hlatest'.symm.trans (hext.runEvents _ _ hlatest))
  subst hevent
  have hread : record' = record := ok.inj (hrecord'.symm.trans hrecord)
  subst hread
  rfl

/-- A run with a sound ledger and times in order and in range is read. -/
theorem projectRunSnapshot_total (h : RunLedger db run) (htime : run.Timely) :
    ∃ snapshot, projectRunSnapshot db run = .ok snapshot := by
  obtain ⟨horder, hupdated⟩ := htime
  have htwo := h.two_le
  obtain ⟨states, hstates⟩ := h.history
  obtain ⟨stored, hstored⟩ := h.present (run.nextEventSequence - 1) (by omega) (by omega)
  have hseq : stored.sequence = run.nextEventSequence - 1 :=
    congrArg Prod.snd (Table.pk_of_find hstored)
  have hrecords : Records stored run.status := hstates.last ▸ hstates.records _ _ hstored
  have hdated : stored.createdAt.ms ≤ maxRfc3339Ms := by
    rw [h.latest stored hstored]
    exact hupdated
  obtain ⟨fact, hproject, hfact⟩ :=
    projectRunEvent_some hrecords (by omega) hdated
  have hvalid : ∀ failure, validateFailure failure = .ok () →
      (decide (run.status = .failed) == failure.isSome) →
      (RunSnapshot.mk run.id run.conversationId run.idempotencyKey run.status run.createdAt
        run.updatedAt failure (run.nextEventSequence - 1)).validate = .ok () := by
    intro failure hfailure hmatch
    have hcount : run.nextEventSequence - 1 ≠ 0 := by omega
    have hcreated : run.createdAt.ms ≤ maxRfc3339Ms := by omega
    simp [RunSnapshot.validate, parseTimestamp, hcreated, hupdated, horder, hcount, hfailure,
      hmatch]
  have hfact_valid : fact.validate = .ok () := by
    obtain ⟨fact', hkind', _, hvalid', _⟩ := hrecords
    unfold projectRunEvent at hproject
    rw [hkind', ok_bind] at hproject
    simp only [bind_ok_iff, ok.injEq, recordOf, RunEventRecord.mk.injEq] at hproject
    obtain ⟨_, _, _, _, _, _, _, rfl⟩ := hproject
    exact hvalid'
  unfold projectRunSnapshot
  rw [eventWatermark_eq_ok h, ok_bind, validateEventSnapshot_eq_ok h, ok_bind, hstored,
    required_some, ok_bind, hproject, ok_bind]
  cases fact with
  | failed failure =>
    have hfailed : run.status = .failed := hfact.symm
    have hsnapshot := hvalid (some failure) hfact_valid (by simp [hfailed])
    simp only [recordOf, hsnapshot, orElse, ok_bind]
    exact ⟨_, rfl⟩
  | _ =>
    have hfailed : run.status ≠ .failed := by
      rw [← hfact]
      simp [lifecycleState]
    have hsnapshot := hvalid none rfl (by simp [hfailed])
    simp only [recordOf, hsnapshot, orElse, ok_bind]
    exact ⟨_, rfl⟩

/-- A run of a sound ledger is readable exactly when its two times are in
order and in the range of RFC 3339. -/
theorem runSnapshot_eq_ok_iff (hledger : Ledger db) {id : RunId}
    (hrun : db.runs.find id = some run) :
    (∃ snapshot, runSnapshot db id = .ok (some snapshot)) ↔ run.Timely := by
  have hby : runById db id = some run := hrun
  unfold runSnapshot
  rw [hby]
  simp only [bind_ok_iff, ok.injEq, Option.some.injEq]
  constructor
  · rintro ⟨_, snapshot, hsnapshot, rfl⟩
    exact (projectRunSnapshot_writes hsnapshot).2.1
  · intro htime
    obtain ⟨snapshot, hsnapshot⟩ := projectRunSnapshot_total (hledger.run id run hrun) htime
    exact ⟨snapshot, snapshot, hsnapshot, rfl⟩

/-! ## A sample run -/

theorem k_valid : isIdentifier "k" maxIdempotencyKeyBytes = true := by decide

/-- A run of a request without a conversation. -/
def sampleRun : NewRun where
  conversationId := none
  idempotencyKey := ⟨"k", k_valid⟩
  requestDigest := "0000000000000000000000000000000000000000000000000000000000000000"

/-- The call that creates the sample run. -/
def createSample (now : Instant) : StoreCall := .createOrGetRun sampleRun ⟨1⟩ now

/-- The database with the sample run alone. -/
def sampleDb (now : Instant) : RunDb :=
  { RunDb.empty with
    runs := ⟨[queuedRun sampleRun ⟨1⟩ now], List.nodup_singleton _⟩
    runEvents := ⟨[queuedEvent ⟨1⟩ now], List.nodup_singleton _⟩ }

theorem createSample_step (submitDigest : V4SubmitTurn → String) (now : Instant) :
    callStep submitDigest RunDb.empty (createSample now) = some (sampleDb now) := rfl

end Abbey.Run
