import Abbey.Recovery.ModelOperation
import Abbey.Run.Calls
import Abbey.Tool.Ledger

/-!
# The recovery phase of an open

`finish_open` in `src/runtime/store.rs`: four recoveries over the tables
of one database, each a transaction of its own with its own reading of the
clock.  `recoverPhase` answers the database that is left, also when a
recovery fails and the earlier ones stay committed.

Three of the four never fail on a database that the calls of the store
wrote: `recoverOn` and `recoverIncompleteOn` clamp the time they write,
and the run tables hold no constraint on it.  `recoverPreparedOn` writes
the reading as it is, so `recovers_iff` has a condition.
-/

namespace Abbey.Recovery

open Abbey.Lib Abbey.Run Abbey.Tool ToolExecutionRecord Table List ToolExecutionState

variable {count now : Nat} {runs : RunDb} {marker : RunId → Instant} {tools : ToolDb}
  {record : ToolExecutionRecord}

/-! ## The database and the clock -/

structure RuntimeDb where
  runs : RunDb
  tools : ToolDb
  operations : Operations

def RuntimeDb.empty : RuntimeDb := ⟨.empty, .empty, .empty⟩

/-- A reading of the wall clock in milliseconds: before the Unix epoch it
is negative. -/
structure Reading where
  ms : Int
  representable : ms ≤ chronoMaxMs

variable {reading : Reading}

def epochMs (reading : Reading) : Except StoreError Nat :=
  if 0 ≤ reading.ms then .ok reading.ms.toNat
  else .error (.corruptData "system time precedes the Unix epoch")

/-- The readings of one open, in the order of the recoveries. -/
structure Readings where
  governed : Reading
  interrupted : Instant
  marker : RunId → Instant
  prepared : Reading
  incomplete : Reading

variable {clock : Readings}

/-- The counts that an open reports. -/
structure Recovered where
  runs : Nat
  toolExecutions : Nat
  modelOperations : Nat
  deriving DecidableEq

/-! ## The phase -/

/-- One transaction, and what follows it.  When it fails nothing follows,
and what was committed before stays. -/
def stage {α β : Type} (db : RuntimeDb) (transaction : Except StoreError (RuntimeDb × α))
    (rest : RuntimeDb → α → RuntimeDb × Except StoreError β) :
    RuntimeDb × Except StoreError β :=
  match transaction with
  | .ok (db', a) => rest db' a
  | .error error => (db, .error error)

def recoverGoverned (C : Capability) (db : RuntimeDb) (reading : Reading) :
    Except StoreError (RuntimeDb × Unit) := do
  let now ← epochMs reading
  let tools ← recoverOn C db.tools now
  .ok ({ db with tools }, ())

def recoverRuns (db : RuntimeDb) (now : Instant) (marker : RunId → Instant) :
    Except StoreError (RuntimeDb × Nat) := do
  let (runs, count) ← recoverInterruptedOn db.runs now marker
  .ok ({ db with runs }, count)

def recoverPrepared (db : RuntimeDb) (reading : Reading) :
    Except StoreError (RuntimeDb × Nat) := do
  let now ← epochMs reading
  let (tools, count) ← recoverPreparedOn db.tools now
  .ok ({ db with tools }, count)

def recoverIncomplete (db : RuntimeDb) (reading : Reading) :
    Except StoreError (RuntimeDb × Nat) := do
  let now ← epochMs reading
  let (operations, count) ← recoverIncompleteOn db.operations now
  .ok ({ db with operations }, count)

/-- The recoveries of `finish_open`. -/
def recoverPhase (C : Capability) (db : RuntimeDb) (clock : Readings) :
    RuntimeDb × Except StoreError Recovered :=
  stage db (recoverGoverned C db clock.governed) fun db _ =>
  stage db (recoverRuns db clock.interrupted clock.marker) fun db runs =>
  stage db (recoverPrepared db clock.prepared) fun db toolExecutions =>
  stage db (recoverIncomplete db clock.incomplete) fun db modelOperations =>
  (db, .ok ⟨runs, toolExecutions, modelOperations⟩)

/-! ## The calls of the store -/

inductive RuntimeCall where
  | run (call : StoreCall)
  | tool (call : ToolCall)
  | createModelOperation (operation : NewModelOperation)
  | transitionModelOperation (operationId : String) (state : ModelOperationState)
      (progress updatedAtMs : Nat)
  | reopen (clock : Readings)

/-- The tables of the tool ledgers after a call. -/
def applyTool (C : Capability) (db : ToolDb) (call : ToolCall) : ToolDb :=
  match call.commit C db with
  | .ok (db', _) => db'
  | .error _ => db

/-- The operations after a call: a call that fails writes nothing. -/
def applyOperation (operations : Operations)
    (result : Except StoreError (Operations × ModelOperationRecord)) : Operations :=
  match result with
  | .ok (operations', _) => operations'
  | .error _ => operations

def RuntimeCall.apply (C : Capability) (submitDigest : V4SubmitTurn → String) (db : RuntimeDb) :
    RuntimeCall → RuntimeDb
  | .run call => { db with runs := call.apply submitDigest db.runs }
  | .tool call => { db with tools := applyTool C db.tools call }
  | .createModelOperation operation =>
    { db with
      operations := applyOperation db.operations
        (Recovery.createModelOperation db.operations operation) }
  | .transitionModelOperation operationId state progress updatedAtMs =>
    { db with
      operations := applyOperation db.operations
        (Recovery.transitionModelOperation db.operations operationId state progress
          updatedAtMs) }
  | .reopen clock => (recoverPhase C db clock).1

/-- The transition system: every call may come next. -/
def runtimeStep (C : Capability) (submitDigest : V4SubmitTurn → String) (db : RuntimeDb)
    (call : RuntimeCall) : Option RuntimeDb :=
  some (call.apply C submitDigest db)

/-! ## What the calls keep -/

/-- What holds of every database that the calls reach. -/
structure Sound (C : Capability) (db : RuntimeDb) : Prop where
  runs : Ledger db.runs
  tools : Coherent C db.tools
  operations : OperationsChecked db.operations

variable {C : Capability} {submitDigest : V4SubmitTurn → String} {db db' : RuntimeDb} {α β : Type}

theorem Sound.empty : Sound C .empty :=
  ⟨Ledger.empty, Coherent.empty, OperationsChecked.empty⟩

theorem epochMs_eq_ok : epochMs reading = .ok now ↔ 0 ≤ reading.ms ∧ reading.ms.toNat = now := by
  unfold epochMs
  split_ifs with h <;> simp [h]

theorem toNat_le_sqliteMax (reading : Reading) : reading.ms.toNat ≤ sqliteMax := by
  have hle := reading.representable
  have hchrono : chronoMaxMs ≤ sqliteMax := by decide
  omega

theorem Coherent.applyTool (h : Coherent C tools) (call : ToolCall) :
    Coherent C (applyTool C tools call) := by
  unfold Recovery.applyTool
  split
  · rename_i tools' observed hcommit
    obtain ⟨mid, hfirst, hsecond, _⟩ := written_of_commit hcommit
    exact (h.write hfirst).write hsecond
  · exact h

/-! ## The governed recovery -/

/-- An execution that is linked to a prepared intent is itself prepared. -/
theorem linked_prepared (h : Coherent C tools) (hrecord : record ∈ tools.executions.rows)
    (hlinked : linkedToPrepared tools record) : record.state = .prepared := by
  unfold linkedToPrepared at hlinked
  rw [decide_eq_true_eq, mem_map] at hlinked
  obtain ⟨intent, hintent, hcall⟩ := hlinked
  obtain ⟨hrow, hprepared⟩ := mem_filter.mp hintent
  rcases (h.intents _ intent (mem_rows_iff_find.mp hrow)).legacy with
    ⟨_, hnone⟩ | ⟨_, _, hlink, hsome⟩
  · rw [hnone] at hcall
    cases hcall
  · rw [hsome, Option.some.injEq] at hcall
    obtain ⟨found, hfound, hstate, _⟩ := hlink.execution
    have heq : found = record := by
      rw [hcall] at hfound
      exact Option.some.inj (hfound.symm.trans (mem_rows_iff_find.mp hrecord))
    rw [← heq, hstate]
    simpa using hprepared

/-- The clamped end of an execution keeps the constraint of its row. -/
theorem check_recover (h : record.check) (hprepared : record.state = .prepared) (now : Nat) :
    (record.recover now).check := by
  simp only [check, hprepared, carries,
    Bool.and_eq_true, Option.isNone_iff_eq_none] at h
  have hresult : record.resultDigest = none := h.2.1
  simp [check, recover, carries, hresult]

/-- A reading that is not clamped keeps it only from the start on. -/
theorem check_interrupt_iff (h : record.check) (hprepared : record.state = .prepared)
    (now : Nat) : (record.interrupt now).check ↔ record.startedAtMs ≤ now := by
  simp only [check, hprepared, carries,
    Bool.and_eq_true, Option.isNone_iff_eq_none] at h
  have hresult : record.resultDigest = none := h.2.1
  simp [check, interrupt, carries, hresult]

theorem check_finish_interrupted {intent : GovernedIntent} (h : intent.check C) :
    (intent.finish interruptedOutcome).check C := by
  have hbytes := C.interrupted_bytes
  unfold GovernedIntent.check at h ⊢
  simp only [Bool.and_eq_true, decide_eq_true_eq] at h ⊢
  obtain ⟨⟨⟨hrest, _⟩, horigin⟩, hlink⟩ := h
  exact ⟨⟨⟨hrest, hbytes⟩, horigin⟩, hlink⟩

/-- `recover_on` commits on every coherent database. -/
theorem recoverOn_total (h : Coherent C tools) (hmax : now ≤ sqliteMax) :
    recoverOn C tools now = .ok (tools.recovered now) := by
  refine recoverOn_eq_ok.mpr ⟨hmax, ?_, ?_, ?_, rfl⟩
  · intro intent hintent hlegacy
    have hfind := mem_rows_iff_find.mp (mem_filter.mp hintent).1
    rcases (h.intents _ intent hfind).legacy with ⟨_, hnone⟩ | ⟨_, _, hlink, _⟩
    · rw [hnone] at hlegacy
      cases hlegacy
    · obtain ⟨record, hrecord, _⟩ := hlink.execution
      rw [hrecord]
      rfl
  · intro record hrecord hlinked
    have hcheck := h.rows.executions _ record (mem_rows_iff_find.mp hrecord)
    exact check_recover hcheck (linked_prepared h hrecord hlinked) now
  · intro intent hintent
    have hfind := mem_rows_iff_find.mp (mem_filter.mp hintent).1
    exact check_finish_interrupted (h.rows.intents _ intent hfind)

theorem Coherent.recovered (h : Coherent C tools) (hmax : now ≤ sqliteMax) :
    Coherent C (tools.recovered now) := by
  obtain ⟨_, hparents, hcheck, hintents, _⟩ := recoverOn_eq_ok.mp (recoverOn_total h hmax)
  have hwritten : Written C tools .plain (tools.recovered now) [] :=
    .recovered now hcheck hintents hparents
  exact h.write hwritten

/-- The executions that are still prepared after `recover_on` are those that
are linked to no prepared intent. -/
theorem prepared_of_recovered (h : record ∈ (tools.recovered now).executions.rows)
    (hprepared : record.state = .prepared) :
    record ∈ tools.executions.rows ∧ linkedToPrepared tools record = false := by
  obtain ⟨old, hold, hrecord⟩ := mem_map.mp h
  by_cases hlinked : linkedToPrepared tools old
  · rw [if_pos hlinked] at hrecord
    rw [← hrecord] at hprepared
    cases hprepared
  · rw [if_neg hlinked] at hrecord
    rw [← hrecord]
    exact ⟨hold, by simpa using hlinked⟩

theorem mem_recovered_of_unlinked (now : Nat) (h : record ∈ tools.executions.rows)
    (hlinked : linkedToPrepared tools record = false) :
    record ∈ (tools.recovered now).executions.rows :=
  mem_map.mpr ⟨record, h, by simp [hlinked]⟩

/-! ## The phase as a sequence -/

theorem stage_eq_ok : stage db transaction rest = (db', .ok b) ↔
      ∃ mid a, transaction = .ok (mid, a) ∧ rest mid a = (db', .ok b) := by
  unfold stage
  split
  · simp
  · simp

/-- A stage commits and goes on, or it leaves the database as it was. -/
theorem stage_cases (db : RuntimeDb) (transaction : Except StoreError (RuntimeDb × α))
    (rest : RuntimeDb → α → RuntimeDb × Except StoreError β) :
    (∃ mid a, transaction = .ok (mid, a) ∧ stage db transaction rest = rest mid a) ∨
      (stage db transaction rest).1 = db := by
  cases transaction with
  | error error => exact .inr rfl
  | ok result => exact .inl ⟨result.1, result.2, rfl, rfl⟩

theorem recoverGoverned_eq_ok (h : Sound C db) :
    recoverGoverned C db reading = .ok (db', u) ↔ 0 ≤ reading.ms ∧
      { db with tools := db.tools.recovered reading.ms.toNat } = db' := by
  have htotal := recoverOn_total h.tools (toNat_le_sqliteMax reading)
  simp only [recoverGoverned, bind_ok_iff, epochMs_eq_ok]
  constructor
  · rintro ⟨_, ⟨hepoch, rfl⟩, tools, htools, heq⟩
    rw [htotal] at htools
    cases htools
    cases heq
    exact ⟨hepoch, rfl⟩
  · rintro ⟨hepoch, rfl⟩
    exact ⟨_, ⟨hepoch, rfl⟩, _, htotal, rfl⟩

theorem recoverRuns_eq_ok {now : Instant} : recoverRuns db now marker = .ok (db', count) ↔
      ∃ runs, recoverInterruptedOn db.runs now marker = .ok (runs, count) ∧
        { db with runs } = db' := by
  simp [recoverRuns, bind_ok_iff, and_comm]

theorem recoverPrepared_eq_ok : recoverPrepared db reading = .ok (db', count) ↔ 0 ≤ reading.ms ∧
      (∀ record ∈ db.tools.executions.rows, record.state = .prepared →
        (record.interrupt reading.ms.toNat).check) ∧
      { db with tools := db.tools.stopped reading.ms.toNat } = db' ∧
      (preparedIds db.tools).length = count := by
  simp only [recoverPrepared, bind_ok_iff, epochMs_eq_ok, Prod.exists, recoverPreparedOn_eq_ok,
    Except.ok.injEq, Prod.mk.injEq]
  constructor
  · rintro ⟨_, ⟨hepoch, rfl⟩, _, _, ⟨_, hcheck, rfl, rfl⟩, heq, hcount⟩
    exact ⟨hepoch, hcheck, heq, hcount⟩
  · rintro ⟨hepoch, hcheck, heq, hcount⟩
    exact ⟨_, ⟨hepoch, rfl⟩, _, _, ⟨toNat_le_sqliteMax reading, hcheck, rfl, rfl⟩, heq, hcount⟩

section

variable (h : Sound C db)

include h

theorem recoverIncomplete_eq_ok : recoverIncomplete db reading = .ok (db', count) ↔ 0 ≤ reading.ms ∧
      { db with operations := abandoned db.operations reading.ms.toNat } = db' ∧
      (db.operations.rows.filter (fun record => !record.state.terminal)).length = count := by
  have htotal := recoverIncompleteOn_total h.operations (toNat_le_sqliteMax reading)
  simp only [recoverIncomplete, bind_ok_iff, epochMs_eq_ok]
  constructor
  · rintro ⟨_, ⟨hepoch, rfl⟩, result, hresult, heq⟩
    rw [htotal] at hresult
    cases hresult
    cases heq
    exact ⟨hepoch, rfl, rfl⟩
  · rintro ⟨hepoch, rfl, rfl⟩
    exact ⟨_, ⟨hepoch, rfl⟩, _, htotal, rfl⟩

theorem Sound.recoverGoverned
    (hrecover : recoverGoverned C db reading = .ok (db', u)) : Sound C db' := by
  obtain ⟨_, rfl⟩ := (recoverGoverned_eq_ok h).mp hrecover
  exact { h with tools := Coherent.recovered h.tools (toNat_le_sqliteMax reading) }

theorem Sound.recoverRuns {now : Instant}
    (hrecover : recoverRuns db now marker = .ok (db', count)) : Sound C db' := by
  obtain ⟨runs, hruns, rfl⟩ := recoverRuns_eq_ok.mp hrecover
  have hsteps := (recoverInterruptedOn_writes (P := fun _ => True)
    (fun _ _ _ _ => trivial) hruns).1
  exact { h with runs := h.runs.steps hsteps }

theorem Sound.recoverPrepared
    (hsettled : ∀ intent ∈ db.tools.intents.rows, intent.state ≠ .prepared)
    (hrecover : recoverPrepared db reading = .ok (db', count)) : Sound C db' := by
  obtain ⟨_, hcheck, rfl, _⟩ := recoverPrepared_eq_ok.mp hrecover
  have hwritten : Written C db.tools .plain (db.tools.stopped reading.ms.toNat) [] :=
    .stopped _ hsettled hcheck
  exact { h with tools := h.tools.write hwritten }

theorem Sound.recoverIncomplete
    (hrecover : recoverIncomplete db reading = .ok (db', count)) : Sound C db' := by
  obtain ⟨_, rfl, _⟩ := (recoverIncomplete_eq_ok h).mp hrecover
  exact { h with operations := h.operations.abandoned _ }

/-- Also a phase that stops halfway leaves a sound database. -/
theorem Sound.recoverPhase (clock : Readings) : Sound C (recoverPhase C db clock).1 := by
  unfold Recovery.recoverPhase
  rcases stage_cases db (Recovery.recoverGoverned C db clock.governed) _ with
    ⟨governed, _, hgoverned, heq⟩ | heq
  · have hsound := h.recoverGoverned hgoverned
    obtain ⟨_, hdb⟩ := (recoverGoverned_eq_ok h).mp hgoverned
    have hsettled : ∀ intent ∈ governed.tools.intents.rows, intent.state ≠ .prepared := by
      rw [← hdb]
      exact settled_recovered _
    rw [heq]
    rcases stage_cases governed
      (Recovery.recoverRuns governed clock.interrupted clock.marker) _ with
      ⟨runs, _, hruns, heq⟩ | heq
    · have hsound := hsound.recoverRuns hruns
      obtain ⟨_, _, rfl⟩ := recoverRuns_eq_ok.mp hruns
      rw [heq]
      rcases stage_cases _ (Recovery.recoverPrepared _ clock.prepared) _ with
        ⟨prepared, _, hprepared, heq⟩ | heq
      · have hsound := hsound.recoverPrepared hsettled hprepared
        rw [heq]
        rcases stage_cases prepared (Recovery.recoverIncomplete prepared clock.incomplete) _ with
          ⟨_, _, hincomplete, heq⟩ | heq
        · rw [heq]
          exact hsound.recoverIncomplete hincomplete
        · rw [heq]
          exact hsound
      · rw [heq]
        exact hsound
    · rw [heq]
      exact hsound
  · rw [heq]
    exact h

theorem Sound.apply (submitDigest : V4SubmitTurn → String)
    (call : RuntimeCall) : Sound C (call.apply C submitDigest db) := by
  cases call with
  | run call => exact { h with runs := h.runs.apply submitDigest call }
  | tool call => exact { h with tools := Coherent.applyTool h.tools call }
  | createModelOperation operation =>
    refine { h with operations := ?_ }
    show OperationsChecked (applyOperation _ _)
    unfold applyOperation
    split
    · rename_i hcreate
      exact h.operations.create hcreate
    · exact h.operations
  | transitionModelOperation operationId state progress updatedAtMs =>
    refine { h with operations := ?_ }
    show OperationsChecked (applyOperation _ _)
    unfold applyOperation
    split
    · rename_i hmove
      exact h.operations.transition hmove
    · exact h.operations
  | reopen clock => exact h.recoverPhase clock

end

theorem Sound.reachable {P : RuntimeDb → RuntimeCall → Prop}
    (h : Steps (runtimeStep C submitDigest) P .empty db) : Sound C db := by
  refine h.invariant ?_ Sound.empty
  intro db call db' hsound _ hstep
  cases hstep
  exact hsound.apply submitDigest call

/-! ## What an open has to achieve -/

/-- Nothing is left halfway. -/
structure Settled (db : RuntimeDb) : Prop where
  runs : ∀ id run, db.runs.runs.find id = some run → run.status.isActive = false
  executions : ∀ record ∈ db.tools.executions.rows, record.state ≠ .prepared
  intents : ∀ intent ∈ db.tools.intents.rows, intent.state ≠ .prepared
  operations : ∀ record ∈ db.operations.rows, record.state.terminal = true

/-- Queued runs and finished records stay as they are. -/
structure Preserved (db db' : RuntimeDb) : Prop where
  runs : ∀ id run, db.runs.runs.find id = some run → run.status.isActive = false →
    db'.runs.runs.find id = some run
  approvals : db'.tools.approvals = db.tools.approvals
  executions : ∀ id record, db.tools.executions.find id = some record →
    record.state ≠ .prepared → db'.tools.executions.find id = some record
  intents : ∀ id intent, db.tools.intents.find id = some intent → intent.state ≠ .prepared →
    db'.tools.intents.find id = some intent
  operations : ∀ id record, db.operations.find id = some record →
    record.state.terminal = true → db'.operations.find id = some record

/-- The readings that `epoch_ms` does not refuse. -/
structure Readings.SinceEpoch (clock : Readings) : Prop where
  governed : 0 ≤ clock.governed.ms
  prepared : 0 ≤ clock.prepared.ms
  incomplete : 0 ≤ clock.incomplete.ms

/-- The phase succeeds, leaves nothing halfway, touches nothing else, and
has nothing left to do. -/
def Recovers (C : Capability) (db : RuntimeDb) (clock : Readings) : Prop :=
  ∃ db' recovered, recoverPhase C db clock = (db', .ok recovered) ∧ Settled db' ∧
    Preserved db db' ∧ ∀ later : Readings, later.SinceEpoch →
      recoverPhase C db' later = (db', .ok ⟨0, 0, 0⟩)

/-- The clock has passed the start of every execution that is prepared
without a prepared intent. -/
def PastStarts (db : RuntimeDb) (clock : Readings) : Prop :=
  ∀ record ∈ db.tools.executions.rows, record.state = .prepared →
    linkedToPrepared db.tools record = false → (record.startedAtMs : Int) ≤ clock.prepared.ms

/-- The database after a phase that succeeds. -/
def phaseEnd (db : RuntimeDb) (runs : RunDb) (clock : Readings) : RuntimeDb where
  runs := runs
  tools := (db.tools.recovered clock.governed.ms.toNat).stopped clock.prepared.ms.toNat
  operations := abandoned db.operations clock.incomplete.ms.toNat

theorem recoverPhase_eq_ok (h : Sound C db) : recoverPhase C db clock = (db', .ok recovered) ↔
      clock.SinceEpoch ∧ PastStarts db clock ∧ ∃ runs,
        recoverInterruptedOn db.runs clock.interrupted clock.marker =
          .ok (runs, recovered.runs) ∧ db' = phaseEnd db runs clock ∧
        recovered.toolExecutions =
          (preparedIds (db.tools.recovered clock.governed.ms.toNat)).length ∧
        recovered.modelOperations =
          (db.operations.rows.filter (fun record => !record.state.terminal)).length := by
  have hgoverned := recoverOn_total h.tools (toNat_le_sqliteMax clock.governed)
  have hcoherent := Coherent.recovered h.tools (toNat_le_sqliteMax clock.governed)
  have hstarts : (∀ record ∈ (db.tools.recovered clock.governed.ms.toNat).executions.rows,
      record.state = .prepared → (record.interrupt clock.prepared.ms.toNat).check) ↔
      ∀ record ∈ db.tools.executions.rows, record.state = .prepared →
        linkedToPrepared db.tools record = false →
          record.startedAtMs ≤ clock.prepared.ms.toNat := by
    constructor
    · intro hall record hrecord hprepared hlinked
      have hmem := mem_recovered_of_unlinked clock.governed.ms.toNat hrecord hlinked
      have hcheck := h.tools.rows.executions _ record (mem_rows_iff_find.mp hrecord)
      exact (check_interrupt_iff hcheck hprepared _).mp (hall record hmem hprepared)
    · intro hall record hmem hprepared
      obtain ⟨hrecord, hlinked⟩ := prepared_of_recovered hmem hprepared
      have hcheck := h.tools.rows.executions _ record (mem_rows_iff_find.mp hrecord)
      exact (check_interrupt_iff hcheck hprepared _).mpr (hall record hrecord hprepared hlinked)
  unfold recoverPhase
  simp only [stage_eq_ok, Prod.mk.injEq, Except.ok.injEq]
  constructor
  · rintro ⟨_, _, hfirst, _, runs, hruns, _, executions, hprepared, _, operations,
      hincomplete, rfl, rfl⟩
    obtain ⟨hepoch, rfl⟩ := (recoverGoverned_eq_ok h).mp hfirst
    obtain ⟨rundb, hrundb, rfl⟩ := recoverRuns_eq_ok.mp hruns
    obtain ⟨hepoch', hcheck, rfl, rfl⟩ := recoverPrepared_eq_ok.mp hprepared
    have hsound := ((h.recoverGoverned hfirst).recoverRuns hruns).recoverPrepared
      (settled_recovered _) hprepared
    obtain ⟨hepoch'', rfl, rfl⟩ := (recoverIncomplete_eq_ok hsound).mp hincomplete
    refine ⟨⟨hepoch, hepoch', hepoch''⟩, ?_, rundb, hrundb, rfl, rfl, rfl⟩
    intro record hrecord hstate hlinked
    have hle := hstarts.mp hcheck record hrecord hstate hlinked
    omega
  · rintro ⟨hclock, hpast, rundb, hrundb, rfl, hexecutions, hoperations⟩
    have hfirst := (recoverGoverned_eq_ok (u := ()) h).mpr ⟨hclock.governed, rfl⟩
    have hruns : recoverRuns
        { db with tools := db.tools.recovered clock.governed.ms.toNat }
        clock.interrupted clock.marker = .ok (_, recovered.runs) :=
      recoverRuns_eq_ok.mpr ⟨rundb, hrundb, rfl⟩
    have hcheck := hstarts.mpr (fun record hrecord hstate hlinked => by
      have hle := hpast record hrecord hstate hlinked
      omega)
    have hprepared : recoverPrepared
        { db with runs := rundb, tools := db.tools.recovered clock.governed.ms.toNat }
        clock.prepared = .ok (_, recovered.toolExecutions) :=
      recoverPrepared_eq_ok.mpr ⟨hclock.prepared, hcheck, rfl, hexecutions.symm⟩
    have hsound := ((h.recoverGoverned hfirst).recoverRuns hruns).recoverPrepared
      (settled_recovered _) hprepared
    have hincomplete := (recoverIncomplete_eq_ok hsound).mpr
      ⟨hclock.incomplete, rfl, hoperations.symm⟩
    exact ⟨_, (), hfirst, _, _, hruns, _, _, hprepared, _, _, hincomplete, rfl, rfl⟩

/-! ## What a phase that succeeds leaves -/

theorem mem_stopped_ne_prepared (h : record ∈ (tools.stopped now).executions.rows) :
    record.state ≠ .prepared := by
  obtain ⟨old, _, rfl⟩ := mem_map.mp h
  split_ifs with hprepared
  · simp [interrupt]
  · simpa using hprepared

/-- A run is active after a recovery only if it was not selected, and all
active ones are. -/
theorem not_active_of_recovered {now : Instant}
    (h : recoverInterruptedOn runs now marker = .ok (runs', count)) {id : RunId} {run : RunRecord}
    (hrun : runs'.runs.find id = some run) : run.status.isActive = false := by
  have hfind := (recoverInterruptedOn_writes (P := fun _ => True)
    (fun _ _ _ _ => trivial) h).2.2 id
  rw [hfind, Option.map_eq_some_iff] at hrun
  obtain ⟨old, _, rfl⟩ := hrun
  split_ifs with hactive
  · rfl
  · simpa using hactive

theorem settled_phaseEnd
    (h : recoverInterruptedOn db.runs clock.interrupted clock.marker = .ok (runs, count)) :
    Settled (phaseEnd db runs clock) where
  runs _ _ hrun := not_active_of_recovered h hrun
  executions _ hrecord := mem_stopped_ne_prepared hrecord
  intents := settled_recovered clock.governed.ms.toNat
  operations _ hrecord := terminal_of_mem_abandoned hrecord

theorem preserved_phaseEnd (hsound : Sound C db)
    (h : recoverInterruptedOn db.runs clock.interrupted clock.marker = .ok (runs, count)) :
    Preserved db (phaseEnd db runs clock) where
  runs id run hrun hactive := by
    have hfind := (recoverInterruptedOn_writes (P := fun _ => True)
      (fun _ _ _ _ => trivial) h).2.2 id
    show runs.runs.find id = some run
    rw [hfind, hrun]
    simp [hactive]
  approvals := rfl
  executions id record hrecord hstate := by
    have hlinked : ¬ linkedToPrepared db.tools record := fun hlinked =>
      hstate (linked_prepared hsound.tools (mem_rows_of_find hrecord) hlinked)
    show ((db.tools.recovered _).stopped _).executions.find id = some record
    rw [ToolDb.stopped, find_modify, find_recovered_executions, hrecord]
    simp [hlinked, hstate]
  intents id intent hintent hstate := by
    show (db.tools.recovered clock.governed.ms.toNat).intents.find id = some intent
    rw [ToolDb.recovered, find_modify, hintent]
    simp [hstate]
  operations id record hrecord hterminal := find_abandoned_of_terminal hrecord hterminal

theorem modify_of_forall_not {ρ κ : Type} {pk : ρ → κ} {t : Table pk} {p : ρ → Bool}
    {f : ρ → ρ} {hf : ∀ r, pk (f r) = pk r} (h : ∀ r ∈ t.rows, p r = false) :
    t.modify p f hf = t := by
  refine ext ?_
  rw [rows_modify]
  conv_rhs => rw [← map_id t.rows]
  refine map_congr_left (fun r hr => ?_)
  rw [h r hr]
  rfl

/-- On a settled database the phase has nothing to do. -/
theorem recoverPhase_of_settled (hsound : Sound C db) (hsettled : Settled db)
    (hclock : clock.SinceEpoch) : recoverPhase C db clock = (db, .ok ⟨0, 0, 0⟩) := by
  have hintents : preparedIntents db.tools = [] := by
    unfold preparedIntents
    rw [filter_eq_nil_iff]
    intro intent hintent
    simpa using hsettled.intents intent hintent
  have hgoverned : ∀ now, db.tools.recovered now = db.tools := by
    intro now
    have hexecutions : db.tools.executions.modify (linkedToPrepared db.tools)
        (recover now) (callId_recover now) =
        db.tools.executions :=
      modify_of_forall_not (fun record _ => by simp [linkedToPrepared, hintents])
    have hrows : db.tools.intents.modify (fun intent => intent.state = .prepared)
        (GovernedIntent.finish interruptedOutcome)
        (GovernedIntent.executionId_finish interruptedOutcome) = db.tools.intents :=
      modify_of_forall_not (fun intent hintent => by
        simpa using hsettled.intents intent hintent)
    simp [ToolDb.recovered, hexecutions, hrows, hintents]
  have hids : preparedIds db.tools = [] := by
    rw [eq_nil_iff_forall_not_mem]
    intro ids hmem
    obtain ⟨record, hrecord, hprepared, _⟩ := mem_preparedIds.mp hmem
    exact hsettled.executions record hrecord hprepared
  have hstopped : ∀ now, db.tools.stopped now = db.tools := by
    intro now
    have hexecutions : db.tools.executions.modify (fun record => record.state = .prepared)
        (interrupt now) (callId_interrupt now) =
        db.tools.executions :=
      modify_of_forall_not (fun record hrecord => by
        simpa using hsettled.executions record hrecord)
    simp [ToolDb.stopped, hexecutions, hids]
  have habandoned : ∀ now, abandoned db.operations now = db.operations := fun now =>
    modify_of_forall_not (fun record hrecord => by simp [hsettled.operations record hrecord])
  have hruns : interruptedIds db.runs = [] := by
    rw [eq_nil_iff_forall_not_mem]
    intro id hid
    obtain ⟨run, hrun, hactive⟩ := mem_interruptedIds.mp hid
    rw [hsettled.runs id run hrun] at hactive
    cases hactive
  refine (recoverPhase_eq_ok hsound).mpr ⟨hclock, ?_, db.runs, ?_, ?_, ?_, ?_⟩
  · intro record hrecord hprepared
    exact absurd hprepared (hsettled.executions record hrecord)
  · simp [recoverInterruptedOn, hruns, interruptAll]
  · simp [phaseEnd, hgoverned, hstopped, habandoned]
  · simp [hgoverned, hids]
  · symm
    rw [length_eq_zero_iff, filter_eq_nil_iff]
    intro record hrecord
    simp [hsettled.operations record hrecord]

/-- In every database that the calls reach, and for all readings of the
clock, the recovery of an open does its work exactly when the clock is past
the Unix epoch and past the start of every prepared execution that no
prepared intent carries. -/
theorem restart_recovery_iff (C : Capability) (submitDigest : V4SubmitTurn → String)
    {db : RuntimeDb} (h : Steps (runtimeStep C submitDigest) anyStep .empty db) (clock : Readings) :
    Recovers C db clock ↔ clock.SinceEpoch ∧ PastStarts db clock := by
  have hsound : Sound C db := .reachable h
  constructor
  · rintro ⟨db', recovered, hphase, _⟩
    obtain ⟨hclock, hpast, _⟩ := (recoverPhase_eq_ok hsound).mp hphase
    exact ⟨hclock, hpast⟩
  · rintro ⟨hclock, hpast⟩
    obtain ⟨runs, hruns⟩ := recoverInterruptedOn_total hsound.runs clock.interrupted clock.marker
    have hphase : recoverPhase C db clock = (phaseEnd db runs clock, .ok ⟨_, _, _⟩) :=
      (recoverPhase_eq_ok hsound).mpr ⟨hclock, hpast, runs, hruns, rfl, rfl, rfl⟩
    have hend : Sound C (phaseEnd db runs clock) := by
      have hkept := hsound.recoverPhase clock
      rw [hphase] at hkept
      exact hkept
    have hsettled := settled_phaseEnd hruns
    exact ⟨_, _, hphase, hsettled, preserved_phaseEnd hsound hruns,
      fun later hlater => recoverPhase_of_settled hend hsettled hlater⟩

/-! ## A clock that was set back -/

def readingAt (ms : Nat) (h : (ms : Int) ≤ chronoMaxMs) : Reading := ⟨ms, h⟩

/-- All readings of an open at one time. -/
def clockAt (ms : Nat) (h : ms ≤ chronoMaxMs) : Readings where
  governed := readingAt ms (by omega)
  interrupted := ⟨ms, h⟩
  marker _ := ⟨ms, h⟩
  prepared := readingAt ms (by omega)
  incomplete := readingAt ms (by omega)

/-- An approved call whose execution is prepared at 2000 ms, and a download. -/
def preparedCalls : List RuntimeCall :=
  [.tool (.createToolApproval (minuteRequest "call-1")),
    .tool (.decideToolApproval "call-1" sampleDigest.hex "decision-1" .approve 1500),
    .tool (.prepareToolExecution "call-1" sampleDigest.hex "execution-1" 2000),
    .createModelOperation ⟨"download-1", "model-1", "main", .download, 1000⟩]

def preparedDb : RuntimeDb :=
  preparedCalls.foldl (fun db call => call.apply sampleCapability (fun _ => "") db) .empty

theorem preparedDb_reached :
    Steps (runtimeStep sampleCapability (fun _ => "")) anyStep .empty preparedDb := by
  have hrun : run (runtimeStep sampleCapability (fun _ => "")) .empty preparedCalls =
      some preparedDb := rfl
  exact steps_of_run hrun

theorem restart_recovery_iff_prepared :
    Steps (runtimeStep sampleCapability (fun _ => "")) anyStep .empty preparedDb ∧
      Recovers sampleCapability preparedDb (clockAt 3000 (by decide)) := by
  refine ⟨preparedDb_reached, ?_⟩
  refine (restart_recovery_iff sampleCapability (fun _ => "") preparedDb_reached _).mpr
    ⟨⟨by decide, by decide, by decide⟩, ?_⟩
  unfold PastStarts
  decide +kernel

/-- At a reading one millisecond before the start of a prepared execution
the open fails on the constraint of the table. -/
theorem restart_recovery_clock_set_back : ¬ ∀ (C : Capability)
    (submitDigest : V4SubmitTurn → String) (db : RuntimeDb),
    Steps (runtimeStep C submitDigest) anyStep .empty db →
      ∀ clock : Readings, Recovers C db clock := by
  intro hall
  obtain ⟨_, _, hphase, _⟩ := hall sampleCapability (fun _ => "") preparedDb preparedDb_reached
    (clockAt 1999 (by decide))
  have hfails : (recoverPhase sampleCapability preparedDb (clockAt 1999 (by decide))).2 =
      .error .database := by decide +kernel
  rw [hphase] at hfails
  cases hfails

/-! ## The ledgers of a database -/

/-- Every database that calls and opens lead to is sound, whether they
succeed or fail: the runs have their gapless ledgers, the tool ledgers are
coherent and the model operations pass their check. -/
theorem runtime_stays_sound (C : Capability) (submitDigest : V4SubmitTurn → String)
    (h : Steps (runtimeStep C submitDigest) anyStep .empty db) : Sound C db :=
  Sound.reachable h

theorem runtime_stays_sound_prepared : Sound sampleCapability preparedDb :=
  runtime_stays_sound sampleCapability (fun _ => "") preparedDb_reached

end Abbey.Recovery
