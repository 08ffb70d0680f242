import Abbey.Tool.Commits

/-!
# Single use of tool approvals

One human approval authorises one effect.  Ten calls in three modules write
the approvals, the executions and the governed intents, and each of them
makes its own checks, so the result is an invariant over all orders of
calls.

* `Keeps` says what one write leaves of the rows: an approval moves along
  the edges of `ToolApprovalState.moves`, an execution and an intent keep
  their identifiers.
* `Single` is the invariant that relates the store to the history: what was
  accepted is in a table, and what is in a table was accepted.
* `approvals_single_use` puts the four parts together.
-/

namespace Abbey.Tool

open Abbey.Lib Abbey.Run ToolApprovalState Table ToolApprovalRecord List Option

variable {C : Capability} {db db' : ToolDb} {source : Source} {observed : List Observation}
variable {intent : GovernedIntent} {events : List ToolExecutionEvent} {now : Nat}
  {digest legacy : Option String} {request : PrepareRequest} {id k : String}
  {approvals : Table ToolApprovalRecord.callId} {executions : Table ToolExecutionRecord.callId}
  {record : ToolApprovalRecord} {call : ToolCall} {state : ToolExecutionState}
variable {callId : String} {record' : ToolApprovalRecord} {s : ToolSystem} {finished : Nat}

/-! ## Histories -/

/-- The call that an observation is an intent for. -/
def Observation.intendedCall : Observation → Option String
  | .intended callId _ _ _ => some callId
  | .decided .. | .cancelled .. => none

/-- The identifier that an observation accepts. -/
def Observation.acceptedId : Observation → String
  | .decided _ _ decisionId _ => decisionId
  | .cancelled _ cancellationId => cancellationId
  | .intended _ executionId _ _ => executionId

/-- The calls that got an intent. -/
def intendedCalls (history : List Observation) : List String :=
  history.filterMap Observation.intendedCall

/-- The identifiers that were accepted. -/
def acceptedIds (history : List Observation) : List String :=
  history.map Observation.acceptedId

/-! ## What a write keeps -/

/-- The edges of the approval states. -/
def ToolApprovalState.moves : ToolApprovalState → ToolApprovalState → Bool
  | .pending, .approved | .pending, .denied | .pending, .cancelled | .pending, .expired => true
  | .approved, .cancelled | .approved, .expired | .approved, .consumed => true
  | _, _ => false

/-- A record after one write: the same, or one edge further with its
identity and its identifiers. -/
inductive Later (record : ToolApprovalRecord) : ToolApprovalRecord → Prop where
  | same : Later record record
  | moved {record' : ToolApprovalRecord} (edge : record.state.moves record'.state = true)
      (digest : record'.callDigest = record.callDigest)
      (decision : ∀ id, record.decisionId = some id → record'.decisionId = some id)
      (cancellation : ∀ id, record.cancellationId = some id → record'.cancellationId = some id) :
      Later record record'

theorem Later.callDigest (h : Later record record') : record'.callDigest = record.callDigest := by
  cases h with
  | same => rfl
  | moved _ digest => exact digest

/-- A consumed record stays as it is. -/
theorem Later.eq_of_not_isOpen (h : Later record record') (hclosed : record.state.isOpen = false) :
    record' = record := by
  cases h with
  | same => rfl
  | moved edge =>
    cases hstate : record.state <;> simp_all [moves, isOpen]

/-- The parts of an intent that never change. -/
structure SameIntent (intent intent' : GovernedIntent) : Prop where
  call : intent'.callId = intent.callId
  execution : intent'.executionId = intent.executionId
  approval : intent'.approval = intent.approval
  binding : intent'.binding = intent.binding
  started : intent'.startedAtMs = intent.startedAtMs

theorem SameIntent.refl (intent : GovernedIntent) : SameIntent intent intent :=
  ⟨rfl, rfl, rfl, rfl, rfl⟩

theorem sameIntent_finish (terminal : TerminalOutcome) (intent : GovernedIntent) :
    SameIntent intent (intent.finish terminal) :=
  ⟨rfl, rfl, rfl, rfl, rfl⟩

/-- An execution keeps its identifier. -/
def SameExecution (record record' : ToolExecutionRecord) : Prop :=
  record'.executionId = record.executionId

theorem SameExecution.refl (record : ToolExecutionRecord) : SameExecution record record := rfl

/-- What one write leaves of the rows. -/
structure Keeps (db db' : ToolDb) : Prop where
  approvals : Table.Kept Later db.approvals db'.approvals
  executions : Table.Kept SameExecution db.executions db'.executions
  intents : Table.Kept SameIntent db.intents db'.intents

theorem Keeps.refl (db : ToolDb) : Keeps db db :=
  ⟨.refl (fun _ => .same) _, .refl SameExecution.refl _, .refl SameIntent.refl _⟩

/-- Every approval passes the check of its table. -/
def Checked (db : ToolDb) : Prop :=
  ∀ k record, db.approvals.find k = some record → record.check = true

/-- An open record has no cancellation, and a pending one no decision. -/
theorem carries_of_check (h : record.check) :
    record.state.carries record.decisionId record.cancellationId := by
  unfold check at h
  simp only [Bool.and_eq_true] at h
  exact h.2

theorem cancellationId_of_isOpen (h : record.check) (hopen : record.state.isOpen) :
    record.cancellationId = none := by
  have hcarries := carries_of_check h
  cases hstate : record.state <;>
    simp_all [isOpen, carries]

theorem decisionId_of_pending (h : record.check) (hpending : record.state = .pending) :
    record.decisionId = none := by
  have hcarries := carries_of_check h
  simp_all [carries]

theorem later_expire (hopen : record.state.isOpen) : Later record (record.expire now) := by
  refine .moved ?_ rfl (fun _ h => h) (fun _ h => h)
  cases hstate : record.state <;>
    simp_all [isOpen, moves, expire]

theorem later_decide {state : ToolApprovalState} (hcheck : record.check)
    (hpending : record.state = .pending) (hverdict : state = .approved ∨ state = .denied) :
    Later record (record.decide state id now) := by
  refine .moved ?_ rfl ?_ (fun _ h => h)
  · rcases hverdict with rfl | rfl <;>
      simp [ToolApprovalRecord.decide, hpending, moves]
  · intro other hother
    rw [decisionId_of_pending hcheck hpending] at hother
    cases hother

theorem later_cancel (hcheck : record.check) (hopen : record.state.isOpen) :
    Later record (record.cancel id now) := by
  refine .moved ?_ rfl (fun _ h => h) ?_
  · cases hstate : record.state <;>
      simp_all [isOpen, moves, cancel]
  · intro other hother
    rw [cancellationId_of_isOpen hcheck hopen] at hother
    cases hother

theorem later_consume (happroved : record.state = .approved) :
    Later record (record.consume now) := by
  refine .moved ?_ rfl (fun _ h => h) (fun _ h => h)
  simp [consume, happroved, moves]

/-- The end of an intent leaves the identifiers of the executions. -/
theorem LegacyFinished.keeps
    (h : LegacyFinished db state digest finished legacy executions events) :
    Table.Kept SameExecution db.executions executions := by
  cases h with
  | unlinked => exact .refl SameExecution.refl _
  | linked => exact .modify _ SameExecution.refl (fun _ _ _ => rfl)

theorem LegacyFinished.find_eq_none
    (h : LegacyFinished db state digest finished legacy executions events)
    (hk : db.executions.find k = none) : executions.find k = none := by
  cases h with
  | unlinked => exact hk
  | linked =>
    rw [find_modify, hk]
    rfl

/-- One write keeps the rows. -/
theorem Written.keeps (hchecked : Checked db) (h : Written C db source db' observed) :
    Keeps db db' := by
  have hsame := Keeps.refl db
  have hlater : ∀ record : ToolApprovalRecord, Later record record := fun _ => .same
  cases h with
  | same => exact hsame
  | created request _ _ hinsert => exact ⟨.insert hlater hinsert, hsame.executions, hsame.intents⟩
  | expired record _ _ hopen _ hchange =>
    exact ⟨.change hlater hchange (later_expire hopen), hsame.executions, hsame.intents⟩
  | decided record _ _ _ _ _ hpending hverdict _ _ hchange =>
    have hrow := hchecked _ _ hchange.found
    exact ⟨.change hlater hchange (later_decide hrow hpending hverdict), hsame.executions,
      hsame.intents⟩
  | cancelled record _ _ _ hopen _ hchange =>
    have hrow := hchecked _ _ hchange.found
    exact ⟨.change hlater hchange (later_cancel hrow hopen), hsame.executions, hsame.intents⟩
  | prepared record _ _ _ _ happroved _ _ _ _ hchange _ _ hinsert =>
    exact ⟨.change hlater hchange (later_consume happroved), .insert SameExecution.refl hinsert,
      hsame.intents⟩
  | completed record _ _ _ _ _ _ hchange =>
    exact ⟨hsame.approvals, .change SameExecution.refl hchange rfl, hsame.intents⟩
  | admitted request _ _ _ hinsert =>
    exact ⟨hsame.approvals, hsame.executions, .insert SameIntent.refl hinsert⟩
  | admittedApproval request _ record _ _ _ _ _ _ _ happroved _ hchange _ _ hexecution _ _
      hinsert =>
    exact ⟨.change hlater hchange (later_consume happroved), .insert SameExecution.refl hexecution,
      .insert SameIntent.refl hinsert⟩
  | finished intent terminal _ _ _ _ hchange _ hlegacy =>
    exact ⟨hsame.approvals, hlegacy.keeps,
      .change SameIntent.refl hchange (sameIntent_finish terminal intent)⟩
  | staged | refused => exact ⟨hsame.approvals, hsame.executions, hsame.intents⟩
  | recovered recoveredAt =>
    exact ⟨hsame.approvals,
      .modify (ToolExecutionRecord.callId_recover recoveredAt) SameExecution.refl
        (fun _ _ _ => rfl),
      .modify (GovernedIntent.executionId_finish interruptedOutcome) SameIntent.refl
        (fun intent _ _ => sameIntent_finish _ intent)⟩
  | stopped now =>
    exact ⟨hsame.approvals, .modify (ToolExecutionRecord.callId_interrupt now)
      SameExecution.refl (fun _ _ _ => rfl), hsame.intents⟩

/-- An identifier that is stored stays stored. -/
theorem Keeps.resolutionExists (h : Keeps db db') (hid : Tool.resolutionExists db id) :
    Tool.resolutionExists db' id := by
  unfold Tool.resolutionExists at hid ⊢
  simp only [Bool.or_eq_true] at hid ⊢
  rcases hid with (hid | hid) | hid
  · refine .inl (.inl (h.approvals.any ?_ hid))
    intro record record' hlater hold
    cases hlater with
    | same => exact hold
    | moved _ _ hdecision hcancellation =>
      simp only [Bool.or_eq_true, decide_eq_true_eq] at hold ⊢
      exact hold.imp (hdecision id) (hcancellation id)
  · refine .inl (.inr (h.executions.any ?_ hid))
    intro record record' hsame hold
    rw [hsame]
    exact hold
  · refine .inr (h.intents.any ?_ hid)
    intro intent intent' hsame hold
    rw [hsame.execution]
    exact hold

/-- A call that has an intent keeps it. -/
theorem Keeps.hasIntent (h : Keeps db db') (hcall : db.hasIntent callId) :
    db'.hasIntent callId := by
  refine h.intents.any ?_ hcall
  intro intent intent' hsame hold
  rw [hsame.call]
  exact hold

theorem Keeps.executionFound (h : Keeps db db')
    (hcall : (db.executions.find callId).isSome) :
    (db'.executions.find callId).isSome := by
  obtain ⟨record, hrecord⟩ := isSome_iff_exists.mp hcall
  obtain ⟨record', hrecord', _⟩ := h.executions callId record hrecord
  simp [hrecord']

/-! ## What a write accepts -/

theorem resolutionExists_decision (h : db.approvals.find k = some record)
    (hid : record.decisionId = some id) : resolutionExists db id := by
  have hany : db.approvals.rows.any (fun record => record.decisionId = some id ||
      record.cancellationId = some id) :=
    any_eq_true.mpr ⟨record, mem_rows_of_find h, by simp [hid]⟩
  simp [resolutionExists, hany]

theorem resolutionExists_cancellation (h : db.approvals.find k = some record)
    (hid : record.cancellationId = some id) : resolutionExists db id := by
  have hany : db.approvals.rows.any (fun record => record.decisionId = some id ||
      record.cancellationId = some id) :=
    any_eq_true.mpr ⟨record, mem_rows_of_find h, by simp [hid]⟩
  simp [resolutionExists, hany]

theorem resolutionExists_execution {record : ToolExecutionRecord}
    (h : db.executions.find k = some record) (hid : record.executionId = id) :
    resolutionExists db id := by
  have hany : db.executions.rows.any (fun row => row.executionId = id) :=
    any_eq_true.mpr ⟨record, mem_rows_of_find h, by simp [hid]⟩
  simp [resolutionExists, hany]

theorem resolutionExists_intent {k : Digest} (h : db.intents.find k = some intent)
    (hid : intent.executionId.text = id) : resolutionExists db id := by
  have hany : db.intents.rows.any (fun row => row.executionId.text = id) :=
    any_eq_true.mpr ⟨intent, mem_rows_of_find h, by simp [hid]⟩
  simp [resolutionExists, hany]

theorem hasIntent_of_find {k : Digest} (h : db.intents.find k = some intent)
    (hcall : intent.callId = callId) : db.hasIntent callId :=
  any_eq_true.mpr ⟨intent, mem_rows_of_find h, by simp [hcall]⟩

/-- What one write accepts, with the row that shows it. -/
inductive Accepts (db db' : ToolDb) : List Observation → Prop where
  | nothing : Accepts db db' []
  | decision (callId digest id : String) (state : ToolApprovalState)
      (unused : resolutionExists db id = false) (used : resolutionExists db' id = true) :
      Accepts db db' [.decided callId digest id state]
  | cancellation (callId id : String)
      (unused : resolutionExists db id = false) (used : resolutionExists db' id = true) :
      Accepts db db' [.cancelled callId id]
  | approved (callId id digest : String) (now : Nat) (record : ToolApprovalRecord)
      (unused : resolutionExists db id = false) (used : resolutionExists db' id = true)
      (found : db.approvals.find callId = some record)
      (state : record.state = .approved) (bound : record.callDigest = digest)
      (inTime : now < record.expiresAtMs)
      (fresh : db.executions.find callId = none) (noIntent : db.hasIntent callId = false)
      (held : (db'.executions.find callId).isSome = true) :
      Accepts db db' [.intended callId id (some digest) now]
  | unapproved (request : PrepareRequest)
      (unused : resolutionExists db request.executionId.text = false)
      (used : resolutionExists db' request.executionId.text = true)
      (noApproval : db.approvals.find request.callId = none)
      (noIntent : db.hasIntent request.callId = false)
      (held : db'.hasIntent request.callId = true) :
      Accepts db db' [.intended request.callId request.executionId.text none request.nowMs]

/-- A fresh request has no intent under its call. -/
theorem Admissible.noIntent (h : Admissible C db request) :
    db.hasIntent request.callId = false := by
  rw [hasIntent_eq_false]
  exact fun intent hmem => (h.fresh intent hmem).2

/-- The digest that a preparation presents is the stored one. -/
theorem callDigest_of_matching (h : approvalDiffers request exact record = false) :
    record.callDigest = hex request.binding.requestDigest := by
  unfold approvalDiffers at h
  simp only [Bool.or_eq_false_iff, decide_eq_false_iff_not, ne_eq, not_not] at h
  exact h.1.1.1.1.2

/-- One write accepts at most one identifier, and it is new. -/
theorem Written.accepts (h : Written C db source db' observed) : Accepts db db' observed := by
  cases h with
  | same | created | expired | completed | finished | staged | refused | recovered | stopped =>
    exact .nothing
  | decided record event state digest id now hpending hverdict hbound hunused hchange =>
    exact .decision record.callId digest id state hunused
      (resolutionExists_decision hchange.self rfl)
  | cancelled record event id now hopen hunused hchange =>
    exact .cancellation record.callId id hunused (resolutionExists_cancellation hchange.self rfl)
  | prepared record event executionEvent id now happroved htime hintent hpreview hunused hchange
      hcheck hcall hinsert =>
    have hself := find_insert_self hinsert
    have hfree := (insert?_eq_some_iff.mp hinsert).1
    exact .approved record.callId id record.callDigest now record hunused
      (resolutionExists_execution hself rfl) hchange.found happroved rfl htime hfree hintent
      (isSome_iff_exists.mpr ⟨_, hself⟩)
  | admitted request ha0 hnone hadmissible hinsert =>
    have hself := find_insert_self hinsert
    exact .unapproved request hadmissible.unused (resolutionExists_intent hself rfl) hnone
      hadmissible.noIntent (hasIntent_of_find hself rfl)
  | admittedApproval request exact record event executionEvent happroval hadmissible hpreview
      hcall hmatch happroved htime hchange hcheck hevent hexecution hexecutionCall
      hexecutionCheck hinsert =>
    have hself := find_insert_self hexecution
    have hfree := (insert?_eq_some_iff.mp hexecution).1
    exact .approved request.callId _ _ request.nowMs record hadmissible.unused
      (resolutionExists_execution hself rfl) (hcall ▸ hchange.found) happroved
      (callDigest_of_matching hmatch) htime hfree hadmissible.noIntent
      (isSome_iff_exists.mpr ⟨_, hself⟩)

/-! ## New rows -/

/-- The check of an approval holds in the table after one insert or change. -/
theorem checked_insert (hchecked : Checked db) (hrecord : record.check)
    (h : db.approvals.insert? record = some approvals) :
    ∀ k other, approvals.find k = some other → other.check := by
  intro k other hother
  rw [find_insert h] at hother
  split_ifs at hother with hk
  · cases hother
    exact hrecord
  · exact hchecked k other hother

theorem checked_change (hchecked : Checked db) (hrecord : record'.check)
    (h : db.approvals.Changes approvals record record') :
    ∀ k other, approvals.find k = some other → other.check := by
  intro k other hother
  rcases h.cases hother with ⟨_, rfl⟩ | ⟨_, hold⟩
  · exact hrecord
  · exact hchecked k other hold

theorem Written.checked (hchecked : Checked db) (h : Written C db source db' observed) :
    Checked db' := by
  cases h with
  | created request hcheck _ hinsert => exact checked_insert hchecked hcheck hinsert
  | expired _ _ _ _ _ hchange hcheck | decided _ _ _ _ _ _ _ _ _ _ hchange hcheck
  | cancelled _ _ _ _ _ _ hchange hcheck | prepared _ _ _ _ _ _ _ _ _ _ hchange hcheck
  | admittedApproval _ _ _ _ _ _ _ _ _ _ _ _ hchange hcheck =>
    exact checked_change hchecked hcheck hchange
  | same | completed | admitted | finished | staged | refused | recovered | stopped =>
    exact hchecked

variable (h : Written C db source db' observed)

include h

/-- A new execution comes with an intent that consumed an approval. -/
theorem Written.newExecution {record : ToolExecutionRecord}
    (hrow : db'.executions.find k = some record) (hnew : db.executions.find k = none) :
    (∃ digest now, .intended k record.executionId (some digest) now ∈ observed) ∧
      ∃ approval, db'.approvals.find k = some approval ∧ approval.state = .consumed := by
  have hold : db.executions.find k ≠ some record := by simp [hnew]
  cases h with
  | prepared approval _ _ id now _ _ _ _ _ hchange _ _ hinsert =>
    have hrow' : _ = some record := (find_insert hinsert k).symm.trans hrow
    split_ifs at hrow' with hk
    · cases hrow'
      have hk' : approval.callId = k := hk
      rw [← hk']
      exact ⟨⟨_, _, mem_singleton_self _⟩, _, hchange.self, rfl⟩
    · exact absurd hrow' hold
  | admittedApproval request _ approval _ _ _ _ _ hcall _ _ _ hchange _ _ hinsert =>
    have hrow' : _ = some record := (find_insert hinsert k).symm.trans hrow
    split_ifs at hrow' with hk
    · cases hrow'
      have hk' : request.callId = k := hk
      refine ⟨⟨_, _, by rw [← hk']; exact mem_singleton_self _⟩, ?_⟩
      rw [← hk', ← hcall]
      exact ⟨_, hchange.self, rfl⟩
    · exact absurd hrow' hold
  | completed old _ _ _ _ _ _ hchange =>
    rcases hchange.cases hrow with ⟨rfl, _⟩ | ⟨_, hsame⟩
    · rw [hchange.found] at hnew
      cases hnew
    · exact absurd hsame hold
  | finished _ _ _ _ _ _ _ _ hlegacy =>
    have hrow' : _ = some record := hrow
    rw [hlegacy.find_eq_none hnew] at hrow'
    cases hrow'
  | recovered =>
    rw [ToolDb.recovered, find_modify, hnew] at hrow
    cases hrow
  | stopped =>
    rw [ToolDb.stopped, find_modify, hnew] at hrow
    cases hrow
  | same | created | expired | decided | cancelled | admitted | staged | refused =>
    exact absurd hrow hold

/-- A new intent is observed with its call and its execution. -/
theorem Written.newIntent {k : Digest} (hrow : db'.intents.find k = some intent)
    (hnew : db.intents.find k = none) :
    .intended intent.callId intent.executionId.text
      (intent.approval.map (fun _ => hex intent.binding.requestDigest)) intent.startedAtMs ∈
        observed := by
  have hold : db.intents.find k ≠ some intent := by simp [hnew]
  cases h with
  | admitted request ha0 _ _ hinsert =>
    have hrow' : _ = some intent := (find_insert hinsert k).symm.trans hrow
    split_ifs at hrow' with hk
    · cases hrow'
      simp [PrepareRequest.intent, ha0]
    · exact absurd hrow' hold
  | admittedApproval request exact _ _ _ happroval _ _ _ _ _ _ _ _ _ _ _ _ hinsert =>
    have hrow' : _ = some intent := (find_insert hinsert k).symm.trans hrow
    split_ifs at hrow' with hk
    · cases hrow'
      simp [PrepareRequest.intent, happroval]
    · exact absurd hrow' hold
  | finished old _ _ _ _ _ hchange =>
    rcases hchange.cases hrow with ⟨rfl, _⟩ | ⟨_, hsame⟩
    · rw [hchange.found] at hnew
      cases hnew
    · exact absurd hsame hold
  | recovered =>
    rw [ToolDb.recovered, find_modify, hnew] at hrow
    cases hrow
  | same | created | expired | decided | cancelled | prepared | completed | staged | refused
  | stopped => exact absurd hrow hold

/-- A new approval is pending. -/
theorem Written.newApproval (hrow : db'.approvals.find k = some record)
    (hnew : db.approvals.find k = none) : record.state = .pending := by
  have hold : db.approvals.find k ≠ some record := by simp [hnew]
  have hchanged : ∀ {old new : ToolApprovalRecord} {approvals : Table callId},
      db.approvals.Changes approvals old new → approvals.find k ≠ some record := by
    intro old new approvals hchange hfind
    rcases hchange.cases hfind with ⟨rfl, _⟩ | ⟨_, hsame⟩
    · rw [hchange.found] at hnew
      cases hnew
    · exact hold hsame
  cases h with
  | created request _ _ hinsert =>
    have hrow' : _ = some record := (find_insert hinsert k).symm.trans hrow
    split_ifs at hrow' with hk
    · cases hrow'
      rfl
    · exact absurd hrow' hold
  | expired _ _ _ _ _ hchange | decided _ _ _ _ _ _ _ _ _ _ hchange | cancelled _ _ _ _ _ _ hchange
  | prepared _ _ _ _ _ _ _ _ _ _ hchange | admittedApproval _ _ _ _ _ _ _ _ _ _ _ _ hchange =>
    exact absurd hrow (hchanged hchange)
  | same | completed | admitted | finished | staged | refused | recovered | stopped =>
    exact absurd hrow hold

omit h

/-- The previews of the local rows are bound to the digests of their
approvals. -/
def LocalBound (db : ToolDb) : Prop :=
  ∀ k row, db.localApprovals.find k = some row → ∃ record,
    db.approvals.find k = some record ∧
      record.callDigest = hex row.preview.binding.requestDigest

/-- A record that became approved was approved by this write, under its own
digest. -/
theorem Written.newApproved (hlocal : LocalBound db) (h : Written C db source db' observed)
    (hrow : db'.approvals.find k = some record) (happroved : record.state = .approved) :
    db.approvals.find k = some record ∨ ∃ id, record.decisionId = some id ∧
      .decided k record.callDigest id .approved ∈ observed := by
  cases h with
  | created request _ _ hinsert =>
    have hrow' : _ = some record := (find_insert hinsert k).symm.trans hrow
    split_ifs at hrow' with hk
    · cases hrow'
      cases happroved
    · exact .inl hrow'
  | expired _ _ _ _ _ hchange | cancelled _ _ _ _ _ _ hchange | prepared _ _ _ _ _ _ _ _ _ _ hchange
  | admittedApproval _ _ _ _ _ _ _ _ _ _ _ _ hchange =>
    rcases hchange.cases hrow with ⟨_, rfl⟩ | ⟨_, hsame⟩
    · cases happroved
    · exact .inl hsame
  | decided old _ state digest id now _ _ hbound _ hchange =>
    rcases hchange.cases hrow with ⟨rfl, rfl⟩ | ⟨_, hsame⟩
    · right
      have hstate : state = .approved := happroved
      have hdigest : digest = old.callDigest := by
        rcases hbound with hbound | ⟨row, hfind, hbound⟩
        · exact hbound
        · obtain ⟨found, hfound, hdigest⟩ := hlocal _ row hfind
          have heq : found = old := some.inj (hfound.symm.trans hchange.found)
          rw [hbound, ← hdigest, heq]
      rw [hstate, hdigest]
      exact ⟨id, rfl, mem_singleton_self _⟩
    · exact .inl hsame
  | same | completed | admitted | finished | staged | refused | recovered | stopped =>
    exact .inl hrow

/-- The rows of the local approvals after a write. -/
theorem Written.newLocal (h : Written C db source db' observed)
    (hrow : db'.localApprovals.find k = some row) :
    (∃ old, db.localApprovals.find k = some old ∧ old.preview = row.preview) ∨
      ∃ record, db'.approvals.find k = some record ∧
        record.callDigest = hex row.preview.binding.requestDigest := by
  cases h with
  | created request _ _ hinsert hpreviewed =>
    cases hpreviewed with
    | plain | governed => exact .inl ⟨row, hrow, rfl⟩
    | owned new hcall _ hdigest _ _ _ _ hlocal =>
      have hrow' : _ = some row := (find_insert hlocal k).symm.trans hrow
      split_ifs at hrow' with hk
      · cases hrow'
        have hself := find_insert_self hinsert
        have hk' : request.record.callId = k := hcall.symm.trans hk
        rw [hk'] at hself
        exact .inr ⟨_, hself, hdigest.symm⟩
      · exact .inl ⟨row, hrow', rfl⟩
  | decided _ _ _ _ _ _ _ _ _ _ _ _ _ hlocals =>
    rcases hlocals with rfl | ⟨exact, hupdate⟩
    · exact .inl ⟨row, hrow, rfl⟩
    · obtain ⟨_, rfl⟩ := update?_eq_some_iff.mp hupdate
      have hrow' := hrow
      rw [find_modify, map_eq_some_iff] at hrow'
      obtain ⟨old, hold, rfl⟩ := hrow'
      refine .inl ⟨old, hold, ?_⟩
      split_ifs <;> rfl
  | same | expired | cancelled | prepared | completed | admitted | admittedApproval | finished
  | staged | refused | recovered | stopped => exact .inl ⟨row, hrow, rfl⟩

theorem Written.localBound (hlocal : LocalBound db) (hkeeps : Keeps db db')
    (h : Written C db source db' observed) : LocalBound db' := by
  intro k row hrow
  rcases h.newLocal hrow with ⟨old, hold, hpreview⟩ | hnew
  · obtain ⟨record, hrecord, hdigest⟩ := hlocal k old hold
    obtain ⟨record', hrecord', hlater⟩ := hkeeps.approvals k record hrecord
    refine ⟨record', hrecord', ?_⟩
    rw [hlater.callDigest, hdigest, hpreview]
  · exact hnew

/-! ## The invariant -/

/-- The store and the history agree: what was accepted is in a table, what
is in a table was accepted, and nothing was accepted twice. -/
structure Single (s : ToolSystem) : Prop where
  checked : Checked s.db
  localBound : LocalBound s.db
  used : ∀ id ∈ acceptedIds s.history, resolutionExists s.db id = true
  idsNodup : (acceptedIds s.history).Nodup
  held : ∀ k ∈ intendedCalls s.history,
    (s.db.executions.find k).isSome = true ∨ s.db.hasIntent k = true
  callsNodup : (intendedCalls s.history).Nodup
  executionSeen : ∀ k record, s.db.executions.find k = some record →
    ∃ digest now, .intended k record.executionId (some digest) now ∈ s.history
  intentSeen : ∀ k intent, s.db.intents.find k = some intent →
    .intended intent.callId intent.executionId.text
      (intent.approval.map (fun _ => hex intent.binding.requestDigest)) intent.startedAtMs ∈
        s.history
  executed : ∀ k record, s.db.executions.find k = some record →
    ∃ approval, s.db.approvals.find k = some approval ∧ approval.state = .consumed
  approvedSeen : ∀ k record, s.db.approvals.find k = some record → record.state = .approved →
    ∃ id, record.decisionId = some id ∧
      .decided k record.callDigest id .approved ∈ s.history

theorem Single.initial : Single .initial := by
  constructor <;> simp [ToolSystem.initial, ToolDb.empty, Checked, LocalBound, acceptedIds,
    intendedCalls]

/-- The identifiers after a write. -/
theorem Single.ids (hs : Single s) (hkeeps : Keeps s.db db')
    (haccepts : Accepts s.db db' observed) :
    (∀ id ∈ acceptedIds (observed ++ s.history), resolutionExists db' id) ∧
      (acceptedIds (observed ++ s.history)).Nodup := by
  have hold : ∀ id ∈ acceptedIds s.history, resolutionExists db' id :=
    fun id hid => hkeeps.resolutionExists (hs.used id hid)
  have hone : ∀ observation, observed = [observation] →
      resolutionExists s.db observation.acceptedId = false →
      resolutionExists db' observation.acceptedId →
      (∀ id ∈ acceptedIds (observed ++ s.history), resolutionExists db' id) ∧
        (acceptedIds (observed ++ s.history)).Nodup := by
    rintro observation rfl hunused hused
    have hcons : acceptedIds ([observation] ++ s.history) =
        observation.acceptedId :: acceptedIds s.history := rfl
    rw [hcons]
    refine ⟨List.forall_mem_cons.mpr ⟨hused, hold⟩, nodup_cons.mpr ⟨?_, hs.idsNodup⟩⟩
    intro hmem
    rw [hs.used _ hmem] at hunused
    cases hunused
  cases haccepts with
  | nothing => exact ⟨hold, hs.idsNodup⟩
  | decision _ _ _ _ hunused hused | cancellation _ _ hunused hused
  | approved _ _ _ _ _ hunused hused | unapproved _ hunused hused => exact hone _ rfl hunused hused

/-- A call without an approval has no execution. -/
theorem Single.executions_eq_none (hs : Single s) (h : s.db.approvals.find k = none) :
    s.db.executions.find k = none := by
  cases hfind : s.db.executions.find k with
  | none => rfl
  | some record =>
    obtain ⟨approval, happroval, _⟩ := hs.executed k record hfind
    rw [h] at happroval
    cases happroval

/-- The calls with an intent after a write. -/
theorem Single.calls (hs : Single s) (hkeeps : Keeps s.db db')
    (haccepts : Accepts s.db db' observed) :
    (∀ k ∈ intendedCalls (observed ++ s.history),
        (db'.executions.find k).isSome ∨ db'.hasIntent k) ∧
      (intendedCalls (observed ++ s.history)).Nodup := by
  have hold : ∀ k ∈ intendedCalls s.history,
      (db'.executions.find k).isSome ∨ db'.hasIntent k :=
    fun k hk => (hs.held k hk).imp hkeeps.executionFound hkeeps.hasIntent
  have hone : ∀ callId executionId digest now,
      observed = [.intended callId executionId digest now] →
      s.db.executions.find callId = none → s.db.hasIntent callId = false →
      ((db'.executions.find callId).isSome = true ∨ db'.hasIntent callId) →
      (∀ k ∈ intendedCalls (observed ++ s.history),
        (db'.executions.find k).isSome ∨ db'.hasIntent k) ∧
      (intendedCalls (observed ++ s.history)).Nodup := by
    rintro callId executionId digest now rfl hexecution hintent hheld
    have hcons : intendedCalls ([.intended callId executionId digest now] ++ s.history) =
        callId :: intendedCalls s.history := rfl
    rw [hcons]
    refine ⟨List.forall_mem_cons.mpr ⟨hheld, hold⟩, nodup_cons.mpr ⟨?_, hs.callsNodup⟩⟩
    intro hmem
    rcases hs.held callId hmem with hfound | hfound
    · simp [hexecution] at hfound
    · simp [hintent] at hfound
  cases haccepts with
  | nothing | decision | cancellation => exact ⟨hold, hs.callsNodup⟩
  | approved callId id digest now record _ _ _ _ _ _ hfresh hintent hheld =>
    exact hone callId id _ now rfl hfresh hintent (.inl hheld)
  | unapproved request _ _ hnone hintent hheld =>
    exact hone request.callId _ _ request.nowMs rfl (hs.executions_eq_none hnone) hintent
      (.inr hheld)

/-- One write keeps the invariant. -/
theorem Single.write (hs : Single s) (h : Written C s.db source db' observed) :
    Single ⟨db', observed ++ s.history⟩ := by
  have hkeeps := h.keeps hs.checked
  obtain ⟨hused, hids⟩ := hs.ids hkeeps h.accepts
  obtain ⟨hheld, hcalls⟩ := hs.calls hkeeps h.accepts
  refine ⟨h.checked hs.checked, h.localBound hs.localBound hkeeps, hused, hids, hheld, hcalls,
    ?_, ?_, ?_, ?_⟩
  · intro k record hrow
    rcases hkeeps.executions.cases hrow with hnew | ⟨old, hold, hsame⟩
    · obtain ⟨⟨digest, now, hmem⟩, _⟩ := h.newExecution hrow hnew
      exact ⟨digest, now, mem_append_left _ hmem⟩
    · obtain ⟨digest, now, hmem⟩ := hs.executionSeen k old hold
      have hid : record.executionId = old.executionId := hsame
      exact ⟨digest, now, mem_append_right _ (hid ▸ hmem)⟩
  · intro k intent hrow
    rcases hkeeps.intents.cases hrow with hnew | ⟨old, hold, hsame⟩
    · exact mem_append_left _ (h.newIntent hrow hnew)
    · rw [hsame.call, hsame.execution, hsame.approval, hsame.binding, hsame.started]
      exact mem_append_right _ (hs.intentSeen k old hold)
  · intro k record hrow
    rcases hkeeps.executions.cases hrow with hnew | ⟨old, hold, _⟩
    · exact (h.newExecution hrow hnew).2
    · obtain ⟨approval, happroval, hconsumed⟩ := hs.executed k old hold
      obtain ⟨approval', happroval', hlater⟩ := hkeeps.approvals k approval happroval
      have heq := hlater.eq_of_not_isOpen (by simp [hconsumed, isOpen])
      exact ⟨approval', happroval', by rw [heq, hconsumed]⟩
  · intro k record hrow happroved
    rcases h.newApproved hs.localBound hrow happroved with hold | ⟨id, hid, hmem⟩
    · obtain ⟨id, hid, hmem⟩ := hs.approvedSeen k record hold happroved
      exact ⟨id, hid, mem_append_right _ hmem⟩
    · exact ⟨id, hid, mem_append_left _ hmem⟩

/-! ## Runs -/

/-- A call that changes the system is two writes, and only the first one
touches the approvals. -/
theorem after_cases (s : ToolSystem) (call : ToolCall) :
    s.after C call = s ∨ ∃ mid db' observed, s.after C call = ⟨db', observed ++ s.history⟩ ∧
      Written C s.db call.source mid observed ∧ Written C mid .plain db' [] ∧
      db'.approvals = mid.approvals := by
  unfold ToolSystem.after
  split
  · rename_i db' observed h
    obtain ⟨mid, hfirst, hsecond, happrovals⟩ := written_of_commit h
    exact .inr ⟨mid, db', observed, rfl, hfirst, hsecond, happrovals⟩
  · exact .inl rfl

theorem Single.after (hs : Single s) (call : ToolCall) : Single (s.after C call) := by
  rcases after_cases (C := C) s call with hsame | ⟨mid, db', observed, hafter, hfirst, hsecond, _⟩
  · rw [hsame]
    exact hs
  · rw [hafter]
    have hmid : Single ⟨mid, observed ++ s.history⟩ := hs.write hfirst
    exact hmid.write hsecond

theorem Single.reachable (h : Steps (toolStep C) anyStep .initial s) : Single s := by
  refine Steps.invariant ?_ h Single.initial
  intro s call t hs _ hstep
  cases hstep
  exact hs.after call

/-- The approvals after one call. -/
theorem Single.later (hs : Single s) (call : ToolCall) :
    Table.Kept Later s.db.approvals (s.after C call).db.approvals := by
  rcases after_cases (C := C) s call with hsame | ⟨mid, db', observed, hafter, hfirst, _, heq⟩
  · rw [hsame]
    exact .refl (fun _ => .same) _
  · rw [hafter]
    show Table.Kept Later s.db.approvals db'.approvals
    rw [heq]
    exact (hfirst.keeps hs.checked).approvals

/-- A record that is not open any more never changes again. -/
theorem Single.closed_of_steps (hs : Single s) (h : Steps (toolStep C) anyStep s t)
    (hrecord : s.db.approvals.find k = some record) (hclosed : record.state.isOpen = false) :
    t.db.approvals.find k = some record := by
  have hboth : Single t ∧ t.db.approvals.find k = some record := by
    refine Steps.invariant (I := fun t => Single t ∧ t.db.approvals.find k = some record) ?_ h
      ⟨hs, hrecord⟩
    rintro t call u ⟨ht, hfind⟩ _ hstep
    cases hstep
    refine ⟨ht.after call, ?_⟩
    obtain ⟨record', hrecord', hlater⟩ := ht.later (C := C) call k record hfind
    rw [hrecord', hlater.eq_of_not_isOpen hclosed]
  exact hboth.2

/-- A new intent of a call that consumed an approval found it approved. -/
theorem Single.approved_before (hs : Single s) {executionId digest : String}
    (hmem : .intended callId executionId (some digest) now ∈ (s.after C call).history)
    (hnew : .intended callId executionId (some digest) now ∉ s.history) :
    ∃ record id, s.db.approvals.find callId = some record ∧ record.state = .approved ∧
      record.callDigest = digest ∧ now < record.expiresAtMs ∧ record.decisionId = some id ∧
      .decided callId digest id .approved ∈ s.history := by
  rcases after_cases (C := C) s call with hsame | ⟨mid, db', observed, hafter, hfirst, _, _⟩
  · rw [hsame] at hmem
    exact absurd hmem hnew
  · rw [hafter] at hmem
    rcases mem_append.mp hmem with hmem | hmem
    · cases hfirst.accepts with
      | nothing => cases hmem
      | decision | cancellation | unapproved => simp at hmem
      | approved call' id' digest' now' record _ _ hfound hstate hbound htime =>
        rw [mem_singleton] at hmem
        cases hmem
        obtain ⟨id, hid, hdecided⟩ := hs.approvedSeen _ record hfound hstate
        rw [hbound] at hdecided
        exact ⟨record, id, hfound, hstate, hbound, htime, hid, hdecided⟩
    · exact absurd hmem hnew

/-- A record that a call adds is pending. -/
theorem pending_of_new (hrecord : (s.after C call).db.approvals.find k = some record)
    (hnew : s.db.approvals.find k = none) : record.state = .pending := by
  rcases after_cases (C := C) s call with hsame | ⟨mid, db', observed, hafter, hfirst, _, heq⟩
  · rw [hsame, hnew] at hrecord
    cases hrecord
  · rw [hafter] at hrecord
    have hrecord' : db'.approvals.find k = some record := hrecord
    rw [heq] at hrecord'
    exact hfirst.newApproval hrecord' hnew

/-- What single use means in one state of the system.

* `oneIntent`: no call got two intents, and the intents of the history are
  the rows of the two ledgers.
* `approvedBefore`: an intent that consumes an approval finds it approved,
  in time, by an earlier decision on the digest that it presents.
* `edge`, `created`, `closed`: the states of the approvals.
* `idsOnce`: no identifier was accepted twice. -/
structure SingleUse (C : Capability) (s : ToolSystem) : Prop where
  oneIntent : (intendedCalls s.history).Nodup
  executions : ∀ record ∈ s.db.executions.rows, ∃ digest now,
    .intended record.callId record.executionId (some digest) now ∈ s.history
  intents : ∀ intent ∈ s.db.intents.rows,
    .intended intent.callId intent.executionId.text
      (intent.approval.map (fun _ => hex intent.binding.requestDigest)) intent.startedAtMs ∈
        s.history
  approvedBefore : ∀ call callId executionId digest now,
    .intended callId executionId (some digest) now ∈ (s.after C call).history →
    .intended callId executionId (some digest) now ∉ s.history →
    ∃ record id, s.db.approvals.find callId = some record ∧ record.state = .approved ∧
      record.callDigest = digest ∧ now < record.expiresAtMs ∧ record.decisionId = some id ∧
      .decided callId digest id .approved ∈ s.history
  edge : ∀ call k record, s.db.approvals.find k = some record →
    ∃ record', (s.after C call).db.approvals.find k = some record' ∧
      (record' = record ∨ record.state.moves record'.state = true)
  created : ∀ call k record, (s.after C call).db.approvals.find k = some record →
    s.db.approvals.find k = none → record.state = .pending
  closed : ∀ t, Steps (toolStep C) anyStep s t → ∀ k record,
    s.db.approvals.find k = some record → record.state.isOpen = false →
    t.db.approvals.find k = some record
  idsOnce : (acceptedIds s.history).Nodup

/-- In every state that any sequence of calls reaches, tool approvals are
used once. -/
theorem approvals_single_use (C : Capability) {s : ToolSystem}
    (h : Steps (toolStep C) anyStep .initial s) : SingleUse C s := by
  have hs := Single.reachable h
  refine ⟨hs.callsNodup, ?_, ?_, ?_, ?_, ?_, ?_, hs.idsNodup⟩
  · intro record hmem
    exact hs.executionSeen record.callId record (mem_rows_iff_find.mp hmem)
  · intro intent hmem
    exact hs.intentSeen intent.executionId intent (mem_rows_iff_find.mp hmem)
  · intro call callId executionId digest now hmem hnew
    exact hs.approved_before hmem hnew
  · intro call k record hrecord
    obtain ⟨record', hrecord', hlater⟩ := hs.later (C := C) call k record hrecord
    refine ⟨record', hrecord', ?_⟩
    cases hlater with
    | same => exact .inl rfl
    | moved hedge => exact .inr hedge
  · intro call k record hrecord hnew
    exact pending_of_new hrecord hnew
  · intro t ht k record hrecord hclosed
    exact hs.closed_of_steps ht hrecord hclosed

/-- A call that is approved, prepared and completed, and a second
preparation that is refused. -/
def sampleCalls : List ToolCall :=
  [.createToolApproval ⟨"call-1", "tool-1", sampleDigest.hex, 1000, 61000⟩,
    .decideToolApproval "call-1" sampleDigest.hex "decision-1" .approve 2000,
    .prepareToolExecution "call-1" sampleDigest.hex "execution-1" 3000,
    .completeToolExecution "call-1" "execution-1" .succeeded sampleDigest.hex 4000,
    .prepareToolExecution "call-1" sampleDigest.hex "execution-2" 5000]

/-- The system after the calls. -/
def sampleSystem : ToolSystem :=
  sampleCalls.foldl (ToolSystem.after sampleCapability) .initial

theorem approvals_single_use_sample :
    intendedCalls sampleSystem.history = ["call-1"] ∧
      acceptedIds sampleSystem.history = ["execution-1", "decision-1"] ∧
      SingleUse sampleCapability sampleSystem := by
  have hrun : run (toolStep sampleCapability) .initial sampleCalls = some sampleSystem := rfl
  exact ⟨by decide +kernel, by decide +kernel,
    approvals_single_use sampleCapability (steps_of_run hrun)⟩

end Abbey.Tool
