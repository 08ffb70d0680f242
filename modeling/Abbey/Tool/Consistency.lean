import Abbey.Tool.SingleUse

/-!
# The governed ledger stays consistent

`validate_on` re-derives the cross-table facts of the governed ledger at
every open and before every governed call.  `Consistent` states these facts
as an invariant of the tables, one structure for each group of them, and
`validateOn_of_consistent` shows that they are all that the validator asks.

`Consistent.write` shows that every write keeps the invariant with two
exceptions.  A local request inserts a preview and looks at the room of the
local table only, and an outcome is stored under the version that it
carries.
-/

namespace Abbey.Tool

open Abbey.Lib Abbey.Run Table List GovernedIntent

variable {C : Capability} {db db' : ToolDb} {source : Source} {observed : List Observation}
variable {binding : AuthorizationBinding} {k : Digest} {preview : GovernedPreview}
  {events : List ToolExecutionEvent} {finished : Nat} {request : NewToolApproval}
  {digest : Option String} {executions : Table ToolExecutionRecord.callId}
  {terminal : TerminalOutcome} {record : ToolExecutionRecord} {state : ToolExecutionState}
  {α : Type}
variable {intent : GovernedIntent} {xs : List α} {locals : Table LocalApproval.callId}
  {P : α → Prop}

/-! ## References -/

/-- The foreign keys. -/
structure References (db : ToolDb) : Prop where
  approvalEvents : ∀ event ∈ db.approvalEvents, (db.approvals.find event.callId).isSome = true
  executions : ∀ k record, db.executions.find k = some record →
    (db.approvals.find k).isSome = true
  executionEvents : ∀ event ∈ db.executionEvents,
    (db.executions.find event.callId).isSome = true
  stageEvents : ∀ event ∈ db.stageEvents, ∀ id, event.intentId = some id →
    (db.intents.find id).isSome = true
  outcomeEvents : ∀ event ∈ db.outcomeEvents, (db.intents.find event.executionId).isSome = true
  localApprovals : ∀ k row, db.localApprovals.find k = some row →
    (db.previews.find k).isSome = true

/-- The rows that a reference finds are never lost. -/
structure Holds (db db' : ToolDb) : Prop where
  approvals : ∀ k, (db.approvals.find k).isSome = true → (db'.approvals.find k).isSome = true
  executions : ∀ k, (db.executions.find k).isSome = true → (db'.executions.find k).isSome = true
  intents : ∀ k, (db.intents.find k).isSome = true → (db'.intents.find k).isSome = true

variable {ρ κ : Type} {pk : ρ → κ} {t u : Table pk} {r : ρ} {x : α}

theorem isSome_of_kept [DecidableEq κ] {R : ρ → ρ → Prop}
    (h : Table.Kept R t u) (k : κ) (hk : (t.find k).isSome) :
    (u.find k).isSome := by
  obtain ⟨row, hrow⟩ := Option.isSome_iff_exists.mp hk
  obtain ⟨row', hrow', _⟩ := h k row hrow
  simp [hrow']

theorem Keeps.holds (h : Keeps db db') : Holds db db' :=
  ⟨isSome_of_kept h.approvals, isSome_of_kept h.executions, isSome_of_kept h.intents⟩

/-- The events that a write adds refer to rows that are there after it. -/
structure Refers (db db' : ToolDb) : Prop where
  approvalEvents : ∀ event ∈ db'.approvalEvents, event ∈ db.approvalEvents ∨
    (db'.approvals.find event.callId).isSome = true
  executionEvents : ∀ event ∈ db'.executionEvents, event ∈ db.executionEvents ∨
    (db'.executions.find event.callId).isSome = true
  stageEvents : ∀ event ∈ db'.stageEvents, event ∈ db.stageEvents ∨
    ∀ id, event.intentId = some id → (db'.intents.find id).isSome = true
  outcomeEvents : ∀ event ∈ db'.outcomeEvents, event ∈ db.outcomeEvents ∨
    (db'.intents.find event.executionId).isSome = true

theorem isSome_insert_self [DecidableEq κ]
    {k : κ} (h : t.insert? r = some u) (hk : k = pk r) : (u.find k).isSome := by
  rw [hk, find_insert_self h]
  rfl

theorem isSome_change_self [DecidableEq κ]
    {k : κ} (h : t.Changes u r s) (hk : k = pk r) : (u.find k).isSome := by
  rw [hk, h.self]
  rfl

/-- A list with one more element at its end, which has a property. -/
theorem old_or_new (hx : P x) : ∀ y ∈ xs ++ [x], y ∈ xs ∨ P y := by
  intro y hy
  rcases mem_append.mp hy with hy | hy
  · exact .inl hy
  · rw [mem_singleton.mp hy]
    exact .inr hx

theorem old : ∀ y ∈ xs, y ∈ xs ∨ P y :=
  fun _ h => .inl h

theorem LegacyFinished.refers
    (h : LegacyFinished db state digest finished legacy executions events) :
    ∀ event ∈ events, event ∈ db.executionEvents ∨
      (executions.find event.callId).isSome := by
  cases h with
  | unlinked => exact old
  | linked call event _ hparent hcall =>
    refine old_or_new ?_
    rw [find_modify, hcall]
    simpa using hparent

theorem Written.refers (hkeeps : Keeps db db') (h : Written C db source db' observed) :
    Refers db db' := by
  cases h with
  | same | refused => exact ⟨old, old, old, old⟩
  | created request _ _ hinsert => exact ⟨old_or_new (isSome_insert_self hinsert rfl), old, old, old⟩
  | expired _ _ _ _ _ hchange _ hcall | decided _ _ _ _ _ _ _ _ _ _ hchange _ hcall
  | cancelled _ _ _ _ _ _ hchange _ hcall =>
    exact ⟨old_or_new (isSome_change_self hchange hcall), old, old, old⟩
  | prepared _ _ _ _ _ _ _ _ _ _ hchange _ hcall hinsert hexecutionCall =>
    exact ⟨old_or_new (isSome_change_self hchange hcall),
      old_or_new (isSome_insert_self hinsert hexecutionCall), old, old⟩
  | completed _ _ _ _ _ _ _ hchange _ hcall =>
    exact ⟨old, old_or_new (isSome_change_self hchange hcall), old, old⟩
  | admitted request _ _ _ hinsert =>
    refine ⟨old, old, old_or_new ?_, old_or_new (isSome_insert_self hinsert rfl)⟩
    intro id hid
    cases hid
    exact isSome_insert_self hinsert rfl
  | admittedApproval request _ _ _ _ _ _ _ hrecord _ _ _ hchange _ hcall hexecution
      hexecutionCall _ hinsert =>
    refine ⟨old_or_new (isSome_change_self hchange hcall),
      old_or_new (isSome_insert_self hexecution (hexecutionCall.trans hrecord)),
      old_or_new ?_, old_or_new (isSome_insert_self hinsert rfl)⟩
    intro id hid
    cases hid
    exact isSome_insert_self hinsert rfl
  | finished _ _ _ _ _ _ hchange _ hlegacy =>
    exact ⟨old, hlegacy.refers, old, old_or_new (isSome_change_self hchange rfl)⟩
  | staged =>
    refine ⟨old, old, old_or_new ?_, old⟩
    intro id hid
    cases hid
  | recovered recoveredAt _ _ hparents =>
    refine ⟨old, ?_, old, ?_⟩
    · intro event hmem
      refine (mem_append.mp hmem).imp_right ?_
      intro hnew
      obtain ⟨intent, hintent, rfl⟩ := mem_map.mp hnew
      obtain ⟨hprepared, hlinked⟩ := mem_filter.mp hintent
      exact hkeeps.holds.executions _ (hparents intent hprepared hlinked)
    · intro event hmem
      refine (mem_append.mp hmem).imp_right ?_
      intro hnew
      obtain ⟨intent, hintent, rfl⟩ := mem_map.mp hnew
      have hrow : intent ∈ db.intents.rows := (mem_filter.mp hintent).1
      refine hkeeps.holds.intents _ ?_
      simp [mem_rows_iff_find.mp hrow]
  | stopped now =>
    refine ⟨old, ?_, old, old⟩
    intro event hmem
    refine (mem_append.mp hmem).imp_right ?_
    intro hnew
    obtain ⟨i, hi, rfl⟩ := mem_map.mp hnew
    obtain ⟨record, hrow, _, rfl⟩ := mem_preparedIds.mp hi
    refine hkeeps.holds.executions _ ?_
    simp [stoppedEvent, mem_rows_iff_find.mp hrow]

theorem References.write (h : References db) (hkeeps : Keeps db db')
    (hexecutions : ∀ k record, db'.executions.find k = some record →
      db.executions.find k = none → (db'.approvals.find k).isSome)
    (hlocals : ∀ k row, db'.localApprovals.find k = some row → (db'.previews.find k).isSome)
    (hrefers : Refers db db') : References db' := by
  have hholds := hkeeps.holds
  refine ⟨?_, ?_, ?_, ?_, ?_, hlocals⟩
  · intro event hmem
    rcases hrefers.approvalEvents event hmem with hold | hnew
    · exact hholds.approvals _ (h.approvalEvents event hold)
    · exact hnew
  · intro k record hrecord
    rcases hkeeps.executions.cases hrecord with hnew | ⟨old, hold, _⟩
    · exact hexecutions k record hrecord hnew
    · exact hholds.approvals k (h.executions k old hold)
  · intro event hmem
    rcases hrefers.executionEvents event hmem with hold | hnew
    · exact hholds.executions _ (h.executionEvents event hold)
    · exact hnew
  · intro event hmem id hid
    rcases hrefers.stageEvents event hmem with hold | hnew
    · exact hholds.intents _ (h.stageEvents event hold id hid)
    · exact hnew id hid
  · intro event hmem
    rcases hrefers.outcomeEvents event hmem with hold | hnew
    · exact hholds.intents _ (h.outcomeEvents event hold)
    · exact hnew

/-! ## Previews -/

/-- A preview fits the approval of its call. -/
structure PreviewSound (C : Capability) (db : ToolDb) (k : String) (preview : GovernedPreview) :
    Prop where
  check : preview.check C = true
  level : preview.binding.requiredApproval ≠ .a0None
  approval : ∃ record, db.approvals.find k = some record ∧
    hex preview.binding.requestDigest = record.callDigest

/-- A new preview is under the call of the request. -/
theorem Previewed.previews {previews : Table GovernedPreview.callId}
    (h : Previewed C db request source previews locals) :
    (∀ k preview, db.previews.find k = some preview → previews.find k = some preview) ∧
      ∀ k preview, previews.find k = some preview → db.previews.find k = some preview ∨
        k = request.callId ∧ preview.check C ∧ preview.binding.requiredApproval ≠ .a0None ∧
          hex preview.binding.requestDigest = request.callDigest := by
  have hinsert : ∀ {binding : AuthorizationBinding} {previews : Table GovernedPreview.callId},
      db.previews.insert? ⟨request.callId, binding⟩ = some previews →
      GovernedPreview.check C ⟨request.callId, binding⟩ →
      binding.requiredApproval ≠ .a0None → hex binding.requestDigest = request.callDigest →
      ∀ k preview, previews.find k = some preview → db.previews.find k = some preview ∨
        k = request.callId ∧ preview.check C ∧ preview.binding.requiredApproval ≠ .a0None ∧
          hex preview.binding.requestDigest = request.callDigest := by
    intro binding previews hinsert hcheck hlevel hdigest k preview hk
    rw [find_insert hinsert] at hk
    split_ifs at hk with heq
    · cases hk
      exact .inr ⟨heq.symm, hcheck, hlevel, hdigest⟩
    · exact .inl hk
  cases h with
  | plain => exact ⟨fun _ _ hk => hk, fun _ _ hk => .inl hk⟩
  | governed binding _ hdigest hlevel hcheck hnew | owned row _ _ hdigest hlevel hcheck hnew =>
    exact ⟨fun _ _ hk => find_insert_of_some hnew hk, hinsert hnew hcheck hlevel hdigest⟩

/-- Only a new approval writes previews. -/
theorem Written.previews_eq (h : Written C db source db' observed) :
    db'.previews = db.previews ∨ ∃ (request : NewToolApproval)
      (locals : Table LocalApproval.callId), Previewed C db request source db'.previews locals ∧
        db'.localApprovals = locals ∧
        db'.approvals.find request.callId = some request.record := by
  cases h with
  | created request _ _ hinsert hpreviewed =>
    exact .inr ⟨request, _, hpreviewed, rfl, find_insert_self hinsert⟩
  | same | expired | decided | cancelled | prepared | completed | admitted | admittedApproval
  | finished | staged | refused | recovered | stopped => exact .inl rfl

theorem Written.previewKept (h : Written C db source db' observed) {k : String}
    (hk : db.previews.find k = some preview) : db'.previews.find k = some preview := by
  rcases h.previews_eq with heq | ⟨request, locals, hpreviewed, _⟩
  · rw [heq]
    exact hk
  · exact hpreviewed.previews.1 k preview hk

theorem Written.previewSound (hkeeps : Keeps db db') (h : Written C db source db' observed)
    (hsound : ∀ k preview, db.previews.find k = some preview → PreviewSound C db k preview) :
    ∀ k preview, db'.previews.find k = some preview → PreviewSound C db' k preview := by
  intro k preview hk
  have hold : db.previews.find k = some preview → PreviewSound C db' k preview := by
    intro hk
    obtain ⟨hcheck, hlevel, record, hrecord, hdigest⟩ := hsound k preview hk
    obtain ⟨record', hrecord', hlater⟩ := hkeeps.approvals k record hrecord
    exact ⟨hcheck, hlevel, record', hrecord', by rw [hlater.callDigest, hdigest]⟩
  rcases h.previews_eq with heq | ⟨request, locals, hpreviewed, _, hself⟩
  · rw [heq] at hk
    exact hold hk
  · rcases hpreviewed.previews.2 k preview hk with hk | ⟨rfl, hcheck, hlevel, hdigest⟩
    · exact hold hk
    · exact ⟨hcheck, hlevel, _, hself, hdigest⟩

/-! ## Checks of the rows -/

/-- Every row passes the check of its table. -/
structure RowsChecked (C : Capability) (db : ToolDb) : Prop where
  executions : ∀ k record, db.executions.find k = some record → record.check = true
  executionEvents : ∀ event ∈ db.executionEvents, event.check = true
  intents : ∀ k intent, db.intents.find k = some intent → intent.check C = true
  stageEvents : ∀ event ∈ db.stageEvents, event.check C = true
  outcomeEvents : ∀ event ∈ db.outcomeEvents, event.check C = true
  refusals : ∀ refusal ∈ db.refusals, refusal.check C = true
  localApprovals : ∀ k row, db.localApprovals.find k = some row → row.check C = true

variable {check : ρ → Bool} {id : Digest}

theorem check_insert [DecidableEq κ]
    (ht : ∀ k s, t.find k = some s → check s) (hr : check r)
    (h : t.insert? r = some u) : ∀ k s, u.find k = some s → check s := by
  intro k s hs
  rw [find_insert h] at hs
  split_ifs at hs
  · cases hs
    exact hr
  · exact ht k s hs

theorem check_change [DecidableEq κ] (ht : ∀ k s, t.find k = some s → check s) (hr : check r')
    (h : t.Changes u r r') : ∀ k s, u.find k = some s → check s := by
  intro k s hs
  rcases h.cases hs with ⟨_, rfl⟩ | ⟨_, hold⟩
  · exact hr
  · exact ht k s hold

theorem check_modify [DecidableEq κ]
    (hf : ∀ r, pk (f r) = pk r) (ht : ∀ k s, t.find k = some s → check s)
    (hr : ∀ r ∈ t.rows, p r → check (f r)) :
    ∀ k s, (t.modify p f hf).find k = some s → check s := by
  intro k s hs
  obtain ⟨r, hrow, rfl⟩ := find_modify_of_some hs
  split_ifs with hp
  · exact hr r (mem_rows_of_find hrow) hp
  · exact ht k r hrow

/-- A check of a list after one more element. -/
theorem check_snoc (hxs : ∀ y ∈ xs, P y) (hx : P x) : ∀ y ∈ xs ++ [x], P y := by
  intro y hy
  rcases old_or_new hx y hy with hy | hy
  · exact hxs y hy
  · exact hy

theorem check_append (hxs : ∀ y ∈ xs, P y) (hys : ∀ y ∈ ys, P y) : ∀ y ∈ xs ++ ys, P y := by
  intro y hy
  rcases mem_append.mp hy with hy | hy
  · exact hxs y hy
  · exact hys y hy

theorem check_preparedExecution (callId executionId : String) (now : Nat) :
    (preparedExecution callId executionId now).check := by
  simp [ToolExecutionRecord.check, preparedExecution, ToolExecutionState.carries]

theorem outcomeBytes_of_check (h : intent.check C) :
    C.outcomeBytes intent.outcome ≤ 1024 := by
  unfold check at h
  simp only [Bool.and_eq_true, decide_eq_true_eq] at h
  exact h.1.1.2

/-- The event of an outcome that an intent carries. -/
theorem check_outcomeEvent (h : intent.check C)
    (heq : intent.outcome = terminal) : GovernedOutcomeEvent.check C ⟨id, terminal⟩ := by
  have hbytes := outcomeBytes_of_check h
  rw [heq] at hbytes
  simpa [GovernedOutcomeEvent.check] using hbytes

theorem check_admission {request : PrepareRequest} (h : Admissible C db request) :
    GovernedStageEvent.check C ⟨request.executionId, some request.executionId, 11,
      admissionAudit C request.executionId request.binding⟩ := by
  simpa [GovernedStageEvent.check] using h.auditBytes

theorem LegacyFinished.rowsChecked (hrows : RowsChecked C db)
    (h : LegacyFinished db state digest finished legacy executions events) :
    (∀ k record, executions.find k = some record → record.check) ∧
      ∀ event ∈ events, event.check := by
  cases h with
  | unlinked => exact ⟨hrows.executions, hrows.executionEvents⟩
  | linked call event hcheck _ _ hevent =>
    exact ⟨check_modify _ hrows.executions hcheck, check_snoc hrows.executionEvents hevent⟩

/-- The local rows after a decision. -/
theorem check_locals {callId : String} (hrows : RowsChecked C db)
    (h : locals = db.localApprovals ∨ ∃ exact : ExactApproval,
      db.localApprovals.update? (fun row => row.callId =
      callId && row.exact.isNone) (fun row => { row with exact := some exact }) (fun _ => rfl)
      (LocalApproval.check C) = some locals) :
    ∀ k row, locals.find k = some row → row.check C := by
  rcases h with rfl | ⟨exact, hupdate⟩
  · exact hrows.localApprovals
  · obtain ⟨hcheck, rfl⟩ := update?_eq_some_iff.mp hupdate
    exact check_modify _ hrows.localApprovals hcheck

theorem Previewed.localsChecked {previews : Table GovernedPreview.callId} (hrows : RowsChecked C db)
    (h : Previewed C db request source previews locals) :
    ∀ k row, locals.find k = some row → row.check C := by
  cases h with
  | plain | governed => exact hrows.localApprovals
  | owned row _ _ _ _ _ _ hcheck hinsert => exact check_insert hrows.localApprovals hcheck hinsert

theorem Written.rowsChecked (hrows : RowsChecked C db) (h : Written C db source db' observed) :
    RowsChecked C db' := by
  cases h with
  | same => exact hrows
  | created _ _ _ _ hpreviewed => exact { hrows with localApprovals := hpreviewed.localsChecked hrows }
  | expired => exact { hrows with }
  | decided _ _ _ _ _ _ _ _ _ _ _ _ _ hlocals =>
    exact { hrows with localApprovals := check_locals hrows hlocals }
  | cancelled => exact { hrows with }
  | prepared _ _ _ _ _ _ _ _ _ _ _ _ _ hinsert _ hevent =>
    exact { hrows with
      executions := check_insert hrows.executions (check_preparedExecution _ _ _) hinsert
      executionEvents := check_snoc hrows.executionEvents hevent }
  | completed _ _ _ _ _ _ _ hchange hcheck _ hevent =>
    exact { hrows with
      executions := check_change hrows.executions hcheck hchange
      executionEvents := check_snoc hrows.executionEvents hevent }
  | admitted request _ _ hadmissible hinsert =>
    exact { hrows with
      intents := check_insert hrows.intents hadmissible.check hinsert
      outcomeEvents := check_snoc hrows.outcomeEvents (check_outcomeEvent hadmissible.check rfl)
      stageEvents := check_snoc hrows.stageEvents (check_admission hadmissible) }
  | admittedApproval request _ _ _ _ _ hadmissible _ _ _ _ _ _ _ _ hexecution _ hevent hinsert =>
    exact { hrows with
      executions := check_insert hrows.executions (check_preparedExecution _ _ _) hexecution
      executionEvents := check_snoc hrows.executionEvents hevent
      intents := check_insert hrows.intents hadmissible.check hinsert
      outcomeEvents := check_snoc hrows.outcomeEvents (check_outcomeEvent hadmissible.check rfl)
      stageEvents := check_snoc hrows.stageEvents (check_admission hadmissible) }
  | finished intent terminal _ _ _ _ hchange hcheck hlegacy =>
    obtain ⟨hexecutions, hevents⟩ := hlegacy.rowsChecked hrows
    exact { hrows with
      executions := hexecutions
      executionEvents := hevents
      intents := check_change hrows.intents hcheck hchange
      outcomeEvents := check_snoc hrows.outcomeEvents (check_outcomeEvent hcheck rfl) }
  | staged record hauditable hstage =>
    refine { hrows with stageEvents := check_snoc hrows.stageEvents ?_ }
    simp [GovernedStageEvent.check, hauditable.stage, hauditable.bytes, hstage]
  | refused record hauditable hstage hdecision =>
    refine { hrows with refusals := check_snoc hrows.refusals ?_ }
    simp [GovernedRefusal.check, hauditable.bytes, hauditable.version, hstage, hdecision]
  | recovered recoveredAt hcheck hintents =>
    refine { hrows with
      executions :=
        check_modify (ToolExecutionRecord.callId_recover recoveredAt) hrows.executions hcheck
      executionEvents := check_append hrows.executionEvents ?_
      intents := check_modify (executionId_finish interruptedOutcome)
        hrows.intents ?_
      outcomeEvents := check_append hrows.outcomeEvents ?_ }
    · intro event hmem
      obtain ⟨intent, _, rfl⟩ := mem_map.mp hmem
      rfl
    · intro intent hrow hprepared
      exact hintents intent (mem_filter.mpr ⟨hrow, hprepared⟩)
    · intro event hmem
      obtain ⟨intent, _, rfl⟩ := mem_map.mp hmem
      simpa [GovernedOutcomeEvent.check] using C.interrupted_bytes
  | stopped now _ hcheck =>
    refine { hrows with
      executions :=
        check_modify (ToolExecutionRecord.callId_interrupt now) hrows.executions ?_
      executionEvents := check_append hrows.executionEvents ?_ }
    · intro record hrow hprepared
      exact hcheck record hrow (by simpa using hprepared)
    · intro event hmem
      obtain ⟨i, _, rfl⟩ := mem_map.mp hmem
      rfl

/-! ## Audits -/

/-- The audit tables: each record names its row, a refusal denies, and a
record from after the admission is bound to its intent. -/
structure Audited (C : Capability) (db : ToolDb) : Prop where
  stages : ∀ event ∈ db.stageEvents, event.record.version = 1 ∧
    event.record.stage = event.stage ∧ event.record.executionId = event.executionId ∧
    event.stage ≤ 16
  refusals : ∀ refusal ∈ db.refusals, refusal.record.version = 1 ∧
    refusal.record.stage = refusal.stage ∧ refusal.record.executionId = refusal.executionId ∧
    refusal.stage = 11 ∧ refusal.record.decision = .deny
  bound : ∀ event ∈ db.stageEvents, 12 ≤ event.stage → ∃ intent,
    db.intents.find event.executionId = some intent ∧
      event.record.bindingDigest = C.bindingDigest intent.binding

/-- A record from after the admission that may be appended is bound. -/
theorem bound_of_auditable {record : StageAudit} (h : Auditable C db record)
    (hstage : 12 ≤ record.stage) : ∃ intent, db.intents.find record.executionId = some intent ∧
      record.bindingDigest = C.bindingDigest intent.binding := by
  have hbound := h.bound
  unfold boundRecord at hbound
  split at hbound
  · rename_i intent hintent
    exact ⟨intent, hintent, by simpa using hbound⟩
  · have hlt : record.stage < 12 := by simpa using hbound
    omega

/-- What a write adds to the audit tables. -/
theorem Written.audits (h : Written C db source db' observed) :
    (∀ event ∈ db'.stageEvents, event ∈ db.stageEvents ∨
      event.record.version = 1 ∧ event.record.stage = event.stage ∧
        event.record.executionId = event.executionId ∧ event.stage ≤ 16 ∧
        (12 ≤ event.stage → ∃ intent, db.intents.find event.executionId = some intent ∧
          event.record.bindingDigest = C.bindingDigest intent.binding)) ∧
      ∀ refusal ∈ db'.refusals, refusal ∈ db.refusals ∨
        refusal.record.version = 1 ∧ refusal.record.stage = refusal.stage ∧
          refusal.record.executionId = refusal.executionId ∧ refusal.stage = 11 ∧
          refusal.record.decision = .deny := by
  cases h with
  | admitted request | admittedApproval request =>
    exact ⟨old_or_new ⟨rfl, rfl, rfl, by simp, by simp⟩, old⟩
  | staged record hauditable =>
    exact ⟨old_or_new ⟨hauditable.version, rfl, rfl, hauditable.stage,
      bound_of_auditable hauditable⟩, old⟩
  | refused record hauditable hstage hdecision =>
    exact ⟨old, old_or_new ⟨hauditable.version, hstage, rfl, rfl, hdecision⟩⟩
  | same | created | expired | decided | cancelled | prepared | completed | finished | recovered
  | stopped => exact ⟨old, old⟩

theorem Audited.write (haudited : Audited C db) (hkeeps : Keeps db db')
    (h : Written C db source db' observed) : Audited C db' := by
  obtain ⟨hstages, hrefusals⟩ := h.audits
  refine ⟨?_, ?_, ?_⟩
  · intro event hmem
    rcases hstages event hmem with hold | ⟨hversion, hstage, hid, hle, _⟩
    · exact haudited.stages event hold
    · exact ⟨hversion, hstage, hid, hle⟩
  · intro refusal hmem
    rcases hrefusals refusal hmem with hold | hnew
    · exact haudited.refusals refusal hold
    · exact hnew
  · intro event hmem hlate
    have hfound : ∃ intent, db.intents.find event.executionId = some intent ∧
        event.record.bindingDigest = C.bindingDigest intent.binding := by
      rcases hstages event hmem with hold | ⟨_, _, _, _, hnew⟩
      · exact haudited.bound event hold hlate
      · exact hnew hlate
    obtain ⟨intent, hintent, hdigest⟩ := hfound
    obtain ⟨intent', hintent', hsame⟩ := hkeeps.intents _ intent hintent
    exact ⟨intent', hintent', by rw [hsame.binding, hdigest]⟩

/-! ## Room -/

/-- No table that the validator counts is over its capacity. -/
structure Counted (db : ToolDb) : Prop where
  intents : db.intents.rows.length ≤ capacity
  stageEvents : db.stageEvents.length ≤ capacity
  refusals : db.refusals.length ≤ capacity
  previews : db.previews.rows.length ≤ capacity

theorem length_insert [DecidableEq κ]
    (h : t.insert? r = some u) : u.rows.length = t.rows.length + 1 := by
  rw [rows_insert h]
  simp

/-- The previews grow by one, and only where there was room or the request
is local. -/
theorem Previewed.length {previews : Table GovernedPreview.callId}
    (h : Previewed C db request source previews locals) (hcounted : Counted db)
    (hroom : source = .owned → db.previews.rows.length < capacity) :
    previews.rows.length ≤ capacity := by
  cases h with
  | plain => exact hcounted.previews
  | governed _ hlt _ _ _ hinsert =>
    rw [length_insert hinsert]
    omega
  | owned _ _ _ _ _ _ hinsert =>
    have hlt := hroom rfl
    rw [length_insert hinsert]
    omega

theorem length_snoc_le (h : xs.length < capacity) : (xs ++ [x]).length ≤ capacity := by
  rw [length_append, length_singleton]
  omega

theorem Counted.write (hcounted : Counted db) (h : Written C db source db' observed)
    (hroom : source = .owned → db' = db ∨ db.previews.rows.length < capacity) :
    Counted db' := by
  cases h with
  | created request _ _ _ hpreviewed =>
    refine { hcounted with previews := hpreviewed.length hcounted (fun hsource => ?_) }
    rcases hroom hsource with hsame | hlt
    · have hevents := congrArg (fun db => db.approvalEvents.length) hsame
      simp at hevents
    · exact hlt
  | admitted request _ _ hadmissible hinsert
  | admittedApproval request _ _ _ _ _ hadmissible _ _ _ _ _ _ _ _ _ _ _ hinsert =>
    refine { hcounted with intents := ?_, stageEvents := length_snoc_le hadmissible.roomStages }
    exact (length_insert hinsert).trans_le hadmissible.roomIntents
  | finished _ _ _ _ _ _ hchange =>
    exact { hcounted with intents := hchange.length.trans_le hcounted.intents }
  | staged _ _ _ hlt => exact { hcounted with stageEvents := length_snoc_le hlt }
  | refused _ _ _ _ hlt => exact { hcounted with refusals := length_snoc_le hlt }
  | recovered =>
    refine { hcounted with intents := ?_ }
    simpa [ToolDb.recovered] using hcounted.intents
  | same => exact hcounted
  | expired | decided | cancelled | prepared | completed | stopped => exact { hcounted with }

/-! ## Intents -/

/-- The legacy rows of an intent with an approval. -/
structure LinkSound (db : ToolDb) (intent : GovernedIntent) (exact : ExactApproval) : Prop where
  previewed : db.previews.find intent.callId = some ⟨intent.callId, intent.binding⟩
  approval : ∃ record, db.approvals.find intent.callId = some record ∧
    record.state = .consumed ∧ record.toolId = intent.toolId ∧
    record.callDigest = hex intent.binding.requestDigest ∧
    record.createdAtMs = exact.issuedAtMs ∧ record.expiresAtMs = exact.approval.expiresAtMs ∧
    record.decisionId = some exact.approval.decisionId
  execution : ∃ record, db.executions.find intent.callId = some record ∧
    record.state = intent.state ∧ record.executionId = intent.executionId.text ∧
    record.resultDigest = legacyResultDigest intent.outcome

/-- The row of an intent with its history. -/
structure IntentSound (C : Capability) (db : ToolDb) (intent : GovernedIntent) : Prop where
  valid : C.isValid intent.request = true
  outcomes : outcomesOf db intent.executionId =
    if intent.state = .prepared then [preparedOutcome] else [preparedOutcome, intent.outcome]
  prepared : intent.state = .prepared → intent.outcome = preparedOutcome
  ended : intent.state ≠ .prepared → baseState intent.outcome.state = intent.state ∧
    C.isValidTerminal intent.outcome = true
  originExecution : intent.originalExecutionId =
    intent.binding.compensationOrigin.map CompensationOrigin.originalExecutionId
  originBinding : intent.originalBindingDigest =
    intent.binding.compensationOrigin.map CompensationOrigin.originalBindingDigest
  origin : validOrigin C db intent.binding = true
  admission : admissionsOf db intent.executionId =
    [admissionAudit C intent.executionId intent.binding]
  linkage : intent.approvalCallId = intent.approval.map (fun _ => intent.callId) ∧
    intent.legacyExecutionCallId = intent.approval.map (fun _ => intent.callId)
  link : ∀ exact, intent.approval = some exact → LinkSound db intent exact

/-- The rows that the soundness of an intent reads. -/
structure Reads (C : Capability) (db db' : ToolDb) (intent : GovernedIntent) : Prop where
  outcomes : outcomesOf db' intent.executionId = outcomesOf db intent.executionId
  admission : admissionsOf db' intent.executionId = admissionsOf db intent.executionId
  origin : validOrigin C db intent.binding = true → validOrigin C db' intent.binding = true
  previews : ∀ k preview, db.previews.find k = some preview →
    db'.previews.find k = some preview
  approvals : ∀ k record, db.approvals.find k = some record → record.state = .consumed →
    db'.approvals.find k = some record
  execution : ∀ record, intent.approval ≠ none →
    db.executions.find intent.callId = some record →
    record.executionId = intent.executionId.text → record.state = intent.state →
    db'.executions.find intent.callId = some record

/-- An intent stays sound when what its soundness reads stays. -/
theorem IntentSound.frame (h : IntentSound C db intent) (hreads : Reads C db db' intent) :
    IntentSound C db' intent := by
  refine { h with
    outcomes := hreads.outcomes.trans h.outcomes
    origin := hreads.origin h.origin
    admission := hreads.admission.trans h.admission
    link := ?_ }
  intro exact hexact
  obtain ⟨hpreviewed, ⟨record, hrecord, hconsumed, hrest⟩, execution, hexecution, hstate, hid,
    hdigest⟩ := h.link exact hexact
  exact ⟨hreads.previews _ _ hpreviewed,
    ⟨record, hreads.approvals _ _ hrecord hconsumed, hconsumed, hrest⟩,
    execution, hreads.execution execution (by simp [hexact]) hexecution hid hstate, hstate, hid,
    hdigest⟩

/-- A failed intent stays what it is. -/
theorem validOrigin_mono
    (h : ∀ k intent, db.intents.find k = some intent → intent.outcome.state = .failed →
      db'.intents.find k = some intent)
    (horigin : validOrigin C db binding) : validOrigin C db' binding := by
  unfold validOrigin at horigin ⊢
  split at horigin
  · rfl
  · rename_i origin
    split at horigin
    · cases horigin
    · rename_i original hfind
      have hstate : original.outcome.state = .failed := by
        simp only [Bool.and_eq_true, decide_eq_true_eq] at horigin
        exact horigin.1.1.1
      simp only [h _ original hfind hstate]
      exact horigin

/-- A consumed approval stays what it is. -/
theorem Keeps.consumed (h : Keeps db db') {k : String} {record : ToolApprovalRecord}
    (hrecord : db.approvals.find k = some record) (hconsumed : record.state = .consumed) :
    db'.approvals.find k = some record := by
  obtain ⟨record', hrecord', hlater⟩ := h.approvals k record hrecord
  rw [hrecord', hlater.eq_of_not_isOpen (by simp [hconsumed, ToolApprovalState.isOpen])]

/-- The intents all are sound. -/
def IntentsSound (C : Capability) (db : ToolDb) : Prop :=
  ∀ k intent, db.intents.find k = some intent → IntentSound C db intent

theorem outcomesOf_snoc (h : db'.outcomeEvents = db.outcomeEvents ++ [⟨id, terminal⟩])
    (k : Digest) : outcomesOf db' k = outcomesOf db k ++ if id = k then [terminal] else [] := by
  unfold outcomesOf
  rw [h, filter_append, map_append]
  by_cases hk : id = k <;> simp [hk]

theorem admissionsOf_snoc {event : GovernedStageEvent}
    (h : db'.stageEvents = db.stageEvents ++ [event]) (k : Digest) :
    admissionsOf db' k = admissionsOf db k ++
      if (event.intentId = some k && event.stage = 11) then [event.record] else [] := by
  unfold admissionsOf
  rw [h, filter_append, map_append]
  by_cases hk : (event.intentId = some k && event.stage = 11) = true <;> simp [hk]

/-- An execution without an intent has no outcomes and no admissions. -/
theorem outcomesOf_eq_nil (h : References db) (hk : db.intents.find k = none) :
    outcomesOf db k = [] := by
  unfold outcomesOf
  rw [map_eq_nil_iff, filter_eq_nil_iff]
  intro event hmem heq
  have hid : event.executionId = k := by simpa using heq
  have hfound := h.outcomeEvents event hmem
  rw [hid, hk] at hfound
  cases hfound

theorem admissionsOf_eq_nil (h : References db) (hk : db.intents.find k = none) :
    admissionsOf db k = [] := by
  unfold admissionsOf
  rw [map_eq_nil_iff, filter_eq_nil_iff]
  intro event hmem heq
  simp only [Bool.and_eq_true, decide_eq_true_eq] at heq
  have hfound := h.stageEvents event hmem k heq.1
  rw [hk] at hfound
  cases hfound

/-- A write that leaves the intents and their histories alone. -/
theorem IntentsSound.unchanged (hsound : IntentsSound C db) (hintents : db'.intents = db.intents)
    (houtcomes : db'.outcomeEvents = db.outcomeEvents)
    (hadmissions : ∀ k, admissionsOf db' k = admissionsOf db k) (hkeeps : Keeps db db')
    (hpreviews : ∀ k preview, db.previews.find k = some preview →
      db'.previews.find k = some preview)
    (hexecutions : ∀ k intent record, db.intents.find k = some intent →
      db.executions.find intent.callId = some record → record.state = intent.state →
      db'.executions.find intent.callId = some record) : IntentsSound C db' := by
  intro k intent hintent
  rw [hintents] at hintent
  refine (hsound k intent hintent).frame ⟨?_, hadmissions _, ?_, hpreviews, ?_, ?_⟩
  · unfold outcomesOf
    rw [houtcomes]
  · refine validOrigin_mono (fun k other hother _ => ?_)
    rw [hintents]
    exact hother
  · intro k record hrecord hconsumed
    exact hkeeps.consumed hrecord hconsumed
  · intro record _ hrecord _ hstate
    exact hexecutions k intent record hintent hrecord hstate

/-- A write that adds one intent. -/
theorem IntentsSound.added {request : PrepareRequest} (hsound : IntentsSound C db)
    (hrefs : References db) (hadmissible : Admissible C db request)
    (hinsert : db.intents.insert? request.intent = some db'.intents)
    (houtcomes : db'.outcomeEvents = db.outcomeEvents ++ [⟨request.executionId, preparedOutcome⟩])
    (hstages : db'.stageEvents = db.stageEvents ++ [⟨request.executionId,
      some request.executionId, 11, admissionAudit C request.executionId request.binding⟩])
    (hkeeps : Keeps db db') (hpreviews : ∀ k preview, db.previews.find k = some preview →
      db'.previews.find k = some preview)
    (hexecutions : ∀ k record, db.executions.find k = some record →
      db'.executions.find k = some record)
    (hlink : ∀ exact, request.approval = some exact → LinkSound db' request.intent exact) :
    IntentsSound C db' := by
  have hfree : db.intents.find request.executionId = none :=
    (insert?_eq_some_iff.mp hinsert).1
  have horigin : ∀ binding, validOrigin C db binding → validOrigin C db' binding := by
    intro binding
    exact validOrigin_mono (fun k other hother _ => find_insert_of_some hinsert hother)
  intro k intent hintent
  rw [find_insert hinsert] at hintent
  split_ifs at hintent with hk
  · cases hintent
    have houtcome : outcomesOf db' request.executionId = [preparedOutcome] := by
      rw [outcomesOf_snoc houtcomes, outcomesOf_eq_nil hrefs hfree]
      simp
    have hadmission : admissionsOf db' request.executionId =
        [admissionAudit C request.executionId request.binding] := by
      rw [admissionsOf_snoc hstages, admissionsOf_eq_nil hrefs hfree]
      simp
    exact ⟨hadmissible.valid, houtcome, fun _ => rfl, fun hne => absurd rfl hne, rfl, rfl,
      horigin _ hadmissible.origin, hadmission, ⟨rfl, rfl⟩, hlink⟩
  · have hne : intent.executionId ≠ request.executionId :=
      (hadmissible.fresh intent (mem_rows_of_find hintent)).1
    refine (hsound k intent hintent).frame ⟨?_, ?_, horigin _, hpreviews, ?_, ?_⟩
    · rw [outcomesOf_snoc houtcomes, if_neg (Ne.symm hne), append_nil]
    · rw [admissionsOf_snoc hstages, if_neg, append_nil]
      simpa using fun heq => hne heq.symm
    · intro k record hrecord hconsumed
      exact hkeeps.consumed hrecord hconsumed
    · intro record _ hrecord _ _
      exact hexecutions _ record hrecord

/-- The end of an intent finishes the prepared execution of its call. -/
theorem LegacyFinished.find_self
    (h : LegacyFinished db state digest finished (some call) executions events)
    (hrecord : db.executions.find call = some record) (hprepared : record.state = .prepared) :
    executions.find call = some (record.finish state digest finished) := by
  have hid : record.callId = call := pk_of_find hrecord
  cases h with
  | linked =>
    rw [find_modify, hrecord]
    simp [hid, hprepared]

/-- The executions of the other calls stay. -/
theorem LegacyFinished.find_other {k : String}
    (h : LegacyFinished db state digest finished legacy executions events) (hk : legacy ≠ some k)
    (hrecord : db.executions.find k = some record) : executions.find k = some record := by
  have hid : record.callId = k := pk_of_find hrecord
  cases h with
  | unlinked => exact hrecord
  | linked call =>
    have hne : k ≠ call := fun heq => hk (by rw [heq])
    rw [find_modify, hrecord]
    simp [hid, hne]

/-- The call of a linked intent. -/
theorem IntentSound.legacy (h : IntentSound C db intent) :
    (intent.approval = none ∧ intent.legacyExecutionCallId = none) ∨
      ∃ exact, intent.approval = some exact ∧ LinkSound db intent exact ∧
        intent.legacyExecutionCallId = some intent.callId := by
  have hlegacy := h.linkage.2
  cases happroval : intent.approval with
  | none =>
    rw [happroval] at hlegacy
    exact .inl ⟨rfl, hlegacy⟩
  | some exact =>
    rw [happroval] at hlegacy
    exact .inr ⟨exact, rfl, h.link exact happroval, hlegacy⟩

/-- A prepared intent is not the failed intent of a compensation. -/
theorem IntentSound.not_failed (h : IntentSound C db intent)
    (hprepared : intent.state = .prepared) :
    intent.outcome.state ≠ .failed := by
  rw [h.prepared hprepared]
  simp [preparedOutcome, outcome]

/-- A write that ends one intent. -/
theorem IntentsSound.ended (hsound : IntentsSound C db) (hprepared : intent.state = .prepared)
    (hvalid : C.isValidTerminal terminal) (hends : baseState terminal.state ≠ .prepared)
    (hchange : db.intents.Changes db'.intents intent (intent.finish terminal))
    (hlegacy : LegacyFinished db (baseState terminal.state) (legacyResultDigest terminal) finished
      intent.legacyExecutionCallId db'.executions db'.executionEvents)
    (houtcomes : db'.outcomeEvents = db.outcomeEvents ++ [⟨intent.executionId, terminal⟩])
    (hstages : db'.stageEvents = db.stageEvents) (happrovals : db'.approvals = db.approvals)
    (hpreviews : db'.previews = db.previews) : IntentsSound C db' := by
  have hintent := hsound _ intent hchange.found
  have horigin : ∀ binding, validOrigin C db binding → validOrigin C db' binding := by
    intro binding
    refine validOrigin_mono (fun k other hother hfailed => ?_)
    have hne : k ≠ intent.executionId := by
      rintro rfl
      rw [hchange.found] at hother
      cases hother
      exact hintent.not_failed hprepared hfailed
    rw [hchange.other hne]
    exact hother
  have hadmissions : ∀ k, admissionsOf db' k = admissionsOf db k := by
    intro k
    unfold admissionsOf
    rw [hstages]
  intro k other hother
  rcases hchange.cases hother with ⟨rfl, rfl⟩ | ⟨hk, hother⟩
  · refine ⟨hintent.valid, ?_, fun h => absurd h hends, fun _ => ⟨rfl, hvalid⟩,
      hintent.originExecution, hintent.originBinding, horigin _ hintent.origin,
      (hadmissions _).trans hintent.admission, hintent.linkage, ?_⟩
    · rw [executionId_finish, outcomesOf_snoc houtcomes, if_pos rfl,
        hintent.outcomes, if_pos hprepared, if_neg]
      · rfl
      · exact hends
    · intro exact hexact
      obtain ⟨hpreviewed, happroval, record, hrecord, hstate, hid, _⟩ := hintent.link exact hexact
      have hcall : intent.legacyExecutionCallId = some intent.callId := by
        rw [hintent.linkage.2]
        have hexact' : intent.approval = some exact := hexact
        rw [hexact']
        rfl
      rw [hcall] at hlegacy
      refine ⟨?_, ?_, _, hlegacy.find_self hrecord (hstate.trans hprepared), rfl, hid, rfl⟩
      · rw [hpreviews]
        exact hpreviewed
      · rw [happrovals]
        exact happroval
  · have hne : other.executionId ≠ intent.executionId := by
      rw [pk_of_find hother]
      exact hk
    refine (hsound k other hother).frame ⟨?_, hadmissions _, horigin _, ?_, ?_, ?_⟩
    · rw [outcomesOf_snoc houtcomes, if_neg (Ne.symm hne), append_nil]
    · intro k preview hpreview
      rw [hpreviews]
      exact hpreview
    · intro k record hrecord _
      rw [happrovals]
      exact hrecord
    · intro record _ hrecord hid _
      refine hlegacy.find_other ?_ hrecord
      -- the execution of another intent carries another identifier
      intro hcall
      rcases hintent.legacy with ⟨_, hnone⟩ | ⟨exact, _, hlink, hsome⟩
      · rw [hnone] at hcall
        cases hcall
      · rw [hsome, Option.some.injEq] at hcall
        obtain ⟨record', hrecord', _, hid', _⟩ := hlink.execution
        rw [hcall, hrecord] at hrecord'
        cases hrecord'
        exact hne (Digest.text_injective (hid.symm.trans hid'))

/-- The prepared intents with one execution identifier. -/
theorem filter_preparedIntents (h : db.intents.find k = some intent) :
    (preparedIntents db).filter (fun other => other.executionId = k) =
      if intent.state = .prepared then [intent] else [] := by
  unfold preparedIntents
  rw [filter_comm, filter_pk_eq h]
  by_cases hprepared : intent.state = .prepared <;> simp [hprepared]

theorem outcomesOf_recovered (recoveredAt : Nat) (h : db.intents.find k = some intent) :
    outcomesOf (db.recovered recoveredAt) k = outcomesOf db k ++
      if intent.state = .prepared then [interruptedOutcome] else [] := by
  have hevents : ((preparedIntents db).map (fun intent =>
      (⟨intent.executionId, interruptedOutcome⟩ : GovernedOutcomeEvent))).filter
        (fun event => event.executionId = k) =
      ((preparedIntents db).filter (fun other => other.executionId = k)).map
        (fun intent => ⟨intent.executionId, interruptedOutcome⟩) := by
    rw [filter_map]
    rfl
  unfold outcomesOf ToolDb.recovered
  rw [filter_append, map_append, hevents, filter_preparedIntents h]
  by_cases hprepared : intent.state = .prepared <;> simp [hprepared]

/-- The execution of a sound intent is linked to a prepared one exactly when
the intent itself is prepared. -/
theorem linkedToPrepared_iff (hsound : IntentsSound C db)
    (hintent : db.intents.find k = some intent)
    (hrecord : db.executions.find intent.callId = some record)
    (hid : record.executionId = intent.executionId.text)
    (hlegacy : intent.legacyExecutionCallId = some intent.callId) :
    linkedToPrepared db record ↔ intent.state = .prepared := by
  have hcall : record.callId = intent.callId := pk_of_find hrecord
  unfold linkedToPrepared
  rw [decide_eq_true_eq, mem_map]
  constructor
  · rintro ⟨other, hmem, hother⟩
    obtain ⟨hrow, hprepared⟩ := mem_filter.mp hmem
    have hfind := mem_rows_iff_find.mp hrow
    rcases (hsound _ other hfind).legacy with ⟨_, hnone⟩ | ⟨exact, _, hlink, hsome⟩
    · rw [hnone] at hother
      cases hother
    · rw [hsome, Option.some.injEq, hcall] at hother
      obtain ⟨record', hrecord', _, hid', _⟩ := hlink.execution
      rw [hother, hrecord] at hrecord'
      cases hrecord'
      have heq : other.executionId = k := by
        rw [← pk_of_find hintent]
        exact Digest.text_injective (hid'.symm.trans hid)
      rw [heq, hintent] at hfind
      cases hfind
      simpa using hprepared
  · intro hprepared
    refine ⟨intent, mem_filter.mpr ⟨Table.mem_rows_of_find hintent, by simp [hprepared]⟩, ?_⟩
    rw [hlegacy, hcall]

theorem find_recovered_executions (recoveredAt : Nat) (k : String) :
    (db.recovered recoveredAt).executions.find k = (db.executions.find k).map
      (fun record => if linkedToPrepared db record then record.recover recoveredAt
        else record) := by
  rw [ToolDb.recovered, find_modify]

/-- `recover_on` ends every prepared intent. -/
theorem IntentsSound.recovered (hsound : IntentsSound C db) (recoveredAt : Nat) :
    IntentsSound C (db.recovered recoveredAt) := by
  have horigin : ∀ binding, validOrigin C db binding →
      validOrigin C (db.recovered recoveredAt) binding := by
    intro binding
    refine validOrigin_mono (fun k other hother hfailed => ?_)
    have hne : other.state ≠ .prepared :=
      fun hprepared => (hsound k other hother).not_failed hprepared hfailed
    rw [ToolDb.recovered, find_modify, hother]
    simp [hne]
  intro k intent' hintent'
  rw [ToolDb.recovered, find_modify, Option.map_eq_some_iff] at hintent'
  obtain ⟨intent, hintent, rfl⟩ := hintent'
  have hold := hsound k intent hintent
  have hid : intent.executionId = k := pk_of_find hintent
  have houtcomes := outcomesOf_recovered recoveredAt hintent
  by_cases hprepared : intent.state = .prepared
  · simp only [hprepared, decide_true, if_true] at houtcomes ⊢
    refine ⟨hold.valid, ?_, fun h => ?_, fun _ => ⟨rfl, C.interrupted_valid⟩,
      hold.originExecution, hold.originBinding, horigin _ hold.origin, hold.admission,
      hold.linkage, ?_⟩
    · rw [executionId_finish, hid, houtcomes, ← hid, hold.outcomes, if_pos hprepared, if_neg]
      · rfl
      · simp [GovernedIntent.finish, interruptedOutcome, outcome, baseState]
    · simp [GovernedIntent.finish, interruptedOutcome, outcome, baseState] at h
    · intro exact hexact
      obtain ⟨hpreviewed, happroval, record, hrecord, _, hexecution, hdigest⟩ :=
        hold.link exact hexact
      have hlegacy : intent.legacyExecutionCallId = some intent.callId := by
        rcases hold.legacy with ⟨hnone, _⟩ | ⟨_, _, _, hsome⟩
        · have hexact' : intent.approval = some exact := hexact
          rw [hnone] at hexact'
          cases hexact'
        · exact hsome
      have hlinked : linkedToPrepared db record :=
        (linkedToPrepared_iff hsound hintent hrecord hexecution hlegacy).mpr hprepared
      refine ⟨hpreviewed, happroval, record.recover recoveredAt, ?_, rfl, hexecution, ?_⟩
      · rw [find_recovered_executions]
        show Option.map _ (db.executions.find intent.callId) = _
        rw [hrecord]
        simp [hlinked]
      · rw [hold.prepared hprepared] at hdigest
        exact hdigest
  · simp only [hprepared, decide_false, Bool.false_eq_true, if_false, append_nil]
      at houtcomes ⊢
    refine hold.frame ⟨?_, rfl, horigin _, fun _ _ h => h, fun _ _ h _ => h, ?_⟩
    · rw [hid]
      exact houtcomes
    · intro record happroval hrecord hexecution _
      rcases hold.legacy with ⟨hnone, _⟩ | ⟨exact, _, _, hsome⟩
      · exact absurd hnone happroval
      · have hnot : ¬ linkedToPrepared db record := fun hlinked =>
          hprepared ((linkedToPrepared_iff hsound hintent hrecord hexecution hsome).mp hlinked)
        rw [find_recovered_executions, hrecord]
        simp [hnot]

/-- Every write keeps the intents sound. -/
theorem IntentsSound.write (hsound : IntentsSound C db) (hrefs : References db)
    (hkeeps : Keeps db db') (h : Written C db source db' observed) : IntentsSound C db' := by
  have hpreviews : ∀ k preview, db.previews.find k = some preview →
      db'.previews.find k = some preview := fun k preview => h.previewKept
  cases h with
  | same => exact hsound
  | created | expired | decided | cancelled | refused =>
    exact hsound.unchanged rfl rfl (fun _ => rfl) hkeeps hpreviews (fun _ _ _ _ h _ => h)
  | prepared _ _ _ _ _ _ _ _ _ _ _ _ _ hinsert =>
    exact hsound.unchanged rfl rfl (fun _ => rfl) hkeeps hpreviews
      (fun _ _ _ _ h _ => find_insert_of_some hinsert h)
  | completed record _ _ _ _ _ hintent hchange =>
    refine hsound.unchanged rfl rfl (fun _ => rfl) hkeeps hpreviews ?_
    intro k intent other hfind hother _
    have hne : intent.callId ≠ record.callId :=
      hasIntent_eq_false.mp hintent intent (mem_rows_of_find hfind)
    rw [hchange.other hne]
    exact hother
  | admitted request ha0 _ hadmissible hinsert =>
    refine hsound.added hrefs hadmissible hinsert rfl rfl hkeeps hpreviews (fun _ _ h => h) ?_
    intro exact hexact
    rw [ha0] at hexact
    cases hexact
  | admittedApproval request exact record _ _ happroval hadmissible hpreviewed hcall hmatch _ _
      hchange _ _ hexecution _ _ hinsert =>
    refine hsound.added hrefs hadmissible hinsert rfl rfl hkeeps hpreviews
      (fun _ _ h => find_insert_of_some hexecution h) ?_
    intro exact' hexact
    rw [happroval] at hexact
    cases hexact
    have hself := hchange.self
    rw [hcall] at hself
    unfold approvalDiffers at hmatch
    simp only [Bool.or_eq_false_iff, decide_eq_false_iff_not, ne_eq, not_not] at hmatch
    obtain ⟨⟨⟨⟨⟨_, hdigest⟩, htool⟩, hdecision⟩, hcreated⟩, hexpires⟩ := hmatch
    exact ⟨hpreviewed, ⟨_, hself, rfl, htool, hdigest, hcreated, hexpires, hdecision⟩,
      _, find_insert_self hexecution, rfl, rfl, rfl⟩
  | finished intent terminal _ hprepared hvalid hends hchange _ hlegacy =>
    exact hsound.ended hprepared hvalid hends hchange hlegacy rfl rfl rfl rfl
  | staged record _ hstage =>
    refine hsound.unchanged rfl rfl ?_ hkeeps hpreviews (fun _ _ _ _ h _ => h)
    intro k
    rw [admissionsOf_snoc rfl, if_neg (by simp), append_nil]
  | recovered recoveredAt => exact hsound.recovered recoveredAt
  | stopped now hsettled =>
    refine hsound.unchanged rfl rfl (fun _ => rfl) hkeeps hpreviews ?_
    intro k intent record hfind hrecord hstate
    have hne : record.state ≠ .prepared := by
      rw [hstate]
      exact hsettled intent (mem_rows_of_find hfind)
    rw [ToolDb.stopped, find_modify, hrecord]
    simp [hne]

/-! ## The invariant -/

/-- A local row has a preview. -/
theorem Written.localPreviewed (hrefs : References db) (h : Written C db source db' observed)
    {k : String} (hrow : db'.localApprovals.find k = some row) : (db'.previews.find k).isSome := by
  have hold : ∀ old, db.localApprovals.find k = some old → (db'.previews.find k).isSome := by
    intro old hold
    obtain ⟨preview, hpreview⟩ := Option.isSome_iff_exists.mp (hrefs.localApprovals k old hold)
    rw [h.previewKept hpreview]
    rfl
  cases h with
  | created request _ _ _ hpreviewed =>
    cases hpreviewed with
    | plain => exact hold row hrow
    | governed => exact hold row hrow
    | owned new hcall _ _ _ _ hinsert _ hlocal =>
      have hrow' : _ = some row := (find_insert hlocal k).symm.trans hrow
      split_ifs at hrow' with hk
      · exact isSome_insert_self hinsert (hk.symm.trans hcall)
      · exact hold row hrow'
  | decided _ _ _ _ _ _ _ _ _ _ _ _ _ hlocals =>
    rcases hlocals with rfl | ⟨exact, hupdate⟩
    · exact hold row hrow
    · obtain ⟨_, rfl⟩ := update?_eq_some_iff.mp hupdate
      have hrow' := hrow
      rw [find_modify, Option.map_eq_some_iff] at hrow'
      obtain ⟨old, hfind, _⟩ := hrow'
      exact hold old hfind
  | same | expired | cancelled | prepared | completed | admitted | admittedApproval | finished
  | staged | refused | recovered | stopped => exact hold row hrow

/-- The facts that hold in every run. -/
structure Coherent (C : Capability) (db : ToolDb) : Prop where
  checked : Checked db
  references : References db
  rows : RowsChecked C db
  previews : ∀ k preview, db.previews.find k = some preview → PreviewSound C db k preview
  audited : Audited C db
  intents : IntentsSound C db

theorem Coherent.empty : Coherent C .empty := by
  refine ⟨?_, ?_, ?_, ?_, ?_, ?_⟩
  · simp [Checked, ToolDb.empty]
  · constructor <;> simp [ToolDb.empty]
  · constructor <;> simp [ToolDb.empty]
  · simp [ToolDb.empty]
  · constructor <;> simp [ToolDb.empty]
  · simp [IntentsSound, ToolDb.empty]

theorem Coherent.write (hc : Coherent C db) (h : Written C db source db' observed) :
    Coherent C db' := by
  have hkeeps := h.keeps hc.checked
  refine ⟨h.checked hc.checked, ?_, h.rowsChecked hc.rows, h.previewSound hkeeps hc.previews,
    hc.audited.write hkeeps h, hc.intents.write hc.references hkeeps h⟩
  refine hc.references.write hkeeps ?_ ?_ (h.refers hkeeps)
  · intro k record hrecord hnew
    obtain ⟨_, approval, happroval, _⟩ := h.newExecution hrecord hnew
    simp [happroval]
  · intro k row hrow
    exact h.localPreviewed hc.references hrow

/-- The outcomes that ended an intent have version 1. -/
def Versioned (db : ToolDb) : Prop :=
  ∀ k intent, db.intents.find k = some intent → intent.state ≠ .prepared →
    intent.outcome.version = 1

theorem Versioned.write (hv : Versioned db) (h : Written C db source db' observed)
    (hversion : ∀ terminal, source = .ending terminal → C.isValidTerminal terminal →
      terminal.version = 1) : Versioned db' := by
  have hinsert : ∀ {request : PrepareRequest} {intents : Table executionId},
      db.intents.insert? request.intent = some intents → ∀ k intent,
      intents.find k = some intent → intent.state ≠ .prepared → intent.outcome.version = 1 := by
    intro request intents hinsert k intent hintent hended
    rw [find_insert hinsert] at hintent
    split_ifs at hintent
    · cases hintent
      rfl
    · exact hv k intent hintent hended
  cases h with
  | admitted _ _ _ _ hnew => exact hinsert hnew
  | admittedApproval _ _ _ _ _ _ _ _ _ _ _ _ _ _ _ _ _ _ hnew => exact hinsert hnew
  | finished old terminal _ _ hvalid _ hchange =>
    intro k intent hintent hended
    rcases hchange.cases hintent with ⟨_, rfl⟩ | ⟨_, hold⟩
    · exact hversion terminal rfl hvalid
    · exact hv k intent hold hended
  | recovered =>
    intro k intent hintent hended
    rw [ToolDb.recovered, find_modify, Option.map_eq_some_iff] at hintent
    obtain ⟨old, hold, rfl⟩ := hintent
    split_ifs at hended ⊢ with hprepared
    · rfl
    · exact hv k old hold hended
  | same | created | expired | decided | cancelled | prepared | completed | staged | refused
  | stopped => exact hv

/-- The facts that the validator re-derives. -/
structure Consistent (C : Capability) (db : ToolDb) : Prop extends Coherent C db where
  counted : Counted db
  versioned : Versioned db

theorem Consistent.empty : Consistent C .empty := by
  refine ⟨.empty, ?_, ?_⟩
  · constructor <;> simp [ToolDb.empty, Table.empty]
  · simp [Versioned, ToolDb.empty]

/-- A write keeps the invariant where there is room for its preview and its
outcome has version 1. -/
theorem Consistent.write (hc : Consistent C db) (h : Written C db source db' observed)
    (hroom : source = .owned → db' = db ∨ db.previews.rows.length < capacity)
    (hversion : ∀ terminal, source = .ending terminal → C.isValidTerminal terminal →
      terminal.version = 1) : Consistent C db' :=
  ⟨hc.toCoherent.write h, hc.counted.write h hroom, hc.versioned.write h hversion⟩

/-! ## The validator -/

/-- A valid origin is an intent. -/
theorem find_of_validOrigin (h : validOrigin C db binding)
    (horigin : binding.compensationOrigin = some origin) :
    (db.intents.find origin.originalExecutionId).isSome := by
  unfold validOrigin at h
  simp only [horigin] at h
  split at h
  · cases h
  · rename_i original hfind
    simp [hfind]

/-- The references of one intent. -/
theorem IntentSound.references (h : IntentSound C db intent) :
    (intent.approvalCallId.all (fun call => (db.approvals.find call).isSome) &&
      intent.legacyExecutionCallId.all (fun call => (db.executions.find call).isSome) &&
      intent.originalExecutionId.all (fun id => (db.intents.find id).isSome)) = true := by
  have horigin : intent.originalExecutionId.all (fun id => (db.intents.find id).isSome) := by
    rw [h.originExecution]
    cases heq : intent.binding.compensationOrigin with
    | none => rfl
    | some origin => exact find_of_validOrigin h.origin heq
  rw [horigin, h.linkage.1, h.linkage.2]
  cases happroval : intent.approval with
  | none => rfl
  | some exact =>
    obtain ⟨_, ⟨record, hrecord, _⟩, execution, hexecution, _⟩ := h.link exact happroval
    simp [hrecord, hexecution]

theorem foreignKeyCheck_of_consistent (h : Consistent C db) : foreignKeyCheck db := by
  have hrefs := h.references
  unfold foreignKeyCheck
  simp only [Bool.and_eq_true, all_eq_true]
  refine ⟨⟨⟨⟨⟨⟨⟨hrefs.approvalEvents, ?_⟩, hrefs.executionEvents⟩, ?_⟩, ?_⟩,
    hrefs.outcomeEvents⟩, ?_⟩, ?_⟩
  · intro record hmem
    exact hrefs.executions _ record (mem_rows_iff_find.mp hmem)
  · intro intent hmem
    have href := (h.intents _ intent (mem_rows_iff_find.mp hmem)).references
    simpa only [Bool.and_eq_true] using href
  · intro event hmem
    cases hid : event.intentId with
    | none => rfl
    | some id => exact hrefs.stageEvents event hmem id hid
  · intro preview hmem
    obtain ⟨_, _, record, hrecord, _⟩ := h.previews _ preview (mem_rows_iff_find.mp hmem)
    simp [hrecord]
  · intro row hmem
    exact hrefs.localApprovals _ row (mem_rows_iff_find.mp hmem)

theorem quickCheck_of_consistent (h : Consistent C db) : quickCheck C db := by
  have hrows := h.rows
  unfold quickCheck
  simp only [Bool.and_eq_true, all_eq_true]
  refine ⟨⟨⟨⟨⟨⟨⟨⟨?_, ?_⟩, hrows.executionEvents⟩, ?_⟩, hrows.stageEvents⟩,
    hrows.outcomeEvents⟩, hrows.refusals⟩, ?_⟩, ?_⟩
  · intro record hmem
    exact h.checked _ record (mem_rows_iff_find.mp hmem)
  · intro record hmem
    exact hrows.executions _ record (mem_rows_iff_find.mp hmem)
  · intro intent hmem
    exact hrows.intents _ intent (mem_rows_iff_find.mp hmem)
  · intro preview hmem
    exact (h.previews _ preview (mem_rows_iff_find.mp hmem)).check
  · intro row hmem
    exact hrows.localApprovals _ row (mem_rows_iff_find.mp hmem)

theorem validatePreview_of_sound (h : PreviewSound C db preview.callId preview) :
    validatePreview db preview = .ok () := by
  obtain ⟨_, hlevel, record, hrecord, hdigest⟩ := h
  unfold validatePreview
  rw [hrecord]
  simp [hdigest, hlevel]

variable (h : IntentSound C db intent)

include h

theorem validateApproval_of_sound : validateApproval db intent intent.approval = .ok () := by
  cases happroval : intent.approval with
  | none => rfl
  | some exact =>
    obtain ⟨hpreviewed, ⟨record, hrecord, _, htool, hdigest, hcreated, hexpires, hdecision⟩, _⟩ :=
      h.link exact happroval
    simp [validateApproval, requireRecord, hpreviewed, hrecord, htool, hdigest, hcreated,
      hexpires, hdecision]

theorem validateLegacy_of_sound :
    validateLegacy db intent intent.legacyExecutionCallId = .ok () := by
  rcases h.legacy with ⟨_, hnone⟩ | ⟨exact, _, hlink, hsome⟩
  · rw [hnone]
    rfl
  · obtain ⟨_, ⟨record, hrecord, hconsumed, _⟩, execution, hexecution, hstate, hid, hdigest⟩ :=
      hlink
    rw [hsome]
    simp [validateLegacy, hrecord, hconsumed, hexecution, hstate, hid, hdigest]

/-- The outcomes of a sound intent end with the one of its row. -/
theorem getLast?_outcomesOf :
    (outcomesOf db intent.executionId).getLast? = some intent.outcome := by
  rw [h.outcomes]
  split_ifs with hprepared
  · rw [h.prepared hprepared]
    rfl
  · rfl

theorem prepared_iff_of_sound : intent.outcome.state = .prepared ↔ intent.state = .prepared := by
  constructor
  · intro hstate
    by_contra hne
    have hbase := (h.ended hne).1
    rw [hstate] at hbase
    exact hne hbase.symm
  · intro hprepared
    rw [h.prepared hprepared]
    rfl

theorem length_outcomesOf : (outcomesOf db intent.executionId).length =
      if intent.outcome.state = .prepared then 1 else 2 := by
  rw [h.outcomes]
  by_cases hprepared : intent.state = .prepared
  · rw [if_pos hprepared, if_pos ((prepared_iff_of_sound h).mpr hprepared)]
    rfl
  · rw [if_neg hprepared, if_neg (fun heq => hprepared ((prepared_iff_of_sound h).mp heq))]
    rfl

theorem validRecord_of_sound (hv : intent.state ≠ .prepared → intent.outcome.version = 1) :
    validRecord C intent := by
  unfold validRecord
  by_cases hprepared : intent.state = .prepared
  · have houtcome := h.prepared hprepared
    simp [h.valid, houtcome, hprepared, preparedOutcome, outcome, baseState]
  · obtain ⟨hbase, hterminal⟩ := h.ended hprepared
    have hversion := hv hprepared
    have hne : intent.outcome.state ≠ .prepared :=
      fun heq => hprepared ((prepared_iff_of_sound h).mp heq)
    simp [h.valid, hbase, hterminal, hversion, hne]

theorem validateIntent_of_sound (hv : intent.state ≠ .prepared → intent.outcome.version = 1) :
    validateIntent C db intent = .ok () := by
  have hlinkage : intent.approval.isSome = intent.legacyExecutionCallId.isSome := by
    rw [h.linkage.2]
    simp
  unfold validateIntent
  simp only [getLast?_outcomesOf h, required_some, ok_bind, decide_true, ensure_true,
    ← h.originExecution, ← h.originBinding, ne_eq, not_true_eq_false, decide_false, h.origin,
    Bool.not_true, Bool.or_self, Bool.not_false, length_outcomesOf h, validRecord_of_sound h hv,
    h.admission, validateApproval_of_sound h, hlinkage, beq_self_eq_true, validateLegacy_of_sound h]

omit h

/-- The invariant is what the validator asks. -/
theorem validateOn_of_consistent (h : Consistent C db) : validateOn C db = .ok () := by
  have hcounted := h.counted
  have hcounts : [db.intents.rows.length, db.stageEvents.length, db.refusals.length,
      db.previews.rows.length].forM (fun count =>
        ensure (count ≤ capacity) (StoreError.corruptData "governed capacity exceeded")) =
      .ok () := by
    rw [forM_eq_ok]
    intro count hmem
    simp only [mem_cons, not_mem_nil, or_false] at hmem
    rcases hmem with rfl | rfl | rfl | rfl
    · simpa using hcounted.intents
    · simpa using hcounted.stageEvents
    · simpa using hcounted.refusals
    · simpa using hcounted.previews
  have hpreviews : db.previews.rows.forM (validatePreview db) = .ok () :=
    forM_eq_ok.mpr (fun preview hmem =>
      validatePreview_of_sound (h.previews _ preview (mem_rows_iff_find.mp hmem)))
  have hrefusals : (!db.refusals.any (fun refusal => refusal.stage ≠ 11 ||
      refusal.record.decision ≠ .deny)) := by
    simp only [Bool.not_eq_true', any_eq_false]
    intro refusal hmem
    obtain ⟨_, _, _, hstage, hdecision⟩ := h.audited.refusals refusal hmem
    simp [hstage, hdecision]
  have hstages : db.stageEvents.forM
      (fun event => validateAudit event.executionId event.stage event.record) = .ok () := by
    refine forM_eq_ok.mpr (fun event hmem => ?_)
    obtain ⟨hversion, hstage, hid, hle⟩ := h.audited.stages event hmem
    simp [validateAudit, hversion, hstage, hid, hle]
  have hdenied : db.refusals.forM
      (fun refusal => validateAudit refusal.executionId refusal.stage refusal.record) =
      .ok () := by
    refine forM_eq_ok.mpr (fun refusal hmem => ?_)
    obtain ⟨hversion, hstage, hid, h11, _⟩ := h.audited.refusals refusal hmem
    simp [validateAudit, hversion, hstage, hid, h11]
  have hbound : (db.stageEvents.filter (fun event => 12 ≤ event.stage)).forM
      (validatePostAdmission C db) = .ok () := by
    refine forM_eq_ok.mpr (fun event hmem => ?_)
    obtain ⟨hmem, hlate⟩ := mem_filter.mp hmem
    obtain ⟨intent, hintent, hdigest⟩ := h.audited.bound event hmem (by simpa using hlate)
    simp [validatePostAdmission, hintent, hdigest]
  have hintents : db.intents.rows.forM (validateIntent C db) = .ok () :=
    forM_eq_ok.mpr (fun intent hmem =>
      have hfind := mem_rows_iff_find.mp hmem
      validateIntent_of_sound (h.intents _ intent hfind) (h.versioned _ intent hfind))
  unfold validateOn
  rw [foreignKeyCheck_of_consistent h, quickCheck_of_consistent h, hcounts, hpreviews, hrefusals,
    hstages, hdenied, hbound, hintents]
  rfl

end Abbey.Tool
