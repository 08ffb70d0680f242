import Abbey.Authority.Invoke
import Abbey.Tool.SingleUse

/-!
# What the store calls leave of the approvals

An approval comes to be by `create_tool_approval` alone: every other call
that the authority makes leaves a call without an approval as it is
(`NoNew`).  `StoreStep` is what the invariant of the authority needs to know
about one call of the store.
-/

namespace Abbey.Authority

open Abbey.Lib Abbey.Run Abbey.Tool Abbey.Daemon Except

variable {C : Capability} {db db' : ToolDb} {k : String}
variable {observed : List Observation} {now : Nat} {callId callDigest executionId : String}
  {record : ToolApprovalRecord}

/-- No call gets its first approval. -/
def NoNew (db db' : ToolDb) : Prop :=
  ∀ k, db.approvals.find k = none → db'.approvals.find k = none

theorem NoNew.refl (db : ToolDb) : NoNew db db := fun _ h => h

theorem NoNew.of_eq (h : db'.approvals = db.approvals) : NoNew db db' := fun k hk => by
  rw [h]
  exact hk

theorem noNew_update {set : ToolApprovalRecord → ToolApprovalRecord}
    {hset : ∀ record, (set record).callId = record.callId}
    (h : db.approvals.update? select set hset ToolApprovalRecord.check = some approvals) :
    NoNew db { db with approvals } := by
  intro k hk
  obtain ⟨_, rfl⟩ := Table.update?_eq_some_iff.mp h
  show (db.approvals.modify select set hset).find k = none
  rw [Table.find_modify, hk]
  rfl

theorem noNew_expire {current : ToolApprovalRecord}
    (h : expireIfNeeded db current now = .ok (some (db', record))) : NoNew db db' := by
  unfold expireIfNeeded at h
  split_ifs at h with hopen
  · cases h
  · simp only [bind_ok_iff] at h
    obtain ⟨_, _, h⟩ := h
    split_ifs at h with hlate
    · cases h
    · simp only [bind_ok_iff, updateApprovals_eq_ok, insertEvent_eq_ok, ok.injEq,
        Option.some.injEq, Prod.mk.injEq] at h
      obtain ⟨_, ⟨approvals, hupdate, rfl⟩, _, ⟨_, rfl⟩, _, _, rfl, _⟩ := h
      exact noNew_update hupdate

theorem noNew_toolApproval {record : Option ToolApprovalRecord}
    (h : toolApproval db callId now = .ok (db', record)) : NoNew db db' := by
  unfold toolApproval at h
  simp only [bind_ok_iff] at h
  obtain ⟨_, _, n, _, h⟩ := h
  cases hfind : db.approvals.find callId with
  | none =>
    rw [hfind] at h
    cases h
    exact .refl db
  | some current =>
    rw [hfind] at h
    simp only [bind_ok_iff] at h
    obtain ⟨result, hexpire, h⟩ := h
    cases result with
    | none =>
      cases h
      exact .refl db
    | some expired =>
      cases h
      exact noNew_expire hexpire

/-- A call without an approval. -/
theorem toolApproval_none (h : toolApproval db callId now = .ok (db', none)) :
    db'.approvals.find callId = none := by
  unfold toolApproval at h
  simp only [bind_ok_iff] at h
  obtain ⟨_, _, n, _, h⟩ := h
  cases hfind : db.approvals.find callId with
  | none =>
    rw [hfind] at h
    cases h
    exact hfind
  | some current =>
    rw [hfind] at h
    simp only [bind_ok_iff] at h
    obtain ⟨result, _, h⟩ := h
    cases result with
    | none => cases h
    | some expired => cases h

theorem noNew_decide {decision : ToolApprovalDecision}
    (h : decideToolApproval db callId callDigest decisionId decision now = .ok (db', record)) :
    NoNew db db' := by
  unfold decideToolApproval at h
  simp only [bind_ok_iff] at h
  obtain ⟨_, _, _, _, _, _, n, _, current, _, _, _, result, hexpire, h⟩ := h
  cases result with
  | some expired =>
    cases h
    exact noNew_expire hexpire
  | none =>
    simp only [bind_ok_iff, updateApprovals_eq_ok, insertEvent_eq_ok, ok.injEq,
      Prod.mk.injEq] at h
    obtain ⟨_, _, _, ⟨approvals, hupdate, rfl⟩, _, ⟨_, rfl⟩, _, _, rfl, _⟩ := h
    exact noNew_update hupdate

theorem noNew_cancel
    (h : cancelToolApproval db callId cancellationId now = .ok (db', record)) : NoNew db db' := by
  unfold cancelToolApproval at h
  simp only [bind_ok_iff] at h
  obtain ⟨_, _, _, _, n, _, current, _, result, hexpire, h⟩ := h
  cases result with
  | some expired =>
    cases h
    exact noNew_expire hexpire
  | none =>
    simp only [bind_ok_iff, updateApprovals_eq_ok, insertEvent_eq_ok, ok.injEq,
      Prod.mk.injEq] at h
    obtain ⟨_, _, _, ⟨approvals, hupdate, rfl⟩, _, ⟨_, rfl⟩, _, _, rfl, _⟩ := h
    exact noNew_update hupdate

/-- A preparation finds an approval and no execution, and leaves both. -/
theorem prepare_spec
    (h : prepareToolExecution db callId callDigest executionId now = .ok (db', preparation)) :
    NoNew db db' ∧ ∀ record, preparation = .prepared record →
      (db.approvals.find callId).isSome ∧ db.executions.find callId = none ∧
        (db'.executions.find callId).isSome := by
  unfold prepareToolExecution at h
  simp only [bind_ok_iff, requireRecord, required_eq_ok] at h
  obtain ⟨_, _, _, _, _, _, n, _, _, _, current, hrow, _, _, result, hexpire, h⟩ := h
  cases result with
  | some expired =>
    cases h
    exact ⟨noNew_expire hexpire, by rintro _ ⟨⟩⟩
  | none =>
    simp only [bind_ok_iff, ensure_eq_ok, updateApprovals_eq_ok, insertEvent_eq_ok,
      insertExecution_eq_ok, insertExecutionEvent_eq_ok, requireExecution, required_eq_ok,
      ok.injEq, Prod.mk.injEq, Bool.not_eq_true', Bool.or_eq_false_iff] at h
    obtain ⟨_, ⟨⟨_, hunused⟩, _⟩, _, ⟨approvals, hupdate, rfl⟩, _, _, _, ⟨_, rfl⟩, _,
      ⟨_, executions, hinsert, rfl⟩, _, ⟨_, rfl⟩, found, hfound, rfl, rfl⟩ := h
    refine ⟨noNew_update hupdate, fun record _ => ⟨by simp [hrow], ?_, by simp [hfound]⟩⟩
    exact (Table.insert?_eq_some_iff.mp hinsert).1

theorem noNew_complete {outcome : ToolExecutionOutcome} {record : ToolExecutionRecord}
    (h : completeToolExecution db callId executionId outcome resultDigest now = .ok (db', record)) :
    NoNew db db' := by
  unfold completeToolExecution at h
  simp only [bind_ok_iff, updateExecutions_eq_ok, insertExecutionEvent_eq_ok, ok.injEq,
    Prod.mk.injEq] at h
  obtain ⟨_, _, _, _, _, _, n, _, _, _, current, _, _, _, _, ⟨executions, _, rfl⟩, _, _, _,
    ⟨_, rfl⟩, _, _, rfl, _⟩ := h
  exact .refl _

/-- A created approval is the only new one. -/
theorem create_spec
    (h : createToolApproval db request = .ok (db', record)) (hk : db.approvals.find k = none)
    (hne : k ≠ request.callId) : db'.approvals.find k = none := by
  obtain ⟨_, _, _, approvals, hinsert, rfl⟩ := createOn_writes h
  show approvals.find k = none
  have hother : ¬ request.record.callId = k := fun heq => hne heq.symm
  rw [Table.find_insert hinsert, if_neg hother]
  exact hk

/-- What a call of the store does to the rows. -/
structure StoreStep (db db' : ToolDb) : Prop where
  checked : Checked db'
  approvals : ∀ k, (db.approvals.find k).isSome = true → (db'.approvals.find k).isSome = true
  executions : ∀ k, (db.executions.find k).isSome = true → (db'.executions.find k).isSome = true

theorem StoreStep.of_written (hchecked : Checked db)
    (h : Written C db source db' observed) : StoreStep db db' where
  checked := h.checked hchecked
  approvals k hk := by
    obtain ⟨row, hrow⟩ := Option.isSome_iff_exists.mp hk
    obtain ⟨row', hrow', _⟩ := (h.keeps hchecked).approvals k row hrow
    simp [hrow']
  executions k hk := (h.keeps hchecked).executionFound hk

theorem StoreStep.trans (h : StoreStep db mid) (h' : StoreStep mid db') : StoreStep db db' :=
  ⟨h'.checked, fun k hk => h'.approvals k (h.approvals k hk),
    fun k hk => h'.executions k (h.executions k hk)⟩

theorem reopen_spec (hchecked : Checked db)
    (h : (ToolCall.reopen epochMs preparedMs).commit C db = .ok (db', observed)) :
    StoreStep db db' ∧ NoNew db db' := by
  obtain ⟨mid, hfirst, hsecond, _⟩ := written_of_commit h
  have hmid := StoreStep.of_written hchecked hfirst
  rw [ToolCall.commit, replyUnit_eq_ok] at h
  obtain ⟨h, _⟩ := h
  simp only [bind_ok_iff, ok.injEq] at h
  obtain ⟨_, _, recovered, hrecover, rfl⟩ := h
  obtain ⟨_, _, _, _, rfl⟩ := recoverOn_eq_ok.mp hrecover
  exact ⟨hmid.trans (.of_written hmid.checked hsecond),
    .of_eq (reopenPrepared_approvals _ preparedMs)⟩

end Abbey.Authority
