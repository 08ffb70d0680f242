import Abbey.Authority.Approvals
import Mathlib.Data.List.Induction

/-!
# Call identifiers are single use

`V3RuntimeAuthority.Sound` holds after every durable step of every run of
plain commands: no call has two effects, and the audit named each one before
it happened.  A read-only call is held for used and has no approval; the
call of an invalidation has an approval and an execution, which refuse it for
good.

The rules below ask for what a restart does not recover: an identifier that
the audit does not replace as a secret, and a read-only call whose identifier
is `Known`.
-/

namespace Abbey.Authority

open Abbey.Lib Abbey.Run Abbey.Tool Abbey.Daemon List

/-- What the log says about every effect. -/
def Preceded (log : List Entry) : Prop :=
  ∀ before effect after, log = before ++ .effect effect :: after →
    effect.callId ∈ recovered before

namespace V3RuntimeAuthority

structure Sound (s : V3RuntimeAuthority) : Prop where
  once : ((effects s.log).map Effect.callId).Nodup
  preceded : Preceded s.log
  executed : ∀ k, .executed k ∈ effects s.log → k ∈ s.used ∧ s.db.approvals.find k = none
  invalidated : ∀ k record, .invalidated k record ∈ effects s.log →
    (s.db.approvals.find k).isSome = true ∧ (s.db.executions.find k).isSome = true
  checked : Checked s.db

end V3RuntimeAuthority

open V3RuntimeAuthority

section Log

variable {log rest : List Entry} {event : AuditEvent} {effect : Effect} {k : String}

theorem recovered_append : recovered (log ++ rest) = recovered log ++ recovered rest := by
  simp [recovered]

@[simp] theorem effects_audit : effects (log ++ [.audit event]) = effects log := by
  simp [effects, Entry.effected]

@[simp] theorem effects_effect : effects (log ++ [.effect effect]) = effects log ++ [effect] := by
  simp [effects, Entry.effected]

theorem mem_recovered_audit (h : event.usedCall = some k) :
    k ∈ recovered (log ++ [.audit event]) := by
  rw [recovered_append]
  refine mem_append_right _ ?_
  simp [recovered, Entry.audited, h]

theorem Preceded.audit (h : Preceded log) : Preceded (log ++ [.audit event]) := by
  intro before e after hsplit
  induction after using reverseRecOn with
  | nil =>
    obtain ⟨_, hlast⟩ := append_inj' hsplit rfl
    cases hlast
  | append_singleton after last _ =>
    rw [← cons_append, ← append_assoc] at hsplit
    obtain ⟨hlog, _⟩ := append_inj' hsplit rfl
    exact h before e after hlog

theorem Preceded.perform (h : Preceded log) (hk : effect.callId ∈ recovered log) :
    Preceded (log ++ [.effect effect]) := by
  intro before e after hsplit
  induction after using reverseRecOn with
  | nil =>
    obtain ⟨hlog, hlast⟩ := append_inj' hsplit rfl
    cases hlast
    rwa [← hlog]
  | append_singleton after last _ =>
    rw [← cons_append, ← append_assoc] at hsplit
    obtain ⟨hlog, _⟩ := append_inj' hsplit rfl
    exact h before e after hlog

/-- Every effect of the log is one that the audit recovers. -/
theorem Preceded.recovered (h : Preceded log) (hmem : effect ∈ effects log) :
    effect.callId ∈ recovered log := by
  obtain ⟨entry, hentry, heffect⟩ := mem_filterMap.mp hmem
  cases entry with
  | audit event => cases heffect
  | effect e =>
    cases heffect
    obtain ⟨before, after, rfl⟩ := append_of_mem hentry
    rw [recovered_append]
    exact mem_append_left _ (h before effect after rfl)

end Log

/-- The call has had no effect yet. -/
def Unused (s : V3RuntimeAuthority) (k : String) : Prop :=
  ∀ effect ∈ effects s.log, effect.callId ≠ k

section Steps

variable {C : Capability} {s : V3RuntimeAuthority} {db : ToolDb} {k : String}

/-- A call of the store that gives no approval to an executed call. -/
theorem V3RuntimeAuthority.Sound.store (h : s.Sound) (hstep : StoreStep s.db db)
    (hnew : ∀ k, .executed k ∈ effects s.log → s.db.approvals.find k = none →
      db.approvals.find k = none) : Sound { s with db } where
  once := h.once
  preceded := h.preceded
  executed k hk := ⟨(h.executed k hk).1, hnew k hk (h.executed k hk).2⟩
  invalidated k record hk := by
    obtain ⟨happroval, hexecution⟩ := h.invalidated k record hk
    exact ⟨hstep.approvals k happroval, hstep.executions k hexecution⟩
  checked := hstep.checked

theorem V3RuntimeAuthority.Sound.noNew (h : s.Sound) (hstep : StoreStep s.db db)
    (hnew : NoNew s.db db) : Sound { s with db } :=
  h.store hstep (fun k _ => hnew k)

theorem V3RuntimeAuthority.Sound.audited (h : s.Sound) (event : AuditEvent) :
    Sound { s with log := s.log ++ [.audit event] } where
  once := by
    show ((effects (s.log ++ [.audit event])).map Effect.callId).Nodup
    rw [effects_audit]
    exact h.once
  preceded := h.preceded.audit
  executed k hk := by
    have hk' : .executed k ∈ effects (s.log ++ [.audit event]) := hk
    rw [effects_audit] at hk'
    exact h.executed k hk'
  invalidated k record hk := by
    have hk' : .invalidated k record ∈ effects (s.log ++ [.audit event]) := hk
    rw [effects_audit] at hk'
    exact h.invalidated k record hk'
  checked := h.checked

/-- A reserved call is new to the process, and has had no effect. -/
theorem V3RuntimeAuthority.Sound.unused (h : s.Sound) (hk : k ∉ s.used)
    (hnone : s.db.approvals.find k = none) : Unused s k := by
  intro effect heffect hcall
  cases effect with
  | executed id =>
    have hid : id = k := hcall
    subst hid
    exact hk (h.executed id heffect).1
  | invalidated id record =>
    have hid : id = k := hcall
    subst hid
    have hsome := (h.invalidated id record heffect).1
    simp [hnone] at hsome

theorem V3RuntimeAuthority.Sound.performed (h : s.Sound)
    (hunused : Unused s effect.callId) (hrecovered : effect.callId ∈ recovered s.log)
    (hexecuted : ∀ k, effect = .executed k → k ∈ s.used ∧ s.db.approvals.find k = none)
    (hinvalidated : ∀ k record, effect = .invalidated k record →
      (s.db.approvals.find k).isSome ∧ (s.db.executions.find k).isSome) :
    Sound { s with log := s.log ++ [.effect effect] } where
  once := by
    show ((effects (s.log ++ [.effect effect])).map Effect.callId).Nodup
    rw [effects_effect, map_append, map_singleton]
    refine nodup_append.mpr ⟨h.once, by simp, ?_⟩
    intro id hid other hother
    rw [mem_singleton.mp hother]
    obtain ⟨old, hold, rfl⟩ := mem_map.mp hid
    exact hunused old hold
  preceded := h.preceded.perform hrecovered
  executed k hk := by
    have hk' : .executed k ∈ effects (s.log ++ [.effect effect]) := hk
    rw [effects_effect, mem_append] at hk'
    rcases hk' with hold | hnew
    · exact h.executed k hold
    · exact hexecuted k (mem_singleton.mp hnew).symm
  invalidated k record hk := by
    have hk' : .invalidated k record ∈ effects (s.log ++ [.effect effect]) := hk
    rw [effects_effect, mem_append] at hk'
    rcases hk' with hold | hnew
    · exact h.invalidated k record hold
    · exact hinvalidated k record (mem_singleton.mp hnew).symm
  checked := h.checked

/-- The identifiers in use may change, except for those of executed calls. -/
theorem V3RuntimeAuthority.Sound.uses (h : s.Sound) (used : List String)
    (hused : ∀ k, .executed k ∈ effects s.log → k ∈ s.used → k ∈ used) :
    Sound { s with used } :=
  { h with executed := fun k hk => ⟨hused k hk (h.executed k hk).1, (h.executed k hk).2⟩ }

theorem V3RuntimeAuthority.Sound.restart (h : s.Sound)
    (hrestart : Authority.restart C reopened s = some s') : s'.Sound := by
  have hrecovered : ∀ {t : V3RuntimeAuthority}, t.Sound →
      Sound { t with used := recovered t.log } := fun ht =>
    ht.uses _ (fun k hk _ => ht.preceded.recovered hk)
  unfold Authority.restart at hrestart
  cases reopened with
  | none =>
    cases hrestart
    exact hrecovered h
  | some readings =>
    obtain ⟨epochMs, preparedMs⟩ := readings
    simp only [Option.elim_some, Option.map_map, Option.map_eq_some_iff] at hrestart
    obtain ⟨result, hcommit, rfl⟩ := hrestart
    obtain ⟨db, observed⟩ := result
    have hok : (ToolCall.reopen epochMs preparedMs).commit C s.db = .ok (db, observed) := by
      cases hresult : (ToolCall.reopen epochMs preparedMs).commit C s.db with
      | error e =>
        rw [hresult] at hcommit
        cases hcommit
      | ok pair =>
        rw [hresult] at hcommit
        cases hcommit
        rfl
    obtain ⟨hstep, hnew⟩ := reopen_spec h.checked hok
    exact hrecovered (h.noNew hstep hnew)

end Steps

/-! ## Commands -/

section Commands

variable {P : V3RuntimeAuthority → Prop} {k : String}
variable {fails : Bool} {env : Env} {host : Host} {now : Nat} {callDigest inputDigest : String}
  {α : Type} {call : V3ToolCall} {metadata : Value}
variable {f : ToolDb → Except StoreError (ToolDb × α)}

variable (hP : ∀ s, P s → s.Sound) {action outcome : String}

include hP

theorem upholds_storeCallOr {failure : StoreError → HandlerFailure}
    {Q : α → V3RuntimeAuthority → Prop}
    (hf : ∀ s db a, P s → f s.db = .ok (db, a) → Sound { s with db } ∧ Q a { s with db }) :
    Upholds Sound P (storeCallOr failure fails f) Q := by
  refine upholds_commit hP (fun s t a hs ht => ?_)
  cases fails with
  | true => cases ht
  | false =>
    simp only [Bool.false_eq_true, if_false] at ht
    cases hresult : f s.db with
    | error e =>
      rw [hresult] at ht
      cases ht
    | ok pair =>
      obtain ⟨db, b⟩ := pair
      rw [hresult] at ht
      cases ht
      exact hf s db a hs hresult

theorem upholds_storeCall {Q : Except StoreError α → V3RuntimeAuthority → Prop}
    (hok : ∀ s db a, P s → f s.db = .ok (db, a) → Sound { s with db } ∧ Q (.ok a) { s with db })
    (herror : ∀ s e, P s → Q (.error e) s) : Upholds Sound P (storeCall fails f) Q := by
  refine upholds_commit hP (fun s t a hs ht => ?_)
  cases fails with
  | true =>
    cases ht
    exact ⟨hP s hs, herror s _ hs⟩
  | false =>
    simp only [Bool.false_eq_true, if_false] at ht
    cases hresult : f s.db with
    | error e =>
      rw [hresult] at ht
      cases ht
      exact ⟨hP s hs, herror s e hs⟩
    | ok pair =>
      obtain ⟨db, b⟩ := pair
      rw [hresult] at ht
      cases ht
      exact hok s db b hs hresult

theorem upholds_recordAudit {Q : Bool → V3RuntimeAuthority → Prop}
    (hwritten : ∀ s event, P s → newAuditEvent action outcome metadata = .ok event → Q true { s with log := s.log ++ [.audit event] })
    (hfailed : ∀ s, P s → Q false s) :
    Upholds Sound P (recordAudit fails action outcome metadata) Q := by
  refine upholds_commit hP (fun s t written hs ht => ?_)
  cases hevent : newAuditEvent action outcome metadata with
  | error e =>
    rw [hevent] at ht
    cases ht
    exact ⟨hP s hs, hfailed s hs⟩
  | ok event =>
    rw [hevent] at ht
    cases fails with
    | true =>
      cases ht
      exact ⟨hP s hs, hfailed s hs⟩
    | false =>
      cases ht
      exact ⟨(hP s hs).audited event, hwritten s event hs hevent⟩

theorem upholds_succeedOr {failure : HandlerFailure} :
    Upholds Sound P (succeedOr failure ok) (fun _ s => P s ∧ ok) :=
  upholds_lift hP (fun _ _ hs hok => ⟨hs, ensure_eq_ok.mp hok⟩)

theorem upholds_required : Upholds Sound P (Durable.lift r : Command α) (fun _ => P) :=
  upholds_lift hP (fun _ _ hs _ => hs)

omit hP

/-- The process holds the call for used, or no approval knows it. -/
def Known (k : String) (s : V3RuntimeAuthority) : Prop :=
  k ∈ s.used ∨ s.db.approvals.find k = none

/-- A call that has been reserved for a use that is still to come. -/
structure Reserved (k : String) (s : V3RuntimeAuthority) : Prop where
  sound : s.Sound
  unused : Unused s k
  used : k ∈ s.used
  none : s.db.approvals.find k = none

theorem upholds_reserve :
    Upholds Sound (fun s => s.Sound ∧ Known k s) (reserveToolCall k) (fun _ => Reserved k) := by
  refine upholds_commit (fun s hs => hs.1) (fun s t _ hs ht => ?_)
  split_ifs at ht with hk
  cases ht
  have hnone : s.db.approvals.find k = none := hs.2.resolve_left hk
  have hsound : Sound { s with used := s.used ++ [k] } :=
    hs.1.uses _ (fun id _ hid => mem_append_left _ hid)
  exact ⟨hsound, hsound, hs.1.unused hk hnone,
    mem_append_right _ (mem_singleton_self k), hnone⟩

theorem upholds_forget {Q : V3RuntimeAuthority → Prop} (hQ : ∀ s, s.Sound → Q s) :
    Upholds Sound (Reserved k) (forgetToolCall k) (fun _ => Q) := by
  refine upholds_commit (fun s hs => hs.sound) (fun s t _ hs ht => ?_)
  cases ht
  have hsound : Sound { s with used := s.used.filter (fun id => id ≠ k) } := by
    refine hs.sound.uses _ (fun id hid hmem => ?_)
    have hne : id ≠ k := hs.unused _ hid
    exact mem_filter.mpr ⟨hmem, by simpa using hne⟩
  exact ⟨hsound, hQ _ hsound⟩

theorem keeps_recordAudit :
    Upholds Sound Sound (recordAudit fails action outcome metadata) (fun _ => Sound) :=
  upholds_recordAudit (fun _ hs => hs) (fun _ event hs _ => hs.audited event) (fun _ hs => hs)

theorem upholds_endWith {output : Option (String × Nat)} :
    Upholds Sound Sound (endWith env outcome call inputDigest output answer) (fun _ => Sound) := by
  refine keeps_recordAudit.bind (fun audited => ?_)
  refine (upholds_succeedOr (fun _ hs => hs)).bind (fun _ => ?_)
  exact upholds_lift (fun _ hs => hs.1) (fun _ _ hs _ => hs.1)

theorem upholds_finishReadOnly :
    Upholds Sound Sound (finishReadOnly host env call inputDigest) (fun _ => Sound) := by
  unfold finishReadOnly
  cases env.output with
  | none => exact upholds_endWith
  | some output =>
    simp only
    by_cases hlate : env.late
    · rw [if_pos hlate]
      exact upholds_endWith
    · rw [if_neg hlate]
      cases output.payload with
      | none => exact upholds_endWith
      | some payload =>
        simp only
        split
        · exact upholds_endWith
        · exact upholds_endWith

/-- A read-only tool, under an identifier that is used or without an
approval. -/
theorem upholds_invokeReadOnly {decision : PolicyDecision}
    (hplain : looksSecret call.callId = false) :
    Upholds Sound (fun s => s.Sound ∧ Known call.callId s)
      (invokeReadOnly host env call inputDigest decision) (fun _ => Sound) := by
  refine upholds_reserve.bind (fun _ => ?_)
  refine (upholds_succeedOr (fun _ hs => hs.sound)).bind (fun _ => ?_)
  have haudit : Upholds Sound (fun s => Reserved call.callId s ∧ (decision = .allow : Bool))
      (recordToolAudit env.authorizationFails toolAuthorization (host.asStr decision) call.callId
        call.toolId inputDigest none)
      (fun audited s => Reserved call.callId s ∧
        (audited = true → call.callId ∈ recovered s.log)) := by
    refine upholds_recordAudit (fun _ hs => hs.1.sound) (fun s event hs hevent => ?_)
      (fun s hs => ⟨hs.1, nofun⟩)
    refine ⟨⟨hs.1.sound.audited event, fun e he => ?_, hs.1.used, hs.1.none⟩, fun _ => ?_⟩
    · have he' : e ∈ effects (s.log ++ [.audit event]) := he
      rw [effects_audit] at he'
      exact hs.1.unused e he'
    · exact mem_recovered_audit (usedCall_newAuditEvent hevent hplain)
  refine haudit.bind (fun audited => ?_)
  cases audited with
  | true =>
    refine Upholds.bind (Q := fun _ => Sound) ?_ (fun _ => upholds_finishReadOnly)
    refine upholds_commit (fun _ hs => hs.1.sound) (fun s t _ hs ht => ?_)
    cases ht
    have hsound : Sound { s with log := s.log ++ [.effect (.executed call.callId)] } := by
      refine hs.1.sound.performed hs.1.unused (hs.2 rfl) (fun id hid => ?_)
        nofun
      cases hid
      exact ⟨hs.1.used, hs.1.none⟩
    exact ⟨hsound, hsound⟩
  | false =>
    refine Upholds.bind (Q := fun _ => Sound) ?_ (fun _ => ?_)
    · exact (upholds_forget (fun _ hs => hs)).pre (fun _ hs => hs.1)
    · exact upholds_lift (fun _ hs => hs) (fun _ _ hs _ => hs)

theorem upholds_requestApproval (C : Capability) :
    Upholds Sound (fun s => s.Sound ∧ Known call.callId s)
      (requestApproval env call callDigest now) (fun _ => Sound) := by
  refine upholds_reserve.bind (fun _ => ?_)
  refine (upholds_succeedOr (fun _ hs => hs.sound)).bind (fun _ => ?_)
  have hcreate : Upholds Sound
      (fun s => Reserved call.callId s ∧ (now + maxToolApprovalTtlMs < 2 ^ 64 : Bool))
      (storeCall env.writeFails (fun db => createToolApproval db
        ⟨call.callId, call.toolId, callDigest, now, now + maxToolApprovalTtlMs⟩))
      (fun result s => (∃ e, result = .error e ∧ Reserved call.callId s) ∨
        (∃ record, result = .ok record) ∧ s.Sound) := by
    refine upholds_storeCall (fun _ hs => hs.1.sound) (fun s db record hs hok => ?_)
      (fun s e hs => .inl ⟨e, rfl, hs.1⟩)
    have hstep := StoreStep.of_written (C := C) hs.1.sound.checked
      (createToolApproval_writes hok)
    have hsound : Sound { s with db } := by
      refine hs.1.sound.store hstep (fun id hid hnone => create_spec hok hnone ?_)
      exact hs.1.unused _ hid
    exact ⟨hsound, .inr ⟨⟨record, rfl⟩, hsound⟩⟩
  refine hcreate.bind (fun result => ?_)
  have hforget : Upholds Sound (Reserved call.callId)
      (forgetToolCall call.callId >>= fun _ => .lift (.error runtimeFailure) : Command V3Event)
      (fun _ => Sound) :=
    (upholds_forget (fun _ hs => hs)).bind
      (fun _ => upholds_lift (fun _ hs => hs) (fun _ _ hs _ => hs))
  have herror : ∀ e s, ((∃ e', Except.error e = (.error e' : Except StoreError ToolApprovalRecord) ∧
      Reserved call.callId s) ∨
      (∃ record, (Except.error e : Except StoreError ToolApprovalRecord) = .ok record) ∧
        s.Sound) → Reserved call.callId s := by
    rintro e s (⟨_, _, hs⟩ | ⟨⟨_, heq⟩, _⟩)
    · exact hs
    · cases heq
  cases result with
  | ok record =>
    refine upholds_pure (fun s hs => ?_) (fun s hs => ?_)
    · rcases hs with ⟨_, heq, _⟩ | ⟨_, hs⟩
      · cases heq
      · exact hs
    · rcases hs with ⟨_, heq, _⟩ | ⟨_, hs⟩
      · cases heq
      · exact hs
  | error e =>
    cases e with
    | toolApprovalConflict =>
      exact upholds_lift (fun s hs => (herror _ s hs).sound) (fun s _ hs _ => (herror _ s hs).sound)
    | _ => exact hforget.pre (herror _)

/-- A call whose approval has just been consumed. -/
structure Prepared (k : String) (s : V3RuntimeAuthority) : Prop where
  sound : s.Sound
  unused : Unused s k
  approval : (s.db.approvals.find k).isSome = true
  execution : (s.db.executions.find k).isSome = true

/-- A preparation is the first one of its call, and the call is not that of
a read-only tool. -/
theorem prepared_of_prepare (C : Capability) {s : V3RuntimeAuthority} {db : ToolDb} (h : s.Sound)
    (hok : prepareToolExecution s.db k callDigest executionId now = .ok (db, preparation)) :
    Sound { s with db } ∧ ∀ record, preparation = .prepared record → Prepared k { s with db } := by
  obtain ⟨hnew, hprepared⟩ := prepare_spec hok
  have hstep := StoreStep.of_written (C := C) h.checked (prepareToolExecution_writes hok)
  have hsound := h.noNew hstep hnew
  refine ⟨hsound, fun record hrecord => ?_⟩
  obtain ⟨happroval, hexecution, hafter⟩ := hprepared record hrecord
  refine ⟨hsound, fun effect heffect hcall => ?_, hstep.approvals k happroval, hafter⟩
  cases effect with
  | executed id =>
    have hid : id = k := hcall
    subst hid
    have hnone := (h.executed id heffect).2
    simp [hnone] at happroval
  | invalidated id record =>
    have hid : id = k := hcall
    subst hid
    have hsome := (h.invalidated id record heffect).2
    simp [hexecution] at hsome

theorem upholds_runApproved (C : Capability) {approval : ToolApprovalRecord}
    (hplain : looksSecret call.callId = false) :
    Upholds Sound Sound (runApproved host env call callDigest inputDigest approval now)
      (fun _ => Sound) := by
  refine (upholds_succeedOr (fun _ hs => hs)).bind (fun _ => ?_)
  refine (upholds_succeedOr (fun _ hs => hs.1)).bind (fun _ => ?_)
  have hprepare : Upholds Sound (fun s => (s.Sound ∧ (approval.toolId = call.toolId &&
        approval.callDigest = callDigest : Bool)) ∧ (approval.state = .approved : Bool))
      (storeCallOr mapExecutionStoreError env.prepareFails (fun db =>
        prepareToolExecution db call.callId callDigest env.executionId now))
      (fun preparation s => s.Sound ∧
        ∀ record, preparation = .prepared record → Prepared call.callId s) :=
    upholds_storeCallOr (fun _ hs => hs.1.1) (fun s db preparation hs hok =>
      ⟨(prepared_of_prepare C hs.1.1 hok).1, prepared_of_prepare C hs.1.1 hok⟩)
  refine hprepare.bind (fun preparation => ?_)
  cases preparation with
  | expired record => exact upholds_lift (fun _ hs => hs.1) (fun _ _ hs _ => hs.1)
  | prepared record =>
    have haudit : Upholds Sound (Prepared call.callId)
        (recordMutatingToolAudit env.authorizationFails toolAuthorization "approved" call.callId
          call.toolId inputDigest none)
        (fun audited s => Prepared call.callId s ∧
          (audited = true → call.callId ∈ recovered s.log)) := by
      refine upholds_recordAudit (fun _ hs => hs.sound) (fun s event hs hevent => ?_)
        (fun s hs => ⟨hs, nofun⟩)
      refine ⟨⟨hs.sound.audited event, fun e he => ?_, hs.approval, hs.execution⟩, fun _ => ?_⟩
      · have he' : e ∈ effects (s.log ++ [.audit event]) := he
        rw [effects_audit] at he'
        exact hs.unused e he'
      · exact mem_recovered_audit (usedCall_newAuditEvent hevent hplain)
    refine Upholds.bind (haudit.pre (fun s hs => hs.2 record rfl)) (fun audited => ?_)
    refine (upholds_succeedOr (fun _ hs => hs.1.sound)).bind (fun _ => ?_)
    refine (upholds_required (fun _ hs => hs.1.1.sound)).bind (fun recordId => ?_)
    refine Upholds.bind (Q := fun _ => Sound) ?_ (fun _ => ?_)
    · refine upholds_commit (fun _ hs => hs.1.1.sound) (fun s t _ hs ht => ?_)
      cases ht
      have hsound :
          Sound { s with log := s.log ++ [.effect (.invalidated call.callId recordId)] } := by
        refine hs.1.1.sound.performed hs.1.1.unused (hs.1.2 hs.2) nofun
          (fun id _ hid => ?_)
        cases hid
        exact ⟨hs.1.1.approval, hs.1.1.execution⟩
      exact ⟨hsound, hsound⟩
    · refine (upholds_required (fun _ hs => hs)).bind (fun _ => ?_)
      refine (upholds_required (fun _ hs => hs)).bind (fun later => ?_)
      refine Upholds.bind (Q := fun _ => Sound) ?_ (fun _ => ?_)
      · refine upholds_storeCallOr (fun _ hs => hs) (fun s db record hs hok => ?_)
        have hstep := StoreStep.of_written (C := C) hs.checked (completeToolExecution_writes hok)
        exact ⟨hs.noNew hstep (noNew_complete hok), hs.noNew hstep (noNew_complete hok)⟩
      · refine keeps_recordAudit.bind (fun audited => ?_)
        refine (upholds_succeedOr (fun _ hs => hs)).bind (fun _ => ?_)
        exact upholds_pure (fun _ hs => hs.1) (fun _ hs => hs.1)

theorem upholds_invokeApproved (C : Capability) (hplain : looksSecret call.callId = false) :
    Upholds Sound Sound (invokeApprovedMemoryEffect host env call inputDigest)
      (fun _ => Sound) := by
  refine (upholds_required (fun _ hs => hs)).bind (fun now => ?_)
  have hread : Upholds Sound Sound
      (storeCallOr mapApprovalStoreError env.readFails (fun db => toolApproval db call.callId now))
      (fun approval s => s.Sound ∧ (approval = none → s.db.approvals.find call.callId = none)) := by
    refine upholds_storeCallOr (fun _ hs => hs) (fun s db approval hs hok => ?_)
    have hstep := StoreStep.of_written (C := C) hs.checked (toolApproval_writes hok)
    have hsound := hs.noNew hstep (noNew_toolApproval hok)
    refine ⟨hsound, hsound, fun hnone => ?_⟩
    subst hnone
    exact toolApproval_none hok
  refine hread.bind (fun approval => ?_)
  cases approval with
  | none => exact (upholds_requestApproval C).pre (fun s hs => ⟨hs.1, .inr (hs.2 rfl)⟩)
  | some approval => exact (upholds_runApproved C hplain).pre (fun s hs => hs.1)

end Commands

end Abbey.Authority
