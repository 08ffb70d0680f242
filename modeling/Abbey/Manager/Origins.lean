import Abbey.Manager.AtMostOnce

/-!
# Where a run comes from

A row of the store was created by the admission call of some submission,
and that submission was called: `Attributed` ties every row to a call in the
history.  With digests that do not collide on the requests called, the
conversation of a row is the conversation of the request that its digest
names (`conversation_of_digest`).
-/

namespace Abbey.Manager

open Abbey.Lib Abbey.Run

variable {D : Digests} {m m' : Machine}
variable {effect : Effect} {env : Env}
variable {l : Label} {row : RunRecord}

/-! ## Admission calls -/

/-- An effect that may create a run. -/
def Effect.admits : Effect → Bool
  | .write (.createOrGetRun _ _ _) | .write (.admitTurn _ _ _ _) => true
  | _ => false

@[simp] theorem admits_transition (env : Env) (id : RunId) (expected : RunState) (move : Move) :
    (env.effect (env.transition id expected move)).admits = false := by
  unfold Env.effect Env.transition
  split_ifs <;> rfl

@[simp] theorem admits_finalizeTurn (env : Env) (id : RunId) (state : RunState) :
    (env.effect (.finalizeTurn id state)).admits = false := by
  unfold Env.effect
  split_ifs <;> rfl

theorem interruptAct_admits
    (h : interruptAct D m env pc = some (effect, next)) : effect.admits = false := by
  unfold interruptAct at h
  repeat' split at h
  all_goals cases h
  all_goals first
    | rfl
    | exact admits_transition _ _ _ _

theorem workerAct_admits (h : workerAct D m env pc = some (effect, pc')) :
    effect.admits = false := by
  unfold workerAct at h
  repeat' split at h
  all_goals cases h
  all_goals first
    | rfl
    | exact admits_transition _ _ _ _
    | exact admits_finalizeTurn _ _ _
    | exact interruptAct_admits ‹_›

/-- The two places from which a client creates a run. -/
theorem clientAct_admits
    (h : clientAct D m c env pc = some (effect, next)) (hadmits : effect.admits) :
    (∃ request, pc = .submitCreate request ∧
      effect = .write (.createOrGetRun (newRunOf D request) env.runId env.now)) ∨
    ∃ request, pc = .turnAdmit request ∧
      effect = .write (.admitTurn request env.clockMs.toNat env.runId env.messageId) := by
  unfold clientAct at h
  repeat' split at h
  all_goals cases h
  all_goals first
    | exact .inl ⟨_, rfl, rfl⟩
    | exact .inr ⟨_, rfl, rfl⟩
    | cases hadmits
    | (rw [admits_transition] at hadmits; cases hadmits)
    | (rw [interruptAct_admits ‹_›] at hadmits; cases hadmits)

/-! ## Origins -/

/-- Some client called the operation. -/
def Called (m : Machine) (op : Operation) : Prop := ∃ c, .called c op ∈ m.history

theorem Called.step (h : Called m op) (hstep : Manager.step D m l = some m') : Called m' op := by
  obtain ⟨c, hmem⟩ := h
  obtain ⟨recent, hrecent⟩ := history_of_step hstep
  refine ⟨c, ?_⟩
  rw [hrecent]
  exact List.mem_append_right recent hmem

/-- The submission that a row was created for. -/
def Origin (D : Digests) (m : Machine) (row : RunRecord) : Prop :=
  (∃ request, Called m (.submit request) ∧
    row.requestDigest = D.canonicalRequestDigest request ∧
    row.conversationId = request.conversationId) ∨
  ∃ request, Called m (.submitV4 request) ∧ row.requestDigest = D.submitDigest request

theorem Origin.step (h : Origin D m old) (hlater : old.Later row)
    (hstep : Manager.step D m l = some m') : Origin D m' row := by
  rcases h with ⟨request, hcalled, hdigest, hconversation⟩ | ⟨request, hcalled, hdigest⟩
  · exact .inl ⟨request, hcalled.step hstep, hlater.requestDigest.trans hdigest,
      hlater.conversationId.trans hconversation⟩
  · exact .inr ⟨request, hcalled.step hstep, hlater.requestDigest.trans hdigest⟩

/-- Every call in progress and every row goes back to a call. -/
structure Attributed (D : Digests) (m : Machine) : Prop where
  calls : ∀ c call, m.clients c = some call → Called m call.op
  rows : ∀ id row, m.store.runs.find id = some row → Origin D m row

/-- The rows after a step that has a call of the store. -/
theorem origin_of_call {call : StoreCall} {id : RunId} (h : Attributed D m)
    (hstep : step D m l = some m')
    (hrow : (call.apply D.submitDigest m.store).runs.find id = some row)
    (hcreate : ∀ newRun now, call = .createOrGetRun newRun id now → ∃ request, newRun =
      newRunOf D request ∧ Called m' (.submit request))
    (hadmission : ∀ request nowMs messageId, call = .admitTurn request nowMs id messageId →
      Called m' (.submitV4 request)) :
    Origin D m' row := by
  rcases row_of_apply hrow with ⟨old, hold, hlater⟩ | ⟨newRun, now, hcall, rfl⟩ |
    ⟨request, nowMs, messageId, created, hcall, rfl⟩
  · exact (h.rows id old hold).step hlater hstep
  · obtain ⟨request, rfl, hcalled⟩ := hcreate newRun now hcall
    exact .inl ⟨request, hcalled, rfl, rfl⟩
  · exact .inr ⟨request, hadmission request nowMs messageId hcall, rfl⟩

/-- A step that creates no run keeps the origins. -/
theorem Attributed.rows_of_not_admits (h : Attributed D m) (hstep : step D m l = some m')
    (hcall : ∀ call, storeCall D m l = some call → (Effect.write call).admits = false) :
    ∀ id row, m'.store.runs.find id = some row → Origin D m' row := by
  intro id row hrow
  rw [step_store hstep] at hrow
  cases hstore : storeCall D m l with
  | none =>
    rw [hstore] at hrow
    exact (h.rows id row hrow).step (.refl row) hstep
  | some call =>
    rw [hstore] at hrow
    have hadmits := hcall call hstore
    refine origin_of_call h hstep hrow ?_ ?_
    · rintro newRun now rfl
      cases hadmits
    · rintro request nowMs messageId rfl
      cases hadmits

theorem Attributed.step (hsound : Sound D m) (h : Attributed D m)
    (hstep : Manager.step D m l = some m') : Attributed D m' := by
  have hcalls : ∀ c call, m.clients c = some call → Called m' call.op := by
    intro c call hcall
    exact (h.calls c call hcall).step hstep
  refine ⟨?_, ?_⟩
  · -- a new call is in the history, and the others keep their operation
    have htold : Told (fun m call => Called m call.op) (fun _ _ _ => True) m :=
      ⟨h.calls, fun _ _ _ _ => trivial⟩
    refine (htold.step hstep ?_ ?_ ?_ ?_).clients
    · rintro c op rfl
      obtain ⟨_, rfl⟩ := step_call hstep
      exact ⟨c, List.mem_cons_self⟩
    · rintro c env call effect next rfl hcall _
      cases next with
      | goto pc => exact hcalls c call hcall
      | done answer => trivial
    · intro c call hcall _
      exact hcalls c call hcall
    · intro _ _ _
      trivial
  · by_cases hclient : ∃ c env, l = .client c env
    · obtain ⟨c, env, rfl⟩ := hclient
      obtain ⟨call, effect, next, hcall, hact, _⟩ := step_client hstep
      have heffect : storeCall D m (.client c env) = effect.call := storeCall_client hcall hact
      by_cases hadmits : effect.admits
      · intro id row hrow
        have hpc := hsound.told.clients c call hcall
        have hcalled := hcalls c call hcall
        rw [step_store hstep, heffect] at hrow
        rcases clientAct_admits hact hadmits with ⟨request, hplace, rfl⟩ | ⟨request, hplace, rfl⟩
        · simp only [hplace, PcSound] at hpc
          rw [hpc] at hcalled
          refine origin_of_call h hstep hrow ?_ ?_
          · intro newRun now heq
            cases heq
            exact ⟨request, rfl, hcalled⟩
          · intro _ _ _ heq
            cases heq
        · simp only [hplace, PcSound] at hpc
          rw [hpc.1] at hcalled
          refine origin_of_call h hstep hrow ?_ ?_
          · intro _ _ heq
            cases heq
          · intro _ _ _ heq
            cases heq
            exact hcalled
      · refine h.rows_of_not_admits hstep ?_
        intro storeCall hstore
        rw [heffect] at hstore
        cases effect <;> cases hstore
        simpa using hadmits
    · refine h.rows_of_not_admits hstep ?_
      intro call hstore
      cases l with
      | client c env => exact absurd ⟨c, env, rfl⟩ hclient
      | worker env =>
        obtain ⟨effect, pc, hact, _⟩ := step_worker hstep
        have hadmits := workerAct_admits hact
        simp only [storeCall, hact] at hstore
        cases effect <;> cases hstore
        exact hadmits
      | content payload nowMs messageId =>
        obtain ⟨item, token, hworker, _⟩ := step_content hstep
        simp only [storeCall, hworker] at hstore
        cases hstore
        rfl
      | createConversation id title nowMs | deleteConversation id nowMs
      | crash now marker queueCapacity =>
        cases hstore
        rfl
      | call c op | attempt attempt | workerPanic => cases hstore

theorem Attributed.reachable {P : Machine → Label → Prop}
    (h : Steps (Manager.step D) P (.initial queueCapacity) m) : Attributed D m := by
  have hboth : Sound D m ∧ Attributed D m := by
    refine h.invariant (I := fun m => Sound D m ∧ Attributed D m)
      (fun _ _ _ hinv _ hstep => ⟨hinv.1.step hstep, hinv.2.step hinv.1 hstep⟩) ?_
    exact ⟨.reachable (.refl (P := P) _),
      fun _ _ hcall => (by cases hcall), fun _ _ hrow => (by cases hrow)⟩
  exact hboth.2

/-! ## Collisions -/

/-- The digests of the requests called do not collide. -/
structure CollisionFree (D : Digests) (m : Machine) : Prop where
  requests : ∀ request other, Called m (.submit request) → Called m (.submit other) →
    D.canonicalRequestDigest request = D.canonicalRequestDigest other → request = other
  turns : ∀ request other, Called m (.submit request) → Called m (.submitV4 other) →
    D.canonicalRequestDigest request ≠ D.submitDigest other

theorem CollisionFree.before (h : CollisionFree D m') (hstep : step D m l = some m') :
    CollisionFree D m :=
  ⟨fun request other hrequest hother =>
      h.requests request other (hrequest.step hstep) (hother.step hstep),
    fun request other hrequest hother =>
      h.turns request other (hrequest.step hstep) (hother.step hstep)⟩

/-- A row with the digest of a request is in the conversation of the
request. -/
theorem conversation_of_digest {id : RunId} (h : Attributed D m)
    (hfree : CollisionFree D m) (hcalled : Called m (.submit request))
    (hrow : m.store.runs.find id = some row)
    (hdigest : row.requestDigest = D.canonicalRequestDigest request) :
    row.conversationId = request.conversationId := by
  rcases h.rows id row hrow with ⟨other, hother, hsame, hconversation⟩ | ⟨other, hother, hsame⟩
  · have heq := hfree.requests request other hcalled hother (hdigest.symm.trans hsame)
    rw [heq]
    exact hconversation
  · exact absurd (hdigest.symm.trans hsame) (hfree.turns request other hcalled hother)

/-! ## The rows of a machine -/

/-- In every machine, whatever clients, worker and crashes do, a row was
asked for by a call; its events are a walk from queued to its status without
a gap; and what is stored stays: later machines only append events, and a
row that is over never changes. -/
theorem stored_runs_are_asked_for
    (h : Steps (step D) anyStep (.initial queueCapacity) m) (h' : Steps (step D) anyStep m m') :
    (∀ id row, m.store.runs.find id = some row → Origin D m row) ∧ Ledger m.store ∧
      Extends m.store m'.store :=
  ⟨(Attributed.reachable h).rows, ledger_of_steps h .empty, extends_of_steps h'⟩

theorem stored_runs_are_asked_for_sample :
    ∃ row, sampleMachine.store.runs.find ⟨1⟩ = some row ∧ Origin sampleDigests sampleMachine row :=
  ⟨_, rfl, (stored_runs_are_asked_for sampleMachine_reached (.refl _)).1 ⟨1⟩ _ rfl⟩

end Abbey.Manager
