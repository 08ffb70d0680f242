import Abbey.Lib.History
import Abbey.Models.Lifecycle

/-!
# The ledger of model operations

What the store accepts, said once for each of its two writes, and what one
action of a task writes (`Wrote`).  From it: an operation is created once
under its identifier, its progress never decreases, and nothing is written
after its last state, whatever the tasks do (`Recorded`).
-/

namespace Abbey.Models

open Abbey.Lib Abbey.Run Abbey.Recovery Abbey.Daemon Abbey.Authority ModelOperationRecord

variable {env : Env} {kind : ModelOperationKind} {action : V3ModelAction}
variable {record : ModelOperationRecord} {state : ModelOperationState} {progress : Nat}
  {operations operations' : Operations} {registry : Registry} {operationId : String}

/-! ## What the store accepts -/

theorem create_of_ok {operation : NewModelOperation}
    (h : createModelOperation operations operation = .ok (operations', record)) :
    isIdentifier operation.operationId 128 ∧ record = queuedOperation operation ∧
      operations.insert? record = some operations' := by
  unfold createModelOperation validateId at h
  simp only [bind_ok_iff, ensure_eq_ok, required_eq_ok, Except.ok.injEq, Prod.mk.injEq] at h
  obtain ⟨_, hid, _, _, _, _, _, _, _, _, _, hinsert, rfl, rfl⟩ := h
  exact ⟨hid, rfl, hinsert⟩

theorem transition_of_ok {now : Nat}
    (h : transitionModelOperation operations operationId state progress now =
      .ok (operations', record)) : ∃ current, operations.find operationId = some current ∧
      permitted current.state state ∧ current.progressBasisPoints ≤ progress ∧
      current.updatedAtMs ≤ now ∧ now ≤ sqliteMax ∧ record = current.move state progress now ∧
      record.check ∧ Table.Changes operations operations' current record := by
  unfold transitionModelOperation validateId at h
  simp only [bind_ok_iff, ensure_eq_ok, required_eq_ok, Except.ok.injEq, Prod.mk.injEq,
    Bool.and_eq_true, decide_eq_true_eq] at h
  obtain ⟨_, _, _, _, updated, hms, current, hcurrent, _, ⟨_, hpermitted⟩, _,
    ⟨⟨hprogress, htime⟩, _⟩, operations', hupdate, rfl, rfl⟩ := h
  obtain ⟨hnow, rfl⟩ := operationMs_eq_ok.mp hms
  have hchange := Table.changes_of_update? hupdate hcurrent (by simpa using Table.pk_of_find hcurrent)
    (fun record hrecord => by simpa using hrecord)
  exact ⟨current, hcurrent, hpermitted, hprogress, htime, hnow, rfl, hchange.2, hchange.1⟩

theorem check_queued (operation : NewModelOperation) : (queuedOperation operation).check := by
  simp [check, queuedOperation]

theorem check_move (state : ModelOperationState) (progress now : Nat)
    (record : ModelOperationRecord) : (record.move state progress now).check =
      (progress ≤ 10000 && record.createdAtMs ≤ now : Bool) := rfl

/-- A transition that the state machine permits is refused only for its
progress or its time. -/
theorem transition_ok (hchecked : OperationsChecked operations) {now : Nat}
    {current : ModelOperationRecord} (hid : isIdentifier operationId 128)
    (hcurrent : operations.find operationId = some current)
    (hpermitted : permitted current.state state)
    (hprogress : current.progressBasisPoints ≤ progress) (hmost : progress ≤ 10000)
    (hdone : state = .succeeded → progress = 10000) (htime : current.updatedAtMs ≤ now)
    (hnow : now ≤ sqliteMax) :
    ∃ result, transitionModelOperation operations operationId state progress now = .ok result := by
  have hterminal : current.state.terminal = false := by
    cases hstate : current.state <;> simp_all [permitted, ModelOperationState.terminal]
  have hrow := hchecked current (Table.mem_rows_of_find hcurrent)
  simp only [check, Bool.and_eq_true, decide_eq_true_eq] at hrow
  have hupdate : ∃ operations', operations.update? (fun record => record.operationId = operationId)
      (move state progress now) (operationId_move state progress now)
      check = some operations' := by
    refine ⟨_, Table.update?_eq_some_iff.mpr ⟨fun record hrecord hkey => ?_, rfl⟩⟩
    have hsame : record = current := by
      have hfind := Table.mem_rows_iff_find.mp hrecord
      rw [show record.operationId = operationId from by simpa using hkey, hcurrent] at hfind
      exact (Option.some.inj hfind).symm
    subst hsame
    rw [check_move, Bool.and_eq_true, decide_eq_true_eq, decide_eq_true_eq]
    exact ⟨hmost, hrow.2.trans htime⟩
  obtain ⟨operations', hupdate⟩ := hupdate
  refine ⟨(operations', current.move state progress now), ?_⟩
  unfold transitionModelOperation validateId
  simp only [bind_ok_iff, ensure_eq_ok, required_eq_ok, operationMs_eq_ok, Bool.and_eq_true,
    Bool.or_eq_true, decide_eq_true_eq, Bool.not_eq_true']
  refine ⟨(), hid, (), hmost, now, ⟨hnow, rfl⟩, current, hcurrent, (), ⟨hterminal, hpermitted⟩,
    (), ⟨⟨hprogress, htime⟩, ?_⟩, operations', hupdate, rfl⟩
  by_cases hstate : state = .succeeded
  · exact .inr (hdone hstate)
  · exact .inl hstate

/-! ## What an action writes -/

/-- One action writes nothing, creates an operation, or moves an unfinished one. -/
inductive Wrote (s s' : Shared) : Prop where
  | nothing (operations : s'.operations = s.operations) (writes : s'.writes = s.writes)
  | created (record : ModelOperationRecord) (named : isIdentifier record.operationId 128 = true)
      (checked : record.check = true) (insert : s.operations.insert? record = some s'.operations)
      (writes : s'.writes = s.writes ++ [record])
  | moved (old new : ModelOperationRecord) (changes : Table.Changes s.operations s'.operations old new)
      (state : ModelOperationState) (progress now : Nat) (move : new = old.move state progress now)
      (permitted : permitted old.state state = true)
      (progressed : old.progressBasisPoints ≤ progress) (checked : new.check = true)
      (writes : s'.writes = s.writes ++ [new])

theorem storeCall_eq_ok {α : Type} {call : Except StoreError α} {result : α} :
    storeCall env call = .ok result ↔ env.stored ∧ call = .ok result := by
  unfold storeCall
  cases env.stored with
  | true => cases call <;> simp [mapErr]
  | false => simp [mapErr]

variable {s s' : Shared}

theorem createOperation_of_ok (h : createOperation env s action kind = .ok (s', record)) :
    ∃ now, isIdentifier action.operationId 128 ∧
      record = queuedOperation ⟨action.operationId, action.modelId, action.revision, kind, now⟩ ∧
      s.operations.insert? record = some s'.operations ∧
      s' = { s with operations := s'.operations, writes := s.writes ++ [record] } := by
  unfold createOperation at h
  simp only [bind_ok_iff, required_eq_ok, storeCall_eq_ok] at h
  obtain ⟨now, _, ⟨operations, created⟩, ⟨_, hcreate⟩, hok⟩ := h
  simp only [Except.ok.injEq, Prod.mk.injEq] at hok
  obtain ⟨rfl, rfl⟩ := hok
  obtain ⟨hid, hrecord, hinsert⟩ := create_of_ok hcreate
  exact ⟨now, hid, hrecord, hinsert, rfl⟩

theorem transition_inv (h : transition env s operationId state progress = .ok (s', record)) :
    ∃ current now, s.operations.find operationId = some current ∧ env.stored ∧
      env.clock = some now ∧ permitted current.state state ∧
      current.progressBasisPoints ≤ progress ∧ current.updatedAtMs ≤ now ∧ now ≤ sqliteMax ∧
      record = current.move state progress now ∧ record.check ∧
      Table.Changes s.operations s'.operations current record ∧
      s' = { s with operations := s'.operations, writes := s.writes ++ [record] } := by
  unfold transition at h
  simp only [bind_ok_iff, required_eq_ok, storeCall_eq_ok] at h
  obtain ⟨now, hclock, ⟨operations, moved⟩, ⟨hstored, hmove⟩, hok⟩ := h
  simp only [Except.ok.injEq, Prod.mk.injEq] at hok
  obtain ⟨rfl, rfl⟩ := hok
  obtain ⟨current, hcurrent, hpermitted, hprogress, htime, hnow, hrecord, hcheck, hchanges⟩ :=
    transition_of_ok hmove
  exact ⟨current, now, hcurrent, hstored, hclock, hpermitted, hprogress, htime, hnow, hrecord,
    hcheck, hchanges, rfl⟩

theorem wrote_of_create (h : createOperation env s action kind = .ok (s', record)) :
    Wrote s s' := by
  obtain ⟨now, hid, hrecord, hinsert, hs'⟩ := createOperation_of_ok h
  exact .created record (by rw [hrecord]; exact hid) (by rw [hrecord]; exact check_queued _)
    hinsert (by rw [hs'])

theorem wrote_of_transition
    (h : transition env s operationId state progress = .ok (s', record)) : Wrote s s' := by
  obtain ⟨current, now, _, _, _, hpermitted, hprogress, _, _, hrecord, hcheck, hchanges, hs'⟩ :=
    transition_inv h
  exact .moved current record hchanges state progress now hrecord hpermitted hprogress hcheck
    (by rw [hs'])

theorem Wrote.refl (s : Shared) : Wrote s s := .nothing rfl rfl

theorem wrote_startStep (env : Env) (s : Shared) (work : Work) (action : V3ModelAction)
    (point : StartPoint) : Wrote s (startStep env s work action point).shared := by
  cases point with
  | acquire =>
    simp only [startStep]
    split_ifs
    · exact .refl s
    · exact .nothing rfl rfl
  | create =>
    simp only [startStep]
    split
    · exact .refl s
    · exact wrote_of_create ‹_›
  | audit created | spawn created | auditFailed failed =>
    simp only [startStep]; split_ifs <;> exact .refl s
  | failCreated created | failSpawn created =>
    simp only [startStep]
    split
    · exact .refl s
    · exact wrote_of_transition ‹_›
  | release reply => exact .nothing rfl rfl

theorem wrote_unloadStep (env : Env) (s : Shared) (action : V3ModelAction)
    (point : UnloadPoint) : Wrote s (unloadStep env s action point).shared := by
  cases point with
  | acquire =>
    simp only [unloadStep]
    split_ifs
    · exact .refl s
    · exact .nothing rfl rfl
  | create =>
    simp only [unloadStep]
    split
    · exact .refl s
    · exact wrote_of_create ‹_›
  | audit created | auditTerminal terminal => simp only [unloadStep]; split_ifs <;> exact .refl s
  | run created | finish created removed =>
    simp only [unloadStep]
    split
    · exact .refl s
    · exact wrote_of_transition ‹_›
  | remove created => exact .nothing rfl rfl
  | release reply => exact .nothing rfl rfl

theorem wrote_workerStep (registry : Registry) (env : Env) (s : Shared) (work : Work)
    (action : V3ModelAction) (point : WorkerPoint) :
    Wrote s (workerStep registry env s work action point).shared := by
  cases point with
  | run | finish succeeded progress =>
    simp only [workerStep]
    split
    · exact .refl s
    · exact wrote_of_transition ‹_›
  | fetch index | check | load => simp only [workerStep]; split_ifs <;> exact .refl s
  | report index =>
    simp only [workerStep]
    split
    · exact .refl s
    · split
      · exact .refl s
      · exact wrote_of_transition ‹_›
  | insert => exact .nothing rfl rfl
  | release succeeded => exact .nothing rfl rfl
  | readProgress => simp only [workerStep]; split <;> exact .refl s
  | audit record => exact .refl s

theorem wrote_cancelStep (env : Env) (s : Shared) (action : V3Action) (point : CancelPoint) :
    Wrote s (cancelStep env s action point).shared := by
  cases point with
  | read => simp only [cancelStep]; split <;> exact .refl s
  | cancel progress =>
    simp only [cancelStep]
    split
    · exact .refl s
    · exact wrote_of_transition ‹_›
  | audit updated => exact .refl s

theorem wrote_of_step {s : Shared} {task : Task} {move : Move}
    (h : task.step registry env s = some move) : Wrote s move.shared := by
  cases task with
  | start work action point =>
    cases h
    exact wrote_startStep env s work action point
  | unload action point =>
    cases h
    exact wrote_unloadStep env s action point
  | worker work action point =>
    cases h
    exact wrote_workerStep registry env s work action point
  | cancel action point =>
    cases h
    exact wrote_cancelStep env s action point
  | ended => cases h

theorem shared_command (s : State) (admitted : Except HandlerFailure Unit) (task : Task) :
    (s.command admitted task).shared = s.shared := by
  unfold State.command
  split <;> rfl

theorem advance_inv {s t : State} {index : Nat}
    (h : next registry s (.advance index env) = some t) :
    ∃ task move, s.tasks[index]? = some task ∧ task.step registry env s.shared = some move ∧
      t = ⟨move.shared, s.tasks.set index move.task, s.replies ++ move.reply.toList⟩ := by
  simp only [next, Option.bind_eq_bind, Option.bind_eq_some_iff, Option.some.injEq] at h
  obtain ⟨task, htask, move, hmove, rfl⟩ := h
  exact ⟨task, move, htask, hmove, rfl⟩

theorem wrote_of_next {s t : State} {e : Event} (h : next registry s e = some t) :
    Wrote s.shared t.shared := by
  cases e with
  | advance index env =>
    obtain ⟨task, move, _, hmove, rfl⟩ := advance_inv h
    exact wrote_of_step hmove
  | _ =>
    cases h
    rw [shared_command]
    exact .refl _

/-! ## The rows -/

/-- Every row meets the constraint of the table, and an unfinished one has an
identifier that the store takes. -/
def Sound (operations : Operations) : Prop :=
  ∀ id record, operations.find id = some record → record.check = true ∧
    (record.state.terminal = false → isIdentifier record.operationId 128 = true)

theorem terminal_of_permitted {old new : ModelOperationState} (h : permitted old new) :
    old.terminal = false := by
  cases old <;> cases new <;> simp_all [permitted, ModelOperationState.terminal]

theorem Sound.wrote (h : Sound s.operations) (hwrote : Wrote s s') : Sound s'.operations := by
  cases hwrote with
  | nothing hoperations _ => rwa [hoperations]
  | created record hnamed hchecked hinsert _ =>
    intro id row hrow
    rw [Table.find_insert hinsert] at hrow
    split_ifs at hrow
    · cases hrow
      exact ⟨hchecked, fun _ => hnamed⟩
    · exact h id row hrow
  | moved old new hchanges state progress now hmove hpermitted _ hchecked _ =>
    intro id row hrow
    rcases hchanges.cases hrow with ⟨_, rfl⟩ | ⟨_, hold⟩
    · refine ⟨hchecked, fun _ => ?_⟩
      rw [hchanges.key]
      exact (h _ _ hchanges.found).2 (terminal_of_permitted hpermitted)
    · exact h id row hold

/-! ## The ledger along a run -/

/-- What a later row of an operation says beside an earlier one. -/
def Follows (earlier later : ModelOperationRecord) : Prop :=
  earlier.operationId = later.operationId →
    later.state ≠ .queued ∧ earlier.state.terminal = false ∧
      earlier.progressBasisPoints ≤ later.progressBasisPoints ∧
      later.modelId = earlier.modelId ∧ later.revision = earlier.revision ∧
      later.kind = earlier.kind

/-- The row that was written last for an operation. -/
def lastWrite (writes : List ModelOperationRecord) (operationId : String) :
    Option ModelOperationRecord :=
  latest (fun record => record.operationId = operationId) writes

/-- The operations are what was written last, no identifier of an earlier
operation is written again, and the rows of one operation follow each other. -/
structure Recorded (before : Operations) (s : Shared) : Prop where
  current : ∀ id, s.operations.find id = (lastWrite s.writes id).or (before.find id)
  fresh : ∀ record ∈ s.writes, before.find record.operationId = none
  ordered : s.writes.Pairwise Follows

theorem lastWrite_append (writes : List ModelOperationRecord) (record : ModelOperationRecord)
    (id : String) : lastWrite (writes ++ [record]) id =
      if record.operationId = id then some record else lastWrite writes id := by
  unfold lastWrite
  rw [latest_append]
  simp

theorem lastWrite_eq_none {writes : List ModelOperationRecord} {id : String} :
    lastWrite writes id = none ↔ ∀ record ∈ writes, record.operationId ≠ id := by
  unfold lastWrite
  rw [latest_eq_none_iff]
  simp

theorem Recorded.initial (operations : Operations) :
    Recorded operations (initial operations).shared where
  current := fun id => by simp [Models.initial, lastWrite]
  fresh := fun record hrecord => by simp [Models.initial] at hrecord
  ordered := List.Pairwise.nil

section

variable {before : Operations} {s s' : Shared}

theorem Recorded.create (h : Recorded before s)
    (hinsert : s.operations.insert? record = some s'.operations)
    (hwrites : s'.writes = s.writes ++ [record]) : Recorded before s' := by
  have hfree := (Table.insert?_eq_some_iff.mp hinsert).1
  rw [h.current, Option.or_eq_none_iff, lastWrite_eq_none] at hfree
  constructor
  · intro id
    rw [Table.find_insert hinsert, hwrites, lastWrite_append]
    split_ifs
    · rfl
    · exact h.current id
  · intro row hrow
    rw [hwrites, List.mem_append, List.mem_singleton] at hrow
    rcases hrow with hold | rfl
    · exact h.fresh row hold
    · exact hfree.2
  · rw [hwrites, List.pairwise_append]
    refine ⟨h.ordered, List.pairwise_singleton _ _, fun row hrow new hnew hsame => ?_⟩
    rw [List.mem_singleton.mp hnew] at hsame
    exact absurd hsame (hfree.1 row hrow)

theorem Recorded.move (hbefore : ∀ record ∈ before.rows, record.state.terminal)
    {old new : ModelOperationRecord} {now : Nat} (h : Recorded before s)
    (hchanges : Table.Changes s.operations s'.operations old new)
    (hmove : new = old.move state progress now) (hpermitted : permitted old.state state)
    (hprogress : old.progressBasisPoints ≤ progress) (hwrites : s'.writes = s.writes ++ [new]) :
    Recorded before s' := by
  have hkey : new.operationId = old.operationId := hchanges.key
  have hopen : old.state.terminal = false ∧ state ≠ .queued := by
    refine ⟨terminal_of_permitted hpermitted, ?_⟩
    rintro rfl
    cases hold : old.state <;> simp_all [permitted]
  have hlast : lastWrite s.writes old.operationId = some old := by
    have hfound := hchanges.found
    rw [h.current] at hfound
    rcases Option.or_eq_some_iff.mp hfound with hlast | ⟨_, hbefore'⟩
    · exact hlast
    · have := hbefore old (Table.mem_rows_of_find hbefore')
      rw [hopen.1] at this
      cases this
  have hnew : before.find new.operationId = none := by
    rw [hkey]
    exact h.fresh old (mem_of_latest hlast).1
  constructor
  · intro id
    rw [hwrites, lastWrite_append, hchanges.find, hkey]
    by_cases hid : id = old.operationId
    · rw [if_pos hid, if_pos hid.symm]
      rfl
    · rw [if_neg hid, if_neg (Ne.symm hid)]
      exact h.current id
  · intro row hrow
    rw [hwrites, List.mem_append, List.mem_singleton] at hrow
    rcases hrow with hold | rfl
    · exact h.fresh row hold
    · exact hnew
  · rw [hwrites, List.pairwise_append]
    refine ⟨h.ordered, List.pairwise_singleton _ _, fun row hrow new' hnew' hsame => ?_⟩
    obtain rfl := List.mem_singleton.mp hnew'
    have hid : row.operationId = old.operationId := hsame.trans hkey
    rcases eq_or_of_latest h.ordered hlast hrow (by simpa using hid) with rfl | hfollows
    · rw [hmove]
      exact ⟨hopen.2, hopen.1, hprogress, rfl, rfl, rfl⟩
    · obtain ⟨_, hterminal, hless, hmodel, hrevision, hkind⟩ := hfollows hid
      rw [hmove]
      exact ⟨hopen.2, hterminal, hless.trans hprogress, hmodel, hrevision, hkind⟩

theorem Recorded.wrote (hbefore : ∀ record ∈ before.rows, record.state.terminal)
    (h : Recorded before s) (hwrote : Wrote s s') : Recorded before s' := by
  cases hwrote with
  | nothing hoperations hwrites =>
    exact ⟨fun id => by rw [hoperations, hwrites]; exact h.current id,
      fun row hrow => h.fresh row (hwrites ▸ hrow), hwrites ▸ h.ordered⟩
  | created record _ _ hinsert hwrites => exact h.create hinsert hwrites
  | moved old new hchanges state progress now hmove hpermitted hprogress _ hwrites =>
    exact h.move hbefore hchanges hmove hpermitted hprogress hwrites

end

/-- The ledger along every run, whatever the tasks and the outside do. -/
theorem recorded_of_steps {before : Operations} {s : State} {P : State → Event → Prop}
    (hbefore : ∀ record ∈ before.rows, record.state.terminal)
    (hrun : Steps (next registry) P (initial before) s) : Recorded before s.shared :=
  hrun.invariant (I := fun s => Recorded before s.shared)
    (fun _ _ _ hs _ hstep => hs.wrote hbefore (wrote_of_next hstep)) (.initial before)

end Abbey.Models
