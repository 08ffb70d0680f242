import Abbey.Models.Ownership

/-!
# The ledger tells the truth

Every action of a task is an act of its view (`act_of_step`), as long as it
does not meet one of the gaps that `plain` names:

* a worker releases its revision before it writes its last row, so another
  operation of the revision may be created in between;
* a row that would finish an operation is refused for its time, or was never
  written, and the refusal is ignored;
* an operation is cancelled while its task changes the loaded models.

`truthful_of_steps` is what then holds in every state; what the ledger says
of one operation (`Recorded`) needs none of this.
-/

namespace Abbey.Models

open Abbey.Lib Abbey.Run Abbey.Recovery Abbey.Daemon Abbey.Authority Task Table List Option Except

variable {state : ModelOperationState} {progress : Nat} {o : Owner} {registry : Registry}
  {id : String} {task : Task}

/-! ## The views of the tasks -/

def startView (work : Work) (action : V3ModelAction) : StartPoint → View
  | .acquire => ⟨none, none⟩
  | .create | .auditFailed _ | .release _ => ⟨some (activeKey action), none⟩
  | .audit _ | .failCreated _ | .spawn _ | .failSpawn _ =>
    ⟨some (activeKey action), some ⟨action, work.kind, .queued⟩⟩

def unloadView (action : V3ModelAction) : UnloadPoint → View
  | .acquire => ⟨none, none⟩
  | .create | .auditTerminal _ | .release _ => ⟨some (activeKey action), none⟩
  | .audit _ | .run _ => ⟨some (activeKey action), some ⟨action, .unload, .queued⟩⟩
  | .remove _ => ⟨some (activeKey action), some ⟨action, .unload, .running 0⟩⟩
  | .finish _ removed =>
    ⟨some (activeKey action), some ⟨action, .unload, if removed then .applied else .running 0⟩⟩

/-- The phase of a worker whose work is done. -/
def Work.done : Work → Phase
  | .download => .running 10000
  | .load => .applied

def workerView (work : Work) (action : V3ModelAction) : WorkerPoint → View
  | .run => ⟨some (activeKey action), some ⟨action, work.kind, .queued⟩⟩
  | .fetch _ | .report _ | .check | .load | .insert =>
    ⟨some (activeKey action), some ⟨action, work.kind, .running 10000⟩⟩
  | .release succeeded =>
    ⟨some (activeKey action),
      some ⟨action, work.kind, if succeeded then work.done else .closing none⟩⟩
  | .readProgress => ⟨none, some ⟨action, work.kind, .closing none⟩⟩
  | .finish succeeded progress =>
    ⟨none, some ⟨action, work.kind, if succeeded then work.done else .closing (some progress)⟩⟩
  | .audit _ => ⟨none, none⟩

def Task.view : Task → View
  | .start work action point => startView work action point
  | .unload action point => unloadView action point
  | .worker work action point => workerView work action point
  | .cancel _ _ => ⟨none, none⟩
  | .ended => ⟨none, none⟩

/-- What a task knows of its own values, whatever the others do. -/
def Task.Static : Task → Prop
  | .start _ action (.audit created) | .start _ action (.failCreated created)
  | .start _ action (.spawn created) | .start _ action (.failSpawn created) =>
    created.operationId = action.operationId ∧ created.progressBasisPoints = 0
  | .unload action (.audit created) | .unload action (.run created)
  | .unload action (.remove created) | .unload action (.finish created _) =>
    created.operationId = action.operationId
  | .worker work _ (.fetch _) | .worker work _ (.report _) => work = .download
  | .worker work _ .check | .worker work _ .load | .worker work _ .insert => work = .load
  | .worker _ _ (.finish succeeded progress) =>
    progress ≤ 10000 ∧ (succeeded = true → progress = 10000)
  | _ => True

/-! ## Plain steps -/

def finished (s : Shared) (operationId : String) : Bool :=
  (s.operations.find operationId).all (·.state.terminal)

/-- The store takes a row of this operation now. -/
def inTime (env : Env) (record : ModelOperationRecord) : Bool :=
  env.stored && env.clock.any (fun now => record.updatedAtMs ≤ now && now ≤ sqliteMax)

/-- The clock has not gone back behind the last row of an unfinished operation. -/
def timely (env : Env) (s : Shared) (operationId : String) : Bool :=
  (s.operations.find operationId).all (fun record => record.state.terminal || inTime env record)

/-- The action of a worker that has released its revision and has not
written its last row. -/
def Task.closing : Task → Option V3ModelAction
  | .worker _ action .readProgress | .worker _ action (.finish _ _) => some action
  | _ => none

/-- The operation of a task that has changed the loaded models and has not
written it. -/
def Task.applied : Task → Option String
  | .unload action (.finish _ true) => some action.operationId
  | .worker .load action (.release true) | .worker .load action (.finish true _) =>
    some action.operationId
  | _ => none

/-- No other worker of the revision has an unfinished operation to write. -/
def closed (s : Shared) (tasks : List Task) (action : V3ModelAction) : Bool :=
  tasks.all (fun other => other.closing.all (fun earlier =>
    modelKey earlier ≠ modelKey action || finished s earlier.operationId))

/-- The steps that meet none of the gaps. -/
def plainStep (env : Env) (s : Shared) (tasks : List Task) : Task → Bool
  | .start _ action .create | .unload action .create => closed s tasks action
  | .start _ action (.failCreated _) | .start _ action (.failSpawn _) =>
    timely env s action.operationId
  | .unload action (.audit _) => env.audited || finished s action.operationId
  | .unload action (.run _) | .unload action (.finish _ _) => timely env s action.operationId
  | .unload action (.remove _) =>
    modelKey action ∉ s.loaded || !finished s action.operationId
  | .worker _ action .insert => !finished s action.operationId
  | .worker _ action .readProgress =>
    env.stored || (s.operations.find action.operationId).all
      (fun record => record.state.terminal || record.progressBasisPoints = 0)
  | .worker _ action (.finish _ _) => timely env s action.operationId
  | .cancel action (.cancel progress) =>
    (s.operations.find action.operationId).all (fun record =>
      !(inTime env record && record.progressBasisPoints ≤ progress) ||
        tasks.all (fun other => other.applied ≠ some action.operationId))
  | _ => true

def plain (s : State) : Event → Bool
  | .advance index env => (s.tasks[index]?).all (plainStep env s.shared s.tasks)
  | _ => true

theorem finished_eq_true : finished s id ↔ Finished s.operations id := by
  simp [finished, Finished, Option.all_eq_true]

/-- A task that owns an operation without holding its revision is closing. -/
theorem closing_of_view (ho : task.view.owner = some o) (hholds : task.view.holds = none) :
    task.closing = some o.action := by
  cases task with
  | start work action point =>
    cases point <;> simp [view, startView] at ho hholds
  | unload action point =>
    cases point <;> simp [view, unloadView] at ho hholds
  | worker work action point =>
    cases point <;> simp [view, workerView] at ho hholds
    · rw [← ho]
      rfl
    · rw [← ho]
      rfl
  | cancel action point => cases ho
  | ended => cases ho

theorem applied_of_view (ho : task.view.owner = some o) (hphase : o.phase = .applied) :
    task.applied = some o.id := by
  cases task with
  | start work action point =>
    cases point <;> simp [view, startView] at ho <;> simp [← ho] at hphase
  | unload action point =>
    cases point with
    | finish created removed =>
      cases removed <;> simp [view, unloadView] at ho <;> subst ho
      · cases hphase
      · rfl
    | _ => simp [view, unloadView] at ho <;> simp [← ho] at hphase
  | worker work action point =>
    cases point with
    | release succeeded | finish succeeded progress =>
      cases succeeded <;> cases work <;> simp [view, workerView, Work.done] at ho <;>
        subst ho <;> first | rfl | cases hphase
    | _ => simp [view, workerView] at ho <;> simp [← ho] at hphase
  | cancel action point => cases ho
  | ended => cases ho

/-! ## Refused rows -/

/-- The operation is finished, or the table permits the row. -/
def Ready (s : Shared) (id : String) (state : ModelOperationState) (progress : Nat) : Prop :=
  ∀ record, s.operations.find id = some record → record.state.terminal = true ∨
    (permitted record.state state = true ∧ record.progressBasisPoints ≤ progress)

/-- A row that the operation is ready for is refused only when the operation
is finished, if the clock has not gone back. -/
theorem finished_of_refused {failure : HandlerFailure}
    (hsound : Sound s.operations) (htimely : timely env s id) (hready : Ready s id state progress)
    (hmost : progress ≤ 10000) (hdone : state = .succeeded → progress = 10000)
    (h : transition env s id state progress = .error failure) : Finished s.operations id := by
  intro record hrecord
  rcases hready record hrecord with hterminal | ⟨hpermitted, hprogress⟩
  · exact hterminal
  have hin : record.state.terminal ∨ inTime env record := by
    simpa [timely, hrecord] using htimely
  rcases hin with hterminal | hin
  · exact hterminal
  obtain ⟨hstored, now, hclock, htime, hnow⟩ : env.stored ∧
      ∃ now, env.clock = some now ∧ record.updatedAtMs ≤ now ∧ now ≤ sqliteMax := by
    simpa [inTime, Option.any_eq_true] using hin
  have hnamed : isIdentifier id 128 := by
    have hid := (hsound id record hrecord).2 (terminal_of_permitted hpermitted)
    rwa [pk_of_find hrecord] at hid
  have hchecked : OperationsChecked s.operations :=
    fun row hrow => (hsound _ row (mem_rows_iff_find.mp hrow)).1
  obtain ⟨result, hresult⟩ := transition_ok hchecked hnamed hrecord hpermitted hprogress hmost
    hdone htime hnow
  have hok : ∃ result, transition env s id state progress = .ok result := by
    refine ⟨({ s with operations := result.1, writes := s.writes ++ [result.2] }, result.2), ?_⟩
    unfold transition
    simp only [bind_ok_iff, required_eq_ok, storeCall_eq_ok]
    exact ⟨now, hclock, result, ⟨hstored, hresult⟩, rfl⟩
  obtain ⟨result', hresult'⟩ := hok
  rw [h] at hresult'
  cases hresult'

/-! ## Every action is an act -/

section

variable {rest : List View} {s : Shared} {v v' : View} {env : Env}

variable (rest) in
/-- A row that would finish the operation of the view, written or refused. -/
theorem act_close
    (hsound : Sound s.operations) (howner : v.owner = some o) (htimely : timely env s o.id)
    (hready : Ready s o.id state progress)
    (hmost : progress ≤ 10000) (hdone : state = .succeeded → progress = 10000)
    (hterminal : state.terminal)
    (happlied : o.phase = .applied ↔ state = .succeeded ∧ o.kind ≠ .download)
    (h : transition env s o.id state progress = result) :
    (∀ s' record, result = .ok (s', record) → Act rest s v s' { v with owner := none }) ∧
      ∀ failure, result = .error failure → ∀ v', v'.owner = none →
        v'.holds = v.holds ∨ v'.holds = none → Act rest s v s v' := by
  constructor
  · rintro s' record rfl
    obtain ⟨old, now, hfind, _, _, hpermitted, _, _, _, hrecord, _, hchanges, hs'⟩ :=
      transition_inv h
    rw [hrecord] at hchanges hs'
    exact .close howner (pk_of_find hfind) hterminal happlied hchanges hpermitted hs'
  · rintro failure rfl v' hnone hholds
    exact .drop howner (finished_of_refused hsound htimely hready hmost hdone h) hholds hnone

variable {record : ModelOperationRecord} {s' : Shared} {phase : Phase}

/-- A row that says that the operation of the view is running. -/
theorem act_run
    (howner : v.owner = some o) (hbefore : o.phase ≠ .applied) (hafter : phase ≠ .applied)
    (hfits : ∀ record, record.state = .running → record.progressBasisPoints = progress →
      phase.Fits record)
    (h : transition env s o.id .running progress = .ok (s', record)) :
    Act rest s v s' { v with owner := some { o with phase } } := by
  obtain ⟨old, now, hfind, _, _, hpermitted, _, _, _, hrecord, _, hchanges, hs'⟩ :=
    transition_inv h
  rw [hrecord] at hchanges hs'
  exact .run howner hbefore (pk_of_find hfind) hchanges hpermitted hafter
    (hfits _ rfl rfl) hs'

variable {action : V3ModelAction}

theorem act_create (hholds : v.holds = some (activeKey action)) (howner : v.owner = none)
    (hclosed : ∀ w ∈ rest, ∀ o, w.owner = some o → modelKey o.action = modelKey action →
      w.holds = none → Finished s.operations o.id)
    (h : createOperation env s action kind = .ok (s', record)) :
    Act rest s v s' { v with owner := some ⟨action, kind, .queued⟩ } ∧
      record.operationId = action.operationId ∧ record.progressBasisPoints = 0 := by
  obtain ⟨now, _, hrecord, hinsert, hs'⟩ := createOperation_of_ok h
  rw [hrecord] at hinsert hs' ⊢
  exact ⟨.create now hholds howner hinsert hs' hclosed, rfl, rfl⟩

theorem progress_le (hsound : Sound s.operations)
    (hrecord : s.operations.find id = some record) : record.progressBasisPoints ≤ 10000 := by
  have hcheck := (hsound id record hrecord).1
  simp only [ModelOperationRecord.check, Bool.and_eq_true, decide_eq_true_eq] at hcheck
  exact hcheck.1

section

variable (hinv : Inv s (v :: rest)) (howner : v.owner = some o)

include hinv howner

theorem fits_of_find (hrecord : s.operations.find o.id = some record) : o.phase.Fits record := by
  obtain ⟨row, hrow, _, _, hfits⟩ := hinv.fits v mem_cons_self o howner
  rw [hrecord] at hrow
  obtain rfl := some.inj hrow
  exact hfits

/-- A created operation is ready to fail. -/
theorem queued_ready
    (hphase : o.phase = .queued) (hstate : permitted .queued state) (progress : Nat) :
    Ready s o.id state progress := by
  intro record hrecord
  have hfits := fits_of_find hinv howner hrecord
  rw [hphase] at hfits
  rcases hfits with hterminal | ⟨hqueued, hzero⟩
  · exact .inl hterminal
  · refine .inr ⟨by rw [hqueued]; exact hstate, ?_⟩
    rw [hzero]
    exact Nat.zero_le _

/-- A running operation is ready to end at the progress that bounds it. -/
theorem running_ready (hphase : o.phase = .running most) (hstate : permitted .running state) :
    Ready s o.id state most := by
  intro record hrecord
  have hfits := fits_of_find hinv howner hrecord
  rw [hphase] at hfits
  rcases hfits with hterminal | ⟨hrunning, hmost⟩
  · exact .inl hterminal
  · exact .inr ⟨by rw [hrunning]; exact hstate, hmost⟩

end

/-- An operation whose change was made is ready to succeed. -/
theorem applied_ready (hsound : Sound s.operations) (hinv : Inv s (v :: rest))
    (howner : v.owner = some o) (hphase : o.phase = .applied) :
    Ready s o.id .succeeded 10000 := by
  intro record hrecord
  have hrunning := fits_of_find hinv howner hrecord
  rw [hphase] at hrunning
  exact .inr ⟨by rw [show record.state = .running from hrunning]; rfl, progress_le hsound hrecord⟩

/-- An operation that gives up is ready to fail at the progress that was read. -/
theorem closing_ready (hinv : Inv s (v :: rest)) (howner : v.owner = some o)
    (hphase : o.phase = .closing (some progress)) : Ready s o.id .failed progress := by
  intro record hrecord
  have hfits := fits_of_find hinv howner hrecord
  rw [hphase] at hfits
  rcases hfits with hterminal | hprogress
  · exact .inl hterminal
  · cases hstate : record.state with
    | queued | running => exact .inr ⟨rfl, hprogress⟩
    | _ => exact .inl rfl

/-- What `closed` says of the views beside a task. -/
theorem finished_of_closed (hrest : ∀ w ∈ rest, ∃ other ∈ tasks, other.view = w)
    (hclosed : closed s tasks action) :
    ∀ w ∈ rest, ∀ o, w.owner = some o → modelKey o.action = modelKey action → w.holds = none →
      Finished s.operations o.id := by
  intro w hw o ho hkey hholds
  obtain ⟨other, hother, rfl⟩ := hrest w hw
  have hclosing := closing_of_view ho hholds
  have hall := all_eq_true.mp hclosed other hother
  rw [hclosing] at hall
  simpa [hkey, finished_eq_true, Owner.id] using hall

variable {tasks : List Task} {work : Work}

theorem act_startStep
    (hsound : Sound s.operations) (hinv : Inv s (startView work action point :: rest))
    (hrest : ∀ w ∈ rest, ∃ other ∈ tasks, other.view = w)
    (hstatic : (start work action point).Static)
    (hplain : plainStep env s tasks (.start work action point)) :
    Act rest s (startView work action point) (startStep env s work action point).shared
      (startStep env s work action point).task.view ∧
      (startStep env s work action point).task.Static := by
  cases point with
  | acquire =>
    by_cases hfree : activeKey action ∈ s.active
    · simp only [startStep, if_pos hfree]
      exact ⟨.pass (.inl rfl) rfl, trivial⟩
    · simp only [startStep, if_neg hfree]
      exact ⟨.acquire (activeKey action) hfree rfl, trivial⟩
  | create =>
    simp only [startStep]
    split
    · exact ⟨.pass (.inl rfl) rfl, trivial⟩
    · exact act_create rfl rfl (finished_of_closed hrest hplain) ‹_›
  | audit created =>
    simp only [startStep]
    split_ifs
    · exact ⟨.pass (.inl rfl) rfl, hstatic⟩
    · exact ⟨.pass (.inl rfl) rfl, hstatic⟩
  | spawn created =>
    simp only [startStep]
    split_ifs
    · exact ⟨.pass (.inl rfl) rfl, trivial⟩
    · exact ⟨.pass (.inl rfl) rfl, hstatic⟩
  | failCreated created | failSpawn created =>
    obtain ⟨hid, hzero⟩ := hstatic
    have hready := queued_ready hinv (o := ⟨action, work.kind, .queued⟩) rfl rfl
      (show permitted .queued .failed = true from rfl) 0
    have hact := act_close (v := ⟨some (activeKey action), some ⟨action, work.kind, .queued⟩⟩) rest
      hsound rfl hplain hready (Nat.zero_le _) (by rintro ⟨⟩) rfl (by simp) rfl
    simp only [startStep, hzero, hid]
    split
    · exact ⟨hact.2 _ ‹_› _ rfl (by simp [view, startView]), trivial⟩
    · exact ⟨hact.1 _ _ ‹_›, trivial⟩
  | auditFailed failed =>
    simp only [startStep]
    split_ifs
    · exact ⟨.pass (.inl rfl) rfl, trivial⟩
    · exact ⟨.pass (.inr rfl) rfl, trivial⟩
  | release reply => exact ⟨.release (activeKey action) rfl, trivial⟩

theorem act_unloadStep
    (hsound : Sound s.operations) (hinv : Inv s (unloadView action point :: rest))
    (hrest : ∀ w ∈ rest, ∃ other ∈ tasks, other.view = w) (hstatic : (unload action point).Static)
    (hplain : plainStep env s tasks (.unload action point)) :
    Act rest s (unloadView action point) (unloadStep env s action point).shared
      (unloadStep env s action point).task.view ∧ (unloadStep env s action point).task.Static := by
  cases point with
  | acquire =>
    by_cases hfree : activeKey action ∈ s.active
    · simp only [unloadStep, if_pos hfree]
      exact ⟨.pass (.inl rfl) rfl, trivial⟩
    · simp only [unloadStep, if_neg hfree]
      exact ⟨.acquire (activeKey action) hfree rfl, trivial⟩
  | create =>
    simp only [unloadStep]
    split
    · exact ⟨.pass (.inl rfl) rfl, trivial⟩
    · have hact := act_create (v := unloadView action .create) rfl rfl
        (finished_of_closed hrest hplain) ‹_›
      exact ⟨hact.1, hact.2.1⟩
  | audit created =>
    by_cases haudit : env.audited
    · simp only [unloadStep, if_pos haudit]
      exact ⟨.pass (.inl rfl) rfl, hstatic⟩
    · simp only [unloadStep, if_neg haudit]
      have hfinished : Finished s.operations action.operationId := by
        rw [← finished_eq_true]
        simpa [plainStep, haudit] using hplain
      exact ⟨.drop rfl hfinished (.inl rfl) rfl, trivial⟩
  | run created =>
    have hid : created.operationId = action.operationId := hstatic
    have hready := queued_ready hinv (o := ⟨action, .unload, .queued⟩) rfl rfl
      (show permitted .queued .running = true from rfl) 0
    simp only [unloadStep, hid]
    split
    · exact ⟨.drop rfl (finished_of_refused hsound hplain hready (Nat.zero_le _)
        (by rintro ⟨⟩) ‹_›) (.inl rfl) rfl, trivial⟩
    · refine ⟨act_run (o := ⟨action, .unload, .queued⟩) rfl (by simp) (by simp)
        (fun record hrunning hprogress => .inr ⟨hrunning, hprogress.le⟩) ‹_›, hid⟩
  | remove created =>
    by_cases hloaded : modelKey action ∈ s.loaded
    · have hopen : ¬ Finished s.operations action.operationId := by
        rw [← finished_eq_true]
        simpa [plainStep, hloaded] using hplain
      have hact : Act rest s (unloadView action (.remove created)) _ _ :=
        .unload (o := ⟨action, .unload, .running 0⟩) rfl rfl rfl hopen
      simp only [unloadStep, decide_eq_true hloaded]
      exact ⟨hact, hstatic⟩
    · simp only [unloadStep, Finset.erase_eq_of_notMem hloaded, decide_eq_false hloaded]
      exact ⟨.pass (.inl rfl) rfl, hstatic⟩
  | finish created removed =>
    have hid : created.operationId = action.operationId := hstatic
    cases removed with
    | true =>
      have hready := applied_ready hsound hinv (o := ⟨action, .unload, .applied⟩) rfl rfl
      have hact := act_close (v := unloadView action (.finish created true)) rest hsound rfl
        hplain hready le_rfl (fun _ => rfl) rfl (by simp) rfl
      simp only [unloadStep, hid, if_true]
      split
      · exact ⟨hact.2 _ ‹_› _ rfl (.inl rfl), trivial⟩
      · exact ⟨hact.1 _ _ ‹_›, trivial⟩
    | false =>
      have hready := running_ready hinv (o := ⟨action, .unload, .running 0⟩) rfl rfl
        (show permitted .running .failed = true from rfl)
      have hact := act_close (v := unloadView action (.finish created false)) rest hsound rfl
        hplain hready (Nat.zero_le _) (by rintro ⟨⟩) rfl (by simp) rfl
      simp only [unloadStep, hid, Bool.false_eq_true, if_false]
      split
      · exact ⟨hact.2 _ ‹_› _ rfl (.inl rfl), trivial⟩
      · exact ⟨hact.1 _ _ ‹_›, trivial⟩
  | auditTerminal terminal =>
    simp only [unloadStep]
    split_ifs
    · exact ⟨.pass (.inl rfl) rfl, trivial⟩
    · exact ⟨.pass (.inl rfl) rfl, trivial⟩
  | release reply => exact ⟨.release (activeKey action) rfl, trivial⟩

/-- The phase at the head of the loop of `download_all`. -/
theorem fetchPoint_cases (registry : Registry) (action : V3ModelAction) (index : Nat) :
    fetchPoint registry action index = .release false ∨
      fetchPoint registry action index = .fetch index ∨
      fetchPoint registry action index = .release true := by
  unfold fetchPoint
  split
  · exact .inl rfl
  · split_ifs
    · exact .inr (.inl rfl)
    · exact .inr (.inr rfl)

theorem progress_le_of_transition
    (h : transition env s id state progress = .ok (s', record)) : progress ≤ 10000 := by
  obtain ⟨old, now, _, _, _, _, _, _, _, hrecord, hcheck, _⟩ := transition_inv h
  rw [hrecord, check_move, Bool.and_eq_true, decide_eq_true_eq] at hcheck
  exact hcheck.1

/-- A download whose operation is running goes on with its loop. -/
theorem act_fetchPoint (hbefore : phase ≠ .applied)
    (h : transition env s action.operationId .running progress = .ok (s', record)) :
    Act rest s ⟨some (activeKey action), some ⟨action, .download, phase⟩⟩ s'
        (worker .download action (fetchPoint registry action index)).view ∧
      (worker .download action (fetchPoint registry action index)).Static := by
  have hrun : ∀ next : Phase, next ≠ .applied →
      (∀ row : ModelOperationRecord, row.state = .running →
        row.progressBasisPoints = progress → next.Fits row) →
      Act rest s ⟨some (activeKey action), some ⟨action, .download, phase⟩⟩ s'
        ⟨some (activeKey action), some ⟨action, .download, next⟩⟩ :=
    fun next hafter hfits =>
      act_run (v := ⟨some (activeKey action), some ⟨action, .download, phase⟩⟩)
        (o := ⟨action, .download, phase⟩) rfl hbefore hafter hfits h
  have hprogress := progress_le_of_transition h
  have hrunning : Act rest s ⟨some (activeKey action), some ⟨action, .download, phase⟩⟩ s'
      ⟨some (activeKey action), some ⟨action, .download, .running 10000⟩⟩ :=
    hrun (.running 10000) (by simp) (fun row hstate hrow => .inr ⟨hstate, by omega⟩)
  rcases fetchPoint_cases registry action index with heq | heq | heq
  · rw [heq]
    exact ⟨hrun (.closing none) (by simp) (fun _ _ _ => trivial), trivial⟩
  · rw [heq]
    exact ⟨hrunning, rfl⟩
  · rw [heq]
    exact ⟨hrunning, trivial⟩

/-- A worker that gives up. -/
theorem act_giveUp (hbefore : phase ≠ .applied) :
    Act rest s ⟨some (activeKey action), some ⟨action, work.kind, phase⟩⟩ s
      (worker work action (.release false)).view :=
  Act.shift (v := ⟨some (activeKey action), some ⟨action, work.kind, phase⟩⟩)
    (o := ⟨action, work.kind, phase⟩) rfl hbefore (by simp) (fun _ _ _ => trivial)

theorem find_of_modelOperation (h : storeCall env (modelOperation s id) = .ok (some record)) :
    s.operations.find id = some record := by
  obtain ⟨_, hread⟩ := storeCall_eq_ok.mp h
  unfold modelOperation at hread
  simp only [bind_ok_iff, ok.injEq] at hread
  obtain ⟨_, _, hfind⟩ := hread
  exact hfind

theorem modelOperation_of_find (hsound : Sound s.operations) (hstored : env.stored)
    (hfind : s.operations.find id = some record) (hopen : record.state.terminal = false) :
    storeCall env (modelOperation s id) = .ok (some record) := by
  have hnamed := (hsound id record hfind).2 hopen
  rw [pk_of_find hfind] at hnamed
  refine storeCall_eq_ok.mpr ⟨hstored, ?_⟩
  unfold modelOperation validateId
  simp only [bind_ok_iff, ensure_eq_ok, ok.injEq]
  exact ⟨(), hnamed, hfind⟩

theorem act_workerStep
    (hsound : Sound s.operations) (hinv : Inv s (workerView work action point :: rest))
    (hstatic : (worker work action point).Static)
    (hplain : plainStep env s tasks (.worker work action point)) :
    Act rest s (workerView work action point) (workerStep registry env s work action point).shared
      (workerStep registry env s work action point).task.view ∧
      (workerStep registry env s work action point).task.Static := by
  cases point with
  | run =>
    simp only [workerStep]
    split
    · exact ⟨act_giveUp (by simp), trivial⟩
    · cases work with
      | download => exact act_fetchPoint (by simp) ‹_›
      | load =>
        have hfits : ∀ row : ModelOperationRecord, row.state = .running →
            row.progressBasisPoints = 0 → (Phase.running 10000).Fits row :=
          fun row hstate hrow => .inr ⟨hstate, by omega⟩
        exact ⟨act_run (v := workerView .load action .run) (o := ⟨action, .load, .queued⟩) rfl
          (by simp) (by simp) hfits ‹_›, rfl⟩
  | fetch index | load =>
    simp only [workerStep]
    split_ifs
    · exact ⟨.pass (.inl rfl) rfl, hstatic⟩
    · exact ⟨act_giveUp (by simp), trivial⟩
  | report index =>
    obtain rfl : work = .download := hstatic
    simp only [workerStep]
    split
    · exact ⟨act_giveUp (by simp), trivial⟩
    · split
      · exact ⟨act_giveUp (by simp), trivial⟩
      · exact act_fetchPoint (by simp) ‹_›
  | check =>
    simp only [workerStep]
    split_ifs
    · exact ⟨act_giveUp (by simp), trivial⟩
    · exact ⟨.pass (.inl rfl) rfl, hstatic⟩
  | insert =>
    obtain rfl : work = .load := hstatic
    have hopen : ¬ Finished s.operations action.operationId := by
      rw [← finished_eq_true]
      simpa [plainStep] using hplain
    exact ⟨Act.load (v := workerView .load action .insert) (o := ⟨action, .load, .running 10000⟩)
      rfl rfl rfl hopen, trivial⟩
  | release succeeded =>
    have hrelease : Act rest s (workerView work action (.release succeeded)) _ _ :=
      .release (activeKey action) rfl
    cases succeeded with
    | true => exact ⟨hrelease, le_rfl, fun _ => rfl⟩
    | false => exact ⟨hrelease, trivial⟩
  | readProgress =>
    have hshift : ∀ progress, (∀ record, s.operations.find action.operationId = some record →
        record.state.terminal ∨ record.progressBasisPoints ≤ progress) →
        Act rest s (workerView work action .readProgress) s
          (workerView work action (.finish false progress)) := fun progress hprogress =>
      Act.shift (v := workerView work action .readProgress)
        (o := ⟨action, work.kind, .closing none⟩) rfl (by simp) (by simp)
        (fun record hrecord _ => hprogress record hrecord)
    simp only [workerStep]
    split
    · have hrecord := find_of_modelOperation ‹_›
      refine ⟨hshift _ (fun row hrow => ?_), progress_le hsound hrecord, by rintro ⟨⟩⟩
      rw [hrecord] at hrow
      cases hrow
      exact .inr le_rfl
    · rename_i hunread
      refine ⟨hshift 0 (fun row hrow => ?_), Nat.zero_le _, by rintro ⟨⟩⟩
      by_cases hopen : row.state.terminal
      · exact .inl hopen
      have hunstored : env.stored = false := by
        by_contra hstored
        exact hunread row (modelOperation_of_find hsound (by simpa using hstored) hrow
          (by simpa using hopen))
      have hzero : row.state.terminal ∨ row.progressBasisPoints = 0 := by
        simpa [plainStep, hunstored, hrow] using hplain
      exact hzero.imp_right Nat.le_of_eq
  | finish succeeded progress =>
    obtain ⟨hmost, hdone⟩ := hstatic
    cases succeeded with
    | true =>
      obtain rfl := hdone rfl
      have hready : Ready s action.operationId .succeeded 10000 := by
        cases work with
        | download =>
          exact running_ready hinv (o := ⟨action, .download, .running 10000⟩) rfl rfl rfl
        | load => exact applied_ready hsound hinv (o := ⟨action, .load, .applied⟩) rfl rfl
      have hact := act_close (v := workerView work action (.finish true 10000)) rest hsound rfl
        hplain hready le_rfl (fun _ => rfl) rfl (by cases work <;> simp [Work.done, Work.kind]) rfl
      simp only [workerStep, if_true]
      split
      · exact ⟨hact.2 _ ‹_› _ rfl (.inl rfl), trivial⟩
      · exact ⟨hact.1 _ _ ‹_›, trivial⟩
    | false =>
      have hready := closing_ready hinv (o := ⟨action, work.kind, .closing (some progress)⟩) rfl rfl
      have hact := act_close (v := workerView work action (.finish false progress)) rest hsound rfl
        hplain hready hmost (by rintro ⟨⟩) rfl (by simp) rfl
      simp only [workerStep, Bool.false_eq_true, if_false]
      split
      · exact ⟨hact.2 _ ‹_› _ rfl (.inl rfl), trivial⟩
      · exact ⟨hact.1 _ _ ‹_›, trivial⟩
  | audit record => exact ⟨.pass (.inl rfl) rfl, trivial⟩

theorem act_cancelStep {action : V3Action} (hrest : ∀ w ∈ rest, ∃ other ∈ tasks, other.view = w)
    (hplain : plainStep env s tasks (.cancel action point)) :
    Act rest s ⟨none, none⟩ (cancelStep env s action point).shared
      (cancelStep env s action point).task.view ∧ (cancelStep env s action point).task.Static := by
  cases point with
  | read =>
    simp only [cancelStep]
    split <;> exact ⟨.pass (.inl rfl) rfl, trivial⟩
  | cancel progress =>
    simp only [cancelStep]
    split
    · exact ⟨.pass (.inl rfl) rfl, trivial⟩
    · rename_i hmove
      obtain ⟨old, now, hfind, hstored, hclock, hpermitted, hprogress, htime, hnow, hrecord, _,
        hchanges, hs'⟩ := transition_inv hmove
      rw [hrecord] at hchanges hs'
      have hin : inTime env old := by
        simpa [inTime, hclock, hstored] using And.intro htime hnow
      have hothers : ∀ other ∈ tasks, other.applied ≠ some action.operationId := by
        simpa [plainStep, hfind, hin, hprogress] using hplain
      refine ⟨.cancel rfl hchanges hpermitted hs' (fun w hw o ho hid happlied => ?_), trivial⟩
      obtain ⟨other, hother, rfl⟩ := hrest w hw
      refine hothers other hother ((applied_of_view ho happlied).trans ?_)
      rw [hid, ← pk_of_find hfind]
  | audit updated => exact ⟨.pass (.inl rfl) rfl, trivial⟩

theorem act_of_step (hsound : Sound s.operations) (hinv : Inv s (task.view :: rest))
    (hrest : ∀ w ∈ rest, ∃ other ∈ tasks, other.view = w) (hstatic : task.Static)
    (hplain : plainStep env s tasks task) (h : task.step registry env s = some move) :
    Act rest s task.view move.shared move.task.view ∧ move.task.Static := by
  cases task with
  | start work action point =>
    cases h
    exact act_startStep hsound hinv hrest hstatic hplain
  | unload action point =>
    cases h
    exact act_unloadStep hsound hinv hrest hstatic hplain
  | worker work action point =>
    cases h
    exact act_workerStep hsound hinv hstatic hplain
  | cancel action point =>
    cases h
    exact act_cancelStep hrest hplain
  | ended => cases h

end

/-! ## Runs -/

/-- What holds after every plain step. -/
structure State.Holds (s : State) : Prop where
  sound : Sound s.shared.operations
  static : ∀ task ∈ s.tasks, task.Static
  inv : Inv s.shared (s.tasks.map Task.view)
  loads : Loads s.shared (s.tasks.map Task.view)

variable {s : State}

/-- A new task has a view that holds nothing and owns nothing. -/
theorem State.Holds.command (h : s.Holds) (admitted : Except HandlerFailure Unit)
    (hview : task.view = ⟨none, none⟩) (hstatic : task.Static) :
    (s.command admitted task).Holds := by
  unfold State.command
  split
  · exact ⟨h.sound, h.static, h.inv, h.loads⟩
  · have hperm : (task.view :: s.tasks.map view).Perm ((s.tasks ++ [task]).map view) := by
      rw [map_append]
      exact (perm_append_singleton _ _).symm
    have hnone : ∀ w ∈ task.view :: s.tasks.map view, ∀ o, w.owner = some o →
        w ∈ s.tasks.map view := by
      intro w hw o ho
      rcases mem_cons.mp hw with rfl | hrest
      · rw [hview] at ho
        cases ho
      · exact hrest
    refine ⟨h.sound, fun t ht => ?_, Inv.perm ?_ hperm, Loads.perm ?_ hperm⟩
    · rcases mem_append.mp ht with hold | hnew
      · exact h.static t hold
      · rw [mem_singleton.mp hnew]
        exact hstatic
    · refine ⟨fun w hw key hkey => ?_, h.inv.holders.cons_of_none (by rw [hview]),
        h.inv.owners.cons_of_none (by rw [hview]; rfl),
        fun w hw o ho => h.inv.key w (hnone w hw o ho) o ho,
        fun w hw o ho => h.inv.fits w (hnone w hw o ho) o ho,
        fun id record hrecord hopen => ?_, h.inv.single⟩
      · rcases mem_cons.mp hw with rfl | hrest
        · rw [hview] at hkey
          cases hkey
        · exact h.inv.held w hrest key hkey
      · obtain ⟨w, hw, howns⟩ := h.inv.owned id record hrecord hopen
        exact ⟨w, mem_cons_of_mem _ hw, howns⟩
    · exact ⟨fun w hw o ho => h.loads.added w (hnone w hw o ho) o ho,
        fun w hw o ho => h.loads.removed w (hnone w hw o ho) o ho,
        fun key hkey => h.loads.settled key (fun w hw => hkey w (mem_cons_of_mem _ hw))⟩

theorem State.Holds.advance (h : s.Holds) (hplain : plain s (.advance index env))
    (hstep : next registry s (.advance index env) = some t) : t.Holds := by
  obtain ⟨task, move, htask, hmove, rfl⟩ := advance_inv hstep
  obtain ⟨rest, hperm, hset⟩ := exists_perm_set htask
  have hviews : (s.tasks.map view).Perm (task.view :: rest.map view) := by
    simpa using hperm.map view
  have hset' : (move.task.view :: rest.map view).Perm
      ((s.tasks.set index move.task).map view) := by
    simpa using ((hset move.task).map view).symm
  have hothers : ∀ w ∈ rest.map view, ∃ other ∈ s.tasks, other.view = w := by
    intro w hw
    obtain ⟨other, hother, rfl⟩ := mem_map.mp hw
    exact ⟨other, hperm.mem_iff.mpr (mem_cons_of_mem _ hother), rfl⟩
  have hinv := h.inv.perm hviews
  have hplain' : plainStep env s.shared s.tasks task := by
    simpa [plain, htask] using hplain
  obtain ⟨hact, hstatic⟩ := act_of_step h.sound hinv hothers
    (h.static task (mem_of_getElem? htask)) hplain' hmove
  refine ⟨h.sound.wrote (wrote_of_step hmove), fun u hu => ?_, (hinv.act hact).perm hset',
    (Loads.act hinv (h.loads.perm hviews) hact).perm hset'⟩
  rcases mem_or_eq_of_mem_set hu with hold | rfl
  · exact h.static u hold
  · exact hstatic

theorem State.Holds.step (h : s.Holds) (hplain : plain s e)
    (hstep : next registry s e = some t) : t.Holds := by
  cases e with
  | advance index env => exact h.advance hplain hstep
  | _ =>
    cases hstep
    exact h.command _ rfl trivial

theorem State.Holds.initial (hchecked : OperationsChecked operations)
    (hfinished : ∀ record ∈ operations.rows, record.state.terminal) :
    (initial operations).Holds where
  sound id record hrecord := by
    have hrow := mem_rows_of_find hrecord
    refine ⟨hchecked record hrow, fun hopen => ?_⟩
    rw [hfinished record hrow] at hopen
    cases hopen
  static task htask := by simp [Models.initial] at htask
  inv := by
    refine ⟨?_, .nil, .nil, ?_, ?_, fun id record hrecord hopen => ?_,
      fun id₁ _ r₁ _ h₁ _ hopen _ _ => ?_⟩
    · simp [Models.initial]
    · simp [Models.initial]
    · simp [Models.initial]
    · rw [hfinished record (mem_rows_of_find hrecord)] at hopen
      cases hopen
    · rw [hfinished r₁ (mem_rows_of_find h₁)] at hopen
      cases hopen
  loads := by
    refine ⟨?_, ?_, fun key _ => ?_⟩
    · simp [Models.initial]
    · simp [Models.initial]
    · simp [Models.initial, replay]

/-- The three parts of the state agree. -/
structure State.Truthful (s : State) : Prop where
  single : ∀ r₁ ∈ s.shared.operations.rows, ∀ r₂ ∈ s.shared.operations.rows,
    r₁.state.terminal = false → r₂.state.terminal = false → r₁.modelId = r₂.modelId →
    r₁.revision = r₂.revision → r₁ = r₂
  ended : (∀ task ∈ s.tasks, task = .ended) →
    ∀ record ∈ s.shared.operations.rows, record.state.terminal = true
  replayed : (∀ record ∈ s.shared.operations.rows, record.state.terminal = true) →
    s.shared.loaded = replay s.shared.writes

theorem State.Holds.single (h : s.Holds) :
    ∀ r₁ ∈ s.shared.operations.rows, ∀ r₂ ∈ s.shared.operations.rows,
      r₁.state.terminal = false → r₂.state.terminal = false → r₁.modelId = r₂.modelId →
      r₁.revision = r₂.revision → r₁ = r₂ := by
  intro r₁ h₁ r₂ h₂ hopen₁ hopen₂ hmodel hrevision
  have hkey : recordKey r₁ = recordKey r₂ := by
    simp only [recordKey, hmodel, hrevision]
  exact eq_of_mem_of_pk_eq h₁ h₂ (h.inv.single _ _ r₁ r₂ (mem_rows_iff_find.mp h₁)
    (mem_rows_iff_find.mp h₂) hopen₁ hopen₂ hkey)

theorem State.Holds.ended (h : s.Holds) (hended : ∀ task ∈ s.tasks, task = .ended) :
    ∀ record ∈ s.shared.operations.rows, record.state.terminal := by
  intro record hrecord
  by_contra hopen
  obtain ⟨v, hv, howns⟩ := h.inv.owned _ record (mem_rows_iff_find.mp hrecord)
    (by simpa using hopen)
  obtain ⟨task, htask, rfl⟩ := mem_map.mp hv
  rw [hended task htask] at howns
  cases howns

/-- With every operation finished no task has a change to write. -/
theorem State.Holds.replayed (h : s.Holds)
    (hfinished : ∀ record ∈ s.shared.operations.rows, record.state.terminal) :
    s.shared.loaded = replay s.shared.writes := by
  ext key
  refine h.loads.settled key (fun v hv o ho happlied => ?_)
  obtain ⟨record, hfind, _, _, hfits⟩ := h.inv.fits v hv o ho
  rw [happlied] at hfits
  have hrunning : record.state = .running := hfits
  have hterminal := hfinished record (mem_rows_of_find hfind)
  rw [hrunning] at hterminal
  cases hterminal

theorem recovered_finished {now count : Nat} (hchecked : OperationsChecked operations)
    (hopened : recoverIncompleteOn operations now = .ok (before, count)) :
    OperationsChecked before ∧ ∀ record ∈ before.rows, record.state.terminal := by
  have hmax : now ≤ sqliteMax := by
    unfold recoverIncompleteOn at hopened
    simp only [bind_ok_iff, operationMs_eq_ok] at hopened
    obtain ⟨_, ⟨hmax, _⟩, _⟩ := hopened
    exact hmax
  rw [recoverIncompleteOn_total hchecked hmax] at hopened
  simp only [ok.injEq, Prod.mk.injEq] at hopened
  obtain ⟨rfl, _⟩ := hopened
  exact ⟨hchecked.abandoned now, fun _ hrecord => terminal_of_mem_abandoned hrecord⟩

/-- The rows of one operation follow each other in every run, and the three
parts of the state agree in every state of a plain run. -/
theorem ledger_is_truthful {registry : Registry} {operations before : Operations}
    {now count : Nat} (hchecked : OperationsChecked operations)
    (hopened : recoverIncompleteOn operations now = .ok (before, count)) :
    (∀ s, Steps (next registry) anyStep (initial before) s → Recorded before s.shared) ∧
      ∀ s, Steps (next registry) (fun s e => plain s e = true) (initial before) s →
        s.Truthful := by
  obtain ⟨hbefore, hfinished⟩ := recovered_finished hchecked hopened
  refine ⟨fun s hrun => recorded_of_steps hfinished hrun, fun s hrun => ?_⟩
  have hs : s.Holds := hrun.invariant (I := State.Holds)
    (fun _ _ _ hs hplain hstep => hs.step hplain hstep) (.initial hbefore hfinished)
  exact ⟨hs.single, hs.ended, hs.replayed⟩

/-! ## The gaps -/

def sampleRegistry : Registry where
  get modelId := if modelId = "m" then some ⟨"r", 1⟩ else none
  resolveFor _ := true

def sampleAction (operationId : String) : V3ModelAction := ⟨"m", "r", operationId⟩

/-- Everything works, at a reading of the clock. -/
def working (now : Nat) : Env := ⟨some now, true, true, true⟩

/-- Let a task take its next actions. -/
def advances (index count now : Nat) : List Event :=
  List.replicate count (.advance index (working now))

/-- A load and an unload that end before the next command starts, and a
download that is cancelled while its artifact arrives. -/
def sampleEvents : List Event :=
  .load (sampleAction "a") :: advances 0 11 1 ++ .unload (sampleAction "b") :: advances 1 8 2 ++
    .download (sampleAction "c") :: advances 2 6 3 ++ .cancel ⟨"m", "c"⟩ :: advances 3 3 4 ++
    advances 2 4 5

theorem ledger_is_truthful_sample : ∃ s : State,
    s.shared.writes.map (·.state) = [.queued, .running, .succeeded, .queued, .running, .succeeded,
      .queued, .running, .cancelled] ∧ Recorded .empty s.shared ∧ s.Truthful := by
  have hruns : (run (fun s e => if plain s e then next sampleRegistry s e else none)
      (initial .empty) sampleEvents).any (fun s => s.shared.writes.map (·.state) =
        [.queued, .running, .succeeded, .queued, .running, .succeeded, .queued, .running,
          .cancelled]) = true := by
    decide +kernel
  obtain ⟨s, hs, hwrites⟩ := (Option.any_eq_true _ _).mp hruns
  have hrun : Steps (next sampleRegistry) (fun s e => plain s e = true) (initial .empty) s :=
    steps_of_checked_run (fun _ _ h => h) hs
  have htruth := @ledger_is_truthful sampleRegistry .empty .empty 0 0 OperationsChecked.empty rfl
  exact ⟨s, of_decide_eq_true hwrites, htruth.1 s (hrun.mono (fun _ _ _ => trivial)),
    htruth.2 s hrun⟩

/-- Three runs that meet a gap.  A load has released its revision and is
still running when the next one is created; the clock goes back before a load
writes its last row; a load is cancelled after its model was loaded. -/
theorem ledger_misleads :
    (∃ s : State, Steps (next sampleRegistry) anyStep (initial .empty) s ∧ ¬ s.Truthful ∧
      s.shared.operations.rows.map (fun record => (record.operationId, record.state)) =
        [("a", .running), ("b", .queued)]) ∧
    (∃ s : State, Steps (next sampleRegistry) anyStep (initial .empty) s ∧ ¬ s.Truthful ∧
      s.shared.operations.rows.map (fun record => (record.operationId, record.state)) =
        [("a", .running)]) ∧
    ∃ s : State, Steps (next sampleRegistry) anyStep (initial .empty) s ∧ ¬ s.Truthful ∧
      s.shared.operations.rows.map (fun record => (record.operationId, record.state)) =
        [("a", .cancelled)] := by
  refine ⟨?_, ?_, ?_⟩
  · have hruns : (run (next sampleRegistry) (initial .empty)
        (.load (sampleAction "a") :: advances 0 9 1 ++
          .load (sampleAction "b") :: advances 1 2 1)).any (fun s =>
        s.shared.operations.rows = [⟨"a", "m", "r", .load, .running, 0, 1, 1⟩,
          ⟨"b", "m", "r", .load, .queued, 0, 1, 1⟩]) = true := by
      decide +kernel
    obtain ⟨s, hs, hrows⟩ := (Option.any_eq_true _ _).mp hruns
    have hrows' := of_decide_eq_true hrows
    refine ⟨s, steps_of_run hs, fun h => ?_, by rw [hrows']; rfl⟩
    have hsame := h.single ⟨"a", "m", "r", .load, .running, 0, 1, 1⟩ (by simp [hrows'])
      ⟨"b", "m", "r", .load, .queued, 0, 1, 1⟩ (by simp [hrows']) rfl rfl rfl rfl
    simp at hsame
  · have hruns : (run (next sampleRegistry) (initial .empty)
        (.load (sampleAction "a") :: advances 0 9 1 ++ advances 0 1 0)).any (fun s =>
        s.shared.operations.rows = [⟨"a", "m", "r", .load, .running, 0, 1, 1⟩] ∧
          s.tasks.all (fun task => match task with | .ended => true | _ => false)) = true := by
      decide +kernel
    obtain ⟨s, hs, hparts⟩ := (Option.any_eq_true _ _).mp hruns
    obtain ⟨hrows, htasks⟩ := of_decide_eq_true hparts
    refine ⟨s, steps_of_run hs, fun h => ?_, by rw [hrows]; rfl⟩
    have hended : ∀ task ∈ s.tasks, task = .ended := by
      intro task htask
      have hmatch := all_eq_true.mp htasks task htask
      cases task <;> first | rfl | cases hmatch
    have hterminal := h.ended hended ⟨"a", "m", "r", .load, .running, 0, 1, 1⟩ (by simp [hrows])
    cases hterminal
  · have hruns : (run (next sampleRegistry) (initial .empty)
        (.load (sampleAction "a") :: advances 0 8 1 ++ .cancel ⟨"m", "a"⟩ :: advances 1 3 2 ++
          advances 0 2 3)).any (fun s =>
        s.shared.operations.rows = [⟨"a", "m", "r", .load, .cancelled, 0, 1, 2⟩] ∧
          s.shared.loaded = {⟨"m", "r"⟩} ∧ replay s.shared.writes = ∅) = true := by
      decide +kernel
    obtain ⟨s, hs, hparts⟩ := (Option.any_eq_true _ _).mp hruns
    obtain ⟨hrows, hloaded, hreplay⟩ := of_decide_eq_true hparts
    refine ⟨s, steps_of_run hs, fun h => ?_, by rw [hrows]; rfl⟩
    have hsame := h.replayed (fun record hrecord => by
      rw [hrows, mem_singleton] at hrecord
      rw [hrecord]
      rfl)
    rw [hloaded, hreplay] at hsame
    exact absurd hsame (Finset.singleton_ne_empty _)

end Abbey.Models
