import Abbey.Run.Projected

/-!
# Messages that follow their run

Two writers set the `state` column of `assistant_messages`.  The
projection of a transition writes the state that the run moves to, in the
transaction of the move.  A streamed delta writes `running`, whatever the
state of the run is.  Both leave the messages in step with the run as long
as deltas are streamed while the run is running (`messages_mirror_runs`);
a delta that comes after a cancellation was requested does not
(`delta_after_cancel_request`).
-/

namespace Abbey.Run

open Abbey.Lib Table Option

variable {turn : AssistantTurn} {run : RunRecord}

/-- Every message shows the status of its run. -/
def Mirrors (db : RunDb) : Prop :=
  ∀ m ∈ db.assistantMessages.rows, ∃ run, db.runs.find m.runId = some run ∧ m.state = run.status

/-- Deltas are streamed while the run is running. -/
def streaming : AppendCond := fun _ run payload =>
  ∀ text, payload = .textDelta text → run.status = .running

/-- The messages with the bindings that a projection looks up. -/
structure Mirrored (db : RunDb) : Prop where
  state : ∀ id m, db.assistantMessages.find id = some m →
    ∃ run, db.runs.find m.runId = some run ∧ m.state = run.status
  bound : ∀ id m, db.assistantMessages.find id = some m →
    ∃ turn, db.assistantTurns.find m.runId = some turn

theorem Mirrored.mirrors (h : Mirrored db) : Mirrors db :=
  fun m hm => h.state m.id m (mem_rows_iff_find.mp hm)

theorem Mirrored.empty : Mirrored .empty := by
  constructor <;> simp [RunDb.empty]

variable {submitDigest : V4SubmitTurn → String} {db db' : RunDb}

/-- The runs and turns of the messages that stay are still there. -/
theorem Mirrored.keep (h : Mirrored db)
    (hmessages : ∀ id m, db'.assistantMessages.find id = some m →
      db.assistantMessages.find id = some m)
    (hruns : ∀ id run, db.runs.find id = some run → db'.runs.find id = some run)
    (hturns : ∀ id turn, db.assistantTurns.find id = some turn →
      db'.assistantTurns.find id = some turn) : Mirrored db' := by
  constructor
  · intro id m hm
    obtain ⟨run, hrun, hstate⟩ := h.state id m (hmessages id m hm)
    exact ⟨run, hruns _ _ hrun, hstate⟩
  · intro id m hm
    obtain ⟨turn, hturn⟩ := h.bound id m (hmessages id m hm)
    exact ⟨turn, hturns _ _ hturn⟩

/-- Messages of one run are rewritten to its status. -/
theorem Mirrored.rewrite (h : Mirrored db) (rid : RunId)
    (run' : RunRecord) (hmessages : db'.assistantMessages = db.assistantMessages.modify p f hf)
    (hp : ∀ m, p m → m.runId = rid) (hrun' : db'.runs.find rid = some run')
    (hfm : ∀ m, (f m).runId = m.runId ∧ (f m).state = run'.status)
    (hother : ∀ m, p m = false → ∀ run, db.runs.find m.runId = some run →
      m.state = run.status → (db.assistantTurns.find m.runId).isSome →
      ∃ run, db'.runs.find m.runId = some run ∧ m.state = run.status)
    (hturns : db'.assistantTurns = db.assistantTurns) : Mirrored db' := by
  constructor
  · intro id m hm
    rw [hmessages, find_modify, map_eq_some_iff] at hm
    obtain ⟨old, hold, rfl⟩ := hm
    by_cases hpold : p old
    · rw [if_pos hpold, (hfm old).1, (hfm old).2, hp old hpold]
      exact ⟨run', hrun', rfl⟩
    · rw [if_neg hpold]
      obtain ⟨run, hrun, hstate⟩ := h.state id old hold
      obtain ⟨turn, hturn⟩ := h.bound id old hold
      exact hother old (by simpa using hpold) run hrun hstate (by simp [hturn])
  · intro id m hm
    rw [hmessages, find_modify, map_eq_some_iff] at hm
    obtain ⟨old, hold, rfl⟩ := hm
    have hrunId : (if p old then f old else old).runId = old.runId := by
      split_ifs
      · exact (hfm old).1
      · rfl
    rw [hrunId, hturns]
    exact h.bound id old hold

/-- A new message of a run under its status. -/
theorem Mirrored.insert (h : Mirrored db)
    (hmessages : db.assistantMessages.insert? m = some db'.assistantMessages)
    (hruns : ∀ id run, db.runs.find id = some run → db'.runs.find id = some run)
    (hturns : ∀ id turn, db.assistantTurns.find id = some turn → db'.assistantTurns.find id =
      some turn) (hrun : db'.runs.find m.runId = some run) (hstate : m.state = run.status)
    (hturn : db'.assistantTurns.find m.runId = some turn) : Mirrored db' := by
  constructor
  · intro id found hfound
    rw [find_insert hmessages] at hfound
    split_ifs at hfound
    · cases hfound
      exact ⟨run, hrun, hstate⟩
    · obtain ⟨old, hold, hold'⟩ := h.state id found hfound
      exact ⟨old, hruns _ _ hold, hold'⟩
  · intro id found hfound
    rw [find_insert hmessages] at hfound
    split_ifs at hfound
    · cases hfound
      exact ⟨turn, hturn⟩
    · obtain ⟨old, hold⟩ := h.bound id found hfound
      exact ⟨old, hturns _ _ hold⟩

theorem Mirrored.moved (h : Mirrored db) (hruns : ∀ id, db'.runs.find id = if id =
      run.id then some (run.advance next now) else db.runs.find id)
    (hturns : db'.assistantTurns = db.assistantTurns) (hprojected : Projected db db' run.id next) :
    Mirrored db' := by
  have hself : db'.runs.find run.id = some (run.advance next now) := by
    rw [hruns, if_pos rfl]
  have hother : ∀ m : AssistantMessage, m.runId ≠ run.id → ∀ row,
      db.runs.find m.runId = some row → m.state = row.status →
      ∃ row, db'.runs.find m.runId = some row ∧ m.state = row.status := by
    intro m hne row hrow hstate
    rw [hruns, if_neg hne]
    exact ⟨row, hrow, hstate⟩
  have hsettled : db'.assistantMessages = settleAll db run.id next → Mirrored db' := by
    intro hmessages
    refine h.rewrite run.id _ hmessages (fun m hm => by simpa using hm) hself (fun m => ⟨rfl, rfl⟩) ?_
      hturns
    intro m hm row hrow hstate _
    exact hother m (by simpa using hm) row hrow hstate
  cases hprojected with
  | unbound unbound messages _ =>
    -- no message belongs to the run: it would have a turn
    have hne : ∀ id m, db.assistantMessages.find id = some m → m.runId ≠ run.id := by
      intro id m hm heq
      obtain ⟨turn, hturn⟩ := h.bound id m hm
      rw [heq, unbound] at hturn
      cases hturn
    constructor
    · intro id m hm
      rw [messages] at hm
      obtain ⟨row, hrow, hstate⟩ := h.state id m hm
      exact hother m (hne id m hm) row hrow hstate
    · intro id m hm
      rw [messages] at hm
      rw [hturns]
      exact h.bound id m hm
  | open_ _ _ messages | marked _ _ messages | full _ _ messages => exact hsettled messages

/-- A delta of a running run. -/
theorem Mirrored.previewed (h : Mirrored db)
    (hrun : db.runs.find turn.runId = some run) (hstatus : run.status = .running)
    (hturn : db.assistantTurns.find turn.runId = some turn) (hruns : db'.runs = db.runs)
    (hturns : db'.assistantTurns = db.assistantTurns) (hpreviewed : Previewed db db' turn text) :
    Mirrored db' := by
  cases hpreviewed with
  | extended m _ messages =>
    refine h.rewrite turn.runId run messages ?_ ?_ ?_ ?_ hturns
    · intro m hm
      have hboth : m.runId = turn.runId ∧ m.role = .assistant := by simpa using hm
      exact hboth.1
    · rw [hruns]
      exact hrun
    · exact fun m => ⟨rfl, hstatus.symm⟩
    · intro m _ row hrow hstate _
      rw [hruns]
      exact ⟨row, hrow, hstate⟩
  | started _ messageId now messages =>
    have hrun' : db'.runs.find turn.runId = some run := by
      rw [hruns]
      exact hrun
    have hturn' : db'.assistantTurns.find turn.runId = some turn := by
      rw [hturns]
      exact hturn
    refine h.insert messages (fun id row hrow => ?_) (fun id found hfound => ?_) hrun'
      hstatus.symm hturn'
    · rw [hruns]
      exact hrow
    · rw [hturns]
      exact hfound

/-- Every write keeps the messages in step. -/
theorem Mirrored.write {s s' : Turns} (h : Mirrored s.db)
    (hwrite : TurnWrite submitDigest streaming s s') : Mirrored s'.db := by
  cases hwrite with
  | identity runs turns messages contents deleted _ =>
    refine h.keep ?_ ?_ ?_
    · rw [messages]
      exact fun _ _ hm => hm
    · rw [runs]
      exact fun _ _ hrun => hrun
    · rw [turns]
      exact fun _ _ hturn => hturn
  | run newRun id now runs turns messages contents deleted _ =>
    refine h.keep ?_ (fun _ _ hrun => find_insert_of_some runs hrun) ?_
    · rw [messages]
      exact fun _ _ hm => hm
    · rw [turns]
      exact fun _ _ hturn => hturn
  | opened submit id messageId created hopened _ =>
    exact h.insert hopened.messages (fun _ _ hrun => find_insert_of_some hopened.runs hrun)
      (fun _ _ hturn => find_insert_of_some hopened.turns hturn)
      (find_insert_self hopened.runs) rfl (find_insert_self hopened.turns)
  | moved run next now found allows runs turns deleted projected _ =>
    exact h.moved runs turns projected
  | appended run turn payload nowMs found active cond bound stored runs turns deleted
      preview silent _ =>
    by_cases hdelta : ∃ text, payload = .textDelta text
    · obtain ⟨text, htext⟩ := hdelta
      exact h.previewed found (cond text htext) bound runs turns (preview text htext).1
    · have hsilent := silent (fun text htext => hdelta ⟨text, htext⟩)
      refine h.keep ?_ ?_ ?_
      · rw [hsilent]
        exact fun _ _ hm => hm
      · rw [runs]
        exact fun _ _ hrun => hrun
      · rw [turns]
        exact fun _ _ hturn => hturn
  | finalized run found terminal runs turns messages contents deleted _ =>
    refine h.rewrite run.id run messages ?_ ?_ ?_ ?_ turns
    · intro m hm
      have hboth : m.runId = run.id ∧ m.role = .assistant := by simpa using hm
      exact hboth.1
    · rw [runs]
      exact found
    · exact fun m => ⟨rfl, rfl⟩
    · intro m _ row hrow hstate _
      rw [runs]
      exact ⟨row, hrow, hstate⟩
  | deleted cid idle runs turns messages contents deleted _ =>
    refine h.keep ?_ ?_ ?_
    · intro id m hm
      rw [messages, find_delete, filter_eq_some_iff] at hm
      exact hm.1
    · rw [runs]
      exact fun _ _ hrun => hrun
    · rw [turns]
      exact fun _ _ hturn => hturn

/-- In every run of calls whose deltas are streamed to running runs, every
message shows the status of its run. -/
theorem messages_mirror_runs (submitDigest : V4SubmitTurn → String) {db : RunDb}
    (h : Steps (callStep submitDigest) (fun db call => call.Appends streaming db) .empty db) :
    Mirrors db :=
  (reachable_invariant Mirrored.empty (fun _ _ hdb hwrite => hdb.write hwrite) h).mirrors

/-! ## A delta after a cancellation request -/

/-- `Appends streaming` as a check. -/
def streamsNow (db : RunDb) : StoreCall → Bool
  | .appendContent id (.textDelta _) _ _ =>
    (db.runs.find id).all (fun run => run.status.isTerminal || run.status = .running)
  | _ => true

theorem appends_of_streamsNow (db : RunDb) (call : StoreCall) (h : streamsNow db call) :
    call.Appends streaming db := by
  cases call with
  | appendContent id payload nowMs messageId =>
    intro run hrun hactive text htext
    subst htext
    simpa [streamsNow, hrun, hactive] using h
  | _ => trivial

theorem messages_mirror_runs_streamed :
    Steps (callStep (fun _ => "")) (fun db call => call.Appends streaming db) .empty
        (applyCalls streamedCalls) ∧ (applyCalls streamedCalls).assistantMessages.rows.length = 2 ∧
      Mirrors (applyCalls streamedCalls) := by
  have hrun : run (fun db call => if streamsNow db call then callStep (fun _ => "") db call
      else none) .empty streamedCalls = some (applyCalls streamedCalls) := by rfl
  have hsteps := steps_of_checked_run appends_of_streamsNow hrun
  exact ⟨hsteps, by decide +kernel, messages_mirror_runs _ hsteps⟩

theorem cancelRequested_leads : Evidence.leadsTo .cancelRequested .cancelRequested = true := rfl

theorem nine_representable : 9 ≤ chronoMaxMs := by decide

/-- The worker streams one more delta after the client asked to cancel. -/
def cancelledCalls : List StoreCall :=
  streamedCalls ++
    [moveRun ⟨1⟩ .running ⟨.cancelRequested, .cancelRequested, cancelRequested_leads⟩ 9
      nine_representable,
      .appendContent ⟨1⟩ (.textDelta " there") 10 3]

/-- The reply then shows `running` although the run waits for its
cancellation. -/
theorem delta_after_cancel_request : ¬ ∀ (submitDigest : V4SubmitTurn → String) (db : RunDb),
    Steps (callStep submitDigest) anyStep .empty db → Mirrors db := by
  intro hall
  have hmirrors := hall (fun _ => "") _ (steps_of_run (run_callStep .empty cancelledCalls))
  have hshown : (applyAll (fun _ => "") .empty cancelledCalls).assistantMessages.rows.any
      (fun m => m.runId = ⟨1⟩ && m.state = .running) = true := by decide +kernel
  have hrun : ((applyAll (fun _ => "") .empty cancelledCalls).runs.find ⟨1⟩).map
      RunRecord.status = some .cancelRequested := by decide +kernel
  obtain ⟨m, hm, hstate⟩ := List.any_eq_true.mp hshown
  simp only [Bool.and_eq_true, decide_eq_true_eq] at hstate
  obtain ⟨run, hfound, hsame⟩ := hmirrors m hm
  rw [hstate.1] at hfound
  rw [hfound, Option.map_some, ← hsame, hstate.2] at hrun
  cases hrun

end Abbey.Run
