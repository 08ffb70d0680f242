import Mathlib.Logic.Relation
import Abbey.Run.Evidence
import Abbey.Run.Writes

/-!
# The ledger invariant

What holds of the run tables after every sequence of lifecycle writes.

* `RunLedger` is what holds of one run: its events are numbered without
  gap, they record a walk through the lifecycle graph from `queued` to the
  status of the run, and the latest event carries the time of the row.
* `LedgerStep` is one write: nothing, a new run, or one move of one run.
  `Abbey.Run.Calls` takes every store call apart into such steps.
* `Ledger` is the invariant of the tables, and `Ledger.steps` says that
  every sequence of writes keeps it.
* `Extends` is what no write undoes: identities, events and the turn
  binding of a run stay, and a terminal run does not change.
-/

namespace Abbey.Run

open Abbey.Lib Table

variable {now : Instant} {newRun : NewRun} {event : NewRunEvent} {db db' : RunDb} {run : RunRecord}
  {P : RunRecord → Prop} {next : RunState}

/-! ## The invariant of one run -/

/-- The states that the events of a run record: a walk through the graph
from `queued` to the status. -/
structure History (db : RunDb) (run : RunRecord) (states : Nat → RunState) : Prop where
  start : states 1 = .queued
  last : states (run.nextEventSequence - 1) = run.status
  moves : ∀ k, 1 ≤ k → k + 1 < run.nextEventSequence →
    (states k).allows (states (k + 1)) = true
  records : ∀ k stored, db.runEvents.find (run.id, k) = some stored →
    Records stored (states k)

/-- The ledger of one run. -/
structure RunLedger (db : RunDb) (run : RunRecord) : Prop where
  two_le : 2 ≤ run.nextEventSequence
  present : ∀ k, 1 ≤ k → k < run.nextEventSequence →
    ∃ stored, db.runEvents.find (run.id, k) = some stored
  within : ∀ k stored, db.runEvents.find (run.id, k) = some stored →
    1 ≤ k ∧ k < run.nextEventSequence
  history : ∃ states, History db run states
  latest : ∀ stored, db.runEvents.find (run.id, run.nextEventSequence - 1) = some stored →
    stored.createdAt = run.updatedAt

/-- A walk of `k` events has climbed `k - 1` places. -/
theorem History.rank_le (h : History db run states) (k : Nat) (hk : 1 ≤ k)
    (hlt : k < run.nextEventSequence) : k ≤ (states k).rank + 1 := by
  induction k with
  | zero => omega
  | succ k ih =>
    by_cases hone : k = 0
    · subst hone
      omega
    · have hprev := ih (by omega) (by omega)
      have hmove := RunState.rank_lt_of_allows (h.moves k (by omega) hlt)
      omega

/-- A run has at most five events. -/
theorem RunLedger.next_le (h : RunLedger db run) : run.nextEventSequence ≤ run.status.rank + 2 := by
  obtain ⟨states, hstates⟩ := h.history
  have htwo := h.two_le
  have hrank := hstates.rank_le (run.nextEventSequence - 1) (by omega) (by omega)
  rw [hstates.last] at hrank
  omega

theorem RunLedger.next_le_six (h : RunLedger db run) : run.nextEventSequence ≤ 6 := by
  have hnext := h.next_le
  have hrank := run.status.rank_le_four
  omega

/-- The ledger of a run depends on its row and its events only. -/
theorem RunLedger.congr (h : RunLedger db run)
    (hevents : ∀ k, db'.runEvents.find (run.id, k) = db.runEvents.find (run.id, k)) :
    RunLedger db' run := by
  obtain ⟨states, hstates⟩ := h.history
  refine ⟨h.two_le, ?_, ?_, ⟨states, hstates.start, hstates.last, hstates.moves, ?_⟩, ?_⟩
  · intro k hk hlt
    rw [hevents k]
    exact h.present k hk hlt
  · intro k stored hstored
    rw [hevents k] at hstored
    exact h.within k stored hstored
  · intro k stored hstored
    rw [hevents k] at hstored
    exact hstates.records k stored hstored
  · intro stored hstored
    rw [hevents] at hstored
    exact h.latest stored hstored

/-- One move appends one event and climbs along the graph. -/
theorem RunLedger.advance (h : RunLedger db run) (hallows : run.status.allows next)
    (hrecords : Records (storedEvent run event now) next)
    (hinsert : db.runEvents.insert? (storedEvent run event now) = some db'.runEvents) :
    RunLedger db' (run.advance next now) := by
  have htwo := h.two_le
  have hfind : ∀ k, db'.runEvents.find (run.id, k) =
      if k = run.nextEventSequence then some (storedEvent run event now)
      else db.runEvents.find (run.id, k) := by
    intro k
    rw [find_insert hinsert]
    have hkey : ((storedEvent run event now).key = (run.id, k)) ↔ k = run.nextEventSequence := by
      simp [RunEvent.key, storedEvent, eq_comm]
    simp only [hkey]
  have hfind' : ∀ k, db'.runEvents.find ((run.advance next now).id, k) =
      if k = run.nextEventSequence then some (storedEvent run event now)
      else db.runEvents.find (run.id, k) := hfind
  have hnext : (run.advance next now).nextEventSequence = run.nextEventSequence + 1 := rfl
  obtain ⟨states, hstates⟩ := h.history
  refine ⟨by omega, ?_, ?_,
    ⟨fun k => if k = run.nextEventSequence then next else states k, ?_, ?_, ?_, ?_⟩, ?_⟩
  · intro k hk hlt
    rw [hfind']
    split_ifs with heq
    · exact ⟨_, rfl⟩
    · exact h.present k hk (by omega)
  · intro k stored hstored
    rw [hfind'] at hstored
    split_ifs at hstored with heq
    · omega
    · have hk := h.within k stored hstored
      omega
  · have hone : ¬ 1 = run.nextEventSequence := by omega
    simp only [hone, if_false]
    exact hstates.start
  · simp [RunRecord.advance]
  · intro k hk hlt
    have hk' : ¬ k = run.nextEventSequence := by omega
    simp only [hk', if_false]
    by_cases hlast : k + 1 = run.nextEventSequence
    · simp only [hlast, if_true]
      have hpred : k = run.nextEventSequence - 1 := by omega
      rw [hpred, hstates.last]
      exact hallows
    · simp only [hlast, if_false]
      exact hstates.moves k hk (by omega)
  · intro k stored hstored
    rw [hfind'] at hstored
    split_ifs at hstored with heq
    · cases hstored
      simp only [heq, if_true]
      exact hrecords
    · simp only [heq, if_false]
      exact hstates.records k stored hstored
  · intro stored hstored
    rw [hfind', hnext, Nat.add_sub_cancel, if_pos rfl] at hstored
    cases hstored
    rfl

/-- A new run has a ledger of one event. -/
theorem RunLedger.ofInsert {id : RunId}
    (hfree : ∀ k stored, db.runEvents.find (id, k) = some stored → False)
    (hinsert : db.runEvents.insert? (queuedEvent id now) = some db'.runEvents) :
    RunLedger db' (queuedRun newRun id now) := by
  have hfind : ∀ k, db'.runEvents.find ((queuedRun newRun id now).id, k) =
      if k = 1 then some (queuedEvent id now) else none := by
    intro k
    have hkey : ((queuedEvent id now).key = (id, k)) ↔ k = 1 := by
      simp [RunEvent.key, queuedEvent, eq_comm]
    show db'.runEvents.find (id, k) = _
    rw [find_insert hinsert]
    simp only [hkey]
    split_ifs
    · rfl
    · cases hk : db.runEvents.find (id, k) with
      | none => rfl
      | some stored => exact absurd hk (fun h => hfree k stored h)
  have hnext : (queuedRun newRun id now).nextEventSequence = 2 := rfl
  refine ⟨le_of_eq hnext.symm, ?_, ?_, ⟨fun _ => .queued, rfl, rfl, ?_, ?_⟩, ?_⟩
  · intro k hk hlt
    have hone : k = 1 := by omega
    rw [hfind, if_pos hone]
    exact ⟨_, rfl⟩
  · intro k stored hstored
    rw [hfind] at hstored
    split_ifs at hstored with hone
    omega
  · intro k hk hlt
    omega
  · intro k stored hstored
    rw [hfind] at hstored
    split_ifs at hstored
    cases hstored
    exact records_queued id now
  · intro stored hstored
    rw [hfind, hnext, if_pos rfl] at hstored
    cases hstored
    rfl

/-! ## Steps of the ledger -/

/-- The tables of the ledger are the same. -/
structure SameLedger (db db' : RunDb) : Prop where
  runs : db'.runs = db.runs
  runEvents : db'.runEvents = db.runEvents
  assistantTurns : db'.assistantTurns = db.assistantTurns

theorem SameRuns.sameLedger (h : SameRuns db db') : SameLedger db db' :=
  ⟨h.runs, h.runEvents, h.assistantTurns⟩

/-- A new run under a free key, with a turn binding or without. -/
structure Inserted (db db' : RunDb) (newRun : NewRun) (id : RunId) (now : Instant) : Prop where
  unknown : runByIdempotencyKey db newRun.idempotencyKey = none
  runs : db.runs.insert? (queuedRun newRun id now) = some db'.runs
  runEvents : db.runEvents.insert? (queuedEvent id now) = some db'.runEvents
  assistantTurns : db'.assistantTurns = db.assistantTurns ∨
    ∃ turn : AssistantTurn, turn.runId = id ∧
      newRun.conversationId = some turn.conversationId ∧
      (0 < turn.userSequence ∧ turn.userSequence ≤ maxSafeInteger) ∧
      db.assistantTurns.insert? turn = some db'.assistantTurns

/-- One change of the ledger.  `P` is a condition on the row it writes. -/
inductive LedgerStep (P : RunRecord → Prop) (db db' : RunDb) : Prop where
  | same (h : SameLedger db db')
  | insert (newRun : NewRun) (id : RunId) (now : Instant)
      (h : Inserted db db' newRun id now) (hP : P (queuedRun newRun id now))
  | advance (run : RunRecord) (next : RunState) (event : NewRunEvent) (now : Instant)
      (hrun : db.runs.find run.id = some run) (hallows : run.status.allows next = true)
      (hrecords : Records (storedEvent run event now) next)
      (h : Advanced db db' run next event now) (hP : P (run.advance next now))

/-- Several changes, each with the condition. -/
abbrev LedgerSteps (P : RunRecord → Prop) : RunDb → RunDb → Prop :=
  Relation.ReflTransGen (LedgerStep P)

/-- The invariant of the ledger. -/
structure Ledger (db : RunDb) : Prop where
  run : ∀ id run, db.runs.find id = some run → RunLedger db run
  owned : ∀ key stored, db.runEvents.find key = some stored →
    ∃ run, db.runs.find key.1 = some run
  keys : ∀ id id' run run', db.runs.find id = some run → db.runs.find id' = some run' →
    run.idempotencyKey = run'.idempotencyKey → id = id'
  turns : ∀ id turn, db.assistantTurns.find id = some turn →
    (0 < turn.userSequence ∧ turn.userSequence ≤ maxSafeInteger) ∧
    ∃ run, db.runs.find id = some run ∧ run.conversationId = some turn.conversationId

theorem Ledger.empty : Ledger RunDb.empty := by
  refine ⟨?_, ?_, ?_, ?_⟩ <;> intros <;> simp_all [RunDb.empty]

theorem Ledger.same (h : Ledger db) (hsame : SameLedger db db') : Ledger db' := by
  refine ⟨?_, ?_, ?_, ?_⟩
  · intro id run hrun
    rw [hsame.runs] at hrun
    exact (h.run id run hrun).congr (fun k => by rw [hsame.runEvents])
  · intro key stored hstored
    rw [hsame.runEvents] at hstored
    rw [hsame.runs]
    exact h.owned key stored hstored
  · intro id id' run run' hrun hrun'
    rw [hsame.runs] at hrun hrun'
    exact h.keys id id' run run' hrun hrun'
  · intro id turn hturn
    rw [hsame.assistantTurns] at hturn
    rw [hsame.runs]
    exact h.turns id turn hturn

theorem Ledger.insert {id : RunId} (h : Ledger db) (hins : Inserted db db' newRun id now) :
    Ledger db' := by
  have hnone : db.runs.find id = none := (insert?_eq_some_iff.mp hins.runs).1
  have hfree : ∀ k stored, db.runEvents.find (id, k) = some stored → False := by
    intro k stored hstored
    obtain ⟨run, hrun⟩ := h.owned _ _ hstored
    rw [hnone] at hrun
    cases hrun
  have hruns : ∀ id', db'.runs.find id' =
      if id = id' then some (queuedRun newRun id now) else db.runs.find id' :=
    fun id' => find_insert hins.runs id'
  refine ⟨?_, ?_, ?_, ?_⟩
  · intro id' run hrun
    rw [hruns] at hrun
    split_ifs at hrun with hid
    · cases hrun
      exact RunLedger.ofInsert hfree hins.runEvents
    · refine (h.run id' run hrun).congr (fun k => ?_)
      have hrid : run.id = id' := pk_of_find hrun
      rw [find_insert hins.runEvents, if_neg]
      intro hkey
      exact hid ((congrArg Prod.fst hkey).trans hrid)
  · intro key stored hstored
    rw [find_insert hins.runEvents] at hstored
    rw [hruns]
    split_ifs at hstored with hkey
    · have hid : id = key.1 := congrArg Prod.fst hkey
      rw [if_pos hid]
      exact ⟨_, rfl⟩
    · split_ifs
      · exact ⟨_, rfl⟩
      · exact h.owned key stored hstored
  · have hother := runByIdempotencyKey_eq_none.mp hins.unknown
    intro id₁ id₂ run₁ run₂ hrun₁ hrun₂ hkey
    rw [hruns] at hrun₁ hrun₂
    split_ifs at hrun₁ hrun₂ with h₁ h₂ h₂
    · exact h₁.symm.trans h₂
    · cases hrun₁
      exact absurd hkey.symm (hother _ _ hrun₂)
    · cases hrun₂
      exact absurd hkey (hother _ _ hrun₁)
    · exact h.keys _ _ _ _ hrun₁ hrun₂ hkey
  · intro id' turn hturn
    rw [hruns]
    have hold : db.assistantTurns.find id' = some turn →
        (0 < turn.userSequence ∧ turn.userSequence ≤ maxSafeInteger) ∧
        ∃ run, (if id = id' then some (queuedRun newRun id now) else db.runs.find id') =
          some run ∧ run.conversationId = some turn.conversationId := by
      intro hturn
      obtain ⟨hseq, run, hrun, hconv⟩ := h.turns id' turn hturn
      refine ⟨hseq, run, ?_, hconv⟩
      rw [if_neg, hrun]
      intro hid
      rw [← hid, hnone] at hrun
      cases hrun
    rcases hins.assistantTurns with hsame | ⟨new, hnew, hconv, hseq, hturns⟩
    · rw [hsame] at hturn
      exact hold hturn
    · rw [find_insert hturns] at hturn
      split_ifs at hturn with hid
      · cases hturn
        rw [if_pos (hnew.symm.trans hid)]
        exact ⟨hseq, _, rfl, hconv⟩
      · exact hold hturn

theorem Ledger.advance (h : Ledger db) (hrun : db.runs.find run.id = some run)
    (hallows : run.status.allows next) (hrecords : Records (storedEvent run event now) next)
    (hadv : Advanced db db' run next event now) : Ledger db' := by
  refine ⟨?_, ?_, ?_, ?_⟩
  · intro id row hrow
    rw [hadv.runs] at hrow
    split_ifs at hrow with hid
    · cases hrow
      exact (h.run _ _ hrun).advance hallows hrecords hadv.runEvents
    · refine (h.run id row hrow).congr (fun k => ?_)
      have hrid : row.id = id := pk_of_find hrow
      rw [find_insert hadv.runEvents, if_neg]
      intro hkey
      exact hid (hrid.symm.trans (congrArg Prod.fst hkey).symm)
  · intro key stored hstored
    rw [hadv.runs]
    split_ifs with hid
    · exact ⟨_, rfl⟩
    · rw [find_insert hadv.runEvents, if_neg] at hstored
      · exact h.owned key stored hstored
      · intro hkey
        exact hid (congrArg Prod.fst hkey).symm
  · have hrow : ∀ id row, db'.runs.find id = some row →
        ∃ old, db.runs.find id = some old ∧ row.idempotencyKey = old.idempotencyKey := by
      intro id row hrow
      rw [hadv.runs] at hrow
      split_ifs at hrow with hid
      · cases hrow
        exact ⟨run, by rw [hid]; exact hrun, rfl⟩
      · exact ⟨row, hrow, rfl⟩
    intro id₁ id₂ row₁ row₂ hrow₁ hrow₂ hkey
    obtain ⟨old₁, hold₁, hkey₁⟩ := hrow _ _ hrow₁
    obtain ⟨old₂, hold₂, hkey₂⟩ := hrow _ _ hrow₂
    exact h.keys _ _ _ _ hold₁ hold₂ (hkey₁.symm.trans (hkey.trans hkey₂))
  · intro id turn hturn
    rw [hadv.assistantTurns] at hturn
    obtain ⟨hseq, row, hrow, hconv⟩ := h.turns id turn hturn
    rw [hadv.runs]
    refine ⟨hseq, ?_⟩
    split_ifs with hid
    · rw [hid, hrun] at hrow
      cases hrow
      exact ⟨_, rfl, hconv⟩
    · exact ⟨row, hrow, hconv⟩

theorem Ledger.step (h : Ledger db) (hstep : LedgerStep P db db') : Ledger db' := by
  cases hstep with
  | same hsame => exact h.same hsame
  | insert newRun id now hins _ => exact h.insert hins
  | advance run next event now hrun hallows hrecords hadv _ =>
    exact h.advance hrun hallows hrecords hadv

theorem Ledger.steps (h : Ledger db) (hsteps : LedgerSteps P db db') : Ledger db' := by
  induction hsteps with
  | refl => exact h
  | tail _ hstep ih => exact ih.step hstep

/-! ## What no write undoes -/

/-- A later row of the same run. -/
structure RunRecord.Later (run run' : RunRecord) : Prop where
  id : run'.id = run.id
  conversationId : run'.conversationId = run.conversationId
  idempotencyKey : run'.idempotencyKey = run.idempotencyKey
  requestDigest : run'.requestDigest = run.requestDigest
  createdAt : run'.createdAt = run.createdAt
  next_le : run.nextEventSequence ≤ run'.nextEventSequence
  rank_le : run.status.rank ≤ run'.status.rank
  same : run'.nextEventSequence = run.nextEventSequence → run' = run
  terminal : run.status.isTerminal = true → run' = run

namespace RunRecord.Later

theorem refl (run : RunRecord) : run.Later run :=
  ⟨rfl, rfl, rfl, rfl, rfl, le_refl _, le_refl _, fun _ => rfl, fun _ => rfl⟩

theorem trans (h : run.Later run') (h' : run'.Later run'') : run.Later run'' := by
  refine ⟨h'.id.trans h.id, h'.conversationId.trans h.conversationId,
    h'.idempotencyKey.trans h.idempotencyKey, h'.requestDigest.trans h.requestDigest,
    h'.createdAt.trans h.createdAt, h.next_le.trans h'.next_le,
    h.rank_le.trans h'.rank_le, ?_, ?_⟩
  · intro hnext
    have hle := h.next_le
    have hle' := h'.next_le
    have hmid : run' = run := h.same (by omega)
    subst hmid
    exact h'.same hnext
  · intro hterminal
    have hmid := h.terminal hterminal
    subst hmid
    exact h'.terminal hterminal

theorem advance (now : Instant) (hallows : run.status.allows next) :
    run.Later (run.advance next now) := by
  refine ⟨rfl, rfl, rfl, rfl, rfl, Nat.le_succ _,
    Nat.le_of_lt (RunState.rank_lt_of_allows hallows), ?_, ?_⟩
  · intro hnext
    have hsucc : (run.advance next now).nextEventSequence = run.nextEventSequence + 1 := rfl
    omega
  · intro hterminal
    rw [RunState.not_isTerminal_of_allows hallows] at hterminal
    cases hterminal

end RunRecord.Later

/-- What every later database keeps. -/
structure Extends (db db' : RunDb) : Prop where
  runs : ∀ id run, db.runs.find id = some run →
    ∃ run', db'.runs.find id = some run' ∧ run.Later run'
  runEvents : ∀ key stored, db.runEvents.find key = some stored →
    db'.runEvents.find key = some stored
  turns : ∀ id run, db.runs.find id = some run →
    db'.assistantTurns.find id = db.assistantTurns.find id

namespace Extends

theorem refl (db : RunDb) : Extends db db :=
  ⟨fun _ run h => ⟨run, h, .refl run⟩, fun _ _ h => h, fun _ _ _ => rfl⟩

theorem trans (h : Extends db db') (h' : Extends db' db'') : Extends db db'' := by
  refine ⟨?_, fun key stored hs => h'.runEvents _ _ (h.runEvents _ _ hs), ?_⟩
  · intro id run hrun
    obtain ⟨mid, hmid, hlater⟩ := h.runs id run hrun
    obtain ⟨last, hlast, hlater'⟩ := h'.runs id mid hmid
    exact ⟨last, hlast, hlater.trans hlater'⟩
  · intro id run hrun
    obtain ⟨mid, hmid, _⟩ := h.runs id run hrun
    rw [h'.turns id mid hmid, h.turns id run hrun]

theorem step (hstep : LedgerStep P db db') : Extends db db' := by
  cases hstep with
  | same hsame =>
    refine ⟨?_, ?_, ?_⟩
    · intro id run hrun
      rw [hsame.runs]
      exact ⟨run, hrun, .refl run⟩
    · intro key stored hstored
      rw [hsame.runEvents]
      exact hstored
    · intro id run _
      rw [hsame.assistantTurns]
  | insert newRun id now hins _ =>
    refine ⟨?_, ?_, ?_⟩
    · intro id' run hrun
      exact ⟨run, find_insert_of_some hins.runs hrun, .refl run⟩
    · intro key stored hstored
      exact find_insert_of_some hins.runEvents hstored
    · intro id' run hrun
      have hnone : db.runs.find id = none := (insert?_eq_some_iff.mp hins.runs).1
      rcases hins.assistantTurns with hsame | ⟨turn, hturn, _, _, hturns⟩
      · rw [hsame]
      · rw [find_insert hturns, if_neg]
        intro hid
        rw [← hid, hturn, hnone] at hrun
        cases hrun
  | advance run next event now hrun hallows _ hadv _ =>
    refine ⟨?_, ?_, ?_⟩
    · intro id row hrow
      rw [hadv.runs]
      split_ifs with hid
      · rw [hid, hrun] at hrow
        cases hrow
        exact ⟨_, rfl, .advance now hallows⟩
      · exact ⟨row, hrow, .refl row⟩
    · intro key stored hstored
      exact find_insert_of_some hadv.runEvents hstored
    · intro id row _
      rw [hadv.assistantTurns]

theorem steps (h : LedgerSteps P db db') : Extends db db' := by
  induction h with
  | refl => exact .refl db
  | tail _ hstep ih => exact ih.trans (.step hstep)

end Extends

end Abbey.Run
