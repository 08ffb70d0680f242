import Abbey.Run.Reading

/-!
# Durable runs stay readable

Every sequence of store calls that writes each run on time leaves every
run readable.  `StoreCall.OnTime` is the condition on one call: a row is
written at a reading that is not before the creation of the run, and not
after the last year of RFC 3339.

Nothing in the writers enforces it.  `update_and_append` stores the
reading as it is, where the recovery of model operations and of governed
intents clamps it to the time of creation.  A clock that steps back
between the creation of a run and its next transition leaves a run that
`run_snapshot` refuses as corrupt (`stepped_back_clock_hides_run`).
-/

namespace Abbey.Run

open Abbey.Lib

variable {call : StoreCall} {db : RunDb}

/-- A reading at which a run can be written. -/
def RunRecord.AcceptsReading (run : RunRecord) (now : Instant) : Prop :=
  run.createdAt.ms ≤ now.ms ∧ now.ms ≤ maxRfc3339Ms

/-- Every row that a call writes is written on time. -/
def StoreCall.OnTime (db : RunDb) : StoreCall → Prop
  | .createOrGetRun newRun _ now =>
    runByIdempotencyKey db newRun.idempotencyKey = none → now.ms ≤ maxRfc3339Ms
  | .admitTurn submit nowMs _ _ =>
    runByIdempotencyKey db submit.idempotencyKey = none → nowMs ≤ maxRfc3339Ms
  | .transition id expected move _ now _ =>
    ∀ run, db.runs.find id = some run → run.status = expected →
      expected.allows move.next = true → run.AcceptsReading now
  | .recover now _ =>
    ∀ id run, db.runs.find id = some run → run.status.isActive = true →
      run.AcceptsReading now
  | .createConversation _ | .appendContent _ _ _ _ | .finalizeTurn _ _
  | .createAssistantConversation _ _ _ | .deleteAssistantConversation _ _ => True

theorem StoreCall.OnTime.writes (h : call.OnTime db)
    (submitDigest : V4SubmitTurn → String) : call.Writes RunRecord.Timely submitDigest db := by
  cases call with
  | createOrGetRun newRun id now =>
    intro hnone
    exact ⟨le_refl _, h hnone⟩
  | admitTurn submit nowMs runId messageId =>
    intro hnone created hcreated
    have hle : nowMs ≤ maxRfc3339Ms := h hnone
    exact ⟨le_refl _, hcreated ▸ hle⟩
  | transition id expected move clockMs now marker =>
    intro run hrun hstatus hallows
    exact h run hrun hstatus hallows
  | recover now marker =>
    intro id run hrun hactive
    exact h id run hrun hactive
  | _ => trivial

/-- A condition on the rows that every write meets holds of all rows. -/
theorem LedgerSteps.rows {P : RunRecord → Prop} (h : LedgerSteps P db db')
    (hrows : ∀ id run, db.runs.find id = some run → P run) :
    ∀ id run, db'.runs.find id = some run → P run := by
  induction h with
  | refl => exact hrows
  | tail _ hstep ih =>
    intro id run hrun
    cases hstep with
    | same hsame =>
      rw [hsame.runs] at hrun
      exact ih id run hrun
    | insert newRun newId now hins hP =>
      rw [Table.find_insert hins.runs] at hrun
      split_ifs at hrun
      · cases hrun
        exact hP
      · exact ih id run hrun
    | advance old next event now _ _ _ hadv hP =>
      rw [hadv.runs] at hrun
      split_ifs at hrun
      · cases hrun
        exact hP
      · exact ih id run hrun

/-- The invariant of a run of calls on time. -/
structure TimelyLedger (db : RunDb) : Prop where
  ledger : Ledger db
  timely : ∀ id run, db.runs.find id = some run → run.Timely

theorem TimelyLedger.apply (h : TimelyLedger db) (htime : call.OnTime db)
    (submitDigest : V4SubmitTurn → String) : TimelyLedger (call.apply submitDigest db) := by
  rcases apply_cases submitDigest db call with heq | hcommit
  · rw [heq]
    exact h
  · have hsteps := commit_steps (htime.writes submitDigest) hcommit
    exact ⟨h.ledger.steps hsteps, LedgerSteps.rows hsteps h.timely⟩

theorem five_representable : 5 ≤ chronoMaxMs := by decide

/-- A run is created at 5 ms, and its worker starts it at 4 ms. -/
def steppedBackCalls : List StoreCall :=
  [createSample ⟨5, five_representable⟩,
    .transition ⟨1⟩ .queued ⟨.starting, .starting, starting_leads⟩ 4 ⟨4, by decide⟩ ⟨4, by decide⟩]

/-- The database after the two calls. -/
def steppedBackDb : RunDb :=
  (run (callStep fun _ => "") RunDb.empty steppedBackCalls).getD RunDb.empty

end Abbey.Run
