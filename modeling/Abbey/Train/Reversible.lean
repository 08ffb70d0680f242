import Abbey.Train.Codec
import Abbey.Train.Evidence

/-!
# Rollbacks are reversible

Each command keeps `Consistent` at every safe cut: the new artifact is under
a new path, the pointer is moved when the artifact is in place, and the row
of a run is there when the pointer names it.  What the ledger says about a
run is what `rollback --to` needs to bring it back.
-/

namespace Abbey.Train

open Abbey.Lib List LedgerRow System Command
open Abbey.Learning (Bytes)
open Abbey.Provider (Floating)

variable {F : Type} {crates : Crates F} {stateDir : String}
variable {row : LedgerRow F}

/-! ## The commands -/

section Commands

variable {used : List String} {rows : List (LedgerRow F)} {d : TrainDir} {k : Nat}
variable {artifact : Bytes} {installed : List FileStep} {current : Option (CurrentArtifact F)}
  {request : RunRequest F}

theorem cmdPrepare_cases (crates : Crates F) (stateDir : String) (request : PrepareRequest) :
    (∃ error, cmdPrepare crates stateDir request = ⟨[], .error error⟩) ∨
      ∃ row : LedgerRow F, row.op = "prepare" ∧ row.Exact crates ∧
        cmdPrepare crates stateDir request = ⟨append crates row, .ok (row.stamped crates)⟩ := by
  unfold cmdPrepare
  cases checkPrepare request with
  | error error => exact .inl ⟨error, rfl⟩
  | ok checked =>
    obtain ⟨consent, prepared⟩ := checked
    refine .inr ⟨prepareRow stateDir request consent prepared, ?_, ⟨?_, ?_⟩, rfl⟩
    · simp [prepareRow, preparedRow, new]
    · simp [prepareRow, preparedRow, new]
    · simp [prepareRow, preparedRow, new]

theorem prepare_consistent (h : Consistent crates stateDir used rows d) (request : PrepareRequest)
    (hcut : Cut crates d (.prepare request)
      ((cmdPrepare crates stateDir request).steps.take k)
      ((cmdPrepare crates stateDir request).steps.drop k)) :
    Consistent crates stateDir used (rowsAfter rows (cmdPrepare crates stateDir request) k)
      (applyAll d ((cmdPrepare crates stateDir request).steps.take k)) := by
  obtain ⟨error, hstopped⟩ | ⟨row, hop, hexact, hrow⟩ := cmdPrepare_cases crates stateDir request
  · rw [hstopped]
    exact consistent_of_error (by simpa [applyAll] using h)
  · rw [hrow, ← nil_append (Train.append crates row)] at hcut ⊢
    refine consistent_of_row hcut (fun _ _ => by simpa [applyAll] using h) ?_
    rw [nil_append, applyAll_append]
    refine h.append hexact.stamped (fun hrun => ?_)
    have hprepare : row.op = "run" := hrun
    rw [hop] at hprepare
    simp at hprepare

/-- What a promoting run and a rollback install. -/
structure Installs (crates : Crates F) (current : CurrentArtifact F) (runId path : String)
    (artifact : Bytes) : Prop where
  run : current.runId = runId
  path : current.artifactPath = path
  recorded : current.artifactDigest = digest crates.sha artifactDomain artifact

/-- A run that reached its row. -/
structure Ran (crates : Crates F) (stateDir : String) (request : RunRequest F) (artifact : Bytes)
    (installed : List FileStep) (row : LedgerRow F) : Prop where
  trained : request.artifact = .ok artifact
  op : row.op = "run"
  exact : row.Exact crates
  retained : ∀ artifacts : String → Option Bytes,
    artifacts (artifactPath stateDir request.runId) = some artifact →
      Retained crates stateDir artifacts (row.stamped crates) request.runId artifact
  installed : installed = [] ∨ ∃ current, installed = install crates current ∧
    Installs crates current request.runId (artifactPath stateDir request.runId) artifact

theorem ran_runRow [Floating F] {consent : String} {prepared : Prepared} {score : Score F}
    (htrained : request.artifact = .ok artifact) (hscored : (run request).Scored crates)
    (hscore : request.score = .ok score)
    (hinstalled : installed = [] ∨ ∃ current, installed = install crates current ∧
      Installs crates current request.runId (artifactPath stateDir request.runId) artifact) :
    Ran crates stateDir request artifact installed
      (runRow crates stateDir request consent prepared artifact score current) where
  trained := htrained
  op := by simp [runRow, preparedRow, new]
  exact := by
    refine ⟨fun x hx => ?_, fun x hx => ?_⟩
    · have heq : score.score = x := by simpa [runRow] using hx
      rw [← heq]
      exact hscored.1 score hscore
    · have hbaseline : (baselineOf request current).1 = some x := hx
      unfold baselineOf at hbaseline
      cases current with
      | none => simp at hbaseline
      | some current =>
        cases hresult : request.baseline with
        | error error => simp [hresult] at hbaseline
        | ok baseline =>
          have heq : baseline = x := by simpa [hresult] using hbaseline
          rw [← heq]
          exact hscored.2 baseline hresult
  retained artifacts hkept :=
    ⟨by simp [runRow, stamped, preparedRow], by simp [runRow, stamped], hkept,
      by simp [runRow, stamped]⟩
  installed := hinstalled

theorem cmdRun_cases [Floating F] (stateDir : String) (d : TrainDir)
    (hscored : (run request).Scored crates) :
    (∃ error, cmdRun crates stateDir request d = ⟨[], .error error⟩) ∨
      (∃ artifact error, cmdRun crates stateDir request d =
        ⟨[.train (artifactPath stateDir request.runId) artifact], .error error⟩) ∨
      ∃ artifact installed row, Ran crates stateDir request artifact installed row ∧
        cmdRun crates stateDir request d =
          ⟨(.train (artifactPath stateDir request.runId) artifact :: installed) ++
            append crates row, .ok (row.stamped crates)⟩ := by
  unfold cmdRun
  cases checkRun request with
  | error error => exact .inl ⟨error, rfl⟩
  | ok checked =>
    obtain ⟨consent, prepared⟩ := checked
    cases hartifact : request.artifact with
    | error error => exact .inl ⟨_, rfl⟩
    | ok artifact =>
      right
      unfold recordRun
      cases hscore : request.score with
      | error error => exact .inl ⟨artifact, _, rfl⟩
      | ok score =>
        cases hcurrent : readCurrent crates d with
        | error error => exact .inl ⟨artifact, _, rfl⟩
        | ok current =>
          right
          by_cases hpromotes : (decisionOf request score current).promotes
          · refine ⟨artifact, install crates (promotion crates stateDir request artifact score),
              runRow crates stateDir request consent prepared artifact score current,
              ran_runRow hartifact hscored hscore (.inr ⟨_, rfl, rfl, rfl, rfl⟩), ?_⟩
            simp only [hpromotes, if_true]
          · refine ⟨artifact, [], runRow crates stateDir request consent prepared artifact score
              current, ran_runRow hartifact hscored hscore (.inl rfl), ?_⟩
            simp only [hpromotes, Bool.false_eq_true, if_false]

theorem Installs.names {current : CurrentArtifact F} {runId path : String}
    {artifacts : String → Option Bytes} (h : Installs crates current runId path artifact)
    (hop : row.op = "run") (hrow : row ∈ rows)
    (hretained : Retained crates stateDir artifacts row runId artifact) : Names rows current := by
  refine ⟨row, hrow, hop, ?_, ?_⟩
  · rw [h.run]
    exact hretained.run
  · rw [h.recorded]
    exact hretained.recorded

section

variable (hran : Ran crates stateDir request artifact installed row)
  (h : Consistent crates stateDir used rows d) (hused : request.runId ∈ used)
  (hkept : d.artifacts (artifactPath stateDir request.runId) = some artifact)

include hran h hused hkept

/-- The row of a run, after its artifact. -/
theorem Ran.consistent_append : Consistent crates stateDir used (rows ++ [row.stamped crates])
      (applyAll d (append crates row)) := by
  rw [applyAll_append]
  exact h.append hran.exact.stamped
    (fun _ => ⟨request.runId, hused, artifact, hran.retained d.artifacts hkept⟩)

/-- The steps of a run that reached its row, when all of them are made. -/
theorem Ran.consistent : Consistent crates stateDir used (rows ++ [row.stamped crates])
      (applyAll d (installed ++ append crates row)) := by
  have hrow := hran.consistent_append h hused hkept
  rcases hran.installed with hnone | ⟨current, hinstall, hinstalls⟩
  · rw [hnone, nil_append]
    exact hrow
  · -- the pointer and the ledger are different files
    have hcomm : applyAll d (installed ++ append crates row) =
        applyAll (applyAll d (append crates row)) (install crates current) := by
      rw [hinstall, applyAll_steps, applyAll_append, applyAll_append, applyAll_install,
        applyAll_install]
    rw [hcomm]
    have hpath : (applyAll d (append crates row)).artifacts current.artifactPath = some artifact := by
      rw [applyAll_append, hinstalls.path]
      exact hkept
    refine hrow.install hpath hinstalls.recorded.symm ?_
    · have hop : (row.stamped crates).op = "run" := hran.op
      exact hinstalls.names hop (mem_append_right _ (mem_singleton_self _))
        (hran.retained d.artifacts hkept)

end

theorem run_consistent [Floating F] (h : Consistent crates stateDir used rows d)
    (hserde : Serde crates) (hfresh : request.runId ∉ used) (hscored : (run request).Scored crates)
    (hcut : Cut crates d (.run request) ((cmdRun crates stateDir request d).steps.take k)
      ((cmdRun crates stateDir request d).steps.drop k)) :
    Consistent crates stateDir (used ++ [request.runId])
      (rowsAfter rows (cmdRun crates stateDir request d) k)
      (applyAll d ((cmdRun crates stateDir request d).steps.take k)) := by
  have hidle : Consistent crates stateDir (used ++ [request.runId]) rows d := h.uses _
  obtain ⟨error, hstopped⟩ | ⟨artifact, error, hstopped⟩ | ⟨artifact, installed, row, hran, hrun⟩ :=
    cmdRun_cases stateDir d hscored
  · rw [hstopped]
    exact consistent_of_error (by simpa [applyAll] using hidle)
  · rw [hstopped]
    refine consistent_of_error ?_
    cases k with
    | zero => exact hidle
    | succ k =>
      rw [take_succ_cons, take_nil]
      exact (h.train hfresh artifact).uses _
  · rw [hrun] at hcut ⊢
    have htrain := (h.train hfresh artifact).uses [request.runId]
    have hkept : (FileStep.apply d (.train (artifactPath stateDir request.runId) artifact)).artifacts
        (artifactPath stateDir request.runId) = some artifact := if_pos rfl
    have hused : request.runId ∈ used ++ [request.runId] :=
      mem_append_right _ (mem_singleton_self _)
    refine consistent_of_row hcut (fun hk hleft => ?_) ?_
    · cases k with
      | zero => exact hidle
      | succ k =>
        rcases hran.installed with hnone | ⟨current, hinstall, hinstalls⟩
        · rw [hnone, take_succ_cons, take_nil]
          exact htrain
        · subst hinstall
          have hpath : (FileStep.apply d
              (.train (artifactPath stateDir request.runId) artifact)).artifacts
                current.artifactPath = some artifact := by
            rw [hinstalls.path]
            exact hkept
          have hthree : k < 3 := by
            by_contra hmany
            have hrename : FileStep.rename ∈ ((.train (artifactPath stateDir request.runId)
                artifact :: install crates current) ++ append crates row).take (k + 1) :=
              mem_cons_of_mem _ (rename_mem_take crates current _ (by omega))
            exact hleft (hcut.recorded request rfl hrename)
          rw [take_succ_cons]
          refine htrain.install_cut hserde hthree hpath (fun hone old hold => ?_)
          have hcopy : FileStep.copy current.artifactPath ∈ ((.train (artifactPath stateDir
              request.runId) artifact :: install crates current) ++ append crates row).take
                (k + 1) :=
            mem_cons_of_mem _ (copy_mem_take crates current _ hone)
          have hrename : FileStep.rename ∈ ((.train (artifactPath stateDir request.runId)
              artifact :: install crates current) ++ append crates row).drop (k + 1) :=
            rename_mem_drop crates current _ hthree
          exact hcut.copied _ hcopy hrename artifact (by simp [Command.artifact, hran.trained,
            Except.toOption]) old hold
    · exact hran.consistent htrain hused hkept

theorem mem_promotedRuns (h : row ∈ promotedRuns rows) : row ∈ rows ∧ row.op = "run" := by
  obtain ⟨hmem, hpromoted⟩ := mem_filter.mp h
  simp only [promoted, Bool.and_eq_true, decide_eq_true_eq] at hpromoted
  exact ⟨hmem, hpromoted.1⟩

/-- The target of a rollback is a run of the ledger, and the one that was
named. -/
theorem rollbackTarget_spec {request : RollbackRequest} {target : LedgerRow F}
    (h : rollbackTarget request rows current = some target) : (target ∈ rows ∧ target.op = "run") ∧
      ∀ runId, request.to' = some runId → target.runId = some runId := by
  unfold rollbackTarget at h
  cases hto : request.to' with
  | some runId =>
    rw [hto] at h
    have hfound := find?_some h
    simp only [Bool.and_eq_true, decide_eq_true_eq] at hfound
    refine ⟨⟨List.mem_of_find?_eq_some h, hfound.1⟩, fun id hid => ?_⟩
    rw [← Option.some.inj hid]
    exact hfound.2
  | none =>
    rw [hto] at h
    refine ⟨?_, nofun⟩
    simp only at h
    split at h
    · cases h
    · exact mem_promotedRuns (mem_of_getElem? h)
    · exact mem_promotedRuns (mem_of_getLast? h)

/-- A rollback that reached its row. -/
structure RolledBack (crates : Crates F) (stateDir : String) (d : TrainDir)
    (rows : List (LedgerRow F)) (request : RollbackRequest) (runId : String) (artifact : Bytes)
    (current : CurrentArtifact F) (row : LedgerRow F) : Prop where
  target : ∃ target ∈ rows, target.op = "run" ∧
    Retained crates stateDir d.artifacts target runId artifact
  named : ∀ id, request.to' = some id → runId = id
  restores : (Command.rollback request).artifact crates d = some artifact
  installs : Installs crates current runId (artifactPath stateDir runId) artifact
  op : row.op = "rollback"
  exact : row.Exact crates

theorem cmdRollback_cases (h : Consistent crates stateDir used rows d) (hserde : Serde crates)
    (request : RollbackRequest) :
    (∃ error, cmdRollback crates request d = ⟨[], .error error⟩) ∨ ∃ runId artifact current row,
        RolledBack crates stateDir d rows request runId artifact current row ∧
        cmdRollback crates request d =
          ⟨install crates current ++ append crates row, .ok (row.stamped crates)⟩ := by
  unfold cmdRollback
  cases hcheck : checkRollback crates request d with
  | error error => exact .inl ⟨error, rfl⟩
  | ok checked =>
    obtain ⟨granted, chosen, source, bytes⟩ := checked
    right
    have hartifact : (rollback request).artifact crates d = some bytes := by
      simp [artifact, hcheck, Except.toOption]
    unfold checkRollback at hcheck
    simp only [bind_ok_iff, required_eq_ok, Except.ok.injEq, Prod.mk.injEq] at hcheck
    obtain ⟨_, _, current, _, target, htarget, path, hpath, artifact, hkept, _, rfl, rfl, rfl⟩ :=
      hcheck
    rw [h.read hserde] at htarget
    obtain ⟨⟨hmem, hop⟩, hnamed⟩ := rollbackTarget_spec htarget
    obtain ⟨runId, _, found, hretained⟩ := h.retained target hmem hop
    have hsame : path = artifactPath stateDir runId := by
      rw [hretained.path] at hpath
      exact (Option.some.inj hpath).symm
    subst hsame
    have hfound : found = artifact := by
      rw [hretained.kept] at hkept
      exact Option.some.inj hkept
    subst hfound
    refine ⟨runId, found, _, _, ⟨⟨target, hmem, hop, hretained⟩, fun id hid => ?_, hartifact,
      ⟨?_, rfl, rfl⟩, ?_, ⟨fun x hx => ?_, fun x hx => ?_⟩⟩, rfl⟩
    · have hid' := hnamed id hid
      rw [hretained.run] at hid'
      exact Option.some.inj hid'
    · simp [restored, hretained.run]
    · simp [rollbackRow, new]
    · have hscore : target.reproductionScore = some x := hx
      exact (h.exact target hmem).score x hscore
    · simp [rollbackRow, new] at hx

theorem rollback_consistent (h : Consistent crates stateDir used rows d) (hserde : Serde crates)
    {request : RollbackRequest}
    (hcut : Cut crates d (.rollback request) ((cmdRollback crates request d).steps.take k)
      ((cmdRollback crates request d).steps.drop k)) :
    Consistent crates stateDir used (rowsAfter rows (cmdRollback crates request d) k)
      (applyAll d ((cmdRollback crates request d).steps.take k)) := by
  obtain ⟨error, hstopped⟩ | ⟨runId, artifact, current, row, hrolled, hrollback⟩ :=
    cmdRollback_cases h hserde request
  · rw [hstopped]
    exact consistent_of_error (by simpa [applyAll] using h)
  · obtain ⟨target, hmem, hop, hretained⟩ := hrolled.target
    have hpath : d.artifacts current.artifactPath = some artifact := by
      rw [hrolled.installs.path]
      exact hretained.kept
    have hinstalled := h.install hpath hrolled.installs.recorded.symm
      (hrolled.installs.names hop hmem hretained)
    rw [hrollback] at hcut ⊢
    refine consistent_of_row hcut (fun hk _ => ?_) ?_
    · by_cases hthree : k < 3
      · refine h.install_cut hserde hthree hpath (fun hone old hold => ?_)
        exact hcut.copied _ (copy_mem_take crates current _ hone)
          (rename_mem_drop crates current _ hthree) artifact hrolled.restores old hold
      · rw [take_of_length_le (Nat.le_of_not_lt hthree)]
        exact hinstalled
    · rw [applyAll_steps, applyAll_append]
      refine hinstalled.append hrolled.exact.stamped (fun hrun => ?_)
      have hrollback : row.op = "run" := hrun
      rw [hrolled.op] at hrollback
      simp at hrollback

end Commands

/-! ## Runs -/

/-- A run that was current has a row. -/
def Recorded (rows : List (LedgerRow F)) (runId : String) : Prop :=
  ∃ row ∈ rows, row.op = "run" ∧ row.runId = some runId

structure Sound (crates : Crates F) (stateDir : String) (s : System F)
    (rows : List (LedgerRow F)) : Prop where
  files : Consistent crates stateDir s.used rows s.dir
  acknowledged : s.acknowledged.Sublist rows
  installed : ∀ runId ∈ s.installed, Recorded rows runId

section Runs

variable {s t : System F} {rows : List (LedgerRow F)}
variable {event : Event F}
variable {execution : Execution F}

theorem Recorded.append {runId : String} (h : Recorded rows runId) (more : List (LedgerRow F)) :
    Recorded (rows ++ more) runId := by
  obtain ⟨row, hmem, hrow⟩ := h
  exact ⟨row, mem_append_left _ hmem, hrow⟩

variable {d : TrainDir} {used : List String}

theorem currentRun_recorded (h : Consistent crates stateDir used rows d) (hserde : Serde crates) :
    ∀ runId ∈ currentRun crates d, Recorded rows runId := by
  intro runId hmem
  unfold currentRun at hmem
  obtain hnone | ⟨current, hcurrent, ⟨row, hrow, hop, hid, _⟩, _⟩ := h.readCurrent hserde
  · rw [hnone] at hmem
    cases hmem
  · rw [hcurrent] at hmem
    rw [mem_singleton.mp hmem]
    exact ⟨row, hrow, hop, hid⟩

/-- What is left to show of a step: the files. -/
theorem Sound.after (h : Sound crates stateDir s rows) (hserde : Serde crates) {command : Command F}
    {made : Nat} (hfiles : Consistent crates stateDir (s.used ++ command.runId.toList)
      (rowsAfter rows execution made) (applyAll s.dir (execution.steps.take made))) :
    Sound crates stateDir (s.after crates command execution made)
      (rowsAfter rows execution made) where
  files := hfiles
  acknowledged := h.acknowledged.append (List.Sublist.refl _)
  installed runId hmem := by
    rcases mem_append.mp hmem with hold | hnew
    · exact (h.installed runId hold).append _
    · exact currentRun_recorded hfiles hserde runId hnew

theorem System.after_all (s : System F) (command : Command F) (execution : Execution F) :
    s.after crates command execution execution.steps.length =
      ⟨applyAll s.dir execution.steps, s.used ++ command.runId.toList,
        s.acknowledged ++ execution.result.toOption.toList,
        s.installed ++ currentRun crates (applyAll s.dir execution.steps)⟩ := by
  simp [after]

theorem System.installed_after (s : System F) (command : Command F) (execution : Execution F)
    (made : Nat) : (s.after crates command execution made).installed =
      s.installed ++ currentRun crates (s.after crates command execution made).dir := rfl

theorem currentRun_of_read {current : CurrentArtifact F}
    (h : readCurrent crates d = .ok (some current)) : currentRun crates d = [current.runId] := by
  unfold currentRun
  rw [h]

theorem current_with_ledger (d : TrainDir) (ledger : Bytes) :
    ({ d with ledger := ledger } : TrainDir).current = d.current := rfl

/-- The files after a command that ends with its row. -/
theorem System.dir_after_append (s : System F) (command : Command F) {steps : List FileStep}
    {result : Except TrainError (LedgerRow F)}
    (h : execution = ⟨steps ++ append crates row, result⟩) :
    (s.after crates command execution execution.steps.length).dir =
      { applyAll s.dir steps with
        ledger := (applyAll s.dir steps).ledger ++ (row.stamped crates).line crates } := by
  rw [after_all, h, applyAll_steps, applyAll_append]

/-- All steps are a safe cut. -/
theorem cut_all (d : TrainDir) (command : Command F) (steps : List FileStep) :
    Cut crates d command (steps.take steps.length) (steps.drop steps.length) where
  row _ _ := drop_length
  recorded _ _ _ := drop_length
  copied _ _ hmem := by
    rw [drop_length] at hmem
    cases hmem

theorem Event.Safe.cut [Floating F] (h : event.Safe crates stateDir s) :
    let execution := event.command.execute crates stateDir s.dir
    Cut crates s.dir event.command (execution.steps.take (event.made execution))
      (execution.steps.drop (event.made execution)) := by
  cases event with
  | complete command => exact cut_all s.dir command _
  | crash command made => exact h.2

theorem Sound.step [Floating F] (h : Sound crates stateDir s rows) (hserde : Serde crates)
    (hsafe : event.Safe crates stateDir s) (hstep : step crates stateDir s event = some t) :
    ∃ rows', Sound crates stateDir t rows' := by
  have hcut := hsafe.cut
  have hscored := hsafe.1
  unfold Train.step at hstep
  dsimp only at hstep hcut
  split_ifs at hstep with hfresh
  cases hstep
  refine ⟨_, h.after hserde ?_⟩
  revert hcut hscored hfresh
  generalize event.made _ = made
  cases event.command with
  | prepare request =>
    intro hcut _ _
    exact prepare_consistent (h.files.uses _) request hcut
  | run request =>
    intro hcut hscored hfresh
    refine run_consistent h.files hserde ?_ hscored hcut
    simpa [Command.runId] using hfresh
  | rollback request =>
    intro hcut _ _
    exact rollback_consistent (h.files.uses _) hserde hcut

theorem sound_initial : Sound crates stateDir initial [] where
  files := by
    refine ⟨rfl, ?_, ?_, nofun⟩
    · simp
    · simp
  acknowledged := List.Sublist.refl _
  installed runId hmem := by cases hmem

theorem sound_of_steps [Floating F] (hserde : Serde crates)
    (h : Steps (step crates stateDir) (fun s event => event.Safe crates stateDir s) initial s) :
    ∃ rows, Sound crates stateDir s rows := by
  refine h.invariant (I := fun s => ∃ rows, Sound crates stateDir s rows)
    (fun s event t hs hsafe hstep => ?_) ⟨[], sound_initial⟩
  obtain ⟨rows, hrows⟩ := hs
  exact hrows.step hserde hsafe hstep

/-- The pointer is readable; it names a run of the ledger with the digest of
its row, which is that of the artifact in place. -/
def PointerRecorded (crates : Crates F) (d : TrainDir) : Prop :=
  ∃ pointer, readCurrent crates d = .ok pointer ∧ ∀ current ∈ pointer,
    Names (read crates d) current ∧ ∃ artifact, d.currentArtifact = some artifact ∧
      digest crates.sha artifactDomain artifact = current.artifactDigest

/-- A rollback succeeds, and then the run is the current one. -/
def Restores (crates : Crates F) (d : TrainDir) (request : RollbackRequest) (runId : String) :
    Prop :=
  let execution := cmdRollback crates request d
  (∃ row, execution.result = .ok row) ∧
    ∃ current, readCurrent crates (applyAll d execution.steps) = .ok (some current) ∧
      current.runId = runId

theorem Consistent.restores (h : Consistent crates stateDir used rows d) (hserde : Serde crates)
    {request : RollbackRequest} {consent runId : String}
    (hconsent : request.consent = some (.ok consent)) (hto : request.to' = some runId)
    (hrecorded : Recorded rows runId) : Restores crates d request runId := by
  have hchecked : ∃ result, checkRollback crates request d = .ok result := by
    obtain ⟨row, hmem, hop, hid⟩ := hrecorded
    have hpointer : ∃ pointer, Train.readCurrent crates d = .ok pointer := by
      obtain hnone | ⟨current, hcurrent, _⟩ := h.readCurrent hserde
      · exact ⟨none, hnone⟩
      · exact ⟨some current, hcurrent⟩
    obtain ⟨pointer, hpointer⟩ := hpointer
    have hfound : ∃ target, rollbackTarget request rows pointer = some target := by
      unfold rollbackTarget
      rw [hto]
      refine Option.isSome_iff_exists.mp (find?_isSome.mpr ⟨row, hmem, ?_⟩)
      simp [hop, hid]
    obtain ⟨target, htarget⟩ := hfound
    obtain ⟨⟨htargetMem, htargetOp⟩, _⟩ := rollbackTarget_spec htarget
    obtain ⟨id, _, artifact, hretained⟩ := h.retained target htargetMem htargetOp
    refine ⟨(consent, target, artifactPath stateDir id, artifact), ?_⟩
    unfold checkRollback requireConsent
    rw [hconsent, hpointer, h.read hserde]
    simp [mapErr, htarget, hretained.path, hretained.kept]
  obtain ⟨error, hstopped⟩ | ⟨id, artifact, current, row, hrolled, hrollback⟩ :=
    cmdRollback_cases h hserde request
  · obtain ⟨result, hresult⟩ := hchecked
    unfold cmdRollback at hstopped
    rw [hresult] at hstopped
    cases hstopped
  · unfold Restores
    simp only [hrollback]
    refine ⟨⟨_, rfl⟩, ?_⟩
    have hcurrent : (applyAll d (Train.install crates current ++ Train.append crates row)).current =
        some (current.pretty crates) := by
      rw [applyAll_steps, applyAll_append, applyAll_install]
    obtain ⟨score, hread⟩ := readCurrent_of_pretty hserde hcurrent
    refine ⟨_, hread, ?_⟩
    show current.runId = runId
    rw [hrolled.installs.run]
    exact hrolled.named runId hto

/-- The rows whose append returned are read in their order, the pointer is
that of a recorded run, and every run that was current can come back. -/
theorem ledger_keeps_evidence [Floating F] (hserde : Serde crates)
    (h : Steps (step crates stateDir) (fun s event => event.Safe crates stateDir s)
      System.initial s) :
    s.acknowledged.Sublist (read crates s.dir) ∧ PointerRecorded crates s.dir ∧
      ∀ runId ∈ s.installed, ∀ request consent, request.consent = some (.ok consent) →
        request.to' = some runId → Restores crates s.dir request runId := by
  obtain ⟨rows, hsound⟩ := sound_of_steps hserde h
  have hread := hsound.files.read hserde
  refine ⟨?_, ?_, fun runId hmem request consent hconsent hto => ?_⟩
  · rw [hread]
    exact hsound.acknowledged
  · unfold PointerRecorded
    rw [hread]
    obtain hnone | ⟨current, hcurrent, hnames⟩ := hsound.files.readCurrent hserde
    · exact ⟨none, hnone, nofun⟩
    · refine ⟨some current, hcurrent, fun other hother => ?_⟩
      rw [← Option.mem_some.mp hother]
      exact hnames
  · exact hsound.files.restores hserde hconsent hto (hsound.installed runId hmem)

end Runs

/-! ## A run and its crash -/

def sampleRun : RunRequest (Fin 2) where
  consent := some (.ok "sha256:consent")
  corpus := .ok (some ⟨"sha256:dataset", "sha256:manifest", 3, 1⟩)
  source := "memory"
  runId := "run-1"
  ts := "2026-01-01T00:00:00Z"
  trainer := .ok ()
  artifact := .ok [1, 2, 3]
  score := .ok ⟨.last 1, 1, 2⟩
  leaked := 0
  baseline := .ok ⟨0, Nat.two_pos⟩
  updatedAt := "2026-01-01T00:00:00Z"

def samplePrepare : PrepareRequest where
  consent := some (.ok "sha256:consent")
  corpus := .ok (some ⟨"sha256:dataset", "sha256:manifest", 3, 1⟩)
  source := "memory"
  runId := "run-2"
  ts := "2026-01-01T00:00:01Z"

noncomputable def samplePromotion : CurrentArtifact (Fin 2) :=
  promotion sampleCrates "/state" sampleRun [1, 2, 3] ⟨.last 1, 1, 2⟩

noncomputable def sampleRow : LedgerRow (Fin 2) :=
  runRow sampleCrates "/state" sampleRun "sha256:consent"
    ⟨"sha256:dataset", "sha256:manifest", 3, 1⟩ [1, 2, 3] ⟨.last 1, 1, 2⟩ none

noncomputable def samplePromoting : List FileStep :=
  .train (artifactPath "/state" "run-1") [1, 2, 3] :: install sampleCrates samplePromotion

theorem cmdRun_sample : cmdRun sampleCrates "/state" sampleRun .empty =
    ⟨samplePromoting ++ append sampleCrates sampleRow, .ok (sampleRow.stamped sampleCrates)⟩ := by
  have hpromotes : (decisionOf sampleRun (⟨1, 1, 2⟩ : Score (Fin 2)) none).promotes := by
    decide
  unfold cmdRun
  simp only [show checkRun sampleRun = .ok ("sha256:consent",
    ⟨"sha256:dataset", "sha256:manifest", 3, 1⟩) from rfl,
    show sampleRun.artifact = .ok [1, 2, 3] from rfl]
  unfold recordRun
  simp only [show sampleRun.score = .ok ⟨1, 1, 2⟩ from rfl,
    show readCurrent sampleCrates .empty = .ok none from rfl, hpromotes, if_true]
  rfl

theorem scored_sample : (run sampleRun).Scored sampleCrates :=
  ⟨fun _ _ => exact_sample _, fun _ _ => exact_sample _⟩

/-- The files when the artifact is in place. -/
noncomputable def promotedDir : TrainDir := applyAll (System.initial (F := Fin 2)).dir samplePromoting

theorem promotedDir_current :
    promotedDir.current = some (samplePromotion.pretty sampleCrates) := rfl

/-- The run ends, and its artifact is the current one. -/
noncomputable def trained : System (Fin 2) :=
  System.initial.after sampleCrates (.run sampleRun) (cmdRun sampleCrates "/state" sampleRun .empty)
    (cmdRun sampleCrates "/state" sampleRun .empty).steps.length

theorem ledger_keeps_evidence_sample : ∃ s : System (Fin 2),
    ("run-1" ∈ s.installed ∧ s.acknowledged = [sampleRow.stamped sampleCrates]) ∧
      s.acknowledged.Sublist (read sampleCrates s.dir) ∧ PointerRecorded sampleCrates s.dir ∧
        ∀ runId ∈ s.installed, ∀ request consent, request.consent = some (.ok consent) →
          request.to' = some runId → Restores sampleCrates s.dir request runId := by
  have hsteps : Steps (step sampleCrates "/state")
      (fun s event => event.Safe sampleCrates "/state" s) initial trained :=
    (Steps.refl _).tail (l := .complete (.run sampleRun)) ⟨scored_sample, trivial⟩ rfl
  refine ⟨trained, ⟨?_, ?_⟩, ledger_keeps_evidence serde_sample hsteps⟩
  · have htrained : trained = initial.after sampleCrates (.run sampleRun)
        (cmdRun sampleCrates "/state" sampleRun .empty)
        (cmdRun sampleCrates "/state" sampleRun .empty).steps.length := rfl
    have hinstalled : trained.installed = currentRun sampleCrates trained.dir := by
      rw [htrained, installed_after]
      exact nil_append _
    have hcurrent : trained.dir.current = some (samplePromotion.pretty sampleCrates) := by
      rw [htrained, dir_after_append _ _ cmdRun_sample, ← promotedDir, current_with_ledger]
      exact promotedDir_current
    obtain ⟨score, hread⟩ := readCurrent_of_pretty serde_sample hcurrent
    rw [hinstalled, currentRun_of_read hread]
    exact mem_singleton_self _
  · unfold trained
    rw [after_all, cmdRun_sample]
    rfl

/-- The process dies before the row of the run is written. -/
noncomputable def unrecorded : System (Fin 2) :=
  System.initial.after sampleCrates (.run sampleRun) (cmdRun sampleCrates "/state" sampleRun .empty)
    4

theorem unrecorded_dir : unrecorded.dir = promotedDir := by
  unfold unrecorded System.after
  dsimp only
  rw [cmdRun_sample, take_append_of_le_length (by decide), promotedDir]
  rfl

/-- The next command. -/
noncomputable def prepared : System (Fin 2) :=
  unrecorded.after sampleCrates (.prepare samplePrepare)
    (cmdPrepare sampleCrates "/state" samplePrepare)
      (cmdPrepare sampleCrates "/state" samplePrepare).steps.length

/-- The next command completes, and the pointer names a run that the ledger
does not know. -/
theorem crashed_promotion_is_unrecorded :
    Steps (step sampleCrates "/state") anyStep System.initial prepared ∧
      ¬ PointerRecorded sampleCrates prepared.dir := by
  have hfirst : Steps (step sampleCrates "/state") anyStep initial unrecorded :=
    (Steps.refl _).tail (l := .crash (.run sampleRun) 4) trivial rfl
  refine ⟨hfirst.tail (l := .complete (.prepare samplePrepare)) trivial rfl, ?_⟩
  obtain ⟨error, hstopped⟩ | ⟨row, hop, hexact, hprepare⟩ :=
    cmdPrepare_cases sampleCrates "/state" samplePrepare
  · have hresult := congrArg Execution.result hstopped
    cases hresult
  rintro ⟨pointer, hpointer, hrecorded⟩
  have hdir : prepared.dir =
      { promotedDir with
        ledger := promotedDir.ledger ++ (row.stamped sampleCrates).line sampleCrates } := by
    unfold prepared
    rw [after_all, hprepare, applyAll_append, unrecorded_dir]
  have hledger : prepared.dir.ledger = [row.stamped sampleCrates].flatMap (line sampleCrates) := by
    have hempty : promotedDir.ledger = [] := rfl
    rw [hdir, flatMap_singleton]
    show promotedDir.ledger ++ _ = _
    rw [hempty, nil_append]
  have hread : read sampleCrates prepared.dir = [row.stamped sampleCrates] :=
    read_of_lines serde_sample (by simpa using hexact.stamped) hledger
  have hcontent : prepared.dir.current = some (samplePromotion.pretty sampleCrates) := by
    rw [hdir]
    exact promotedDir_current
  obtain ⟨score, hpretty⟩ := readCurrent_of_pretty serde_sample hcontent
  rw [hpretty] at hpointer
  obtain ⟨found, hmem, hrun, _⟩ := (hrecorded _ (Except.ok.inj hpointer).symm).1
  rw [hread] at hmem
  rw [mem_singleton.mp hmem] at hrun
  have hprepared : row.op = "run" := hrun
  rw [hop] at hprepared
  simp at hprepared

/-! ## The files of a state directory -/

end Abbey.Train
