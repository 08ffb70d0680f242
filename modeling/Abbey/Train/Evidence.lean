import Abbey.Lib.System
import Abbey.Train.Commands
import Abbey.Train.Rows
import Mathlib.Tactic.IntervalCases

/-!
# What the ledger keeps

Every sequence of `prepare`, `run` and `rollback`, where a command may be
cut after any of its steps.  `Consistent` relates the files to the rows that
are in the ledger: the runs have kept their artifacts, and the pointer names
one of them.  `Sound` adds the history: the rows whose append returned and
the runs that were current.

`Event.Safe` leaves out the cuts that the program does not recover from, and
`consistent_of_row` takes a cut command to the part before its row or to the
whole.
-/

namespace Abbey.Train

open Abbey.Lib List
open Abbey.Learning (Bytes)
open Abbey.Provider (Floating)

variable {F : Type} {crates : Crates F} {stateDir : String}

/-! ## Runs -/

inductive Command (F : Type) where
  | prepare (request : PrepareRequest)
  | run (request : RunRequest F)
  | rollback (request : RollbackRequest)

/-- The identifier that `new_run_id` has given to a command. -/
def Command.runId : Command F → Option String
  | .prepare request => some request.runId
  | .run request => some request.runId
  | .rollback _ => none

def Command.execute [Floating F] (crates : Crates F) (stateDir : String) (d : TrainDir) :
    Command F → Execution F
  | .prepare request => cmdPrepare crates stateDir request
  | .run request => cmdRun crates stateDir request d
  | .rollback request => cmdRollback crates request d

/-- The files, the identifiers that were given out, the rows whose append
returned, and the runs that the pointer has named. -/
structure System (F : Type) where
  dir : TrainDir
  used : List String
  acknowledged : List (LedgerRow F)
  installed : List String

def System.initial : System F := ⟨.empty, [], [], []⟩

inductive Event (F : Type) where
  | complete (command : Command F)
  /-- The process dies after some of the steps. -/
  | crash (command : Command F) (made : Nat)

def Event.command : Event F → Command F
  | .complete command | .crash command _ => command

/-- The number of steps that are made. -/
def Event.made (execution : Execution F) : Event F → Nat
  | .complete _ => execution.steps.length
  | .crash _ made => made

/-- The run that the pointer names. -/
def currentRun (crates : Crates F) (d : TrainDir) : List String :=
  match readCurrent crates d with
  | .ok (some current) => [current.runId]
  | _ => []

def System.after (crates : Crates F) (s : System F) (command : Command F)
    (execution : Execution F) (made : Nat) : System F :=
  let dir := applyAll s.dir (execution.steps.take made)
  { dir
    used := s.used ++ command.runId.toList
    acknowledged := s.acknowledged ++
      (if execution.steps.length ≤ made then execution.result.toOption.toList else [])
    installed := s.installed ++ currentRun crates dir }

/-- `new_run_id` gives a new identifier to every command. -/
def step [Floating F] (crates : Crates F) (stateDir : String) (s : System F) (event : Event F) :
    Option (System F) :=
  let command := event.command
  let execution := command.execute crates stateDir s.dir
  if command.runId.all (fun runId => runId ∉ s.used) then
    some (s.after crates command execution (event.made execution))
  else none

/-! ## Safe events -/

/-- The scores of a run are read back as they were written. -/
def Command.Scored (crates : Crates F) : Command F → Prop
  | .run request => (∀ score, request.score = .ok score → crates.Exact score.score) ∧
      ∀ baseline, request.baseline = .ok baseline → crates.Exact baseline
  | .prepare _ | .rollback _ => True

/-- The artifact that a command may make the current one. -/
def Command.artifact (crates : Crates F) (d : TrainDir) : Command F → Option Bytes
  | .prepare _ => none
  | .run request => request.artifact.toOption
  | .rollback request => (checkRollback crates request d).toOption.map fun result => result.2.2.2

/-- The steps of a command are cut at a place from which the program
recovers: not inside a row, not between the pointer and the row of a run,
and between the artifact and the pointer only where the pointer names an
artifact with the same digest already. -/
structure Cut (crates : Crates F) (d : TrainDir) (command : Command F)
    (made left : List FileStep) : Prop where
  row : ∀ byte, .append byte ∈ made → left = []
  recorded : ∀ request, command = .run request → .rename ∈ made → left = []
  copied : ∀ path, .copy path ∈ made → .rename ∈ left →
    ∀ artifact ∈ command.artifact crates d, ∀ current, readCurrent crates d = .ok (some current) →
      digest crates.sha artifactDomain artifact = current.artifactDigest

def Event.Safe [Floating F] (crates : Crates F) (stateDir : String) (s : System F)
    (event : Event F) : Prop :=
  event.command.Scored crates ∧
    match event with
    | .complete _ => True
    | .crash command made =>
      let steps := (command.execute crates stateDir s.dir).steps
      Cut crates s.dir command (steps.take made) (steps.drop made)

/-! ## The files -/

/-- What the ledger says about a run, and the artifact that is kept. -/
structure Retained (crates : Crates F) (stateDir : String) (artifacts : String → Option Bytes)
    (row : LedgerRow F) (runId : String) (artifact : Bytes) : Prop where
  run : row.runId = some runId
  path : row.artifactPath = some (artifactPath stateDir runId)
  kept : artifacts (artifactPath stateDir runId) = some artifact
  recorded : row.artifactDigest = some (digest crates.sha artifactDomain artifact)

/-- The run of a pointer has a row with its digest. -/
def Names (rows : List (LedgerRow F)) (current : CurrentArtifact F) : Prop :=
  ∃ row ∈ rows, row.op = "run" ∧ row.runId = some current.runId ∧
    row.artifactDigest = some current.artifactDigest

structure Consistent (crates : Crates F) (stateDir : String) (used : List String)
    (rows : List (LedgerRow F)) (d : TrainDir) : Prop where
  ledger : d.ledger = rows.flatMap (LedgerRow.line crates)
  exact : ∀ row ∈ rows, row.Exact crates
  retained : ∀ row ∈ rows, row.op = "run" →
    ∃ runId ∈ used, ∃ artifact, Retained crates stateDir d.artifacts row runId artifact
  pointed : ∀ content, d.current = some content → ∃ current : CurrentArtifact F,
    content = current.pretty crates ∧ Names rows current ∧
      ∃ artifact, d.currentArtifact = some artifact ∧
        digest crates.sha artifactDomain artifact = current.artifactDigest

section Files

variable {used : List String} {rows : List (LedgerRow F)} {d : TrainDir} {row : LedgerRow F}
  {current : CurrentArtifact F} {runId : String} {artifact : Bytes}

theorem Names.append (h : Names rows current) (row : LedgerRow F) :
    Names (rows ++ [row]) current := by
  obtain ⟨found, hmem, hfound⟩ := h
  exact ⟨found, mem_append_left _ hmem, hfound⟩

theorem artifactPath_inj
    (h : artifactPath stateDir runId = artifactPath stateDir other) : runId = other := by
  unfold artifactPath runDir at h
  have hlist := congrArg String.toList h
  simp only [String.toList_append, append_assoc] at hlist
  have hrest := append_cancel_left (append_cancel_left hlist)
  exact String.toList_inj.mp (append_cancel_right hrest)

theorem applyAll_append (crates : Crates F) (d : TrainDir) (row : LedgerRow F) :
    applyAll d (append crates row) =
      { d with ledger := d.ledger ++ (row.stamped crates).line crates } := by
  have hbytes : ∀ (bytes : Bytes) (d : TrainDir), applyAll d (bytes.map FileStep.append) =
      { d with ledger := d.ledger ++ bytes } := by
    intro bytes
    induction bytes with
    | nil =>
      intro d
      simp [applyAll]
    | cons byte bytes ih =>
      intro d
      have hcons : applyAll d ((byte :: bytes).map FileStep.append) =
          applyAll { d with ledger := d.ledger ++ [byte] } (bytes.map FileStep.append) := rfl
      rw [hcons, ih]
      simp
  exact hbytes _ d

theorem applyAll_install (crates : Crates F) (d : TrainDir) (current : CurrentArtifact F) :
    applyAll d (install crates current) =
      { d with
        currentArtifact := d.artifacts current.artifactPath
        current := some (current.pretty crates)
        temporary := none } := rfl

theorem applyAll_steps (d : TrainDir) (steps rest : List FileStep) :
    applyAll d (steps ++ rest) = applyAll (applyAll d steps) rest := foldl_append

theorem LedgerRow.Exact.stamped (h : row.Exact crates) : (row.stamped crates).Exact crates :=
  ⟨h.score, h.baseline⟩

theorem line_ne_nil (crates : Crates F) (row : LedgerRow F) : row.line crates ≠ [] := by
  unfold LedgerRow.line
  simp

namespace Consistent

variable (h : Consistent crates stateDir used rows d)

include h

theorem read (hserde : Serde crates) : Train.read crates d = rows :=
  read_of_lines hserde h.exact h.ledger

/-- The pointer is readable, and names a run. -/
theorem readCurrent (hserde : Serde crates) : Train.readCurrent crates d = .ok none ∨
    ∃ current, Train.readCurrent crates d = .ok (some current) ∧ Names rows current ∧
      ∃ artifact, d.currentArtifact = some artifact ∧
        digest crates.sha artifactDomain artifact = current.artifactDigest := by
  cases hcontent : d.current with
  | none =>
    left
    unfold Train.readCurrent
    rw [hcontent]
  | some content =>
    right
    obtain ⟨current, rfl, hnames, hartifact⟩ := h.pointed content hcontent
    obtain ⟨score, hread⟩ := readCurrent_of_pretty hserde hcontent
    exact ⟨_, hread, hnames, hartifact⟩

theorem uses (ids : List String) : Consistent crates stateDir (used ++ ids) rows d :=
  { h with
    retained := fun row hrow hop => by
      obtain ⟨runId, hused, hretained⟩ := h.retained row hrow hop
      exact ⟨runId, mem_append_left _ hused, hretained⟩ }

/-- A new artifact, under a new identifier. -/
theorem train (hfresh : runId ∉ used) (artifact : Bytes) : Consistent crates stateDir used rows
      (FileStep.apply d (.train (artifactPath stateDir runId) artifact)) :=
  { h with
    retained := fun row hrow hop => by
      obtain ⟨id, hused, found, hretained⟩ := h.retained row hrow hop
      refine ⟨id, hused, found, { hretained with kept := ?_ }⟩
      have hother : artifactPath stateDir id ≠ artifactPath stateDir runId := by
        intro heq
        rw [artifactPath_inj heq] at hused
        exact hfresh hused
      exact (if_neg hother).trans hretained.kept }

theorem writeTemporary (content : Bytes) :
    Consistent crates stateDir used rows (FileStep.apply d (.writeTemporary content)) :=
  { h with }

/-- A copy of the artifact that the pointer names already. -/
theorem copy (hpath : d.artifacts path = some artifact)
    (hsame : ∀ current, Train.readCurrent crates d = .ok (some current) →
      digest crates.sha artifactDomain artifact = current.artifactDigest) (hserde : Serde crates) :
    Consistent crates stateDir used rows (FileStep.apply d (.copy path)) :=
  { h with
    pointed := fun content hcontent => by
      obtain ⟨current, rfl, hnames, _⟩ := h.pointed content hcontent
      obtain ⟨score, hread⟩ := readCurrent_of_pretty (d := d) hserde hcontent
      have hdigest := hsame _ hread
      exact ⟨current, rfl, hnames, artifact, hpath, hdigest⟩ }

/-- A complete row. -/
theorem append (hexact : row.Exact crates) (hrun : row.op = "run" → ∃ runId ∈ used, ∃ artifact,
      Retained crates stateDir d.artifacts row runId artifact) :
    Consistent crates stateDir used (rows ++ [row])
      { d with ledger := d.ledger ++ row.line crates } where
  ledger := by
    show d.ledger ++ row.line crates = _
    rw [h.ledger, flatMap_append, flatMap_singleton]
  exact found hfound := by
    rcases mem_append.mp hfound with hold | hnew
    · exact h.exact found hold
    · rw [mem_singleton.mp hnew]
      exact hexact
  retained found hfound hop := by
    rcases mem_append.mp hfound with hold | hnew
    · exact h.retained found hold hop
    · have hfound : found = row := mem_singleton.mp hnew
      subst hfound
      exact hrun hop
  pointed content hcontent := by
    obtain ⟨current, hpretty, hnames, hartifact⟩ := h.pointed content hcontent
    exact ⟨current, hpretty, hnames.append row, hartifact⟩

/-- A pointer at an artifact whose run has a row. -/
theorem install (hartifact : d.artifacts current.artifactPath = some artifact)
    (hdigest : digest crates.sha artifactDomain artifact = current.artifactDigest)
    (hnames : Names rows current) :
    Consistent crates stateDir used rows (applyAll d (Train.install crates current)) := by
  rw [applyAll_install]
  refine { h with pointed := fun content hcontent => ?_ }
  exact ⟨current, (Option.some.inj hcontent).symm, hnames, artifact, hartifact, hdigest⟩

end Consistent

end Files

/-! ## Cuts -/

section Cuts

variable {used : List String} {rows : List (LedgerRow F)} {d : TrainDir} {row : LedgerRow F}
  {current : CurrentArtifact F} {artifact : Bytes} {command : Command F}
  {execution : Execution F} {before : List FileStep} {k : Nat}

/-- A cut that is not inside the row falls before it or after it. -/
theorem take_of_row (h : ∀ byte, .append byte ∈ (before ++ append crates row).take k →
    (before ++ append crates row).drop k = []) :
    (before ++ append crates row).length ≤ k ∨
      k ≤ before.length ∧ (before ++ append crates row).take k = before.take k := by
  by_cases hk : k ≤ before.length
  · exact .inr ⟨hk, take_append_of_le_length hk⟩
  · left
    obtain ⟨byte, rest, hline⟩ :=
      exists_cons_of_ne_nil (line_ne_nil crates (row.stamped crates))
    obtain ⟨n, rfl⟩ := Nat.exists_eq_add_of_lt (Nat.lt_of_not_le hk)
    have hmem : FileStep.append byte ∈ (before ++ append crates row).take (before.length + n + 1) := by
      rw [append, hline, map_cons, Nat.add_assoc, take_length_add_append,
        take_succ_cons]
      exact mem_append_right _ mem_cons_self
    exact drop_eq_nil_iff.mp (h byte hmem)

/-- The rows after a cut: the new one is there when all steps are made. -/
def rowsAfter (rows : List (LedgerRow F)) (execution : Execution F) (k : Nat) :
    List (LedgerRow F) :=
  rows ++ (if execution.steps.length ≤ k then execution.result.toOption.toList else [])

/-- A command that ends with a row: what holds before the row and what holds
after it. -/
theorem consistent_of_row (hcut : Cut crates d command ((before ++ append crates row).take k)
      ((before ++ append crates row).drop k))
    (hbefore : k ≤ before.length → (before ++ append crates row).drop k ≠ [] →
      Consistent crates stateDir used rows (applyAll d (before.take k)))
    (hall : Consistent crates stateDir used (rows ++ [row.stamped crates])
      (applyAll d (before ++ append crates row))) :
    Consistent crates stateDir used
      (rowsAfter rows ⟨before ++ append crates row, .ok (row.stamped crates)⟩ k)
      (applyAll d ((before ++ append crates row).take k)) := by
  unfold rowsAfter
  by_cases hlength : (before ++ append crates row).length ≤ k
  · rw [if_pos hlength, take_of_length_le hlength]
    exact hall
  · rw [if_neg hlength, append_nil]
    have hleft : (before ++ append crates row).drop k ≠ [] :=
      fun hnil => hlength (drop_eq_nil_iff.mp hnil)
    rcases take_of_row hcut.row with hmade | ⟨hk, htake⟩
    · exact absurd hmade hlength
    · rw [htake]
      exact hbefore hk hleft

/-- A command that stopped before its row. -/
theorem consistent_of_error
    (h : Consistent crates stateDir used rows (applyAll d (before.take k))) :
    Consistent crates stateDir used (rowsAfter rows ⟨before, .error error⟩ k)
      (applyAll d (before.take k)) := by
  unfold rowsAfter
  simpa [Except.toOption] using h

section

variable (crates current) (rest : List FileStep)

theorem copy_mem_take (hk : 1 ≤ k) :
    .copy current.artifactPath ∈ (install crates current ++ rest).take k := by
  obtain ⟨n, rfl⟩ := Nat.exists_eq_add_of_le' hk
  exact mem_cons_self

theorem rename_mem_take (hk : 3 ≤ k) : .rename ∈ (install crates current ++ rest).take k := by
  obtain ⟨n, rfl⟩ := Nat.exists_eq_add_of_le' hk
  simp [install, writeCurrent]

theorem rename_mem_drop (hk : k < 3) : .rename ∈ (install crates current ++ rest).drop k := by
  interval_cases k <;> simp [install, writeCurrent]

end

/-- The cuts of an installation: before the rename the old pointer stands. -/
theorem Consistent.install_cut (h : Consistent crates stateDir used rows d)
    (hserde : Serde crates) (hk : k < 3) (hpath : d.artifacts current.artifactPath = some artifact)
    (hsame : 1 ≤ k → ∀ old, Train.readCurrent crates d = .ok (some old) →
      digest crates.sha artifactDomain artifact = old.artifactDigest) :
    Consistent crates stateDir used rows (applyAll d ((Train.install crates current).take k)) := by
  by_cases hzero : k = 0
  · subst hzero
    exact h
  · have hcopy := h.copy hpath (hsame (Nat.one_le_iff_ne_zero.mpr hzero)) hserde
    by_cases hone : k = 1
    · subst hone
      exact hcopy
    · have htwo : k = 2 := by omega
      subst htwo
      exact hcopy.writeTemporary _

end Cuts

end Abbey.Train
