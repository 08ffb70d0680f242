import Abbey.Provider.Scoring
import Abbey.Train.Ledger

/-!
# The commands of the trainer

`src/train/mod.rs`: `prepare`, `run` and `rollback`.  A command is the list
of the steps that it makes on the file system, with its result.  It reads
the ledger and the pointer before it writes to them.

The corpus, the trainer and the evaluation give their results from outside,
and so do the consent file, the clock and `new_run_id`.  What a command
prints is not modelled.
-/

namespace Abbey.Train

open Abbey.Lib
open Abbey.Learning (Bytes)
open Abbey.Provider (Floating)

variable {F : Type}

inductive TrainError where
  /-- `Outcome::error` and `Outcome::usage_error`. -/
  | outcome (code : Nat) (message : String)
  | failed (message : String)

/-- The steps of a command, and the row that it appended. -/
structure Execution (F : Type) where
  steps : List FileStep
  result : Except TrainError (LedgerRow F)

/-! ## Decisions -/

structure Score (F : Type) where
  score : F
  probes : Nat
  contextLength : Nat

inductive Decision where
  | promoted
  | regression
  | belowMinimum
  | trainedNotPromoted
  | notEvaluated
  | validationLeak
  deriving DecidableEq

def Decision.asStr : Decision → String
  | .promoted => "promoted"
  | .regression => "regression"
  | .belowMinimum => "below_minimum"
  | .trainedNotPromoted => "trained_not_promoted"
  | .notEvaluated => "not_evaluated"
  | .validationLeak => "validation_leak"

def Decision.promotes (decision : Decision) : Bool := decision = .promoted

section Decide

variable [Floating F]

def minimumPromotionScore : F := Floating.literal 0 1

/-- The order of floating-point numbers. -/
def less (x y : F) : Bool := Floating.le x y && !Floating.le y x

def decide : Option F → Option F → Decision
  | none, _ => .notEvaluated
  | some score, some baseline =>
    if less score baseline then .regression
    else if Floating.le score minimumPromotionScore then .belowMinimum
    else .promoted
  | some score, none =>
    if Floating.le score minimumPromotionScore then .trainedNotPromoted else .promoted

end Decide

def metric : String := "abbey.train.metric.corpus-reproduction.v1"

/-- `LeakReport::summary`. -/
def leakSummary (leaked : Nat) : String :=
  if leaked = 0 then "none"
  else toString leaked ++ " validation pair(s) present in the training corpus"

/-! ## Paths -/

def runDir (stateDir runId : String) : String := stateDir ++ "/train/" ++ runId

def datasetPath (stateDir runId : String) : String := runDir stateDir runId ++ "/dataset.jsonl"

def artifactPath (stateDir runId : String) : String := runDir stateDir runId ++ "/artifact.json"

/-! ## Commands -/

/-- What `write_run` tells of a corpus. -/
structure Prepared where
  datasetDigest : String
  manifestDigest : String
  trainPairs : Nat
  validationPairs : Nat

/-- What a command gets from outside.  The consent is that of the file that
was named, and the corpus is `none` when it has no pairs. -/
structure PrepareRequest where
  consent : Option (Except String String)
  corpus : Except String (Option Prepared)
  source : String
  runId : String
  ts : String

/-- The digest of the consent. -/
def requireConsent (verb : String) (consent : Option (Except String String)) :
    Except TrainError String := do
  let consent ← required consent (.outcome 2 ("abbey train " ++ verb ++ " requires --consent <path>"))
  mapErr (fun message => .outcome 2 message) consent

def requireCorpus (message : String) (corpus : Except String (Option Prepared)) :
    Except TrainError Prepared := do
  let corpus ← mapErr .failed corpus
  required corpus (.outcome 1 message)

/-- The fields that `prepare` and `run` record alike. -/
def preparedRow (stateDir op ts source runId consent : String) (prepared : Prepared) :
    LedgerRow F :=
  { LedgerRow.new ts op with
    runId := some runId
    source := some source
    datasetDigest := some prepared.datasetDigest
    datasetPath := some (datasetPath stateDir runId)
    manifestDigest := some prepared.manifestDigest
    consentDigest := some consent }

def prepareRow (stateDir : String) (request : PrepareRequest) (consent : String)
    (prepared : Prepared) : LedgerRow F :=
  let row : LedgerRow F :=
    preparedRow stateDir "prepare" request.ts request.source request.runId consent prepared
  { row with
    detail := toString prepared.trainPairs ++ " training pair(s), " ++
      toString prepared.validationPairs ++ " validation pair(s)" }

def checkPrepare (request : PrepareRequest) : Except TrainError (String × Prepared) := do
  let consent ← requireConsent "prepare" request.consent
  let prepared ← requireCorpus "no curated pairs — there is nothing to prepare" request.corpus
  .ok (consent, prepared)

def cmdPrepare (crates : Crates F) (stateDir : String) (request : PrepareRequest) : Execution F :=
  match checkPrepare request with
  | .error error => ⟨[], .error error⟩
  | .ok (consent, prepared) =>
    let row := prepareRow stateDir request consent prepared
    ⟨append crates row, .ok (row.stamped crates)⟩

/-- What a run gets from outside as well.  `baseline` is the score of the
artifact that is current, where there is one. -/
structure RunRequest (F : Type) extends PrepareRequest where
  trainer : Except String Unit
  artifact : Except String Bytes
  score : Except String (Score F)
  leaked : Nat
  baseline : Except String F
  updatedAt : String

def checkRun (request : RunRequest F) : Except TrainError (String × Prepared) := do
  let consent ← requireConsent "run" request.consent
  mapErr (fun message => .outcome 1 message) request.trainer
  let prepared ← requireCorpus "no curated pairs — there is nothing to train" request.corpus
  .ok (consent, prepared)

/-- The score of the current artifact, with a note where it has none. -/
def baselineOf (request : RunRequest F) (current : Option (CurrentArtifact F)) :
    Option F × String :=
  match current, request.baseline with
  | some _, .ok baseline => (some baseline, "")
  | some _, .error error => (none, "baseline unavailable: " ++ error)
  | none, _ => (none, "")

def decisionOf [Floating F] (request : RunRequest F) (score : Score F)
    (current : Option (CurrentArtifact F)) : Decision :=
  let baseline := (baselineOf request current).1
  if current.isSome && baseline.isNone then .notEvaluated
  else if request.leaked = 0 then
    decide (if 0 < score.probes then some score.score else none) baseline
  else .validationLeak

def runDetail (score : Score F) (note : String) : String :=
  toString score.probes ++ " probe(s); context window " ++ toString score.contextLength ++
    " character(s)" ++ (if note.isEmpty then "" else "; " ++ note)

def runRow [Floating F] (crates : Crates F) (stateDir : String) (request : RunRequest F)
    (consent : String) (prepared : Prepared) (artifact : Bytes) (score : Score F)
    (current : Option (CurrentArtifact F)) : LedgerRow F :=
  let row : LedgerRow F :=
    preparedRow stateDir "run" request.ts request.source request.runId consent prepared
  { row with
    artifactPath := some (artifactPath stateDir request.runId)
    artifactDigest := some (digest crates.sha artifactDomain artifact)
    reproductionScore := some score.score
    baselineReproductionScore := (baselineOf request current).1
    metric := some metric
    validationLeak := some (leakSummary request.leaked)
    decision := some (decisionOf request score current).asStr
    detail := runDetail score (baselineOf request current).2 }

/-- What a promotion points at. -/
def promotion (crates : Crates F) (stateDir : String) (request : RunRequest F)
    (artifact : Bytes) (score : Score F) : CurrentArtifact F where
  runId := request.runId
  artifactPath := artifactPath stateDir request.runId
  artifactDigest := digest crates.sha artifactDomain artifact
  reproductionScore := some score.score
  updatedAt := request.updatedAt

/-- Make an artifact the current one. -/
def install (crates : Crates F) (current : CurrentArtifact F) : List FileStep :=
  .copy current.artifactPath :: writeCurrent crates current

/-- A run whose trainer wrote an artifact. -/
def recordRun [Floating F] (crates : Crates F) (stateDir : String) (request : RunRequest F)
    (consent : String) (prepared : Prepared) (artifact : Bytes) (d : TrainDir) : Execution F :=
  let train := FileStep.train (artifactPath stateDir request.runId) artifact
  match request.score with
  | .error error => ⟨[train], .error (.failed error)⟩
  | .ok score =>
    match readCurrent crates d with
    | .error error => ⟨[train], .error (.failed error)⟩
    | .ok current =>
      let row := runRow crates stateDir request consent prepared artifact score current
      let installed := if (decisionOf request score current).promotes then
        install crates (promotion crates stateDir request artifact score) else []
      ⟨train :: installed ++ append crates row, .ok (row.stamped crates)⟩

/-- A trainer that fails leaves no artifact. -/
def cmdRun [Floating F] (crates : Crates F) (stateDir : String) (request : RunRequest F)
    (d : TrainDir) : Execution F :=
  match checkRun request with
  | .error error => ⟨[], .error error⟩
  | .ok (consent, prepared) =>
    match request.artifact with
    | .error error => ⟨[], .error (.outcome 1 error)⟩
    | .ok artifact => recordRun crates stateDir request consent prepared artifact d

structure RollbackRequest where
  consent : Option (Except String String)
  to' : Option String
  ts : String
  updatedAt : String

/-- The run to restore: the one that is named, or the promoted one before the
current. -/
def rollbackTarget (request : RollbackRequest) (rows : List (LedgerRow F))
    (current : Option (CurrentArtifact F)) : Option (LedgerRow F) :=
  match request.to' with
  | some runId => rows.find? (fun row => row.op = "run" && row.runId = some runId)
  | none =>
    let promoted := promotedRuns rows
    match current.bind (fun current => promoted.findIdx? (fun row => row.runId = some current.runId)) with
    | some 0 => none
    | some index => promoted[index - 1]?
    | none => promoted.getLast?

def nothingToRestore : String :=
  "no previous artifact to restore — every retained run is already current"

/-- The row to restore, with its artifact. -/
def checkRollback (crates : Crates F) (request : RollbackRequest) (d : TrainDir) :
    Except TrainError (String × LedgerRow F × String × Bytes) := do
  let consent ← requireConsent "rollback" request.consent
  let current ← mapErr .failed (readCurrent crates d)
  let target ← required (rollbackTarget request (read crates d) current) (.outcome 1 nothingToRestore)
  let path ← required target.artifactPath (.outcome 1 "the recorded run produced no artifact")
  let artifact ← required (d.artifacts path) (.outcome 1 ("the retained artifact is missing: " ++ path))
  .ok (consent, target, path, artifact)

def restored (crates : Crates F) (request : RollbackRequest) (target : LedgerRow F) (path : String)
    (artifact : Bytes) : CurrentArtifact F where
  runId := target.runId.getD ""
  artifactPath := path
  artifactDigest := digest crates.sha artifactDomain artifact
  reproductionScore := target.reproductionScore
  updatedAt := request.updatedAt

def rollbackRow (request : RollbackRequest) (consent : String) (target : LedgerRow F)
    (current : CurrentArtifact F) (artifact : Bytes) : LedgerRow F :=
  { LedgerRow.new request.ts "rollback" with
    consentDigest := some consent
    runId := some current.runId
    artifactPath := some current.artifactPath
    artifactDigest := some current.artifactDigest
    reproductionScore := target.reproductionScore
    metric := target.metric
    detail := "restored " ++ toString artifact.length ++ " byte(s) of the retained artifact" }

def cmdRollback (crates : Crates F) (request : RollbackRequest) (d : TrainDir) : Execution F :=
  match checkRollback crates request d with
  | .error error => ⟨[], .error error⟩
  | .ok (consent, target, path, artifact) =>
    let current := restored crates request target path artifact
    let row := rollbackRow request consent target current artifact
    ⟨install crates current ++ append crates row, .ok (row.stamped crates)⟩

end Abbey.Train
