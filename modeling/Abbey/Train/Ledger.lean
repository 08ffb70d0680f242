import Abbey.Learning.Splits

/-!
# The training ledger

`src/train/ledger.rs`.  The ledger is a file of rows, one line each, to
which every command appends.  The pointer at the current artifact is a file
of its own, which is replaced by a rename.

A row is written to the file without a buffer, so that a crash may leave any
part of its bytes.  The parser of JSON, SHA-256, the text of a score and the
score of a text come from the crates `serde_json` and `sha2`.
-/

namespace Abbey.Train

open Abbey.Lib
open Abbey.Conversation (Sha256 utf8 lowerHex)
open Abbey.Learning (Bytes canonical fromUtf8)
open Abbey.Run (isWhitespace)

variable {F : Type}

/-- What comes from other crates.  `numberText` is the text of a number, and has
none for a number that is not finite. -/
structure Crates (F : Type) where
  sha : Sha256
  parse : Bytes → Option Value
  numberText : F → Option String
  read : Number → Option F

/-- A number that is read back as it was written. -/
def Crates.Exact (crates : Crates F) (x : F) : Prop :=
  ∃ text, crates.numberText x = some text ∧ crates.read (.other text) = some x

/-! ## Digests -/

def artifactDomain : String := "abbey.train.artifact.v1"

def ledgerDomain : String := "abbey.train.ledger.v1"

def digest (sha : Sha256) (domain : String) (payload : Bytes) : String :=
  "sha256:" ++ lowerHex (sha (utf8 domain ++ [0] ++ payload)).toList

/-! ## Rows -/

structure LedgerRow (F : Type) where
  ts : String
  op : String
  runId : Option String
  source : Option String
  datasetDigest : Option String
  datasetPath : Option String
  manifestDigest : Option String
  consentDigest : Option String
  artifactPath : Option String
  artifactDigest : Option String
  reproductionScore : Option F
  baselineReproductionScore : Option F
  metric : Option String
  validationLeak : Option String
  decision : Option String
  detail : String
  rowDigest : String

def LedgerRow.new (ts op : String) : LedgerRow F where
  ts := ts
  op := op
  runId := none
  source := none
  datasetDigest := none
  datasetPath := none
  manifestDigest := none
  consentDigest := none
  artifactPath := none
  artifactDigest := none
  reproductionScore := none
  baselineReproductionScore := none
  metric := none
  validationLeak := none
  decision := none
  detail := ""
  rowDigest := ""

/-- A field that is left out when there is nothing in it. -/
def optional (key : String) (value : Option Value) : List (String × Value) :=
  value.elim [] fun value => [(key, value)]

def optionalText (key : String) (value : Option String) : List (String × Value) :=
  optional key (value.map .string)

def Crates.scoreValue (crates : Crates F) (x : F) : Value :=
  (crates.numberText x).elim .null fun text => .number (.other text)

def optionalScore (crates : Crates F) (key : String) (value : Option F) : List (String × Value) :=
  optional key (value.map crates.scoreValue)

/-- The fields in the order of the structure. -/
def LedgerRow.toValue (crates : Crates F) (row : LedgerRow F) : Value :=
  .object <|
    [("ts", .string row.ts), ("op", .string row.op)] ++
    optionalText "run_id" row.runId ++
    optionalText "source" row.source ++
    optionalText "dataset_digest" row.datasetDigest ++
    optionalText "dataset_path" row.datasetPath ++
    optionalText "manifest_digest" row.manifestDigest ++
    optionalText "consent_digest" row.consentDigest ++
    optionalText "artifact_path" row.artifactPath ++
    optionalText "artifact_digest" row.artifactDigest ++
    optionalScore crates "reproduction_score" row.reproductionScore ++
    optionalScore crates "baseline_reproduction_score" row.baselineReproductionScore ++
    optionalText "metric" row.metric ++
    optionalText "validation_leak" row.validationLeak ++
    optionalText "decision" row.decision ++
    [("detail", .string row.detail), ("row_digest", .string row.rowDigest)]

/-- A text that may be missing. -/
def textField (value : Value) (key : String) : Option (Option String) :=
  match value.index key with
  | .null => some none
  | .string text => some (some text)
  | _ => none

def scoreField (crates : Crates F) (value : Value) (key : String) : Option (Option F) :=
  match value.index key with
  | .null => some none
  | .number n => (crates.read n).map some
  | _ => none

def LedgerRow.ofValue (crates : Crates F) (value : Value) : Option (LedgerRow F) := do
  let ts ← (value.index "ts").asStr
  let op ← (value.index "op").asStr
  let runId ← textField value "run_id"
  let source ← textField value "source"
  let datasetDigest ← textField value "dataset_digest"
  let datasetPath ← textField value "dataset_path"
  let manifestDigest ← textField value "manifest_digest"
  let consentDigest ← textField value "consent_digest"
  let artifactPath ← textField value "artifact_path"
  let artifactDigest ← textField value "artifact_digest"
  let reproductionScore ← scoreField crates value "reproduction_score"
  let baselineReproductionScore ← scoreField crates value "baseline_reproduction_score"
  let metric ← textField value "metric"
  let validationLeak ← textField value "validation_leak"
  let decision ← textField value "decision"
  let detail ← match value.asObject.bind (fun fields => fields.lookup "detail") with
    | none => some ""
    | some value => value.asStr
  let rowDigest ← (value.index "row_digest").asStr
  some ⟨ts, op, runId, source, datasetDigest, datasetPath, manifestDigest, consentDigest,
    artifactPath, artifactDigest, reproductionScore, baselineReproductionScore, metric,
    validationLeak, decision, detail, rowDigest⟩

def LedgerRow.contentDigest (crates : Crates F) (row : LedgerRow F) : String :=
  digest crates.sha ledgerDomain (canonical ({ row with rowDigest := "" }.toValue crates))

/-! ## The current artifact -/

structure CurrentArtifact (F : Type) where
  runId : String
  artifactPath : String
  artifactDigest : String
  reproductionScore : Option F
  updatedAt : String

def CurrentArtifact.toValue (crates : Crates F) (current : CurrentArtifact F) : Value :=
  .object <|
    [("run_id", .string current.runId), ("artifact_path", .string current.artifactPath),
      ("artifact_digest", .string current.artifactDigest)] ++
    optionalScore crates "reproduction_score" current.reproductionScore ++
    [("updated_at", .string current.updatedAt)]

def CurrentArtifact.ofValue (crates : Crates F) (value : Value) : Option (CurrentArtifact F) := do
  let runId ← (value.index "run_id").asStr
  let artifactPath ← (value.index "artifact_path").asStr
  let artifactDigest ← (value.index "artifact_digest").asStr
  let reproductionScore ← scoreField crates value "reproduction_score"
  let updatedAt ← (value.index "updated_at").asStr
  some ⟨runId, artifactPath, artifactDigest, reproductionScore, updatedAt⟩

/-- The text of an object over several lines, where no field is an array or
an object. -/
def prettyObject (fields : List (String × Value)) : List Char :=
  "\x7b\n".toList ++
    ",\n".toList.intercalate (fields.map fun (key, value) =>
      "  ".toList ++ Value.printString key ++ ": ".toList ++ value.print) ++
    "\n\x7d".toList

/-- `serde_json::to_vec_pretty`. -/
def CurrentArtifact.pretty (crates : Crates F) (current : CurrentArtifact F) : Bytes :=
  utf8 (String.ofList (prettyObject ((current.toValue crates).asObject.getD [])))

/-! ## Files -/

/-- The files under `train`.  A ledger that is not there reads as an empty
one. -/
structure TrainDir where
  ledger : Bytes
  current : Option Bytes
  temporary : Option Bytes
  currentArtifact : Option Bytes
  artifacts : String → Option Bytes

def TrainDir.empty : TrainDir := ⟨[], none, none, none, fun _ => none⟩

/-- One step of a command on the file system. -/
inductive FileStep where
  /-- The trainer writes the artifact of a run. -/
  | train (path : String) (artifact : Bytes)
  | copy (path : String)
  | writeTemporary (content : Bytes)
  | rename
  /-- One byte of a row, or its end. -/
  | append (byte : UInt8)

def FileStep.apply (d : TrainDir) : FileStep → TrainDir
  | .train path artifact =>
    { d with artifacts := fun other => if other = path then some artifact else d.artifacts other }
  | .copy path => { d with currentArtifact := d.artifacts path }
  | .writeTemporary content => { d with temporary := some content }
  | .rename => { d with current := d.temporary, temporary := none }
  | .append byte => { d with ledger := d.ledger ++ [byte] }

def applyAll (d : TrainDir) (steps : List FileStep) : TrainDir := steps.foldl FileStep.apply d

def newline : UInt8 := 0x0a

/-- The line of a row. -/
def LedgerRow.line (crates : Crates F) (row : LedgerRow F) : Bytes :=
  canonical (row.toValue crates) ++ [newline]

/-- The row that `append` writes. -/
def LedgerRow.stamped (crates : Crates F) (row : LedgerRow F) : LedgerRow F :=
  { row with rowDigest := row.contentDigest crates }

def append (crates : Crates F) (row : LedgerRow F) : List FileStep :=
  ((row.stamped crates).line crates).map .append

/-- A line without the carriage return at its end. -/
def chomp (line : Bytes) : Bytes := if line.getLast? = some 0x0d then line.dropLast else line

def readLine (crates : Crates F) (line : Bytes) : Option (LedgerRow F) := do
  let text ← fromUtf8 (chomp line)
  if text.toList.all isWhitespace then none
  else do
    let value ← crates.parse (chomp line)
    LedgerRow.ofValue crates value

/-- `read`: what does not parse is skipped. -/
def read (crates : Crates F) (d : TrainDir) : List (LedgerRow F) :=
  (d.ledger.splitOnP (fun byte => byte = newline)).filterMap (readLine crates)

def unreadablePointer : String :=
  "the current-artifact pointer is unreadable; refusing to treat it as absent"

def readCurrent (crates : Crates F) (d : TrainDir) :
    Except String (Option (CurrentArtifact F)) :=
  match d.current with
  | none => .ok none
  | some content =>
    match (crates.parse content).bind (CurrentArtifact.ofValue crates) with
    | some current => .ok (some current)
    | none => .error unreadablePointer

def writeCurrent (crates : Crates F) (current : CurrentArtifact F) : List FileStep :=
  [.writeTemporary (current.pretty crates), .rename]

def LedgerRow.promoted (row : LedgerRow F) : Bool :=
  row.op = "run" && row.decision = some "promoted"

def promotedRuns (rows : List (LedgerRow F)) : List (LedgerRow F) := rows.filter LedgerRow.promoted

end Abbey.Train
