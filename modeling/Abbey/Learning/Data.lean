import Abbey.Conversation.Identity
import Abbey.Lib.Json

/-!
# Datasets

`crates/abbey-learning/src/data.rs`, with what it uses of `io.rs`: a source
of examples is redacted, checked, split by the lineage of its rows, and
published as a directory with a manifest; a published directory is checked
again before it is used.

SHA-256, the parser of JSON and the four patterns of `redact` are what the
crates `sha2`, `serde_json` and `regex` give.  Errors of the file system are
not modelled.
-/

namespace Abbey.Learning

open Abbey.Lib
open Abbey.Conversation (Sha256 utf8 lowerHex trim)
open Abbey.Run (isWhitespace)

abbrev Bytes := List UInt8

/-- What comes from other crates: `Sha256::digest`, `parse_json`, and the
loop of `redact` over its patterns. -/
structure Crates where
  sha : Sha256
  parse : Bytes → Option Value
  secrets : String → String

inductive LearningError where
  | bail (message : String)
  | missing
  | notUtf8
  | notJson
  deriving DecidableEq

/-! ## Texts -/

/-- `str::split_whitespace`. -/
def words (cs : List Char) : List (List Char) :=
  (cs.splitOnP isWhitespace).filter (fun word => word ≠ [])

def joinWords (ws : List (List Char)) : List Char := [' '].intercalate ws

def normalize (s : String) : String := String.ofList (joinWords (words s.toList))

example : normalize " a\t\nb c " = "a b c" := by decide

/-- A token that is an absolute path. -/
def isAbsolutePath : List Char → Bool
  | '/' :: _ => true
  | c :: ':' :: d :: _ => c.toNat < 0x80 && (d = '/' || d = '\\')
  | _ => false

/-- One word of `redact` with the blank that ends it. -/
def redactWord (word : List Char) : List Char :=
  let trimmed := (word.reverse.dropWhile isWhitespace).reverse
  if isAbsolutePath trimmed then "[path]".toList ++ word.drop trimmed.length else word

def redact (crates : Crates) (text : String) : String :=
  String.ofList ((splitInclusive isWhitespace (crates.secrets text).toList).flatMap redactWord)

example : redact ⟨fun _ => .replicate 32 0, fun _ => none, id⟩ "see /etc/x, C:\\y\n" =
    "see [path] [path]\n" := by
  decide

/-! ## Files -/

abbrev Directory := String → Option Bytes

def maxJson : Nat := 8 * 1024 * 1024

/-- `str::from_utf8`. -/
def fromUtf8 (bytes : Bytes) : Option String := String.fromUTF8? ⟨bytes.toArray⟩

def boundedRead (file : Option Bytes) (limit : Nat) : Except LearningError Bytes := do
  let bytes ← required file .missing
  ensure (bytes.length ≤ limit) (.bail "input exceeds byte limit")
  .ok bytes

def readJson (crates : Crates) (file : Option Bytes) : Except LearningError Value := do
  let bytes ← boundedRead file maxJson
  required (crates.parse bytes) .notJson

def readJsonl (crates : Crates) (file : Option Bytes) : Except LearningError (List Value) := do
  let bytes ← boundedRead file maxJson
  let text ← required (fromUtf8 bytes) .notUtf8
  ((lines text.toList).filter (fun line => !line.all isWhitespace)).mapM
    (fun line => required (crates.parse (utf8 (String.ofList line))) .notJson)

/-- The fields of an object are in the order of their keys already. -/
def canonical (value : Value) : Bytes := utf8 (String.ofList value.print)

def digestBytes (sha : Sha256) (bytes : Bytes) : String := lowerHex (sha bytes).toList

def digestValue (sha : Sha256) (value : Value) : String := digestBytes sha (canonical value)

def sha256File (sha : Sha256) (file : Option Bytes) : Except LearningError String := do
  let bytes ← required file .missing
  .ok (digestBytes sha bytes)

/-- What `write_json_new` writes. -/
def jsonFile (value : Value) : Except LearningError Bytes := do
  let bytes := canonical value ++ [0x0a]
  ensure (bytes.length ≤ maxJson) (.bail "JSON output exceeds bound")
  .ok bytes

def consent (grant : Bytes) (isPrivate : Bool) : Except LearningError Unit := do
  let bytes ← boundedRead (some grant) 4096
  let text ← required (fromUtf8 bytes) .notUtf8
  ensure ((lines text.toList).contains "abbey-train-consent: v1".toList)
    (.bail "explicit training consent required")
  ensure (!isPrivate || (lines text.toList).contains "abbey-private-training-consent: v1".toList)
    (.bail "private examples require separate private training consent")

def checkedText (value : String) : Except LearningError Unit :=
  ensure (!value.toList.all isWhitespace && value.utf8ByteSize ≤ 65536 && !value.toList.contains '\x00')
    (.bail "nonempty bounded text required")

/-! ## Rows -/

structure Row where
  id : String
  lineage : String
  prompt : String
  response : String
  provenance : String
  approved : Bool
  isPrivate : Bool
  deriving DecidableEq

def Row.toValue (row : Row) : Value :=
  .object [("approved", .bool row.approved), ("id", .string row.id),
    ("lineage", .string row.lineage), ("private", .bool row.isPrivate),
    ("prompt", .string row.prompt), ("provenance", .string row.provenance),
    ("response", .string row.response)]

def rowKeys : List String :=
  ["approved", "id", "lineage", "private", "prompt", "provenance", "response"]

/-- `serde_json::from_value`: an object with the seven fields and no other,
or the sequence of their values. -/
def Row.ofValue (value : Value) : Option Row :=
  match value with
  | .object fields => do
    guard (fields.all (fun field => rowKeys.contains field.1))
    some ⟨← (value.index "id").asStr, ← (value.index "lineage").asStr,
      ← (value.index "prompt").asStr, ← (value.index "response").asStr,
      ← (value.index "provenance").asStr, ← (value.index "approved").asBool,
      ← (value.index "private").asBool⟩
  | .array [.string id, .string lineage, .string prompt, .string response, .string provenance,
      .bool approved, .bool isPrivate] =>
    some ⟨id, lineage, prompt, response, provenance, approved, isPrivate⟩
  | _ => none

def readRows (crates : Crates) (file : Option Bytes) : Except LearningError (List Row) := do
  let values ← readJsonl crates file
  values.mapM (fun value => required (Row.ofValue value) .notJson)

inductive Split where
  | train | valid | test
  deriving DecidableEq

def Split.name : Split → String
  | .train => "train"
  | .valid => "valid"
  | .test => "test"

def Split.fileName (split : Split) : String := split.name ++ ".jsonl"

def splitFor (sha : Sha256) (lineage : String) : Split :=
  let digest := sha (utf8 ("abbey.family.split.v1\x00" ++ lineage))
  let bucket : Nat := (digest.toList.take 8).foldl (fun n byte => n * 256 + byte.toNat) 0 % 100
  if bucket < 80 then .train else if bucket < 90 then .valid else .test

/-! ## The checks of a dataset -/

/-- What `validate_rows` has seen so far; the latest lineage of a prompt is
the first. -/
structure Seen where
  ids : List String
  contents : List (String × String)
  prompts : List (String × String)

def validateRow (isPrivate : Bool) (seen : Seen) (row : Row) : Except LearningError Seen := do
  [row.id, row.lineage, row.prompt, row.response, row.provenance].forM checkedText
  ensure row.approved (.bail "example not approved")
  ensure (!row.isPrivate || isPrivate) (.bail "private examples require separate consent")
  ensure (!seen.ids.contains row.id) (.bail "duplicate example id")
  let content := (normalize row.prompt, normalize row.response)
  ensure (!seen.contents.contains content) (.bail "duplicate example content")
  ensure ((seen.prompts.lookup (normalize row.prompt)).all (fun lineage => lineage = row.lineage))
    (.bail "duplicate prompt across lineages")
  .ok ⟨row.id :: seen.ids, content :: seen.contents,
    (normalize row.prompt, row.lineage) :: seen.prompts⟩

def validateRows (rows : List Row) (isPrivate : Bool) : Except LearningError Unit := do
  ensure (rows ≠ [] && rows.length ≤ 100000) (.bail "nonempty bounded dataset required")
  let _ ← rows.foldlM (validateRow isPrivate) ⟨[], [], []⟩
  .ok ()

/-! ## Publication -/

def redactRow (crates : Crates) (row : Row) : Row :=
  { row with
    prompt := redact crates row.prompt
    response := redact crates row.response
    provenance := redact crates row.provenance }

/-- The rows of one split in the order of their ids. -/
def splitRows (sha : Sha256) (rows : List Row) (split : Split) : List Row :=
  (rows.filter (fun row => splitFor sha row.lineage = split)).mergeSort (fun a b => a.id ≤ b.id)

def rowsFile (rows : List Row) : Bytes := rows.flatMap (fun row => canonical row.toValue ++ [0x0a])

/-- The manifest without its own digest. -/
def unsignedManifest (sha : Sha256) (source : Bytes) (isPrivate : Bool) (rows : List Row) :
    List (String × Value) :=
  let splits : List Split := [.test, .train, .valid]
  [("counts", .object (splits.map (fun split =>
      (split.name, .number (.posInt (splitRows sha rows split).length))))),
    ("files", .object (splits.map (fun split =>
      (split.fileName, .string (digestBytes sha (rowsFile (splitRows sha rows split))))))),
    ("private", .bool isPrivate),
    ("schema", .string "abbey.dataset.v1"),
    ("source_sha256", .string (digestBytes sha source))]

/-- The manifest: its digest comes between `schema` and `source_sha256`. -/
def datasetManifest (sha : Sha256) (source : Bytes) (isPrivate : Bool) (rows : List Row) : Value :=
  let unsigned := unsignedManifest sha source isPrivate rows
  .object (unsigned.take 4 ++ [("sha256", .string (digestValue sha (.object unsigned)))] ++
    unsigned.drop 4)

/-- The directory that `prepare` publishes. -/
def published (sha : Sha256) (rows : List Row) (manifest : Bytes) : Directory := fun name =>
  if name = "manifest.json" then some manifest
  else ([Split.train, .valid, .test].find? (fun split => split.fileName = name)).map
    (fun split => rowsFile (splitRows sha rows split))

/-- `prepare`, with the bytes of its source and of its grant, where the
output is absent. -/
def prepare (crates : Crates) (source grant : Bytes) (isPrivate : Bool) :
    Except LearningError (Value × Directory) := do
  consent grant isPrivate
  let rows := (← readRows crates (some source)).map (redactRow crates)
  validateRows rows isPrivate
  ensure ([Split.test, .train, .valid].all (fun split => splitRows crates.sha rows split ≠ []))
    (.bail "all three lineage splits must be nonempty")
  [Split.test, .train, .valid].forM (fun split =>
    ensure ((rowsFile (splitRows crates.sha rows split)).length ≤ maxJson)
      (.bail "split exceeds bound"))
  let manifest := datasetManifest crates.sha source isPrivate rows
  let file ← jsonFile manifest
  .ok (manifest, published crates.sha rows file)

/-! ## Verification -/

/-- One split of `verify_dataset`. -/
def verifySplit (crates : Crates) (dir : Directory) (manifest : Value) (split : Split) :
    Except LearningError (List Row) := do
  let digest ← sha256File crates.sha (dir split.fileName)
  ensure ((manifest.index "files").index split.fileName = .string digest)
    (.bail "dataset file digest mismatch")
  let rows ← readRows crates (dir split.fileName)
  ensure (rows ≠ [] && ((manifest.index "counts").index split.name).asU64 = some rows.length)
    (.bail "dataset split count mismatch")
  ensure (rows.all (fun row => splitFor crates.sha row.lineage = split))
    (.bail "lineage split leakage")
  .ok rows

/-- `verify_dataset`. -/
def verifyDataset (crates : Crates) (dir : Directory) : Except LearningError Value := do
  let manifest ← readJson crates (dir "manifest.json")
  let fields ← required manifest.asObject (.bail "dataset object required")
  let unsigned := Value.object (fields.filter (fun field => field.1 ≠ "sha256"))
  ensure (manifest.index "schema" = .string "abbey.dataset.v1" &&
    manifest.index "sha256" = .string (digestValue crates.sha unsigned))
    (.bail "dataset manifest identity mismatch")
  let files ← required (manifest.index "files").asObject (.bail "dataset files required")
  let names := files.map Prod.fst
  ensure (names.all (fun name => [Split.train, .valid, .test].any (fun s => s.fileName = name)) &&
    [Split.train, .valid, .test].all (fun split => names.contains split.fileName))
    (.bail "invalid dataset files")
  let isPrivate ← required (manifest.index "private").asBool (.bail "private boolean required")
  let train ← verifySplit crates dir manifest .train
  let valid ← verifySplit crates dir manifest .valid
  let test ← verifySplit crates dir manifest .test
  validateRows (train ++ valid ++ test) isPrivate
  .ok manifest

end Abbey.Learning
