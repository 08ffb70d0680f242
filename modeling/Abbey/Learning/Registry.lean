import Abbey.Conversation.Names
import Abbey.Learning.Data
import Abbey.Lib.Durable

/-!
# The registry of releases

`crates/abbey-learning/src/registry.rs`: `promote` retains the record of a
run under the digest of the record and moves the pointer `current.json` to
it; `rollback` exchanges the current and the previous release.  The
durable steps are the creation of a file, the write of its bytes and the
rename of a file.

The lock of the registry serialises the calls and is not modelled.  Runs do
not change while the registry is used.
-/

namespace Abbey.Learning

open Abbey.Lib
open Abbey.Conversation (Sha256 utf8 lowerHex isLowerHexSha256)

/-- What the files of a run say: `verify_training` and
`validated_evaluation`. -/
structure Evidence where
  trainingSha256 : String
  evaluationSha256 : String
  baseSha256 : Value
  adapterSha256 : Value
  qualification : Value
  passed : Bool

/-- The runs: `Path::canonicalize` and the evidence of a canonical path. -/
structure Runs where
  canonicalize : String → Option String
  evidence : String → Except LearningError Evidence

/-- The files of a registry: `current.json`, `releases/` and what `.publish-`
files were left behind. -/
structure Registry where
  current : Option Bytes
  records : String → Option Bytes
  temps : List Bytes

def Registry.empty : Registry := ⟨none, fun _ => none, []⟩

abbrev RegistryM := Durable Registry LearningError

variable (crates : Crates) (runs : Runs)

/-- The record of a run. -/
def recordOf (run : String) (evidence : Evidence) : Value :=
  .object [("adapter_sha256", evidence.adapterSha256), ("base_sha256", evidence.baseSha256),
    ("evaluation_sha256", .string evidence.evaluationSha256),
    ("qualification", evidence.qualification), ("run", .string run),
    ("schema", .string "abbey.release.v1"), ("training_sha256", .string evidence.trainingSha256)]

def releaseRecord (run : String) : Except LearningError Value := do
  let run ← required (runs.canonicalize run) .missing
  let evidence ← runs.evidence run
  ensure evidence.passed (.bail "quality gate failed; current release preserved")
  .ok (recordOf run evidence)

def retained (registry : Registry) (id : String) : Except LearningError Value := do
  ensure (isLowerHexSha256 id) (.bail "invalid retained release id")
  let record ← readJson crates (registry.records id)
  ensure (digestValue crates.sha record = id) (.bail "retained release record corrupt")
  let run ← required (record.index "run").asStr (.bail "retained run required")
  let again ← releaseRecord runs run
  ensure (again = record) (.bail "retained release identity changed")
  .ok record

def pointer (registry : Registry) : Except LearningError (Option Value) :=
  match registry.current with
  | none => .ok none
  | some bytes => do
    let value ← readJson crates (some bytes)
    ensure ((value.index "release").asStr.any isLowerHexSha256)
      (.bail "invalid current release pointer")
    ensure (value.index "previous" = .null || (value.index "previous").asStr.any isLowerHexSha256)
      (.bail "invalid previous release pointer")
    .ok (some value)

def pointerValue (release : String) (previous : Value) : Value :=
  .object [("previous", previous), ("release", .string release)]

/-! ## The durable steps -/

def putRecord (registry : Registry) (id : String) (bytes : Bytes) : Registry :=
  { registry with records := fun name => if name = id then some bytes else registry.records name }

/-- `write_json_new` of a record: the file is created and then written. -/
def writeRecord (id : String) (record : Value) : RegistryM Unit := do
  let bytes ← .lift (jsonFile record)
  .commit (fun registry => .ok (putRecord registry id [], ()))
  .commit (fun registry => .ok (putRecord registry id bytes, ()))

/-- `atomic_json` of the pointer: a new file is created, written and renamed. -/
def atomicPointer (value : Value) : RegistryM Unit := do
  let bytes ← .lift (jsonFile value)
  .commit (fun registry => .ok ({ registry with temps := [] :: registry.temps }, ()))
  .commit (fun registry => .ok ({ registry with temps := bytes :: registry.temps.tail }, ()))
  .commit (fun registry =>
    .ok ({ registry with current := some bytes, temps := registry.temps.tail }, ()))

/-! ## The calls -/

/-- The record of `promote` is there, or it is written. -/
def retainRecord (id : String) (record : Value) : RegistryM Unit := do
  match ← .read (fun registry => .ok (registry.records id)) with
  | some bytes => .read (fun registry => do
    let stored ← readJson crates (some bytes)
    ensure (stored = record) (.bail "retained release corrupt; pointer preserved")
    let kept ← retained crates runs registry id
    ensure (kept = record) (.bail "retained release corrupt; pointer preserved"))
  | none => writeRecord id record

/-- The end of `promote`, once the record is retained. -/
def promotePointer (id : String) : RegistryM Value := do
  match ← .read (pointer crates) with
  | some current => do
    let release ← .lift (required (current.index "release").asStr
      (.bail "current release id required"))
    let _ ← .read (fun registry => retained crates runs registry release)
    if release = id then pure current
    else do
      let result := pointerValue id (current.index "release")
      atomicPointer result
      pure result
  | none => do
    let result := pointerValue id .null
    atomicPointer result
    pure result

def promote (grant : Bytes) (run : String) : RegistryM Value := do
  .lift (consent grant false)
  let record ← .lift (releaseRecord runs run)
  retainRecord crates runs (digestValue crates.sha record) record
  promotePointer crates runs (digestValue crates.sha record)

def rollback (grant : Bytes) : RegistryM Value := do
  .lift (consent grant false)
  let found ← .read (pointer crates)
  let current ← .lift (required found (.bail "no current release"))
  let previous ← .lift (required (current.index "previous").asStr (.bail "no previous release"))
  let _ ← .read (fun registry => retained crates runs registry previous)
  let result := pointerValue previous (current.index "release")
  atomicPointer result
  pure result

end Abbey.Learning
