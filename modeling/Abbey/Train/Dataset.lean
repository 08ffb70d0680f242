import Abbey.Memory.Record
import Abbey.Train.Ledger
import Abbey.Train.Redaction

/-!
# The corpus and its digest

`src/train/dataset.rs` and `split.rs`.  A corpus of pairs is built from the
curated records of the memory, in the order of the splits, and named by a
digest over its fields with a zero byte after each.
-/

namespace Abbey.Train

open Abbey.Lib
open Abbey.Conversation (Sha256 utf8 trim)
open Abbey.Learning (Bytes)
open Abbey.Memory (F32 MemoryFilter MemoryRecord)

/-! ## Splits -/

def splitRule : String := "abbey.train.split.v1"

def datasetDomain : String := "abbey.train.dataset.v1"

def trainPercent : Nat := 80

inductive Split where
  | train
  | validation

def Split.asStr : Split → String
  | .train => "train"
  | .validation => "validation"

def Split.rank : Split → Nat
  | .train => 0
  | .validation => 1

/-- The first four bytes of the hash of an id, as a number. -/
def bucket (sha : Sha256) (recordId : String) : Nat :=
  ((sha (utf8 splitRule ++ utf8 recordId)).toList.take 4).foldl
    (fun value byte => value * 256 + byte.toNat) 0

def assign (sha : Sha256) (recordId : String) (percent : Nat) : Split :=
  if bucket sha recordId % 100 < percent then .train else .validation

/-! ## The digest -/

/-- One redacted pair. -/
structure Pair where
  id : String
  prompt : String
  response : String
  deriving DecidableEq

/-- What the digest covers. -/
def datasetPayload (sha : Sha256) (pairs : List Pair) (percent : Nat) : Bytes :=
  utf8 splitRule ++ [0] ++ utf8 (toString percent) ++ [0] ++
    pairs.flatMap (fun pair =>
      utf8 (assign sha pair.id percent).asStr ++ [0] ++ utf8 pair.id ++ [0] ++
        utf8 pair.prompt ++ [0] ++ utf8 pair.response ++ [0])

def datasetDigest (sha : Sha256) (pairs : List Pair) (percent : Nat) : String :=
  digest sha datasetDomain (datasetPayload sha pairs percent)

/-! ## The memory corpus -/

inductive SkipReason where
  | obsolete
  | missingProvenance
  | belowConfidence
  | notAPair
  | blank
  deriving DecidableEq

structure Corpus where
  pairs : List Pair
  redactedPairs : Nat
  skipped : List (SkipReason × Nat)

/-- `READY_CONFIDENCE`, the number `0.9f32`. -/
def readyConfidence : ℚ := 15099494 / 16777216

/-- The comparison with the bar; nothing is below it that is not a number. -/
def belowReady : F32 → Bool
  | .finite value => value < readyConfidence
  | .infinite positive => !positive
  | .nan => false

def bump (reason : SkipReason) : List (SkipReason × Nat) → List (SkipReason × Nat)
  | [] => [(reason, 1)]
  | (other, n) :: counts =>
    if other = reason then (other, n + 1) :: counts else (other, n) :: bump reason counts

/-- What a record gives: its pair, and whether redaction changed it. -/
def candidate (distillPair : String → Option (String × String)) (record : MemoryRecord) :
    Except SkipReason (Pair × Bool) :=
  if record.obsolete then .error .obsolete
  else if trim record.provenance = "" then .error .missingProvenance
  else if belowReady record.confidence then .error .belowConfidence
  else
    match distillPair record.payload with
    | none => .error .notAPair
    | some (prompt, response) =>
      if trim prompt = "" ∨ trim response = "" then .error .blank
      else
        let prompt := redact prompt
        let response := redact response
        .ok (⟨record.id, prompt.text, response.text⟩, prompt.changed || response.changed)

/-- One record of the loop. -/
def Corpus.add (distillPair : String → Option (String × String)) (corpus : Corpus)
    (record : MemoryRecord) : Corpus :=
  match candidate distillPair record with
  | .error reason => { corpus with skipped := bump reason corpus.skipped }
  | .ok (pair, changed) =>
    { corpus with
      pairs := corpus.pairs ++ [pair]
      redactedPairs := if changed then corpus.redactedPairs + 1 else corpus.redactedPairs }

/-- The order of the splits, and of the ids in one. -/
def splitOrder (sha : Sha256) (percent : Nat) (a b : Pair) : Bool :=
  let left := (assign sha a.id percent).rank
  let right := (assign sha b.id percent).rank
  left < right || (left = right && Decidable.decide (a.id ≤ b.id))

def sortIntoSplitOrder (sha : Sha256) (percent : Nat) (pairs : List Pair) : List Pair :=
  pairs.mergeSort (splitOrder sha percent)

/-- `filter(retention, None, limit)` on a store that lists its records so. -/
def filterListed (parseRfc3339 : String → Option Int) (retention : String) (limit : Nat)
    (listed : List MemoryRecord) : List MemoryRecord :=
  (listed.filter (MemoryFilter.matches parseRfc3339
    ⟨some retention, none, none, none, none, none, none⟩)).take limit

/-- The records that the memory corpus is built from. -/
def candidates (parseRfc3339 : String → Option Int) (listed : List MemoryRecord) :
    List MemoryRecord :=
  filterListed parseRfc3339 "train_candidate" 10000 listed

def memoryCorpus (sha : Sha256) (parseRfc3339 : String → Option Int)
    (distillPair : String → Option (String × String)) (listed : List MemoryRecord) : Corpus :=
  let corpus := (candidates parseRfc3339 listed).foldl (Corpus.add distillPair) ⟨[], 0, []⟩
  { corpus with
    pairs := sortIntoSplitOrder sha trainPercent
      (corpus.pairs.mergeSort (fun a b => Decidable.decide (a.id ≤ b.id))) }

end Abbey.Train
