import Mathlib.Algebra.Order.Field.Rat
import Mathlib.Data.List.Destutter
import Mathlib.Order.Lattice
import Mathlib.Data.String.Basic
import Abbey.Conversation.Identity

/-!
# Memory records

`src/memory/mod.rs`, `semantic.rs` and `embedding.rs`: the records both
memory backends keep, the filters and the checks they share, and the stored
embeddings with the space they belong to.

Instants are parsed by a crate that is not part of the sources; the parser
is a parameter of the filters.
-/

namespace Abbey.Memory

open Abbey.Conversation (hexByte trim utf8)
open Abbey.Lib

/-- A floating-point number: only the finite ones are numbers in JSON. -/
inductive F32 where
  | finite (value : ℚ)
  | infinite (positive : Bool)
  | nan
deriving DecidableEq

def F32.isFinite : F32 → Bool
  | .finite _ => true
  | _ => false

structure MemoryRecord where
  id : String
  sourceType : String
  sourceRef : String
  project : String
  timestamp : String
  origin : String
  payload : String
  summary : String
  tags : List String
  embeddingRef : Option String
  confidence : F32
  provenance : String
  retention : String
  supersedes : Option String
  classification : String
  obsolete : Bool
deriving DecidableEq

def notFound (id : String) : String := "memory id not found: " ++ id

/-- Reject `train_candidate` records without provenance, on every backend. -/
def validateTrain (rec : MemoryRecord) : Except String Unit :=
  ensure (!(rec.retention = "train_candidate" && trim rec.provenance = ""))
    "train_candidate requires non-empty provenance"

/-- The record of `promote`: the new retention, also as a tag. -/
def MemoryRecord.promoted (rec : MemoryRecord) (newRetention : String) : MemoryRecord :=
  { rec with
    retention := newRetention
    tags := if rec.tags.any (fun t => t = newRetention) then rec.tags else rec.tags ++ [newRetention] }

@[simp] theorem MemoryRecord.id_promoted (rec : MemoryRecord) (newRetention : String) :
    (rec.promoted newRetention).id = rec.id := rfl

/-! ## Filters -/

structure MemoryFilter where
  retention : Option String
  tag : Option String
  sourceType : Option String
  sourceRef : Option String
  project : Option String
  sinceAt : Option String
  untilAt : Option String

/-- `Option::is_none_or`. -/
def isNoneOr {α : Type} (value : Option α) (p : α → Bool) : Bool := value.elim true p

section Filter

-- `DateTime::parse_from_rfc3339`, with the instant as a number.
variable (parseRfc3339 : String → Option Int)

def MemoryFilter.timestampMatches (filter : MemoryFilter) (record : MemoryRecord) : Bool :=
  if filter.sinceAt.isNone && filter.untilAt.isNone then true
  else match parseRfc3339 record.timestamp with
    | none => false
    | some recorded =>
      isNoneOr filter.sinceAt (fun raw => (parseRfc3339 raw).any (fun since => since ≤ recorded)) &&
      isNoneOr filter.untilAt (fun raw => (parseRfc3339 raw).any (fun upper => recorded ≤ upper))

def MemoryFilter.matches (filter : MemoryFilter) (record : MemoryRecord) : Bool :=
  isNoneOr filter.retention (fun value => record.retention = value) &&
  isNoneOr filter.tag (fun value => record.tags.any (fun tag => tag = value)) &&
  isNoneOr filter.sourceType (fun value => record.sourceType = value) &&
  isNoneOr filter.sourceRef (fun value => record.sourceRef = value) &&
  isNoneOr filter.project (fun value => record.project = value) &&
  filter.timestampMatches parseRfc3339 record

end Filter

/-! ## Embeddings -/

/-- One 64-bit FNV-1a lane. -/
def lane (bytes : List UInt8) (seed : UInt64) : UInt64 :=
  bytes.foldl (fun hash byte => (hash ^^^ byte.toUInt64) * 0x100000001b3) seed

/-- `{:016x}`. -/
def hex16 (n : UInt64) : List Char :=
  (List.range 8).reverse.flatMap (fun i => hexByte (n >>> (8 * UInt64.ofNat i)).toUInt8)

def stableDigest (bytes : List UInt8) : String :=
  String.ofList (hex16 (lane bytes 0xcbf29ce484222325) ++ hex16 (lane bytes 0x84222325cbf29ce4))

def maxEmbeddingDimension : Nat := 4096

/-- `NORMALIZATION`. -/
def l2Normalization : String := "l2-v1"

structure EmbeddingSpace where
  spaceId : String
  provider : String
  model : String
  revision : String
  dimension : Nat
  normalization : String

def EmbeddingSpace.new (provider model revision : String) (dimension : Nat) :
    Except String EmbeddingSpace := do
  ensure (trim provider ≠ "" && trim model ≠ "" && trim revision ≠ "")
    "embedding space provider/model/revision must not be empty"
  ensure (provider = "none" || (1 ≤ dimension && dimension ≤ maxEmbeddingDimension))
    "embedding dimension must be between 1 and 4096"
  let identity := "provider=" ++ provider ++ "\nmodel=" ++ model ++ "\nrevision=" ++ revision ++
    "\ndimension=" ++ toString dimension ++ "\nnormalization=" ++ l2Normalization
  .ok ⟨"sem-v1-" ++ stableDigest (utf8 identity), provider, model, revision, dimension,
    l2Normalization⟩

structure StoredEmbedding where
  memoryId : String
  spaceId : String
  provider : String
  model : String
  revision : String
  normalization : String
  contentHash : String
  dimension : Nat
  vector : List F32
  updatedAt : String

def StoredEmbedding.validate (embedding : StoredEmbedding) : Except String Unit := do
  ensure (embedding.dimension ≠ 0 && embedding.vector.length = embedding.dimension)
    "invalid stored embedding dimension"
  ensure (embedding.vector.all F32.isFinite) "stored embedding contains a non-finite value"
  let space ← EmbeddingSpace.new embedding.provider embedding.model embedding.revision
    embedding.dimension
  ensure (space.spaceId = embedding.spaceId && space.normalization = embedding.normalization)
    "stored embedding metadata does not match its space id"

structure EmbeddingStatus where
  total : Nat
  ready : Nat
  missing : Nat
  stale : Nat

def nonSubjectTags : List String := ["activity", "stm", "ltm", "train_candidate", "self-learn"]

def subjectTags (record : MemoryRecord) : List String :=
  ((record.tags.filter (fun tag => !nonSubjectTags.contains tag)).mergeSort
    (fun a b => decide (a ≤ b))).destutter (· ≠ ·)

/-- Text sent to learned providers: summary plus subject tags. -/
def embeddingText (record : MemoryRecord) : String :=
  let tags := subjectTags record
  if tags.isEmpty then record.summary
  else record.summary ++ "\nsubject-tags: " ++ String.intercalate ", " tags

def contentHash (record : MemoryRecord) : String := stableDigest (utf8 (embeddingText record))

/-- One record of `embedding_status`, with the hash stored for it. -/
def EmbeddingStatus.count (status : EmbeddingStatus) (record : MemoryRecord)
    (storedHash : Option String) : EmbeddingStatus :=
  let status := { status with total := status.total + 1 }
  match storedHash with
  | none => { status with missing := status.missing + 1 }
  | some hash =>
    if hash = contentHash record then { status with ready := status.ready + 1 }
    else { status with stale := status.stale + 1 }

end Abbey.Memory
