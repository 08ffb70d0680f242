import Mathlib.Data.List.SplitOn
import Abbey.Conversation.Identity
import Abbey.Lib.Offsets
import Abbey.Lib.ThreeWay

/-!
# Personal memory

`extensions/bot/src/personal_memory.rs` with the facts of `memory.rs`: the
consent records of members, the exposure of what was published, and the
checks of both.

SHA-256 and the length of the JSON text of the metadata come from outside.
What a member's row holds besides facts, pending supersessions and a time is
left out, as are the stores of other subsystems.
-/

namespace Abbey.Consent

open Abbey.Lib
open Abbey.Run (isControl)
open Abbey.Conversation (Sha256 utf8 beBytes digestParts isLowerHexSha256)

/-- An ordered map from texts. -/
abbrev BTreeMap (β : Type) := Std.ExtTreeMap String β

def personalMemoryPolicyVersion : Nat := 1

def maxSubjects : Nat := 10000

def maxFacts : Nat := 100

def u64Max : Nat := 2 ^ 64 - 1

inductive UseChoice where
  | off
  | on
  deriving DecidableEq

instance : Inhabited UseChoice := ⟨.off⟩

structure ConsentStamp where
  revision : Nat
  consentEpoch : Nat
  exposureEpoch : Nat
  deriving DecidableEq, Inhabited

structure MemberProof where
  actor : String
  subject : String
  guild : String
  interactionId : String
  platform : String
  at_ : Nat
  policyVersion : Nat
  deriving DecidableEq

structure SelfAuthorizedFactAction where
  proof : MemberProof
  expected : ConsentStamp

inductive MemoryConsentError where
  | invalidProof
  | stale
  | bounds
  | persistence
  | unverifiedFact
  | blocked
  | notFound
  | requestConflict
  deriving DecidableEq

inductive FactAuthority where
  | selfAuthored
  | memberConfirmed
  deriving DecidableEq

structure FactProof where
  authority : FactAuthority
  member : MemberProof
  factKey : String
  previousRevision : Nat
  deriving DecidableEq

structure ConsentStatus where
  choice : UseChoice
  stamp : ConsentStamp
  policyVersion : Nat
  eligibleFacts : Nat
  unverifiedFacts : Nat
  deriving DecidableEq

structure CompletedRequest where
  completed : Bool
  payloadDigest : String
  at_ : Nat
  result : ConsentStatus
  deriving DecidableEq

structure PersonalMemorySubject where
  schema : Nat
  revision : Nat
  consentEpoch : Nat
  choice : UseChoice
  policyVersion : Nat
  proofs : BTreeMap FactProof
  outcomes : BTreeMap CompletedRequest
  activationPending : Bool
  deriving DecidableEq

/-- `PersonalMemorySubject::default`. -/
instance : Inhabited PersonalMemorySubject := ⟨⟨0, 0, 0, .off, 0, ∅, ∅, false⟩⟩

structure ExposureReceipt where
  epoch : Nat
  cutoff : Nat
  requestDigest : String
  deriving DecidableEq

structure ExposureState where
  schema : Nat
  epoch : Nat
  cutoff : Nat
  scopeEpochs : BTreeMap Nat
  receipts : List ExposureReceipt
  deriving DecidableEq

/-! ## Facts -/

structure PendingSupersession where
  newFact : String
  oldFact : String
  at_ : Nat
  deriving DecidableEq

structure UserMemory where
  facts : List String
  updatedAt : Nat
  pendingSupersessions : List PendingSupersession
  deriving DecidableEq, Inhabited

structure MemoryBank where
  users : BTreeMap UserMemory
  deriving DecidableEq

structure MemoryFact where
  guild : String
  user : String
  text : String
  at_ : Nat

def userKeySeparator : Char := '\x1f'

/-- `str::rfind`: the last place where a text begins. -/
def rfind (marker : List Char) : List Char → Option Nat
  | [] => if marker = [] then some 0 else none
  | c :: cs =>
    match rfind marker cs with
    | some place => some (place + 1)
    | none => if marker.isPrefixOf (c :: cs) then some 0 else none

def nonEmptyPair (guild user : List Char) : Option (String × String) :=
  if guild ≠ [] ∧ user ≠ [] then some (String.ofList guild, String.ofList user) else none

/-- The guild and the user of a key, also of a key in the historical form. -/
def splitUserKey (key : String) : Option (String × String) :=
  match splitOnce userKeySeparator key.toList with
  | some (guild, user) => nonEmptyPair guild user
  | none => do
    let (network, _) ← splitOnce ':' key.toList
    let split ← rfind (':' :: (network ++ [':'])) key.toList
    nonEmptyPair (key.toList.take split) (key.toList.drop (split + 1))

def MemoryBank.factRecords (bank : MemoryBank) : List MemoryFact :=
  bank.users.toList.flatMap (fun (key, memory) =>
    match splitUserKey key with
    | some (guild, user) => memory.facts.map (fun text => ⟨guild, user, text, memory.updatedAt⟩)
    | none => [])

def subjectKey (guild user : String) : String := guild ++ "\x1f" ++ user

def factKey (sha : Sha256) (guild user text : String) : String :=
  digestParts sha "abbey-personal-fact-v1"
    ([guild, user, text].flatMap (fun s => beBytes s.utf8ByteSize ++ utf8 s))

def receiptKey (guild user text : String) : String := guild ++ "\x1f" ++ user ++ "\x1f" ++ text

/-! ## Checks -/

def validScope (value : String) : Bool :=
  value ≠ "" && value.utf8ByteSize ≤ 128 && !value.toList.any isControl

def validSubjectKey (key : String) : Bool :=
  match key.toList.splitOn userKeySeparator with
  | [guild, user] => validScope (String.ofList guild) && validScope (String.ofList user)
  | _ => false

/-- `valid_digest`. -/
def validDigest (value : String) : Bool := isLowerHexSha256 value

def SelfAuthorizedFactAction.new (proof : MemberProof) (expected : ConsentStamp) :
    Except MemoryConsentError SelfAuthorizedFactAction :=
  if proof.actor ≠ proof.subject || !validScope proof.actor || !validScope proof.guild ||
      proof.interactionId = "" || proof.platform = "" ||
      proof.policyVersion ≠ personalMemoryPolicyVersion ||
      [proof.actor, proof.guild, proof.interactionId, proof.platform].any
        (fun s => 128 < s.utf8ByteSize || '\x1f' ∈ s.toList) then
    .error .invalidProof
  else .ok ⟨proof, expected⟩

def validProof (key : String) (s : PersonalMemorySubject) (digest : String) (p : FactProof) :
    Bool :=
  digest.utf8ByteSize = 64 && validDigest digest && p.factKey = digest && p.member.at_ ≠ 0 &&
    p.previousRevision ≤ s.revision && p.member.actor = p.member.subject &&
    subjectKey p.member.guild p.member.subject = key &&
    (SelfAuthorizedFactAction.new p.member default).isOk

/-- The sum of the counts is checked, so an overflow fails as a large sum does. -/
def validOutcome (exposure : ExposureState) (s : PersonalMemorySubject) (id : String)
    (r : CompletedRequest) : Bool :=
  id ≠ "" && id.utf8ByteSize ≤ 64 && validDigest r.payloadDigest && r.at_ ≠ 0 &&
    r.result.policyVersion = personalMemoryPolicyVersion &&
    r.result.stamp.revision ≤ s.revision && r.result.stamp.consentEpoch ≤ s.consentEpoch &&
    r.result.stamp.exposureEpoch ≤ exposure.epoch &&
    r.result.eligibleFacts + r.result.unverifiedFacts ≤ 100

def validSubject (key : String) (s : PersonalMemorySubject) : Bool :=
  validSubjectKey key && s.schema ≤ 1 && s.revision ≠ u64Max && s.consentEpoch ≠ u64Max &&
    (s.policyVersion = 0 || s.policyVersion = personalMemoryPolicyVersion) &&
    s.proofs.size ≤ 100 && s.outcomes.size ≤ 128 &&
    (s.choice ≠ .on || (s.schema = 1 && s.policyVersion = personalMemoryPolicyVersion))

def validExposure (exposure : ExposureState) : Bool :=
  exposure.schema ≤ 1 && exposure.epoch ≠ u64Max && exposure.scopeEpochs.size ≤ maxSubjects &&
    exposure.receipts.length ≤ 128 &&
    exposure.scopeEpochs.toList.all (fun (key, epoch) =>
      validSubjectKey key && epoch ≤ exposure.epoch) &&
    exposure.receipts.all (fun r =>
      validDigest r.requestDigest && r.epoch ≤ exposure.epoch && r.cutoff ≤ exposure.cutoff)

/-- The length of the JSON text of the metadata, where it has one. -/
abbrev EncodedLen := BTreeMap PersonalMemorySubject → ExposureState → Option Nat

def validateMetadata (encodedLen : EncodedLen) (subjects : BTreeMap PersonalMemorySubject)
    (exposure : ExposureState) : Except MemoryConsentError Unit := do
  ensure (subjects.size ≤ maxSubjects && validExposure exposure) .bounds
  let bytes ← required (encodedLen subjects exposure) .bounds
  ensure (bytes ≤ 8 * 1024 * 1024) .bounds
  subjects.toList.forM (fun (key, s) => do
    ensure (validSubject key s) .bounds
    ensure (s.proofs.toList.all (fun (digest, p) => validProof key s digest p)) .invalidProof
    ensure (s.outcomes.toList.all (fun (id, r) => validOutcome exposure s id r)) .bounds)

/-- What is saved, as far as the facts of members go, and the identity of the
document that it was read from. -/
structure Stores where
  canonicalBase : Option String
  personalMemory : BTreeMap PersonalMemorySubject
  personalMemoryExposure : ExposureState
  memory : MemoryBank
  memoryReceipts : BTreeMap String
  deriving DecidableEq

end Abbey.Consent
