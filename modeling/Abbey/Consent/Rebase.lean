import Abbey.Consent.Records

/-!
# Rebasing a publication

`extensions/bot/src/runtime/personal_memory_commit/reconciliation.rs`: what was
published from `base` and is on disk, but was never installed, is applied to
the live stores, which may have changed since.
-/

namespace Abbey.Consent

open Abbey.Lib
open Abbey.Conversation (Sha256)

namespace Stores

/-- The row of a member, as the default where there is none. -/
def user (stores : Stores) (key : String) : UserMemory := (stores.memory.users[key]?).getD default

/-- The record of a subject, as the default where there is none. -/
def subject (stores : Stores) (key : String) : PersonalMemorySubject :=
  (stores.personalMemory[key]?).getD default

end Stores

/-- Whether a publication left a member's facts alone. -/
def UserMemory.SameRows (before after : UserMemory) : Prop :=
  before.facts = after.facts ∧ before.pendingSupersessions = after.pendingSupersessions

instance (before after : UserMemory) : Decidable (before.SameRows after) :=
  inferInstanceAs (Decidable (_ ∧ _))

def mergeUser (before after target : UserMemory) : UserMemory where
  facts := mergeRows target.facts before.facts after.facts
  updatedAt := max target.updatedAt after.updatedAt
  pendingSupersessions := mergeRows target.pendingSupersessions before.pendingSupersessions
    after.pendingSupersessions

/-- Apply what was published about one member's row. -/
def rebaseUser (base disk : Stores) (users : BTreeMap UserMemory) (key : String) :
    Except MemoryConsentError (BTreeMap UserMemory) :=
  if (base.user key).SameRows (disk.user key) then .ok users
  else
    let target := mergeUser (base.user key) (disk.user key) ((users[key]?).getD default)
    if target.facts.length > maxFacts then .error .bounds else .ok (users.insert key target)

/-- A subject that did not change takes the published record.  In one that did,
a denial on either side wins. -/
def mergeSubject (before published target : PersonalMemorySubject) : PersonalMemorySubject :=
  if target = before then published
  else
    let denied : Bool := target.choice = .off || published.choice = .off
    { schema := max target.schema published.schema
      revision := max target.revision published.revision
      consentEpoch := max target.consentEpoch published.consentEpoch
      choice := if denied then .off else target.choice
      policyVersion := max target.policyVersion published.policyVersion
      proofs := mergeMap target.proofs before.proofs published.proofs
      outcomes := mergeMap target.outcomes before.outcomes published.outcomes
      activationPending :=
        if denied then false else target.activationPending || published.activationPending }

def rebaseSubject (base : Stores) (subjects : BTreeMap PersonalMemorySubject)
    (entry : String × PersonalMemorySubject) : BTreeMap PersonalMemorySubject :=
  subjects.insert entry.1
    (mergeSubject (base.subject entry.1) entry.2 ((subjects[entry.1]?).getD default))

def PersonalMemorySubject.retainProofs (s : PersonalMemorySubject) (factKeys : List String) :
    PersonalMemorySubject :=
  { s with proofs := s.proofs.filter (fun key _ => key ∈ factKeys) }

/-- The order of the receipts, by epoch and then by cutoff. -/
def ExposureReceipt.NotAfter (a b : ExposureReceipt) : Prop :=
  a.epoch < b.epoch ∨ a.epoch = b.epoch ∧ a.cutoff ≤ b.cutoff

instance : DecidableRel ExposureReceipt.NotAfter :=
  fun a b => inferInstanceAs (Decidable (a.epoch < b.epoch ∨ a.epoch = b.epoch ∧ a.cutoff ≤ b.cutoff))

def raiseEpoch (epochs : BTreeMap Nat) (entry : String × Nat) : BTreeMap Nat :=
  epochs.insert entry.1 (max ((epochs[entry.1]?).getD 0) entry.2)

def mergeExposure (exposure published : ExposureState) : ExposureState where
  schema := max exposure.schema published.schema
  epoch := max exposure.epoch published.epoch
  cutoff := max exposure.cutoff published.cutoff
  scopeEpochs := published.scopeEpochs.toList.foldl raiseEpoch exposure.scopeEpochs
  receipts := lastRows ExposureReceipt.NotAfter 128 (addMissing exposure.receipts published.receipts)

def MemoryBank.factKeys (sha : Sha256) (bank : MemoryBank) : List String :=
  bank.factRecords.map (fun fact => factKey sha fact.guild fact.user fact.text)

def MemoryBank.receiptKeys (bank : MemoryBank) : List String :=
  bank.factRecords.map (fun fact => receiptKey fact.guild fact.user fact.text)

/-- Everything but the facts, which come first. -/
def rebaseRest (sha : Sha256) (base live disk : Stores) (memory : MemoryBank) : Stores where
  canonicalBase := disk.canonicalBase
  personalMemory := (disk.personalMemory.toList.foldl (rebaseSubject base) live.personalMemory).map
    (fun _ s => s.retainProofs (memory.factKeys sha))
  personalMemoryExposure :=
    mergeExposure live.personalMemoryExposure disk.personalMemoryExposure
  memory := memory
  memoryReceipts :=
    (mergeMap live.memoryReceipts base.memoryReceipts disk.memoryReceipts).filter
      (fun key _ => key ∈ memory.receiptKeys)

/-- `UninstalledPublication::rebase`. -/
def rebase (sha : Sha256) (encodedLen : EncodedLen) (base live disk : Stores) :
    Except MemoryConsentError Stores := do
  let users ← (keysOf base.memory.users disk.memory.users).foldlM (rebaseUser base disk)
    live.memory.users
  let rebased := rebaseRest sha base live disk ⟨users⟩
  validateMetadata encodedLen rebased.personalMemory rebased.personalMemoryExposure
  .ok rebased

end Abbey.Consent
