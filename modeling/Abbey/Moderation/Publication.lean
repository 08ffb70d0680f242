import Abbey.Moderation.Life
import Abbey.Lib.Durable
import Abbey.Lib.System

/-!
# The durable transaction

`src/extensions/bot/src/persist/moderation_shadow.rs` and
`persist/owned_file.rs`: the store is a file that is replaced by a rename,
under two lock files.  A guard removes its file when it is dropped; a crash
leaves the file behind, and every later transaction is refused until the
owner has reviewed it.

`Env` says what the policy file, the clock and the file system answer.  The
JSON of a store is read back as the store; `size` is its length.
-/

namespace Abbey.Moderation

open Abbey.Lib Abbey.Run

/-! ## Files -/

structure Disk where
  store : Option CaseStore
  modeLock : Bool
  shadowLock : Bool
  pending : Bool

def Disk.empty : Disk := ⟨none, false, false, false⟩

abbrev Commit (α : Type) := Durable Disk String α

/-- The answers that an `OwnedFile` gets: at its creation, at the sync and
when it is removed. -/
structure OwnedFile where
  opens : Bool
  syncs : Bool
  removes : Bool

structure Env where
  policy : Except String (ShadowPolicy × String)
  digestLeased : Except String String
  digestApplied : Except String String
  digestPrepared : Except String String
  authorizedAt : Nat
  preliminaryAt : Nat
  leasedAt : Nat
  appliedAt : Nat
  preparedAt : Nat
  modeLease : OwnedFile
  shadowLease : OwnedFile
  pending : OwnedFile
  directory : Except String Unit
  readPreliminary : Except String Unit
  readCurrent : Except String Unit
  readPublished : Except String Unit
  readObserved : Except String Unit
  writes : Bool
  renames : Bool
  syncsDirectory : Bool
  isPrivate : Except String Unit
  readsBack : Bool

def maxBytes : Nat := 8 * 1024 * 1024

/-- `load_at` and `load_existing`. -/
def loadAt (digests : Digests) (reads : Except String Unit) (disk : Disk) :
    Except String CaseStore := do
  reads
  match disk.store with
  | none => .ok .default
  | some store => do
    store.validate digests
    .ok store

/-- `lease`: a lock file that is held for the rest of the computation. -/
def lease {α : Type} (file : OwnedFile) (held : Disk → Bool) (mark : Bool → Disk → Disk)
    (body : Commit α) : Commit α := do
  .commit (fun disk => do
    ensure (file.opens && !held disk) "contextual lease held; owner review required after crash"
    .ok (mark true disk, ()))
  Durable.closing (do
    .lift (ensure file.syncs "contextual lease sync failed")
    body) (fun _ disk => if file.removes then mark false disk else disk)

def leasePolicyControl {α : Type} (file : OwnedFile) (body : Commit α) : Commit α :=
  lease file Disk.modeLock (fun held disk => { disk with modeLock := held }) body

def leaseShadowControl {α : Type} (file : OwnedFile) (body : Commit α) : Commit α :=
  lease file Disk.shadowLock (fun held disk => { disk with shadowLock := held }) body

/-! ## The transaction -/

def publish (digests : Digests) (size : CaseStore → Nat) (env : Env) (store : CaseStore)
    (beforeRename : Except String Unit) : Commit Unit := do
  .lift (store.validate digests)
  .lift (ensure (size store ≤ maxBytes) "contextual publication exceeds bound")
  .commit (fun disk => do
    ensure (env.pending.opens && !disk.pending) "contextual pending file requires owner review"
    .ok ({ disk with pending := true }, ()))
  Durable.closing (do
    .lift (ensure env.writes "contextual write failed")
    .lift (ensure env.pending.syncs "contextual sync failed")
    .lift beforeRename
    .commit (fun disk => do
      ensure env.renames "contextual publication failed"
      .ok ({ disk with store := some store, pending := false }, ()))) (fun result disk =>
    -- `published` ends the guard
    if result.isOk then disk else { disk with pending := disk.pending && !env.pending.removes })
  .lift (ensure env.syncsDirectory "contextual directory sync failed")
  .lift env.isPrivate
  .lift (ensure env.readsBack "contextual readback failed")
  let observed ← .read (loadAt digests env.readPublished)
  .lift (ensure (observed = store) "contextual readback mismatch")

structure PublicationReceipt where
  caseId : String
  caseRevision : Nat
  storeRevision : Nat
  change : Change

def Mutation.authorizeSnapshot (mutation : Mutation) (policy : ShadowPolicy) (now : Nat) :
    Except String Unit :=
  match mutation with
  | .capture new => new.check policy now
  | .review _ authority _ | .appeal _ authority _ | .resolveAppeal _ authority _ =>
    authority.check policy now

def sameDigest (loaded : Except String String) (digest error : String) : Except String Unit := do
  let loaded ← loaded
  ensure (loaded = digest) error

/-- `transact`. -/
def transact (digests : Digests) (size : CaseStore → Nat) (env : Env)
    (expectedPolicyDigest : String) (mutation : Mutation) : Commit PublicationReceipt :=
  leasePolicyControl env.modeLease do
    let (shadow, digest) ← .lift env.policy
    .lift (ensure (digest = expectedPolicyDigest)
      "contextual policy changed; refresh native evidence")
    .lift (mutation.authorizeSnapshot shadow env.authorizedAt)
    let preliminary ← .read (loadAt digests env.readPreliminary)
    let _ ← .lift (preliminary.apply digests mutation shadow digest env.preliminaryAt).2
    .lift env.directory
    leaseShadowControl env.shadowLease do
      .lift (sameDigest env.digestLeased digest
        "contextual policy changed before private snapshot")
      .lift (mutation.authorizeSnapshot shadow env.leasedAt)
      let current ← .read (loadAt digests env.readCurrent)
      let applied := current.apply digests mutation shadow digest env.appliedAt
      let (caseId, change) ← .lift applied.2
      .lift (sameDigest env.digestApplied digest "contextual policy changed before publication")
      publish digests size env applied.1 (do
        sameDigest env.digestPrepared digest "contextual policy changed during preparation"
        let _ ← (applied.1.apply digests mutation shadow digest env.preparedAt).2
        .ok ())
      let observed ← .read (loadAt digests env.readObserved)
      let case ← .lift (required (observed.get caseId) "contextual case readback unavailable")
      pure ⟨caseId, case.revision, observed.revision, change⟩

/-! ## Runs -/

inductive Event where
  | transact (env : Env) (expectedPolicyDigest : String) (mutation : Mutation)
  -- the process ends after some durable steps
  | crash (env : Env) (expectedPolicyDigest : String) (mutation : Mutation) (steps : Nat)
  -- the owner removes what a crash left behind
  | ownerReview

def next (digests : Digests) (size : CaseStore → Nat) (disk : Disk) : Event → Option Disk
  | .transact env expectedPolicyDigest mutation =>
    some ((transact digests size env expectedPolicyDigest mutation).final disk)
  | .crash env expectedPolicyDigest mutation steps =>
    some (cut steps (transact digests size env expectedPolicyDigest mutation) disk)
  | .ownerReview => some { disk with modeLock := false, shadowLock := false, pending := false }

end Abbey.Moderation
