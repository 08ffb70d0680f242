import Abbey.Continuity.Cards
import Abbey.Lib.Durable

/-!
# Commits of continuity cards

`src/extensions/bot/src/runtime/continuity_commit.rs`, with `take_snapshot`
of `runtime.rs` and `persist_canonical_owned` of `persist.rs`.

A change of a card is made in a snapshot, staged as a pending publication,
published, and only then made in the live store (`publishContinuity`).
Until then every other snapshot carries it too (`overlayContinuity`).  The
commands hold the lock `persistence_preparation`, so they run one after the
other; a computation here is one command, and its durable steps are the
sections under the locks of the stores and of the safety state.

Of the stores only the cards and the work records are modelled.  `Outside`
says how everything else of a publication ends.
-/

namespace Abbey.Continuity

open Abbey.Lib Abbey.Run

/-! ## Stores and their publication -/

inductive PersistErrorCategory where
  | unsafeFileType
  | createDirectory
  | snapshotEncode
  | createTemporary
  | writeTemporary
  | syncTemporary
  | publishRename
  | syncDirectory
  | projectionEncode
  deriving DecidableEq

structure Stores where
  continuity : ContinuityStore
  work : WorkStore
  canonicalPreparationFailed : Bool

/-- How the rest of a publication ends: the other stores, the lineage of the
file and the file system; and whether the file then holds these bytes. -/
structure Outside where
  rest : Except PersistErrorCategory Unit
  exact : Bool

/-- `persist_canonical_owned`: nothing is written that cannot be read back. -/
def persistCanonicalOwned (rest : Except PersistErrorCategory Unit) (stores : Stores) :
    Except PersistErrorCategory Unit := do
  ensure (!stores.canonicalPreparationFailed) .snapshotEncode
  let _ ← mapErr (fun _ => PersistErrorCategory.snapshotEncode)
    (ContinuityStore.deserialize stores.continuity.serialize)
  rest

/-! ## State -/

structure PendingPublication where
  scope : WorkScope
  forgetMemo : Option String
  expected : Option ContinuityCard
  desired : Option ContinuityCard

/-- `ContinuitySafety`.  A forget is noted with whether the ledger took it. -/
structure ContinuitySafety where
  generation : Option Nat
  blocked : Finset WorkScope
  pending : Table PendingPublication.scope
  orphans : Table ContinuityCard.scope
  forgets : Table (Prod.fst : String × Bool → String)

def ContinuitySafety.new : ContinuitySafety := ⟨some 1, ∅, .empty, .empty, .empty⟩

structure AppState where
  continuity : ContinuityStore
  work : WorkStore
  safety : ContinuitySafety

/-- The episode gate: which guilds it covers, and the key under which it
remembers that a card is to be forgotten. -/
structure Host where
  gateFor : String → Bool
  fingerprint : ContinuityCard → String

inductive MemoryCandidateState where
  | live
  | forgotten
  | unknown
  deriving DecidableEq

abbrev Commit (α : Type) := Durable AppState WorkError α

def maxRecovery : Nat := 256

def ContinuitySafety.bump (safety : ContinuitySafety) : ContinuitySafety :=
  { safety with generation := safety.generation.bind (fun g => checkedAdd g 1) }

def AppState.continuityGeneration (s : AppState) (scope : WorkScope) : Option Nat :=
  if scope ∈ s.safety.blocked then none else s.safety.generation

/-- Change the safety state. -/
def updateSafety (f : ContinuitySafety → ContinuitySafety) : Commit Unit :=
  .commit (fun s => .ok ({ s with safety := f s.safety }, ()))

def ContinuitySafety.unfence (scope : WorkScope) (safety : ContinuitySafety) : ContinuitySafety :=
  if (safety.pending.find scope).isNone && (safety.orphans.find scope).isNone then
    { safety with blocked := safety.blocked.erase scope }
  else safety

/-! ## Snapshots -/

def overlayPending (cards : ContinuityStore) (op : PendingPublication) :
    Except WorkError ContinuityStore :=
  cards.replaceExact op.scope op.expected op.desired

/-- `overlay_continuity`. -/
def overlayContinuity (safety : ContinuitySafety) (cards : ContinuityStore) :
    Except WorkError ContinuityStore :=
  safety.pending.rows.foldlM overlayPending cards

/-- `take_snapshot`. -/
def takeSnapshot (s : AppState) : AppState × Stores :=
  match overlayContinuity s.safety s.continuity with
  | .ok cards => (s, ⟨cards, s.work, false⟩)
  | .error _ =>
    ({ s with safety := { s.safety with generation := none } }, ⟨s.continuity, s.work, true⟩)

/-- A snapshot that could be prepared. -/
def preparedSnapshot : Commit Stores := do
  let snapshot ← .commit (fun s => .ok (takeSnapshot s))
  .lift (ensure (!snapshot.canonicalPreparationFailed) .persistence)
  pure snapshot

/-! ## Publication -/

/-- `publish_continuity`: the live store follows the file. -/
def publishContinuity (outside : Outside) (snapshot : Stores) (scope : WorkScope) :
    Commit Unit := do
  .lift (ensure (!snapshot.canonicalPreparationFailed) .persistence)
  let report := persistCanonicalOwned outside.rest snapshot
  .lift (ensure outside.exact .persistence)
  let _ ← .lift (mapErr (fun _ => WorkError.persistence)
    (ContinuityStore.deserialize snapshot.continuity.serialize))
  let pending ← .read (fun s => required (s.safety.pending.find scope) .stale)
  .commit (fun s => do
    let cards ← s.continuity.replaceExact scope pending.expected (snapshot.continuity.card scope)
    .ok ({ s with continuity := cards }, ()))
  updateSafety (fun safety => ContinuitySafety.unfence scope { safety with
    pending := safety.pending.delete (fun op => op.scope = scope)
    forgets := safety.forgets.delete (fun row => some row.1 = pending.forgetMemo) })
  .lift (mapErr (fun _ => WorkError.persistence) report)

/-- `stage_continuity`.  A generation that runs out is reported after the
publication was noted. -/
def stageContinuity (scope : WorkScope) (expected desired : Option ContinuityCard)
    (forgetMemo : Option String) : Commit Unit := do
  .read (fun s => ensure ((s.safety.pending.find scope).isSome ||
    s.safety.pending.rows.length + s.safety.orphans.rows.length < maxRecovery) .full)
  updateSafety (fun safety => { safety.bump with
    blocked := insert scope safety.blocked
    pending := safety.pending.put ⟨scope, forgetMemo, expected, desired⟩ })
  .read (fun s => ensure s.safety.generation.isSome .full)

/-- `reserve_continuity_recovery`. -/
def reserveContinuityRecovery (scope : WorkScope) (s : AppState) : Except WorkError Unit := do
  ensure ((s.safety.pending.find scope).isNone && (s.safety.orphans.find scope).isNone) .stale
  ensure (s.safety.pending.rows.length + s.safety.orphans.rows.length < maxRecovery &&
    (s.safety.blocked.card < maxRecovery || scope ∈ s.safety.blocked)) .full

/-- `fence_continuity`. -/
def fenceContinuity (cards : List ContinuityCard) : Commit Unit := do
  updateSafety ContinuitySafety.bump
  .read (fun s => ensure s.safety.generation.isSome .full)
  let full ← .commit (fun s =>
    let blocked := s.safety.blocked ∪ (cards.map ContinuityCard.scope).toFinset
    let full : Bool := maxRecovery < blocked.card
    .ok ({ s with safety := { s.safety with
      blocked
      generation := if full then none else s.safety.generation } }, full))
  .lift (ensure (!full) .full)

/-- `reconcile_continuity`: publish what an earlier commit left pending. -/
def reconcileContinuity (outside : Outside) (scope : WorkScope) : Commit Nat := do
  let operation ← .read (fun s => .ok (s.safety.pending.find scope))
  match operation with
  | none => pure 0
  | some op => do
    let snapshot ← .commit (fun s => .ok (takeSnapshot s))
    publishContinuity outside snapshot scope
    pure (if op.expected.isSome && op.desired.isNone then 1 else 0)

/-! ## Access -/

/-- `fresh_continuity_access`, over what the transport answered. -/
def freshContinuityAccess (answer : Except WorkError WorkAccess) (scope : WorkScope)
    (actor channel : Nat) : Except WorkError WorkAccess := do
  let access ← answer
  ensure (actor ≠ 0 && channel ≠ 0 && access.actor = actor && access.channel = channel &&
    access.scope = scope && access.canView) .denied
  .ok access

/-- The transport's answer and the readings of the clock of one recheck. -/
structure Recheck where
  access : Except WorkError WorkAccess
  expiryAt : Nat
  contextAt : Nat

/-- What a confirmation checks again after it has waited. -/
def recheckContinuity (check : Recheck) (grant : ContinuityProposal) (generation actor channel : Nat)
    (old : Option ContinuityCard) (cards : ContinuityStore) (s : AppState) :
    Except WorkError Unit := do
  let access ← freshContinuityAccess check.access grant.scope actor channel
  ensure (check.expiryAt < grant.expiresAt &&
    s.continuityGeneration grant.scope = some generation) .stale
  ensure (s.continuity.card grant.scope = old) .stale
  let _ ← s.work.scopeProjects grant.scope access true
  ensure (cards.context grant.scope access s.work check.contextAt).isSome .stale

/-! ## Confirmation -/

structure ConfirmEnv where
  access : Except WorkError WorkAccess
  confirmedAt : Nat
  verified : MemoryCandidateState
  recheck : Recheck
  recorded : Option String
  final : Recheck
  outside : Outside

/-- `episode_gate::parse_digest` takes the text. -/
def parseDigest (text : String) : Bool :=
  text.utf8ByteSize = 64 && text.toList.all
    (fun c => c.isDigit || ('a' ≤ c && c ≤ 'f') || ('A' ≤ c && c ≤ 'F')) &&
    text.toList.any (fun c => c ≠ '0')

/-- The receipt of the episode ledger for a confirmed card. -/
def admitCard (host : Host) (env : ConfirmEnv) (grant : ContinuityProposal)
    (generation actor channel : Nat) (old : Option ContinuityCard) (cards : ContinuityStore)
    (card : ContinuityCard) : Commit (ContinuityStore × ContinuityCard) :=
  if host.gateFor (ContinuityStore.nativeScope grant.scope) then do
    match old.bind ContinuityCard.episodeReceipt with
    | none => pure ()
    | some receipt => do
      .lift (ensure (env.verified = .live) .stale)
      .lift (ensure (parseDigest receipt) .invalid)
      .read (recheckContinuity env.recheck grant generation actor channel old cards)
    let digest ← .lift (required env.recorded .persistence)
    .lift (cards.installReceipt card digest)
  else do
    .lift (ensure (old.bind ContinuityCard.episodeReceipt).isNone .persistence)
    pure (cards, card)

/-- A confirmation that failed after the ledger took its card. -/
def abandonCard (card : ContinuityCard) : Commit Unit :=
  if card.episodeReceipt.isSome then do
    fenceContinuity [card]
    updateSafety (fun safety => { safety with orphans := safety.orphans.put card })
  else pure ()

/-- `confirm_continuity`. -/
def confirmContinuity (host : Host) (env : ConfirmEnv) (grant : ContinuityProposal)
    (generation actor channel : Nat) : Commit ContinuityCard := do
  .read (reserveContinuityRecovery grant.scope)
  .read (fun s => ensure (s.continuityGeneration grant.scope = some generation) .stale)
  let access ← .lift (freshContinuityAccess env.access grant.scope actor channel)
  .read (fun s => ensure (s.continuityGeneration grant.scope = some generation) .stale)
  let snapshot ← preparedSnapshot
  let old := snapshot.continuity.card grant.scope
  let confirmed ← .lift (snapshot.continuity.confirm grant access snapshot.work env.confirmedAt)
  let admitted ← admitCard host env grant generation actor channel old confirmed.1 confirmed.2
  let check ← .read (fun s => .ok
    (recheckContinuity env.final grant generation actor channel old admitted.1 s))
  match check with
  | .error failure => do
    abandonCard admitted.2
    .lift (.error failure)
  | .ok () => do
    stageContinuity grant.scope old (some admitted.2) none
    publishContinuity env.outside { snapshot with continuity := admitted.1 } grant.scope
    pure admitted.2

/-! ## Clearing and erasure -/

/-- What a removal finds outside: the gate and the transport. -/
structure ForgetEnv where
  verified : MemoryCandidateState
  access : Except WorkError WorkAccess
  recorded : Bool
  accessAfter : Except WorkError WorkAccess
  outside : Outside

/-- The actor who asks for the removal may still manage the scope. -/
def manages (access : Except WorkError WorkAccess) (scope : WorkScope)
    (nativeActor : Option (Nat × Nat)) : Commit Unit :=
  match nativeActor with
  | none => pure ()
  | some (actor, channel) => do
    let access ← .lift (freshContinuityAccess access scope actor channel)
    let _ ← .read (fun s => s.work.scopeProjects scope access true)
    pure ()

/-- `admit_continuity_forget`. -/
def admitContinuityForget (host : Host) (env : ForgetEnv) (card : ContinuityCard)
    (nativeActor : Option (Nat × Nat)) : Commit (Option String) :=
  match card.episodeReceipt with
  | none => pure none
  | some receipt => do
    .lift (ensure (host.gateFor (ContinuityStore.nativeScope card.scope)) .persistence)
    let key := host.fingerprint card
    let memo ← .read (fun s => .ok (s.safety.forgets.find key))
    if memo.any Prod.snd then pure (some key)
    else do
      .read (fun s => ensure (memo.isSome || s.safety.forgets.rows.length < maxRecovery) .full)
      updateSafety (fun safety =>
        if memo.isSome then safety else { safety with forgets := safety.forgets.put (key, false) })
      match env.verified with
      | .forgotten => pure (some key)
      | .unknown => .lift (.error .persistence)
      | .live => do
        manages env.access card.scope nativeActor
        .lift (ensure (parseDigest receipt) .invalid)
        .lift (ensure env.recorded .persistence)
        updateSafety (fun safety => { safety with forgets := safety.forgets.put (key, true) })
        pure (some key)

def ContinuitySafety.dropMemo (memo : Option String) (safety : ContinuitySafety) :
    ContinuitySafety :=
  { safety with forgets := safety.forgets.delete (fun row => some row.1 = memo) }

/-- One round of the loop of `erase_continuity_targets`. -/
def eraseContinuityTarget (host : Host) (env : ForgetEnv) (nativeActor : Option (Nat × Nat))
    (card : ContinuityCard) : Commit Unit := do
  let _ ← preparedSnapshot
  let memo ← admitContinuityForget host env card nativeActor
  manages env.accessAfter card.scope nativeActor
  let snapshot ← preparedSnapshot
  let cards ← .lift (snapshot.continuity.removeExact card)
  stageContinuity card.scope (some card) none memo
  publishContinuity env.outside { snapshot with continuity := cards } card.scope
  updateSafety (ContinuitySafety.dropMemo memo)

/-- `erase_continuity_targets`. -/
def eraseContinuityTargets (host : Host) (env : ContinuityCard → ForgetEnv)
    (cards : List ContinuityCard) (nativeActor : Option (Nat × Nat)) : Commit Nat := do
  fenceContinuity cards
  cards.forM (fun card => eraseContinuityTarget host (env card) nativeActor card)
  pure cards.length

/-- `erase_continuity_orphan`. -/
def eraseContinuityOrphan (host : Host) (env : ContinuityCard → ForgetEnv) (scope : WorkScope)
    (nativeActor : Option (Nat × Nat)) : Commit Unit := do
  let orphan ← .read (fun s => .ok (s.safety.orphans.find scope))
  match orphan with
  | none => pure ()
  | some card => do
    let memo ← admitContinuityForget host (env card) card nativeActor
    manages (env card).accessAfter scope nativeActor
    .read (fun s => ensure (s.safety.orphans.find scope = some card) .stale)
    updateSafety (fun safety => ContinuitySafety.dropMemo memo
      { safety with orphans := safety.orphans.delete (fun orphan => orphan.scope = scope) })

structure ClearEnv where
  access : Except WorkError WorkAccess
  reconcile : Outside
  orphan : ContinuityCard → ForgetEnv
  accessAfter : Except WorkError WorkAccess
  target : ContinuityCard → ForgetEnv

/-- `clear_continuity`. -/
def clearContinuity (host : Host) (env : ClearEnv) (scope : WorkScope) (actor channel : Nat) :
    Commit Nat := do
  let access ← .lift (freshContinuityAccess env.access scope actor channel)
  let _ ← .read (fun s => s.work.scopeProjects scope access true)
  let reconciled ← reconcileContinuity env.reconcile scope
  eraseContinuityOrphan host env.orphan scope (some (actor, channel))
  let access ← .lift (freshContinuityAccess env.accessAfter scope actor channel)
  let card ← .read (fun s => (s.continuity.clear scope access s.work).map Prod.snd)
  let removed ← eraseContinuityTargets host env.target card.toList (some (actor, channel))
  updateSafety (ContinuitySafety.unfence scope)
  pure (removed + reconciled)

structure EraseEnv where
  orphan : ContinuityCard → ForgetEnv
  reconcile : WorkScope → Outside
  target : ContinuityCard → ForgetEnv

/-- The orphans that an erasure reaches. -/
def orphanScopes (scope : String) (member : Option Nat) (s : AppState) : List WorkScope :=
  (s.safety.orphans.rows.filter (fun card =>
    ContinuityStore.nativeScope card.scope = scope && card.linkedTo member s.work)).map
    ContinuityCard.scope

/-- The pending publications that an erasure reaches. -/
def pendingScopes (scope : String) (member : Option Nat) (s : AppState) : List WorkScope :=
  (s.safety.pending.rows.filter (fun op => ContinuityStore.nativeScope op.scope = scope &&
    (op.expected.toList ++ op.desired.toList).any (fun card => card.linkedTo member s.work))).map
    PendingPublication.scope

/-- `erase_continuity_owned`. -/
def eraseContinuityOwned (host : Host) (env : EraseEnv) (scope : String) (member : Option Nat) :
    Commit Nat := do
  let orphans ← .read (fun s => .ok (orphanScopes scope member s))
  orphans.forM (fun target => eraseContinuityOrphan host env.orphan target none)
  let pending ← .read (fun s => .ok (pendingScopes scope member s))
  let reconciled ← pending.mapM (fun target => reconcileContinuity (env.reconcile target) target)
  let cards ← .read (fun s => .ok (s.continuity.erasureTargets scope member s.work))
  let count ← eraseContinuityTargets host env.target cards none
  orphans.forM (fun target => updateSafety (ContinuitySafety.unfence target))
  pure (count + reconciled.sum)

/-! ## Runs -/

/-- `commit_work_owned`. -/
def commitWorkOwned (outside : Outside) (change : WorkStore → Except WorkError WorkStore) :
    Commit Unit := do
  let snapshot ← .commit (fun s => .ok (takeSnapshot s))
  let work ← .lift (change snapshot.work)
  .lift (mapErr (fun _ => WorkError.persistence)
    (persistCanonicalOwned outside.rest { snapshot with work }))
  .commit (fun s => .ok ({ s with work }, ()))

inductive Event where
  | confirm (env : ConfirmEnv) (grant : ContinuityProposal) (generation actor channel : Nat)
  | clear (env : ClearEnv) (scope : WorkScope) (actor channel : Nat)
  | erase (env : EraseEnv) (scope : String) (member : Option Nat)
  | work (outside : Outside) (change : WorkStore → Except WorkError WorkStore)
  | persist

/-- The state after a command, also after one that failed. -/
def next (host : Host) (s : AppState) : Event → Option AppState
  | .confirm env grant generation actor channel =>
    some ((confirmContinuity host env grant generation actor channel).final s)
  | .clear env scope actor channel =>
    some ((clearContinuity host env scope actor channel).final s)
  | .erase env scope member => some ((eraseContinuityOwned host env scope member).final s)
  | .work outside change => some ((commitWorkOwned outside change).final s)
  | .persist => some (takeSnapshot s).1

/-- `Stores::load`: the cards of the file, less those that are not current. -/
def load (cards : List ContinuityCard) (work : WorkStore) (now : Nat) : Except String AppState := do
  let continuity ← ContinuityStore.deserialize cards
  .ok ⟨continuity.pruneCurrent work now, work, .new⟩

end Abbey.Continuity
