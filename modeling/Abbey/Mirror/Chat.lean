import Abbey.Mirror.Plans

/-!
# Saving, clearing and reading a chat

`src/state/conversation.rs` and `src/state/conversation/clear.rs`.  Each
operation recovers the pending journal first.  The durable steps are the
write and the removal of the journal, the transaction of the database, and
the replacement or the removal of one mirror.
-/

namespace Abbey.Mirror

open Abbey.Lib
open Abbey.Conversation
open Abbey.Run (ConversationId Instant StoreError isControl)

variable (platform : Platform)

abbrev ChatM := Durable Home ChatError

def fromStore {α : Type} (context : String) (result : Except StoreError α) : Except ChatError α :=
  mapErr (ChatError.store context) result

/-! ## The journal file -/

def writePending (journal : Journal) : ChatM Unit :=
  .commit (fun home => do
    ensure (platform.journalSize journal ≤ maxJournalBytes)
      (.bail "conversation mirror journal exceeds its size bound")
    .ok ({ home with journal := some journal }, ()))

def removePending : ChatM Unit :=
  .commit (fun home => .ok ({ home with journal := none }, ()))

/-! ## Save -/

/-- What a mirror holds after a save: `desired_bytes`. -/
def desiredBytes (role : TargetRole) (plan : JournalPlan) (commit : IdentityCommit)
    (before : Option Bytes) : Except ChatError Bytes :=
  match role with
  | .active | .global => .ok (utf8 (plan.externalId ++ "\n"))
  | .exported => .ok (utf8 ("ABBEY_CHAT_ID=" ++ posixSingleQuote plan.externalId ++ "\n"))
  | .history => do
    let bytes := before.getD []
    let bytes := if bytes ≠ [] ∧ bytes.getLast? ≠ some 0x0a then bytes ++ [0x0a] else bytes
    let bytes := bytes ++ utf8 (platform.stamp commit.committedAt ++ "\t" ++ plan.externalId ++
      "\t" ++ plan.cwdDisplay ++ "\n")
    ensure (bytes.length ≤ maxHistoryBytes)
      (.bail "conversation history exceeds its bounded mirror size")
    .ok bytes

/-- One target of `apply_committed`. -/
def applyTarget (plan : JournalPlan) (commit : IdentityCommit) (snapshot : MirrorSnapshot) :
    ChatM Unit := do
  let desired ← .lift (desiredBytes platform snapshot.role plan commit snapshot.before)
  let current ← .read (fun home =>
    readOptionalBounded home.files snapshot.path (targetLimit snapshot.role))
  if current = some desired then pure () else do
    .lift (ensure (current = snapshot.before)
      (.bail "conversation mirror diverged after its canonical commit"))
    .commit (fun home => do
      let files ← atomicReplace home.files snapshot.path desired
      .ok ({ home with files }, ()))

/-- `apply_committed`. -/
def applyCommitted (edition : Edition) (plan : JournalPlan) (commit : IdentityCommit) :
    ChatM Unit := do
  .lift (validatePlan edition plan)
  plan.targets.forM (applyTarget platform plan commit)

/-- `prepare_plan`. -/
def preparePlan (state : AbbeyState) (id : String) (token : Uuid) (home : Home) :
    Except ChatError JournalPlan := do
  let cwdDisplay := toStringLossy state.cwd
  ensure (!cwdDisplay.toList.any isControl)
    (.bail "working directory cannot be represented in legacy history")
  let targets ← (configuredTargetsFor state.cwd state.perCwd).mapM (fun target => do
    let before ← readOptionalBounded home.files target.2 (targetLimit target.1)
    .ok (⟨target.1, target.2, before⟩ : MirrorSnapshot))
  let plan : JournalPlan :=
    { schemaVersion := journalSchema
      mutationToken := token
      editionSlug := state.edition.slug
      externalId := id
      cwd := state.cwd
      cwdDisplay
      perCwd := state.perCwd
      targets }
  let history := ((targets.find? (fun target => target.role = .history)).bind
    MirrorSnapshot.before).getD []
  ensure (history.length + id.utf8ByteSize + cwdDisplay.utf8ByteSize + 96 ≤ maxHistoryBytes)
    (.bail "conversation history exceeds its bounded mirror size")
  validatePlan state.edition plan
  .ok plan

def JournalPlan.isCommitted (sha : Sha256) (plan : JournalPlan) (commit : IdentityCommit) : Bool :=
  commit.matchesSaveScopes sha plan.editionSlug (plan.scopes sha) plan.externalId
    plan.mutationToken.text

/-! ## Clear -/

/-- `verify_clear_conversation_identity`. -/
def verifyClearConversationIdentity (sha : Sha256) (db : IdentityDb) (edition : String)
    (scopes : Option (List ConversationIdentityScope)) (commit : IdentityCommit) :
    Except StoreError Unit := do
  let editionSha256 ← identityInput (editionSha256 sha edition)
  validateClearEffect db editionSha256 scopes commit

/-- `ensure_commit_effect`. -/
def ensureCommitEffect (plan : ClearPlan) (commit : IdentityCommit) : ChatM Unit :=
  .read (fun home => fromStore "canonical conversation clear effect is inconsistent"
    (verifyClearConversationIdentity platform.sha home.db plan.editionSlug
      (plan.scopes platform.sha) commit))

/-- One target of `apply_committed` of a clear. -/
def removeTarget (target : ClearTarget) : ChatM Unit := do
  let current ← .read (fun home => readOptionalBounded home.files target.path maxIdFileBytes)
  .lift (ensure (current.isNone || current = target.before)
    (.bail "conversation mirror diverged after its canonical clear"))
  if current.isSome then
    .commit (fun home => .ok ({ home with files := removeMirror home.files target.path }, ()))
  else pure ()

/-- `apply_committed` of a clear. -/
def applyClearCommitted (edition : Edition) (plan : ClearPlan) : ChatM Unit := do
  .read (fun home => validateClearPlan platform.sha platform.root edition home.files plan)
  plan.targets.forM removeTarget

/-- `identity_scope_state`: whether the mirror is the selection of its
scope. -/
inductive IdentityScopeState where
  | untracked | current | tombstoned | diverged

def identityScopeState (sha : Sha256) (db : IdentityDb) (edition : String)
    (scope : ConversationIdentityScope) (mirrorCandidate : Option String) :
    Except StoreError IdentityScopeState := do
  let selection ← identityScopeSelection sha db edition scope
  let matches' ← match mirrorCandidate with
    | none => .ok false
    | some candidate => identityInput (selection.matchesExternalId sha candidate)
  .ok (match selection with
    | .untracked => .untracked
    | .tombstoned => .tombstoned
    | .selected _ _ => if matches' then .current else .diverged)

/-- `authorize_clear_scope_candidate`. -/
def authorizeClearScopeCandidate (sha : Sha256) (db : IdentityDb) (edition : String)
    (scope : ConversationIdentityScope) (mirrorCandidate : Option String) :
    Except StoreError Unit := do
  match ← identityScopeState sha db edition scope mirrorCandidate, mirrorCandidate with
  | .current, none =>
    .error (.invalidInput "canonical conversation scope is missing its mirror")
  | .untracked, none => .ok ()
  | .tombstoned, none => .ok ()
  | .tombstoned, some _ =>
    .error (.invalidInput "conversation mirror is superseded by a clear tombstone")
  | .diverged, _ => .error (.invalidInput "conversation mirror diverges from the cleared scope")
  | .current, some candidate | .untracked, some candidate => do
    let editionSha256 ← identityInput (editionSha256 sha edition)
    let external ← identityInput (externalIdentity sha candidate)
    let global := ConversationIdentityScope.global sha
    ensure (scope = global || !db.scopes.rows.any (fun row =>
      row.editionSha256 = editionSha256 && row.scopeSha256 ≠ scope.sha256 &&
        row.scopeSha256 ≠ global.sha256 && row.aliasSha256 = external.aliasSha256 &&
        row.conversationId = external.conversationId))
      (.invalidInput "conversation mirror is shared by another working-directory scope")

def currentTargets (state : AbbeyState) : List (ClearTargetRole × MirrorPath) :=
  if state.perCwd then [(.active, activeChatFile state)] else [(.global, .global), (.exported, .exported)]

/-- `all_targets`: the `by-cwd` files are sorted by the text of their path. -/
def allTargets (files : Files) : Except ChatError (List (ClearTargetRole × MirrorPath)) := do
  let entries := cwdEntries files
  ensure (entries.length ≤ maxClearTargets - 2)
    (.bail "conversation clear target count exceeds its bound")
  let sorted := entries.mergeSort (fun a b =>
    decide (lowerHex (pathBytes platform.root a) ≤ lowerHex (pathBytes platform.root b)))
  .ok ([(.global, .global), (.exported, .exported)] ++ sorted.map (fun path => (.cwd, path)))

def stateScope (sha : Sha256) (state : AbbeyState) : ConversationIdentityScope :=
  if state.perCwd then .workingDirectory sha state.cwd else .global sha

/-- `prepare_plan` of a clear. -/
def prepareClearPlan (state : AbbeyState) (all : Bool) (nonce : Uuid) (home : Home) :
    Except ChatError ClearPlan := do
  let paths ← if all then allTargets platform home.files else .ok (currentTargets state)
  if all then .ok () else do
    let candidate ← readFirstLineBounded home.files (activeChatFile state)
    fromStore "conversation clear target is not uniquely owned by its scope"
      (authorizeClearScopeCandidate platform.sha home.db state.edition.slug
        (stateScope platform.sha state) candidate)
  let targets ← paths.mapM (fun target => do
    let before ← readOptionalBounded home.files target.2 maxIdFileBytes
    .ok (⟨target.1, target.2, before⟩ : ClearTarget))
  let unbound : ClearPlan :=
    { schemaVersion := journalSchema
      operation := if all then .clearAll else .clearScope
      nonce
      binding := ""
      editionSlug := state.edition.slug
      cwd := state.cwd
      perCwd := state.perCwd
      targets }
  let plan := { unbound with binding := planBindingDigest platform.sha platform.root unbound }
  validateClearPlan platform.sha platform.root state.edition home.files plan
  .ok plan

def ClearPlan.isCommitted (sha : Sha256) (plan : ClearPlan) (commit : IdentityCommit) : Bool :=
  match plan.scopes sha with
  | some scopes => commit.matchesClearScopes sha plan.editionSlug scopes plan.mutationToken
  | none => commit.matchesClearAll sha plan.editionSlug plan.mutationToken

/-! ## Recovery -/

def recoverSave (edition : Edition) (plan : JournalPlan) : ChatM Unit := do
  .lift (validatePlan edition plan)
  let committed ← .read (fun home => fromStore
    "canonical conversation commit marker could not be read" (commitOn platform.sha home.db))
  match committed.filter (plan.isCommitted platform.sha) with
  | some commit => do
    applyCommitted platform edition plan commit
    removePending
  | none => removePending

def recoverClear (edition : Edition) (plan : ClearPlan) : ChatM Unit := do
  .read (fun home => validateClearPlan platform.sha platform.root edition home.files plan)
  let committed ← .read (fun home => fromStore
    "canonical conversation clear marker could not be read" (commitOn platform.sha home.db))
  match committed.filter (plan.isCommitted platform.sha) with
  | some commit => do
    ensureCommitEffect platform plan commit
    applyClearCommitted platform edition plan
    removePending
  | none => removePending

/-- `recover_pending`. -/
def recoverPending (edition : Edition) : ChatM Unit := do
  match ← .read (fun home => .ok home.journal) with
  | none => pure ()
  | some journal => do
    .lift (ensure (platform.journalSize journal ≤ maxJournalBytes)
      (.bail "conversation mirror exceeds its size bound"))
    match journal with
    | .save plan => recoverSave platform edition plan
    | .clear plan => recoverClear platform edition plan

/-! ## The operations -/

/-- `save_chat`, at a time and with a fresh token. -/
def saveChat (state : AbbeyState) (id : String) (token : Uuid) (now : Instant) : ChatM Unit := do
  let id ← .lift (validateExternalId id)
  recoverPending platform state.edition
  let plan ← .read (preparePlan state id token)
  writePending platform (.save plan)
  let commit ← .commit (fun home => do
    let (db, commit) ← fromStore "canonical conversation identity save failed"
      (saveConversationIdentity platform.sha home.db plan.editionSlug (plan.scopes platform.sha)
        plan.externalId plan.mutationToken.text now)
    .ok ({ home with db }, commit))
  applyCommitted platform state.edition plan commit
  removePending

/-- `clear_chat`, of all scopes or of the one of the process. -/
def clearChat (state : AbbeyState) (all : Bool) (nonce : Uuid) (now : Instant) : ChatM Unit := do
  recoverPending platform state.edition
  let plan ← .read (prepareClearPlan platform state all nonce)
  writePending platform (.clear plan)
  let commit ← .commit (fun home => do
    let (db, commit) ← fromStore "canonical conversation identity clear failed"
      (clearConversationIdentity platform.sha home.db plan.editionSlug (plan.scopes platform.sha)
        plan.mutationToken now)
    .ok ({ home with db }, commit))
  ensureCommitEffect platform plan commit
  applyClearCommitted platform state.edition plan
  removePending

/-- `read_authoritative_mirror`. -/
def readAuthoritativeMirror (sha : Sha256) (edition : Edition) (home : Home)
    (scope : ConversationIdentityScope) (path : MirrorPath) : Except ChatError (Option String) := do
  let selection ← fromStore "canonical conversation identity selection could not be read"
    (identityScopeSelection sha home.db edition.slug scope)
  match selection with
  | .untracked => readFirstLineBounded home.files path
  | .tombstoned => .ok none
  | .selected _ _ => do
    let candidate ← required (← readFirstLineBounded home.files path)
      (.bail "selected canonical conversation mirror is missing or malformed")
    let same ← orElse (selection.matchesExternalId sha candidate)
      (.bail "selected conversation mirror identity is invalid")
    ensure same (.bail "conversation mirror diverged from canonical identity selection")
    .ok (some candidate)

/-- `read_chat`. -/
def readChat (state : AbbeyState) : ChatM (Option String) := do
  recoverPending platform state.edition
  .read (fun home => do
    let own ← if state.perCwd then
        readAuthoritativeMirror platform.sha state.edition home
          (.workingDirectory platform.sha state.cwd) (activeChatFile state)
      else .ok none
    match own with
    | some id => .ok (some id)
    | none => readAuthoritativeMirror platform.sha state.edition home (.global platform.sha) .global)

end Abbey.Mirror
