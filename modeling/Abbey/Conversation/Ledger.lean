import Abbey.Conversation.Identity
import Mathlib.Data.List.MinMax
import Mathlib.Data.List.Permutation
import Mathlib.Data.Nat.Factorial.Basic

/-!
# The identity ledger

`src/runtime/store/identity.rs` with `identity_receipts.rs` and
`identity_validation.rs`: the tables of `migration_3` and `migration_4`,
the two mutations and the reader that checks every selection against the
receipts.

A mutation runs in one transaction, so it answers with the next database
or leaves it alone.  `conversations` has more columns in the source; no
function here reads them.
-/

namespace Abbey.Conversation

open Abbey.Lib
open Abbey.Run (ConversationId Instant StoreError maxRfc3339Ms)

/-! ## Tables -/

structure ConversationRow where
  id : ConversationId
  deriving DecidableEq

inductive AliasOrigin where
  | legacyV2 | runtimeV3
  deriving DecidableEq

structure AliasRow where
  aliasSha256 : String
  conversationId : ConversationId
  origin : AliasOrigin
  deriving DecidableEq

/-- A row of `conversation_identity_scopes`, and of the copy that migration
4 kept in `conversation_identity_migrated_scopes`. -/
structure ScopeRow where
  editionSha256 : String
  scopeSha256 : String
  aliasSha256 : String
  conversationId : ConversationId
  revision : Nat
  updatedAt : Instant
  deriving DecidableEq

def ScopeRow.key (row : ScopeRow) : String × String := (row.editionSha256, row.scopeSha256)

structure TombstoneRow where
  editionSha256 : String
  scopeSha256 : String
  revision : Nat
  clearedAt : Instant
  deriving DecidableEq

def TombstoneRow.key (row : TombstoneRow) : String × String := (row.editionSha256, row.scopeSha256)

structure ClearAllRow where
  editionSha256 : String
  revision : Nat
  clearedAt : Instant
  deriving DecidableEq

structure MutationScopeRow where
  mutationSha256 : String
  scopeSha256 : String
  deriving DecidableEq

def MutationScopeRow.key (row : MutationScopeRow) : String × String :=
  (row.mutationSha256, row.scopeSha256)

/-- The identity tables.  A receipt has the columns of the commit marker, so
both are an `IdentityCommit`; the rows of `mutationScopes` are in the order
of their rowid. -/
structure IdentityDb where
  conversations : Table ConversationRow.id
  aliases : Table AliasRow.aliasSha256
  scopes : Table ScopeRow.key
  commit : Option IdentityCommit
  tombstones : Table TombstoneRow.key
  clearAll : Table ClearAllRow.editionSha256
  mutations : Table IdentityCommit.mutationSha256
  mutationScopes : Table MutationScopeRow.key
  migratedScopes : Table ScopeRow.key
  deriving DecidableEq

def IdentityDb.empty : IdentityDb :=
  ⟨.empty, .empty, .empty, none, .empty, .empty, .empty, .empty, .empty⟩

/-- `i64::MAX`. -/
def sqliteMax : Nat := 2 ^ 63 - 1

/-- `u64::MAX`. -/
def u64Max : Nat := 2 ^ 64 - 1

def identityInput {α : Type} (result : Except IdentityError α) : Except StoreError α :=
  orElse result (.invalidInput "conversation identity material is invalid")

def identityConflict : StoreError :=
  .invalidInput "conversation identity collides with incompatible provenance"

/-! ## Receipts -/

def validateAliasProvenance (db : IdentityDb) (aliasSha256 : String)
    (conversationId : ConversationId) : Except StoreError Unit := do
  let byAlias := db.aliases.find aliasSha256
  ensure (byAlias.all (fun row => row.conversationId = conversationId)) identityConflict
  let byConversation := db.aliases.rows.find? (fun row => row.conversationId = conversationId)
  ensure (byConversation.all (fun row => row.aliasSha256 = aliasSha256)) identityConflict
  ensure (!((db.conversations.find conversationId).isSome && byAlias.isNone)) identityConflict

def validateScopeSet (db : IdentityDb) (editionSha256 : String)
    (scopes : List ConversationIdentityScope) (external : ExternalIdentity) :
    Except StoreError Unit :=
  scopes.forM (fun scope => ensure
    ((db.scopes.find (editionSha256, scope.sha256)).map
      (fun row => (row.aliasSha256, row.conversationId)) =
        some (external.aliasSha256, external.conversationId)) identityConflict)

def nextRevision (db : IdentityDb) : Except StoreError Nat := do
  let current := (db.commit.map IdentityCommit.revision).getD 0
  ensure (current + 1 ≤ u64Max) (.corruptData "identity revision overflow")
  .ok (current + 1)

/-- `i64::try_from`. -/
def sqlRevision (revision : Nat) : Except StoreError Unit :=
  ensure (revision ≤ sqliteMax) (.corruptData "identity revision exceeds SQLite integer")

/-- The checks of `commit_on` on the stored marker. -/
def checkCommit (sha : Sha256) (row : IdentityCommit) : Except StoreError IdentityCommit := do
  ensure (0 < row.revision) (.corruptData "identity revision is not positive")
  ensure ([row.editionSha256, row.scopeSha256, row.scopeSetSha256, row.mutationSha256].all
    isLowerHexSha256) (.corruptData "identity commit digest is not lower-case SHA-256")
  ensure (row.aliasSha256.all isLowerHexSha256)
    (.corruptData "identity commit digest is not lower-case SHA-256")
  ensure (row.committedAt.ms ≤ maxRfc3339Ms)
    (.corruptData "identity commit timestamp is invalid")
  ensure (decide (row.operation = .save) =
    (row.aliasSha256.isSome && row.conversationId.isSome))
    (.corruptData "identity commit operation payload is inconsistent")
  ensure (row.operation ≠ .clearAll || (row.scopeSha256 = clearAllSha256 sha &&
    row.scopeSetSha256 = clearAllSha256 sha))
    (.corruptData "clear-all identity commit digest is inconsistent")
  .ok row

def commitOn (sha : Sha256) (db : IdentityDb) : Except StoreError (Option IdentityCommit) :=
  match db.commit with
  | none => .ok none
  | some row => do .ok (some (← checkCommit sha row))

def validateRevision (revision : Nat) : Except StoreError Unit :=
  ensure (0 < revision) (.corruptData "identity revision is not positive")

def rejectReplayedMutation (db : IdentityDb) (mutationSha256 : String) : Except StoreError Unit :=
  ensure (db.mutations.find mutationSha256).isNone identityConflict

def insertMutationReceipt (db : IdentityDb) (commit : IdentityCommit)
    (scopes : List ConversationIdentityScope) : Except StoreError IdentityDb := do
  sqlRevision commit.revision
  -- the schema has `revision INTEGER NOT NULL UNIQUE`
  ensure (db.mutations.rows.all (fun row => row.revision ≠ commit.revision)) .database
  let mutations ← required (db.mutations.insert? commit) .database
  let mutationScopes ← scopes.foldlM (fun table scope =>
    required (table.insert? ⟨commit.mutationSha256, scope.sha256⟩) .database) db.mutationScopes
  .ok { db with mutations, mutationScopes }

def validateCurrentReceipt (db : IdentityDb) (commit : IdentityCommit)
    (scopes : List ConversationIdentityScope) : Except StoreError Unit := do
  sqlRevision commit.revision
  ensure ((db.mutations.rows.filter (fun row => row = commit)).length = 1)
    (.corruptData "identity mutation receipt is inconsistent")
  ensure ((db.mutationScopes.rows.filter
    (fun row => row.mutationSha256 = commit.mutationSha256)).length = scopes.length)
    (.corruptData "identity mutation receipt scope set is inconsistent")
  scopes.forM (fun scope => ensure
    (db.mutationScopes.find (commit.mutationSha256, scope.sha256)).isSome
    (.corruptData "identity mutation receipt scope set is inconsistent"))

/-! ## Save -/

/-- `INSERT OR IGNORE` of an alias: the conversation is unique too. -/
def insertAlias (db : IdentityDb) (row : AliasRow) : Table AliasRow.aliasSha256 :=
  if db.aliases.rows.any (fun other => other.conversationId = row.conversationId) then db.aliases
  else (db.aliases.insert? row).getD db.aliases

/-- Select a conversation for one scope. -/
def selectScope (editionSha256 : String) (external : ExternalIdentity) (revision : Nat)
    (now : Instant) (db : IdentityDb) (scope : ConversationIdentityScope) : IdentityDb :=
  { db with
    tombstones := db.tombstones.delete (fun row => row.key = (editionSha256, scope.sha256))
    scopes := db.scopes.put ⟨editionSha256, scope.sha256, external.aliasSha256,
      external.conversationId, revision, now⟩ }

/-- The part of a save after the check for a replay. -/
def commitSave (sha : Sha256) (db : IdentityDb) (editionSha256 : String)
    (scopes : List ConversationIdentityScope) (external : ExternalIdentity)
    (mutationSha256 scopeSetSha256 : String) (now : Instant) :
    Except StoreError (IdentityDb × IdentityCommit) := do
  rejectReplayedMutation db mutationSha256
  validateAliasProvenance db external.aliasSha256 external.conversationId
  let db := { db with
    conversations := (db.conversations.insert? ⟨external.conversationId⟩).getD db.conversations
    aliases := insertAlias db ⟨external.aliasSha256, external.conversationId, .runtimeV3⟩ }
  validateAliasProvenance db external.aliasSha256 external.conversationId
  let revision ← nextRevision db
  sqlRevision revision
  let db := scopes.foldl (selectScope editionSha256 external revision now) db
  let db := { db with
    commit := some
      { revision
        operation := .save
        editionSha256
        scopeSha256 := (scopes.head?.map ConversationIdentityScope.sha256).getD ""
        scopeSetSha256
        aliasSha256 := some external.aliasSha256
        conversationId := some external.conversationId
        mutationSha256
        committedAt := now } }
  let committed ← required (← commitOn sha db)
    (.corruptData "identity commit disappeared inside transaction")
  let db ← insertMutationReceipt db committed scopes
  .ok (db, committed)

/-- A save under the token of the last commit. -/
def replaySave (db : IdentityDb) (existing : IdentityCommit) (editionSha256 : String)
    (scopes : List ConversationIdentityScope) (external : ExternalIdentity)
    (scopeSetSha256 : String) : Except StoreError (IdentityDb × IdentityCommit) := do
  ensure (existing.editionSha256 = editionSha256 &&
    some existing.scopeSha256 = scopes.head?.map ConversationIdentityScope.sha256 &&
    existing.scopeSetSha256 = scopeSetSha256 &&
    existing.aliasSha256 = some external.aliasSha256 &&
    existing.conversationId = some external.conversationId) identityConflict
  validateAliasProvenance db external.aliasSha256 external.conversationId
  validateScopeSet db editionSha256 scopes external
  validateCurrentReceipt db existing scopes
  .ok (db, existing)

/-- The last commit, when it carries the token. -/
def replayed (existing : Option IdentityCommit) (mutationSha256 : String) :
    Option IdentityCommit :=
  existing.filter (fun commit => commit.mutationSha256 = mutationSha256)

/-- `save_conversation_identity`. -/
def saveConversationIdentity (sha : Sha256) (db : IdentityDb) (edition : String)
    (scopes : List ConversationIdentityScope) (externalId token : String) (now : Instant) :
    Except StoreError (IdentityDb × IdentityCommit) := do
  let editionSha256 ← identityInput (editionSha256 sha edition)
  let external ← identityInput (externalIdentity sha externalId)
  let mutationSha256 ← identityInput (mutationSha256 sha token)
  let scopeSetSha256 ← identityInput (scopeSetSha256 sha scopes)
  match replayed (← commitOn sha db) mutationSha256 with
  | some existing => replaySave db existing editionSha256 scopes external scopeSetSha256
  | none => commitSave sha db editionSha256 scopes external mutationSha256 scopeSetSha256 now

/-! ## Clear -/

def validateClearEffect (db : IdentityDb) (editionSha256 : String)
    (scopes : Option (List ConversationIdentityScope)) (commit : IdentityCommit) :
    Except StoreError Unit := do
  sqlRevision commit.revision
  match scopes, commit.operation with
  | some scopes, .clearScope =>
    scopes.forM (fun scope => ensure
      ((db.scopes.find (editionSha256, scope.sha256)).isNone &&
        (db.tombstones.find (editionSha256, scope.sha256)).map TombstoneRow.revision =
          some commit.revision)
      (.corruptData "identity clear-scope effect is inconsistent"))
  | none, .clearAll =>
    ensure (db.scopes.rows.all (fun row => row.editionSha256 ≠ editionSha256) &&
      db.tombstones.rows.all (fun row => row.editionSha256 ≠ editionSha256) &&
      (db.clearAll.find editionSha256).map ClearAllRow.revision = some commit.revision)
      (.corruptData "identity clear-all effect is inconsistent")
  | _, _ => .error (.corruptData "identity clear operation does not match its scope set")

/-- Remove the selections and leave the tombstones. -/
def applyClear (db : IdentityDb) (editionSha256 : String)
    (scopes : Option (List ConversationIdentityScope)) (revision : Nat) (now : Instant) :
    IdentityDb :=
  match scopes with
  | some scopes => scopes.foldl (fun db scope => { db with
      scopes := db.scopes.delete (fun row => row.key = (editionSha256, scope.sha256))
      tombstones := db.tombstones.put ⟨editionSha256, scope.sha256, revision, now⟩ }) db
  | none => { db with
      scopes := db.scopes.delete (fun row => row.editionSha256 = editionSha256)
      tombstones := db.tombstones.delete (fun row => row.editionSha256 = editionSha256)
      clearAll := db.clearAll.put ⟨editionSha256, revision, now⟩ }

/-- What a clear is called in its marker: the operation, its first scope
and its scope set. -/
def clearMarker (sha : Sha256) (scopes : Option (List ConversationIdentityScope)) :
    Except StoreError (IdentityOperation × String × String) :=
  match scopes with
  | some scopes => do
    ensure (scopes.length = 1)
      (.invalidInput "conversation identity clear requires exactly one scope")
    let scopeSet ← identityInput (scopeSetSha256 sha scopes)
    .ok (.clearScope, (scopes.head?.map ConversationIdentityScope.sha256).getD "", scopeSet)
  | none => .ok (.clearAll, clearAllSha256 sha, clearAllSha256 sha)

/-- The part of a clear after the check for a replay. -/
def commitClear (sha : Sha256) (db : IdentityDb) (editionSha256 : String)
    (scopes : Option (List ConversationIdentityScope))
    (marker : IdentityOperation × String × String) (mutationSha256 : String) (now : Instant) :
    Except StoreError (IdentityDb × IdentityCommit) := do
  rejectReplayedMutation db mutationSha256
  let revision ← nextRevision db
  sqlRevision revision
  let db := applyClear db editionSha256 scopes revision now
  let db := { db with
    commit := some
      { revision
        operation := marker.1
        editionSha256
        scopeSha256 := marker.2.1
        scopeSetSha256 := marker.2.2
        aliasSha256 := none
        conversationId := none
        mutationSha256
        committedAt := now } }
  let committed ← required (← commitOn sha db)
    (.corruptData "identity clear commit disappeared inside transaction")
  let db ← insertMutationReceipt db committed (scopes.getD [])
  .ok (db, committed)

/-- A clear under the token of the last commit. -/
def replayClear (sha : Sha256) (db : IdentityDb) (existing : IdentityCommit)
    (edition editionSha256 : String) (scopes : Option (List ConversationIdentityScope))
    (token : String) : Except StoreError (IdentityDb × IdentityCommit) := do
  ensure (match scopes with
    | some scopes => existing.matchesClearScopes sha edition scopes token
    | none => existing.matchesClearAll sha edition token) identityConflict
  validateClearEffect db editionSha256 scopes existing
  validateCurrentReceipt db existing (scopes.getD [])
  .ok (db, existing)

/-- `clear_conversation_identity`. -/
def clearConversationIdentity (sha : Sha256) (db : IdentityDb) (edition : String)
    (scopes : Option (List ConversationIdentityScope)) (token : String) (now : Instant) :
    Except StoreError (IdentityDb × IdentityCommit) := do
  let editionSha256 ← identityInput (editionSha256 sha edition)
  let mutationSha256 ← identityInput (mutationSha256 sha token)
  let marker ← clearMarker sha scopes
  match replayed (← commitOn sha db) mutationSha256 with
  | some existing => replayClear sha db existing edition editionSha256 scopes token
  | none => commitClear sha db editionSha256 scopes marker mutationSha256 now

/-! ## Reading a selection -/

def validateAliasMapping (db : IdentityDb) (aliasSha256 : String)
    (conversationId : ConversationId) : Except StoreError Unit :=
  ensure ((db.aliases.find aliasSha256).any (fun row => row.conversationId = conversationId) &&
    (db.conversations.find conversationId).isSome)
    (.corruptData "identity selection has no exact alias provenance")

/-- `DateTime::parse_from_rfc3339` of a time that the store wrote. -/
def validateCanonicalTimestamp (timestamp : Instant) (message : String) :
    Except StoreError Unit :=
  ensure (timestamp.ms ≤ maxRfc3339Ms) (.corruptData message)

/-- The scopes of a receipt, by rowid. -/
def receiptScopes (db : IdentityDb) (mutationSha256 : String) : List String :=
  (db.mutationScopes.rows.filter (fun row => row.mutationSha256 = mutationSha256)).map
    MutationScopeRow.scopeSha256

def maxMigratedV3ScopePermutations : Nat := 40320

/-- `validate_migrated_v3_scope_set_digest`: some order of the scopes with
the primary one first has the stored digest. -/
def validateMigratedScopeSetDigest (sha : Sha256) (receipt : IdentityCommit)
    (scopes : List String) : Except StoreError Unit := do
  let remaining := scopes.filter (fun scope => scope ≠ receipt.scopeSha256)
  ensure (remaining.length.factorial ≤ maxMigratedV3ScopePermutations)
    (.corruptData "identity migrated-v3 scope-set digest cannot be authenticated")
  ensure (remaining.permutations.any (fun order =>
    scopeSetSha256FromHashes sha (receipt.scopeSha256 :: order) = .ok receipt.scopeSetSha256))
    (.corruptData "identity migrated-v3 scope-set digest is unauthenticated")

/-- A row that migration 4 kept for a save. -/
def isMigratedFor (receipt : IdentityCommit) (aliasSha256 : String)
    (conversationId : ConversationId) (row : ScopeRow) : Bool :=
  row.editionSha256 = receipt.editionSha256 && row.revision = receipt.revision &&
    row.aliasSha256 = aliasSha256 && row.conversationId = conversationId &&
    row.updatedAt = receipt.committedAt

/-- `validate_migrated_v3_save_receipt`: whether the receipt is one that
migration 4 made, after checking it. -/
def validateMigratedSaveReceipt (sha : Sha256) (db : IdentityDb) (receipt : IdentityCommit)
    (aliasSha256 : String) (conversationId : ConversationId) (scopes : List String) :
    Except StoreError Bool := do
  let migrated := db.migratedScopes.rows.filter (isMigratedFor receipt aliasSha256 conversationId)
  if migrated = [] then .ok false else do
    let _ ← orElse (scopeSetSha256FromHashes sha scopes)
      (.corruptData "identity migrated-v3 receipt scope membership is invalid")
    ensure (migrated.length = scopes.length && receipt.scopeSha256 ∈ scopes)
      (.corruptData "identity migrated-v3 receipt scope membership is inconsistent")
    scopes.forM (fun scope => ensure (migrated.any (fun row => row.scopeSha256 = scope))
      (.corruptData "identity migrated-v3 receipt scope authority is inconsistent"))
    validateMigratedScopeSetDigest sha receipt scopes
    .ok true

/-- The scope set that a receipt names is the one that is stored for it. -/
def validateScopeDigest (sha : Sha256) (receipt : IdentityCommit) (scopes : List String)
    (invalid inconsistent : String) : Except StoreError Unit := do
  let digest ← orElse (scopeSetSha256FromHashes sha scopes) (.corruptData invalid)
  ensure (digest = receipt.scopeSetSha256) (.corruptData inconsistent)

def validateSaveReceipt (sha : Sha256) (db : IdentityDb) (receipt : IdentityCommit)
    (scopes : List String) : Except StoreError Unit := do
  match receipt.aliasSha256, receipt.conversationId with
  | some aliasSha256, some conversationId => do
    ensure (isLowerHexSha256 aliasSha256)
      (.corruptData "identity save receipt payload is inconsistent")
    validateAliasMapping db aliasSha256 conversationId
    let migrated ← validateMigratedSaveReceipt sha db receipt aliasSha256 conversationId scopes
    if migrated then .ok () else do
      ensure (scopes.head? = some receipt.scopeSha256)
        (.corruptData "identity native-v4 save receipt scope digest is inconsistent")
      validateScopeDigest sha receipt scopes "identity save receipt scope set is invalid"
        "identity native-v4 save receipt scope digest is inconsistent"
  | _, _ => .error (.corruptData "identity mutation receipt payload is inconsistent")

/-- `validate_mutation_receipt`. -/
def validateMutationReceipt (sha : Sha256) (db : IdentityDb) (expectedEdition : String)
    (receipt : IdentityCommit) : Except StoreError Unit := do
  validateRevision receipt.revision
  ensure ([receipt.mutationSha256, receipt.editionSha256, receipt.scopeSha256,
    receipt.scopeSetSha256].all isLowerHexSha256)
    (.corruptData "identity mutation receipt digest is not lower-case SHA-256")
  ensure (receipt.editionSha256 = expectedEdition)
    (.corruptData "identity mutation receipt crosses edition authority")
  validateCanonicalTimestamp receipt.committedAt
    "identity mutation receipt timestamp is not canonical UTC"
  let scopes := receiptScopes db receipt.mutationSha256
  match receipt.operation with
  | .save => validateSaveReceipt sha db receipt scopes
  | .clearScope => do
    ensure (receipt.aliasSha256.isNone && receipt.conversationId.isNone &&
      scopes = [receipt.scopeSha256]) (.corruptData "identity clear-scope receipt is inconsistent")
    validateScopeDigest sha receipt scopes "identity clear-scope receipt scope set is invalid"
      "identity clear-scope receipt is inconsistent"
  | .clearAll =>
    ensure (receipt.aliasSha256.isNone && receipt.conversationId.isNone && scopes = [] &&
      receipt.scopeSha256 = clearAllSha256 sha && receipt.scopeSetSha256 = clearAllSha256 sha)
      (.corruptData "identity clear-all receipt is inconsistent")

/-- The latest receipt with a property: `ORDER BY revision DESC LIMIT 1`. -/
def latestReceipt (db : IdentityDb) (p : IdentityCommit → Bool) : Option IdentityCommit :=
  (db.mutations.rows.filter p).argmax IdentityCommit.revision

def hasScope (db : IdentityDb) (mutationSha256 scopeSha256 : String) : Bool :=
  (db.mutationScopes.find (mutationSha256, scopeSha256)).isSome

def isScopeClearReceipt (db : IdentityDb) (editionSha256 scopeSha256 : String)
    (receipt : IdentityCommit) : Bool :=
  receipt.operation = .clearScope && receipt.editionSha256 = editionSha256 &&
    (receipt.scopeSha256 = scopeSha256 || hasScope db receipt.mutationSha256 scopeSha256)

def isAllClearReceipt (editionSha256 : String) (receipt : IdentityCommit) : Bool :=
  receipt.operation = .clearAll && receipt.editionSha256 = editionSha256

def isSaveReceipt (db : IdentityDb) (editionSha256 scopeSha256 : String)
    (receipt : IdentityCommit) : Bool :=
  receipt.operation = .save && receipt.editionSha256 = editionSha256 &&
    (hasScope db receipt.mutationSha256 scopeSha256 ||
      (db.migratedScopes.find (editionSha256, scopeSha256)).any (fun row =>
        some row.aliasSha256 = receipt.aliasSha256 &&
          some row.conversationId = receipt.conversationId && row.revision = receipt.revision &&
          row.updatedAt = receipt.committedAt))

/-- The greater of two revisions. -/
def latestRevision (a b : Option Nat) : Option Nat :=
  match a, b with
  | some a, some b => some (max a b)
  | some a, none => some a
  | none, b => b

/-- One half of `validate_effect_receipt`. -/
def validateEffect (db : IdentityDb) (p : IdentityCommit → Bool) (effect : Option (Nat × Instant)) :
    Except StoreError Unit :=
  match effect with
  | none => .ok ()
  | some (revision, clearedAt) => do
    validateRevision revision
    validateCanonicalTimestamp clearedAt "identity clear effect timestamp is not canonical UTC"
    ensure (db.mutations.rows.any (fun row =>
      p row && row.revision = revision && row.committedAt = clearedAt))
      (.corruptData "identity clear effect has no mutation receipt")

def validateEffectReceipt (db : IdentityDb) (editionSha256 scopeSha256 : String)
    (scopeClear allClear : Option (Nat × Instant)) : Except StoreError Unit := do
  validateEffect db (fun row => row.operation = .clearScope && row.editionSha256 = editionSha256 &&
    row.scopeSha256 = scopeSha256) scopeClear
  validateEffect db (isAllClearReceipt editionSha256) allClear

def validateSelectionReceipt (db : IdentityDb) (row : ScopeRow) : Except StoreError Unit := do
  validateCanonicalTimestamp row.updatedAt
    "identity scope selection timestamp is not canonical UTC"
  validateAliasMapping db row.aliasSha256 row.conversationId
  ensure (db.mutations.rows.any (fun receipt => receipt.operation = .save &&
      receipt.editionSha256 = row.editionSha256 &&
      hasScope db receipt.mutationSha256 row.scopeSha256 &&
      receipt.aliasSha256 = some row.aliasSha256 &&
      receipt.conversationId = some row.conversationId && receipt.revision = row.revision &&
      receipt.committedAt = row.updatedAt) ||
    db.migratedScopes.find row.key = some row)
    (.corruptData "identity scope selection has no exact save receipt")

/-- The end of `identity_scope_selection`: what the checked rows say. -/
def selectionOf (db : IdentityDb) (selection : Option ScopeRow) (clearedAfter : Option Nat) :
    Except StoreError IdentityScopeSelection :=
  match selection with
  | none => .ok (if clearedAfter.isSome then .tombstoned else .untracked)
  | some row => do
    validateRevision row.revision
    ensure (isLowerHexSha256 row.aliasSha256)
      (.corruptData "identity scope selection contains invalid opaque material")
    validateSelectionReceipt db row
    .ok (if clearedAfter.any (fun cleared => row.revision ≤ cleared) then .tombstoned
      else .selected row.aliasSha256 row.conversationId)

/-- `identity_scope_selection`. -/
def identityScopeSelection (sha : Sha256) (db : IdentityDb) (edition : String)
    (scope : ConversationIdentityScope) : Except StoreError IdentityScopeSelection := do
  let editionSha256 ← identityInput (editionSha256 sha edition)
  let selection := db.scopes.find (editionSha256, scope.sha256)
  let scopeClear := (db.tombstones.find (editionSha256, scope.sha256)).map
    (fun row => (row.revision, row.clearedAt))
  let allClear := (db.clearAll.find editionSha256).map (fun row => (row.revision, row.clearedAt))
  let latestScope := latestReceipt db (isScopeClearReceipt db editionSha256 scope.sha256)
  let latestAll := latestReceipt db (isAllClearReceipt editionSha256)
  let latestSave := latestReceipt db (isSaveReceipt db editionSha256 scope.sha256)
  [latestScope, latestAll, latestSave].forM (fun receipt =>
    receipt.toList.forM (validateMutationReceipt sha db editionSha256))
  let migratedSave := (db.migratedScopes.find (editionSha256, scope.sha256)).map ScopeRow.revision
  [scopeClear.map Prod.fst, allClear.map Prod.fst, latestScope.map IdentityCommit.revision,
    latestAll.map IdentityCommit.revision, latestSave.map IdentityCommit.revision,
    migratedSave].forM (fun revision => revision.toList.forM validateRevision)
  let clearedAfter := latestRevision (scopeClear.map Prod.fst) (allClear.map Prod.fst)
  let receiptClear := latestRevision (latestScope.map IdentityCommit.revision)
    (latestAll.map IdentityCommit.revision)
  let selected := selection.map ScopeRow.revision
  ensure (!receiptClear.any (fun receipt => selected.all (fun revision => revision ≤ receipt) &&
    clearedAfter.all (fun effect => effect < receipt)))
    (.corruptData "identity clear receipt is missing its canonical effect")
  let saved := latestRevision (latestSave.map IdentityCommit.revision) migratedSave
  ensure (!saved.any (fun saved => receiptClear.all (fun cleared => cleared < saved) &&
    selected.all (fun revision => revision < saved)))
    (.corruptData "identity save receipt is missing its canonical selection")
  validateEffectReceipt db editionSha256 scope.sha256 scopeClear allClear
  selectionOf db selection clearedAfter

end Abbey.Conversation
