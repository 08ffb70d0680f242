import Mathlib.Data.List.DropRight
import Abbey.Lib.Text
import Abbey.Run.Records

/-!
# Conversation identities

`src/runtime/identity.rs`: the opaque material that stands for an external
conversation id, an edition, a scope and a mutation token.  The database
holds these digests and never the texts.

SHA-256 itself is a parameter, a function from bytes to 32 bytes.  Nothing
is assumed of it here; `CollisionFree` is the assumption that the
refinement of the ledger makes.
-/

namespace Abbey.Conversation

open Abbey.Lib
open Abbey.Run (ConversationId Instant StoreError isControl isWhitespace)

/-! ## Digests -/

/-- SHA-256. -/
abbrev Sha256 := List UInt8 → Vector UInt8 32

/-- The 32 bytes of a digest. -/
def digest32 (n : Nat) : Vector UInt8 32 :=
  Vector.ofFn (fun i => UInt8.ofNat (n / 256 ^ (31 - i.val)))

def utf8 (s : String) : List UInt8 := s.toUTF8.data.toList

def hexByte (byte : UInt8) : List Char :=
  [Nat.digitChar (byte.toNat / 16), Nat.digitChar (byte.toNat % 16)]

def lowerHex (bytes : List UInt8) : String := String.ofList (bytes.flatMap hexByte)

def isLowerHex (c : Char) : Bool := c.isDigit || ('a' ≤ c && c ≤ 'f')

def isLowerHexSha256 (value : String) : Bool :=
  value.utf8ByteSize = 64 && value.toList.all isLowerHex

def digestParts (sha : Sha256) (domain : String) (material : List UInt8) : String :=
  lowerHex (sha (utf8 domain ++ material)).toList

theorem isLowerHex_hexByte (byte : UInt8) : (hexByte byte).all isLowerHex := by
  have hsmall : ∀ n, n < 16 → isLowerHex (Nat.digitChar n) := by decide
  have hlt := byte.toNat_lt
  simp [hexByte, hsmall (byte.toNat / 16) (by omega), hsmall (byte.toNat % 16) (by omega)]

theorem utf8Size_of_isLowerHex {c : Char} (h : isLowerHex c) : c.utf8Size = 1 := by
  rw [Char.utf8Size_eq_one_iff]
  unfold isLowerHex Char.isDigit at h
  simp only [Bool.or_eq_true, Bool.and_eq_true, decide_eq_true_eq] at h
  rw [UInt32.le_iff_toNat_le]
  rcases h with ⟨_, hle⟩ | ⟨_, hle⟩
  · have hnat := UInt32.le_iff_toNat_le.mp hle
    have hnine : '9'.val.toNat = 57 := rfl
    have hmax : (127 : UInt32).toNat = 127 := rfl
    omega
  · have hnat := UInt32.le_iff_toNat_le.mp hle
    have hf : 'f'.val.toNat = 102 := rfl
    have hmax : (127 : UInt32).toNat = 127 := rfl
    omega

theorem bytes_of_isLowerHex {cs : List Char} (h : cs.all isLowerHex) : bytes cs = cs.length := by
  induction cs with
  | nil => rfl
  | cons c cs ih =>
    rw [List.all_cons, Bool.and_eq_true] at h
    rw [bytes_cons, ih h.2, utf8Size_of_isLowerHex h.1, List.length_cons]
    omega

/-- The hexadecimal text of 32 bytes is a digest. -/
theorem isLowerHexSha256_lowerHex (digest : Vector UInt8 32) :
    isLowerHexSha256 (lowerHex digest.toList) := by
  have hall : (digest.toList.flatMap hexByte).all isLowerHex := by
    rw [List.all_eq_true]
    intro c hc
    obtain ⟨byte, _, hmem⟩ := List.mem_flatMap.mp hc
    exact List.all_eq_true.mp (isLowerHex_hexByte byte) c hmem
  have hlength : (digest.toList.flatMap hexByte).length = 64 := by
    have hpairs : ∀ byte ∈ digest.toList, (hexByte byte).length = 2 := fun _ _ => rfl
    rw [List.length_flatMap, List.map_congr_left hpairs]
    simp
  unfold isLowerHexSha256 lowerHex
  rw [utf8ByteSize_ofChars, bytes_of_isLowerHex hall, hlength, String.toList_ofList, hall]
  rfl

theorem isLowerHexSha256_digestParts (sha : Sha256) (domain : String) (material : List UInt8) :
    isLowerHexSha256 (digestParts sha domain material) :=
  isLowerHexSha256_lowerHex _

/-! ## Scopes -/

/-- `ConversationIdentityScope`: the digest of one scope of an edition.
Only digests are built. -/
structure ConversationIdentityScope where
  sha256 : String
  digest : isLowerHexSha256 sha256 = true
  deriving DecidableEq

/-- A path as its bytes. -/
abbrev Path := List UInt8

def ConversationIdentityScope.global (sha : Sha256) : ConversationIdentityScope :=
  ⟨digestParts sha "abbey:conversation-identity-scope:global:v1\x00" [],
    isLowerHexSha256_digestParts _ _ _⟩

def ConversationIdentityScope.workingDirectory (sha : Sha256) (path : Path) :
    ConversationIdentityScope :=
  ⟨digestParts sha "abbey:conversation-identity-scope:cwd:v1\x00" path,
    isLowerHexSha256_digestParts _ _ _⟩

/-! ## External identities -/

inductive IdentityError where
  | externalId | edition | mutationToken | scopeSet
  deriving DecidableEq

def maxExternalIdBytes : Nat := 512

def maxEditionSlugBytes : Nat := 64

def maxMutationTokenBytes : Nat := 128

def maxIdentityScopes : Nat := 16

structure ExternalIdentity where
  aliasSha256 : String
  conversationId : ConversationId

/-- `str::trim`. -/
def trim (s : String) : String :=
  String.ofList ((s.toList.dropWhile isWhitespace).reverse.dropWhile isWhitespace).reverse

theorem trim_trim (s : String) : trim (trim s) = trim s := by
  have hfront : ((s.toList.dropWhile isWhitespace).rdropWhile isWhitespace).dropWhile isWhitespace =
      (s.toList.dropWhile isWhitespace).rdropWhile isWhitespace := by
    rw [List.dropWhile_eq_self_iff]
    intro hlength
    have hpre := List.rdropWhile_prefix isWhitespace (s.toList.dropWhile isWhitespace)
    have hfirst := List.dropWhile_eq_self_iff.mp
      (List.dropWhile_idempotent isWhitespace s.toList)
    rw [hpre.getElem hlength]
    exact hfirst (by have := hpre.length_le; omega)
  show String.ofList (((String.ofList ((s.toList.dropWhile isWhitespace).rdropWhile
    isWhitespace)).toList.dropWhile isWhitespace).rdropWhile isWhitespace) = _
  rw [String.toList_ofList, hfront, List.rdropWhile_idempotent]
  rfl

/-- A text of at most `max` bytes that is not empty and has no controls. -/
def isPlain (value : String) (max : Nat) : Bool :=
  !value.isEmpty && value.utf8ByteSize ≤ max && !value.toList.any isControl

def validateExternalId (value : String) : Except IdentityError String :=
  if isPlain (trim value) maxExternalIdBytes then .ok (trim value) else .error .externalId

def aliasSha256 (sha : Sha256) (id : String) : String :=
  digestParts sha "abbey:legacy-conversation-alias:v1\x00" (utf8 id)

/-- The version and variant bits of a UUIDv8. -/
def uuidV8 (index : Nat) (byte : UInt8) : UInt8 :=
  if index = 6 then (byte &&& 0x0f) ||| 0x80
  else if index = 8 then (byte &&& 0x3f) ||| 0x80
  else byte

def conversationOf (sha : Sha256) (id : String) : ConversationId :=
  ⟨((sha (utf8 "abbey:legacy-conversation:v1\x00" ++ utf8 id)).toList.take 16).mapIdx uuidV8
    |>.foldl (fun n byte => n * 256 + byte.toNat) 0⟩

def externalIdentity (sha : Sha256) (value : String) : Except IdentityError ExternalIdentity := do
  let id ← validateExternalId value
  .ok ⟨aliasSha256 sha id, conversationOf sha id⟩

def editionSha256 (sha : Sha256) (slug : String) : Except IdentityError String :=
  if isPlain slug maxEditionSlugBytes then
    .ok (digestParts sha "abbey:conversation-identity-edition:v1\x00" (utf8 slug))
  else .error .edition

def mutationSha256 (sha : Sha256) (token : String) : Except IdentityError String :=
  if isPlain token maxMutationTokenBytes then
    .ok (digestParts sha "abbey:conversation-identity-mutation:v1\x00" (utf8 token))
  else .error .mutationToken

/-- `u64::to_be_bytes`. -/
def beBytes (n : Nat) : List UInt8 :=
  (List.range 8).reverse.map (fun i => UInt8.ofNat (n / 256 ^ i))

def scopeSetSha256FromHashes (sha : Sha256) (scopes : List String) :
    Except IdentityError String :=
  if scopes ≠ [] ∧ scopes.length ≤ maxIdentityScopes ∧ scopes.all isLowerHexSha256 ∧ scopes.Nodup
  then .ok (digestParts sha "abbey:conversation-identity-scope-set:v1\x00"
    (beBytes scopes.length ++ scopes.flatMap utf8))
  else .error .scopeSet

def scopeSetSha256 (sha : Sha256) (scopes : List ConversationIdentityScope) :
    Except IdentityError String :=
  scopeSetSha256FromHashes sha (scopes.map ConversationIdentityScope.sha256)

def clearAllSha256 (sha : Sha256) : String :=
  digestParts sha "abbey:conversation-identity-clear-all:v1\x00" []

/-! ## Commits -/

inductive IdentityOperation where
  | save | clearScope | clearAll
  deriving DecidableEq

/-- The durable marker of a committed identity mutation. -/
structure IdentityCommit where
  revision : Nat
  operation : IdentityOperation
  editionSha256 : String
  scopeSha256 : String
  scopeSetSha256 : String
  aliasSha256 : Option String
  conversationId : Option ConversationId
  mutationSha256 : String
  committedAt : Instant
  deriving DecidableEq

inductive IdentityScopeSelection where
  | untracked
  | selected (aliasSha256 : String) (conversationId : ConversationId)
  | tombstoned
  deriving DecidableEq

def IdentityScopeSelection.matchesExternalId (sha : Sha256) (selection : IdentityScopeSelection)
    (rawCandidate : String) : Except IdentityError Bool := do
  let candidate ← externalIdentity sha rawCandidate
  .ok (decide (selection = .selected candidate.aliasSha256 candidate.conversationId))

/-- `matches_save_scopes`. -/
def IdentityCommit.matchesSaveScopes (sha : Sha256) (commit : IdentityCommit) (edition : String)
    (scopes : List ConversationIdentityScope) (externalId token : String) : Bool :=
  match Conversation.editionSha256 sha edition, externalIdentity sha externalId,
      Conversation.mutationSha256 sha token, Conversation.scopeSetSha256 sha scopes with
  | .ok edition, .ok external, .ok mutation, .ok scopeSet =>
    commit.operation = .save && commit.editionSha256 = edition &&
      some commit.scopeSha256 = scopes.head?.map ConversationIdentityScope.sha256 &&
      commit.scopeSetSha256 = scopeSet && commit.aliasSha256 = some external.aliasSha256 &&
      commit.conversationId = some external.conversationId && commit.mutationSha256 = mutation
  | _, _, _, _ => false

/-- `matches_clear_scopes`. -/
def IdentityCommit.matchesClearScopes (sha : Sha256) (commit : IdentityCommit) (edition : String)
    (scopes : List ConversationIdentityScope) (token : String) : Bool :=
  match Conversation.editionSha256 sha edition, Conversation.mutationSha256 sha token,
      Conversation.scopeSetSha256 sha scopes with
  | .ok edition, .ok mutation, .ok scopeSet =>
    commit.operation = .clearScope && commit.editionSha256 = edition &&
      some commit.scopeSha256 = scopes.head?.map ConversationIdentityScope.sha256 &&
      commit.scopeSetSha256 = scopeSet && commit.aliasSha256.isNone &&
      commit.conversationId.isNone && commit.mutationSha256 = mutation
  | _, _, _ => false

/-- `matches_clear_all`. -/
def IdentityCommit.matchesClearAll (sha : Sha256) (commit : IdentityCommit)
    (edition token : String) : Bool :=
  match Conversation.editionSha256 sha edition, Conversation.mutationSha256 sha token with
  | .ok edition, .ok mutation =>
    commit.operation = .clearAll && commit.editionSha256 = edition &&
      commit.scopeSha256 = clearAllSha256 sha && commit.scopeSetSha256 = clearAllSha256 sha &&
      commit.aliasSha256.isNone && commit.conversationId.isNone &&
      commit.mutationSha256 = mutation
  | _, _ => false

end Abbey.Conversation
