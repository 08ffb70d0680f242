import Abbey.Lib.Json
import Abbey.Run.Contract

/-!
# Audit metadata

`src/runtime/store/audit.rs`.  The metadata of an audit event is bounded and
sanitized before it is stored: a text that looks like a secret is replaced
as a whole, whatever field it stands in.
-/

namespace Abbey.Authority

open Abbey.Lib Abbey.Run Except

variable {rest : List (String × Value)}

def maxMetadataBytes : Nat := 4 * 1024

def maxStringBytes : Nat := 512

def maxCollectionItems : Nat := 32

/-- `MAX_DEPTH`, and the level of the object itself. -/
def maxLevels : Nat := 5

/-- `StoreError::InvalidAuditMetadata` and `StoreError::InvalidInput`. -/
inductive AuditError where
  | invalidAuditMetadata (message : String)
  | invalidInput (message : String)
  | database

/-- `to_ascii_lowercase`. -/
def asciiLower (text : String) : List Char := text.toList.map Char.toLower

/-- `str::contains`. -/
def containsText (text pattern : List Char) : Bool :=
  text.tails.any (fun rest => pattern.isPrefixOf rest)

def looksSecret (text : String) : Bool :=
  let lower := asciiLower text
  "bearer ".toList.isPrefixOf lower || "sk-".toList.isPrefixOf lower ||
    containsText lower "-----begin private key-----".toList

def sensitiveMarkers : List String :=
  ["prompt", "credential", "password", "secret", "token", "authorization", "cookie", "api_key"]

def isSensitiveKey (key : String) : Bool :=
  let key := (asciiLower key).map (fun c => if c = '-' ∨ c = ' ' then '_' else c)
  sensitiveMarkers.any (fun marker => containsText key marker.toList)

def redacted : String := "[REDACTED]"

/-- One field of `sanitize_object`. -/
def sanitizeField (sanitize : Value → Except AuditError Value) :
    String × Value → Except AuditError (String × Value)
  | (key, value) => do
    ensure (!(key.isEmpty || key.utf8ByteSize > 64 || key.toList.any isControl))
      (.invalidAuditMetadata "metadata key is invalid")
    if isSensitiveKey key then .ok (key, .string redacted)
    else do
      let value ← sanitize value
      .ok (key, value)

/-- `sanitize_value`, with the levels that are left. -/
def sanitizeValue : Nat → Value → Except AuditError Value
  | 0, _ => .error (.invalidAuditMetadata "metadata nesting exceeds four levels")
  | levels + 1, .object fields => do
    ensure (fields.length ≤ maxCollectionItems)
      (.invalidAuditMetadata "metadata object exceeds 32 fields")
    let fields ← fields.mapM (sanitizeField (sanitizeValue levels))
    .ok (.object fields)
  | levels + 1, .array items => do
    ensure (items.length ≤ maxCollectionItems)
      (.invalidAuditMetadata "metadata array exceeds 32 items")
    let items ← items.mapM (sanitizeValue levels)
    .ok (.array items)
  | _ + 1, .string text => do
    ensure (text.utf8ByteSize ≤ maxStringBytes)
      (.invalidAuditMetadata "metadata string exceeds 512 bytes")
    .ok (.string (if looksSecret text then redacted else text))
  | _ + 1, value => .ok value

/-- `AuditMetadata::new`. -/
def auditMetadata (value : Value) : Except AuditError Value := do
  ensure value.asObject.isSome (.invalidAuditMetadata "metadata must be a JSON object")
  let value ← sanitizeValue maxLevels value
  ensure (bytes value.print ≤ maxMetadataBytes)
    (.invalidAuditMetadata "metadata exceeds 4096 bytes")
  .ok value

/-- An audit event that belongs to no run. -/
structure AuditEvent where
  action : String
  outcome : String
  metadata : Value

def validateAuditLabel (value message : String) : Except AuditError Unit :=
  ensure (!(value.isEmpty || value.utf8ByteSize > 64 || value.toList.any isControl))
    (.invalidInput message)

/-- The event that `record_audit` inserts. -/
def newAuditEvent (action outcome : String) (metadata : Value) : Except AuditError AuditEvent := do
  let metadata ← auditMetadata metadata
  validateAuditLabel action "audit action is empty or exceeds 64 bytes"
  validateAuditLabel outcome "audit outcome is empty or exceeds 64 bytes"
  .ok ⟨action, outcome, metadata⟩

def toolAuthorization : String := "v3_tool_authorization"

/-- The call that an authorization event names. -/
def AuditEvent.usedCall (event : AuditEvent) : Option String :=
  if event.action = toolAuthorization then (event.metadata.index "call_id").asStr else none

/-- The first field of an object keeps its text, unless it looks like a
secret. -/
theorem index_auditMetadata (h : auditMetadata (.object ((key, .string text) :: rest)) = .ok value)
    (hkey : isSensitiveKey key = false) :
    value.index key = .string (if looksSecret text then redacted else text) := by
  unfold auditMetadata at h
  simp only [bind_ok_iff, ensure_eq_ok, ok.injEq] at h
  obtain ⟨_, _, sanitized, hsanitized, _, _, rfl⟩ := h
  simp only [maxLevels, sanitizeValue, bind_ok_iff, ensure_eq_ok, ok.injEq,
    List.mapM_cons] at hsanitized
  obtain ⟨_, _, _, ⟨field, hfield, fields, _, hcons⟩, rfl⟩ := hsanitized
  cases hcons
  simp only [sanitizeField, hkey, Bool.false_eq_true, if_false, bind_ok_iff, ensure_eq_ok,
    sanitizeValue, ok.injEq] at hfield
  obtain ⟨_, _, _, ⟨_, _, rfl⟩, rfl⟩ := hfield
  simp [Value.index]

/-- An authorization names its call, unless the identifier looks like a
secret. -/
theorem usedCall_newAuditEvent
    (h : newAuditEvent toolAuthorization outcome (.object (("call_id", .string callId) :: rest)) =
      .ok event) (hplain : looksSecret callId = false) : event.usedCall = some callId := by
  unfold newAuditEvent at h
  simp only [bind_ok_iff, ok.injEq] at h
  obtain ⟨metadata, hmetadata, _, _, _, _, rfl⟩ := h
  have hkey : isSensitiveKey "call_id" = false := by decide +kernel
  unfold AuditEvent.usedCall
  rw [if_pos rfl, index_auditMetadata hmetadata hkey, hplain]
  rfl

end Abbey.Authority
