import Abbey.Lib.Durable
import Abbey.Mirror.Files

/-!
# The plans of the mirror journal

`src/state/conversation.rs` and `src/state/conversation/clear.rs`.  Before
a save or a clear touches the database it writes a plan to the journal:
which mirrors it will write or remove, and what they held before.  The
journal is JSON with the paths and the snapshots in hexadecimal; the model
keeps the plan itself, and `journalSize` is the length of its text.
-/

namespace Abbey.Mirror

open Abbey.Lib
open Abbey.Conversation
open Abbey.Run (Instant StoreError isControl)

/-! ## The state of a process -/

/-- The edition that the binary was compiled as. -/
inductive Edition where
  | safe | personal

def Edition.slug : Edition → String
  | .safe => "abbey"
  | .personal => "abbey-personal"

/-- `AbbeyState`: what a process knows of its edition and of where it runs. -/
structure AbbeyState where
  edition : Edition
  perCwd : Bool
  cwd : Path

/-- The text of a UUID. -/
structure Uuid where
  text : String
  size : text.utf8ByteSize = 36
  chars : text.toList.all (fun c => isLowerHex c || c = '-') = true
  deriving DecidableEq

/-- `active_chat_file`. -/
def activeChatFile (state : AbbeyState) : MirrorPath :=
  if state.perCwd then .cwd (cwdKey state.cwd) else .global

/-- The path of a mirror in the state directory. -/
def pathBytes (root : Path) : MirrorPath → Path
  | .cwd name => root ++ utf8 "/by-cwd/" ++ utf8 name
  | .global => root ++ utf8 "/chat-id"
  | .exported => root ++ utf8 "/chat-id.export"
  | .history => root ++ utf8 "/history.log"

def journalSchema : Nat := 1

def maxJournalBytes : Nat := 2 * maxHistoryBytes + 64 * 1024

/-! ## Saves -/

inductive TargetRole where
  | active | global | exported | history
  deriving DecidableEq

def targetLimit : TargetRole → Nat
  | .history => maxHistoryBytes
  | .active | .global | .exported => maxIdFileBytes

structure MirrorSnapshot where
  role : TargetRole
  path : MirrorPath
  before : Option Bytes
  deriving DecidableEq

structure JournalPlan where
  schemaVersion : Nat
  mutationToken : Uuid
  editionSlug : String
  externalId : String
  cwd : Path
  cwdDisplay : String
  perCwd : Bool
  targets : List MirrorSnapshot
  deriving DecidableEq

/-- The scopes that a save selects, the working directory first. -/
def JournalPlan.scopes (sha : Sha256) (plan : JournalPlan) : List ConversationIdentityScope :=
  (if plan.perCwd then [.workingDirectory sha plan.cwd] else []) ++ [.global sha]

def JournalPlan.targetPath (plan : JournalPlan) (role : TargetRole) : Option MirrorPath :=
  (plan.targets.find? (fun target => target.role = role)).map MirrorSnapshot.path

/-- `configured_targets_for`. -/
def configuredTargetsFor (cwd : Path) (perCwd : Bool) : List (TargetRole × MirrorPath) :=
  (if perCwd then [(.active, .cwd (cwdKey cwd))] else []) ++
    [(.global, .global), (.exported, .exported), (.history, .history)]

/-- The file name before its last dot; a leading dot is part of it. -/
def fileStem (name : List Char) : List Char :=
  match (name.reverse.dropWhile (fun c => c ≠ '.')).tail.reverse with
  | [] => name
  | stem => stem

/-- `Path::with_extension("export")`, inside the mirrors. -/
def MirrorPath.withExport : MirrorPath → Option MirrorPath
  | .cwd name => some (.cwd (String.ofList (fileStem name.toList ++ ".export".toList)))
  | .global => some .exported
  | .exported => some .exported
  | .history => none

def validateExternalId (value : String) : Except ChatError String := do
  ensure (isPlain (trim value) maxExternalIdBytes)
    (.bail "conversation id is empty, contains controls, or exceeds 512 bytes")
  .ok (trim value)

/-- `validate_plan`. -/
def validatePlan (edition : Edition) (plan : JournalPlan) : Except ChatError Unit := do
  ensure (plan.schemaVersion = journalSchema)
    (.bail "unsupported conversation mirror journal schema")
  ensure (plan.editionSlug = edition.slug)
    (.bail "conversation mirror journal belongs to another edition")
  let _ ← validateExternalId plan.externalId
  ensure (!plan.cwdDisplay.toList.any isControl) (.bail "conversation mirror journal cwd is invalid")
  ensure (plan.targets.length = if plan.perCwd then 4 else 3)
    (.bail "conversation mirror journal target count is invalid")
  ensure (plan.targets.map MirrorSnapshot.role).Nodup
    (.bail "conversation mirror journal contains a duplicate role")
  ensure (plan.targets.map MirrorSnapshot.path).Nodup
    (.bail "conversation mirror targets must be pairwise distinct")
  ensure (plan.targets.all (fun target =>
    target.before.all (fun before => before.length ≤ targetLimit target.role)))
    (.bail "conversation mirror journal snapshot exceeds its bound")
  ensure ([.global, .exported, .history].all
    (fun role => (plan.targets.map MirrorSnapshot.role).contains role))
    (.bail "conversation mirror journal target is missing")
  ensure ((plan.targets.map MirrorSnapshot.role).contains .active = plan.perCwd)
    (.bail "conversation mirror journal active target is invalid")
  ensure (plan.targetPath .exported = (plan.targetPath .global).bind MirrorPath.withExport)
    (.bail "conversation export target does not match the global mirror")
  ensure (!plan.perCwd || plan.targetPath .active = some (.cwd (cwdKey plan.cwd)))
    (.bail "conversation active target does not match its edition state")

/-! ## Clears -/

inductive ClearOperation where
  | clearScope | clearAll
  deriving DecidableEq

inductive ClearTargetRole where
  | active | global | exported | cwd
  deriving DecidableEq

structure ClearTarget where
  role : ClearTargetRole
  path : MirrorPath
  before : Option Bytes
  deriving DecidableEq

/-- The token of a clear is a nonce and the digest that binds the plan to it. -/
structure ClearPlan where
  schemaVersion : Nat
  operation : ClearOperation
  nonce : Uuid
  binding : String
  editionSlug : String
  cwd : Path
  perCwd : Bool
  targets : List ClearTarget
  deriving DecidableEq

def ClearPlan.mutationToken (plan : ClearPlan) : String := plan.nonce.text ++ ":" ++ plan.binding

def ClearPlan.scopes (sha : Sha256) (plan : ClearPlan) : Option (List ConversationIdentityScope) :=
  match plan.operation with
  | .clearScope => some [if plan.perCwd then .workingDirectory sha plan.cwd else .global sha]
  | .clearAll => none

def ClearOperation.tag : ClearOperation → UInt8
  | .clearScope => 1
  | .clearAll => 2

def ClearTargetRole.tag : ClearTargetRole → UInt8
  | .active => 1
  | .global => 2
  | .exported => 3
  | .cwd => 4

def ClearTarget.material (root : Path) (target : ClearTarget) : List UInt8 :=
  let pathHex := utf8 (lowerHex (pathBytes root target.path))
  target.role.tag :: (beBytes pathHex.length ++ pathHex ++
    match target.before with
    | some before => 1 :: (beBytes (2 * before.length) ++ utf8 (lowerHex before))
    | none => [0])

/-- `plan_binding_digest`. -/
def planBindingDigest (sha : Sha256) (root : Path) (plan : ClearPlan) : String :=
  digestParts sha "abbey:conversation-clear-plan:v1\x00" (utf8 plan.nonce.text ++
    [plan.operation.tag] ++ utf8 plan.editionSlug ++ utf8 (lowerHex plan.cwd) ++
    [if plan.perCwd then 1 else 0] ++ beBytes plan.targets.length ++
    plan.targets.flatMap (ClearTarget.material root))

def maxClearTargets : Nat := 1024

def ClearPlan.targetPath (plan : ClearPlan) (role : ClearTargetRole) : Option MirrorPath :=
  (plan.targets.find? (fun target => target.role = role)).map ClearTarget.path

/-- `validate_global_pair`. -/
def validateGlobalPair (plan : ClearPlan) : Except ChatError Unit := do
  let global ← required (plan.targetPath .global)
    (.bail "conversation clear global target is missing")
  let exported ← required (plan.targetPath .exported)
    (.bail "conversation clear export target is missing")
  ensure (some exported = global.withExport)
    (.bail "conversation clear export target does not match global")
  ensure ((plan.targets.filter (fun target => target.role = .global)).length = 1 &&
    (plan.targets.filter (fun target => target.role = .exported)).length = 1)
    (.bail "conversation clear global target roles are duplicated")

def MirrorPath.isCwd : MirrorPath → Bool
  | .cwd _ => true
  | _ => false

/-- The files of the `by-cwd` directory. -/
def cwdEntries (files : Files) : List MirrorPath :=
  (files.rows.map MirrorRow.path).filter MirrorPath.isCwd

/-- `validate_plan` of a clear. -/
def validateClearPlan (sha : Sha256) (root : Path) (edition : Edition) (files : Files)
    (plan : ClearPlan) : Except ChatError Unit := do
  ensure (plan.schemaVersion = journalSchema)
    (.bail "unsupported conversation clear journal schema")
  ensure (plan.editionSlug = edition.slug)
    (.bail "conversation clear journal belongs to another edition")
  ensure (plan.binding = planBindingDigest sha root plan)
    (.bail "conversation clear journal mutation token is invalid")
  ensure (plan.targets ≠ [] && plan.targets.length ≤ maxClearTargets)
    (.bail "conversation clear target count is invalid")
  ensure (plan.targets.map ClearTarget.path).Nodup
    (.bail "conversation clear targets must be pairwise distinct")
  ensure (plan.targets.all (fun target =>
    target.before.all (fun before => before.length ≤ maxIdFileBytes)))
    (.bail "conversation clear snapshot exceeds its bound")
  match plan.operation, plan.perCwd with
  | .clearScope, true => do
    ensure (plan.targets.length = 1) (.bail "current-scope clear target count is invalid")
    ensure (plan.targets.all (fun target => target.role = .active))
      (.bail "current-scope clear target role is invalid")
    ensure (plan.targets.all (fun target => target.path = .cwd (cwdKey plan.cwd)))
      (.bail "current-scope clear target is invalid")
  | .clearScope, false => do
    ensure (plan.targets.length = 2 && plan.targets.all (fun target =>
      target.role = .global || target.role = .exported))
      (.bail "global-scope clear target roles are invalid")
    validateGlobalPair plan
  | .clearAll, _ => do
    ensure (plan.targets.all (fun target => target.role ≠ .active))
      (.bail "all-scope clear target roles are invalid")
    validateGlobalPair plan
    ensure (plan.targets.all (fun target => target.role ≠ .cwd || target.path.isCwd))
      (.bail "all-scope clear target is outside the by-cwd directory")
    ensure ((cwdEntries files).all (fun path => path ∈ plan.targets.map ClearTarget.path))
      (.bail "all-scope clear journal omits a current by-cwd mirror")

/-! ## The journal -/

inductive Journal where
  | save (plan : JournalPlan)
  | clear (plan : ClearPlan)
  deriving DecidableEq

/-- What the model takes from outside: SHA-256, the state directory, the
RFC 3339 text of a time, and the length of a journal as JSON.  A text of
`SecondsFormat::Millis` has at most 27 bytes, for the years of six digits. -/
structure Platform where
  sha : Sha256
  root : Path
  stamp : Instant → String
  stamp_short : ∀ time, (stamp time).utf8ByteSize ≤ 27
  journalSize : Journal → Nat

/-- What survives a crash. -/
structure Home where
  db : IdentityDb
  files : Files
  journal : Option Journal
  deriving DecidableEq

end Abbey.Mirror
