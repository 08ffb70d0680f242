import Mathlib.Data.Finset.Insert
import Abbey.Conversation.Identity

/-!
# Approved actions

`extensions/bot/src/action_approval.rs`: the approval state of writes to
Discord and GitHub.  An action is proposed, confirmed by a human, begun, and
finished.  The store makes no network call: the caller passes what holds now
as `ActionFacts`.

SHA-256 and the JSON of `serde_json` are what the crates give.
-/

namespace Abbey.Approval

open Abbey.Conversation (Sha256 lowerHex trim)
open Abbey.Lib

/-! ## Actions -/

inductive ActionTarget where
  | discordChannel (guild channel : Nat)
  | discordMessage (guild channel message : Nat)
  | gitHubRepository (installation : Nat) (owner repo : String)
  | gitHubIssue (installation : Nat) (owner repo : String) (issue : Nat)

inductive ActionOperation where
  | discordSendMessage (content : String)
  | discordEditOwnMessage (content : String)
  | discordCreateThread (name content : String)
  | discordCreateForumPost (name content : String)
  | discordCreateEvent (name : String) (startsAt endsAt : Nat)
  | discordAddChannel (name : String) (parent : Option Nat)
  | gitHubCreateIssue (title body : String)
  | gitHubUpdateIssue (title body : Option String)
  | gitHubComment (body : String)

inductive ActionPermission where
  | discordSendMessages
  | discordManageMessages
  | discordManageThreads
  | discordManageChannels
  | discordManageEvents
  | gitHubIssuesWrite
  deriving DecidableEq

structure ActionSpec where
  target : ActionTarget
  operation : ActionOperation
  required : Finset ActionPermission

def isBlank (s : String) : Bool := (trim s).isEmpty

def validPart (part : String) : Bool :=
  !part.isEmpty && part.utf8ByteSize ≤ 100 &&
    part.toList.all (fun c => c.isAlphanum || c = '-' || c = '_' || c = '.')

def validRepo (owner repo : String) : Bool := validPart owner && validPart repo

/-- A text that says something within a number of bytes. -/
def isText (s : String) (max : Nat) : Bool := !isBlank s && s.utf8ByteSize ≤ max

/-- Whether the operation fits the target, and the permission it needs. -/
def neededPermission : ActionOperation → ActionTarget → Option (Bool × ActionPermission)
  | .discordSendMessage content, .discordChannel guild channel =>
    some (guild ≠ 0 && channel ≠ 0 && isText content 2000, .discordSendMessages)
  | .discordEditOwnMessage content, .discordMessage guild channel message =>
    some (guild ≠ 0 && channel ≠ 0 && message ≠ 0 && isText content 2000, .discordManageMessages)
  | .discordCreateThread name content, .discordChannel guild channel
  | .discordCreateForumPost name content, .discordChannel guild channel =>
    some (guild ≠ 0 && channel ≠ 0 && isText name 100 && isText content 2000,
      .discordManageThreads)
  | .discordCreateEvent name startsAt endsAt, .discordChannel guild channel =>
    some (guild ≠ 0 && channel ≠ 0 && isText name 100 && startsAt < endsAt, .discordManageEvents)
  | .discordAddChannel name _, .discordChannel guild channel =>
    some (guild ≠ 0 && channel ≠ 0 && isText name 100, .discordManageChannels)
  | .gitHubCreateIssue title body, .gitHubRepository installation owner repo =>
    some (installation ≠ 0 && validRepo owner repo && isText title 256 &&
      body.utf8ByteSize ≤ 65000, .gitHubIssuesWrite)
  | .gitHubUpdateIssue title body, .gitHubIssue installation owner repo issue =>
    some (installation ≠ 0 && issue ≠ 0 && validRepo owner repo &&
      (title.isSome || body.isSome) && title.all (fun text => isText text 256) &&
      body.all (fun text => text.utf8ByteSize ≤ 65000), .gitHubIssuesWrite)
  | .gitHubComment body, .gitHubIssue installation owner repo issue =>
    some (installation ≠ 0 && issue ≠ 0 && validRepo owner repo && isText body 65000,
      .gitHubIssuesWrite)
  | _, _ => none

def ActionSpec.valid (spec : ActionSpec) : Bool :=
  match neededPermission spec.operation spec.target with
  | some (targetOk, needed) => targetOk && spec.required = {needed}
  | none => false

/-! ## Proposals -/

inductive ActionState where
  | proposed
  | approved
  | executing
  | verified
  | reviewRequired
  | failed
  | invalidated
  deriving DecidableEq

structure ActionProposal where
  id : Nat
  spec : ActionSpec
  requester : Nat
  expiresAt : Nat
  targetFingerprint : String
  contentDigest : String
  state : ActionState
  approver : Option Nat
  resultReference : Option String

inductive ActionError where
  | invalid
  | denied
  | expired
  | stale
  | alreadyHandled
  | missing
  | full

/-- What holds when a caller confirms or begins. -/
structure ActionFacts where
  humanPrincipal : Option Nat
  currentPermissions : Finset ActionPermission
  targetFingerprint : String
  now : Nat

structure ActionStore where
  sequence : Nat
  proposals : Table ActionProposal.id

instance : Inhabited ActionStore := ⟨0, .empty⟩

/-- What comes from other crates: the digest with the JSON that it covers,
and the JSON in which the store is kept between two runs of the bot. -/
structure Crates where
  sha : Sha256
  encode : ActionSpec → Nat → Nat → String → List UInt8
  save : ActionStore → List UInt8
  load : List UInt8 → Option ActionStore
  load_save : ∀ store, load (save store) = some store

def contentDigest (crates : Crates) (spec : ActionSpec) (requester expiresAt : Nat)
    (target : String) : String :=
  lowerHex (crates.sha (crates.encode spec requester expiresAt target)).toList

/-- The digest that a proposal of this content has. -/
def ActionProposal.digest (crates : Crates) (p : ActionProposal) : String :=
  Approval.contentDigest crates p.spec p.requester p.expiresAt p.targetFingerprint

def maxU64 : Nat := 2 ^ 64 - 1

def maxProposals : Nat := 10000

inductive BeginOutcome where
  | ready (spec : ActionSpec)
  | invalidated (reason : ActionError)

/-- The first reason why a proposal cannot go on. -/
def validate (crates : Crates) (p : ActionProposal) (displayedDigest : String)
    (facts : ActionFacts) : Except ActionError Unit :=
  if facts.humanPrincipal = none ∨ facts.humanPrincipal = some 0 then .error .denied
  else if p.expiresAt ≤ facts.now then .error .expired
  else if displayedDigest ≠ p.contentDigest ∨ facts.targetFingerprint ≠ p.targetFingerprint ∨
      p.digest crates ≠ p.contentDigest then .error .stale
  else if ¬ p.spec.required ⊆ facts.currentPermissions then .error .denied
  else .ok ()

namespace ActionStore

/-- Whether `compact` drops a proposal. -/
def reclaims (now : Nat) (p : ActionProposal) : Bool :=
  match p.state with
  | .verified | .failed | .invalidated => true
  | .proposed | .approved => p.expiresAt ≤ now
  | .executing | .reviewRequired => false

def compact (store : ActionStore) (now : Nat) : ActionStore :=
  { store with proposals := store.proposals.delete (reclaims now) }

/-- Change the proposal under an id. -/
def modify (store : ActionStore) (id : Nat) (f : ActionProposal → ActionProposal)
    (hf : ∀ p, (f p).id = p.id) : ActionStore :=
  { store with proposals := store.proposals.modify (fun p => p.id = id) f hf }

variable (crates : Crates) (store : ActionStore)

def propose (spec : ActionSpec) (requester expiresAt : Nat) (targetFingerprint : String) :
    ActionStore × Except ActionError Nat :=
  if requester = 0 ∨ expiresAt = 0 ∨ targetFingerprint.isEmpty ∨
      256 < targetFingerprint.utf8ByteSize ∨ spec.valid = false then (store, .error .invalid)
  else if store.sequence = maxU64 then (store, .error .full)
  else
    let compacted :=
      if maxProposals ≤ store.proposals.rows.length then store.compact 0 else store
    if maxProposals ≤ compacted.proposals.rows.length then (compacted, .error .full)
    else
      let id := store.sequence + 1
      (⟨id, compacted.proposals.put ⟨id, spec, requester, expiresAt, targetFingerprint,
        contentDigest crates spec requester expiresAt targetFingerprint, .proposed, none, none⟩⟩,
        .ok id)

def confirm (id : Nat) (displayedDigest : String) (facts : ActionFacts) :
    ActionStore × Except ActionError Unit :=
  match store.proposals.find id with
  | none => (store, .error .missing)
  | some p =>
    if p.state ≠ .proposed then (store, .error .alreadyHandled)
    else match validate crates p displayedDigest facts with
      | .error reason => (store, .error reason)
      | .ok () => (store.modify id
          (fun p => { p with approver := facts.humanPrincipal, state := .approved })
          (fun _ => rfl), .ok ())

def begin (id : Nat) (facts : ActionFacts) : ActionStore × Except ActionError BeginOutcome :=
  match store.proposals.find id with
  | none => (store, .error .missing)
  | some p =>
    if p.state ≠ .approved then (store, .error .alreadyHandled)
    else if p.approver ≠ facts.humanPrincipal then (store, .error .denied)
    else match validate crates p p.contentDigest facts with
      | .error reason => (store.modify id
          (fun p => { p with state := .invalidated, approver := none }) (fun _ => rfl),
          .ok (.invalidated reason))
      | .ok () => (store.modify id (fun p => { p with state := .executing }) (fun _ => rfl),
          .ok (.ready p.spec))

def finish (id : Nat) (state : ActionState) (resultReference : Option String) :
    ActionStore × Except ActionError Unit :=
  match store.proposals.find id with
  | none => (store, .error .missing)
  | some p =>
    if p.state ≠ .executing ∨
        ¬ (state = .verified ∨ state = .reviewRequired ∨ state = .failed) then
      (store, .error .alreadyHandled)
    else (store.modify id
      (fun p => { p with state := state, resultReference := resultReference }) (fun _ => rfl),
      .ok ())

def markInterrupted : ActionStore :=
  let interrupted (p : ActionProposal) : ActionProposal := { p with state := .reviewRequired }
  { store with
    proposals := store.proposals.modify (fun p => p.state = .executing) interrupted (fun _ => rfl) }

/-- The store is written out and read back. -/
def reload : ActionStore := (crates.load (crates.save store)).getD store

end ActionStore

end Abbey.Approval
