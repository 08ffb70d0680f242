import Abbey.Run.Store
import Mathlib.Data.Finset.Card
import Mathlib.Data.Finset.Basic
import Mathlib.Data.List.Sort

/-!
# Contextual moderation cases

`src/extensions/bot/src/moderation/shadow.rs`, `shadow/model.rs` and
`contextual.rs`: a moderator captures a message, a second moderator reviews
the case, its subject may appeal, and a third moderator resolves the appeal.

The assessment and the severity of a case are those of its input.  `Digests`
stands for SHA-256 over the JSON of a value.  `FreshAuthority` and
`NewCase` can only be built through their checks, so both carry them.
-/

namespace Abbey.Moderation

open Abbey.Lib Abbey.Run

/-! ## Proposals -/

inductive Assessment where
  | confirmedOffending
  | ambiguous
  | quotationOrReport
  deriving DecidableEq

inductive Severity where
  | minor
  | serious
  | severe
  deriving DecidableEq

structure Input where
  guild : Nat
  channel : Nat
  message : Nat
  sourceAuthor : Nat
  target : Nat
  sourceMatchesScope : Bool
  contentAvailable : Bool
  targetIsBot : Bool
  targetIsStaff : Bool
  moderatorCanDelete : Bool
  moderatorCanTimeout : Bool
  hierarchyAllows : Bool
  assessment : Assessment
  severity : Severity

structure Proposal where
  guild : Nat
  channel : Nat
  message : Nat
  timeoutMinutes : Option Nat

def maxContextualTimeoutMinutes : Nat := 10

def qualify (input : Input) : Except String Proposal := do
  ensure (input.guild ≠ 0 && input.channel ≠ 0 && input.message ≠ 0 && input.sourceAuthor ≠ 0 &&
    input.target ≠ 0 && input.sourceMatchesScope && input.sourceAuthor = input.target)
    "Source scope or member attribution does not match. No contextual proposal qualified."
  ensure (!input.targetIsBot && !input.targetIsStaff)
    "Bot, staff and owner targets are excluded from this contextual pilot. Human review required."
  ensure input.contentAvailable
    "Message content is unavailable. Context cannot be qualified."
  ensure (input.assessment = .confirmedOffending)
    "Ambiguous, quoted or reported content requires human review; no contextual proposal qualified."
  ensure (input.moderatorCanDelete && input.moderatorCanTimeout && input.hierarchyAllows)
    "Current moderator permissions or target hierarchy do not qualify this proposal."
  .ok {
    guild := input.guild
    channel := input.channel
    message := input.message
    timeoutMinutes := match input.severity with
      | .minor => none
      | .serious | .severe => some maxContextualTimeoutMinutes }

/-! ## Policy and source -/

structure ShadowScope where
  enabled : Bool
  sourceChannels : Finset Nat
  reviewChannel : Option Nat

def ShadowScope.validate (scope : ShadowScope) (forbidden : Finset Nat) : Except String Unit :=
  ensure (scope.sourceChannels.card ≤ 100 && 0 ∉ scope.sourceChannels &&
    (∀ channel ∈ scope.sourceChannels, channel ∉ forbidden) && scope.reviewChannel ≠ some 0 &&
    (!scope.enabled || scope.sourceChannels ≠ ∅)) "invalid contextual shadow scope"

structure ShadowPolicy where
  guild : Nat
  owner : Nat
  stopped : Bool
  scope : ShadowScope

def ShadowPolicy.validate (policy : ShadowPolicy) : Except String Unit := do
  ensure (policy.guild ≠ 0 && policy.owner ≠ 0) "invalid contextual policy identity"
  policy.scope.validate ∅

structure SourceVersion where
  guild : Nat
  channel : Nat
  message : Nat
  author : Nat
  createdAt : Nat
  editedAt : Option Nat
  evidenceDigest : String
  deriving DecidableEq

def SourceVersion.validate (source : SourceVersion) : Except String Unit :=
  ensure (source.guild ≠ 0 && source.channel ≠ 0 && source.message ≠ 0 && source.author ≠ 0 &&
    source.createdAt ≠ 0 && source.editedAt.all (fun edited => source.createdAt ≤ edited) &&
    isDigest source.evidenceDigest) "invalid contextual source attribution"

/-- SHA-256 of the JSON of a source and of the scope of a policy. -/
structure Digests where
  case : SourceVersion → String
  scope : Nat → Nat → ShadowScope → String

def SourceVersion.caseId (digests : Digests) (source : SourceVersion) : Except String String := do
  source.validate
  .ok (digests.case source)

/-! ## Authority -/

structure NativeAuthorityFacts where
  guild : Nat
  owner : Nat
  actor : Nat
  origin : Nat
  at_ : Nat
  currentMember : Bool
  canViewOrigin : Bool
  canViewSource : Bool
  completePermissions : Bool
  canDelete : Bool
  canTimeout : Bool
  observedSource : Option SourceVersion

def NativeAuthorityFacts.check (facts : NativeAuthorityFacts) : Except String Unit := do
  ensure (facts.guild ≠ 0 && facts.owner ≠ 0 && facts.actor ≠ 0 && facts.origin ≠ 0 &&
    facts.at_ ≠ 0 && facts.currentMember && facts.canViewOrigin && facts.completePermissions)
    "current contextual access is unproved"
  match facts.observedSource with
  | none => .ok ()
  | some source => do
    source.validate
    ensure (facts.canViewSource && source.guild = facts.guild && source.createdAt ≤ facts.at_ &&
      source.editedAt.all (fun edited => edited ≤ facts.at_)) "contextual source guild mismatch"

/-- `FreshAuthority::verified` is the only way to one. -/
structure FreshAuthority where
  facts : NativeAuthorityFacts
  verified : facts.check = .ok ()

def proofTtlSeconds : Nat := 60

namespace FreshAuthority

def check (authority : FreshAuthority) (policy : ShadowPolicy) (now : Nat) :
    Except String Unit := do
  policy.validate
  ensure (authority.facts.guild = policy.guild && authority.facts.owner = policy.owner &&
    authority.facts.at_ ≤ now && now - authority.facts.at_ ≤ proofTtlSeconds)
    "contextual authority is stale or mismatched"

def staff (authority : FreshAuthority) (origin : Nat) : Except String Unit :=
  ensure (authority.facts.origin = origin && authority.facts.canDelete &&
    authority.facts.canTimeout) "current contextual staff authority is unproved"

def source (authority : FreshAuthority) (source : SourceVersion) : Bool :=
  authority.facts.observedSource = some source

end FreshAuthority

/-- What `NewCase::human_assessed` checks. -/
def humanAssessed (source : SourceVersion) (input : Input) (authority : FreshAuthority) :
    Except String Unit := do
  source.validate
  ensure (source.guild = input.guild && source.channel = input.channel &&
    source.message = input.message && source.author = input.sourceAuthor &&
    source.author = input.target && authority.source source) "contextual source version mismatched"
  let _ ← qualify { input with assessment := .confirmedOffending }
  ensure (authority.facts.actor ≠ source.author) "contextual assessor cannot target herself"

structure NewCase where
  source : SourceVersion
  input : Input
  authority : FreshAuthority
  assessed : humanAssessed source input authority = .ok ()

def NewCase.check (new : NewCase) (policy : ShadowPolicy) (now : Nat) : Except String Unit := do
  new.authority.check policy now
  new.authority.staff new.source.channel
  ensure (new.source.author ≠ policy.owner && new.source.guild = policy.guild &&
    new.source.createdAt ≤ now && new.source.editedAt.all (fun edited => edited ≤ now))
    "contextual capture attribution is invalid"

/-! ## Cases -/

inductive Disposition where
  | confirmedProposal (timeoutMinutes : Option Nat)
  | humanReview
  deriving DecidableEq

structure Provenance where
  actor : Nat
  origin : Nat
  owner : Nat
  at_ : Nat
  policyDigest : String
  scopeDigest : String
  deriving DecidableEq

def Provenance.new (digests : Digests) (authority : FreshAuthority) (policy : ShadowPolicy)
    (policyDigest : String) (now : Nat) : Except String Provenance := do
  authority.check policy now
  ensure (isDigest policyDigest) "invalid contextual policy digest"
  .ok {
    actor := authority.facts.actor
    origin := authority.facts.origin
    owner := policy.owner
    at_ := now
    policyDigest
    scopeDigest := digests.scope policy.guild policy.owner policy.scope }

def Provenance.validate (provenance : Provenance) : Except String Unit :=
  ensure (provenance.actor ≠ 0 && provenance.origin ≠ 0 && provenance.owner ≠ 0 &&
    provenance.at_ ≠ 0 && isDigest provenance.policyDigest && isDigest provenance.scopeDigest)
    "invalid contextual provenance"

inductive ReviewDecision where
  | agree
  | disagree
  | needsContext
  deriving DecidableEq

structure Review where
  expectedRevision : Nat
  decision : ReviewDecision
  provenance : Provenance
  deriving DecidableEq

inductive AppealReason where
  | contextMissing
  | attributionWrong
  | assessmentDisputed
  deriving DecidableEq

inductive AppealDecision where
  | upheld
  | rejected
  | needsContext
  deriving DecidableEq

structure AppealResolution where
  expectedRevision : Nat
  decision : AppealDecision
  provenance : Provenance
  deriving DecidableEq

structure Appeal where
  expectedRevision : Nat
  reason : AppealReason
  provenance : Provenance
  resolution : Option AppealResolution
  deriving DecidableEq

structure Case where
  id : String
  revision : Nat
  source : SourceVersion
  assessment : Assessment
  severity : Severity
  disposition : Disposition
  captured : Provenance
  review : Option Review
  appeal : Option Appeal
  deriving DecidableEq

namespace Case

def reviewer (case : Case) : Option Nat := case.review.map (fun review => review.provenance.actor)

def resolution (case : Case) : Option AppealResolution := case.appeal.bind Appeal.resolution

def resolver (case : Case) : Option Nat :=
  case.resolution.map (fun resolution => resolution.provenance.actor)

def expectedDisposition (case : Case) : Disposition :=
  match case.assessment with
  | .confirmedOffending => .confirmedProposal (match case.severity with
    | .minor => none
    | .serious | .severe => some maxContextualTimeoutMinutes)
  | _ => .humanReview

/-- The events after the capture: the revision each expects, and its provenance. -/
def events (case : Case) : List (Nat × Provenance) :=
  (case.review.map (fun review => (review.expectedRevision, review.provenance))).toList ++
    (case.appeal.map (fun appeal => (appeal.expectedRevision, appeal.provenance))).toList ++
    (case.resolution.map
      (fun resolution => (resolution.expectedRevision, resolution.provenance))).toList

/-- The loop over the sorted events. -/
def ordered (owner : Nat) : Nat → Nat → List (Nat × Provenance) → Bool
  | _, _, [] => true
  | index, lastAt, (revision, provenance) :: rest =>
    revision = index + 1 && lastAt ≤ provenance.at_ && provenance.owner = owner &&
      ordered owner (index + 1) provenance.at_ rest

def validateReview (case : Case) : Except String Unit :=
  match case.review with
  | none => .ok ()
  | some review => do
    review.provenance.validate
    ensure (review.provenance.actor ≠ case.source.author &&
      review.provenance.actor ≠ case.captured.actor) "contextual review is not independent"

def validateAppeal (case : Case) : Except String Unit :=
  match case.appeal with
  | none => .ok ()
  | some appeal => do
    appeal.provenance.validate
    ensure (appeal.provenance.actor = case.source.author &&
      appeal.provenance.origin = case.source.channel) "invalid contextual appellant"
    match appeal.resolution with
    | none => .ok ()
    | some resolution => do
      resolution.provenance.validate
      ensure (resolution.provenance.actor ≠ case.source.author &&
        resolution.provenance.actor ≠ case.captured.actor &&
        case.reviewer ≠ some resolution.provenance.actor &&
        appeal.expectedRevision < resolution.expectedRevision)
        "contextual appeal resolution is not independent"

def validate (digests : Digests) (case : Case) : Except String Unit := do
  case.source.validate
  case.captured.validate
  let id ← case.source.caseId digests
  ensure (case.id = id && case.disposition = case.expectedDisposition &&
    case.captured.origin = case.source.channel && case.captured.actor ≠ case.source.author &&
    case.captured.owner ≠ case.source.author && case.source.createdAt ≤ case.captured.at_ &&
    case.source.editedAt.all (fun edited => edited ≤ case.captured.at_)) "invalid contextual case"
  case.validateReview
  case.validateAppeal
  ensure (ordered case.captured.owner 0 case.captured.at_
    (case.events.insertionSort (fun a b => a.1 ≤ b.1))) "invalid contextual event order"
  ensure (case.revision = case.events.length + 1) "invalid contextual revision"

end Case

/-! ## The store -/

structure ExpectedCase where
  id : String
  revision : Nat

inductive Mutation where
  | capture (new : NewCase)
  | review (expected : ExpectedCase) (authority : FreshAuthority) (decision : ReviewDecision)
  | appeal (expected : ExpectedCase) (authority : FreshAuthority) (reason : AppealReason)
  | resolveAppeal (expected : ExpectedCase) (authority : FreshAuthority)
    (decision : AppealDecision)

inductive Change where
  | changed
  | alreadyObserved

def maxCases : Nat := 1000

def u64Max : Nat := 2 ^ 64 - 1

def checkedAdd (a b : Nat) : Option Nat := if a + b ≤ u64Max then some (a + b) else none

/-- The order of the keys is not modelled. -/
structure CaseStore where
  version : Nat
  revision : Nat
  cases : Table (Prod.fst : String × Case → String)
  deriving DecidableEq

namespace CaseStore

def default : CaseStore := ⟨1, 0, .empty⟩

def get (store : CaseStore) (id : String) : Option Case := (store.cases.find id).map Prod.snd

/-- The loop of `validate` over the cases, with the events so far. -/
def validateCases (digests : Digests) : List (String × Case) → Nat → Except String Nat
  | [], events => .ok events
  | (key, case) :: rest, events => do
    case.validate digests
    ensure (key = case.id) "contextual case key mismatch"
    let events ← required (checkedAdd events case.revision) "contextual revision exhausted"
    validateCases digests rest events

def validate (digests : Digests) (store : CaseStore) : Except String Unit := do
  ensure (store.version = 1 && store.cases.rows.length ≤ maxCases) "invalid contextual case store"
  let events ← validateCases digests store.cases.rows 0
  ensure (events = store.revision) "contextual store revision mismatch"

end CaseStore

def checkRevision (case : Case) (expected : ExpectedCase) : Except String Unit :=
  ensure (case.id = expected.id && case.revision = expected.revision)
    "contextual case changed; refresh before deciding"

def checkRevisionOrResolution (case : Case) (expected : ExpectedCase) : Except String Unit :=
  if case.resolution.isNone then checkRevision case expected else .ok ()

namespace CaseStore

def dispositionOf (input : Input) : Except String Disposition :=
  if input.assessment = .confirmedOffending then
    (qualify input).map (fun proposal => .confirmedProposal proposal.timeoutMinutes)
  else .ok .humanReview

/-- The `Capture` branch of `apply_inner`; `none` when the case is there. -/
def capture (digests : Digests) (store : CaseStore) (new : NewCase) (policy : ShadowPolicy)
    (policyDigest : String) (now : Nat) : Except String (String × Option CaseStore) := do
  new.check policy now
  let id ← new.source.caseId digests
  match store.get id with
  | some old => do
    ensure (old.captured.owner = policy.owner && old.source = new.source &&
      old.assessment = new.input.assessment && old.severity = new.input.severity)
      "contextual repeated assessment conflicts; independent review required"
    .ok (id, none)
  | none => do
    ensure (!policy.stopped && policy.scope.enabled &&
      new.source.channel ∈ policy.scope.sourceChannels)
      "contextual capture is disabled or outside scope"
    ensure (store.cases.rows.length ≠ maxCases)
      "contextual case store is full; owner review required"
    let disposition ← dispositionOf new.input
    let captured ← Provenance.new digests new.authority policy policyDigest now
    .ok (id, some { store with cases := store.cases.put (id, {
      id
      revision := 1
      source := new.source
      assessment := new.input.assessment
      severity := new.input.severity
      disposition
      captured
      review := none
      appeal := none }) })

/-- The case that the other mutations change; `none` when they are applied
already. -/
def review (case : Case) (expected : ExpectedCase) (authority : FreshAuthority)
    (decision : ReviewDecision) (origin : Nat) (provenance : Provenance) :
    Except String (Option Case) := do
  authority.staff origin
  ensure (authority.facts.actor ≠ case.source.author &&
    authority.facts.actor ≠ case.captured.actor)
    "contextual review requires an independent moderator"
  ensure (decision = .needsContext || authority.source case.source)
    "current contextual evidence is unavailable or changed"
  match case.review with
  | some old => do
    ensure (old.expectedRevision = expected.revision && old.decision = decision &&
      old.provenance.actor = authority.facts.actor)
      "contextual receipt conflicts; refresh case"
    .ok none
  | none => do
    checkRevision case expected
    ensure (case.resolver ≠ some authority.facts.actor)
      "contextual appeal resolver cannot become its reviewer"
    .ok (some { case with review := some ⟨expected.revision, decision, provenance⟩ })

def appeal (case : Case) (expected : ExpectedCase) (authority : FreshAuthority)
    (reason : AppealReason) (provenance : Provenance) : Except String (Option Case) := do
  ensure (authority.facts.actor = case.source.author &&
    authority.facts.origin = case.source.channel)
    "only the current case subject may appeal in the source origin"
  match case.appeal with
  | some old => do
    ensure (old.expectedRevision = expected.revision && old.reason = reason &&
      old.provenance.actor = authority.facts.actor)
      "contextual receipt conflicts; refresh case"
    .ok none
  | none => do
    checkRevision case expected
    .ok (some { case with appeal := some ⟨expected.revision, reason, provenance, none⟩ })

def resolveAppeal (case : Case) (expected : ExpectedCase) (authority : FreshAuthority)
    (decision : AppealDecision) (origin : Nat) (provenance : Provenance) :
    Except String (Option Case) := do
  authority.staff origin
  ensure (authority.facts.actor ≠ case.source.author &&
    authority.facts.actor ≠ case.captured.actor && case.reviewer ≠ some authority.facts.actor)
    "contextual appeal requires an independent resolver"
  ensure (decision = .needsContext || authority.source case.source)
    "current contextual appeal evidence unavailable or changed"
  checkRevisionOrResolution case expected
  let appeal ← required case.appeal "contextual appeal unavailable"
  match appeal.resolution with
  | some old => do
    ensure (old.expectedRevision = expected.revision && old.decision = decision &&
      old.provenance.actor = authority.facts.actor)
      "contextual receipt conflicts; refresh case"
    .ok none
  | none =>
    .ok (some { case with appeal := some { appeal with
      resolution := some ⟨expected.revision, decision, provenance⟩ } })

/-- What the mutations of a case share: who asks, which case, and the count
of the event. -/
def mutateCase (digests : Digests) (store : CaseStore) (expected : ExpectedCase)
    (authority : FreshAuthority) (policy : ShadowPolicy) (policyDigest : String) (now : Nat)
    (change : Case → Nat → Provenance → Except String (Option Case)) :
    Except String (String × Option CaseStore) := do
  authority.check policy now
  let case ← required (store.get expected.id) "contextual case unavailable"
  ensure (case.source.guild = policy.guild && case.captured.owner = policy.owner)
    "contextual case policy identity mismatch"
  let provenance ← Provenance.new digests authority policy policyDigest now
  let reviewOrigin := policy.scope.reviewChannel.getD case.source.channel
  match ← change case reviewOrigin provenance with
  | none => .ok (expected.id, none)
  | some changed => do
    let revision ← required (checkedAdd case.revision 1) "contextual revision exhausted"
    .ok (expected.id,
      some { store with cases := store.cases.put (expected.id, { changed with revision }) })

def mutate (digests : Digests) (store : CaseStore) (mutation : Mutation) (policy : ShadowPolicy)
    (policyDigest : String) (now : Nat) : Except String (String × Option CaseStore) :=
  match mutation with
  | .capture new => store.capture digests new policy policyDigest now
  | .review expected authority decision =>
    store.mutateCase digests expected authority policy policyDigest now (fun case origin =>
      review case expected authority decision origin)
  | .appeal expected authority reason =>
    store.mutateCase digests expected authority policy policyDigest now (fun case _ =>
      appeal case expected authority reason)
  | .resolveAppeal expected authority decision =>
    store.mutateCase digests expected authority policy policyDigest now (fun case origin =>
      resolveAppeal case expected authority decision origin)

/-- `apply_inner`, with the store it leaves. -/
def applyInner (digests : Digests) (store : CaseStore) (mutation : Mutation)
    (policy : ShadowPolicy) (policyDigest : String) (now : Nat) :
    Except String (CaseStore × String × Change) := do
  store.validate digests
  policy.validate
  ensure (isDigest policyDigest) "invalid contextual policy digest"
  let (id, changed) ← store.mutate digests mutation policy policyDigest now
  match changed with
  | none => .ok (store, id, .alreadyObserved)
  | some next => do
    let revision ← required (checkedAdd next.revision 1) "contextual revision exhausted"
    let next := { next with revision }
    next.validate digests
    .ok (next, id, .changed)

/-- `apply`: the store after the call, and the answer. -/
def apply (digests : Digests) (store : CaseStore) (mutation : Mutation) (policy : ShadowPolicy)
    (policyDigest : String) (now : Nat) : CaseStore × Except String (String × Change) :=
  match store.applyInner digests mutation policy policyDigest now with
  | .ok (next, receipt) => (next, .ok receipt)
  | .error error => (store, .error error)

end CaseStore

end Abbey.Moderation
