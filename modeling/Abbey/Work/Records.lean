import Mathlib.Data.Finset.Card
import Mathlib.Data.Finset.Lattice.Basic
import Abbey.Conversation.Identity
import Abbey.Lib.Json

/-!
# Work records

`extensions/bot/src/work.rs` with the authority checks of `registry.rs`,
`schedule.rs` and `delivery.rs`: projects and their scopes, tasks,
decisions, automation policies, delivery receipts and learned preferences.

The maps are the ordered maps of the standard library and the sets are
finite sets, by key.  Time zones and SHA-256 come from outside (`Zones`,
`Sha256`).  Fields that no modelled function reads are left out: actions,
GitHub snapshots, the engagement store and the recall projection, which is
only told of changes.
-/

namespace Abbey.Work

open Abbey.Lib
open Abbey.Conversation (Sha256)

/-- An ordered map of the standard library. -/
abbrev BTreeMap (α β : Type) [Ord α] := Std.ExtTreeMap α β

inductive WorkError where
  | denied
  | missing
  | invalid
  | full
  | stale
  deriving DecidableEq

inductive WorkScope where
  | personal (owner : Nat)
  | team (guild channel : Nat)
  deriving DecidableEq

/-- `WorkScope::key`. -/
def WorkScope.key : WorkScope → String
  | .personal owner => s!"personal:{owner}"
  | .team guild channel => s!"team:{guild}:{channel}"

structure GitHubRepository where
  installation : Nat
  owner : String
  name : String
  deriving DecidableEq

structure WorkProject where
  id : Nat
  name : String
  scope : WorkScope
  managers : Finset Nat
  members : Finset Nat
  revision : Nat
  allowedGithubRepositories : Finset GitHubRepository

structure WorkGoal where
  id : Nat
  projectId : Nat
  title : String
  owner : Nat
  complete : Bool

inductive GitHubItemKind where
  | issue
  | pullRequest

structure GitHubReference where
  repository : GitHubRepository
  kind : GitHubItemKind
  number : Nat

inductive WorkStatus where
  | opened
  | inProgress
  | blocked
  | done
  | cancelled
  deriving DecidableEq

def WorkStatus.label : WorkStatus → String
  | .opened => "open"
  | .inProgress => "in progress"
  | .blocked => "blocked"
  | .done => "done"
  | .cancelled => "cancelled"

structure WorkTask where
  id : Nat
  projectId : Nat
  title : String
  owner : Nat
  assignee : Option Nat
  goalId : Option Nat
  priority : Nat
  status : WorkStatus
  dueAt : Option Nat
  remindAt : Option Nat
  reminderRevision : Nat
  snoozedUntil : Option Nat
  source : Option String
  github : Option GitHubReference
  revision : Nat

structure WorkDecision where
  id : Nat
  projectId : Nat
  author : Nat
  text : String
  at_ : Nat

inductive WorkDestination where
  | personal (principal : Nat)
  | teamChannel (channel : Nat)
  | teamPrivate (principal : Nat)
  deriving DecidableEq

structure WorkAutomationPolicy where
  enabled : Bool
  deliveryTarget : Option WorkDestination
  revision : Nat
  destination : Option Nat
  timezone : String
  quietStart : Nat
  quietEnd : Nat
  dailyLimit : Nat
  briefingHour : Nat
  deriving DecidableEq

def WorkAutomationPolicy.default : WorkAutomationPolicy :=
  ⟨false, none, 0, none, "", 22, 8, 4, 9⟩

/-! ## Preferences -/

inductive WorkFeedback where
  | useful
  | dismissed
  | snoozed (hour : Nat)
  deriving DecidableEq

inductive WorkDeliveryKind where
  | briefing
  | reminder
  | changes
  deriving DecidableEq

structure PreferenceEvidence where
  actor : Option Nat
  scope : Option WorkScope
  kind : Option WorkDeliveryKind
  deliveryId : Nat
  feedback : WorkFeedback
  at_ : Nat

structure WorkPreferenceProfile where
  learningEnabled : Bool
  explicitHour : Option Nat
  learnedHour : Option Nat
  evidence : List PreferenceEvidence
  observedDeliveries : Finset (Nat × Nat)
  reduceFollowups : Bool
  briefingRank : Int

def WorkPreferenceProfile.default : WorkPreferenceProfile :=
  ⟨true, none, none, [], ∅, false, 0⟩

/-! ## Deliveries -/

/-- An identity with a revision of what a delivery shows. -/
inductive WorkContentRef where
  | task (project id revision : Nat)
  | decision (project id revision : Nat)
  deriving DecidableEq

namespace WorkContentRef

def id : WorkContentRef → Nat
  | .task _ id _ => id
  | .decision _ id _ => id

def project : WorkContentRef → Nat
  | .task project _ _ => project
  | .decision project _ _ => project

def valid : WorkContentRef → Bool
  | .task project id _ => project ≠ 0 && id ≠ 0
  | .decision project id revision => project ≠ 0 && id ≠ 0 && revision = 1

end WorkContentRef

structure DeliveredProvenance where
  version : Nat
  sourceRefs : Finset WorkContentRef
  contributingProjects : Finset Nat
  renderedDigest : String
  deriving DecidableEq

/-- `DeliveredProvenance::validate`. -/
def DeliveredProvenance.validate (p : DeliveredProvenance) : Except WorkError Unit :=
  ensure (p.version = 1 && p.sourceRefs ≠ ∅ && p.sourceRefs.card ≤ 32 &&
    decide (∀ r ∈ p.sourceRefs, r.valid = true) &&
    (p.sourceRefs.image WorkContentRef.id).card = p.sourceRefs.card &&
    p.contributingProjects = p.sourceRefs.image WorkContentRef.project &&
    Conversation.isLowerHexSha256 p.renderedDigest) .invalid

structure ReminderCoverage where
  taskId : Nat
  reminderRevision : Nat
  remindAt : Nat
  deriving DecidableEq

inductive DeliveryState where
  | attempting
  | sent
  | reviewRequired
  deriving DecidableEq

structure WorkDeliveryReceipt where
  id : Nat
  projectId : Nat
  recipient : Nat
  destination : Option WorkDestination
  policyRevision : Nat
  provenance : Option DeliveredProvenance
  localDay : String
  at_ : Nat
  state : DeliveryState
  messageId : Option Nat
  scope : Option WorkScope
  kind : Option WorkDeliveryKind
  coverage : List ReminderCoverage
  taskIds : List Nat
  dedupeKeys : Finset String

/-! ## The store -/

structure WorkStore where
  sequence : Nat
  projects : BTreeMap Nat WorkProject
  goals : BTreeMap Nat WorkGoal
  tasks : BTreeMap Nat WorkTask
  decisions : BTreeMap Nat WorkDecision
  scopeAutomation : BTreeMap String WorkAutomationPolicy
  scopeAutomationActors : BTreeMap String Nat
  changeCoverage : BTreeMap String (Finset WorkContentRef)
  changeFingerprints : BTreeMap String (BTreeMap Nat String)
  preferences : BTreeMap String WorkPreferenceProfile
  deliveries : BTreeMap Nat WorkDeliveryReceipt
  requestIds : BTreeMap String Nat

def WorkStore.empty : WorkStore := ⟨0, ∅, ∅, ∅, ∅, ∅, ∅, ∅, ∅, ∅, ∅, ∅⟩

/-- Fresh permission facts. -/
structure WorkAccess where
  actor : Nat
  guild : Option Nat
  channel : Nat
  canView : Bool
  canManage : Bool

/-- `WorkAccess::scope`. -/
def WorkAccess.scope (access : WorkAccess) : WorkScope :=
  match access.guild with
  | some guild => .team guild access.channel
  | none => .personal access.actor

/-- What a local time stands for. -/
inductive LocalResult where
  | single (time : Int)
  | ambiguous (a b : Int)
  | none

/-- `chrono` and `chrono_tz`: time zones by name, the local day and hour of a
UTC time, the UTC times of a local time in minutes, the greatest UTC time and
the text of a day. -/
structure Zones (Tz : Type) where
  parse : String → Option Tz
  localDay : Tz → Nat → Int
  localHour : Tz → Nat → Nat
  resolve : Tz → Int → LocalResult
  maxTimestamp : Nat
  dayText : Int → String

/-! ## Authority -/

/-- `WorkProject::authorize`. -/
def WorkProject.authorize (project : WorkProject) (access : WorkAccess) (manager : Bool) :
    Except WorkError Unit :=
  let correctScope := match project.scope with
    | .personal owner => access.guild = none && access.actor = owner
    | .team guild channel => access.guild = some guild && access.channel = channel && access.canView
  ensure (access.actor ≠ 0 && correctScope && decide (access.actor ∈ project.members) &&
    (!manager || decide (access.actor ∈ project.managers))) .denied

namespace WorkStore

/-- `scope_projects`: every project of a scope has to admit the caller. -/
def scopeProjects (store : WorkStore) (scope : WorkScope) (access : WorkAccess)
    (manager : Bool) : Except WorkError (List WorkProject) := do
  let projects := store.projects.values.filter (fun p => p.scope = scope)
  ensure (projects ≠ []) .missing
  projects.forM (fun p => p.authorize access manager)
  .ok projects

def project (store : WorkStore) (id : Nat) (access : WorkAccess) : Except WorkError WorkProject := do
  let project ← required store.projects[id]? .missing
  project.authorize access false
  .ok project

end WorkStore

/-- `WorkDestination::validate`. -/
def WorkDestination.validate (destination : WorkDestination) (scope : WorkScope) (actor : Nat) :
    Except WorkError Unit :=
  let valid := match destination, scope with
    | .personal principal, .personal owner =>
      principal ≠ 0 && principal = owner && principal = actor
    | .teamPrivate principal, .team _ _ => principal ≠ 0 && principal = actor
    | .teamChannel channel, .team _ origin => channel ≠ 0 && channel = origin
    | _, _ => false
  ensure valid .denied

/-- `WorkAutomationPolicy::validate`. -/
def WorkAutomationPolicy.validate {Tz : Type} (zones : Zones Tz) (policy : WorkAutomationPolicy) :
    Except WorkError Unit :=
  let targeted := match policy.deliveryTarget with
    | some (.personal principal) => principal ≠ 0
    | some (.teamPrivate principal) => principal ≠ 0
    | some (.teamChannel channel) => channel ≠ 0
    | none => true
  ensure (policy.quietStart < 24 && policy.quietEnd < 24 && policy.briefingHour < 24 &&
    policy.dailyLimit ≠ 0 && policy.dailyLimit ≤ 4 &&
    (policy.timezone = "" || (zones.parse policy.timezone).isSome) &&
    policy.destination ≠ some 0 && targeted &&
    (!policy.enabled || (policy.destination.any (fun id => id ≠ 0) && policy.timezone ≠ ""))) .invalid

/-- `target`: where a policy delivers. -/
def target (scope : WorkScope) (access : WorkAccess) (policy : WorkAutomationPolicy) :
    Except WorkError WorkDestination := do
  let target := policy.deliveryTarget.getD (match scope with
    | .personal owner => .personal owner
    | .team _ channel => .teamChannel channel)
  target.validate scope access.actor
  ensure (!policy.enabled || policy.destination = some access.channel) .denied
  .ok target

/-- `feedback_destination_matches`. -/
def WorkDeliveryReceipt.feedbackDestinationMatches (receipt : WorkDeliveryReceipt)
    (access : WorkAccess) : Bool :=
  receipt.provenance.all (fun p => p.validate.isOk) &&
    match receipt.destination, receipt.scope with
    | some destination, some scope =>
      (destination.validate scope access.actor).isOk && match destination with
        | .teamPrivate _ => receipt.recipient ≠ 0
        | _ => receipt.recipient = access.channel
    | none, _ => receipt.recipient = access.channel
    | _, _ => false

/-! ## Content -/

/-- `content_refs`: what a scope could show. -/
def WorkStore.contentRefs (store : WorkStore) (scope : WorkScope) : Finset WorkContentRef :=
  let projects := (store.projects.values.filter (fun p => p.scope = scope)).map WorkProject.id
  ((store.tasks.values.filter (fun t => t.projectId ∈ projects)).map
    (fun t => WorkContentRef.task t.projectId t.id t.revision)).toFinset ∪
  ((store.decisions.values.filter (fun d => d.projectId ∈ projects)).map
    (fun d => WorkContentRef.decision d.projectId d.id 1)).toFinset

/-- The hex digest of a text. -/
def digest (sha : Sha256) (text : String) : String :=
  Conversation.lowerHex (sha (Conversation.utf8 text)).toList

def statusText : WorkStatus → String
  | .opened => "open"
  | .inProgress => "in_progress"
  | .blocked => "blocked"
  | .done => "done"
  | .cancelled => "cancelled"

def numberValue (n : Nat) : Value := .number (.posInt n)

def optionValue {α : Type} (value : α → Value) (x : Option α) : Value := x.elim .null value

def githubValue (reference : GitHubReference) : Value :=
  .object [("kind", .string (match reference.kind with
      | .issue => "Issue"
      | .pullRequest => "PullRequest")),
    ("number", numberValue reference.number),
    ("repository", .object [("installation", numberValue reference.repository.installation),
      ("name", .string reference.repository.name), ("owner", .string reference.repository.owner)])]

/-- The fields of a task that a change notice is about. -/
def taskFingerprint (sha : Sha256) (t : WorkTask) : String :=
  digest sha (String.ofList (Value.array [.string t.title, .string (statusText t.status),
    numberValue t.priority, numberValue t.owner, optionValue numberValue t.assignee,
    optionValue numberValue t.goalId, optionValue numberValue t.dueAt,
    optionValue .string t.source, optionValue githubValue t.github]).print)

def decisionFingerprint (sha : Sha256) (d : WorkDecision) : String :=
  digest sha (String.ofList (Value.array [.string d.text, numberValue d.author,
    numberValue d.at_]).print)

/-- `content_fingerprints`. -/
def WorkStore.contentFingerprints (sha : Sha256) (store : WorkStore) (scope : WorkScope) :
    BTreeMap Nat String :=
  let projects := (store.projects.values.filter (fun p => p.scope = scope)).map WorkProject.id
  let values := (store.tasks.values.filter (fun t => t.projectId ∈ projects)).foldl
    (fun values t => values.insert t.id (taskFingerprint sha t)) ∅
  (store.decisions.values.filter (fun d => d.projectId ∈ projects)).foldl
    (fun values d => values.insert d.id (decisionFingerprint sha d)) values

end Abbey.Work
