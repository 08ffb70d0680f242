import Abbey.Work.Records

/-!
# Preferences

`extensions/bot/src/work/policy.rs`: what a scope has learned from the
feedback of its members, with `configure_automation` of `schedule.rs` and
the loading of `loading.rs`.

A profile keeps a window of observations and the identities of all
deliveries that were ever observed.  `recompute` derives the learned values
from the window.  A function on `&mut self` that may fail answers the store
after it beside its result; the recall projection, which is told of changes,
is left out.
-/

namespace Abbey.Work

open Abbey.Lib
open Abbey.Conversation (Sha256)

/-! ## Learned values -/

/-- `attributed`: an observation of a known member, scope and kind. -/
def attributed (e : PreferenceEvidence) : Bool :=
  e.actor.any (fun a => a ≠ 0) && e.scope.isSome && e.kind.isSome

/-- The counters of the loop in `recompute`. -/
structure Tally where
  hours : List Nat
  dismissed : Nat
  usefulBriefings : Nat
  dismissedBriefings : Nat

def Tally.zero : Tally := ⟨List.replicate 24 0, 0, 0, 0⟩

/-- One turn of the loop. -/
def Tally.add (t : Tally) (e : PreferenceEvidence) : Tally :=
  match e.feedback with
  | .snoozed hour => if hour < 24 then { t with hours := t.hours.modify hour (· + 1) } else t
  | .dismissed =>
    { t with
      dismissed := t.dismissed + 1
      dismissedBriefings :=
        if e.kind = some .briefing then t.dismissedBriefings + 1 else t.dismissedBriefings }
  | .useful =>
    if e.kind = some .briefing then { t with usefulBriefings := t.usefulBriefings + 1 } else t

/-- `max_by_key` with the count and then the smaller hour: the last of the
greatest keys. -/
def busiest (hours : List Nat) : Option (Nat × Nat) :=
  hours.zipIdx.foldl (fun best x => match best with
    | none => some x
    | some y => if y.1 < x.1 ∨ (y.1 = x.1 ∧ x.2 ≤ y.2) then some x else some y) none

namespace WorkPreferenceProfile

/-- `effective_hour`. -/
def effectiveHour (p : WorkPreferenceProfile) (defaultHour : Nat) : Nat :=
  (p.explicitHour.or (if p.learningEnabled then p.learnedHour else none)).getD defaultHour

/-- `recompute`. -/
def recompute (p : WorkPreferenceProfile) : WorkPreferenceProfile :=
  let evidence := p.evidence.filter attributed
  let p := { p with learnedHour := none, reduceFollowups := false, briefingRank := 0 }
  if !p.learningEnabled || evidence.length < 5 then p
  else
    let t := evidence.foldl Tally.add .zero
    { p with
      learnedHour := ((busiest t.hours).filter (fun x => 5 ≤ x.1)).map Prod.snd
      reduceFollowups := 5 ≤ t.dismissed
      briefingRank :=
        if 5 ≤ t.usefulBriefings ∧ t.dismissedBriefings < t.usefulBriefings then 1
        else if 5 ≤ t.dismissedBriefings ∧ t.usefulBriefings < t.dismissedBriefings then -1
        else 0 }

/-! ## The window -/

/-- The delivery and the member of an observation. -/
def pair (e : PreferenceEvidence) : Nat × Nat := (e.deliveryId, e.actor.getD 0)

/-- `remember_observations`. -/
def rememberObservations (p : WorkPreferenceProfile) : WorkPreferenceProfile :=
  { p with
    observedDeliveries := p.observedDeliveries ∪ ((p.evidence.filter attributed).map pair).toFinset }

/-- `observe`. -/
def observe (p : WorkPreferenceProfile) (e : PreferenceEvidence) :
    Except WorkError WorkPreferenceProfile := do
  ensure (match e.feedback with
    | .snoozed hour => hour < 24
    | _ => true) .invalid
  let p := p.rememberObservations
  if !attributed e then .ok p
  else if pair e ∈ p.observedDeliveries then .ok p
  else
    let evidence := p.evidence.filter attributed
    let evidence := if 100 ≤ evidence.length then evidence.drop (evidence.length - 99) else evidence
    .ok { p with
      observedDeliveries := insert (pair e) p.observedDeliveries
      evidence := evidence ++ [e] }.recompute

def reset (p : WorkPreferenceProfile) : WorkPreferenceProfile :=
  { p.rememberObservations with evidence := [] }.recompute

/-- The observation that a caller may correct. -/
def ownIndex (p : WorkPreferenceProfile) (deliveryId actor : Nat) : Option Nat :=
  p.evidence.findIdx? (fun e => attributed e && e.deliveryId = deliveryId && e.actor = some actor)

/-- The part of `feedback` that is about the profile. -/
def feedback (p : WorkPreferenceProfile) (access : WorkAccess) (kind : Option WorkDeliveryKind)
    (deliveryId : Nat) (feedback : Option WorkFeedback) (correction : Bool) (now : Nat) :
    WorkPreferenceProfile × Except WorkError Unit :=
  if correction then
    match p.ownIndex deliveryId access.actor with
    | none => (p, .error .missing)
    | some index =>
      let p := p.rememberObservations
      let evidence := match feedback with
        | some feedback => p.evidence.modify index (fun e => { e with feedback, at_ := now })
        | none => p.evidence.eraseIdx index
      ({ p with evidence }.recompute, .ok ())
  else
    match feedback with
    | none => (p, .error .invalid)
    | some feedback =>
      match p.observe ⟨some access.actor, some access.scope, kind, deliveryId, feedback, now⟩ with
      | .error e => (p, .error e)
      | .ok p => (p.recompute, .ok ())

/-- The part of `control_preferences` that is about the profile. -/
def control (p : WorkPreferenceProfile) (enabled : Option Bool)
    (explicitHour : Option (Option Nat)) (reset : Bool) : WorkPreferenceProfile :=
  let p := { p with
    learningEnabled := enabled.getD p.learningEnabled
    explicitHour := explicitHour.getD p.explicitHour }
  (if reset then p.reset else p).recompute

end WorkPreferenceProfile

/-! ## The store -/

namespace WorkStore

/-- `entry(key).or_default()`. -/
def profile (store : WorkStore) (key : String) : WorkPreferenceProfile :=
  store.preferences[key]?.getD .default

def setProfile (store : WorkStore) (key : String) (p : WorkPreferenceProfile) : WorkStore :=
  { store with preferences := store.preferences.insert key p }

/-- `preference_profile`. -/
def preferenceProfile (store : WorkStore) (access : WorkAccess) :
    Except WorkError WorkPreferenceProfile := do
  let _ ← store.scopeProjects access.scope access false
  .ok (store.profile access.scope.key).recompute

/-- The checks of `feedback`, with the kind of the delivery. -/
def checkFeedback (store : WorkStore) (access : WorkAccess) (deliveryId : Nat)
    (feedback : Option WorkFeedback) (now : Nat) : Except WorkError (Option WorkDeliveryKind) := do
  let _ ← store.scopeProjects access.scope access false
  let receipt ← required store.deliveries[deliveryId]? .missing
  ensure (receipt.state = .sent && receipt.messageId.isSome &&
    receipt.scope = some access.scope && receipt.kind.isSome && receipt.at_ ≤ now &&
    receipt.feedbackDestinationMatches access) .denied
  let _ ← store.project receipt.projectId access
  ensure (match feedback with
    | some (.snoozed hour) => hour < 24
    | _ => true) .invalid
  .ok receipt.kind

/-- `feedback`. -/
def feedback (store : WorkStore) (access : WorkAccess) (deliveryId : Nat)
    (feedback : Option WorkFeedback) (correction : Bool) (now : Nat) :
    WorkStore × Except WorkError Unit :=
  match store.checkFeedback access deliveryId feedback now with
  | .error e => (store, .error e)
  | .ok kind =>
    let (p, result) := (store.profile access.scope.key).feedback access kind deliveryId feedback
      correction now
    (store.setProfile access.scope.key p, result)

/-- `control_preferences`. -/
def controlPreferences (store : WorkStore) (access : WorkAccess) (enabled : Option Bool)
    (explicitHour : Option (Option Nat)) (reset : Bool) : Except WorkError WorkStore := do
  let _ ← store.scopeProjects access.scope access true
  ensure (explicitHour.join.all (fun h => h < 24)) .invalid
  .ok (store.setProfile access.scope.key
    ((store.profile access.scope.key).control enabled explicitHour reset))

end WorkStore

/-! ## Automation -/

structure WorkAutomationUpdate where
  enabled : Bool
  privateToMe : Option Bool
  timezone : Option String
  briefingHour : Option Nat
  quietStart : Option Nat
  quietEnd : Option Nat
  dailyLimit : Option Nat

/-- `str::parse::<u64>`, from the language. -/
abbrev ParseU64 := String → Option Nat

/-- `initial_timezone`. -/
def initialTimezone (parse : ParseU64) (access : WorkAccess) (explicit : Option String)
    (configuredOwner : Option String) : Except WorkError String :=
  match explicit with
  | some zone => .ok zone
  | none => do
    let owner ← match configuredOwner with
      | none => .ok none
      | some value => (required (parse value) .invalid).map some
    ensure (owner ≠ some 0) .invalid
    ensure (access.guild = none && owner = some access.actor) .invalid
    .ok "America/New_York"

/-- The target that an update chooses. -/
def chosenTarget (access : WorkAccess) : Option Bool → Except WorkError (Option WorkDestination)
  | none => .ok none
  | some true => do
    ensure access.guild.isSome .invalid
    .ok (some (.teamPrivate access.actor))
  | some false =>
    .ok (some (if access.guild.isSome then .teamChannel access.channel else .personal access.actor))

namespace WorkStore

variable {Tz : Type}

/-- The baseline of change notices for a scope that has none. -/
def seedChanges (sha : Sha256) (store : WorkStore) (scope : WorkScope) : WorkStore :=
  { store with
    changeCoverage := if scope.key ∈ store.changeCoverage then store.changeCoverage
      else store.changeCoverage.insert scope.key (store.contentRefs scope)
    changeFingerprints := if scope.key ∈ store.changeFingerprints then store.changeFingerprints
      else store.changeFingerprints.insert scope.key (store.contentFingerprints sha scope) }

/-- `configure_automation`. -/
def configureAutomation (zones : Zones Tz) (sha : Sha256) (store : WorkStore) (scope : WorkScope)
    (access : WorkAccess) (policy : WorkAutomationPolicy) : Except WorkError WorkStore := do
  let _ ← store.scopeProjects scope access true
  policy.validate zones
  let _ ← target scope access policy
  let old := store.scopeAutomation[scope.key]?
  let policy := { policy with revision := old.elim 0 WorkAutomationPolicy.revision }
  let changed := old ≠ some policy ||
    (policy.enabled && store.scopeAutomationActors[scope.key]? ≠ some access.actor)
  ensure (!changed || policy.revision + 1 < 2 ^ 64) .full
  let policy := if changed then { policy with revision := policy.revision + 1 } else policy
  let seeded := if policy.enabled then store.seedChanges sha scope else store
  .ok { seeded with
    scopeAutomationActors := if policy.enabled then
        seeded.scopeAutomationActors.insert scope.key access.actor
      else seeded.scopeAutomationActors.erase scope.key
    scopeAutomation := seeded.scopeAutomation.insert scope.key policy }

/-- The policy that an update asks for. -/
def updatedPolicy (parse : ParseU64) (store : WorkStore) (access : WorkAccess)
    (update : WorkAutomationUpdate) (configuredOwner : Option String) :
    Except WorkError WorkAutomationPolicy := do
  let _ ← store.scopeProjects access.scope access true
  let policy ← match store.scopeAutomation[access.scope.key]? with
    | some policy => .ok policy
    | none => do
      let timezone ← initialTimezone parse access update.timezone configuredOwner
      .ok { WorkAutomationPolicy.default with timezone }
  let chosen ← chosenTarget access update.privateToMe
  .ok { policy with
    enabled := update.enabled
    destination := some access.channel
    deliveryTarget := chosen.or policy.deliveryTarget
    timezone := update.timezone.getD policy.timezone
    briefingHour := update.briefingHour.getD policy.briefingHour
    quietStart := update.quietStart.getD policy.quietStart
    quietEnd := update.quietEnd.getD policy.quietEnd
    dailyLimit := update.dailyLimit.getD policy.dailyLimit }

/-- `update_automation`. -/
def updateAutomation (zones : Zones Tz) (sha : Sha256) (parse : ParseU64) (store : WorkStore)
    (access : WorkAccess) (update : WorkAutomationUpdate) (configuredOwner : Option String) :
    WorkStore × Except WorkError (Option WorkAutomationPolicy) :=
  match (store.updatedPolicy parse access update configuredOwner).bind
    (store.configureAutomation zones sha access.scope access) with
  | .error e => (store, .error e)
  | .ok configured =>
    match update.briefingHour with
    | none => (configured, .ok configured.scopeAutomation[access.scope.key]?)
    | some hour =>
      match configured.controlPreferences access none (some (some hour)) false with
      | .error e => (configured, .error e)
      | .ok controlled => (controlled, .ok controlled.scopeAutomation[access.scope.key]?)

/-! ## Loading -/

/-- What `deserialize` adds to a store that its checks accept. -/
def seedLoaded (sha : Sha256) (store : WorkStore) : WorkStore :=
  (store.projects.values.map WorkProject.scope).foldl
    (fun store scope => if store.scopeAutomation[scope.key]?.any WorkAutomationPolicy.enabled then
      store.seedChanges sha scope else store) store

end WorkStore

end Abbey.Work
