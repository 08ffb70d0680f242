import Abbey.Lib.Table
import Abbey.Provider.Scoring
import Mathlib.Data.String.Basic

/-!
# The adaptive router

`extensions/bot/src/provider/routing.rs`: the providers with their circuits
and score profiles, the selection of one of them for a request, and the
completion of its attempt.

Each mutation has one lemma that says what it does to the providers:
`requalify_spec`, `restoreBlocked_spec`, `select_spec`, `complete_spec`.
-/

namespace Abbey.Provider

open Abbey.Lib Option

inductive RouteUnavailableReason where
  | noConfiguredProvider
  | capabilityUnavailable
  | policyDenied
  | allOpen
  | blockedPendingRequalification
  | busy
  | budgetExhausted

/-- The place in the order of the enumeration. -/
def RouteUnavailableReason.rank : RouteUnavailableReason → Nat
  | noConfiguredProvider => 0
  | capabilityUnavailable => 1
  | policyDenied => 2
  | allOpen => 3
  | blockedPendingRequalification => 4
  | busy => 5
  | budgetExhausted => 6

structure RouteAdmission where
  configured : Bool
  identityCurrent : Bool
  capabilityAllowed : Bool
  policyAllowed : Bool
  budgetAvailable : Bool
  capacityAvailable : Bool

def RouteAdmission.check (a : RouteAdmission) : Except RouteUnavailableReason Unit := do
  ensure a.configured .noConfiguredProvider
  ensure a.identityCurrent .blockedPendingRequalification
  ensure a.capabilityAllowed .capabilityUnavailable
  ensure a.policyAllowed .policyDenied
  ensure a.budgetAvailable .budgetExhausted
  ensure a.capacityAvailable .busy

structure ProviderIdentityHashes where
  abbeyBinarySha256 : String
  providerBinarySha256 : Option String
  modelSha256 : Option String
  osSha256 : Option String
  toolSchemaSha256 : String
  sandboxSha256 : Option String
deriving DecidableEq

structure RouteAttempt where
  providerId : String
  generation : Nat
  requestClass : RequestClass
  permit : Nat

def circuitReason : CircuitUnavailable → RouteUnavailableReason
  | .opened => .allOpen
  | .blocked => .blockedPendingRequalification
  | .busy => .busy

section Router

variable {F : Type}
variable {identity : ProviderIdentityHashes}

structure RouteDecision (F : Type) where
  providerId : String
  components : ScoreComponents F
  weightedScore : NormalizedScore F
  tiePosition : Nat

structure ProviderState (F : Type) where
  id : String
  identity : ProviderIdentityHashes
  generation : Nat
  profiles : RequestClass → Option (ProviderScoreProfile F)
  circuit : Circuit
  admission : RouteAdmission

structure AdaptiveRouter (F : Type) where
  providers : Table (ProviderState.id (F := F))
  configuredOrder : List String
  nextGeneration : Nat

def ProviderState.assess (state : ProviderState F) (requestClass : RequestClass) (nowMs : Nat)
    (admission : RouteAdmission) : Except RouteUnavailableReason Unit := do
  admission.check
  ensure (state.profiles requestClass).isSome .capabilityUnavailable
  mapErr circuitReason (state.circuit.availability nowMs)

namespace AdaptiveRouter

def new (configuredOrder : List String) : AdaptiveRouter F := ⟨.empty, configuredOrder, 0⟩

def setOrder (router : AdaptiveRouter F) (configuredOrder : List String) : AdaptiveRouter F :=
  { router with configuredOrder := configuredOrder }

/-- `get_mut(id)`, and what is then written. -/
def modify (router : AdaptiveRouter F) (id : String) (f : ProviderState F → ProviderState F)
    (hf : ∀ state, (f state).id = state.id) : AdaptiveRouter F :=
  { router with providers := router.providers.modify (fun state => state.id = id) f hf }

/-- The profiles by their classes, unless two are for one class. -/
def byClass (profiles : List (ProviderScoreProfile F)) :
    Option (RequestClass → Option (ProviderScoreProfile F)) :=
  profiles.foldlM (fun found profile =>
    if (found profile.requestClass).isSome then none
    else some (fun c => if c = profile.requestClass then some profile else found c)) (fun _ => none)

def requalify (router : AdaptiveRouter F) (id : String) (identity : ProviderIdentityHashes)
    (profiles : List (ProviderScoreProfile F)) (admission : RouteAdmission) :
    AdaptiveRouter F × Bool :=
  if router.nextGeneration = u64Max then (router, false)
  else
    let generation := router.nextGeneration + 1
    match byClass profiles with
    | none => (router, false)
    | some found =>
      ({ router with
        nextGeneration := generation
        providers := router.providers.put ⟨id, identity, generation, found, .new, admission⟩ }, true)

def restoreBlocked (router : AdaptiveRouter F) (id : String) (identity : ProviderIdentityHashes)
    (reason : ProviderFailureKind) : AdaptiveRouter F × Bool :=
  match (router.providers.find id).filter (fun state => state.identity = identity),
    Circuit.restoreBlocked reason with
  | some _, some circuit =>
    (router.modify id (fun state => { state with circuit := circuit }) (fun _ => rfl), true)
  | _, _ => (router, false)

def setAdmission (router : AdaptiveRouter F) (id : String) (admission : RouteAdmission) :
    AdaptiveRouter F :=
  router.modify id (fun state => { state with admission := admission }) (fun _ => rfl)

/-! ## What the mutations of the providers do -/

variable {router router' : AdaptiveRouter F} {id : String} {state : ProviderState F}

def find (router : AdaptiveRouter F) (id : String) : Option (ProviderState F) :=
  router.providers.find id

theorem id_of_find (h : router.find id = some state) : state.id = id := Table.pk_of_find h

variable {f : ProviderState F → ProviderState F} {hf : ∀ state, (f state).id = state.id}
  {done : Bool}

/-- The lookup after `get_mut`. -/
theorem find_modify (h : router.find id = some state) (k : String) :
    (router.modify id f hf).find k = if k = id then some (f state) else router.find k := by
  show (router.providers.modify (fun state => state.id = id) f hf).find k = _
  rw [Table.find_modify]
  split_ifs with hk
  · subst hk
    rw [show router.providers.find k = some state from h]
    simp [id_of_find h]
  · show (router.find k).map _ = router.find k
    cases hother : router.find k with
    | none => rfl
    | some other =>
      have hne : other.id ≠ id := fun heq => hk ((id_of_find hother).symm.trans heq)
      simp [hne]

/-- Writing back what is there. -/
theorem modify_same
    (h : router.find id = some state) (hsame : f state = state) : router.modify id f hf = router := by
  have hrows : router.providers.modify (fun state => state.id = id) f hf = router.providers := by
    refine Table.ext ?_
    rw [Table.rows_modify]
    refine (List.map_congr_left (fun row hrow => ?_)).trans (List.map_id _)
    split_ifs with hid
    · have hrow' : row = state := by
        have hfind := Table.mem_rows_iff_find.mp hrow
        rw [show row.id = id from of_decide_eq_true hid] at hfind
        exact some.inj (hfind.symm.trans h)
      rw [hrow', hsame]
      rfl
    · rfl
  unfold modify
  rw [hrows]

theorem requalify_spec (h : router.requalify id identity profiles admission = (router', done)) :
    (done = false ∧ router' = router) ∨
      done ∧ router'.nextGeneration = router.nextGeneration + 1 ∧ ∃ found, ∀ k,
        router'.find k = if k = id
          then some ⟨id, identity, router.nextGeneration + 1, found, .new, admission⟩
          else router.find k := by
  simp only [requalify] at h
  split_ifs at h with hlast
  · cases h
    exact .inl ⟨rfl, rfl⟩
  · cases hfound : byClass profiles with
    | none =>
      rw [hfound] at h
      cases h
      exact .inl ⟨rfl, rfl⟩
    | some found =>
      rw [hfound] at h
      cases h
      refine .inr ⟨rfl, rfl, found, fun k => ?_⟩
      show Table.find _ k = _
      rw [Table.find_put]
      simp only [eq_comm (a := k)]
      rfl

theorem restoreBlocked_spec (h : router.restoreBlocked id identity reason = (router', done)) :
    (done = false ∧ router' = router) ∨
      done ∧ router'.nextGeneration = router.nextGeneration ∧ ∃ state,
        router.find id = some state ∧ ∀ k, router'.find k =
          if k = id then some { state with circuit := Circuit.new.block reason } else router.find k := by
  unfold restoreBlocked at h
  cases hfind : router.providers.find id with
  | none =>
    rw [hfind] at h
    cases h
    exact .inl ⟨rfl, rfl⟩
  | some state =>
    rw [hfind] at h
    by_cases hidentity : state.identity = identity
    · rw [filter_some, if_pos (decide_eq_true hidentity)] at h
      unfold Circuit.restoreBlocked at h
      cases hblocked : reason.isBlocked with
      | false =>
        simp only [hblocked, Bool.not_false, if_true] at h
        cases h
        exact .inl ⟨rfl, rfl⟩
      | true =>
        simp only [hblocked, Bool.not_true, Bool.false_eq_true, if_false] at h
        cases h
        exact .inr ⟨rfl, rfl, state, hfind, fun k => find_modify hfind k⟩
    · rw [filter_some, if_neg (by simpa using hidentity)] at h
      cases h
      exact .inl ⟨rfl, rfl⟩

theorem setAdmission_spec (router : AdaptiveRouter F) (id : String) (admission : RouteAdmission) :
    (router.setAdmission id admission).nextGeneration = router.nextGeneration ∧ ∀ k,
      (router.setAdmission id admission).find k = (router.find k).map (fun state =>
          if k = id then { state with admission := admission } else state) := by
  refine ⟨rfl, fun k => ?_⟩
  show (router.providers.modify (fun state => state.id = id)
    (fun state => { state with admission := admission }) (fun _ => rfl)).find k = _
  rw [Table.find_modify]
  cases hfind : router.providers.find k with
  | none =>
    rw [show router.find k = none from hfind]
    rfl
  | some state =>
    rw [show router.find k = some state from hfind, map_some, map_some,
      show state.id = k from Table.pk_of_find hfind]
    simp

/-! ## Selection and completion -/

variable [Floating F] {nowMs : Nat}

/-- The order of the candidates: the score, the configured place, the id. -/
def ranks (a b : RouteDecision F) : Bool :=
  ((Floating.totalCmp b.weightedScore.get a.weightedScore.get).then
    ((compare a.tiePosition b.tiePosition).then (compare a.providerId b.providerId))) ≠ .gt

def considered (pinned : Option String) (excluded : List String) (state : ProviderState F) : Bool :=
  !excluded.contains state.id && !pinned.any (fun pin => pin ≠ state.id)

def candidate (router : AdaptiveRouter F) (requestClass : RequestClass) (nowMs : Nat)
    (state : ProviderState F) : Except RouteUnavailableReason (RouteDecision F) := do
  state.assess requestClass nowMs state.admission
  let profile ← required (state.profiles requestClass) .capabilityUnavailable
  let components := profile.components
  .ok ⟨state.id, components, components.weighted,
    (router.configuredOrder.findIdx? (fun p => p = state.id)).getD u64Max⟩

/-- The last of the reasons in their order. -/
def lastReason (reasons : List RouteUnavailableReason) : RouteUnavailableReason :=
  reasons.foldl (fun last reason => if last.rank ≤ reason.rank then reason else last)
    .noConfiguredProvider

def select (router : AdaptiveRouter F) (requestClass : RequestClass) (nowMs : Nat)
    (pinned : Option String) (excluded : List String) :
    AdaptiveRouter F × Except RouteUnavailableReason (RouteDecision F × RouteAttempt) :=
  let assessed := (router.providers.rows.filter (considered pinned excluded)).map
    (router.candidate requestClass nowMs)
  let candidates := assessed.filterMap Except.toOption
  let failures := assessed.filterMap (fun r => match r with
    | .error reason => some reason
    | .ok _ => none)
  match (candidates.mergeSort ranks).head? with
  | none => (router, .error (lastReason failures))
  | some decision =>
    match router.providers.find decision.providerId with
    | none => (router, .error .noConfiguredProvider) -- the decision is about a row of the table
    | some state =>
      match state.circuit.reserve nowMs with
      | .error reason => (router, .error (circuitReason reason))
      | .ok (circuit, permit) =>
        (router.modify decision.providerId (fun state => { state with circuit := circuit })
          (fun _ => rfl),
        .ok (decision, ⟨decision.providerId, state.generation, requestClass, permit⟩))

/-- A success without a duration in bounds is protocol drift. -/
def outcomeOf (kind : ProviderFailureKind) (durationMs : Option Nat) : ProviderFailureKind :=
  if kind = .success ∧ isOutOfBounds durationMs then .protocolDrift else kind
where
  isOutOfBounds : Option Nat → Bool
    | none => true
    | some d => 900000 < d

/-- `.error` stands for the panic of `expect`. -/
def complete (router : AdaptiveRouter F) (attempt : RouteAttempt) (kind : ProviderFailureKind)
    (retry : RetryAfter) (durationMs : Option Nat) (nowMs : Nat) :
    AdaptiveRouter F × Except String (Option ProviderFailureKind) :=
  match router.providers.find attempt.providerId with
  | none => (router, .ok none)
  | some state =>
    if state.generation ≠ attempt.generation then (router, .ok none)
    else
      let (circuit, effective) := state.circuit.complete attempt.permit (outcomeOf kind durationMs)
        retry nowMs
      let completed := router.modify attempt.providerId
        (fun state => { state with circuit := circuit }) (fun _ => rfl)
      match effective with
      | none => (completed, .ok none)
      | some effective =>
        match state.profiles attempt.requestClass with
        | none => (completed, .ok none)
        | some profile =>
          match observe profile effective durationMs with
          | .error _ => (completed, .error "validated bounded success duration")
          | .ok profile =>
            (completed.modify attempt.providerId
              (fun state => { state with
                profiles := fun c =>
                  if c = attempt.requestClass then some profile else state.profiles c })
              (fun _ => rfl), .ok (some effective))

theorem select_spec (h : router.select requestClass nowMs pinned excluded = (router', reply)) :
    ((∃ reason, reply = .error reason) ∧ router' = router) ∨
      ∃ decision attempt state circuit, reply = .ok (decision, attempt) ∧
        decision.providerId = attempt.providerId ∧
        router.find attempt.providerId = some state ∧ attempt.generation = state.generation ∧
        state.circuit.reserve nowMs = .ok (circuit, attempt.permit) ∧
        router'.nextGeneration = router.nextGeneration ∧ ∀ k, router'.find k =
          if k = attempt.providerId then some { state with circuit := circuit } else router.find k := by
  simp only [select] at h
  split at h
  · cases h
    exact .inl ⟨⟨_, rfl⟩, rfl⟩
  · rename_i decision _
    cases hfind : router.providers.find decision.providerId with
    | none =>
      rw [hfind] at h
      cases h
      exact .inl ⟨⟨_, rfl⟩, rfl⟩
    | some state =>
      rw [hfind] at h
      cases hreserve : state.circuit.reserve nowMs with
      | error reason =>
        simp only [hreserve] at h
        cases h
        exact .inl ⟨⟨_, rfl⟩, rfl⟩
      | ok result =>
        obtain ⟨circuit, permit⟩ := result
        simp only [hreserve] at h
        cases h
        exact .inr ⟨decision, ⟨decision.providerId, state.generation, requestClass, permit⟩, state,
          circuit, rfl, rfl, hfind, rfl, hreserve, rfl, fun k => find_modify hfind k⟩

/-- A completion leaves the router as it is, or completes the permit at the
provider's circuit. -/
theorem complete_spec (hsound : ∀ id state, router.find id = some state → state.circuit.Sound)
    (h : router.complete attempt kind retry durationMs nowMs = (router', reply)) :
    router' = router ∨ ∃ state circuit effective profiles,
      router.find attempt.providerId = some state ∧ state.generation = attempt.generation ∧
      effective = retry.classify (outcomeOf kind durationMs) ∧
      Circuit.Completes state.circuit attempt.permit nowMs circuit (some effective) ∧
      router'.nextGeneration = router.nextGeneration ∧ ∀ k, router'.find k =
        if k = attempt.providerId then some { state with circuit := circuit, profiles := profiles }
        else router.find k := by
  unfold complete at h
  cases hfind : router.providers.find attempt.providerId with
  | none =>
    rw [hfind] at h
    cases h
    exact .inl rfl
  | some state =>
    simp only [hfind] at h
    by_cases hgeneration : state.generation = attempt.generation
    swap
    · rw [if_pos hgeneration] at h
      cases h
      exact .inl rfl
    rw [if_neg (not_not.mpr hgeneration)] at h
    have hcompletes := Circuit.complete_spec (hsound _ state hfind) attempt.permit nowMs
      (outcomeOf kind durationMs) retry
    cases hresult : (state.circuit.complete attempt.permit (outcomeOf kind durationMs) retry nowMs).2 with
    | none =>
      simp only [hresult] at h hcompletes
      cases h
      left
      refine modify_same hfind ?_
      generalize hcircuit : (state.circuit.complete attempt.permit (outcomeOf kind durationMs) retry
        nowMs).1 = circuit at hcompletes
      cases hcompletes
      rfl
    | some effective =>
      right
      have heffective := Circuit.complete_result hresult
      rw [hresult] at hcompletes
      simp only [hresult] at h
      cases hprofile : state.profiles attempt.requestClass with
      | none =>
        simp only [hprofile] at h
        cases h
        exact ⟨state, _, effective, state.profiles, hfind, hgeneration, heffective, hcompletes, rfl,
          fun k => find_modify hfind k⟩
      | some profile =>
        simp only [hprofile] at h
        cases hobserve : observe profile effective durationMs with
        | error _ =>
          simp only [hobserve] at h
          cases h
          exact ⟨state, _, effective, state.profiles, hfind, hgeneration, heffective, hcompletes, rfl,
            fun k => find_modify hfind k⟩
        | ok observed =>
          simp only [hobserve] at h
          cases h
          refine ⟨state, _, effective, fun c => if c = attempt.requestClass then some observed
            else state.profiles c, hfind, hgeneration, heffective, hcompletes, rfl, fun k => ?_⟩
          rw [find_modify (by rw [find_modify hfind, if_pos rfl]), find_modify hfind]
          split_ifs <;> rfl

end AdaptiveRouter

end Router

end Abbey.Provider
