import Abbey.Lib.System
import Abbey.Work.Once

/-!
# Runs of learning

Feedback, automation, controls, reloads and whatever else happens to a store
in between, in any order.

* `Touches` is what one call does to the profiles of a store: one change of
  one window, or none (`touches_perform`).
* `Watch` follows a run with the pairs that have entered a profile and, for
  every scope, the observations that were accepted and not withdrawn since,
  without the bound.
* `learns_once`: in every run a pair enters a profile at most once, and a
  profile holds the newest observations and derives its values from them.
-/

namespace Abbey.Work

open Abbey.Lib WorkStore Window Option List Except
open Abbey.Conversation (Sha256)
open WorkPreferenceProfile

variable {x : Nat × Nat} {store store' : WorkStore}
variable {c : Observed} {key : String} {access : WorkAccess}

/-! ## The functions of a store -/

theorem profile_setProfile (store : WorkStore) (key other : String) (p : WorkPreferenceProfile) :
    (store.setProfile key p).profile other = if key = other then p else store.profile other := by
  unfold setProfile profile
  dsimp only
  rw [Std.ExtTreeMap.getElem?_insert]
  simp only [Std.LawfulEqCmp.compare_eq_iff_eq]
  by_cases hkey : key = other
  · simp [hkey]
  · simp [hkey]

variable {deliveryId now : Nat} {feedback : Option WorkFeedback}

/-- What the checks of `feedback` have seen. -/
theorem checkFeedback_ok (h : store.checkFeedback access deliveryId feedback now = .ok kind) :
    access.actor ≠ 0 ∧ kind.isSome ∧ ∃ receipt,
      store.deliveries[deliveryId]? = some receipt ∧ receipt.scope = some access.scope ∧
        receipt.kind = kind := by
  unfold checkFeedback at h
  obtain ⟨_, _, h⟩ := bind_ok_iff.mp h
  obtain ⟨receipt, hreceipt, h⟩ := bind_ok_iff.mp h
  obtain ⟨_, hchecks, h⟩ := bind_ok_iff.mp h
  obtain ⟨project, hproject, h⟩ := bind_ok_iff.mp h
  obtain ⟨_, _, h⟩ := bind_ok_iff.mp h
  rw [required_eq_ok] at hreceipt
  rw [ensure_eq_ok] at hchecks
  simp only [Bool.and_eq_true, decide_eq_true_eq] at hchecks
  unfold WorkStore.project at hproject
  obtain ⟨_, _, hproject⟩ := bind_ok_iff.mp hproject
  obtain ⟨_, hauthorized, _⟩ := bind_ok_iff.mp hproject
  unfold WorkProject.authorize at hauthorized
  rw [ensure_eq_ok] at hauthorized
  simp only [Bool.and_eq_true, decide_eq_true_eq] at hauthorized
  cases h
  exact ⟨hauthorized.1.1.1, hchecks.1.1.2, receipt, hreceipt, hchecks.1.1.1.2, rfl⟩

/-- What is left alone by what only configures automation. -/
structure SameLearning (store store' : WorkStore) : Prop where
  preferences : store'.preferences = store.preferences
  deliveries : store'.deliveries = store.deliveries

theorem SameLearning.refl (store : WorkStore) : SameLearning store store := ⟨rfl, rfl⟩

theorem SameLearning.trans (h : SameLearning store store')
    (h' : SameLearning store' store'') : SameLearning store store'' :=
  ⟨h'.preferences.trans h.preferences, h'.deliveries.trans h.deliveries⟩

theorem sameLearning_seedChanges (sha : Sha256) (store : WorkStore) (scope : WorkScope) :
    SameLearning store (store.seedChanges sha scope) := ⟨rfl, rfl⟩

theorem sameLearning_seedLoaded (sha : Sha256) (store : WorkStore) :
    SameLearning store (store.seedLoaded sha) := by
  unfold seedLoaded
  generalize store.projects.values.map WorkProject.scope = scopes
  induction scopes generalizing store with
  | nil => exact .refl store
  | cons scope scopes ih =>
    rw [foldl_cons]
    refine SameLearning.trans ?_ (ih _)
    split_ifs
    · exact sameLearning_seedChanges sha store scope
    · exact .refl store

variable {Tz : Type} {zones : Zones Tz} {sha : Sha256} {parse : ParseU64} {isCorrection : Bool}

theorem sameLearning_configureAutomation
    (h : store.configureAutomation zones sha scope access policy = .ok store') :
    SameLearning store store' := by
  unfold configureAutomation at h
  obtain ⟨_, _, h⟩ := bind_ok_iff.mp h
  obtain ⟨_, _, h⟩ := bind_ok_iff.mp h
  obtain ⟨_, _, h⟩ := bind_ok_iff.mp h
  dsimp only at h
  obtain ⟨_, _, h⟩ := bind_ok_iff.mp h
  rw [ok.injEq] at h
  rw [← h]
  split_ifs
  all_goals exact ⟨rfl, rfl⟩

/-- The change of the window of a scope. -/
def changeAt (change : Option (String × Observed)) (key : String) : Option Observed :=
  (change.filter (fun c => c.1 = key)).map Prod.snd

theorem changeAt_map (key other : String) (c : Option Observed) :
    changeAt (c.map (fun c => (key, c))) other = if key = other then c else none := by
  unfold changeAt
  cases c with
  | none => simp
  | some c =>
    by_cases hkey : key = other
    · simp [hkey]
    · simp [hkey]

/-- What a call does to the profiles. -/
structure Touches (store store' : WorkStore) (change : Option (String × Observed)) : Prop where
  deliveries : store'.deliveries = store.deliveries
  memory : ∀ key, memory (store'.profile key) = changed (memory (store.profile key))
    (changeAt change key)
  derived : ∀ key, Derived (store.profile key) → Derived (store'.profile key)

theorem SameLearning.touches (h : SameLearning store store') : Touches store store' none := by
  have hprofile : ∀ key, store'.profile key = store.profile key := by
    intro key
    rw [profile, h.preferences, profile]
  refine ⟨h.deliveries, ?_, ?_⟩
  · intro key
    rw [hprofile]
    rfl
  · intro key hderived
    rw [hprofile]
    exact hderived

/-- Setting one profile. -/
theorem touches_setProfile {c : Option Observed}
    (hmemory : memory p = changed (memory (store.profile key)) c)
    (hderived : Derived (store.profile key) → Derived p) :
    Touches store (store.setProfile key p) (c.map (fun c => (key, c))) := by
  refine ⟨rfl, ?_, ?_⟩
  · intro other
    rw [profile_setProfile, changeAt_map]
    by_cases hkey : key = other
    · rw [if_pos hkey, if_pos hkey, hmemory, hkey]
    · rw [if_neg hkey, if_neg hkey]
      rfl
  · intro other h
    rw [profile_setProfile]
    by_cases hkey : key = other
    · rw [if_pos hkey]
      exact hderived (hkey ▸ h)
    · rw [if_neg hkey]
      exact h

theorem touches_controlPreferences {explicitHour : Option (Option Nat)}
    {reset : Bool} (h : store.controlPreferences access enabled explicitHour reset = .ok store') :
    Touches store store' ((if reset then some .clear else none).map
      (fun c => (access.scope.key, c))) := by
  unfold controlPreferences at h
  obtain ⟨_, _, h⟩ := bind_ok_iff.mp h
  obtain ⟨_, _, h⟩ := bind_ok_iff.mp h
  rw [ok.injEq] at h
  rw [← h]
  exact touches_setProfile (memory_control _ _ _ _) (fun _ => derived_recompute _)

/-- An update of the automation changes no window. -/
theorem touches_updateAutomation (store : WorkStore) (access : WorkAccess)
    (update : WorkAutomationUpdate) (configuredOwner : Option String) :
    Touches store (store.updateAutomation zones sha parse access update configuredOwner).1 none := by
  unfold updateAutomation
  cases hpolicy : (store.updatedPolicy parse access update configuredOwner).bind
      (store.configureAutomation zones sha access.scope access) with
  | error e => exact (SameLearning.refl store).touches
  | ok configured =>
    obtain ⟨policy, _, hconfigured⟩ := bind_ok_iff.mp hpolicy
    have hsame := sameLearning_configureAutomation hconfigured
    dsimp only
    cases update.briefingHour with
    | none => exact hsame.touches
    | some hour =>
      dsimp only
      cases hcontrol : configured.controlPreferences access none (some (some hour)) false with
      | error e => exact hsame.touches
      | ok controlled =>
        have hfirst := hsame.touches
        have hsecond := touches_controlPreferences hcontrol
        refine ⟨hsecond.deliveries.trans hfirst.deliveries, ?_, ?_⟩
        · intro key
          exact (hsecond.memory key).trans (hfirst.memory key)
        · intro key hderived
          exact hsecond.derived key (hfirst.derived key hderived)

/-- What `feedback` asks of a store. -/
def askedOf (store : WorkStore) (access : WorkAccess) (deliveryId : Nat)
    (feedback : Option WorkFeedback) (isCorrection : Bool) (now : Nat) : Option Observed :=
  match (store.feedback access deliveryId feedback isCorrection now).2 with
  | .ok () => asked access (store.deliveries[deliveryId]?.bind WorkDeliveryReceipt.kind) deliveryId
      feedback isCorrection now
  | .error _ => none

theorem touches_feedback (hsound : Sound (store.profile access.scope.key)) :
    Touches store (store.feedback access deliveryId feedback isCorrection now).1
      ((askedOf store access deliveryId feedback isCorrection now).map
        (fun c => (access.scope.key, c))) := by
  unfold askedOf WorkStore.feedback
  cases hcheck : store.checkFeedback access deliveryId feedback now with
  | error e => exact (SameLearning.refl store).touches
  | ok kind =>
    obtain ⟨hactor, hkind, receipt, hreceipt, _, hsame⟩ := checkFeedback_ok hcheck
    dsimp only
    cases hprofile : (store.profile access.scope.key).feedback access kind deliveryId feedback
        isCorrection now with
    | mk p result =>
      dsimp only
      cases result with
      | error e =>
        apply touches_setProfile
        · rw [feedback_error hprofile]
          rfl
        · intro hderived
          rw [feedback_error hprofile]
          exact hderived
      | ok done =>
        apply touches_setProfile
        · rw [hreceipt, bind_some, hsame]
          exact (memory_feedback hsound hactor hkind hprofile).1
        · intro _
          exact derived_feedback hprofile

/-! ## Runs -/

inductive WorkCall where
  | feedback (access : WorkAccess) (deliveryId : Nat) (given : Option WorkFeedback)
      (isCorrection : Bool) (now : Nat)
  | automation (access : WorkAccess) (update : WorkAutomationUpdate)
      (configuredOwner : Option String)
  | control (access : WorkAccess) (enabled : Option Bool) (explicitHour : Option (Option Nat))
      (reset : Bool)
  | reload
  /-- Any other operation, with the store that it leaves. -/
  | other (store : WorkStore)

variable {call : WorkCall}

/-- The store after a call. -/
def WorkCall.perform (zones : Zones Tz) (sha : Sha256) (parse : ParseU64) (store : WorkStore) :
    WorkCall → WorkStore
  | .feedback access deliveryId given isCorrection now =>
    (store.feedback access deliveryId given isCorrection now).1
  | .automation access update configuredOwner =>
    (store.updateAutomation zones sha parse access update configuredOwner).1
  | .control access enabled explicitHour reset =>
    match store.controlPreferences access enabled explicitHour reset with
    | .ok store' => store'
    | .error _ => store
  | .reload => store.seedLoaded sha
  | .other store' => store'

/-- The window that a call changes, and how. -/
def WorkCall.change (store : WorkStore) : WorkCall → Option (String × Observed)
  | .feedback access deliveryId given isCorrection now =>
    (askedOf store access deliveryId given isCorrection now).map
      (fun c => (access.scope.key, c))
  | .control access enabled explicitHour reset =>
    match store.controlPreferences access enabled explicitHour reset with
    | .ok _ => (if reset then some .clear else none).map (fun c => (access.scope.key, c))
    | .error _ => none
  | _ => none

/-- Other operations leave preferences alone and never take a receipt or its
scope away. -/
def Granted (store : WorkStore) : WorkCall → Prop
  | .other store' => store'.preferences = store.preferences ∧
    ∀ (id : Nat) (receipt : WorkDeliveryReceipt), store.deliveries[id]? = some receipt →
      ∃ receipt' : WorkDeliveryReceipt, store'.deliveries[id]? = some receipt' ∧ receipt'.scope = receipt.scope
  | _ => True

/-- A run with what it has shown. -/
structure Watch where
  store : WorkStore
  /-- The pairs that have entered a profile. -/
  entered : List (Nat × Nat)
  /-- The observations of a scope without the bound. -/
  history : String → Observations

variable {s : Watch}

def Watch.start (store : WorkStore) : Watch :=
  ⟨store, [], fun key => memory (store.profile key)⟩

/-- One call. -/
def Watch.next (zones : Zones Tz) (sha : Sha256) (parse : ParseU64) (s : Watch) (call : WorkCall) :
    Option Watch :=
  let store' := call.perform zones sha parse s.store
  let change := call.change s.store
  some {
    store := store'
    entered := s.entered ++ change.elim [] (fun c =>
      Window.gained pair (memory (s.store.profile c.1)) (memory (store'.profile c.1)))
    history := fun key => (changeAt change key).elim (s.history key) ((s.history key).record pair) }

abbrev WorkRun (zones : Zones Tz) (sha : Sha256) (parse : ParseU64) : Watch → Watch → Prop :=
  Steps (Watch.next zones sha parse) (fun s call => Granted s.store call)

/-- What one call does to the profiles and to the scopes of the receipts. -/
structure Moves (store store' : WorkStore) (change : Option (String × Observed)) : Prop where
  scopes : ∀ (id : Nat) (receipt : WorkDeliveryReceipt), store.deliveries[id]? = some receipt →
    ∃ receipt' : WorkDeliveryReceipt, store'.deliveries[id]? = some receipt' ∧ receipt'.scope = receipt.scope
  memory : ∀ key, memory (store'.profile key) = changed (memory (store.profile key))
    (changeAt change key)
  derived : ∀ key, Derived (store.profile key) → Derived (store'.profile key)

theorem Touches.moves (h : Touches store store' change) : Moves store store' change := by
  refine ⟨?_, h.memory, h.derived⟩
  intro id receipt hreceipt
  exact ⟨receipt, by rw [h.deliveries, hreceipt], rfl⟩

theorem moves_perform (hsound : ∀ key, Sound (store.profile key)) (hgranted : Granted store call) :
    Moves store (call.perform zones sha parse store) (call.change store) := by
  cases call with
  | feedback access deliveryId given isCorrection now =>
    exact (touches_feedback (hsound access.scope.key)).moves
  | automation access update configuredOwner =>
    exact (touches_updateAutomation store access update configuredOwner).moves
  | control access enabled explicitHour reset =>
    unfold WorkCall.perform WorkCall.change
    cases hcontrol : store.controlPreferences access enabled explicitHour reset with
    | error e =>
      dsimp only
      rw [hcontrol]
      exact (SameLearning.refl store).touches.moves
    | ok store' =>
      dsimp only
      rw [hcontrol]
      exact (touches_controlPreferences hcontrol).moves
  | reload => exact (sameLearning_seedLoaded sha store).touches.moves
  | other store' =>
    have hprofile : ∀ key, store'.profile key = store.profile key := by
      intro key
      rw [profile, hgranted.1, profile]
    refine ⟨hgranted.2, ?_, ?_⟩
    · intro key
      show memory (store'.profile key) = _
      rw [hprofile]
      rfl
    · intro key hderived
      show Derived (store'.profile key)
      rw [hprofile]
      exact hderived

/-! ## Every run -/

/-- The pairs of the observations of a scope. -/
def pairsOf (store : WorkStore) (key : String) : List (Nat × Nat) :=
  (observations (store.profile key)).map pair

/-- The pairs that a scope has ever observed. -/
def seenBy (store : WorkStore) (key : String) : Finset (Nat × Nat) :=
  (memory (store.profile key)).seen

/-- A store from which a run may start: its profiles are such as the store
leaves them.  A store without profiles is one. -/
structure Start (store : WorkStore) : Prop where
  sound : ∀ key, Sound (store.profile key)
  derived : ∀ key, Derived (store.profile key)
  placed : ∀ key, ∀ x ∈ seenBy store key, ∃ receipt : WorkDeliveryReceipt,
    store.deliveries[x.1]? = some receipt ∧ receipt.scope.map WorkScope.key = some key

/-- The invariant of a run. -/
structure Watched (start : WorkStore) (s : Watch) : Prop where
  sound : ∀ key, Sound (s.store.profile key)
  derived : ∀ key, Derived (s.store.profile key)
  placed : ∀ key, ∀ x ∈ seenBy s.store key, ∃ receipt : WorkDeliveryReceipt,
    s.store.deliveries[x.1]? = some receipt ∧ receipt.scope.map WorkScope.key = some key
  entered : s.entered.Nodup
  known : ∀ x ∈ s.entered, ∃ key, x ∈ seenBy s.store key
  started : ∀ key, ∀ x ∈ pairsOf start key, x ∉ s.entered ∧ x ∈ seenBy s.store key
  accounted : ∀ key, ∀ x ∈ pairsOf s.store key, x ∈ s.entered ∨ x ∈ pairsOf start key
  newest : ∀ key, observations (s.store.profile key) <:+ (s.history key).kept
  remembered : ∀ key, seenBy s.store key = (s.history key).seen

theorem sound_default : Sound WorkPreferenceProfile.default :=
  ⟨Nat.zero_le _, nodup_nil, fun _ hx => absurd hx not_mem_nil⟩

theorem derived_default : Derived WorkPreferenceProfile.default :=
  derived_recompute WorkPreferenceProfile.default

/-- A pair that is seen is seen by the scope of its delivery only. -/
theorem scope_unique (hplaced : ∀ key, ∀ x ∈ seenBy store key, ∃ receipt : WorkDeliveryReceipt,
      store.deliveries[x.1]? = some receipt ∧ receipt.scope.map WorkScope.key = some key)
    (hkey : x ∈ seenBy store key) (hother : x ∈ seenBy store other) : key = other := by
  obtain ⟨receipt, hreceipt, hscope⟩ := hplaced key x hkey
  obtain ⟨receipt', hreceipt', hscope'⟩ := hplaced other x hother
  rw [hreceipt, some.injEq] at hreceipt'
  rw [← hreceipt', hscope, some.injEq] at hscope'
  exact hscope'

theorem pairsOf_subset_seenBy (h : x ∈ pairsOf store key) : x ∈ seenBy store key :=
  Finset.mem_union_right _ (mem_toFinset.mpr h)

/-- Changes that a call asks for keep the pair of an observation. -/
theorem keepsKey_change (h : call.change store = some (key, c)) : c.KeepsKey pair := by
  cases c with
  | accept e => trivial
  | withdraw k => trivial
  | clear => trivial
  | amend k f =>
    cases call with
    | feedback access deliveryId given isCorrection now =>
      obtain ⟨c, hc, heq⟩ := map_eq_some_iff.mp h
      cases heq
      unfold askedOf at hc
      split at hc
      · unfold asked at hc
        cases isCorrection with
        | true =>
          cases given with
          | some given =>
            simp only [if_true, correction, some.injEq] at hc
            cases hc
            exact fun _ => rfl
          | none => cases hc
        | false => cases given <;> cases hc
      · cases hc
    | control access enabled explicitHour reset =>
      unfold WorkCall.change at h
      dsimp only at h
      split at h
      · cases reset <;> cases h
      · cases h
    | automation access update configuredOwner | reload | other store' => cases h

/-- An acceptance is under the scope of its delivery. -/
theorem accept_change (h : call.change store = some (key, .accept e)) :
    ∃ receipt : WorkDeliveryReceipt, store.deliveries[(pair e).1]? = some receipt ∧
      receipt.scope.map WorkScope.key = some key := by
  cases call with
  | feedback access deliveryId given isCorrection now =>
    obtain ⟨c, hc, heq⟩ := map_eq_some_iff.mp h
    cases heq
    unfold askedOf WorkStore.feedback at hc
    cases hcheck : store.checkFeedback access deliveryId given now with
    | error e =>
      rw [hcheck] at hc
      cases hc
    | ok kind =>
      obtain ⟨_, _, receipt, hreceipt, hscope, _⟩ := checkFeedback_ok hcheck
      have hdelivery : (pair e).1 = deliveryId := by
        split at hc
        · unfold asked at hc
          cases isCorrection with
          | true => cases given <;> cases hc
          | false =>
            cases given with
            | none => cases hc
            | some given =>
              simp only [Bool.false_eq_true, if_false, map_some, some.injEq] at hc
              cases hc
              rfl
        · cases hc
      exact ⟨receipt, by rw [hdelivery, hreceipt], by rw [hscope]; rfl⟩
  | control access enabled explicitHour reset =>
    unfold WorkCall.change at h
    dsimp only at h
    split at h
    · cases reset <;> cases h
    · cases h
  | automation access update configuredOwner => cases h
  | reload => cases h
  | other store' => cases h

theorem changeAt_some (k key : String) (c : Observed) :
    changeAt (some (k, c)) key = if k = key then some c else none :=
  changeAt_map k key (some c)

variable {start : WorkStore} {t : Watch}

theorem Watched.init (h : Start start) : Watched start (Watch.start start) where
  sound := h.sound
  derived := h.derived
  placed := h.placed
  entered := nodup_nil
  known := fun _ hx => absurd hx not_mem_nil
  started := fun _ _ hx => ⟨List.not_mem_nil, pairsOf_subset_seenBy hx⟩
  accounted := fun _ _ hx => .inr hx
  newest := fun _ => suffix_refl _
  remembered := fun _ => rfl

/-- A call that changes no window. -/
theorem Watched.quiet (h : Watched start s)
    (hmoves : Moves s.store t.store none) (hentered : t.entered = s.entered)
    (hhistory : t.history = s.history) : Watched start t := by
  have hmemory : ∀ key, memory (t.store.profile key) = memory (s.store.profile key) := hmoves.memory
  have hseen : ∀ key, seenBy t.store key = seenBy s.store key := by
    intro key
    rw [seenBy, hmemory, seenBy]
  have hkept : ∀ key, observations (t.store.profile key) = observations (s.store.profile key) :=
    fun key => congrArg kept (hmemory key)
  have hpairs : ∀ key, pairsOf t.store key = pairsOf s.store key := by
    intro key
    rw [pairsOf, hkept, pairsOf]
  constructor
  · intro key
    rw [Sound, hmemory]
    exact h.sound key
  · exact fun key => hmoves.derived key (h.derived key)
  · intro key x hx
    rw [hseen] at hx
    obtain ⟨receipt, hreceipt, hscope⟩ := h.placed key x hx
    obtain ⟨receipt', hreceipt', hsame⟩ := hmoves.scopes x.1 receipt hreceipt
    exact ⟨receipt', hreceipt', by rw [hsame, hscope]⟩
  · rw [hentered]
    exact h.entered
  · intro x hx
    rw [hentered] at hx
    obtain ⟨key, hkey⟩ := h.known x hx
    exact ⟨key, by rw [hseen]; exact hkey⟩
  · intro key x hx
    rw [hentered, hseen]
    exact h.started key x hx
  · intro key x hx
    rw [hpairs] at hx
    rw [hentered]
    exact h.accounted key x hx
  · intro key
    rw [hkept, hhistory]
    exact h.newest key
  · intro key
    rw [hseen, hhistory]
    exact h.remembered key

/-- A call that changes the window of one scope. -/
theorem Watched.change (h : Watched start s)
    (hmoves : Moves s.store t.store (some (k, c))) (hkeeps : c.KeepsKey pair)
    (hplace : ∀ e, c = .accept e → ∃ receipt : WorkDeliveryReceipt,
      s.store.deliveries[(pair e).1]? = some receipt ∧ receipt.scope.map WorkScope.key = some k)
    (hentered : t.entered =
      s.entered ++ gained pair (memory (s.store.profile k)) (memory (t.store.profile k)))
    (hhistory : ∀ key, t.history key =
      (changeAt (some (k, c)) key).elim (s.history key) ((s.history key).record pair)) :
    Watched start t := by
  have hhere : memory (t.store.profile k) =
      (memory (s.store.profile k)).apply pair maxObservations c := by
    rw [hmoves.memory, changeAt_some, if_pos rfl]
    rfl
  have hthere : ∀ key, k ≠ key → memory (t.store.profile key) = memory (s.store.profile key) := by
    intro key hkey
    rw [hmoves.memory, changeAt_some, if_neg hkey]
    rfl
  -- a pair that enters has been seen by no scope before
  have hfresh : ∀ e, c = .accept e → pair e ∉ seenBy s.store k →
      ∀ key, pair e ∉ seenBy s.store key := by
    intro e hc hnew key hin
    obtain ⟨receipt, hreceipt, hscope⟩ := hplace e hc
    obtain ⟨receipt', hreceipt', hscope'⟩ := h.placed key _ hin
    rw [hreceipt, some.injEq] at hreceipt'
    rw [← hreceipt', hscope, some.injEq] at hscope'
    exact hnew (hscope' ▸ hin)
  have hmono : ∀ key, seenBy s.store key ⊆ seenBy t.store key := by
    intro key
    by_cases hkey : k = key
    · rw [← hkey, seenBy, seenBy, hhere]
      exact seen_subset_record _ c
    · rw [seenBy, seenBy, hthere key hkey]
  have hgained : gained pair (memory (s.store.profile k)) (memory (t.store.profile k)) = [] ∨
      ∃ e, c = .accept e ∧ pair e ∉ seenBy s.store k ∧
        gained pair (memory (s.store.profile k)) (memory (t.store.profile k)) = [pair e] := by
    rw [hhere]
    exact gained_apply hkeeps
  have hold : ∀ x ∈ t.entered, x ∈ s.entered ∨
      ∃ e, c = .accept e ∧ pair e ∉ seenBy s.store k ∧ x = pair e := by
    intro x hx
    rw [hentered, mem_append] at hx
    rcases hx with hx | hx
    · exact .inl hx
    · rcases hgained with hnone | ⟨e, hc, hnew, hone⟩
      · rw [hnone] at hx
        exact absurd hx not_mem_nil
      · rw [hone, mem_singleton] at hx
        exact .inr ⟨e, hc, hnew, hx⟩
  constructor
  · intro key
    by_cases hkey : k = key
    · rw [← hkey, Sound, hhere]
      exact (h.sound k).apply hkeeps
    · rw [Sound, hthere key hkey]
      exact h.sound key
  · exact fun key => hmoves.derived key (h.derived key)
  · intro key x hx
    have hreceipt : ∃ receipt : WorkDeliveryReceipt, s.store.deliveries[x.1]? = some receipt ∧
        receipt.scope.map WorkScope.key = some key := by
      by_cases hkey : k = key
      · rw [← hkey, seenBy, hhere, seen_apply] at hx
        rcases mem_seen_record hx with hbefore | ⟨e, hc, rfl⟩
        · exact h.placed key x (hkey ▸ hbefore)
        · exact hkey ▸ hplace e hc
      · rw [seenBy, hthere key hkey] at hx
        exact h.placed key x hx
    obtain ⟨receipt, hreceipt, hscope⟩ := hreceipt
    obtain ⟨receipt', hreceipt', hsame⟩ := hmoves.scopes x.1 receipt hreceipt
    exact ⟨receipt', hreceipt', by rw [hsame, hscope]⟩
  · rw [hentered]
    rcases hgained with hnone | ⟨e, hc, hnew, hone⟩
    · rw [hnone, append_nil]
      exact h.entered
    · rw [hone, ← concat_eq_append]
      refine List.Nodup.concat ?_ h.entered
      intro hin
      obtain ⟨key, hkey⟩ := h.known _ hin
      exact hfresh e hc hnew key hkey
  · intro x hx
    rcases hold x hx with hin | ⟨e, hc, hnew, rfl⟩
    · obtain ⟨key, hkey⟩ := h.known x hin
      exact ⟨key, hmono key hkey⟩
    · refine ⟨k, ?_⟩
      have hnot : pair e ∉ (memory (s.store.profile k)).seen := hnew
      rw [seenBy, hhere, seen_apply, hc, record, if_neg hnot]
      exact Finset.mem_insert_self _ _
  · intro key x hx
    obtain ⟨hnot, hseen⟩ := h.started key x hx
    refine ⟨?_, hmono key hseen⟩
    intro hin
    rcases hold x hin with hin | ⟨e, hc, hnew, rfl⟩
    · exact hnot hin
    · exact hfresh e hc hnew key hseen
  · intro key x hx
    by_cases hbefore : x ∈ pairsOf s.store key
    · rcases h.accounted key x hbefore with hin | hstart
      · left
        rw [hentered]
        exact mem_append_left _ hin
      · exact .inr hstart
    · by_cases hkey : k = key
      · left
        rw [hentered]
        apply mem_append_right
        rw [hkey]
        exact mem_gained.mpr ⟨hx, hbefore⟩
      · have hsame : pairsOf t.store key = pairsOf s.store key :=
          congrArg (fun w => w.kept.map pair) (hthere key hkey)
        exact absurd (hsame ▸ hx) hbefore
  · intro key
    rw [hhistory, changeAt_some]
    by_cases hkey : k = key
    · rw [if_pos hkey, ← hkey]
      have hsuffix : ((memory (s.store.profile k)).apply pair maxObservations c).kept <:+
          ((s.history k).record pair c).kept :=
        (suffix_apply (h.newest k) (h.remembered k) c).1
      rw [← hhere] at hsuffix
      exact hsuffix
    · rw [if_neg hkey]
      have hsame : observations (t.store.profile key) = observations (s.store.profile key) :=
        congrArg kept (hthere key hkey)
      rw [hsame]
      exact h.newest key
  · intro key
    rw [hhistory, changeAt_some]
    by_cases hkey : k = key
    · rw [if_pos hkey, ← hkey, seenBy, hhere]
      exact (suffix_apply (h.newest k) (h.remembered k) c).2
    · rw [if_neg hkey, seenBy, hthere key hkey]
      exact h.remembered key

theorem Watched.next (h : Watched start s)
    (hgranted : Granted s.store call) (hnext : s.next zones sha parse call = some t) :
    Watched start t := by
  unfold Watch.next at hnext
  dsimp only at hnext
  rw [some.injEq] at hnext
  have hmoves : Moves s.store t.store (call.change s.store) := by
    rw [← hnext]
    exact moves_perform h.sound hgranted
  cases hchange : call.change s.store with
  | none =>
    rw [hchange] at hnext hmoves
    refine h.quiet hmoves ?_ ?_
    · rw [← hnext]
      exact append_nil _
    · rw [← hnext]
      rfl
  | some kc =>
    obtain ⟨k, c⟩ := kc
    rw [hchange] at hnext hmoves
    refine h.change hmoves (keepsKey_change hchange) ?_ ?_ ?_
    · intro e hc
      exact accept_change (hc ▸ hchange)
    · rw [← hnext]
      rfl
    · intro key
      rw [← hnext]

theorem watched_run (hstart : Start start)
    (h : WorkRun zones sha parse (Watch.start start) s) : Watched start s :=
  h.invariant (fun _ _ _ hs hgranted hnext => hs.next hgranted hnext) (.init hstart)

/-- The observations of a scope with a new one: the newest hundred, unless
the pair has been observed before. -/
def accepting (store : WorkStore) (key : String) (e : PreferenceEvidence) :
    List PreferenceEvidence :=
  if pair e ∈ seenBy store key then observations (store.profile key)
  else (observations (store.profile key) ++ [e]).rtake 100

/-- The observations of a scope after a correction of one of them. -/
def correcting (store : WorkStore) (key : String) (own : Nat × Nat)
    (feedback : Option WorkFeedback) (now : Nat) : List PreferenceEvidence :=
  match feedback with
  | some feedback => (observations (store.profile key)).map
      (fun e => if pair e = own then { e with feedback, at_ := now } else e)
  | none => (observations (store.profile key)).filter (fun e => pair e ≠ own)

/-- What learning promises in a state that a run from a store has reached. -/
structure Learns (start : WorkStore) (s : Watch) : Prop where
  /-- No pair enters a profile twice. -/
  once : s.entered.Nodup
  /-- A pair that is there from the start does not enter again. -/
  fresh : ∀ key, ∀ x ∈ pairsOf start key, x ∉ s.entered
  /-- Every observation has entered or is there from the start. -/
  accounted : ∀ key, ∀ x ∈ pairsOf s.store key, x ∈ s.entered ∨ x ∈ pairsOf start key
  distinct : ∀ key, (pairsOf s.store key).Nodup
  /-- No pair is observed in two profiles. -/
  apart : ∀ key other, ∀ x ∈ pairsOf s.store key, x ∈ pairsOf s.store other → key = other
  bounded : ∀ key, (observations (s.store.profile key)).length ≤ 100
  /-- A profile holds the last of the observations that were neither withdrawn
  nor reset. -/
  newest : ∀ key, observations (s.store.profile key) <:+ (s.history key).kept
  /-- A new observation evicts the oldest of a hundred and no other. -/
  accepted : ∀ (access : WorkAccess) (deliveryId : Nat) (feedback : WorkFeedback) (now : Nat)
    (t : WorkStore), s.store.feedback access deliveryId (some feedback) false now = (t, .ok ()) →
      observations (t.profile access.scope.key) = accepting s.store access.scope.key
        ⟨some access.actor, some access.scope,
          s.store.deliveries[deliveryId]?.bind WorkDeliveryReceipt.kind, deliveryId, feedback, now⟩
  /-- A correction replaces or removes an observation of the caller where it
  stands. -/
  corrected : ∀ (access : WorkAccess) (deliveryId : Nat) (feedback : Option WorkFeedback)
    (now : Nat) (t : WorkStore),
      s.store.feedback access deliveryId feedback true now = (t, .ok ()) →
        (deliveryId, access.actor) ∈ pairsOf s.store access.scope.key ∧
          observations (t.profile access.scope.key) =
            correcting s.store access.scope.key (deliveryId, access.actor) feedback now
  /-- Feedback leaves the observations of other scopes alone, and all of them
  where it is refused. -/
  elsewhere : ∀ (access : WorkAccess) (deliveryId : Nat) (feedback : Option WorkFeedback)
    (isCorrection : Bool) (now : Nat) (t : WorkStore) (result : Except WorkError Unit),
      s.store.feedback access deliveryId feedback isCorrection now = (t, result) →
        ∀ key, (access.scope.key ≠ key ∨ result ≠ .ok ()) →
          observations (t.profile key) = observations (s.store.profile key)
  derived : ∀ key, Derived (s.store.profile key)
  /-- So is the profile that is shown. -/
  shown : ∀ (access : WorkAccess) (p : WorkPreferenceProfile),
    s.store.preferenceProfile access = .ok p →
      Derived p ∧ observations p = observations (s.store.profile access.scope.key)

/-- What a call of `feedback` with a known result does to the windows. -/
theorem memory_of_feedback (hsound : Sound (store.profile access.scope.key))
    (h : store.feedback access deliveryId feedback isCorrection now = (store', result))
    (key : String) : memory (store'.profile key) = changed (memory (store.profile key))
      (if access.scope.key = key ∧ result = .ok () then
        asked access (store.deliveries[deliveryId]?.bind WorkDeliveryReceipt.kind) deliveryId
          feedback isCorrection now else none) := by
  have hmemory := (@touches_feedback store access deliveryId now feedback isCorrection
    hsound).memory key
  rw [changeAt_map, askedOf, h] at hmemory
  rw [hmemory]
  cases result with
  | error e => simp
  | ok done => simp

/-- The caller of an accepted correction owns an observation. -/
theorem own_of_correction (hsound : Sound (store.profile access.scope.key))
    (h : store.feedback access deliveryId feedback true now = (store', .ok ())) :
    (deliveryId, access.actor) ∈ pairsOf store access.scope.key := by
  unfold WorkStore.feedback at h
  cases hcheck : store.checkFeedback access deliveryId feedback now with
  | error e =>
    rw [hcheck] at h
    cases h
  | ok kind =>
    obtain ⟨hactor, hkind, _⟩ := checkFeedback_ok hcheck
    rw [hcheck] at h
    dsimp only at h
    rw [Prod.mk.injEq] at h
    exact (memory_feedback hsound hactor hkind (Prod.ext rfl h.2)).2 rfl

theorem kept_accept (hsound : Sound (store.profile key)) (e : PreferenceEvidence) :
    (changed (memory (store.profile key)) (some (.accept e))).kept = accepting store key e := by
  unfold changed apply record accepting
  dsimp only [elim_some]
  have hseen : (memory (store.profile key)).seen = seenBy store key := rfl
  rw [hseen]
  by_cases hin : pair e ∈ seenBy store key
  · rw [if_pos hin, if_pos hin]
    exact rtake_of_length_le hsound.bounded
  · rw [if_neg hin, if_neg hin]
    rfl

theorem kept_correction (hsound : Sound (store.profile key)) (deliveryId actor : Nat)
    (feedback : Option WorkFeedback) (now : Nat) :
    (changed (memory (store.profile key)) (some (correction deliveryId actor feedback now))).kept =
      correcting store key (deliveryId, actor) feedback now := by
  have hbounded : (observations (store.profile key)).length ≤ maxObservations := hsound.bounded
  cases feedback with
  | some feedback =>
    apply rtake_of_length_le
    show (map _ (observations (store.profile key))).length ≤ maxObservations
    rw [length_map]
    exact hbounded
  | none =>
    apply rtake_of_length_le
    exact Nat.le_trans (length_filter_le _ _) hbounded

theorem Watched.learns (h : Watched start s) : Learns start s := by
  constructor
  · exact h.entered
  · exact fun key x hx => (h.started key x hx).1
  · exact h.accounted
  · exact fun key => (h.sound key).distinct
  · intro key other x hkey hother
    exact scope_unique h.placed (pairsOf_subset_seenBy hkey) (pairsOf_subset_seenBy hother)
  · exact fun key => (h.sound key).bounded
  · exact h.newest
  · intro access deliveryId feedback now t hfeedback
    have hmemory := memory_of_feedback (h.sound access.scope.key) hfeedback access.scope.key
    rw [if_pos ⟨rfl, rfl⟩] at hmemory
    exact (congrArg kept hmemory).trans (kept_accept (h.sound access.scope.key) _)
  · intro access deliveryId feedback now t hfeedback
    refine ⟨own_of_correction (h.sound access.scope.key) hfeedback, ?_⟩
    have hmemory := memory_of_feedback (h.sound access.scope.key) hfeedback access.scope.key
    rw [if_pos ⟨rfl, rfl⟩] at hmemory
    exact (congrArg kept hmemory).trans
      (kept_correction (h.sound access.scope.key) _ _ _ _)
  · intro access deliveryId feedback isCorrection now t result hfeedback key hkey
    have hmemory := memory_of_feedback (h.sound access.scope.key) hfeedback key
    rw [if_neg (by tauto)] at hmemory
    exact congrArg kept hmemory
  · exact h.derived
  · intro access p hp
    unfold preferenceProfile at hp
    obtain ⟨_, _, hp⟩ := bind_ok_iff.mp hp
    rw [ok.injEq] at hp
    rw [← hp]
    exact ⟨derived_recompute _, observations_recompute _⟩

/-- In every run from a store whose profiles are such as it leaves them, each
pair of a delivery and a member is counted at most once, and every profile
holds the newest observations and derives its values from them. -/
theorem learns_once {start : WorkStore} {s : Watch} (hstart : Start start)
    (h : WorkRun zones sha parse (Watch.start start) s) : Learns start s :=
  (watched_run hstart h).learns

/-! ### A run -/

theorem start_of_empty (h : store.preferences = ∅) : Start store := by
  have hprofile : ∀ key, store.profile key = .default := by
    intro key
    rw [profile, h, Std.ExtTreeMap.getElem?_empty, getD_none]
  constructor
  · intro key
    rw [hprofile]
    exact sound_default
  · intro key
    rw [hprofile]
    exact derived_default
  · intro key x hx
    rw [seenBy, hprofile] at hx
    exact absurd hx (Finset.notMem_empty x)

/-- A briefing that was sent. -/
def sampleReceipt (id : Nat) : WorkDeliveryReceipt where
  id := id
  projectId := 1
  recipient := 9
  destination := none
  policyRevision := 0
  provenance := none
  localDay := "2024-01-01"
  at_ := 100
  state := .sent
  messageId := some 50
  scope := some (.personal 7)
  kind := some .briefing
  coverage := []
  taskIds := []
  dedupeKeys := ∅

def sampleAccess : WorkAccess := ⟨7, none, 9, true, true⟩

/-- A project of one person with two briefings that were sent. -/
def sampleStore : WorkStore := { WorkStore.empty with
  sequence := 3
  projects := Std.ExtTreeMap.empty.insert 1
    { id := 1, name := "home", scope := .personal 7, managers := {7}, members := {7},
      revision := 1, allowedGithubRepositories := ∅ }
  deliveries := (Std.ExtTreeMap.empty.insert 2 (sampleReceipt 2)).insert 3 (sampleReceipt 3) }

/-- One time zone that is called UTC. -/
def sampleZones : Zones Unit where
  parse name := if name = "UTC" then some () else none
  localDay _ seconds := seconds / 86400
  localHour _ seconds := seconds % 86400 / 3600
  resolve _ minute := .single (60 * minute)
  maxTimestamp := 8210266876799
  dayText day := if day = 0 then "1970-01-01" else toString day

/-- No task is there to digest. -/
def sampleSha : Sha256 := fun _ => Vector.replicate 32 0

/-- Two deliveries observed, the first one withdrawn, then everything reset
and observed again. -/
def sampleCalls : List WorkCall :=
  [.feedback sampleAccess 2 (some (.snoozed 8)) false 200,
   .feedback sampleAccess 3 (some .useful) false 200,
   .feedback sampleAccess 2 (some .useful) false 210,
   .feedback sampleAccess 3 (some .dismissed) true 220,
   .feedback sampleAccess 2 none true 230,
   .feedback sampleAccess 2 (some .useful) false 240,
   .automation sampleAccess ⟨false, none, some "UTC", some 8, none, none, none⟩ none,
   .reload,
   .control sampleAccess none none true,
   .feedback sampleAccess 3 (some .useful) false 250]

theorem learns_once_sample : ∃ s : Watch, s.entered = [(2, 7), (3, 7)] ∧
    (s.history "personal:7").kept = [] ∧
    (s.store.profile "personal:7").explicitHour = some 8 ∧ Learns sampleStore s := by
  have hrun : (run (Watch.next sampleZones sampleSha String.toNat?) (Watch.start sampleStore)
      sampleCalls).any (fun s => s.entered = [(2, 7), (3, 7)] &&
        (s.history "personal:7").kept = [] &&
        (s.store.profile "personal:7").explicitHour = some 8) = true := by
    decide +kernel
  obtain ⟨s, hs, hfacts⟩ := (any_eq_true _ _).mp hrun
  simp only [Bool.and_eq_true, decide_eq_true_eq] at hfacts
  have hgranted : ∀ call ∈ sampleCalls, ∀ s : Watch, Granted s.store call := by
    intro call hcall s
    cases call with
    | other store' => simp [sampleCalls] at hcall
    | feedback | automation | control | reload => trivial
  have hsteps : WorkRun sampleZones sampleSha String.toNat? (Watch.start sampleStore) s :=
    steps_of_run_of_forall hgranted hs
  exact ⟨s, hfacts.1.1, hfacts.1.2, hfacts.2, learns_once (start_of_empty rfl) hsteps⟩

end Abbey.Work
