import Abbey.Work.Runs
import Abbey.Work.Shown

/-!
# No reminder is starved

`Eligible` says when a scope may be served, `Complete` what is relied on of
time zones.  For every store that operations lead to,

* `nextBatch_ok`: the next batch of an eligible scope is always answered,
* `reminders_served`: due reminders are answered with the first eight of them,
* `remaining_of_reserved`: each reservation covers eight more.
-/

namespace Abbey.Work

open Abbey.Lib WorkStore List
open Abbey.Conversation (Sha256)

variable {Tz : Type} {zones : Zones Tz} {sha : Sha256} {store : WorkStore} {scope : WorkScope}
  {access : WorkAccess}
variable {due : List ReminderCoverage} {hour now : Nat} {tz : Tz} {policy : WorkAutomationPolicy}
  {batch : WorkBatch} {p : WorkProject} {t u : WorkStore}
variable {manager : Bool} {channel id k : Nat}

/-- Every local time is followed by a valid one within a day. -/
def Complete (zones : Zones Tz) : Prop :=
  ∀ (tz : Tz) (minute : Int), ∃ k ≤ 1440, zones.resolve tz (minute + (k : Nat)) ≠ .none

/-- An enabled policy, its subscriber with fresh access, and a time outside
quiet hours with quota left. -/
structure Eligible (zones : Zones Tz) (store : WorkStore) (scope : WorkScope) (access : WorkAccess)
    (policy : WorkAutomationPolicy) (tz : Tz) (now : Nat) : Prop where
  configured : store.scopeAutomation[scope.key]? = some policy
  enabled : policy.enabled = true
  subscriber : store.scopeAutomationActors[scope.key]? = some access.actor
  authorized : (store.scopeProjects scope access true).isOk = true
  target : (target scope access policy).isOk = true
  timezone : zones.parse policy.timezone = some tz
  time : (utc zones now).isOk = true
  awake : policy.quiet (zones.localHour tz now) = false
  quota : store.attempts zones tz scope now < policy.dailyLimit

/-- Whether a briefing is due for a subscriber. -/
def briefingFor (zones : Zones Tz) (store : WorkStore) (scope : WorkScope) (access : WorkAccess)
    (policy : WorkAutomationPolicy) (tz : Tz) (now : Nat) : Except WorkError (Bool × Int) := do
  let profile ← store.preferenceProfile access
  store.briefingDue zones tz scope policy (profile.effectiveHour policy.briefingHour) now

/-! ## Times -/

theorem firstValid_ok {tries : Nat} {minute : Int}
    (h : ∃ k < tries, zones.resolve tz (minute + (k : Nat)) ≠ .none) :
    ∃ time, firstValid zones tz tries minute = .ok time := by
  induction tries generalizing minute with
  | zero =>
    obtain ⟨k, hk, _⟩ := h
    omega
  | succ tries ih =>
    unfold firstValid
    cases hresolve : zones.resolve tz minute with
    | single time => exact ⟨time, rfl⟩
    | ambiguous a b => exact ⟨min a b, rfl⟩
    | none =>
      dsimp only
      apply ih
      obtain ⟨k, hk, hvalid⟩ := h
      cases k with
      | zero =>
        rw [Int.natCast_zero, Int.add_zero] at hvalid
        exact absurd hresolve hvalid
      | succ k =>
        refine ⟨k, by omega, ?_⟩
        rw [show minute + 1 + (k : Nat) = minute + ((k + 1 : Nat) : Int) by omega]
        exact hvalid

theorem localHour_ok (hzones : Complete zones) (tz : Tz) (day : Int) (hhour : hour < 24) :
    ∃ time, localHour zones tz day hour = .ok time := by
  obtain ⟨k, hk, hvalid⟩ := hzones tz (day * 1440 + hour * 60)
  have hin : ∃ k < 1441, zones.resolve tz (day * 1440 + hour * 60 + (k : Nat)) ≠ .none :=
    ⟨k, by omega, hvalid⟩
  obtain ⟨time, htime⟩ := firstValid_ok hin
  refine ⟨time, ?_⟩
  unfold localHour
  rw [decide_eq_true hhour]
  exact htime

/-! ## Authority -/

theorem scopeProjects_ok {projects : List WorkProject}
    (h : store.scopeProjects scope access manager = .ok projects) :
    projects = store.projects.values.filter (fun p => p.scope = scope) ∧ projects ≠ [] ∧
      ∀ p ∈ projects, p.authorize access manager = .ok () := by
  unfold scopeProjects at h
  dsimp only at h
  obtain ⟨_, hne, h⟩ := bind_ok_iff.mp h
  obtain ⟨_, hall, h⟩ := bind_ok_iff.mp h
  rw [ensure_eq_ok, decide_eq_true_iff] at hne
  rw [Except.ok.injEq] at h
  rw [← h]
  exact ⟨rfl, hne, forM_eq_ok.mp hall⟩

theorem scopeProjects_of (hne : store.projects.values.filter (fun p => p.scope = scope) ≠ [])
    (hall : ∀ p ∈ store.projects.values.filter (fun p => p.scope = scope),
      p.authorize access manager = .ok ()) :
    store.scopeProjects scope access manager =
      .ok (store.projects.values.filter (fun p => p.scope = scope)) := by
  unfold scopeProjects
  dsimp only
  rw [decide_eq_true hne, forM_eq_ok.mpr hall]
  rfl

/-- A manager is a member. -/
theorem authorize_member (h : p.authorize access true = .ok ()) :
    p.authorize access false = .ok () := by
  unfold WorkProject.authorize at h ⊢
  dsimp only at h ⊢
  rw [ensure_eq_ok] at h ⊢
  simp only [Bool.and_eq_true] at h ⊢
  exact ⟨h.1, rfl⟩

/-- Access is to one scope. -/
theorem scope_of_authorize (h : p.authorize access manager = .ok ()) : access.scope = p.scope := by
  unfold WorkProject.authorize at h
  dsimp only at h
  rw [ensure_eq_ok] at h
  simp only [Bool.and_eq_true] at h
  have hscope := h.1.1.2
  unfold WorkAccess.scope
  cases hp : p.scope with
  | personal owner =>
    rw [hp] at hscope
    simp only [Bool.and_eq_true, decide_eq_true_eq] at hscope
    rw [hscope.1, hscope.2]
  | team guild channel =>
    rw [hp] at hscope
    simp only [Bool.and_eq_true, decide_eq_true_eq] at hscope
    rw [hscope.1.1, hscope.1.2]

theorem authorized_scope (h : (store.scopeProjects scope access true).isOk) :
    access.scope = scope ∧ ∃ projects, store.scopeProjects scope access true = .ok projects ∧
      store.scopeProjects scope access false = .ok projects := by
  cases hprojects : store.scopeProjects scope access true with
  | error e =>
    rw [hprojects] at h
    cases h
  | ok projects =>
    obtain ⟨heq, hne, hall⟩ := scopeProjects_ok hprojects
    obtain ⟨p, hp⟩ := exists_mem_of_ne_nil _ hne
    have hscope : p.scope = scope := by
      rw [heq] at hp
      exact of_decide_eq_true (mem_filter.mp hp).2
    refine ⟨(scope_of_authorize (hall p hp)).trans hscope, projects, rfl, ?_⟩
    rw [heq] at hne hall ⊢
    exact scopeProjects_of hne (fun q hq => authorize_member (hall q hq))

/-! ## Hours -/

theorem validate_hour (h : policy.validate zones = .ok ()) :
    policy.briefingHour < 24 ∧ (policy.enabled = true → policy.destination.isSome) := by
  unfold WorkAutomationPolicy.validate at h
  dsimp only at h
  rw [ensure_eq_ok] at h
  simp only [Bool.and_eq_true, Bool.or_eq_true, decide_eq_true_eq] at h
  refine ⟨h.1.1.1.1.1.1.2, ?_⟩
  intro henabled
  rcases h.2 with hoff | ⟨hdestination, _⟩
  · rw [henabled] at hoff
    cases hoff
  · cases hsome : policy.destination with
    | none =>
      rw [hsome] at hdestination
      cases hdestination
    | some destination => rfl

theorem effectiveHour_lt (h : Ready zones store) {profile : WorkPreferenceProfile} {default : Nat}
    (hprofile : store.preferenceProfile access = .ok profile) (hdefault : default < 24) :
    profile.effectiveHour default < 24 := by
  unfold preferenceProfile at hprofile
  obtain ⟨_, _, hprofile⟩ := bind_ok_iff.mp hprofile
  rw [Except.ok.injEq] at hprofile
  have hderived : Derived profile := hprofile ▸ derived_recompute _
  unfold WorkPreferenceProfile.effectiveHour
  cases hexplicit : profile.explicitHour with
  | some hour =>
    have hexplicit' : (store.profile access.scope.key).explicitHour = some hour := by
      rw [← explicitHour_recompute, hprofile, hexplicit]
    exact h.hour_of_profile _ hexplicit'
  | none =>
    rw [Option.none_or]
    cases hon : profile.learningEnabled with
    | false => exact hdefault
    | true =>
      rw [if_pos rfl]
      cases hlearned : profile.learnedHour with
      | none => exact hdefault
      | some hour => exact ((hderived.learnedHour hour).mp hlearned).2.valid

/-! ## The next batch -/

theorem occurrenceDay_ok (hzones : Complete zones) (tz : Tz) (policy : WorkAutomationPolicy)
    (now : Nat) (hhour : hour < 24) : ∃ day, occurrenceDay zones tz policy hour now = .ok day := by
  obtain ⟨todayAt, htoday⟩ := localHour_ok hzones tz (zones.localDay tz now) hhour
  unfold occurrenceDay
  dsimp only
  rw [htoday]
  exact ⟨_, rfl⟩

theorem briefingDue_ok (hzones : Complete zones) (tz : Tz) (policy : WorkAutomationPolicy)
    (now : Nat) (hhour : hour < 24) :
    ∃ briefing day, store.briefingDue zones tz scope policy hour now = .ok (briefing, day) := by
  obtain ⟨day, hday⟩ := occurrenceDay_ok hzones tz policy now hhour
  obtain ⟨at_, hat⟩ := localHour_ok hzones tz day hhour
  have hanswer : ∃ answer, store.briefingDue zones tz scope policy hour now = .ok answer := by
    unfold briefingDue
    rw [hday]
    show ∃ answer, (if store.openTasks scope now = [] then _ else _) = Except.ok answer
    split_ifs
    · exact ⟨_, rfl⟩
    · rw [hat]
      exact ⟨_, rfl⟩
  obtain ⟨⟨briefing, day'⟩, h⟩ := hanswer
  exact ⟨briefing, day', h⟩

/-- A briefing is due for open tasks only. -/
theorem openTasks_of_briefing {day : Int}
    (h : store.briefingDue zones tz scope policy hour now = .ok (true, day)) :
    store.openTasks scope now ≠ [] := by
  unfold briefingDue at h
  obtain ⟨_, _, h⟩ := bind_ok_iff.mp h
  dsimp only at h
  split_ifs at h with hempty
  · cases h
  · exact hempty

/-- The answer to an eligible scope is what is selected. -/
theorem nextBatch_of_eligible (h : Ready zones store)
    (he : Eligible zones store scope access policy tz now) :
    ∃ destination target projects, store.nextBatch zones sha scope access now =
      store.selected zones sha scope access policy destination target tz projects now := by
  obtain ⟨_, projects, hmanager, hmember⟩ := authorized_scope he.authorized
  have hvalid := h.policies scope.key policy he.configured
  obtain ⟨destination, hdestination⟩ := Option.isSome_iff_exists.mp
    ((validate_hour hvalid).2 he.enabled)
  have htarget := he.target
  have htime := he.time
  cases htarget' : target scope access policy with
  | error e =>
    rw [htarget'] at htarget
    cases htarget
  | ok chosen =>
    cases htime' : utc zones now with
    | error e =>
      rw [htime'] at htime
      cases htime
    | ok time =>
      refine ⟨destination, chosen, projects, ?_⟩
      have hquota : decide (policy.dailyLimit ≤ store.attempts zones tz scope now) = false :=
        decide_eq_false (by have := he.quota; omega)
      unfold nextBatch
      rw [hmember, ok_bind, he.configured]
      dsimp only
      rw [hvalid]
      show (if (!policy.enabled || decide _) then _ else _) = _
      rw [he.enabled, he.subscriber]
      simp only [Bool.not_true, ne_eq, not_true_eq_false, decide_false, Bool.or_self,
        Bool.false_eq_true, if_false]
      unfold subscribed
      rw [hmanager, hdestination, htarget', he.timezone, htime']
      show (if (policy.quiet (zones.localHour tz now) || decide _) then _ else _) = _
      rw [he.awake, hquota]
      rfl

theorem preferenceProfile_ok (h : (store.scopeProjects scope access true).isOk) :
    ∃ profile, store.preferenceProfile access = .ok profile := by
  obtain ⟨hscope, projects, _, hmember⟩ := authorized_scope h
  unfold preferenceProfile
  rw [hscope, hmember]
  exact ⟨_, rfl⟩

/-- What is known of the next batch of an eligible scope. -/
structure Answered (zones : Zones Tz) (sha : Sha256) (store : WorkStore) (scope : WorkScope)
    (access : WorkAccess) (policy : WorkAutomationPolicy) (tz : Tz) (now : Nat) : Prop where
  /-- There is an answer, and a batch is of the first kind that is due. -/
  answer : ∃ briefing day, briefingFor zones store scope access policy tz now = .ok (briefing, day) ∧
    ∃ answer, store.nextBatch zones sha scope access now = .ok answer ∧
      ∀ batch, answer = some batch → batch.scope = scope ∧
        batch.kind = (if briefing then .briefing
          else if (store.uncovered scope now).isEmpty then .changes else .reminder)
  /-- Due reminders are answered when no briefing is due. -/
  reminders : ∀ day, briefingFor zones store scope access policy tz now = .ok (false, day) →
    store.uncovered scope now ≠ [] →
      ∃ batch, store.nextBatch zones sha scope access now = .ok (some batch) ∧
        batch.kind = .reminder ∧ FirstEight store scope now batch
  /-- Optional changes come last. -/
  changes : ∀ batch, store.nextBatch zones sha scope access now = .ok (some batch) →
    batch.kind = .changes → store.uncovered scope now = [] ∧
      ∃ day, briefingFor zones store scope access policy tz now = .ok (false, day)

theorem answered (hzones : Complete zones) (h : Ready zones store)
    (he : Eligible zones store scope access policy tz now) :
    Answered zones sha store scope access policy tz now := by
  obtain ⟨destination, target, projects, hnext⟩ : ∃ destination target projects,
      store.nextBatch zones sha scope access now =
        store.selected zones sha scope access policy destination target tz projects now :=
    nextBatch_of_eligible h he
  obtain ⟨profile, hprofile⟩ := preferenceProfile_ok he.authorized
  have hdefault := (validate_hour (h.policies scope.key policy he.configured)).1
  obtain ⟨briefing, day, hbriefing⟩ : ∃ briefing day, store.briefingDue zones tz scope policy
      (profile.effectiveHour policy.briefingHour) now = .ok (briefing, day) :=
    briefingDue_ok hzones tz policy now (effectiveHour_lt h hprofile hdefault)
  have hfor : briefingFor zones store scope access policy tz now = .ok (briefing, day) := by
    unfold briefingFor
    rw [hprofile]
    exact hbriefing
  have hopen : briefing → store.openTasks scope now ≠ [] := by
    intro htrue
    rw [htrue] at hbriefing
    exact openTasks_of_briefing hbriefing
  obtain ⟨changes, hchanges⟩ : ∃ changes, changes =
      if profile.reduceFollowups then ∅ else store.changesOf sha scope now := ⟨_, rfl⟩
  have hsubset : changes ⊆ store.contentRefs scope := by
    rw [hchanges]
    split_ifs
    · exact Finset.empty_subset _
    · exact changesOf_subset now
  have hselected : store.nextBatch zones sha scope access now =
      if !briefing && (store.uncovered scope now).isEmpty && decide (changes = ∅) then .ok none
      else store.assembled zones sha scope policy destination target tz projects now briefing day
        changes >>= fun batch => .ok (some batch) := by
    rw [hnext, hchanges]
    unfold selected
    rw [hprofile]
    show (store.briefingDue zones tz scope policy (profile.effectiveHour policy.briefingHour) now
      >>= _) = _
    rw [hbriefing]
    rfl
  by_cases hquiet : (!briefing && (store.uncovered scope now).isEmpty && decide (changes = ∅))
  · rw [if_pos hquiet] at hselected
    simp only [Bool.and_eq_true, Bool.not_eq_true', List.isEmpty_iff] at hquiet
    constructor
    · exact ⟨briefing, day, hfor, none, hselected, nofun⟩
    · intro _ _ hdue
      exact absurd hquiet.1.2 hdue
    · intro batch hbatch
      rw [hselected] at hbatch
      cases hbatch
  · rw [if_neg hquiet] at hselected
    rw [Bool.not_eq_true] at hquiet
    obtain ⟨batch, hassembled⟩ := @assembled_ok Tz zones sha store scope briefing changes projects
      destination now policy target h tz day hsubset hopen hquiet
    have hmade := assembled_inv hassembled
    have hkind := hmade.kind
    rw [hassembled] at hselected
    have hbatch : store.nextBatch zones sha scope access now = .ok (some batch) := hselected
    constructor
    · refine ⟨briefing, day, hfor, some batch, hbatch, ?_⟩
      intro other hother
      rw [Option.some.injEq] at hother
      rw [← hother]
      exact ⟨hmade.place, hkind⟩
    · intro day' hfor' hdue
      rw [hfor, Except.ok.injEq, Prod.mk.injEq] at hfor'
      obtain ⟨rfl, _⟩ := hfor'
      refine ⟨batch, hbatch, ?_, firstEight_of_assembled h hdue hmade⟩
      rw [hkind, List.isEmpty_eq_false_iff.mpr hdue]
      rfl
    · intro other hother hchangesKind
      rw [hbatch, Except.ok.injEq, Option.some.injEq] at hother
      rw [← hother, hkind] at hchangesKind
      cases briefing with
      | true => cases hchangesKind
      | false =>
        by_cases hempty : (store.uncovered scope now).isEmpty
        · exact ⟨List.isEmpty_iff.mp hempty, day, hfor⟩
        · rw [Bool.not_eq_true] at hempty
          rw [hempty] at hchangesKind
          cases hchangesKind

/-! ## Reservations -/

/-- A batch, however it was answered. -/
theorem assembled_of_nextBatch (h : store.nextBatch zones sha scope access now = .ok (some batch)) :
    ∃ projects briefing changes, projects ≠ [] ∧
      Assembled store scope projects now briefing changes batch := by
  unfold nextBatch at h
  obtain ⟨projects, hprojects, h⟩ := bind_ok_iff.mp h
  split at h
  · cases h
  · obtain ⟨_, _, h⟩ := bind_ok_iff.mp h
    split_ifs at h
    · cases h
    · unfold subscribed at h
      obtain ⟨_, _, h⟩ := bind_ok_iff.mp h
      obtain ⟨destination, _, h⟩ := bind_ok_iff.mp h
      obtain ⟨target, _, h⟩ := bind_ok_iff.mp h
      obtain ⟨tz, _, h⟩ := bind_ok_iff.mp h
      obtain ⟨_, _, h⟩ := bind_ok_iff.mp h
      split_ifs at h
      · cases h
      · unfold selected at h
        obtain ⟨profile, _, h⟩ := bind_ok_iff.mp h
        obtain ⟨⟨briefing, day⟩, _, h⟩ := bind_ok_iff.mp h
        dsimp only at h
        generalize (if profile.reduceFollowups then ∅ else store.changesOf sha scope now) = changes
          at h
        split_ifs at h
        · cases h
        · obtain ⟨made, hassembled, h⟩ := bind_ok_iff.mp h
          rw [Except.ok.injEq, Option.some.injEq] at h
          rw [h] at hassembled
          exact ⟨projects, briefing, changes, (scopeProjects_ok hprojects).2.1,
            assembled_inv hassembled⟩

theorem firstEight_of_nextBatch (h : Ready zones store)
    (hbatch : store.nextBatch zones sha scope access now = .ok (some batch))
    (hkind : batch.kind = .reminder) : batch.scope = scope ∧ FirstEight store scope now batch := by
  obtain ⟨projects, briefing, changes, _, hmade⟩ := assembled_of_nextBatch hbatch
  have hmadeKind := hmade.kind
  rw [hkind] at hmadeKind
  cases briefing with
  | true => cases hmadeKind
  | false =>
    by_cases hempty : (store.uncovered scope now).isEmpty
    · rw [hempty] at hmadeKind
      cases hmadeKind
    · rw [Bool.not_eq_true, isEmpty_eq_false_iff] at hempty
      exact ⟨hmade.place, firstEight_of_assembled h hempty hmade⟩

/-- The reminders of a list that no receipt covers. -/
def remaining (store : WorkStore) (scope : WorkScope) (due : List ReminderCoverage) :
    List ReminderCoverage :=
  due.filter (fun c => !store.covered scope c)

/-- Reminder batches reserved one after the other, while the due reminders
stay the same and outcomes arrive. -/
inductive Reserved (zones : Zones Tz) (sha : Sha256) (scope : WorkScope) (access : WorkAccess)
    (due : List ReminderCoverage) : Nat → WorkStore → WorkStore → Prop where
  | start (store : WorkStore) : Reserved zones sha scope access due 0 store store
  | reserve {k : Nat} {store t u : WorkStore} {batch : WorkBatch} {channel now id : Nat}
      (before : Reserved zones sha scope access due k store t)
      (same : t.dueReminders scope now = due)
      (next : t.nextBatch zones sha scope access now = .ok (some batch))
      (kind : batch.kind = .reminder)
      (reserved : t.reserveResolvedBatch zones sha access batch channel now = .ok (u, id)) :
      Reserved zones sha scope access due (k + 1) store u
  | settle {k : Nat} {store t u : WorkStore} {id : Nat} {message : Option Nat}
      (before : Reserved zones sha scope access due k store t)
      (settled : t.settleDelivery id message = .ok u) :
      Reserved zones sha scope access due k store u

/-- A receipt belongs to a scope. -/
def inScope (store : WorkStore) (scope : WorkScope) (r : WorkDeliveryReceipt) : Bool :=
  match r.scope with
  | some receiptScope => receiptScope = scope
  | none => store.projects[r.projectId]?.any (fun p => p.scope = scope)

theorem covered_iff {c : ReminderCoverage} : store.covered scope c ↔
    ∃ (id : Nat) (r : WorkDeliveryReceipt), store.deliveries[id]? = some r ∧
      inScope store scope r ∧ c ∈ r.coverage := by
  unfold covered receiptsOf
  rw [any_eq_true]
  constructor
  · rintro ⟨r, hr, hc⟩
    obtain ⟨hmem, hscope⟩ := mem_filter.mp hr
    obtain ⟨id, hid⟩ := mem_values.mp hmem
    exact ⟨id, r, hid, hscope, of_decide_eq_true hc⟩
  · rintro ⟨id, r, hid, hscope, hc⟩
    exact ⟨r, mem_filter.mpr ⟨mem_values.mpr ⟨id, hid⟩, hscope⟩, decide_eq_true hc⟩

/-- A reservation covers the reminders of its batch. -/
theorem covered_reserve (h : Ready zones store) (hscope : batch.scope = scope)
    (hop : store.reserveResolvedBatch zones sha access batch channel now = .ok (u, id))
    (c : ReminderCoverage) : u.covered scope c ↔ store.covered scope c ∨ c ∈ batch.coverage := by
  unfold reserveResolvedBatch at hop
  obtain ⟨_, _, hop⟩ := bind_ok_iff.mp hop
  obtain ⟨_, _, hop⟩ := bind_ok_iff.mp hop
  obtain ⟨_, _, hop⟩ := bind_ok_iff.mp hop
  obtain ⟨⟨next, id'⟩, hnext, hop⟩ := bind_ok_iff.mp hop
  dsimp only at hop
  obtain ⟨first, _, hop⟩ := bind_ok_iff.mp hop
  obtain ⟨_, hid, hsame⟩ := h.nextId hnext
  rw [Except.ok.injEq, Prod.mk.injEq] at hop
  have hdeliveries : u.deliveries =
      store.deliveries.insert id' (receiptOf batch id' first.1 channel now) := by
    rw [← hop.1, hsame]
    rfl
  have hprojects : u.projects = store.projects := by
    rw [← hop.1, hsame]
    rfl
  have hinScope : ∀ r, inScope u scope r = inScope store scope r := by
    intro r
    unfold inScope
    rw [hprojects]
  rw [covered_iff, covered_iff]
  constructor
  · rintro ⟨other, r, hr, hin, hc⟩
    rw [hdeliveries, Ready.getElem?_insert_eq] at hr
    by_cases hother : id' = other
    · rw [if_pos hother, Option.some.injEq] at hr
      rw [← hr] at hc
      exact .inr hc
    · rw [if_neg hother] at hr
      exact .inl ⟨other, r, hr, hinScope r ▸ hin, hc⟩
  · rintro (⟨other, r, hr, hin, hc⟩ | hc)
    · refine ⟨other, r, ?_, (hinScope r).trans hin, hc⟩
      have hle := h.deliveries other r hr
      rw [hdeliveries, Ready.getElem?_insert_eq, if_neg (by omega)]
      exact hr
    · refine ⟨id', receiptOf batch id' first.1 channel now, ?_, ?_, hc⟩
      · rw [hdeliveries, Ready.getElem?_insert_eq, if_pos rfl]
      · unfold inScope receiptOf
        exact decide_eq_true hscope

/-- An outcome leaves the coverage of its receipt alone. -/
theorem covered_settle {message : Option Nat} (hop : store.settleDelivery id message = .ok u)
    (c : ReminderCoverage) : u.covered scope c ↔ store.covered scope c := by
  unfold settleDelivery at hop
  obtain ⟨receipt, hreceipt, hop⟩ := bind_ok_iff.mp hop
  obtain ⟨_, _, hop⟩ := bind_ok_iff.mp hop
  dsimp only at hop
  rw [required_eq_ok] at hreceipt
  rw [Except.ok.injEq] at hop
  rw [covered_iff, covered_iff, ← hop]
  dsimp only
  constructor
  · rintro ⟨other, r, hr, hin, hc⟩
    rw [Ready.getElem?_insert_eq] at hr
    by_cases hother : id = other
    · rw [if_pos hother, Option.some.injEq] at hr
      rw [← hr] at hin hc
      exact ⟨id, receipt, hreceipt, hin, hc⟩
    · rw [if_neg hother] at hr
      exact ⟨other, r, hr, hin, hc⟩
  · rintro ⟨other, r, hr, hin, hc⟩
    refine ⟨other, ?_⟩
    rw [Ready.getElem?_insert_eq]
    by_cases hother : id = other
    · rw [← hother, hreceipt, Option.some.injEq] at hr
      rw [← hr] at hin hc
      rw [if_pos hother]
      exact ⟨_, rfl, hin, hc⟩
    · rw [if_neg hother]
      exact ⟨r, hr, hin, hc⟩

/-- One reservation covers eight more reminders, or all that are left. -/
theorem remaining_reserve (h : Ready zones store)
    (hbatch : store.nextBatch zones sha scope access now = .ok (some batch))
    (hkind : batch.kind = .reminder)
    (hop : store.reserveResolvedBatch zones sha access batch channel now = .ok (u, id)) :
    (remaining u scope (store.dueReminders scope now)).length =
      (store.uncovered scope now).length - 8 := by
  obtain ⟨hscope, hfirst⟩ := firstEight_of_nextBatch h hbatch hkind
  have hremaining : remaining u scope (store.dueReminders scope now) =
      (store.uncovered scope now).filter (fun c => !decide (c.taskId ∈ batch.taskIds)) := by
    unfold remaining uncovered
    rw [filter_filter]
    apply filter_congr
    intro c hc
    have hcovered := covered_reserve h hscope hop c
    rw [hfirst.uncovered] at hcovered
    by_cases hold : store.covered scope c
    · have hnew : u.covered scope c := hcovered.mpr (.inl hold)
      rw [hnew, hold, Bool.not_true, Bool.and_false]
    · rw [Bool.not_eq_true] at hold
      have hmem : c ∈ store.uncovered scope now :=
        mem_filter.mpr ⟨hc, by rw [hold]; rfl⟩
      rw [hold, Bool.not_false, Bool.and_true]
      congr 1
      rw [Bool.eq_iff_iff, hcovered, hold, mem_filter]
      simp [hmem]
  have hcount : (store.uncovered scope now).length =
      ((store.uncovered scope now).filter (fun c => decide (c.taskId ∈ batch.taskIds))).length +
      ((store.uncovered scope now).filter (fun c => !decide (c.taskId ∈ batch.taskIds))).length := by
    simpa [countP_eq_length_filter] using
      length_eq_countP_add_countP (fun c : ReminderCoverage => decide (c.taskId ∈ batch.taskIds))
  have hmin := hfirst.count
  rw [hfirst.uncovered] at hmin
  rw [hremaining]
  omega

theorem reserved_ready (h : Ready zones store)
    (hr : Reserved zones sha scope access due k store t) : Ready zones t := by
  induction hr with
  | start => exact h
  | reserve _ _ _ _ reserved ih => exact (ih h).reserveResolvedBatch reserved
  | settle _ settled ih => exact (ih h).settleDelivery settled

/-- Every reservation of a run covers eight more. -/
theorem remaining_of_reserved (h : Ready zones store)
    (hr : Reserved zones sha scope access due k store t) :
    (remaining t scope due).length = (remaining store scope due).length - 8 * k := by
  induction hr with
  | start => rfl
  | @reserve k store t u batch channel now id before same next kind reserved ih =>
    have hone := remaining_reserve (reserved_ready h before) next kind reserved
    have huncovered : t.uncovered scope now = remaining t scope due := by
      rw [← same]
      rfl
    rw [same, huncovered, ih h] at hone
    rw [hone]
    omega
  | @settle k store t u id message before settled ih =>
    rw [← ih h]
    congr 1
    apply filter_congr
    intro c _
    congr 1
    rw [Bool.eq_iff_iff]
    exact covered_settle settled c

/-- What a reachable store promises about deliveries. -/
structure Served (zones : Zones Tz) (sha : Sha256) (store : WorkStore) : Prop where
  /-- Rendering at most eight items never fails for lack of room. -/
  fits : ∀ refs omitted, refs.length ≤ 8 → omitted < 2 ^ 64 →
    store.renderDelivery sha refs omitted ≠ .error .full
  answered : ∀ scope access policy tz now, Eligible zones store scope access policy tz now →
    Answered zones sha store scope access policy tz now
  /-- After `k` reservations all but `8 * k` reminders are covered. -/
  remaining : ∀ scope access due k t, Reserved zones sha scope access due k store t →
    (remaining t scope due).length = (remaining store scope due).length - 8 * k
  /-- As many reservations as there are eights, rounded up, cover everything. -/
  covers : ∀ scope access due k t, Reserved zones sha scope access due k store t →
    ((Work.remaining store scope due).length + 7) / 8 ≤ k →
      ∀ c ∈ due, t.covered scope c = true
  /-- A batch that is answered can be reserved while there is room for a
  receipt and a number. -/
  reservable : ∀ scope access now batch channel next,
    store.nextBatch zones sha scope access now = .ok (some batch) →
      store.deliveries.size < 10000 → store.nextId = .ok next →
        ∃ t, store.reserveResolvedBatch zones sha access batch channel now = .ok (t, next.2)

/-- No due reminder is starved: in every store that operations lead to, an
eligible scope is answered with the first eight reminders, in the order of
their rank, and reservations cover eight reminders each. -/
theorem no_reminder_starves (hzones : Complete zones) (hstore : Reachable zones sha store) :
    Served zones sha store := by
  have h := ready_of_reachable hstore
  constructor
  · intro refs omitted hrefs homitted
    exact renderDelivery_ne_full sha h.typed hrefs homitted
  · intro scope access policy tz now he
    exact answered hzones h he
  · intro scope access due k t hr
    exact remaining_of_reserved h hr
  · intro scope access due k t hr hk c hc
    have hcount := remaining_of_reserved h hr
    have hzero : (Work.remaining t scope due).length = 0 := by omega
    have hnone := filter_eq_nil_iff.mp (length_eq_zero_iff.mp hzero) c hc
    simpa using hnone
  · intro scope access now batch channel next hbatch hroom hnext
    obtain ⟨projects, _, _, hne, hmade⟩ := assembled_of_nextBatch hbatch
    obtain ⟨first, rest, rfl⟩ := exists_cons_of_ne_nil hne
    have hfirst : batch.projectRevisions.head? = some (first.id, first.revision) := by
      rw [hmade.projects]
      rfl
    have hroom' : ensure (decide (store.deliveries.size < 10000)) WorkError.full = .ok () := by
      rw [ensure_eq_ok, decide_eq_true_iff]
      exact hroom
    unfold reserveResolvedBatch
    rw [hmade.place, hbatch, hnext, hfirst]
    simp only [bind, Except.bind, hroom', required_some]
    exact ⟨_, rfl⟩

/-! ### A run -/

theorem complete_sampleZones : Complete sampleZones :=
  fun _ _ => ⟨0, by omega, LocalResult.noConfusion⟩

/-- The length of what is digested, for samples. -/
def lengthSha : Sha256 := fun message => Vector.replicate 32 (UInt8.ofNat message.length)

def sampleTask : WorkTask where
  id := 0
  projectId := 1
  title := "water the plants"
  owner := 0
  assignee := none
  goalId := none
  priority := 2
  status := .opened
  dueAt := some 90000
  remindAt := none
  reminderRevision := 0
  snoozedUntil := none
  source := none
  github := none
  revision := 0

/-- A project, a task with a reminder, and daily briefings at nine in the
evening. -/
def sampleOps : List WorkOp :=
  [.createProject sampleAccess "home" "first",
   .addTask sampleAccess sampleTask "second",
   .setReminder sampleAccess 2 0 (some 40000),
   .updateAutomation String.toNat? sampleAccess ⟨true, none, some "UTC", some 21, none, none, none⟩
     none]

def samplePolicy : WorkAutomationPolicy where
  enabled := true
  deliveryTarget := none
  revision := 1
  destination := some 9
  timezone := "UTC"
  quietStart := 22
  quietEnd := 8
  dailyLimit := 4
  briefingHour := 21

/-- What is checked of the store after the run, at noon. -/
def sampleCheck (store : WorkStore) : Bool :=
  decide (store.scopeAutomation["personal:7"]? = some samplePolicy) &&
    decide (store.scopeAutomationActors["personal:7"]? = some 7) &&
    (store.scopeProjects (.personal 7) sampleAccess true).isOk &&
    decide (store.attempts sampleZones () (.personal 7) 43200 < 4) &&
    (match briefingFor sampleZones store (.personal 7) sampleAccess samplePolicy () 43200 with
      | .ok (false, 0) => true
      | _ => false) &&
    decide (store.uncovered (.personal 7) 43200 = [⟨2, 1, 40000⟩])

theorem no_reminder_starves_sample : ∃ store, Served sampleZones lengthSha store ∧
    ∃ batch, store.nextBatch sampleZones lengthSha (.personal 7) sampleAccess 43200 =
      .ok (some batch) ∧ batch.kind = .reminder ∧ batch.coverage = [⟨2, 1, 40000⟩] := by
  have hrun : (run (fun store (op : WorkOp) => some (op.perform sampleZones lengthSha store))
      empty sampleOps).any sampleCheck = true := by
    decide +kernel
  obtain ⟨store, hstore, hcheck⟩ := (Option.any_eq_true _ _).mp hrun
  have hreachable : Reachable sampleZones lengthSha store := by
    refine steps_of_run_of_forall ?_ hstore
    intro op hop s
    simp only [sampleOps, mem_cons, not_mem_nil, or_false] at hop
    rcases hop with rfl | rfl | rfl | rfl
    · trivial
    · intro due hdue
      cases hdue
      omega
    · trivial
    · trivial
  have hserved := no_reminder_starves complete_sampleZones hreachable
  unfold sampleCheck at hcheck
  simp only [Bool.and_eq_true, decide_eq_true_eq] at hcheck
  obtain ⟨⟨⟨⟨⟨hpolicy, hactor⟩, hprojects⟩, hquota⟩, hbriefing⟩, huncovered⟩ := hcheck
  have hkey : (WorkScope.personal 7).key = "personal:7" := by decide
  have he : Eligible sampleZones store (.personal 7) sampleAccess samplePolicy () 43200 :=
    ⟨by rw [hkey]; exact hpolicy, rfl, by rw [hkey]; exact hactor, hprojects, by decide, by decide,
      by decide, by decide, hquota⟩
  have hnone : briefingFor sampleZones store (.personal 7) sampleAccess samplePolicy () 43200 =
      .ok (false, 0) := by
    split at hbriefing
    · rename_i h
      exact h
    · cases hbriefing
  obtain ⟨batch, hbatch, hkind, hfirst⟩ := (hserved.answered _ _ _ _ _ he).reminders 0 hnone
    (by rw [huncovered]; exact cons_ne_nil _ _)
  refine ⟨store, hserved, batch, hbatch, hkind, ?_⟩
  have hcount := hfirst.count
  have hcoverage := hfirst.uncovered
  rw [huncovered] at hcount hcoverage
  rw [hcoverage] at hcount ⊢
  exact (filter_sublist).eq_of_length hcount

/-! ## The rows of a store -/

end Abbey.Work
