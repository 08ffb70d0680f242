import Abbey.Lib.Maps
import Abbey.Lib.System
import Abbey.Work.Schedule
import Abbey.Work.Learning

/-!
# What every operation keeps

`Ready` is the invariant of a store that its operations keep: records stand
under their own positive number, no number is used twice, every number is one
that the sequence has given, policies and hours have passed their checks.
`ready_perform` is the step and `ready_of_reachable` the run.
-/

namespace Abbey.Work

open Abbey.Lib WorkPreferenceProfile Option Except
open Abbey.Conversation (Sha256)

variable {Tz : Type} {zones : Zones Tz} {sha : Sha256}
variable {projectId revision : Nat} {requestId : String} {access : WorkAccess} {batch : WorkBatch}
  {task : WorkTask}

structure Ready (zones : Zones Tz) (store : WorkStore) : Prop where
  tasks : ∀ (id : Nat) (t : WorkTask), store.tasks[id]? = some t →
    t.id = id ∧ t.Typed ∧ 0 < id ∧ 0 < t.projectId ∧ id ≤ store.sequence
  decisions : ∀ (id : Nat) (d : WorkDecision), store.decisions[id]? = some d →
    d.id = id ∧ 0 < id ∧ 0 < d.projectId ∧ id ≤ store.sequence
  apart : ∀ (id : Nat) (t : WorkTask) (d : WorkDecision), store.tasks[id]? = some t →
    store.decisions[id]? = some d → False
  projects : ∀ (id : Nat) (p : WorkProject), store.projects[id]? = some p →
    p.id = id ∧ 0 < id ∧ id ≤ store.sequence
  deliveries : ∀ (id : Nat) (r : WorkDeliveryReceipt), store.deliveries[id]? = some r →
    id ≤ store.sequence
  sequence : store.sequence < 2 ^ 64
  policies : ∀ (key : String) (p : WorkAutomationPolicy), store.scopeAutomation[key]? = some p →
    p.validate zones = .ok ()
  hours : ∀ (key : String) (p : WorkPreferenceProfile), store.preferences[key]? = some p →
    ∀ hour, p.explicitHour = some hour → hour < 24

namespace Ready

variable {store store' : WorkStore}

theorem empty : Ready zones WorkStore.empty := by
  constructor
  all_goals simp [WorkStore.empty]

theorem same (h : Ready zones store) (htasks : store'.tasks = store.tasks)
    (hdecisions : store'.decisions = store.decisions) (hprojects : store'.projects = store.projects)
    (hdeliveries : store'.deliveries = store.deliveries) (hsequence : store'.sequence = store.sequence)
    (hpolicies : store'.scopeAutomation = store.scopeAutomation)
    (hpreferences : store'.preferences = store.preferences) : Ready zones store' := by
  obtain ⟨h1, h2, h3, h4, h5, h6, h7, h8⟩ := h
  constructor
  · rwa [htasks, hsequence]
  · rwa [hdecisions, hsequence]
  · rwa [htasks, hdecisions]
  · rwa [hprojects, hsequence]
  · rwa [hdeliveries, hsequence]
  · rwa [hsequence]
  · rwa [hpolicies]
  · rwa [hpreferences]

theorem typed (h : Ready zones store) : store.Typed := by
  refine ⟨fun id t ht => ⟨(h.tasks id t ht).1, (h.tasks id t ht).2.1⟩, ?_⟩
  intro id d hd
  obtain ⟨hid, _, _, hle⟩ := h.decisions id d hd
  have hsequence := h.sequence
  exact ⟨hid, by omega⟩

theorem getElem?_insert_eq {α β : Type} [Ord α] [Std.TransOrd α] [Std.LawfulEqOrd α] [DecidableEq α]
    (t : BTreeMap α β) (k a : α) (v : β) :
    (t.insert k v)[a]? = if k = a then some v else t[a]? := by
  rw [Std.ExtTreeMap.getElem?_insert]
  simp only [Std.LawfulEqCmp.compare_eq_iff_eq]

variable {id : Nat}

section

variable (h : Ready zones store)

include h

/-- The next number of the sequence. -/
theorem nextId (hnext : store.nextId = .ok (store', id)) :
    Ready zones store' ∧ id = store.sequence + 1 ∧
      store' = { store with sequence := store.sequence + 1 } := by
  unfold WorkStore.nextId at hnext
  obtain ⟨_, _, hnext⟩ := bind_ok_iff.mp hnext
  obtain ⟨_, hroom, hnext⟩ := bind_ok_iff.mp hnext
  rw [ensure_eq_ok, decide_eq_true_iff] at hroom
  rw [ok.injEq, Prod.mk.injEq] at hnext
  refine ⟨?_, hnext.2.symm, hnext.1.symm⟩
  rw [← hnext.1]
  refine ⟨?_, ?_, h.apart, ?_, ?_, hroom, h.policies, h.hours⟩
  · intro id t ht
    obtain ⟨hid, htyped, hpos, hproject, hle⟩ := h.tasks id t ht
    exact ⟨hid, htyped, hpos, hproject, Nat.le_succ_of_le hle⟩
  · intro id d hd
    obtain ⟨hid, hpos, hproject, hle⟩ := h.decisions id d hd
    exact ⟨hid, hpos, hproject, Nat.le_succ_of_le hle⟩
  · intro id p hp
    obtain ⟨hid, hpos, hle⟩ := h.projects id p hp
    exact ⟨hid, hpos, Nat.le_succ_of_le hle⟩
  · intro id r hr
    exact Nat.le_succ_of_le (h.deliveries id r hr)

/-! ## One record -/

theorem insertTask (hid : t.id = id)
    (htyped : t.Typed) (hpos : 0 < id) (hproject : 0 < t.projectId) (hle : id ≤ store.sequence)
    (happart : store.decisions[id]? = none) :
    Ready zones { store with tasks := store.tasks.insert id t } := by
  refine ⟨?_, h.decisions, ?_, h.projects, h.deliveries, h.sequence, h.policies, h.hours⟩
  · intro other u hu
    rw [getElem?_insert_eq] at hu
    by_cases hother : id = other
    · rw [if_pos hother, some.injEq] at hu
      rw [← hu, ← hother]
      exact ⟨hid, htyped, hpos, hproject, hle⟩
    · rw [if_neg hother] at hu
      exact h.tasks other u hu
  · intro other u d hu hd
    rw [getElem?_insert_eq] at hu
    by_cases hother : id = other
    · rw [← hother, happart] at hd
      cases hd
    · rw [if_neg hother] at hu
      exact h.apart other u d hu hd

/-- A change of a task that keeps its number and its project. -/
theorem changeTask
    (ht : store.tasks[id]? = some t) (hid : u.id = t.id) (hproject : u.projectId = t.projectId)
    (hpriority : u.priority = t.priority) (hdue : u.dueAt = t.dueAt) (hrevision : u.revision < 2 ^ 64) :
    Ready zones { store with tasks := store.tasks.insert id u } := by
  obtain ⟨hkey, htyped, hpos, hprojectPos, hle⟩ := h.tasks id t ht
  refine h.insertTask (hid.trans hkey) ⟨?_, hrevision, ?_, ?_⟩ hpos (hproject ▸ hprojectPos) hle ?_
  · rw [hid]
    exact htyped.id
  · rw [hpriority]
    exact htyped.priority
  · rw [hdue]
    exact htyped.dueAt
  · cases hd : store.decisions[id]? with
    | none => rfl
    | some d => exact absurd (h.apart id t d ht hd) not_false

theorem insertProject (hid : p.id = id) (hpos : 0 < id) (hle : id ≤ store.sequence) :
    Ready zones { store with projects := store.projects.insert id p } := by
  refine ⟨h.tasks, h.decisions, h.apart, ?_, h.deliveries, h.sequence, h.policies, h.hours⟩
  intro other q hq
  rw [getElem?_insert_eq] at hq
  by_cases hother : id = other
  · rw [if_pos hother, some.injEq] at hq
    rw [← hq, ← hother]
    exact ⟨hid, hpos, hle⟩
  · rw [if_neg hother] at hq
    exact h.projects other q hq

theorem insertDelivery (hle : id ≤ store.sequence) (r : WorkDeliveryReceipt) :
    Ready zones { store with deliveries := store.deliveries.insert id r } := by
  refine ⟨h.tasks, h.decisions, h.apart, h.projects, ?_, h.sequence, h.policies, h.hours⟩
  intro other q hq
  rw [getElem?_insert_eq] at hq
  by_cases hother : id = other
  · rw [← hother]
    exact hle
  · rw [if_neg hother] at hq
    exact h.deliveries other q hq

theorem setProfile (hhour : ∀ hour, p.explicitHour = some hour → hour < 24) :
    Ready zones (store.setProfile key p) := by
  refine ⟨h.tasks, h.decisions, h.apart, h.projects, h.deliveries, h.sequence, h.policies, ?_⟩
  intro other q hq
  unfold WorkStore.setProfile at hq
  rw [getElem?_insert_eq] at hq
  by_cases hother : key = other
  · rw [if_pos hother, some.injEq] at hq
    rw [← hq]
    exact hhour
  · rw [if_neg hother] at hq
    exact h.hours other q hq

/-- The hour of a profile that may be missing. -/
theorem hour_of_profile (key : String)
    (hhour : (store.profile key).explicitHour = some hour) : hour < 24 := by
  unfold WorkStore.profile at hhour
  cases hp : store.preferences[key]? with
  | none =>
    rw [hp] at hhour
    cases hhour
  | some p =>
    rw [hp] at hhour
    exact h.hours key p hp hour hhour

/-! ## Registry -/

theorem createProject
    (hop : store.createProject access name requestId = .ok (store', id)) : Ready zones store' := by
  unfold WorkStore.createProject at hop
  obtain ⟨_, _, hop⟩ := bind_ok_iff.mp hop
  obtain ⟨_, _, hop⟩ := bind_ok_iff.mp hop
  obtain ⟨_, _, hop⟩ := bind_ok_iff.mp hop
  obtain ⟨_, _, hop⟩ := bind_ok_iff.mp hop
  dsimp only at hop
  split at hop
  · cases hop
    exact h
  · obtain ⟨⟨next, id'⟩, hnext, hop⟩ := bind_ok_iff.mp hop
    obtain ⟨hready, hid, hsame⟩ := h.nextId hnext
    have hle : id' ≤ next.sequence := by
      rw [hsame, hid]
    rw [ok.injEq, Prod.mk.injEq] at hop
    rw [← hop.1]
    have hpos : 0 < id' := by omega
    exact (hready.insertProject (p := {
      id := id'
      name := Conversation.trim name
      scope := access.scope
      managers := {access.actor}
      members := {access.actor}
      revision := 0
      allowedGithubRepositories := ∅ }) rfl hpos hle).same rfl rfl rfl rfl rfl rfl rfl

theorem setMember (projectId : Nat) (access : WorkAccess) (user : Nat)
    (present : Bool) : Ready zones (store.setMember projectId access user present).1 := by
  unfold WorkStore.setMember
  dsimp only
  split
  · exact h
  · rename_i project hchecked
    obtain ⟨found, hfound, hchecked⟩ := bind_ok_iff.mp hchecked
    obtain ⟨_, _, hchecked⟩ := bind_ok_iff.mp hchecked
    obtain ⟨_, _, hchecked⟩ := bind_ok_iff.mp hchecked
    rw [required_eq_ok] at hfound
    rw [ok.injEq] at hchecked
    rw [hchecked] at hfound
    obtain ⟨hid, hpos, hle⟩ := h.projects projectId project hfound
    exact h.insertProject hid hpos hle

theorem addGoal (hop : store.addGoal projectId access title requestId = .ok (store', id)) :
    Ready zones store' := by
  unfold WorkStore.addGoal at hop
  obtain ⟨_, _, hop⟩ := bind_ok_iff.mp hop
  obtain ⟨_, _, hop⟩ := bind_ok_iff.mp hop
  obtain ⟨_, _, hop⟩ := bind_ok_iff.mp hop
  dsimp only at hop
  split at hop
  · cases hop
    exact h
  · obtain ⟨⟨next, id'⟩, hnext, hop⟩ := bind_ok_iff.mp hop
    obtain ⟨hready, _, _⟩ := h.nextId hnext
    rw [ok.injEq, Prod.mk.injEq] at hop
    rw [← hop.1]
    exact hready.same rfl rfl rfl rfl rfl rfl rfl

/-- A project that a caller sees has a positive number. -/
theorem pos_of_project
    (hproject : store.project projectId access = .ok project) : 0 < projectId := by
  unfold WorkStore.project at hproject
  obtain ⟨found, hfound, _⟩ := bind_ok_iff.mp hproject
  rw [required_eq_ok] at hfound
  exact (h.projects projectId found hfound).2.1

theorem addTask (hdue : ∀ due, task.dueAt = some due → due < 2 ^ 64)
    (hop : store.addTask access task requestId = .ok (store', id)) : Ready zones store' := by
  unfold WorkStore.addTask at hop
  obtain ⟨project, hproject, hop⟩ := bind_ok_iff.mp hop
  obtain ⟨_, _, hop⟩ := bind_ok_iff.mp hop
  obtain ⟨_, hcheck, hop⟩ := bind_ok_iff.mp hop
  obtain ⟨_, _, hop⟩ := bind_ok_iff.mp hop
  dsimp only at hop
  have hpriority : task.priority ≤ 3 := by
    unfold WorkStore.checkTask at hcheck
    rw [ensure_eq_ok] at hcheck
    simp only [Bool.and_eq_true, decide_eq_true_eq] at hcheck
    exact hcheck.1.1.1.1
  split at hop
  · cases hop
    exact h
  · obtain ⟨⟨next, id'⟩, hnext, hop⟩ := bind_ok_iff.mp hop
    obtain ⟨hready, hid, hsame⟩ := h.nextId hnext
    have hle : id' ≤ next.sequence := by
      rw [hsame, hid]
    have hbound := hready.sequence
    have happart : next.decisions[id']? = none := by
      cases hd : next.decisions[id']? with
      | none => rfl
      | some d =>
        rw [hsame] at hd
        have hold := (h.decisions id' d hd).2.2.2
        omega
    have hpos : 0 < id' := by omega
    rw [ok.injEq, Prod.mk.injEq] at hop
    rw [← hop.1]
    refine (hready.insertTask (t := { task with
      id := id'
      github := task.github.map (fun reference =>
        { reference with repository := reference.repository.canonical })
      owner := access.actor
      revision := 0 }) rfl ⟨?_, ?_, ?_, hdue⟩ hpos (h.pos_of_project hproject) hle
      happart).same rfl rfl rfl rfl rfl rfl rfl
    · show id' < 2 ^ 64
      omega
    · show 0 < 2 ^ 64
      omega
    · show task.priority < 2 ^ 8
      omega

end

theorem editable_ok (h : store.editable access id revision = .ok task) :
    store.tasks[id]? = some task ∧ task.revision = revision := by
  unfold WorkStore.editable at h
  obtain ⟨found, hfound, h⟩ := bind_ok_iff.mp h
  obtain ⟨_, _, h⟩ := bind_ok_iff.mp h
  obtain ⟨_, hrevision, h⟩ := bind_ok_iff.mp h
  rw [required_eq_ok] at hfound
  rw [ensure_eq_ok, decide_eq_true_iff] at hrevision
  rw [ok.injEq] at h
  rw [← h]
  exact ⟨hfound, hrevision⟩

theorem updateTask (h : Ready zones store)
    (hop : store.updateTask access id revision status snoozedUntil = .ok (store', next)) :
    Ready zones store' := by
  unfold WorkStore.updateTask at hop
  obtain ⟨task, htask, hop⟩ := bind_ok_iff.mp hop
  obtain ⟨_, hroom, hop⟩ := bind_ok_iff.mp hop
  rw [ensure_eq_ok, decide_eq_true_iff] at hroom
  rw [ok.injEq, Prod.mk.injEq] at hop
  rw [← hop.1]
  exact h.changeTask (editable_ok htask).1 rfl rfl rfl rfl hroom

theorem recordDecision (h : Ready zones store)
    (hop : store.recordDecision projectId access text at_ requestId = .ok (store', id)) :
    Ready zones store' := by
  unfold WorkStore.recordDecision at hop
  obtain ⟨project, hproject, hop⟩ := bind_ok_iff.mp hop
  obtain ⟨_, _, hop⟩ := bind_ok_iff.mp hop
  obtain ⟨_, _, hop⟩ := bind_ok_iff.mp hop
  dsimp only at hop
  split at hop
  · cases hop
    exact h
  · obtain ⟨⟨next, id'⟩, hnext, hop⟩ := bind_ok_iff.mp hop
    obtain ⟨hready, hid, hsame⟩ := h.nextId hnext
    have hle : id' ≤ next.sequence := by
      rw [hsame, hid]
    have hprojectPos := h.pos_of_project hproject
    rw [ok.injEq, Prod.mk.injEq] at hop
    rw [← hop.1]
    refine ⟨hready.tasks, ?_, ?_, hready.projects, hready.deliveries, hready.sequence,
      hready.policies, hready.hours⟩
    · intro other d hd
      rw [getElem?_insert_eq] at hd
      by_cases hother : id' = other
      · rw [if_pos hother, some.injEq] at hd
        rw [← hd, ← hother]
        exact ⟨rfl, by omega, hprojectPos, hle⟩
      · rw [if_neg hother] at hd
        exact hready.decisions other d hd
    · intro other t d ht hd
      rw [getElem?_insert_eq] at hd
      by_cases hother : id' = other
      · rw [hsame, ← hother] at ht
        have hold := (h.tasks id' t ht).2.2.2.2
        omega
      · rw [if_neg hother] at hd
        exact hready.apart other t d ht hd

theorem linkGithub (h : Ready zones store)
    (hop : store.linkGithub taskId revision access reference = .ok store') :
    Ready zones store' := by
  unfold WorkStore.linkGithub at hop
  obtain ⟨_, _, hop⟩ := bind_ok_iff.mp hop
  obtain ⟨task, htask, hop⟩ := bind_ok_iff.mp hop
  obtain ⟨_, _, hop⟩ := bind_ok_iff.mp hop
  obtain ⟨_, _, hop⟩ := bind_ok_iff.mp hop
  obtain ⟨_, _, hop⟩ := bind_ok_iff.mp hop
  obtain ⟨_, hroom, hop⟩ := bind_ok_iff.mp hop
  rw [required_eq_ok] at htask
  rw [ensure_eq_ok, decide_eq_true_iff] at hroom
  rw [ok.injEq] at hop
  rw [← hop]
  exact h.changeTask htask rfl rfl rfl rfl hroom

theorem allowGithubRepository (h : Ready zones store)
    (hop : store.allowGithubRepository projectId access repository allowed = .ok store') :
    Ready zones store' := by
  unfold WorkStore.allowGithubRepository at hop
  obtain ⟨_, _, hop⟩ := bind_ok_iff.mp hop
  dsimp only at hop
  obtain ⟨project, hproject, hop⟩ := bind_ok_iff.mp hop
  obtain ⟨_, _, hop⟩ := bind_ok_iff.mp hop
  obtain ⟨_, _, hop⟩ := bind_ok_iff.mp hop
  rw [required_eq_ok] at hproject
  rw [ok.injEq] at hop
  obtain ⟨hid, hpos, hle⟩ := h.projects projectId project hproject
  rw [← hop]
  exact h.insertProject hid hpos hle

theorem foldl_insertTask {β : Type} (task : β → WorkTask) {changes : List β} (h : Ready zones store)
    (hgood : ∀ c ∈ changes, (task c).Typed ∧ 0 < (task c).id ∧ 0 < (task c).projectId ∧
      (task c).id ≤ store.sequence ∧ store.decisions[(task c).id]? = none) :
    Ready zones { store with
      tasks := changes.foldl (fun tasks c => tasks.insert (task c).id (task c)) store.tasks } := by
  induction changes generalizing store with
  | nil => exact h
  | cons c changes ih =>
    obtain ⟨htyped, hpos, hproject, hle, happart⟩ := hgood c List.mem_cons_self
    exact ih (h.insertTask rfl htyped hpos hproject hle happart)
      (fun d hd => hgood d (List.mem_cons_of_mem c hd))

section

variable (h : Ready zones store)

include h

theorem migrateGithubSources {parse : String → Finset GitHubRepository → Option GitHubReference}
    (hop : store.migrateGithubSources parse projectId access = .ok (store', count)) :
    Ready zones store' := by
  unfold WorkStore.migrateGithubSources at hop
  obtain ⟨project, _, hop⟩ := bind_ok_iff.mp hop
  obtain ⟨_, _, hop⟩ := bind_ok_iff.mp hop
  dsimp only at hop
  obtain ⟨_, hroom, hop⟩ := bind_ok_iff.mp hop
  rw [ok.injEq, Prod.mk.injEq] at hop
  rw [← hop.1]
  rw [ensure_eq_ok, List.all_eq_true] at hroom
  refine h.foldl_insertTask (fun c : WorkTask × GitHubReference =>
    { c.1 with github := some c.2, revision := c.1.revision + 1 }) ?_
  intro c hc
  have hrevision := hroom c hc
  rw [decide_eq_true_iff] at hrevision
  obtain ⟨t, ht, hsome⟩ := List.mem_filterMap.mp hc
  obtain ⟨reference, _, rfl⟩ := map_eq_some_iff.mp hsome
  obtain ⟨id, hid⟩ := mem_values.mp (List.mem_filter.mp ht).1
  obtain ⟨hkey, htyped, hpos, hproject, hle⟩ := h.tasks id t hid
  refine ⟨⟨htyped.id, hrevision, htyped.priority, htyped.dueAt⟩, ?_, hproject, ?_, ?_⟩
  · show 0 < t.id
    omega
  · show t.id ≤ store.sequence
    omega
  · show store.decisions[t.id]? = none
    cases hd : store.decisions[t.id]? with
    | none => rfl
    | some d => exact absurd (h.apart id t d hid (hkey ▸ hd)) not_false

/-! ## Schedule -/

theorem setReminder (hop : store.setReminder zones access id revision remindAt = .ok store') :
    Ready zones store' := by
  unfold WorkStore.setReminder at hop
  obtain ⟨task, htask, hop⟩ := bind_ok_iff.mp hop
  obtain ⟨_, _, hop⟩ := bind_ok_iff.mp hop
  split_ifs at hop
  · cases hop
    exact h
  · obtain ⟨_, hroom, hop⟩ := bind_ok_iff.mp hop
    rw [ensure_eq_ok, Bool.and_eq_true, decide_eq_true_iff] at hroom
    rw [ok.injEq] at hop
    rw [← hop]
    exact h.changeTask (editable_ok htask).1 rfl rfl rfl rfl hroom.1

theorem snoozeTask
    (hop : store.snoozeTask zones access id revision until_ = .ok store') : Ready zones store' := by
  unfold WorkStore.snoozeTask at hop
  obtain ⟨_, _, hop⟩ := bind_ok_iff.mp hop
  obtain ⟨task, htask, hop⟩ := bind_ok_iff.mp hop
  dsimp only at hop
  obtain ⟨_, _, hop⟩ := bind_ok_iff.mp hop
  obtain ⟨⟨next, revision'⟩, hupdate, hop⟩ := bind_ok_iff.mp hop
  dsimp only at hop
  have hnext := h.updateTask hupdate
  split_ifs at hop
  · exact hnext.setReminder hop
  · cases hop
    exact hnext

theorem seedChanges (sha : Sha256) (scope : WorkScope) :
    Ready zones (store.seedChanges sha scope) := h.same rfl rfl rfl rfl rfl rfl rfl

theorem seedLoaded (sha : Sha256) : Ready zones (store.seedLoaded sha) := by
  unfold WorkStore.seedLoaded
  generalize store.projects.values.map WorkProject.scope = scopes
  induction scopes generalizing store with
  | nil => exact h
  | cons scope scopes ih =>
    rw [List.foldl_cons]
    apply ih
    split_ifs
    · exact h.seedChanges sha scope
    · exact h

theorem insertPolicy (hp : p.validate zones = .ok ()) :
    Ready zones { store with scopeAutomation := store.scopeAutomation.insert key p } := by
  refine ⟨h.tasks, h.decisions, h.apart, h.projects, h.deliveries, h.sequence, ?_, h.hours⟩
  intro other q hq
  rw [getElem?_insert_eq] at hq
  by_cases hother : key = other
  · rw [if_pos hother, some.injEq] at hq
    rw [← hq]
    exact hp
  · rw [if_neg hother] at hq
    exact h.policies other q hq

theorem configureAutomation
    (hop : store.configureAutomation zones sha scope access policy = .ok store') :
    Ready zones store' := by
  unfold WorkStore.configureAutomation at hop
  obtain ⟨_, _, hop⟩ := bind_ok_iff.mp hop
  obtain ⟨_, hvalid, hop⟩ := bind_ok_iff.mp hop
  obtain ⟨_, _, hop⟩ := bind_ok_iff.mp hop
  dsimp only at hop
  obtain ⟨_, _, hop⟩ := bind_ok_iff.mp hop
  rw [ok.injEq] at hop
  rw [← hop]
  -- seeding and the actors of policies leave the rest of the store alone
  split_ifs
  all_goals
    refine ((h.seedChanges sha scope).insertPolicy ?_).same rfl rfl rfl rfl rfl rfl rfl
    exact hvalid

theorem controlPreferences {explicitHour : Option (Option Nat)}
    {reset : Bool} (hop : store.controlPreferences access enabled explicitHour reset = .ok store') :
    Ready zones store' := by
  unfold WorkStore.controlPreferences at hop
  obtain ⟨_, _, hop⟩ := bind_ok_iff.mp hop
  obtain ⟨_, hvalid, hop⟩ := bind_ok_iff.mp hop
  rw [ensure_eq_ok, all_eq_true] at hvalid
  rw [ok.injEq] at hop
  rw [← hop]
  apply h.setProfile
  intro hour hhour
  have hexplicit : explicitHour.getD (store.profile access.scope.key).explicitHour = some hour := by
    rw [← hhour]
    unfold WorkPreferenceProfile.control
    dsimp only
    rw [explicitHour_recompute]
    cases reset with
    | true =>
      simp only [if_true]
      unfold reset
      rw [explicitHour_recompute]
      rfl
    | false => rfl
  cases explicitHour with
  | none => exact h.hour_of_profile _ hexplicit
  | some chosen =>
    rw [getD_some] at hexplicit
    have hlt := hvalid hour (by rw [hexplicit]; rfl)
    exact of_decide_eq_true hlt

theorem updateAutomation (sha : Sha256)
    (access : WorkAccess) (update : WorkAutomationUpdate) (configuredOwner : Option String) :
    Ready zones (store.updateAutomation zones sha parse access update configuredOwner).1 := by
  unfold WorkStore.updateAutomation
  cases hpolicy : (store.updatedPolicy parse access update configuredOwner).bind
      (store.configureAutomation zones sha access.scope access) with
  | error e => exact h
  | ok configured =>
    obtain ⟨policy, _, hconfigured⟩ := bind_ok_iff.mp hpolicy
    have hready := h.configureAutomation hconfigured
    dsimp only
    cases update.briefingHour with
    | none => exact hready
    | some hour =>
      dsimp only
      cases hcontrol : configured.controlPreferences access none (some (some hour)) false with
      | error e => exact hready
      | ok controlled => exact hready.controlPreferences hcontrol

end

theorem explicitHour_feedback (p : WorkPreferenceProfile) (access : WorkAccess)
    (kind : Option WorkDeliveryKind) (deliveryId : Nat) (given : Option WorkFeedback)
    (isCorrection : Bool) (now : Nat) :
    (p.feedback access kind deliveryId given isCorrection now).1.explicitHour = p.explicitHour := by
  unfold feedback
  cases isCorrection with
  | true =>
    simp only [if_true]
    cases p.ownIndex deliveryId access.actor with
    | none => rfl
    | some index => exact explicitHour_recompute _
  | false =>
    simp only [Bool.false_eq_true, if_false]
    cases given with
    | none => rfl
    | some given =>
      dsimp only
      split
      · rfl
      · rename_i q hobserve
        rw [explicitHour_recompute]
        unfold observe at hobserve
        obtain ⟨_, _, hobserve⟩ := bind_ok_iff.mp hobserve
        dsimp only at hobserve
        split_ifs at hobserve
        all_goals rw [ok.injEq] at hobserve
        · rw [← hobserve]
          rfl
        · rw [← hobserve]
          rfl
        all_goals
          rw [← hobserve, explicitHour_recompute]
          rfl

section

variable (h : Ready zones store) {now id : Nat}

include h

theorem feedback (access : WorkAccess) (deliveryId : Nat)
    (given : Option WorkFeedback) (isCorrection : Bool) (now : Nat) :
    Ready zones (store.feedback access deliveryId given isCorrection now).1 := by
  unfold WorkStore.feedback
  cases store.checkFeedback access deliveryId given now with
  | error e => exact h
  | ok kind =>
    apply h.setProfile
    intro hour hhour
    rw [explicitHour_feedback] at hhour
    exact h.hour_of_profile _ hhour

theorem reserveResolvedBatch
    (hop : store.reserveResolvedBatch zones sha access batch channel now = .ok (store', id)) :
    Ready zones store' := by
  unfold WorkStore.reserveResolvedBatch at hop
  obtain ⟨_, _, hop⟩ := bind_ok_iff.mp hop
  obtain ⟨_, _, hop⟩ := bind_ok_iff.mp hop
  obtain ⟨_, _, hop⟩ := bind_ok_iff.mp hop
  obtain ⟨⟨next, id'⟩, hnext, hop⟩ := bind_ok_iff.mp hop
  dsimp only at hop
  obtain ⟨first, _, hop⟩ := bind_ok_iff.mp hop
  obtain ⟨hready, hid, hsame⟩ := h.nextId hnext
  have hle : id' ≤ next.sequence := by
    rw [hsame, hid]
  rw [ok.injEq, Prod.mk.injEq] at hop
  rw [← hop.1]
  exact (hready.insertDelivery hle (WorkStore.receiptOf batch id' first.1 channel now)).same
    rfl rfl rfl rfl rfl rfl rfl

theorem reserveBatch (hop : store.reserveBatch zones sha access batch now = .ok (store', id)) :
    Ready zones store' := by
  unfold WorkStore.reserveBatch at hop
  obtain ⟨_, _, hop⟩ := bind_ok_iff.mp hop
  exact h.reserveResolvedBatch hop

theorem reservePrivateBatch
    (hop : store.reservePrivateBatch zones sha access batch dmChannel now = .ok (store', id)) :
    Ready zones store' := by
  unfold WorkStore.reservePrivateBatch at hop
  obtain ⟨_, _, hop⟩ := bind_ok_iff.mp hop
  exact h.reserveResolvedBatch hop

theorem settleDelivery
    (hop : store.settleDelivery id message = .ok store') : Ready zones store' := by
  unfold WorkStore.settleDelivery at hop
  obtain ⟨receipt, hreceipt, hop⟩ := bind_ok_iff.mp hop
  obtain ⟨_, _, hop⟩ := bind_ok_iff.mp hop
  dsimp only at hop
  rw [required_eq_ok] at hreceipt
  rw [ok.injEq] at hop
  rw [← hop]
  exact h.insertDelivery (h.deliveries id receipt hreceipt) _

theorem markInterruptedDeliveries : Ready zones store.markInterruptedDeliveries := by
  refine ⟨h.tasks, h.decisions, h.apart, h.projects, ?_, h.sequence, h.policies, h.hours⟩
  intro id r hr
  unfold WorkStore.markInterruptedDeliveries at hr
  dsimp only at hr
  rw [Std.ExtTreeMap.getElem?_map, map_eq_some_iff] at hr
  obtain ⟨receipt, hreceipt, _⟩ := hr
  exact h.deliveries id receipt hreceipt

end

end Ready

/-! ## Runs -/

/-- The operations of a store. -/
inductive WorkOp where
  | createProject (access : WorkAccess) (name requestId : String)
  | setMember (projectId : Nat) (access : WorkAccess) (user : Nat) (present : Bool)
  | addGoal (projectId : Nat) (access : WorkAccess) (title requestId : String)
  | addTask (access : WorkAccess) (task : WorkTask) (requestId : String)
  | updateTask (access : WorkAccess) (id revision : Nat) (status : WorkStatus)
      (snoozedUntil : Option Nat)
  | recordDecision (projectId : Nat) (access : WorkAccess) (text : String) (at_ : Nat)
      (requestId : String)
  | linkGithub (taskId revision : Nat) (access : WorkAccess) (reference : GitHubReference)
  | allowGithubRepository (projectId : Nat) (access : WorkAccess) (repository : GitHubRepository)
      (allowed : Bool)
  | migrateGithubSources (parse : String → Finset GitHubRepository → Option GitHubReference)
      (projectId : Nat) (access : WorkAccess)
  | setReminder (access : WorkAccess) (id revision : Nat) (remindAt : Option Nat)
  | snoozeTask (access : WorkAccess) (id revision until_ : Nat)
  | configureAutomation (scope : WorkScope) (access : WorkAccess) (policy : WorkAutomationPolicy)
  | updateAutomation (parse : ParseU64) (access : WorkAccess) (update : WorkAutomationUpdate)
      (configuredOwner : Option String)
  | controlPreferences (access : WorkAccess) (enabled : Option Bool)
      (explicitHour : Option (Option Nat)) (reset : Bool)
  | feedback (access : WorkAccess) (deliveryId : Nat) (given : Option WorkFeedback)
      (isCorrection : Bool) (now : Nat)
  | reserveBatch (access : WorkAccess) (batch : WorkBatch) (now : Nat)
  | reservePrivateBatch (access : WorkAccess) (batch : WorkBatch) (dmChannel now : Nat)
  | settleDelivery (id : Nat) (message : Option Nat)
  | markInterruptedDeliveries
  | reload

/-- The store after an operation that answers a store, or the store before. -/
def keptOr {α : Type} (store : WorkStore) (result : Except WorkError α) (after : α → WorkStore) :
    WorkStore :=
  match result with
  | .ok a => after a
  | .error _ => store

/-- The store after an operation. -/
def WorkOp.perform (zones : Zones Tz) (sha : Sha256) (store : WorkStore) : WorkOp → WorkStore
  | .createProject access name requestId =>
    keptOr store (store.createProject access name requestId) Prod.fst
  | .setMember projectId access user present => (store.setMember projectId access user present).1
  | .addGoal projectId access title requestId =>
    keptOr store (store.addGoal projectId access title requestId) Prod.fst
  | .addTask access task requestId => keptOr store (store.addTask access task requestId) Prod.fst
  | .updateTask access id revision status snoozedUntil =>
    keptOr store (store.updateTask access id revision status snoozedUntil) Prod.fst
  | .recordDecision projectId access text at_ requestId =>
    keptOr store (store.recordDecision projectId access text at_ requestId) Prod.fst
  | .linkGithub taskId revision access reference =>
    keptOr store (store.linkGithub taskId revision access reference) id
  | .allowGithubRepository projectId access repository allowed =>
    keptOr store (store.allowGithubRepository projectId access repository allowed) id
  | .migrateGithubSources parse projectId access =>
    keptOr store (store.migrateGithubSources parse projectId access) Prod.fst
  | .setReminder access taskId revision remindAt =>
    keptOr store (store.setReminder zones access taskId revision remindAt) id
  | .snoozeTask access taskId revision until_ =>
    keptOr store (store.snoozeTask zones access taskId revision until_) id
  | .configureAutomation scope access policy =>
    keptOr store (store.configureAutomation zones sha scope access policy) id
  | .updateAutomation parse access update configuredOwner =>
    (store.updateAutomation zones sha parse access update configuredOwner).1
  | .controlPreferences access enabled explicitHour reset =>
    keptOr store (store.controlPreferences access enabled explicitHour reset) id
  | .feedback access deliveryId given isCorrection now =>
    (store.feedback access deliveryId given isCorrection now).1
  | .reserveBatch access batch now =>
    keptOr store (store.reserveBatch zones sha access batch now) Prod.fst
  | .reservePrivateBatch access batch dmChannel now =>
    keptOr store (store.reservePrivateBatch zones sha access batch dmChannel now) Prod.fst
  | .settleDelivery deliveryId message => keptOr store (store.settleDelivery deliveryId message) id
  | .markInterruptedDeliveries => store.markInterruptedDeliveries
  | .reload => store.seedLoaded sha

/-- The deadline of a new task is an unsigned 64-bit number. -/
def WorkOp.Typed : WorkOp → Prop
  | .addTask _ task _ => ∀ due, task.dueAt = some due → due < 2 ^ 64
  | _ => True

/-- The stores that operations lead to. -/
abbrev Reachable (zones : Zones Tz) (sha : Sha256) : WorkStore → Prop :=
  Steps (fun store (op : WorkOp) => some (op.perform zones sha store)) (fun _ op => op.Typed)
    WorkStore.empty

theorem ready_keptOr {α : Type} {result : Except WorkError α} {after : α → WorkStore}
    (h : Ready zones store) (hafter : ∀ a, result = .ok a → Ready zones (after a)) :
    Ready zones (keptOr store result after) := by
  cases result with
  | ok a => exact hafter a rfl
  | error e => exact h

theorem ready_perform {op : WorkOp} (h : Ready zones store) (htyped : op.Typed) :
    Ready zones (op.perform zones sha store) := by
  cases op with
  | createProject access name requestId => exact ready_keptOr h (fun a ha => h.createProject ha)
  | setMember projectId access user present => exact h.setMember projectId access user present
  | addGoal projectId access title requestId => exact ready_keptOr h (fun a ha => h.addGoal ha)
  | addTask access task requestId => exact ready_keptOr h (fun a ha => h.addTask htyped ha)
  | updateTask access id revision status snoozedUntil =>
    exact ready_keptOr h (fun a ha => h.updateTask ha)
  | recordDecision projectId access text at_ requestId =>
    exact ready_keptOr h (fun a ha => h.recordDecision ha)
  | linkGithub taskId revision access reference =>
    exact ready_keptOr h (fun a ha => h.linkGithub ha)
  | allowGithubRepository projectId access repository allowed =>
    exact ready_keptOr h (fun a ha => h.allowGithubRepository ha)
  | migrateGithubSources parse projectId access =>
    exact ready_keptOr h (fun a ha => h.migrateGithubSources ha)
  | setReminder access id revision remindAt => exact ready_keptOr h (fun a ha => h.setReminder ha)
  | snoozeTask access id revision until_ => exact ready_keptOr h (fun a ha => h.snoozeTask ha)
  | configureAutomation scope access policy =>
    exact ready_keptOr h (fun a ha => h.configureAutomation ha)
  | updateAutomation parse access update configuredOwner =>
    exact h.updateAutomation sha access update configuredOwner
  | controlPreferences access enabled explicitHour reset =>
    exact ready_keptOr h (fun a ha => h.controlPreferences ha)
  | feedback access deliveryId given isCorrection now =>
    exact h.feedback access deliveryId given isCorrection now
  | reserveBatch access batch now => exact ready_keptOr h (fun a ha => h.reserveBatch ha)
  | reservePrivateBatch access batch dmChannel now =>
    exact ready_keptOr h (fun a ha => h.reservePrivateBatch ha)
  | settleDelivery id message => exact ready_keptOr h (fun a ha => h.settleDelivery ha)
  | markInterruptedDeliveries => exact h.markInterruptedDeliveries
  | reload => exact h.seedLoaded sha

theorem ready_of_reachable (h : Reachable zones sha store) : Ready zones store := by
  refine h.invariant ?_ Ready.empty
  intro s op t hs htyped hnext
  rw [← some.inj hnext]
  exact ready_perform hs htyped

end Abbey.Work
