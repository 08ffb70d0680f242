import Abbey.Work.Upkeep

/-!
# What a batch shows

Everything a scope could show is rendered (`renderLine_contentRefs`), no two
items have one identity (`id_injOn_contentRefs`), and so every choice from it
gives a batch (`assembled_ok`).  The due reminders of a batch stand in the
order of their rank (`ordered_tasks`).
-/

namespace Abbey.Work

open Abbey.Lib List WorkStore WorkTask
open Abbey.Conversation (Sha256)

variable {Tz : Type} {zones : Zones Tz} {sha : Sha256} {store : WorkStore} {scope : WorkScope}
variable {refs : Finset WorkContentRef} {order tasks : List WorkTask} {t : WorkTask}
variable {briefing : Bool} {changes : Finset WorkContentRef} {projects : List WorkProject}
  {destination now : Nat} {policy : WorkAutomationPolicy} {batch : WorkBatch}
  {target : WorkDestination}

/-- The reference of a task as it stands. -/
def WorkTask.ref (t : WorkTask) : WorkContentRef := .task t.projectId t.id t.revision

def WorkDecision.ref (d : WorkDecision) : WorkContentRef := .decision d.projectId d.id 1

/-! ## The content of a scope -/

theorem mem_contentRefs {ref : WorkContentRef} (h : ref ∈ store.contentRefs scope) :
    (∃ (id : Nat) (t : WorkTask), store.tasks[id]? = some t ∧ ref = t.ref) ∨
      ∃ (id : Nat) (d : WorkDecision), store.decisions[id]? = some d ∧ ref = d.ref := by
  unfold contentRefs at h
  dsimp only at h
  rw [Finset.mem_union, mem_toFinset, mem_toFinset, mem_map, mem_map] at h
  rcases h with ⟨t, ht, rfl⟩ | ⟨d, hd, rfl⟩
  · obtain ⟨id, hid⟩ := mem_values.mp (mem_filter.mp ht).1
    exact .inl ⟨id, t, hid, rfl⟩
  · obtain ⟨id, hid⟩ := mem_values.mp (mem_filter.mp hd).1
    exact .inr ⟨id, d, hid, rfl⟩

theorem renderLine_contentRefs (h : Ready zones store) {ref : WorkContentRef}
    (href : ref ∈ store.contentRefs scope) :
    (∃ line, store.renderLine ref = .ok line) ∧ ref.valid := by
  rcases mem_contentRefs href with ⟨id, t, ht, rfl⟩ | ⟨id, d, hd, rfl⟩
  · obtain ⟨hid, _, hpos, hproject, _⟩ := h.tasks id t ht
    constructor
    · refine ⟨taskLine t.id t.revision t, ?_⟩
      unfold ref renderLine
      dsimp only
      rw [hid, ht]
      simp [required, ensure, bind, Except.bind]
    · have hne : t.id ≠ 0 := by omega
      have hproject' : t.projectId ≠ 0 := by omega
      simp [ref, WorkContentRef.valid, hne, hproject']
  · obtain ⟨hid, hpos, hproject, _⟩ := h.decisions id d hd
    constructor
    · refine ⟨decisionLine d.id d, ?_⟩
      unfold WorkDecision.ref renderLine
      dsimp only
      rw [hid, hd]
      simp [required, ensure, bind, Except.bind]
    · have hne : d.id ≠ 0 := by omega
      have hproject' : d.projectId ≠ 0 := by omega
      simp [WorkDecision.ref, WorkContentRef.valid, hne, hproject']

/-- No number names two items. -/
theorem id_injOn_contentRefs (h : Ready zones store)
    (ha : a ∈ store.contentRefs scope) (hb : b ∈ store.contentRefs scope) (hid : a.id = b.id) :
    a = b := by
  rcases mem_contentRefs ha with ⟨i, t, ht, rfl⟩ | ⟨i, d, hd, rfl⟩
  · have hti := (h.tasks i t ht).1
    rcases mem_contentRefs hb with ⟨j, u, hu, rfl⟩ | ⟨j, d, hd, rfl⟩
    · have huj := (h.tasks j u hu).1
      have hij : t.id = u.id := hid
      rw [← hti, hij, huj, hu, Option.some.injEq] at ht
      rw [ht]
    · have hdj := (h.decisions j d hd).1
      have hij : t.id = d.id := hid
      rw [← hti, hij, hdj] at ht
      exact absurd (h.apart j t d ht hd) not_false
  · have hdi := (h.decisions i d hd).1
    rcases mem_contentRefs hb with ⟨j, u, hu, rfl⟩ | ⟨j, e, he, rfl⟩
    · have huj := (h.tasks j u hu).1
      have hij : d.id = u.id := hid
      rw [← hdi, hij, huj] at hd
      exact absurd (h.apart j u d hu hd) not_false
    · have hej := (h.decisions j e he).1
      have hij : d.id = e.id := hid
      rw [← hdi, hij, hej, he, Option.some.injEq] at hd
      rw [hd]

theorem id_le_sequence (h : Ready zones store) {ref : WorkContentRef}
    (href : ref ∈ store.contentRefs scope) : ref.id ≤ store.sequence := by
  rcases mem_contentRefs href with ⟨id, t, ht, rfl⟩ | ⟨id, d, hd, rfl⟩
  · obtain ⟨hid, _, _, _, hle⟩ := h.tasks id t ht
    show t.id ≤ store.sequence
    omega
  · obtain ⟨hid, _, _, hle⟩ := h.decisions id d hd
    show d.id ≤ store.sequence
    omega

/-- There are fewer items than numbers. -/
theorem card_lt (h : Ready zones store) (hrefs : refs ⊆ store.contentRefs scope) :
    refs.card ≤ 2 ^ 64 := by
  have hinj : Set.InjOn WorkContentRef.id refs :=
    fun a ha b hb hid => id_injOn_contentRefs h (hrefs ha) (hrefs hb) hid
  have hsequence := h.sequence
  rw [← Finset.card_image_of_injOn hinj, ← Finset.card_range (2 ^ 64)]
  apply Finset.card_le_card
  intro id hid
  obtain ⟨ref, href, rfl⟩ := Finset.mem_image.mp hid
  have hle := id_le_sequence h (hrefs href)
  rw [Finset.mem_range]
  omega

/-! ## Order -/

theorem perm_ordered (refs : Finset WorkContentRef) : (store.ordered refs).Perm refs.toList :=
  (mergeSort_perm _ _).trans (Finset.sort_perm_toList refs (· ≤ ·))

theorem mem_ordered {ref : WorkContentRef} : ref ∈ store.ordered refs ↔ ref ∈ refs := by
  rw [(perm_ordered refs).mem_iff, Finset.mem_toList]

theorem pairwise_ordered (refs : Finset WorkContentRef) :
    (store.ordered refs).Pairwise (fun a b => store.sortKey a ≤ store.sortKey b) := by
  have hsorted : ((refs.sort (· ≤ ·)).mergeSort
      (fun a b => decide (store.sortKey a ≤ store.sortKey b))).Pairwise
      (fun a b => decide (store.sortKey a ≤ store.sortKey b) = true) := pairwise_mergeSort
    (fun a b c hab hbc => by
      rw [decide_eq_true_iff] at hab hbc ⊢
      exact le_trans hab hbc)
    (fun a b => by
      rw [Bool.or_eq_true, decide_eq_true_iff, decide_eq_true_iff]
      exact le_total _ _) (refs.sort (· ≤ ·))
  exact hsorted.imp (fun h => of_decide_eq_true h)

/-- The references of tasks stand in the order of the tasks. -/
theorem ordered_tasks (horder : order.Pairwise (fun a b => a.rank < b.rank))
    (hstore : ∀ t ∈ order, store.tasks[t.id]? = some t)
    (hrefs : ∀ ref, ref ∈ refs ↔ ∃ t ∈ order, ref = t.ref) :
    store.ordered refs = order.map ref := by
  have hkey : ∀ t ∈ order, store.sortKey t.ref = toLex (0, t.rank) := by
    intro t ht
    unfold ref sortKey
    dsimp only
    rw [hstore t ht]
    rfl
  have hnodup : (order.map ref).Nodup := by
    rw [List.Nodup, pairwise_map]
    refine horder.imp_of_mem ?_
    intro a b ha hb hlt heq
    have hsame := congrArg store.sortKey heq
    rw [hkey a ha, hkey b hb] at hsame
    have hrank : a.rank = b.rank := congrArg (fun k => (ofLex k).2) hsame
    exact absurd hlt (by rw [hrank]; exact lt_irrefl _)
  have hperm : (store.ordered refs).Perm (order.map ref) := by
    refine (perm_ordered refs).trans ?_
    rw [perm_ext_iff_of_nodup (Finset.nodup_toList refs) hnodup]
    intro ref
    rw [Finset.mem_toList, hrefs, mem_map]
    constructor
    · rintro ⟨t, ht, rfl⟩
      exact ⟨t, ht, rfl⟩
    · rintro ⟨t, ht, rfl⟩
      exact ⟨t, ht, rfl⟩
  refine hperm.eq_of_pairwise ?_ (pairwise_ordered refs) ?_
  · intro a b ha hb hab hba
    obtain ⟨t, ht, rfl⟩ := mem_map.mp (hperm.mem_iff.mp ha)
    obtain ⟨u, hu, rfl⟩ := mem_map.mp hb
    have hsame := le_antisymm hab hba
    rw [hkey t ht, hkey u hu] at hsame
    have hrank : t.rank = u.rank := congrArg (fun k => (ofLex k).2) hsame
    have hid : t.id = u.id := congrArg (fun r => (ofLex (ofLex r).2).2) hrank
    have hstored := hstore t ht
    rw [hid, hstore u hu, Option.some.injEq] at hstored
    rw [hstored]
  · rw [pairwise_map]
    refine horder.imp_of_mem ?_
    intro a b ha hb hlt
    rw [hkey a ha, hkey b hb]
    exact Prod.Lex.toLex_le_toLex.mpr (.inr ⟨rfl, le_of_lt hlt⟩)

/-! ## What is chosen -/

theorem openTasks_stored (h : Ready zones store) (ht : t ∈ store.openTasks scope now) :
    store.tasks[t.id]? = some t := by
  unfold openTasks at ht
  obtain ⟨id, hid⟩ := mem_values.mp (mem_filter.mp ht).1
  rw [(h.tasks id t hid).1]
  exact hid

theorem nodup_openTasks (h : Ready zones store) :
    ((store.openTasks scope now).map WorkTask.id).Nodup := by
  have hvalues : (store.tasks.values.map WorkTask.id).Nodup :=
    nodup_values (fun id t ht => (h.tasks id t ht).1)
  exact hvalues.sublist (filter_sublist.map _)

theorem ref_mem_contentRefs (ht : t ∈ store.openTasks scope now) :
    t.ref ∈ store.contentRefs scope := by
  unfold openTasks at ht
  obtain ⟨hmem, hopen⟩ := mem_filter.mp ht
  simp only [Bool.and_eq_true, decide_eq_true_eq] at hopen
  unfold contentRefs
  dsimp only
  rw [Finset.mem_union, mem_toFinset, mem_map]
  exact .inl ⟨t, mem_filter.mpr ⟨hmem, decide_eq_true hopen.1.1.1⟩, rfl⟩

theorem changesOf_subset (now : Nat) : store.changesOf sha scope now ⊆ store.contentRefs scope := by
  intro ref href
  unfold changesOf at href
  dsimp only at href
  have hmem := (Finset.mem_filter.mp href).1
  cases hcovered : store.changeCoverage[scope.key]? with
  | none =>
    rw [hcovered] at hmem
    exact absurd hmem (Finset.notMem_empty ref)
  | some covered =>
    rw [hcovered] at hmem
    exact (Finset.mem_sdiff.mp hmem).1

theorem chosen_subset (hchanges : changes ⊆ store.contentRefs scope) :
    store.chosen scope now briefing changes ⊆ store.contentRefs scope := by
  intro ref href
  unfold chosen at href
  dsimp only at href
  split_ifs at href
  · exact hchanges href
  all_goals
    rw [mem_toFinset, mem_map] at href
    obtain ⟨t, ht, rfl⟩ := href
    exact ref_mem_contentRefs (mem_filter.mp ht).1

/-- The task of an uncovered reminder. -/
theorem exists_of_mem_uncovered (hc : c ∈ store.uncovered scope now) :
    ∃ t ∈ store.openTasks scope now, dueReminder now t = some c ∧ c.taskId = t.id := by
  obtain ⟨t, ht, hdue⟩ := mem_filterMap.mp (mem_filter.mp hc).1
  refine ⟨t, ht, hdue, ?_⟩
  obtain ⟨at_, _, rfl⟩ := Option.map_eq_some_iff.mp hdue
  rfl

/-- There is something to show when a briefing, a reminder or a change is due. -/
theorem chosen_ne_empty (hopen : briefing → store.openTasks scope now ≠ [])
    (hdue : (!briefing && (store.uncovered scope now).isEmpty && decide (changes = ∅)) = false) :
    store.chosen scope now briefing changes ≠ ∅ := by
  unfold chosen
  dsimp only
  cases briefing with
  | true =>
    obtain ⟨t, ht⟩ := exists_mem_of_ne_nil _ (hopen rfl)
    simp only [Bool.not_true, Bool.false_and, Bool.false_eq_true, if_false, if_true]
    apply Finset.ne_empty_of_mem (a := t.ref)
    rw [mem_toFinset]
    exact mem_map_of_mem
      (mem_filter.mpr ⟨ht, decide_eq_true (mem_map_of_mem ht)⟩)
  | false =>
    by_cases hempty : (store.uncovered scope now).isEmpty
    · simp only [Bool.not_false, hempty, Bool.and_self, if_true]
      simpa [hempty] using hdue
    · rw [Bool.not_eq_true] at hempty
      simp only [Bool.not_false, hempty, Bool.and_false, Bool.false_eq_true, if_false]
      rw [isEmpty_eq_false_iff] at hempty
      obtain ⟨c, hc⟩ := exists_mem_of_ne_nil _ hempty
      obtain ⟨t, ht, _, hid⟩ := exists_of_mem_uncovered hc
      apply Finset.ne_empty_of_mem (a := t.ref)
      rw [mem_toFinset]
      refine mem_map_of_mem (mem_filter.mpr ⟨ht, decide_eq_true ?_⟩)
      rw [← hid]
      exact mem_map_of_mem hc

/-- Every choice from the content of a scope gives a batch. -/
theorem assembled_ok (h : Ready zones store) {tz : Tz} {day : Int}
    (hchanges : changes ⊆ store.contentRefs scope)
    (hopen : briefing → store.openTasks scope now ≠ [])
    (hdue : (!briefing && (store.uncovered scope now).isEmpty && decide (changes = ∅)) = false) :
    ∃ batch, store.assembled zones sha scope policy destination target tz projects now briefing day
      changes = .ok batch := by
  have hsubset : store.chosen scope now briefing changes ⊆ store.contentRefs scope :=
    chosen_subset hchanges
  have hmem : ∀ ref ∈ (store.ordered (store.chosen scope now briefing changes)).take 8,
      ref ∈ store.contentRefs scope :=
    fun ref href => hsubset (mem_ordered.mp (mem_of_mem_take href))
  have hnodup : (store.ordered (store.chosen scope now briefing changes)).Nodup :=
    (perm_ordered _).nodup_iff.mpr (Finset.nodup_toList _)
  have hlength : (store.ordered (store.chosen scope now briefing changes)).length ≤ 2 ^ 64 := by
    rw [(perm_ordered _).length_eq, Finset.length_toList]
    exact card_lt h hsubset
  have hne : (store.ordered (store.chosen scope now briefing changes)).take 8 ≠ [] := by
    intro hnil
    apply chosen_ne_empty hopen hdue
    rw [take_eq_nil_iff] at hnil
    rcases hnil with hzero | hnil
    · omega
    · apply Finset.eq_empty_of_forall_notMem
      intro ref href
      have hin : ref ∈ store.ordered (store.chosen scope now briefing changes) :=
        mem_ordered.mpr href
      rw [hnil] at hin
      cases hin
  have hids : (((store.ordered (store.chosen scope now briefing changes)).take 8).map
      WorkContentRef.id).Nodup := by
    apply List.Nodup.map_on
    · intro a ha b hb hid
      exact id_injOn_contentRefs h (hmem a ha) (hmem b hb) hid
    · exact hnodup.sublist (take_sublist _ _)
  obtain ⟨lines, hrender⟩ := renderDelivery_ok sha h.typed hne
    (length_take_le _ _)
    (show (store.ordered (store.chosen scope now briefing changes)).length - 8 < 2 ^ 64 by omega)
    (fun ref href => (renderLine_contentRefs h (hmem ref href)).1)
    (fun ref href => (renderLine_contentRefs h (hmem ref href)).2) hids
  unfold assembled
  dsimp only
  rw [hrender]
  exact ⟨_, rfl⟩

/-- What a batch was made of. -/
structure Assembled (store : WorkStore) (scope : WorkScope) (projects : List WorkProject) (now : Nat)
    (briefing : Bool) (changes : Finset WorkContentRef) (batch : WorkBatch) : Prop where
  place : batch.scope = scope
  kind : batch.kind = (if briefing then .briefing
    else if (store.uncovered scope now).isEmpty then .changes else .reminder)
  taskIds : batch.taskIds = WorkStore.taskIdsOf
    ((store.ordered (store.chosen scope now briefing changes)).take 8)
  coverage : batch.coverage =
    (store.uncovered scope now).filter (fun c => c.taskId ∈ batch.taskIds)
  projects : batch.projectRevisions = projects.map (fun p => (p.id, p.revision))

theorem assembled_inv
    (h : store.assembled zones sha scope policy destination target tz projects now briefing day
      changes = .ok batch) : Assembled store scope projects now briefing changes batch := by
  unfold assembled at h
  dsimp only at h
  obtain ⟨⟨body, provenance⟩, _, h⟩ := bind_ok_iff.mp h
  dsimp only at h
  rw [Except.ok.injEq] at h
  rw [← h]
  exact ⟨rfl, rfl, rfl, rfl, rfl⟩

/-! ## Reminders -/

/-- The tasks whose reminder is due and not covered. -/
def pendingTasks (store : WorkStore) (scope : WorkScope) (now : Nat) : List WorkTask :=
  (store.openTasks scope now).filter (fun t =>
    (WorkStore.dueReminder now t).any (fun c => !store.covered scope c))

theorem filterMap_pending : (pendingTasks store scope now).filterMap (dueReminder now) =
      store.uncovered scope now := by
  unfold pendingTasks uncovered dueReminders
  induction store.openTasks scope now with
  | nil => rfl
  | cons t tasks ih =>
    cases hdue : dueReminder now t with
    | none =>
      rw [filter_cons_of_neg (by simp [hdue]), filterMap_cons_none hdue, ih]
    | some c =>
      rw [filterMap_cons_some hdue]
      by_cases hcovered : store.covered scope c
      · rw [filter_cons_of_neg (by simp [hdue, hcovered]),
          filter_cons_of_neg (by simp [hcovered]), ih]
      · rw [filter_cons_of_pos (by simpa [hdue] using hcovered),
          filter_cons_of_pos (by simpa using hcovered), filterMap_cons_some hdue, ih]

theorem dueReminder_of_pending (ht : t ∈ pendingTasks store scope now) :
    ∃ c, dueReminder now t = some c ∧ c.taskId = t.id := by
  have hdue := (mem_filter.mp ht).2
  rw [Option.any_eq_true] at hdue
  obtain ⟨c, hc, _⟩ := hdue
  obtain ⟨at_, _, rfl⟩ := Option.map_eq_some_iff.mp hc
  exact ⟨_, hc, rfl⟩

/-- The number of reminders is the number of their tasks. -/
theorem length_filterMap_due (h : ∀ t ∈ tasks, ∃ c, dueReminder now t = some c ∧ c.taskId = t.id) :
    (tasks.filterMap (dueReminder now)).length = tasks.length ∧
      (tasks.filterMap (dueReminder now)).map ReminderCoverage.taskId =
        tasks.map WorkTask.id := by
  induction tasks with
  | nil => exact ⟨rfl, rfl⟩
  | cons t tasks ih =>
    obtain ⟨c, hc, hid⟩ := h t mem_cons_self
    obtain ⟨hlength, hids⟩ := ih (fun u hu => h u (mem_cons_of_mem t hu))
    rw [filterMap_cons_some hc]
    constructor
    · rw [length_cons, length_cons, hlength]
    · rw [map_cons, map_cons, hids, hid]

theorem length_uncovered (now : Nat) :
    (store.uncovered scope now).length = (pendingTasks store scope now).length := by
  rw [← filterMap_pending]
  exact (length_filterMap_due (fun t ht => dueReminder_of_pending ht)).1

/-- Keeping the reminders of some tasks. -/
theorem filter_filterMap_due (ids : List Nat)
    (h : ∀ t ∈ tasks, ∃ c, dueReminder now t = some c ∧ c.taskId = t.id) :
    (tasks.filterMap (dueReminder now)).filter (fun c => c.taskId ∈ ids) =
      (tasks.filter (fun t => t.id ∈ ids)).filterMap (dueReminder now) := by
  induction tasks with
  | nil => rfl
  | cons t tasks ih =>
    obtain ⟨c, hc, hid⟩ := h t mem_cons_self
    have hrest := ih (fun u hu => h u (mem_cons_of_mem t hu))
    rw [filterMap_cons_some hc]
    by_cases hin : t.id ∈ ids
    · rw [filter_cons_of_pos (by simpa [hid] using hin),
        filter_cons_of_pos (by simpa using hin), filterMap_cons_some hc, hrest]
    · rw [filter_cons_of_neg (by simpa [hid] using hin),
        filter_cons_of_neg (by simpa using hin), hrest]

/-- The tasks among the first of a list with distinct numbers. -/
theorem filter_take (hnodup : (order.map WorkTask.id).Nodup) (n : Nat) :
    order.filter (fun t => t.id ∈ (order.take n).map WorkTask.id) = order.take n := by
  induction order generalizing n with
  | nil => simp
  | cons t order ih =>
    rw [map_cons, nodup_cons] at hnodup
    cases n with
    | zero => simp
    | succ n =>
      rw [take_succ_cons, map_cons, filter_cons_of_pos (by simp)]
      congr 1
      rw [← ih hnodup.2 n]
      apply filter_congr
      intro u hu
      have hne : u.id ≠ t.id := by
        intro heq
        exact hnodup.1 (heq ▸ mem_map_of_mem hu)
      rw [ih hnodup.2 n]
      simp [hne]

/-- The first eight pending tasks by rank, and their reminders. -/
structure FirstEight (store : WorkStore) (scope : WorkScope) (now : Nat) (batch : WorkBatch) :
    Prop where
  order : ∃ order : List WorkTask, order.Perm (pendingTasks store scope now) ∧
    order.Pairwise (fun a b => a.rank < b.rank) ∧
    batch.taskIds = (order.take 8).map WorkTask.id ∧
    batch.coverage.Perm ((order.take 8).filterMap (WorkStore.dueReminder now))
  count : batch.coverage.length = min (store.uncovered scope now).length 8
  uncovered : batch.coverage =
    (store.uncovered scope now).filter (fun c => c.taskId ∈ batch.taskIds)

theorem taskIdsOf_map_ref (tasks : List WorkTask) :
    taskIdsOf (tasks.map WorkTask.ref) = tasks.map WorkTask.id := by
  unfold taskIdsOf
  rw [filterMap_map]
  induction tasks with
  | nil => rfl
  | cons t tasks ih => exact congrArg (fun ids => t.id :: ids) ih

theorem nodup_pendingTasks (h : Ready zones store) (now : Nat) :
    ((pendingTasks store scope now).map WorkTask.id).Nodup :=
  (nodup_openTasks h).sublist (filter_sublist.map _)

/-- Tasks with distinct numbers in the order of their rank. -/
theorem exists_order (hnodup : (tasks.map WorkTask.id).Nodup) :
    ∃ order : List WorkTask, order.Perm tasks ∧ order.Pairwise (fun a b => a.rank < b.rank) := by
  have hsorted : (tasks.mergeSort (fun a b => decide (a.rank ≤ b.rank))).Pairwise
      (fun a b => decide (a.rank ≤ b.rank) = true) := pairwise_mergeSort
    (fun a b c hab hbc => by
      rw [decide_eq_true_iff] at hab hbc ⊢
      exact le_trans hab hbc)
    (fun a b => by
      rw [Bool.or_eq_true, decide_eq_true_iff, decide_eq_true_iff]
      exact le_total _ _) tasks
  have hperm := mergeSort_perm tasks (fun a b => decide (a.rank ≤ b.rank))
  refine ⟨_, hperm, ?_⟩
  have hdistinct : (tasks.mergeSort (fun a b => decide (a.rank ≤ b.rank))).Pairwise
      (fun a b => a.id ≠ b.id) := by
    rw [← pairwise_map (R := (· ≠ ·))]
    exact (hperm.map WorkTask.id).nodup_iff.mpr hnodup
  refine hsorted.imp₂ ?_ hdistinct
  intro a b hle hne
  rw [decide_eq_true_iff] at hle
  refine lt_of_le_of_ne hle ?_
  intro heq
  exact hne (congrArg (fun r => (ofLex (ofLex r).2).2) heq)

theorem chosen_of_uncovered (h : Ready zones store) (hdue : store.uncovered scope now ≠ [])
    (ref : WorkContentRef) :
    ref ∈ store.chosen scope now false changes ↔
      ∃ t ∈ pendingTasks store scope now, ref = t.ref := by
  have hempty : (store.uncovered scope now).isEmpty = false := by
    rw [isEmpty_eq_false_iff]
    exact hdue
  have hids : (store.uncovered scope now).map ReminderCoverage.taskId =
      (pendingTasks store scope now).map WorkTask.id := by
    rw [← filterMap_pending]
    exact (length_filterMap_due (fun t ht => dueReminder_of_pending ht)).2
  unfold chosen
  simp only [Bool.not_false, hempty, Bool.and_false, Bool.false_eq_true, if_false]
  rw [hids, mem_toFinset, mem_map]
  constructor
  · rintro ⟨t, ht, rfl⟩
    obtain ⟨hopen, hin⟩ := mem_filter.mp ht
    rw [decide_eq_true_iff, mem_map] at hin
    obtain ⟨u, hu, hid⟩ := hin
    have hstored := openTasks_stored h (mem_filter.mp hu).1
    rw [hid, openTasks_stored h hopen, Option.some.injEq] at hstored
    exact ⟨u, hu, by rw [hstored]; rfl⟩
  · rintro ⟨t, ht, rfl⟩
    refine ⟨t, mem_filter.mpr ⟨(mem_filter.mp ht).1, decide_eq_true ?_⟩, rfl⟩
    exact mem_map_of_mem ht

/-- A reminder batch shows the first eight pending tasks. -/
theorem firstEight_of_assembled (h : Ready zones store) (hdue : store.uncovered scope now ≠ [])
    (hbatch : Assembled store scope projects now false changes batch) :
    FirstEight store scope now batch := by
  obtain ⟨order, hperm, horder⟩ : ∃ order : List WorkTask,
      order.Perm (pendingTasks store scope now) ∧ order.Pairwise (fun a b => a.rank < b.rank) :=
    exists_order (nodup_pendingTasks h now)
  have hpending : ∀ t ∈ order, t ∈ pendingTasks store scope now := fun t ht => hperm.mem_iff.mp ht
  have hordered : store.ordered (store.chosen scope now false changes) = order.map WorkTask.ref := by
    apply ordered_tasks horder
    · intro t ht
      exact openTasks_stored h (mem_filter.mp (hpending t ht)).1
    · intro ref
      rw [chosen_of_uncovered h hdue]
      constructor
      · rintro ⟨t, ht, rfl⟩
        exact ⟨t, hperm.mem_iff.mpr ht, rfl⟩
      · rintro ⟨t, ht, rfl⟩
        exact ⟨t, hpending t ht, rfl⟩
  have hids : batch.taskIds = (order.take 8).map WorkTask.id := by
    rw [hbatch.taskIds, hordered, ← map_take, taskIdsOf_map_ref]
  have hnodup : (order.map WorkTask.id).Nodup :=
    (hperm.map WorkTask.id).nodup_iff.mpr (nodup_pendingTasks h now)
  have hcovers : batch.coverage.Perm ((order.take 8).filterMap (dueReminder now)) := by
    rw [hbatch.coverage, hids, ← filterMap_pending,
      filter_filterMap_due _ (fun t ht => dueReminder_of_pending ht)]
    apply List.Perm.filterMap
    refine (hperm.symm.filter _).trans ?_
    rw [filter_take hnodup]
  refine ⟨⟨order, hperm, horder, hids, hcovers⟩, ?_, hbatch.coverage⟩
  rw [hcovers.length_eq, (length_filterMap_due (fun t ht =>
    dueReminder_of_pending (hpending t (mem_of_mem_take ht)))).1, length_take,
    hperm.length_eq, length_uncovered]
  omega

end Abbey.Work
