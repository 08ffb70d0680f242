import Mathlib.Data.Finset.Sort
import Mathlib.Data.Prod.Lex
import Abbey.Work.Delivery

/-!
# Schedule

`extensions/bot/src/work/schedule.rs` with `calendar.rs` and
`delivery_lifecycle.rs`: reminders and snoozes of a task, the next batch of a
scope, its reservation and what becomes of the receipt.

`next_batch` is cut into the questions it asks: who may be served and when
(`subscribed`), whether a briefing is due (`briefingDue`), which reminders are
not covered (`uncovered`), which changes are optional (`changesOf`), and what
is shown of them (`assembled`).
-/

namespace Abbey.Work

open Abbey.Lib
open Abbey.Conversation (Sha256)

variable {Tz : Type}

/-! ## Calendar -/

/-- `utc`: a time with two days of room. -/
def utc (zones : Zones Tz) (seconds : Nat) : Except WorkError Nat := do
  ensure (seconds + 172800 ≤ zones.maxTimestamp) .invalid
  .ok seconds

/-- The first valid local minute, from a local time in minutes. -/
def firstValid (zones : Zones Tz) (tz : Tz) : Nat → Int → Except WorkError Int
  | 0, _ => .error .invalid
  | tries + 1, minute =>
    match zones.resolve tz minute with
    | .single time => .ok time
    | .ambiguous a b => .ok (min a b)
    | .none => firstValid zones tz tries (minute + 1)

/-- `local_hour`. -/
def localHour (zones : Zones Tz) (tz : Tz) (day : Int) (hour : Nat) : Except WorkError Int := do
  ensure (hour < 24) .invalid
  firstValid zones tz 1441 (day * 1440 + hour * 60)

/-- `WorkAutomationPolicy::quiet`. -/
def WorkAutomationPolicy.quiet (policy : WorkAutomationPolicy) (hour : Nat) : Bool :=
  if policy.quietStart < policy.quietEnd then policy.quietStart ≤ hour && hour < policy.quietEnd
  else if policy.quietEnd < policy.quietStart then policy.quietStart ≤ hour || hour < policy.quietEnd
  else false

/-! ## Order -/

/-- The order of a set of references. -/
def WorkContentRef.inSet : WorkContentRef → Nat ×ₗ Nat ×ₗ Nat ×ₗ Nat
  | .task project id revision => toLex (0, toLex (project, toLex (id, revision)))
  | .decision project id revision => toLex (1, toLex (project, toLex (id, revision)))

theorem WorkContentRef.inSet_injective : Function.Injective WorkContentRef.inSet := by
  intro a b h
  cases a <;> cases b <;> simp_all [WorkContentRef.inSet]

instance : LinearOrder WorkContentRef :=
  LinearOrder.lift' WorkContentRef.inSet WorkContentRef.inSet_injective

/-- Greatest priority first, then the deadline, then the identity. -/
abbrev Rank := Int ×ₗ Nat ×ₗ Nat

def WorkTask.rank (task : WorkTask) : Rank :=
  toLex (-(task.priority : Int), toLex (task.dueAt.getD (2 ^ 64 - 1), task.id))

/-! ## Batches -/

structure WorkBatch where
  scope : WorkScope
  destination : Nat
  target : WorkDestination
  contentRefs : Finset WorkContentRef
  renderedBody : String
  provenance : DeliveredProvenance
  localDay : String
  kind : WorkDeliveryKind
  taskIds : List Nat
  coverage : List ReminderCoverage
  dedupeKeys : Finset String
  policy : WorkAutomationPolicy
  revisions : List (Nat × Nat)
  projectRevisions : List (Nat × Nat)
  deriving DecidableEq

namespace WorkStore

/-- The receipts of a scope. -/
def receiptsOf (store : WorkStore) (scope : WorkScope) : List WorkDeliveryReceipt :=
  store.deliveries.values.filter (fun r => match r.scope with
    | some receiptScope => receiptScope = scope
    | none => store.projects[r.projectId]?.any (fun p => p.scope = scope))

/-- A receipt of the local day. -/
def sameDay (zones : Zones Tz) (tz : Tz) (now : Nat) (r : WorkDeliveryReceipt) : Bool :=
  (utc zones r.at_).isOk && zones.localDay tz r.at_ = zones.localDay tz now

/-- The deliveries that a day has already spent. -/
def attempts (zones : Zones Tz) (store : WorkStore) (tz : Tz) (scope : WorkScope) (now : Nat) : Nat :=
  ((store.receiptsOf scope).filter (sameDay zones tz now)).length

/-- The tasks of a scope that are open and not snoozed. -/
def openTasks (store : WorkStore) (scope : WorkScope) (now : Nat) : List WorkTask :=
  let projects := (store.projects.values.filter (fun p => p.scope = scope)).map WorkProject.id
  store.tasks.values.filter (fun t => t.projectId ∈ projects && t.status ≠ .done &&
    t.status ≠ .cancelled && t.snoozedUntil.all (fun until_ => until_ ≤ now))

/-- The reminder of a task that is due. -/
def dueReminder (now : Nat) (t : WorkTask) : Option ReminderCoverage :=
  (t.remindAt.filter (fun at_ => at_ ≤ now)).map (fun at_ => ⟨t.id, t.reminderRevision, at_⟩)

def dueReminders (store : WorkStore) (scope : WorkScope) (now : Nat) : List ReminderCoverage :=
  (store.openTasks scope now).filterMap (dueReminder now)

/-- A receipt covers a reminder. -/
def covered (store : WorkStore) (scope : WorkScope) (c : ReminderCoverage) : Bool :=
  (store.receiptsOf scope).any (fun r => decide (c ∈ r.coverage))

/-- The due reminders that no receipt covers. -/
def uncovered (store : WorkStore) (scope : WorkScope) (now : Nat) : List ReminderCoverage :=
  (store.dueReminders scope now).filter (fun c => !store.covered scope c)

/-! ## Briefings -/

/-- The day of the latest occurrence.  One in the evening, inside quiet hours
that end on the next morning, keeps its day. -/
def occurrenceDay (zones : Zones Tz) (tz : Tz) (policy : WorkAutomationPolicy) (hour now : Nat) :
    Except WorkError Int := do
  let day := zones.localDay tz now
  let todayAt ← localHour zones tz day hour
  .ok (if (now : Int) < todayAt ∧ policy.quietEnd < policy.quietStart ∧ policy.quietStart ≤ hour then
    day - 1 else day)

def briefingKey (zones : Zones Tz) (scope : WorkScope) (day : Int) : String :=
  s!"{scope.key}:{zones.dayText day}:briefing:scope"

/-- Whether a briefing is due, with the day of its occurrence. -/
def briefingDue (zones : Zones Tz) (store : WorkStore) (tz : Tz) (scope : WorkScope)
    (policy : WorkAutomationPolicy) (hour now : Nat) : Except WorkError (Bool × Int) := do
  let day ← occurrenceDay zones tz policy hour now
  let key := briefingKey zones scope day
  if store.openTasks scope now = [] then .ok (false, day)
  else do
    let at_ ← localHour zones tz day hour
    .ok (decide (at_ ≤ (now : Int)) && !(store.receiptsOf scope).any (fun r =>
      decide (key ∈ r.dedupeKeys) || (r.kind = some .briefing && sameDay zones tz now r)), day)

/-! ## Changes -/

/-- The content that changed since it was last shown. -/
def changesOf (sha : Sha256) (store : WorkStore) (scope : WorkScope) (now : Nat) :
    Finset WorkContentRef :=
  let changes := store.changeCoverage[scope.key]?.elim ∅ (fun covered =>
    store.contentRefs scope \ covered)
  changes.filter (fun source =>
    (match source with
      | .task _ id _ => store.tasks[id]?.any (fun t => t.snoozedUntil.all (fun until_ => until_ ≤ now))
      | .decision _ _ _ => true) = true ∧
    store.changeFingerprints[scope.key]?.bind (fun f => f[source.id]?) ≠
      (store.contentFingerprints sha scope)[source.id]?)

/-! ## The next batch -/

/-- The sort key of a reference: tasks by rank, then decisions. -/
def sortKey (store : WorkStore) : WorkContentRef → Nat ×ₗ Rank
  | .task _ id _ => toLex (0, store.tasks[id]?.elim (toLex (0, toLex (2 ^ 64 - 1, id))) WorkTask.rank)
  | .decision _ id _ => toLex (1, toLex (0, toLex (2 ^ 64 - 1, id)))

/-- References in the order in which they are shown. -/
def ordered (store : WorkStore) (refs : Finset WorkContentRef) : List WorkContentRef :=
  (refs.sort (· ≤ ·)).mergeSort (fun a b => decide (store.sortKey a ≤ store.sortKey b))

/-- What is chosen before it is cut. -/
def chosen (store : WorkStore) (scope : WorkScope) (now : Nat) (briefing : Bool)
    (changes : Finset WorkContentRef) : Finset WorkContentRef :=
  let tasks := store.openTasks scope now
  let coverage := store.uncovered scope now
  if !briefing && coverage.isEmpty then changes
  else
    let taskIds := if briefing then tasks.map WorkTask.id else coverage.map ReminderCoverage.taskId
    ((tasks.filter (fun t => t.id ∈ taskIds)).map
      (fun t => WorkContentRef.task t.projectId t.id t.revision)).toFinset

/-- The identities of the tasks among references. -/
def taskIdsOf (refs : List WorkContentRef) : List Nat :=
  refs.filterMap (fun r => match r with
    | .task _ id _ => some id
    | .decision _ _ _ => none)

/-- The batch that shows the first eight references. -/
def assembled (zones : Zones Tz) (sha : Sha256) (store : WorkStore) (scope : WorkScope)
    (policy : WorkAutomationPolicy) (destination : Nat) (target : WorkDestination) (tz : Tz)
    (projects : List WorkProject) (now : Nat) (briefing : Bool) (day : Int)
    (changes : Finset WorkContentRef) : Except WorkError WorkBatch := do
  let uncovered := store.uncovered scope now
  let all := store.ordered (store.chosen scope now briefing changes)
  let shown := all.take 8
  let taskIds := taskIdsOf shown
  let coverage := uncovered.filter (fun c => c.taskId ∈ taskIds)
  let (renderedBody, provenance) ← store.renderDelivery sha shown (all.length - 8)
  let localDay := zones.dayText (zones.localDay tz now)
  let reminderKeys := (coverage.map (fun c =>
    s!"{scope.key}:{localDay}:reminder:{c.taskId}:{c.reminderRevision}:{c.remindAt}")).toFinset
  .ok {
    scope, destination, target
    contentRefs := shown.toFinset
    renderedBody, provenance, localDay
    kind := if briefing then .briefing else if uncovered.isEmpty then .changes else .reminder
    taskIds, coverage
    dedupeKeys := if briefing then insert (briefingKey zones scope day) reminderKeys else reminderKeys
    policy
    revisions := ((store.openTasks scope now).filter (fun t => t.id ∈ taskIds)).map
      (fun t => (t.id, t.revision))
    projectRevisions := projects.map (fun p => (p.id, p.revision)) }

/-- What a subscriber is sent outside quiet hours and within the quota. -/
def selected (zones : Zones Tz) (sha : Sha256) (store : WorkStore) (scope : WorkScope)
    (access : WorkAccess) (policy : WorkAutomationPolicy) (destination : Nat)
    (target : WorkDestination) (tz : Tz) (projects : List WorkProject) (now : Nat) :
    Except WorkError (Option WorkBatch) := do
  let profile ← store.preferenceProfile access
  let (briefing, day) ← store.briefingDue zones tz scope policy
    (profile.effectiveHour policy.briefingHour) now
  let changes := if profile.reduceFollowups then ∅ else store.changesOf sha scope now
  if !briefing && (store.uncovered scope now).isEmpty && decide (changes = ∅) then .ok none
  else do
    let batch ← store.assembled zones sha scope policy destination target tz projects now briefing
      day changes
    .ok (some batch)

/-- What an enabled policy sends to its subscriber. -/
def subscribed (zones : Zones Tz) (sha : Sha256) (store : WorkStore) (scope : WorkScope)
    (access : WorkAccess) (policy : WorkAutomationPolicy) (projects : List WorkProject) (now : Nat) :
    Except WorkError (Option WorkBatch) := do
  let _ ← store.scopeProjects scope access true
  let destination ← required policy.destination .invalid
  let target ← target scope access policy
  let tz ← required (zones.parse policy.timezone) .invalid
  let _ ← utc zones now
  if policy.quiet (zones.localHour tz now) || policy.dailyLimit ≤ store.attempts zones tz scope now then
    .ok none
  else store.selected zones sha scope access policy destination target tz projects now

/-- `next_batch`. -/
def nextBatch (zones : Zones Tz) (sha : Sha256) (store : WorkStore) (scope : WorkScope)
    (access : WorkAccess) (now : Nat) : Except WorkError (Option WorkBatch) := do
  let projects ← store.scopeProjects scope access false
  match store.scopeAutomation[scope.key]? with
  | none => .ok none
  | some policy => do
    policy.validate zones
    if !policy.enabled || store.scopeAutomationActors[scope.key]? ≠ some access.actor then .ok none
    else store.subscribed zones sha scope access policy projects now

/-! ## Reminders -/

/-- `set_reminder`. -/
def setReminder (zones : Zones Tz) (store : WorkStore) (access : WorkAccess) (id revision : Nat)
    (remindAt : Option Nat) : Except WorkError WorkStore := do
  let task ← store.editable access id revision
  ensure (remindAt.all (fun at_ => (utc zones at_).isOk)) .invalid
  if task.remindAt = remindAt then .ok store
  else do
    ensure (task.revision + 1 < 2 ^ 64 && task.reminderRevision + 1 < 2 ^ 64) .full
    .ok { store with
      tasks := store.tasks.insert id { task with
        remindAt
        reminderRevision := task.reminderRevision + 1
        revision := task.revision + 1 } }

/-- `snooze_task`. -/
def snoozeTask (zones : Zones Tz) (store : WorkStore) (access : WorkAccess)
    (id revision until_ : Nat) : Except WorkError WorkStore := do
  let _ ← utc zones until_
  let task ← store.editable access id revision
  let reminder := task.remindAt.isSome
  ensure (revision + (if reminder then 2 else 1) < 2 ^ 64 &&
    (!reminder || task.reminderRevision + 1 < 2 ^ 64)) .full
  let (store, revision) ← store.updateTask access id revision task.status (some until_)
  if reminder then store.setReminder zones access id revision (some until_) else .ok store

/-! ## Reservations -/

/-- `same_content`. -/
def sameContent : WorkContentRef → WorkContentRef → Bool
  | .task _ id _, .task _ other _ => id = other
  | .decision _ id _, .decision _ other _ => id = other
  | _, _ => false

/-- What was shown counts as seen. -/
def markShown (sha : Sha256) (store : WorkStore) (scope : WorkScope) (refs : Finset WorkContentRef) :
    WorkStore :=
  let current := store.contentFingerprints sha scope
  { store with
    changeFingerprints := store.changeFingerprints.insert scope.key
      ((refs.sort (· ≤ ·)).foldl (fun fingerprints source => match current[source.id]? with
        | some fingerprint => fingerprints.insert source.id fingerprint
        | none => fingerprints) (store.changeFingerprints[scope.key]?.getD ∅))
    changeCoverage := store.changeCoverage.insert scope.key
      ((refs.sort (· ≤ ·)).foldl (fun covered source =>
        insert source (covered.filter (fun old => sameContent old source = false)))
        (store.changeCoverage[scope.key]?.getD ∅)) }

/-- The receipt of a reserved batch. -/
def receiptOf (batch : WorkBatch) (id projectId channel now : Nat) : WorkDeliveryReceipt where
  id := id
  projectId := projectId
  recipient := channel
  destination := some batch.target
  policyRevision := batch.policy.revision
  provenance := some batch.provenance
  localDay := batch.localDay
  at_ := now
  state := .attempting
  messageId := none
  scope := some batch.scope
  kind := some batch.kind
  coverage := batch.coverage
  taskIds := batch.taskIds
  dedupeKeys := batch.dedupeKeys

/-- `reserve_resolved_batch`. -/
def reserveResolvedBatch (zones : Zones Tz) (sha : Sha256) (store : WorkStore) (access : WorkAccess)
    (batch : WorkBatch) (channel now : Nat) : Except WorkError (WorkStore × Nat) := do
  let next ← store.nextBatch zones sha batch.scope access now
  ensure (next = some batch) .stale
  ensure (store.deliveries.size < 10000) .full
  let (store, id) ← store.nextId
  let first ← required batch.projectRevisions.head? .missing
  .ok (({ store with
    deliveries := store.deliveries.insert id (receiptOf batch id first.1 channel now) } :
      WorkStore).markShown sha batch.scope batch.contentRefs, id)

/-- `reserve_batch`. -/
def reserveBatch (zones : Zones Tz) (sha : Sha256) (store : WorkStore) (access : WorkAccess)
    (batch : WorkBatch) (now : Nat) : Except WorkError (WorkStore × Nat) := do
  ensure (match batch.target with
    | .teamPrivate _ => false
    | _ => true) .denied
  store.reserveResolvedBatch zones sha access batch batch.destination now

/-- `reserve_private_batch`. -/
def reservePrivateBatch (zones : Zones Tz) (sha : Sha256) (store : WorkStore) (access : WorkAccess)
    (batch : WorkBatch) (dmChannel now : Nat) : Except WorkError (WorkStore × Nat) := do
  ensure (batch.target = .teamPrivate access.actor && dmChannel ≠ 0 && dmChannel ≠ access.channel)
    .denied
  store.reserveResolvedBatch zones sha access batch dmChannel now

/-! ## Outcomes -/

/-- `settle_delivery`. -/
def settleDelivery (store : WorkStore) (id : Nat) (message : Option Nat) :
    Except WorkError WorkStore := do
  let receipt ← required store.deliveries[id]? .missing
  ensure (receipt.state = .attempting) .stale
  let messageId := message.filter (fun id => id ≠ 0)
  .ok { store with
    deliveries := store.deliveries.insert id { receipt with
      messageId, state := if messageId.isSome then .sent else .reviewRequired } }

/-- `mark_interrupted_deliveries`. -/
def markInterruptedDeliveries (store : WorkStore) : WorkStore :=
  { store with
    deliveries := store.deliveries.map (fun _ receipt => if receipt.state = .attempting then
      { receipt with state := .reviewRequired, messageId := none } else receipt) }

end WorkStore

end Abbey.Work
