import Abbey.Work.Preferences

/-!
# Registry

`extensions/bot/src/work/registry.rs`: projects, goals, tasks and decisions,
with the links of `github.rs`.  Every record takes the next number of one
sequence.  Requests carry an identifier, and a request that was seen answers
the record that it made.
-/

namespace Abbey.Work

open Abbey.Lib
open Abbey.Run (isControl)
open Abbey.Conversation (trim)

/-- `MAX_RECORDS`. -/
def maxRecords : Nat := 10000

/-- `valid_text`. -/
def validText (text : String) (max : Nat) : Except WorkError Unit :=
  ensure (trim text ≠ "" && text.length ≤ max &&
    !text.toList.any (fun c => isControl c && c ≠ '\n')) .invalid

/-! ## Repositories -/

namespace GitHubRepository

/-- `valid_part`. -/
def validPart (part : String) : Bool :=
  part ≠ "" && part ≠ "." && part ≠ ".." && part.utf8ByteSize ≤ 100 &&
    part.toList.all (fun c => c.isAlphanum || c = '-' || c = '_' || c = '.')

def validate (repository : GitHubRepository) : Except WorkError Unit :=
  ensure (repository.installation ≠ 0 && validPart repository.owner &&
    validPart repository.name) .invalid

def canonical (repository : GitHubRepository) : GitHubRepository :=
  { repository with
    owner := repository.owner.map Char.toLower
    name := repository.name.map Char.toLower }

/-- `same_identity`. -/
def sameIdentity (repository other : GitHubRepository) : Bool :=
  repository.canonical = other.canonical

end GitHubRepository

def GitHubReference.validate (reference : GitHubReference) : Except WorkError Unit := do
  reference.repository.validate
  ensure (reference.number ≠ 0) .invalid

/-- `allows_github_repository`. -/
def WorkProject.allowsGithubRepository (project : WorkProject) (repository : GitHubRepository) :
    Bool :=
  decide (∃ candidate ∈ project.allowedGithubRepositories,
    candidate.sameIdentity repository = true)

namespace WorkStore

/-! ## Records -/

/-- `next_id`. -/
def nextId (store : WorkStore) : Except WorkError (WorkStore × Nat) := do
  ensure (store.projects.size + store.goals.size + store.tasks.size + store.decisions.size <
    maxRecords) .full
  ensure (store.sequence + 1 < 2 ^ 64) .full
  .ok ({ store with sequence := store.sequence + 1 }, store.sequence + 1)

/-- The length of a request identifier. -/
def checkRequest (requestId : String) : Except WorkError Unit :=
  ensure (requestId ≠ "" && requestId.utf8ByteSize ≤ 100) .invalid

/-- `create_project`. -/
def createProject (store : WorkStore) (access : WorkAccess) (name requestId : String) :
    Except WorkError (WorkStore × Nat) := do
  validText name 100
  ensure (access.actor ≠ 0 && access.channel ≠ 0 && access.guild ≠ some 0) .invalid
  checkRequest requestId
  ensure (access.guild.isNone || (access.canView && access.canManage)) .denied
  let key := s!"{access.actor}:{access.guild.getD 0}:{access.channel}:project:{requestId}"
  match store.requestIds[key]? with
  | some id => .ok (store, id)
  | none => do
    let (store, id) ← store.nextId
    .ok ({ store with
      projects := store.projects.insert id
        { id, name := trim name, scope := access.scope, managers := {access.actor},
          members := {access.actor}, revision := 0, allowedGithubRepositories := ∅ }
      requestIds := store.requestIds.insert key id }, id)

/-- The change of `set_member`, which counts a revision at its end. -/
def withMember (store : WorkStore) (projectId : Nat) (project : WorkProject) (user : Nat)
    (present : Bool) : WorkStore × Except WorkError Unit :=
  let members := if present then insert user project.members else project.members.erase user
  let full := ¬ project.revision + 1 < 2 ^ 64
  let project := { project with
    members
    revision := if full then project.revision else project.revision + 1 }
  ({ store with projects := store.projects.insert projectId project },
    if full then .error .full else .ok ())

/-- `set_member`. -/
def setMember (store : WorkStore) (projectId : Nat) (access : WorkAccess) (user : Nat)
    (present : Bool) : WorkStore × Except WorkError Unit :=
  let checked : Except WorkError WorkProject := do
    let project ← required store.projects[projectId]? .missing
    project.authorize access true
    ensure ((match project.scope with
      | .personal _ => false
      | .team _ _ => true) && user ≠ 0 && decide (user ∉ project.managers)) .invalid
    .ok project
  match checked with
  | .error e => (store, .error e)
  | .ok project => store.withMember projectId project user present

/-- `add_goal`. -/
def addGoal (store : WorkStore) (projectId : Nat) (access : WorkAccess) (title requestId : String) :
    Except WorkError (WorkStore × Nat) := do
  let _ ← store.project projectId access
  validText title 300
  checkRequest requestId
  let key := s!"{access.actor}:{projectId}:goal:{requestId}"
  match store.requestIds[key]? with
  | some id => .ok (store, id)
  | none => do
    let (store, id) ← store.nextId
    .ok ({ store with
      goals := store.goals.insert id ⟨id, projectId, trim title, access.actor, false⟩
      requestIds := store.requestIds.insert key id }, id)

/-- The checks of `add_task`. -/
def checkTask (store : WorkStore) (project : WorkProject) (task : WorkTask) :
    Except WorkError Unit :=
  ensure (task.priority ≤ 3 &&
    task.github.all (fun reference => reference.validate.isOk &&
      project.allowsGithubRepository reference.repository) &&
    task.assignee.all (fun id => decide (id ∈ project.members)) &&
    task.goalId.all (fun id => store.goals[id]?.any (fun goal => goal.projectId = task.projectId)) &&
    task.source.all (fun source => source.utf8ByteSize ≤ 500 && "https://".toList.isPrefixOf source.toList))
    .invalid

/-- `add_task`. -/
def addTask (store : WorkStore) (access : WorkAccess) (task : WorkTask) (requestId : String) :
    Except WorkError (WorkStore × Nat) := do
  let project ← store.project task.projectId access
  validText task.title 300
  store.checkTask project task
  checkRequest requestId
  let key := s!"{access.actor}:{task.projectId}:task:{requestId}"
  match store.requestIds[key]? with
  | some id => .ok (store, id)
  | none => do
    let (store, id) ← store.nextId
    .ok ({ store with
      tasks := store.tasks.insert id { task with
        id
        github := task.github.map (fun reference =>
          { reference with repository := reference.repository.canonical })
        owner := access.actor
        revision := 0 }
      requestIds := store.requestIds.insert key id }, id)

/-- The task that a caller may change, at a revision. -/
def editable (store : WorkStore) (access : WorkAccess) (id revision : Nat) :
    Except WorkError WorkTask := do
  let task ← required store.tasks[id]? .missing
  let _ ← store.project task.projectId access
  ensure (task.revision = revision) .stale
  .ok task

/-- `update_task`. -/
def updateTask (store : WorkStore) (access : WorkAccess) (id revision : Nat) (status : WorkStatus)
    (snoozedUntil : Option Nat) : Except WorkError (WorkStore × Nat) := do
  let task ← store.editable access id revision
  ensure (task.revision + 1 < 2 ^ 64) .full
  .ok ({ store with
    tasks := store.tasks.insert id { task with
      status, snoozedUntil, revision := task.revision + 1 } }, task.revision + 1)

/-- `record_decision`. -/
def recordDecision (store : WorkStore) (projectId : Nat) (access : WorkAccess) (text : String)
    (at_ : Nat) (requestId : String) : Except WorkError (WorkStore × Nat) := do
  let _ ← store.project projectId access
  validText text 1000
  checkRequest requestId
  let key := s!"{access.actor}:{projectId}:decision:{requestId}"
  match store.requestIds[key]? with
  | some id => .ok (store, id)
  | none => do
    let (store, id) ← store.nextId
    .ok ({ store with
      decisions := store.decisions.insert id ⟨id, projectId, access.actor, trim text, at_⟩
      requestIds := store.requestIds.insert key id }, id)

/-! ## Links -/

/-- `link_github`. -/
def linkGithub (store : WorkStore) (taskId revision : Nat) (access : WorkAccess)
    (reference : GitHubReference) : Except WorkError WorkStore := do
  reference.validate
  let task ← required store.tasks[taskId]? .missing
  let project ← store.project task.projectId access
  ensure (project.allowsGithubRepository reference.repository) .denied
  ensure (task.revision = revision) .stale
  ensure (task.revision + 1 < 2 ^ 64) .full
  .ok { store with
    tasks := store.tasks.insert taskId { task with
      github := some { reference with repository := reference.repository.canonical }
      revision := task.revision + 1 } }

/-- `allow_github_repository`. -/
def allowGithubRepository (store : WorkStore) (projectId : Nat) (access : WorkAccess)
    (repository : GitHubRepository) (allowed : Bool) : Except WorkError WorkStore := do
  repository.validate
  let repository := repository.canonical
  let project ← required store.projects[projectId]? .missing
  project.authorize access true
  ensure (project.revision + 1 < 2 ^ 64) .full
  let kept := project.allowedGithubRepositories.filter
    (fun candidate => candidate.sameIdentity repository = false)
  .ok { store with
    projects := store.projects.insert projectId { project with
      allowedGithubRepositories := if allowed then insert repository kept else kept
      revision := project.revision + 1 } }

/-- `migrate_github_sources`, for a reading of the old links. -/
def migrateGithubSources (parse : String → Finset GitHubRepository → Option GitHubReference)
    (store : WorkStore) (projectId : Nat) (access : WorkAccess) :
    Except WorkError (WorkStore × Nat) := do
  let project ← required store.projects[projectId]? .missing
  project.authorize access true
  let tasks := store.tasks.values.filter (fun t => t.projectId = projectId && t.github.isNone)
  let changes := tasks.filterMap (fun t => (t.source.bind (fun source =>
    parse source project.allowedGithubRepositories)).map (fun reference => (t, reference)))
  ensure (changes.all (fun c => c.1.revision + 1 < 2 ^ 64)) .full
  .ok ({ store with
    tasks := changes.foldl (fun tasks c => tasks.insert c.1.id
      { c.1 with github := some c.2, revision := c.1.revision + 1 }) store.tasks }, changes.length)

end WorkStore

end Abbey.Work
