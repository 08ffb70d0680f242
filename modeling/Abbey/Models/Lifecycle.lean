import Abbey.Authority.Invoke
import Abbey.Recovery.ModelOperation
import Mathlib.Data.Finset.Basic

/-!
# The lifecycle of local models

`src/daemon/runtime_v3/model_lifecycle.rs` over the operations of
`src/runtime/store/model_operation.rs`.  A download, a load or an unload of
one revision of a model is a durable operation; a download and a load run on
a thread of their own after the command has answered.

Three pieces of state are written at different moments: the operations, the
set of active revisions and the map of loaded models.  A `Task` is a command
together with the worker that it starts, and its points are the places
between two atomic actions: a call of the store, a section under a lock, an
artifact fetched or a provider loaded.  `next` lets any task take its next
action, so a run is any interleaving.

The signed registry and the acceptance ledger are opened once; `Registry` is
what the commands ask of them.  What an action finds outside is in `Env`.
-/

namespace Abbey.Models

open Abbey.Lib Abbey.Run Abbey.Recovery Abbey.Daemon Abbey.Authority

/-! ## Actions and answers -/

structure V3ModelAction where
  modelId : String
  revision : String
  operationId : String

def V3ModelAction.validate (action : V3ModelAction) : Except ValidationError Unit := do
  validateV3Id action.modelId
  validateV3Id action.revision
  validateV3Id action.operationId

inductive V3OperationState where
  | available
  | queued
  | running
  | inputRequired
  | succeeded
  | failed
  | denied
  | cancelled
  | notDownloaded

structure V3OperationStatus where
  operationId : String
  resourceId : String
  state : V3OperationState
  progressBasisPoints : Nat

def statusState : ModelOperationState → V3OperationState
  | .queued => .queued
  | .running => .running
  | .succeeded => .succeeded
  | .failed => .failed
  | .cancelled => .cancelled

def status (record : ModelOperationRecord) : V3OperationStatus where
  operationId := record.operationId
  resourceId := record.modelId
  state := statusState record.state
  progressBasisPoints := record.progressBasisPoints

abbrev Reply := Except HandlerFailure V3OperationStatus

/-! ## Failures -/

def notFoundFailure : HandlerFailure := ⟨"not_found", "model resource was not found"⟩

def conflictFailure : HandlerFailure :=
  ⟨"conflict", "model operation conflicts with durable state"⟩

def modelDeniedFailure : HandlerFailure :=
  ⟨"model_not_authorized",
    "model license acceptance does not authorize this exact model revision"⟩

def runtimeFailure : HandlerFailure :=
  ⟨"runtime_unavailable", "model runtime operation is unavailable"⟩

def mapStoreError : StoreError → HandlerFailure
  | .modelOperationNotFound _ => notFoundFailure
  | .modelOperationConflict => conflictFailure
  | .modelOperationCapacity =>
    ⟨"resource_exhausted", "model operation ledger reached its bounded capacity"⟩
  | .invalidInput _ => invalidCommandFailure
  | _ => runtimeFailure

/-! ## The registry -/

/-- The parts of a signed manifest that the lifecycle reads. -/
structure Manifest where
  revision : String
  artifacts : Nat

/-- The signed registry, with the licences that the principal accepted. -/
structure Registry where
  get : String → Option Manifest
  resolveFor : String → Bool

def validateModelRevision (registry : Registry) (modelId revision : String) :
    Except HandlerFailure Unit := do
  let manifest ← required (registry.get modelId) notFoundFailure
  ensure (manifest.revision = revision) invalidCommandFailure

def validateAction (registry : Registry) (action : V3ModelAction) :
    Except HandlerFailure Unit := do
  mapErr (fun _ => invalidCommandFailure) action.validate
  validateModelRevision registry action.modelId action.revision

/-! ## Shared state -/

structure ModelKey where
  modelId : String
  revision : String
  deriving DecidableEq

structure ActiveKey where
  modelId : String
  revision : String
  deriving DecidableEq

def modelKey (action : V3ModelAction) : ModelKey := ⟨action.modelId, action.revision⟩

def activeKey (action : V3ModelAction) : ActiveKey := ⟨action.modelId, action.revision⟩

/-- What the tasks share.  `writes` is not stored anywhere: it lists every
row that was written since the start, in order. -/
structure Shared where
  operations : Operations
  active : Finset ActiveKey
  loaded : Finset ModelKey
  writes : List ModelOperationRecord

/-- What one action finds outside: the reading of the clock, whether the
database answers, whether the audit is written, and whether the artifact
arrives, the provider loads or the thread starts. -/
structure Env where
  clock : Option Nat
  stored : Bool
  audited : Bool
  outcome : Bool

def storeCall {α : Type} (env : Env) (call : Except StoreError α) : Except HandlerFailure α :=
  mapErr mapStoreError (if env.stored then call else .error .database)

/-- `create_operation`. -/
def createOperation (env : Env) (s : Shared) (action : V3ModelAction)
    (kind : ModelOperationKind) : Except HandlerFailure (Shared × ModelOperationRecord) := do
  let now ← required env.clock runtimeFailure
  let (operations, record) ← storeCall env (createModelOperation s.operations
    ⟨action.operationId, action.modelId, action.revision, kind, now⟩)
  .ok ({ s with operations, writes := s.writes ++ [record] }, record)

/-- `transition`. -/
def transition (env : Env) (s : Shared) (operationId : String) (state : ModelOperationState)
    (progress : Nat) : Except HandlerFailure (Shared × ModelOperationRecord) := do
  let now ← required env.clock runtimeFailure
  let (operations, record) ← storeCall env
    (transitionModelOperation s.operations operationId state progress now)
  .ok ({ s with operations, writes := s.writes ++ [record] }, record)

/-- `RuntimeStore::model_operation`. -/
def modelOperation (s : Shared) (operationId : String) :
    Except StoreError (Option ModelOperationRecord) := do
  validateId operationId
  .ok (s.operations.find operationId)

/-! ## Tasks -/

/-- What runs on a thread of its own. -/
inductive Work where
  | download
  | load

def Work.kind : Work → ModelOperationKind
  | .download => .download
  | .load => .load

/-- The points of `start`. -/
inductive StartPoint where
  | acquire
  | create
  | audit (created : ModelOperationRecord)
  | failCreated (created : ModelOperationRecord)
  | spawn (created : ModelOperationRecord)
  | failSpawn (created : ModelOperationRecord)
  | auditFailed (failed : ModelOperationRecord)
  | release (reply : Reply)

/-- The points of `unload`. -/
inductive UnloadPoint where
  | acquire
  | create
  | audit (created : ModelOperationRecord)
  | run (created : ModelOperationRecord)
  | remove (created : ModelOperationRecord)
  | finish (created : ModelOperationRecord) (removed : Bool)
  | auditTerminal (terminal : ModelOperationRecord)
  | release (reply : Reply)

/-- The points of `run_download` and `run_load`. -/
inductive WorkerPoint where
  | run
  | fetch (index : Nat)
  | report (index : Nat)
  | check
  | load
  | insert
  | release (succeeded : Bool)
  | readProgress
  | finish (succeeded : Bool) (progress : Nat)
  | audit (record : ModelOperationRecord)

/-- The points of `cancel`. -/
inductive CancelPoint where
  | read
  | cancel (progress : Nat)
  | audit (updated : ModelOperationRecord)

inductive Task where
  | start (work : Work) (action : V3ModelAction) (point : StartPoint)
  | unload (action : V3ModelAction) (point : UnloadPoint)
  | worker (work : Work) (action : V3ModelAction) (point : WorkerPoint)
  | cancel (action : V3Action) (point : CancelPoint)
  | ended

/-- The shared state after an action, the task after it, and the answer of
the command when it returns. -/
structure Move where
  shared : Shared
  task : Task
  reply : Option Reply

/-! ## One action of each task -/

def startStep (env : Env) (s : Shared) (work : Work) (action : V3ModelAction) :
    StartPoint → Move
  | .acquire =>
    if activeKey action ∈ s.active then ⟨s, .ended, some (.error conflictFailure)⟩
    else ⟨{ s with active := insert (activeKey action) s.active },
      .start work action .create, none⟩
  | .create =>
    match createOperation env s action work.kind with
    | .error failure => ⟨s, .start work action (.release (.error failure)), none⟩
    | .ok (s', created) => ⟨s', .start work action (.audit created), none⟩
  | .audit created =>
    if env.audited then ⟨s, .start work action (.spawn created), none⟩
    else ⟨s, .start work action (.failCreated created), none⟩
  | .failCreated created =>
    match transition env s created.operationId .failed created.progressBasisPoints with
    | .error _ => ⟨s, .start work action (.release (.error runtimeFailure)), none⟩
    | .ok (s', _) => ⟨s', .start work action (.release (.error runtimeFailure)), none⟩
  | .spawn created =>
    if env.outcome then ⟨s, .worker work action .run, some (.ok (status created))⟩
    else ⟨s, .start work action (.failSpawn created), none⟩
  | .failSpawn created =>
    match transition env s created.operationId .failed created.progressBasisPoints with
    | .error failure => ⟨s, .ended, some (.error failure)⟩
    | .ok (s', failed) => ⟨s', .start work action (.auditFailed failed), none⟩
  | .auditFailed failed =>
    if env.audited then ⟨s, .start work action (.release (.ok (status failed))), none⟩
    else ⟨s, .ended, some (.error runtimeFailure)⟩
  | .release reply =>
    ⟨{ s with active := s.active.erase (activeKey action) }, .ended, some reply⟩

def unloadStep (env : Env) (s : Shared) (action : V3ModelAction) : UnloadPoint → Move
  | .acquire =>
    if activeKey action ∈ s.active then ⟨s, .ended, some (.error conflictFailure)⟩
    else ⟨{ s with active := insert (activeKey action) s.active }, .unload action .create, none⟩
  | .create =>
    match createOperation env s action .unload with
    | .error failure => ⟨s, .unload action (.release (.error failure)), none⟩
    | .ok (s', created) => ⟨s', .unload action (.audit created), none⟩
  | .audit created =>
    if env.audited then ⟨s, .unload action (.run created), none⟩
    else ⟨s, .unload action (.release (.error runtimeFailure)), none⟩
  | .run created =>
    match transition env s created.operationId .running 0 with
    | .error failure => ⟨s, .unload action (.release (.error failure)), none⟩
    | .ok (s', _) => ⟨s', .unload action (.remove created), none⟩
  | .remove created =>
    ⟨{ s with loaded := s.loaded.erase (modelKey action) },
      .unload action (.finish created (modelKey action ∈ s.loaded)), none⟩
  | .finish created removed =>
    match transition env s created.operationId (if removed then .succeeded else .failed)
        (if removed then 10000 else 0) with
    | .error failure => ⟨s, .unload action (.release (.error failure)), none⟩
    | .ok (s', terminal) => ⟨s', .unload action (.auditTerminal terminal), none⟩
  | .auditTerminal terminal =>
    if env.audited then ⟨s, .unload action (.release (.ok (status terminal))), none⟩
    else ⟨s, .unload action (.release (.error runtimeFailure)), none⟩
  | .release reply =>
    ⟨{ s with active := s.active.erase (activeKey action) }, .ended, some reply⟩

def u32Max : Nat := 2 ^ 32 - 1

/-- The progress after the artifact at `index` of `count`. -/
def downloadProgress (index count : Nat) : Option Nat :=
  if index + 1 ≤ u32Max ∧ count ≤ u32Max then some ((index + 1) * 10000 / count) else none

/-- The loop of `download_all` before the artifact at `index`. -/
def fetchPoint (registry : Registry) (action : V3ModelAction) (index : Nat) : WorkerPoint :=
  match registry.get action.modelId with
  | none => .release false
  | some manifest => if index < manifest.artifacts then .fetch index else .release true

/-- The progress that `download_all` writes after the artifact at `index`. -/
def reportProgress (registry : Registry) (action : V3ModelAction) (index : Nat) : Option Nat := do
  let manifest ← registry.get action.modelId
  downloadProgress index manifest.artifacts

/-- What a worker does first after its operation is running. -/
def workPoint (registry : Registry) (action : V3ModelAction) : Work → WorkerPoint
  | .download => fetchPoint registry action 0
  | .load => .check

def workerStep (registry : Registry) (env : Env) (s : Shared) (work : Work)
    (action : V3ModelAction) : WorkerPoint → Move
  | .run =>
    match transition env s action.operationId .running 0 with
    | .error _ => ⟨s, .worker work action (.release false), none⟩
    | .ok (s', _) => ⟨s', .worker work action (workPoint registry action work), none⟩
  | .fetch index =>
    if env.outcome then ⟨s, .worker work action (.report index), none⟩
    else ⟨s, .worker work action (.release false), none⟩
  | .report index =>
    match reportProgress registry action index with
    | none => ⟨s, .worker work action (.release false), none⟩
    | some progress =>
      match transition env s action.operationId .running progress with
      | .error _ => ⟨s, .worker work action (.release false), none⟩
      | .ok (s', _) =>
        ⟨s', .worker work action (fetchPoint registry action (index + 1)), none⟩
  | .check =>
    if modelKey action ∈ s.loaded then ⟨s, .worker work action (.release false), none⟩
    else ⟨s, .worker work action .load, none⟩
  | .load =>
    if env.outcome then ⟨s, .worker work action .insert, none⟩
    else ⟨s, .worker work action (.release false), none⟩
  | .insert =>
    ⟨{ s with loaded := insert (modelKey action) s.loaded },
      .worker work action (.release true), none⟩
  | .release succeeded =>
    ⟨{ s with active := s.active.erase (activeKey action) },
      .worker work action (if succeeded then .finish true 10000 else .readProgress), none⟩
  | .readProgress =>
    match storeCall env (modelOperation s action.operationId) with
    | .ok (some record) =>
      ⟨s, .worker work action (.finish false record.progressBasisPoints), none⟩
    | _ => ⟨s, .worker work action (.finish false 0), none⟩
  | .finish succeeded progress =>
    match transition env s action.operationId (if succeeded then .succeeded else .failed)
        progress with
    | .error _ => ⟨s, .ended, none⟩
    | .ok (s', record) => ⟨s', .worker work action (.audit record), none⟩
  | .audit _ => ⟨s, .ended, none⟩

def cancelStep (env : Env) (s : Shared) (action : V3Action) : CancelPoint → Move
  | .read =>
    match storeCall env (modelOperation s action.operationId) with
    | .error failure => ⟨s, .ended, some (.error failure)⟩
    | .ok none => ⟨s, .ended, some (.error notFoundFailure)⟩
    | .ok (some current) => ⟨s, .cancel action (.cancel current.progressBasisPoints), none⟩
  | .cancel progress =>
    match transition env s action.operationId .cancelled progress with
    | .error failure => ⟨s, .ended, some (.error failure)⟩
    | .ok (s', updated) => ⟨s', .cancel action (.audit updated), none⟩
  -- the outcome of this audit is ignored
  | .audit updated => ⟨s, .ended, some (.ok (status updated))⟩

def Task.step (registry : Registry) (env : Env) (s : Shared) : Task → Option Move
  | .start work action point => some (startStep env s work action point)
  | .unload action point => some (unloadStep env s action point)
  | .worker work action point => some (workerStep registry env s work action point)
  | .cancel action point => some (cancelStep env s action point)
  | .ended => none

/-! ## Runs -/

structure State where
  shared : Shared
  tasks : List Task
  replies : List Reply

inductive Event where
  | download (action : V3ModelAction)
  | load (action : V3ModelAction)
  | unload (action : V3ModelAction)
  | cancel (action : V3Action)
  | advance (index : Nat) (env : Env)

/-- `download`, `load`: the checks before `start`. -/
def admitWork (registry : Registry) (action : V3ModelAction) : Except HandlerFailure Unit := do
  validateAction registry action
  ensure (registry.resolveFor action.modelId) modelDeniedFailure

def admitCancel (action : V3Action) : Except HandlerFailure Unit :=
  mapErr (fun _ => invalidCommandFailure) action.validate

/-- A command that passes its checks becomes a task. -/
def State.command (s : State) (admitted : Except HandlerFailure Unit) (task : Task) : State :=
  match admitted with
  | .error failure => { s with replies := s.replies ++ [.error failure] }
  | .ok () => { s with tasks := s.tasks ++ [task] }

def next (registry : Registry) (s : State) : Event → Option State
  | .download action =>
    some (s.command (admitWork registry action) (.start .download action .acquire))
  | .load action => some (s.command (admitWork registry action) (.start .load action .acquire))
  | .unload action => some (s.command (validateAction registry action) (.unload action .acquire))
  | .cancel action => some (s.command (admitCancel action) (.cancel action .read))
  | .advance index env => do
    let task ← s.tasks[index]?
    let move ← task.step registry env s.shared
    some ⟨move.shared, s.tasks.set index move.task, s.replies ++ move.reply.toList⟩

/-- The state after the store was opened: the recovery left no operation
unfinished, nothing is active and nothing is loaded. -/
def initial (operations : Operations) : State :=
  ⟨⟨operations, ∅, ∅, []⟩, [], []⟩

end Abbey.Models
