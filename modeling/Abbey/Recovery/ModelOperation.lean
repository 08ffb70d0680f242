import Abbey.Tool.Records

/-!
# Model operations

`src/runtime/store/model_operation.rs` over the table of
`migration_7_model_operations.sql`: downloads, loads and unloads of a
model, each under an identifier that is never used twice.

`ModelOperationRecord.check` is the `CHECK` constraint of the table.
`OperationsChecked` says that every row meets it; both writes and the
recovery of an open keep it.
-/

namespace Abbey.Recovery

open Abbey.Lib Abbey.Run List

/-! ## Records -/

inductive ModelOperationKind where
  | download
  | load
  | unload
  deriving DecidableEq

inductive ModelOperationState where
  | queued
  | running
  | succeeded
  | failed
  | cancelled
  deriving DecidableEq

def ModelOperationState.terminal : ModelOperationState → Bool
  | .succeeded | .failed | .cancelled => true
  | .queued | .running => false

/-- `NewModelOperation`: the inputs of a new operation. -/
structure NewModelOperation where
  operationId : String
  modelId : String
  revision : String
  kind : ModelOperationKind
  createdAtMs : Nat

/-- A row of `model_operations`. -/
structure ModelOperationRecord where
  operationId : String
  modelId : String
  revision : String
  kind : ModelOperationKind
  state : ModelOperationState
  progressBasisPoints : Nat
  createdAtMs : Nat
  updatedAtMs : Nat
  deriving DecidableEq

variable {record : ModelOperationRecord}

/-- The `CHECK` constraints of the table. -/
def ModelOperationRecord.check (record : ModelOperationRecord) : Bool :=
  record.progressBasisPoints ≤ 10000 && record.createdAtMs ≤ record.updatedAtMs

abbrev Operations := Table ModelOperationRecord.operationId

variable {operations : Operations}

def maxModelOperations : Nat := 4096

/-! ## Operations -/

def validateId (value : String) : Except StoreError Unit :=
  ensure (isIdentifier value 128) (.invalidInput "invalid model operation identifier")

/-- A `u64` of milliseconds as an SQLite integer. -/
def operationMs (value : Nat) : Except StoreError Nat :=
  if value ≤ sqliteMax then .ok value
  else .error (.invalidInput "model operation time exceeds i64")

@[simp] theorem operationMs_eq_ok : operationMs value = .ok n ↔ value ≤ sqliteMax ∧ value = n := by
  unfold operationMs
  split_ifs with h <;> simp [h]

/-- The row of a new operation. -/
def queuedOperation (operation : NewModelOperation) : ModelOperationRecord where
  operationId := operation.operationId
  modelId := operation.modelId
  revision := operation.revision
  kind := operation.kind
  state := .queued
  progressBasisPoints := 0
  createdAtMs := operation.createdAtMs
  updatedAtMs := operation.createdAtMs

/-- `create_model_operation`. -/
def createModelOperation (operations : Operations) (operation : NewModelOperation) :
    Except StoreError (Operations × ModelOperationRecord) := do
  validateId operation.operationId
  validateId operation.modelId
  validateId operation.revision
  let _ ← operationMs operation.createdAtMs
  ensure (operations.rows.length < maxModelOperations) .modelOperationCapacity
  let operations' ← required (operations.insert? (queuedOperation operation))
    .modelOperationConflict
  .ok (operations', queuedOperation operation)

def permitted : ModelOperationState → ModelOperationState → Bool
  | .queued, .running | .queued, .cancelled | .queued, .failed => true
  | .running, .running | .running, .succeeded | .running, .failed | .running, .cancelled => true
  | _, _ => false

def ModelOperationRecord.move (state : ModelOperationState) (progress updated : Nat)
    (record : ModelOperationRecord) : ModelOperationRecord :=
  { record with state, progressBasisPoints := progress, updatedAtMs := updated }

@[simp] theorem operationId_move (state : ModelOperationState) (progress updated : Nat)
    (record : ModelOperationRecord) :
    (record.move state progress updated).operationId = record.operationId := rfl

/-- `transition_model_operation`. -/
def transitionModelOperation (operations : Operations) (operationId : String)
    (state : ModelOperationState) (progress updatedAtMs : Nat) :
    Except StoreError (Operations × ModelOperationRecord) := do
  validateId operationId
  ensure (progress ≤ 10000) (.invalidInput "model progress exceeds 10000")
  let updated ← operationMs updatedAtMs
  let current ← required (operations.find operationId) (.modelOperationNotFound operationId)
  ensure (!current.state.terminal && permitted current.state state) .modelOperationConflict
  ensure (current.progressBasisPoints ≤ progress && current.updatedAtMs ≤ updatedAtMs &&
    (state ≠ .succeeded || progress = 10000)) .modelOperationConflict
  let operations' ← required
    (operations.update? (fun record => record.operationId = operationId)
      (ModelOperationRecord.move state progress updated) (operationId_move state progress updated)
      ModelOperationRecord.check) .database
  .ok (operations', current.move state progress updated)

/-- The row of an operation that a restart found unfinished. -/
def ModelOperationRecord.abandon (updated : Nat) (record : ModelOperationRecord) :
    ModelOperationRecord :=
  { record with state := .failed, updatedAtMs := max record.updatedAtMs updated }

@[simp] theorem operationId_abandon (updated : Nat) (record : ModelOperationRecord) :
    (record.abandon updated).operationId = record.operationId := rfl

/-- `recover_incomplete_on`: one statement over the unfinished operations. -/
def recoverIncompleteOn (operations : Operations) (updatedAtMs : Nat) :
    Except StoreError (Operations × Nat) := do
  let updated ← operationMs updatedAtMs
  let operations' ← required
    (operations.update? (fun record => !record.state.terminal)
      (ModelOperationRecord.abandon updated) (operationId_abandon updated)
      ModelOperationRecord.check) .database
  .ok (operations', (operations.rows.filter (fun record => !record.state.terminal)).length)

/-! ## The constraint of the table -/

def OperationsChecked (operations : Operations) : Prop :=
  ∀ record ∈ operations.rows, record.check = true

theorem OperationsChecked.empty : OperationsChecked .empty := by
  simp [OperationsChecked, Table.empty]

variable {operations' : Operations} {updatedAtMs updated : Nat}

theorem OperationsChecked.update (h : OperationsChecked operations)
    (hupdate : operations.update? p f hf ModelOperationRecord.check = some operations') :
    OperationsChecked operations' := by
  obtain ⟨hcheck, rfl⟩ := Table.update?_eq_some_iff.mp hupdate
  intro record hrecord
  obtain ⟨old, hold, rfl⟩ := mem_map.mp hrecord
  split_ifs with hp
  · exact hcheck old hold hp
  · exact h old hold

theorem OperationsChecked.create (h : OperationsChecked operations)
    (hcreate : createModelOperation operations operation = .ok (operations', record)) :
    OperationsChecked operations' := by
  unfold createModelOperation at hcreate
  simp only [bind_ok_iff, required_eq_ok, Except.ok.injEq, Prod.mk.injEq] at hcreate
  obtain ⟨_, _, _, _, _, _, _, _, _, _, _, hinsert, rfl, _⟩ := hcreate
  intro row hrow
  rw [Table.rows_insert hinsert, mem_append, mem_singleton] at hrow
  rcases hrow with hold | rfl
  · exact h row hold
  · simp [ModelOperationRecord.check, queuedOperation]

theorem OperationsChecked.transition (h : OperationsChecked operations)
    (hmove : transitionModelOperation operations operationId state progress updatedAtMs =
      .ok (operations', record)) : OperationsChecked operations' := by
  unfold transitionModelOperation at hmove
  simp only [bind_ok_iff, required_eq_ok, Except.ok.injEq, Prod.mk.injEq] at hmove
  obtain ⟨_, _, _, _, _, _, _, _, _, _, _, _, _, hupdate, rfl, _⟩ := hmove
  exact h.update hupdate

theorem check_abandon (h : record.check) (updated : Nat) :
    (record.abandon updated).check := by
  simp only [ModelOperationRecord.check, Bool.and_eq_true, decide_eq_true_eq] at h ⊢
  have hmax : record.updatedAtMs ≤ max record.updatedAtMs updated := le_max_left _ _
  exact ⟨h.1, h.2.trans hmax⟩

/-- The operations after a recovery. -/
def abandoned (operations : Operations) (updated : Nat) : Operations :=
  operations.modify (fun record => !record.state.terminal)
    (ModelOperationRecord.abandon updated) (operationId_abandon updated)

/-- The recovery of a checked table fails on no reading of the clock that
SQLite can store. -/
theorem recoverIncompleteOn_total (h : OperationsChecked operations)
    (hmax : updatedAtMs ≤ sqliteMax) :
    recoverIncompleteOn operations updatedAtMs = .ok (abandoned operations updatedAtMs,
      (operations.rows.filter (fun record => !record.state.terminal)).length) := by
  unfold recoverIncompleteOn
  simp only [bind_ok_iff, operationMs_eq_ok, required_eq_ok, Table.update?_eq_some_iff]
  exact ⟨updatedAtMs, ⟨hmax, rfl⟩, _,
    ⟨fun record hrecord _ => check_abandon (h record hrecord) updatedAtMs, rfl⟩, rfl⟩

theorem OperationsChecked.abandoned (h : OperationsChecked operations) (updated : Nat) :
    OperationsChecked (abandoned operations updated) := by
  intro record hrecord
  obtain ⟨old, hold, rfl⟩ := mem_map.mp hrecord
  split_ifs
  · exact check_abandon (h old hold) updated
  · exact h old hold

theorem terminal_of_mem_abandoned (h : record ∈ (abandoned operations updated).rows) :
    record.state.terminal := by
  obtain ⟨old, _, rfl⟩ := mem_map.mp h
  split_ifs with hstate
  · rfl
  · simpa using hstate

/-- A finished operation is left as it is. -/
theorem find_abandoned_of_terminal {id : String}
    (h : operations.find id = some record) (hterminal : record.state.terminal) :
    (abandoned operations updated).find id = some record := by
  rw [abandoned, Table.find_modify, h]
  simp [hterminal]

end Abbey.Recovery
