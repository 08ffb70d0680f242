import Abbey.Lib.Durable
import Abbey.Memory.Record

/-!
# The memory store

`src/memory/mod.rs`: the interface both memory backends implement.  A write
is a computation with durable steps; between two of them the process may
die.  A read answers with what it found or with an error.

* `MemoryStore.perform` is one write, and `Reachable` the stores any writes
  lead to, each of them finished, failed or cut short.
-/

namespace Abbey.Memory

open Abbey.Lib

structure MemoryStore (σ : Type) where
  empty : σ
  store : MemoryRecord → Durable σ String Unit
  get : σ → String → Except String (Option MemoryRecord)
  update : MemoryRecord → Durable σ String Unit
  invalidate : String → Durable σ String Unit
  searchKeyword : σ → String → Nat → Except String (List MemoryRecord)
  searchKeywordWith : σ → String → MemoryFilter → Nat → Except String (List MemoryRecord)
  filterWith : σ → MemoryFilter → Nat → Except String (List MemoryRecord)
  allRecordsIncludingObsolete : σ → Except String (List MemoryRecord)
  promote : String → String → Durable σ String Unit
  supersede : String → MemoryRecord → Durable σ String Unit
  putEmbedding : StoredEmbedding → Durable σ String Unit
  embeddingCandidates : σ → String → Nat → Except String (List MemoryRecord)
  embeddingStatus : σ → String → Except String EmbeddingStatus
  embeddingIsCurrent : σ → String → String → Except String Bool

/-- The writes. -/
inductive Op where
  | store (rec : MemoryRecord)
  | update (rec : MemoryRecord)
  | invalidate (id : String)
  | promote (id newRetention : String)
  | supersede (oldId : String) (newRec : MemoryRecord)
  | putEmbedding (embedding : StoredEmbedding)

namespace MemoryStore

variable {σ : Type} (backend : MemoryStore σ)

def perform : Op → Durable σ String Unit
  | .store rec => backend.store rec
  | .update rec => backend.update rec
  | .invalidate id => backend.invalidate id
  | .promote id newRetention => backend.promote id newRetention
  | .supersede oldId newRec => backend.supersede oldId newRec
  | .putEmbedding embedding => backend.putEmbedding embedding

def Succeeds (op : Op) (db : σ) : Prop := (backend.perform op db).result = .ok ()

/-- The store after a write, also after one that failed. -/
def after (op : Op) (db : σ) : σ := (backend.perform op).final db

/-- What writes lead to, when any of them may be interrupted. -/
inductive Reachable : σ → Prop
  | empty : Reachable backend.empty
  | write {db db' : σ} {op : Op} (before : Reachable db)
      (crash : Crash (backend.perform op) db db') : Reachable db'

end MemoryStore

/-! ## What one write does -/

section Writes

variable {σ τ : Type} {x : Durable σ String Unit} {db : σ}

/-- One durable step, which puts a record under its id and leaves the rest. -/
def Puts (find : σ → String → Option MemoryRecord) (rest : σ → τ) (x : Durable σ String Unit)
    (rec : MemoryRecord) (db : σ) : Prop :=
  ∃ db', x db = ⟨[db'], .ok ()⟩ ∧ rest db' = rest db ∧
    ∀ id, find db' id = if rec.id = id then some rec else find db id

/-- An error before any durable step. -/
def Refuses (x : Durable σ String Unit) (db : σ) : Prop := ∃ e, x db = ⟨[], .error e⟩

theorem Refuses.crash (h : Refuses x db) (hcrash : Crash x db db') : db' = db := by
  obtain ⟨e, he⟩ := h
  rcases hcrash with rfl | hmem
  · rfl
  · rw [he] at hmem
    cases hmem

end Writes

end Abbey.Memory
