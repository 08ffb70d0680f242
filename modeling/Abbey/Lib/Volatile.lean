import Mathlib.Tactic.Common

/-!
# Directory entries before and after a sync

A change to a directory is seen at once and is on the disk after the next
sync.  Until then a loss of power leaves any of the values the entry had
since the last sync.  `Entry` keeps these values beside the one that is read
now, and `All` speaks about every one of them.
-/

namespace Abbey.Lib

variable {α : Type}

/-- What is read now, and what may be on the disk. -/
structure Entry (α : Type) where
  now : α
  possible : List α
  mem : now ∈ possible

namespace Entry

/-- An entry that is on the disk. -/
def settled (v : α) : Entry α := ⟨v, [v], List.mem_singleton_self v⟩

def write (e : Entry α) (v : α) : Entry α := ⟨v, v :: e.possible, List.mem_cons_self⟩

def sync (e : Entry α) : Entry α := settled e.now

@[simp] theorem now_settled (v : α) : (settled v).now = v := rfl

@[simp] theorem now_write (e : Entry α) (v : α) : (e.write v).now = v := rfl

@[simp] theorem now_sync (e : Entry α) : e.sync.now = e.now := rfl

/-- What a restart finds came from before it. -/
def Survives (new old : Entry α) : Prop := ∀ v ∈ new.possible, v ∈ old.possible

instance [DecidableEq α] (new old : Entry α) : Decidable (Survives new old) :=
  inferInstanceAs (Decidable (∀ v ∈ new.possible, v ∈ old.possible))

/-- Every value the disk may hold has a property. -/
def All (P : α → Prop) (e : Entry α) : Prop := ∀ v ∈ e.possible, P v

variable {P Q : α → Prop} {e new old : Entry α} {v : α}

theorem All.now (h : e.All P) : P e.now := h e.now e.mem

theorem All.mono (h : e.All P) (hPQ : ∀ v, P v → Q v) : e.All Q := fun v hv => hPQ v (h v hv)

theorem All.survives (h : old.All P) (hnew : Survives new old) : new.All P :=
  fun v hv => h v (hnew v hv)

@[simp] theorem all_settled : (settled v).All P ↔ P v := by simp [All, settled]

@[simp] theorem all_write : (e.write v).All P ↔ P v ∧ e.All P := by simp [All, write]

@[simp] theorem all_sync : e.sync.All P ↔ P e.now := by simp [sync]

end Entry

end Abbey.Lib
