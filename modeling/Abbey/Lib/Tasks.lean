import Mathlib.Data.List.Perm.Basic
import Mathlib.Data.List.Nodup

/-!
# Tasks over a shared state

A system of tasks is a list, and a step replaces one of them.  What is
proved of such a system does not depend on the order of the list, so a step
takes `task :: rest` to `task' :: rest` up to a permutation
(`exists_perm_set`).

`Exclusive f tasks` says that no two tasks have the same value of `f`: they
hold different locks, or own different records.  A step keeps it when the
task keeps its value, gives it up, or takes one that no other task has.
-/

namespace Abbey.Lib

open List

variable {τ κ : Type}

/-- A list around one of its entries, before and after the entry is replaced. -/
theorem exists_perm_set {tasks : List τ} (h : tasks[index]? = some task) :
    ∃ rest, tasks.Perm (task :: rest) ∧ ∀ task', (tasks.set index task').Perm (task' :: rest) := by
  obtain ⟨hlt, rfl⟩ := List.getElem?_eq_some_iff.mp h
  refine ⟨tasks.take index ++ tasks.drop (index + 1), ?_, fun task' => ?_⟩
  · have hsplit : tasks = tasks.take index ++ tasks[index] :: tasks.drop (index + 1) := by
      rw [List.getElem_cons_drop, List.take_append_drop]
    exact (List.Perm.of_eq hsplit).trans List.perm_middle
  · rw [List.set_eq_take_append_cons_drop, if_pos hlt]
    exact List.perm_middle

/-! ## Exclusive values -/

def Exclusive (f : τ → Option κ) (tasks : List τ) : Prop :=
  (tasks.filterMap f).Nodup

section

variable {f : τ → Option κ} {task task' : τ} {tasks tasks' rest : List τ}

theorem Exclusive.nil : Exclusive f [] := nodup_nil

theorem Exclusive.perm (h : Exclusive f tasks) (hperm : tasks.Perm tasks') : Exclusive f tasks' :=
  (hperm.filterMap f).nodup_iff.mp h

theorem exclusive_cons : Exclusive f (task :: rest) ↔
      (∀ k, f task = some k → ∀ other ∈ rest, f other ≠ some k) ∧ Exclusive f rest := by
  unfold Exclusive
  cases hf : f task with
  | none => simp [filterMap_cons, hf]
  | some k =>
    rw [filterMap_cons_some hf, nodup_cons]
    simp only [mem_filterMap, Option.some.injEq, forall_eq', not_exists, not_and, ne_eq]

variable (h : Exclusive f (task :: rest))

include h

theorem Exclusive.tail : Exclusive f rest :=
  (exclusive_cons.mp h).2

theorem Exclusive.ne_of_mem (hk : f task = some k) (hother : other ∈ rest) : f other ≠ some k :=
  (exclusive_cons.mp h).1 k hk other hother

/-- A task that keeps its value or gives it up. -/
theorem Exclusive.keep (hkeep : f task' = f task ∨ f task' = none) :
    Exclusive f (task' :: rest) := by
  refine exclusive_cons.mpr ⟨fun k hk other hother => ?_, h.tail⟩
  rcases hkeep with heq | hnone
  · exact h.ne_of_mem (heq ▸ hk) hother
  · rw [hnone] at hk
    cases hk

/-- A task that takes a value that no other task has. -/
theorem Exclusive.take (htake : ∀ k, f task' = some k → ∀ other ∈ rest, f other ≠ some k) :
    Exclusive f (task' :: rest) :=
  exclusive_cons.mpr ⟨htake, h.tail⟩

omit h

/-- A new task that has no value yet. -/
theorem Exclusive.cons_of_none (h : Exclusive f rest) (hnone : f task = none) :
    Exclusive f (task :: rest) := by
  refine exclusive_cons.mpr ⟨fun k hk => ?_, h⟩
  rw [hnone] at hk
  cases hk

end

end Abbey.Lib
