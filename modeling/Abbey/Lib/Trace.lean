import Mathlib.Data.List.Induction

/-!
# Runs with their events

A run from a start state, with the list of its events, oldest first.  What
may happen next can depend on what has happened before.

`Trace.invariant` is the induction over a run, `Trace.last` and
`Trace.of_append` take a run apart, and `Trace.since` carries a property
from the event that made it true to the end of the run.
-/

namespace Abbey.Lib

open List

variable {σ ε : Type} {start : σ → Prop} {next : σ → List ε → ε → σ → Prop} {s t : σ}
  {log rest : List ε} {e : ε}

inductive Trace (start : σ → Prop) (next : σ → List ε → ε → σ → Prop) : σ → List ε → Prop
  | nil {s : σ} (h : start s) : Trace start next s []
  | snoc {s t : σ} {log : List ε} {e : ε} (before : Trace start next s log)
      (step : next s log e t) : Trace start next t (log ++ [e])

namespace Trace

theorem last (h : Trace start next t (log ++ [e])) :
    ∃ s, Trace start next s log ∧ next s log e t := by
  generalize hevents : log ++ [e] = events at h
  cases h with
  | nil _ => simp at hevents
  | snoc hbefore hstep =>
    obtain ⟨rfl, hlast⟩ := append_inj' hevents rfl
    cases hlast
    exact ⟨_, hbefore, hstep⟩

/-- The run up to some event. -/
theorem of_append (h : Trace start next t (log ++ rest)) : ∃ s, Trace start next s log := by
  induction rest using reverseRecOn generalizing t with
  | nil => exact ⟨t, by rwa [append_nil] at h⟩
  | append_singleton rest e ih =>
    rw [← append_assoc] at h
    obtain ⟨s, hs, _⟩ := h.last
    exact ih hs

/-- One event of a run, with the run before it. -/
theorem at_event (h : Trace start next t (log ++ e :: rest)) :
    ∃ s u, Trace start next s log ∧ next s log e u := by
  have hsplit : log ++ e :: rest = (log ++ [e]) ++ rest := by simp
  rw [hsplit] at h
  obtain ⟨u, hu⟩ := h.of_append
  obtain ⟨s, hs, hstep⟩ := hu.last
  exact ⟨s, u, hs, hstep⟩

theorem invariant {I : σ → List ε → Prop} (hstart : ∀ s, start s → I s [])
    (hstep : ∀ s log e t, I s log → next s log e t → I t (log ++ [e]))
    (h : Trace start next s log) : I s log := by
  induction h with
  | nil hs => exact hstart _ hs
  | snoc _ hnext ih => exact hstep _ _ _ _ ih hnext

/-- A property that some event makes true and no later one makes false, as
long as all later events are allowed. -/
theorem since (P : σ → Prop) (begins : List ε → ε → Prop) (allowed : ε → Prop)
    (hbegins : ∀ s log e t, Trace start next s log → next s log e t → begins log e → P t)
    (hkeeps : ∀ s log e t, Trace start next s log → next s log e t →
      (∃ pre f mid, log = pre ++ f :: mid ∧ begins pre f) → allowed e → P s → P t)
    (h : Trace start next t (log ++ e :: rest)) (hbegin : begins log e)
    (hrest : ∀ f ∈ rest, allowed f) : P t := by
  induction rest using reverseRecOn generalizing t with
  | nil =>
    obtain ⟨s, hs, hnext⟩ := h.last
    exact hbegins s log e t hs hnext hbegin
  | append_singleton rest f ih =>
    rw [← cons_append, ← append_assoc] at h
    obtain ⟨s, hs, hnext⟩ := h.last
    have hbefore : P s := ih hs (fun g hg => hrest g (mem_append_left _ hg))
    exact hkeeps s _ f t hs hnext ⟨log, e, rest, rfl, hbegin⟩ (hrest f (by simp)) hbefore

end Trace

end Abbey.Lib
