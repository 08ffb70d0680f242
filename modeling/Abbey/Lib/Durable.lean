import Abbey.Lib.Checked
import Mathlib.Logic.Relation

/-!
# Computations with durable steps

A computation over a state that survives a crash answers with the list of
states it went through, one for each durable step, and with its result.
Between two durable steps it may be interrupted; `Crash x s t` says that
`t` is what an interruption of `x` started in `s` leaves behind.  `Ends`
says that the computation ran to its end.

The rules take a sequence apart: `ends_bind_iff` and `crash_bind`.
`crash_forM_invariant` carries a property through a loop, and
`ends_forM_of_crash` is the rule for recovery: a loop whose steps skip what
is done ends in the same state when it is run again after a crash.
-/

namespace Abbey.Lib

open List

variable {σ ε α β : Type}

/-- The states after each durable step, and the result. -/
structure Outcome (σ ε α : Type) where
  steps : List σ
  result : Except ε α

/-- A computation with durable steps. -/
def Durable (σ ε α : Type) : Type := σ → Outcome σ ε α

namespace Durable

/-- The state at the end of a computation, also of one that failed. -/
def final (x : Durable σ ε α) (s : σ) : σ := (x s).steps.getLastD s

protected def pure (a : α) : Durable σ ε α := fun _ => ⟨[], .ok a⟩

protected def bind (x : Durable σ ε α) (f : α → Durable σ ε β) : Durable σ ε β := fun s =>
  match (x s).result with
  | .error e => ⟨(x s).steps, .error e⟩
  | .ok a => ⟨(x s).steps ++ (f a (x.final s)).steps, (f a (x.final s)).result⟩

instance : Monad (Durable σ ε) where
  pure := Durable.pure
  bind := Durable.bind

/-- A check or a computation that reads nothing. -/
def lift (r : Except ε α) : Durable σ ε α := fun _ => ⟨[], r⟩

/-- Read the state. -/
def read (f : σ → Except ε α) : Durable σ ε α := fun s => ⟨[], f s⟩

/-- One durable step, all or nothing. -/
def commit (f : σ → Except ε (σ × α)) : Durable σ ε α := fun s =>
  match f s with
  | .ok (t, a) => ⟨[t], .ok a⟩
  | .error e => ⟨[], .error e⟩

/-- One more step at the end, also of a computation that failed. -/
def closing (x : Durable σ ε α) (close : Except ε α → σ → σ) : Durable σ ε α := fun s =>
  ⟨(x s).steps ++ [close (x s).result (x.final s)], (x s).result⟩

end Durable

/-- The computation runs to its end. -/
def Ends (x : Durable σ ε α) (s : σ) (a : α) (t : σ) : Prop :=
  (x s).result = .ok a ∧ x.final s = t

/-- What an interruption between two durable steps leaves behind. -/
def Crash (x : Durable σ ε α) (s t : σ) : Prop := t = s ∨ t ∈ (x s).steps

section Rules

variable {x : Durable σ ε α} {f : α → Durable σ ε β} {s t u : σ} {a : α} {b : β}
variable {y : Durable σ ε α} {r : Except ε α} {close : Except ε α → σ → σ} {steps : List σ} {e : ε}
  {g : σ → Except ε (σ × α)}

theorem Crash.start (x : Durable σ ε α) (s : σ) : Crash x s s := .inl rfl

theorem Ends.unique (h : Ends x s a t) (h' : Ends x s a' t') : a = a' ∧ t = t' :=
  ⟨Except.ok.inj (h.1.symm.trans h'.1), h.2.symm.trans h'.2⟩

/-- The state at the end, also of a computation that failed. -/
theorem crash_final (x : Durable σ ε α) (s : σ) : Crash x s (x.final s) := by
  unfold Crash Durable.final
  cases hsteps : (x s).steps with
  | nil => exact .inl rfl
  | cons u us =>
    right
    rw [getLastD_cons, getLastD_eq_getLast?]
    cases hlast : us.getLast? with
    | none => exact mem_cons_self
    | some v => exact mem_cons_of_mem u (mem_of_getLast? hlast)

theorem Ends.crash (h : Ends x s a t) : Crash x s t := by
  obtain ⟨_, rfl⟩ := h
  exact crash_final x s

theorem ends_pure : Ends (pure a : Durable σ ε α) s a' t ↔ a' = a ∧ t = s := by
  constructor
  · rintro ⟨hresult, hfinal⟩
    exact ⟨(Except.ok.inj hresult).symm, hfinal.symm⟩
  · rintro ⟨rfl, rfl⟩
    exact ⟨rfl, rfl⟩

theorem crash_pure : Crash (pure a : Durable σ ε α) s t ↔ t = s := by
  unfold Crash
  exact ⟨fun h => h.resolve_right not_mem_nil, .inl⟩

theorem ends_lift : Ends (.lift r : Durable σ ε α) s a t ↔ r = .ok a ∧ t = s := by
  constructor
  · rintro ⟨hresult, hfinal⟩
    exact ⟨hresult, hfinal.symm⟩
  · rintro ⟨hresult, rfl⟩
    exact ⟨hresult, rfl⟩

theorem crash_lift : Crash (.lift r : Durable σ ε α) s t ↔ t = s := by
  unfold Crash
  exact ⟨fun h => h.resolve_right not_mem_nil, .inl⟩

theorem ends_read {g : σ → Except ε α} : Ends (.read g) s a t ↔ g s = .ok a ∧ t = s := by
  constructor
  · rintro ⟨hresult, hfinal⟩
    exact ⟨hresult, hfinal.symm⟩
  · rintro ⟨hresult, rfl⟩
    exact ⟨hresult, rfl⟩

theorem crash_read {g : σ → Except ε α} : Crash (.read g) s t ↔ t = s := by
  unfold Crash
  exact ⟨fun h => h.resolve_right not_mem_nil, .inl⟩

theorem ends_commit : Ends (.commit g) s a t ↔ g s = .ok (t, a) := by
  unfold Ends Durable.final Durable.commit
  cases hg : g s with
  | error e => simp
  | ok result => simp [Prod.ext_iff, and_comm]

theorem crash_commit : Crash (.commit g) s t ↔ t = s ∨ ∃ a, g s = .ok (t, a) := by
  unfold Crash Durable.commit
  cases hg : g s with
  | error e => simp
  | ok result =>
    obtain ⟨u, a⟩ := result
    simp [eq_comm]

theorem final_bind_of_ok (h : (x s).result = .ok a) :
    (x >>= f).final s = (f a).final (x.final s) := by
  show ((Durable.bind x f) s).steps.getLastD s = _
  unfold Durable.bind
  rw [h]
  show ((x s).steps ++ (f a (x.final s)).steps).getLastD s = _
  unfold Durable.final
  rw [getLastD_eq_getLast?, getLast?_append, getLastD_eq_getLast?, getLastD_eq_getLast?]
  cases ((f a ((x s).steps.getLast?.getD s)).steps).getLast? <;> rfl

theorem result_bind_of_ok (h : (x s).result = .ok a) :
    ((x >>= f) s).result = (f a (x.final s)).result := by
  show ((Durable.bind x f) s).result = _
  unfold Durable.bind
  rw [h]

theorem result_bind_of_error (h : (x s).result = .error e) : ((x >>= f) s).result = .error e := by
  show ((Durable.bind x f) s).result = _
  unfold Durable.bind
  rw [h]

/-- A sequence ends when both parts do. -/
theorem ends_bind_iff : Ends (x >>= f) s b u ↔ ∃ a t, Ends x s a t ∧ Ends (f a) t b u := by
  constructor
  · rintro ⟨hresult, hfinal⟩
    cases hx : (x s).result with
    | error e =>
      rw [result_bind_of_error hx] at hresult
      cases hresult
    | ok a =>
      rw [result_bind_of_ok hx] at hresult
      rw [final_bind_of_ok hx] at hfinal
      exact ⟨a, x.final s, ⟨hx, rfl⟩, hresult, hfinal⟩
  · rintro ⟨a, t, ⟨hx, rfl⟩, hresult, hfinal⟩
    refine ⟨?_, ?_⟩
    · rw [result_bind_of_ok hx]
      exact hresult
    · rw [final_bind_of_ok hx]
      exact hfinal

/-- A sequence is interrupted in its first part, or in its second part
after the first ran to its end. -/
theorem crash_bind (h : Crash (x >>= f) s u) :
    Crash x s u ∨ ∃ a t, Ends x s a t ∧ Crash (f a) t u := by
  rcases h with rfl | hmem
  · exact .inl (.start x _)
  · change u ∈ ((Durable.bind x f) s).steps at hmem
    unfold Durable.bind at hmem
    cases hx : (x s).result with
    | error e =>
      rw [hx] at hmem
      exact .inl (.inr hmem)
    | ok a =>
      rw [hx] at hmem
      rcases mem_append.mp hmem with hfirst | hsecond
      · exact .inl (.inr hfirst)
      · exact .inr ⟨a, x.final s, ⟨hx, rfl⟩, .inr hsecond⟩

/-- An interruption of the second part is one of the sequence. -/
theorem crash_bind_of_ends (hx : Ends x s a t) (h : Crash (f a) t u) : Crash (x >>= f) s u := by
  obtain ⟨hresult, rfl⟩ := hx
  have hsteps : ((x >>= f) s).steps = (x s).steps ++ (f a (x.final s)).steps := by
    show ((Durable.bind x f) s).steps = _
    unfold Durable.bind
    rw [hresult]
  unfold Crash
  rw [hsteps, mem_append]
  rcases h with rfl | hmem
  · rcases (show Ends x s a (x.final s) from ⟨hresult, rfl⟩).crash with hstart | hfirst
    · exact .inl hstart
    · exact .inr (.inl hfirst)
  · exact .inr (.inr hmem)

/-! ## Cuts -/

/-- What is left when a computation is cut after some durable steps. -/
def cut (k : Nat) (x : Durable σ ε α) (s : σ) : σ := ((x s).steps.take k).getLastD s

theorem crash_cut (k : Nat) (x : Durable σ ε α) (s : σ) : Crash x s (cut k x s) := by
  unfold Crash cut
  cases hsteps : (x s).steps.take k with
  | nil => exact .inl rfl
  | cons u us =>
    right
    have hmem : (u :: us).getLastD s ∈ u :: us := by
      rw [getLastD_cons, getLastD_eq_getLast?]
      cases hlast : us.getLast? with
      | none => exact mem_cons_self
      | some v => exact mem_cons_of_mem u (mem_of_getLast? hlast)
    have hsub : u :: us ⊆ (x s).steps := by
      rw [← hsteps]
      exact take_subset k _
    exact hsub hmem

theorem steps_bind_of_ok (h : (x s).result = .ok a) :
    ((x >>= f) s).steps = (x s).steps ++ (f a (x.final s)).steps := by
  show ((Durable.bind x f) s).steps = _
  unfold Durable.bind
  rw [h]

/-- A cut inside the second part of a sequence. -/
theorem cut_bind (hx : Ends x s a t) (k : Nat) :
    cut ((x s).steps.length + k) (x >>= f) s = cut k (f a) t := by
  obtain ⟨hresult, rfl⟩ := hx
  unfold cut Durable.final
  rw [steps_bind_of_ok hresult, take_length_add_append, getLastD_eq_getLast?,
    getLast?_append, getLastD_eq_getLast?, getLastD_eq_getLast?]
  unfold Durable.final
  rw [getLastD_eq_getLast?]
  cases ((f a ((x s).steps.getLast?.getD s)).steps.take k).getLast? <;> rfl

theorem cut_zero (x : Durable σ ε α) (s : σ) : cut 0 x s = s := rfl

/-! ## Closings -/

theorem crash_closing (h : Crash (x.closing close) s u) :
    Crash x s u ∨ u = close (x s).result (x.final s) := by
  rcases h with hstart | hmem
  · exact .inl (.inl hstart)
  · rcases mem_append.mp hmem with hfirst | hlast
    · exact .inl (.inr hfirst)
    · exact .inr (mem_singleton.mp hlast)

theorem ends_closing : Ends (x.closing close) s a u ↔ ∃ t, Ends x s a t ∧ u = close (.ok a) t := by
  have hfinal : (x.closing close).final s = close (x s).result (x.final s) := by
    show ((x s).steps ++ [_]).getLastD s = _
    rw [getLastD_eq_getLast?, getLast?_append]
    rfl
  constructor
  · rintro ⟨hresult, hend⟩
    have hresult : (x s).result = .ok a := hresult
    rw [hfinal, hresult] at hend
    exact ⟨x.final s, ⟨hresult, rfl⟩, hend.symm⟩
  · rintro ⟨t, ⟨hresult, rfl⟩, rfl⟩
    refine ⟨hresult, ?_⟩
    rw [hfinal, hresult]

/-! ## Sequences that begin with one step -/

theorem ends_lift_bind : Ends (Durable.lift r >>= f) s b u ↔ ∃ a, r = .ok a ∧ Ends (f a) s b u := by
  simp only [ends_bind_iff, ends_lift]
  constructor
  · rintro ⟨a, _, ⟨hr, rfl⟩, h⟩
    exact ⟨a, hr, h⟩
  · rintro ⟨a, hr, h⟩
    exact ⟨a, s, ⟨hr, rfl⟩, h⟩

theorem ends_read_bind {g : σ → Except ε α} :
    Ends (Durable.read g >>= f) s b u ↔ ∃ a, g s = .ok a ∧ Ends (f a) s b u := by
  simp only [ends_bind_iff, ends_read]
  constructor
  · rintro ⟨a, _, ⟨hg, rfl⟩, h⟩
    exact ⟨a, hg, h⟩
  · rintro ⟨a, hg, h⟩
    exact ⟨a, s, ⟨hg, rfl⟩, h⟩

theorem ends_commit_bind :
    Ends (Durable.commit g >>= f) s b u ↔ ∃ a t, g s = .ok (t, a) ∧ Ends (f a) t b u := by
  simp only [ends_bind_iff, ends_commit]

theorem crash_lift_bind (h : Crash (Durable.lift r >>= f) s u) :
    u = s ∨ ∃ a, r = .ok a ∧ Crash (f a) s u := by
  rcases crash_bind h with hfirst | ⟨a, t, hends, hrest⟩
  · exact .inl (crash_lift.mp hfirst)
  · obtain ⟨hr, rfl⟩ := ends_lift.mp hends
    exact .inr ⟨a, hr, hrest⟩

theorem crash_read_bind {g : σ → Except ε α} (h : Crash (Durable.read g >>= f) s u) :
    u = s ∨ ∃ a, g s = .ok a ∧ Crash (f a) s u := by
  rcases crash_bind h with hfirst | ⟨a, t, hends, hrest⟩
  · exact .inl (crash_read.mp hfirst)
  · obtain ⟨hg, rfl⟩ := ends_read.mp hends
    exact .inr ⟨a, hg, hrest⟩

theorem crash_commit_bind (h : Crash (Durable.commit g >>= f) s u) :
    u = s ∨ ∃ a t, g s = .ok (t, a) ∧ Crash (f a) t u := by
  rcases crash_bind h with hfirst | ⟨a, t, hends, hrest⟩
  · rcases crash_commit.mp hfirst with rfl | ⟨a, hg⟩
    · exact .inl rfl
    · exact .inr ⟨a, u, hg, .start _ _⟩
  · exact .inr ⟨a, t, ends_commit.mp hends, hrest⟩

/-! ## Sequences that run as their rest -/

theorem lift_bind_of_ok (h : r = .ok a) : (Durable.lift r >>= f) s = f a s := by
  subst h
  rfl

theorem read_bind_of_ok {g : σ → Except ε α} (h : g s = .ok a) :
    (Durable.read g >>= f) s = f a s := by
  show Durable.bind (Durable.read g) f s = _
  unfold Durable.bind Durable.read
  rw [h]
  rfl

theorem commit_of_ok (h : g s = .ok (t, a)) : Durable.commit g s = ⟨[t], .ok a⟩ := by
  unfold Durable.commit
  rw [h]

theorem commit_of_error (h : g s = .error e) : Durable.commit g s = ⟨[], .error e⟩ := by
  unfold Durable.commit
  rw [h]

theorem bind_of_ok (h : x s = ⟨steps, .ok a⟩) :
    (x >>= f) s = ⟨steps ++ (f a (steps.getLastD s)).steps, (f a (steps.getLastD s)).result⟩ := by
  show Durable.bind x f s = _
  unfold Durable.bind Durable.final
  rw [h]

theorem bind_of_error (h : x s = ⟨steps, .error e⟩) : (x >>= f) s = ⟨steps, .error e⟩ := by
  show Durable.bind x f s = _
  unfold Durable.bind
  rw [h]

theorem lift_bind_of_error (h : r = .error e) :
    (Durable.lift r >>= f) s = ⟨[], .error e⟩ := bind_of_error (by rw [h]; rfl)

theorem read_bind_of_error {g : σ → Except ε α} (h : g s = .error e) :
    (Durable.read g >>= f) s = ⟨[], .error e⟩ := bind_of_error (by rw [Durable.read, h])

theorem ends_congr (h : x s = y s) : Ends x s a t ↔ Ends y s a t := by
  unfold Ends Durable.final
  rw [h]

theorem crash_congr (h : x s = y s) : Crash x s t ↔ Crash y s t := by
  unfold Crash
  rw [h]

/-- A property that holds after every durable step when it holds before. -/
def Keeps (P : σ → Prop) (x : Durable σ ε α) : Prop := ∀ s t, P s → Crash x s t → P t

section Keeps

variable {P : σ → Prop}

theorem keeps_lift : Keeps P (Durable.lift r) := by
  intro s t hs hcrash
  rwa [crash_lift.mp hcrash]

theorem keeps_read {g : σ → Except ε α} : Keeps P (Durable.read g) := by
  intro s t hs hcrash
  rwa [crash_read.mp hcrash]

theorem keeps_pure : Keeps P (pure a : Durable σ ε α) := by
  intro s t hs hcrash
  rwa [crash_pure.mp hcrash]

theorem keeps_commit (h : ∀ s t a, P s → g s = .ok (t, a) → P t) : Keeps P (Durable.commit g) := by
  intro s t hs hcrash
  rcases crash_commit.mp hcrash with rfl | ⟨a, hok⟩
  · exact hs
  · exact h s t a hs hok

theorem Keeps.bind (hx : Keeps P x) (hf : ∀ a, Keeps P (f a)) : Keeps P (x >>= f) := by
  intro s u hs hcrash
  rcases crash_bind hcrash with hfirst | ⟨a, t, hends, hrest⟩
  · exact hx s u hs hfirst
  · exact hf a t u (hx s t hs hends.crash) hrest

end Keeps

/-- Started with `P`, every interruption leaves `I` and an end leaves `Q`. -/
structure Upholds (I P : σ → Prop) (x : Durable σ ε α) (Q : α → σ → Prop) : Prop where
  crash : ∀ s t, P s → Crash x s t → I t
  ends : ∀ s a t, P s → Ends x s a t → Q a t

section Upholds

variable {I P P' : σ → Prop} {Q : α → σ → Prop} {R : β → σ → Prop}

theorem upholds_lift (hI : ∀ s, P s → I s) (hQ : ∀ s a, P s → r = .ok a → Q a s) :
    Upholds I P (Durable.lift r) Q where
  crash s t hs hcrash := by
    rw [crash_lift.mp hcrash]
    exact hI s hs
  ends s a t hs hends := by
    obtain ⟨hr, rfl⟩ := ends_lift.mp hends
    exact hQ t a hs hr

theorem upholds_pure (hI : ∀ s, P s → I s) (hQ : ∀ s, P s → Q a s) :
    Upholds I P (pure a : Durable σ ε α) Q where
  crash s t hs hcrash := by
    rw [crash_pure.mp hcrash]
    exact hI s hs
  ends s a' t hs hends := by
    obtain ⟨rfl, rfl⟩ := ends_pure.mp hends
    exact hQ t hs

theorem upholds_commit (hI : ∀ s, P s → I s) (h : ∀ s t a, P s → g s = .ok (t, a) → I t ∧ Q a t) :
    Upholds I P (Durable.commit g) Q where
  crash s t hs hcrash := by
    rcases crash_commit.mp hcrash with rfl | ⟨a, hok⟩
    · exact hI t hs
    · exact (h s t a hs hok).1
  ends s a t hs hends := (h s t a hs (ends_commit.mp hends)).2

theorem Upholds.bind (hx : Upholds I P x Q) (hf : ∀ a, Upholds I (Q a) (f a) R) :
    Upholds I P (x >>= f) R where
  crash s u hs hcrash := by
    rcases crash_bind hcrash with hfirst | ⟨a, t, hends, hrest⟩
    · exact hx.crash s u hs hfirst
    · exact (hf a).crash t u (hx.ends s a t hs hends) hrest
  ends s b u hs hends := by
    obtain ⟨a, t, hfirst, hrest⟩ := ends_bind_iff.mp hends
    exact (hf a).ends t b u (hx.ends s a t hs hfirst) hrest

theorem upholds_read {g : σ → Except ε α} (hI : ∀ s, P s → I s)
    (hQ : ∀ s a, P s → g s = .ok a → Q a s) : Upholds I P (Durable.read g) Q where
  crash s t hs hcrash := by
    rw [crash_read.mp hcrash]
    exact hI s hs
  ends s a t hs hends := by
    obtain ⟨hg, rfl⟩ := ends_read.mp hends
    exact hQ t a hs hg

theorem Upholds.pre (hx : Upholds I P x Q) (h : ∀ s, P' s → P s) : Upholds I P' x Q :=
  ⟨fun s t hs => hx.crash s t (h s hs), fun s a t hs => hx.ends s a t (h s hs)⟩

theorem Upholds.imp {I' : σ → Prop} {Q' : α → σ → Prop} (hx : Upholds I P x Q)
    (hI : ∀ s, I s → I' s) (hQ : ∀ a s, Q a s → Q' a s) : Upholds I' P x Q' :=
  ⟨fun s t hs hcrash => hI t (hx.crash s t hs hcrash),
    fun s a t hs hends => hQ a t (hx.ends s a t hs hends)⟩

theorem Upholds.closing (hx : Upholds I P x Q) (hI : ∀ result s, I s → I (close result s))
    (hQ : ∀ a s, Q a s → Q a (close (.ok a) s)) :
    Upholds I P (x.closing close) Q where
  crash s t hs hcrash := by
    rcases crash_closing hcrash with hfirst | rfl
    · exact hx.crash s t hs hfirst
    · exact hI _ _ (hx.crash s _ hs (crash_final x s))
  ends s a t hs hends := by
    obtain ⟨u, hu, rfl⟩ := ends_closing.mp hends
    exact hQ a u (hx.ends s a u hs hu)

/-- A rule for each state at the start. -/
theorem upholds_of_states (h : ∀ s, P s → Upholds I (· = s) x Q) : Upholds I P x Q :=
  ⟨fun s t hs => (h s hs).crash s t rfl, fun s a t hs => (h s hs).ends s a t rfl⟩

theorem Upholds.keeps (hx : Upholds P P x Q) : Keeps P x := hx.crash

theorem Keeps.upholds (hx : Keeps P x) : Upholds P P x (fun _ => P) :=
  ⟨hx, fun s _ t hs hends => hx s t hs hends.crash⟩

end Upholds

/-- A result at the end adds no step. -/
theorem crash_bind_pure {g : α → β} :
    Crash (x >>= fun a => (pure (g a) : Durable σ ε β)) s u ↔ Crash x s u := by
  constructor
  · intro h
    rcases crash_bind h with hfirst | ⟨_, mid, hmid, hpure⟩
    · exact hfirst
    · rw [crash_pure.mp hpure]
      exact hmid.crash
  · rintro (rfl | hmem)
    · exact .start _ _
    · right
      show u ∈ (Durable.bind x _ s).steps
      unfold Durable.bind
      cases hx : (x s).result with
      | error e => exact hmem
      | ok a => exact mem_append_left _ hmem

/-! ## Loops -/

section Loops

variable {body : α → Durable σ ε Unit} {xs : List α}

theorem ends_forM_nil : Ends (([] : List α).forM body) s () t ↔ t = s := by
  have h : Ends (([] : List α).forM body) s () t ↔ () = () ∧ t = s := ends_pure
  simpa using h

theorem ends_forM_cons {y : α} : Ends ((y :: xs).forM body) s () u ↔
    ∃ t, Ends (body y) s () t ∧ Ends (xs.forM body) t () u := by
  have h : Ends ((y :: xs).forM body) s () u ↔
    ∃ (_ : Unit) (t : σ), Ends (body y) s () t ∧ Ends (xs.forM body) t () u := ends_bind_iff
  simpa using h

theorem crash_forM_cons {y : α} (h : Crash ((y :: xs).forM body) s u) :
    Crash (body y) s u ∨ ∃ t, Ends (body y) s () t ∧ Crash (xs.forM body) t u := by
  rcases crash_bind h with hfirst | ⟨_, t, hends, hrest⟩
  · exact .inl hfirst
  · exact .inr ⟨t, hends, hrest⟩

variable {P : σ → Prop}

/-- A property that every step of the loop keeps, also when it is
interrupted. -/
theorem crash_forM_invariant (hstep : ∀ y ∈ xs, ∀ s t, P s → Crash (body y) s t → P t) (hs : P s)
    (h : Crash (xs.forM body) s u) : P u := by
  induction xs generalizing s with
  | nil =>
    have heq : u = s := crash_pure.mp h
    rw [heq]
    exact hs
  | cons y ys ih =>
    rcases crash_forM_cons h with hfirst | ⟨t, hends, hrest⟩
    · exact hstep y mem_cons_self s u hs hfirst
    · have ht := hstep y mem_cons_self s t hs hends.crash
      exact ih (fun z hz => hstep z (mem_cons_of_mem y hz)) ht hrest

/-- A loop under a condition on the elements that are left. -/
theorem upholds_forM {I : σ → Prop} {P : List α → σ → Prop} (hI : ∀ s, P [] s → I s)
    (hstep : ∀ y ys, Upholds I (P (y :: ys)) (body y) (fun _ => P ys)) :
    Upholds I (P xs) (xs.forM body) (fun _ => P []) := by
  induction xs with
  | nil => exact upholds_pure hI (fun _ hs => hs)
  | cons y ys ih => exact (hstep y ys).bind (fun _ => ih)

theorem Keeps.forM (h : ∀ y, Keeps P (body y)) : Keeps P (xs.forM body) :=
  fun _ _ hs hcrash => crash_forM_invariant (fun y _ s t hs => h y s t hs) hs hcrash

theorem keeps_mapM_loop (h : ∀ y ∈ xs, Keeps P (f y)) (done : List β) :
    Keeps P (mapM.loop f xs done) := by
  induction xs generalizing done with
  | nil => exact fun s t hs hcrash => (crash_pure.mp hcrash) ▸ hs
  | cons y ys ih =>
    exact (h y mem_cons_self).bind
      (fun b => ih (fun z hz => h z (mem_cons_of_mem y hz)) (b :: done))

theorem Keeps.mapM (h : ∀ y ∈ xs, Keeps P (f y)) :
    Keeps P (xs.mapM f) := keeps_mapM_loop h []

/-- A loop ends when each of its steps is ready at the start and no step
spoils a later one. -/
theorem exists_ends_forM (ready : α → σ → Prop)
    (hstep : ∀ x ∈ xs, ∀ s, ready x s → ∃ t, Ends (body x) s () t)
    (hkeep : xs.Pairwise (fun x y => ∀ s t, ready y s → Ends (body x) s () t → ready y t))
    (hready : ∀ x ∈ xs, ready x s) : ∃ t, Ends (xs.forM body) s () t := by
  induction xs generalizing s with
  | nil => exact ⟨s, ends_forM_nil.mpr rfl⟩
  | cons y ys ih =>
    obtain ⟨mid, hfirst⟩ := hstep y mem_cons_self s (hready y mem_cons_self)
    have hpair := pairwise_cons.mp hkeep
    obtain ⟨t, hrest⟩ := ih (fun x hx => hstep x (mem_cons_of_mem y hx)) hpair.2
      (fun x hx => hpair.1 x hx s mid (hready x (mem_cons_of_mem y hx)) hfirst)
    exact ⟨t, ends_forM_cons.mpr ⟨mid, hfirst, hrest⟩⟩

/-- What each step of a loop does is done at its end, when no later step
undoes it. -/
theorem done_of_ends_forM (done : α → σ → Prop)
    (hdone : ∀ x ∈ xs, ∀ s t, Ends (body x) s () t → done x t)
    (hkeep : xs.Pairwise (fun x y => ∀ s t, done x s → Crash (body y) s t → done x t))
    (hends : Ends (xs.forM body) s () t) : ∀ x ∈ xs, done x t := by
  induction xs generalizing s with
  | nil =>
    intro x hx
    cases hx
  | cons y ys ih =>
    obtain ⟨mid, hfirst, hrest⟩ := ends_forM_cons.mp hends
    have hpair := pairwise_cons.mp hkeep
    intro x hx
    rcases mem_cons.mp hx with rfl | hmem
    · exact crash_forM_invariant (fun z hz s t hs hc => hpair.1 z hz s t hs hc)
        (hdone x mem_cons_self s mid hfirst) hrest.crash
    · exact ih (fun x hx => hdone x (mem_cons_of_mem y hx)) hpair.2 hrest x hmem

/-- Run a loop again after a crash: a step that ended has done its work,
later steps do not undo it, and a step that finds its work done does
nothing. -/
theorem ends_forM_of_crash (done : α → σ → Prop)
    (hdone : ∀ x ∈ xs, ∀ s t, Ends (body x) s () t → done x t)
    (hskip : ∀ x ∈ xs, ∀ s, done x s → Ends (body x) s () s)
    (hatomic : ∀ x ∈ xs, ∀ s t u, Ends (body x) s () t → Crash (body x) s u → u = s ∨ u = t)
    (hkeep : xs.Pairwise (fun x y => ∀ s t, done x s → Crash (body y) s t → done x t))
    (hends : Ends (xs.forM body) s () t) (hcrash : Crash (xs.forM body) s u) :
    Ends (xs.forM body) u () t := by
  induction xs generalizing s with
  | nil =>
    have heq : u = s := crash_pure.mp hcrash
    rw [heq]
    exact hends
  | cons y ys ih =>
    obtain ⟨mid, hfirst, hrest⟩ := ends_forM_cons.mp hends
    have hpair := pairwise_cons.mp hkeep
    rcases crash_forM_cons hcrash with hinside | ⟨mid', hfirst', hinside⟩
    · rcases hatomic y mem_cons_self s mid u hfirst hinside with rfl | rfl
      · exact hends
      · exact ends_forM_cons.mpr ⟨u, hskip y mem_cons_self u
          (hdone y mem_cons_self s u hfirst), hrest⟩
    · have hsame : mid' = mid := (hfirst'.unique hfirst).2
      rw [hsame] at hinside
      have hmid := hdone y mem_cons_self s mid hfirst
      have hu : done y u := crash_forM_invariant
        (fun z hz s t hs hc => hpair.1 z hz s t hs hc) hmid hinside
      refine ends_forM_cons.mpr ⟨u, hskip y mem_cons_self u hu, ?_⟩
      exact ih (fun x hx => hdone x (mem_cons_of_mem y hx))
        (fun x hx => hskip x (mem_cons_of_mem y hx))
        (fun x hx => hatomic x (mem_cons_of_mem y hx)) hpair.2 hrest hinside

end Loops

end Rules

end Abbey.Lib
