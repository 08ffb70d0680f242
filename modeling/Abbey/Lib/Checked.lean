import Mathlib.Algebra.GroupWithZero.Nat
import Mathlib.Data.List.Forall2
import Mathlib.Tactic.Common

/-!
# Checked computations

A fallible operation is an `Except`: a sequence of checks, each with the
error it raises, and a value at the end.  `ensure` is one check.  The
rules below read such a sequence from its result, so that a proof takes a
successful operation apart with `obtain` and never unfolds the monad.
-/

namespace Abbey.Lib

open List

variable {ε α β : Type}
variable {x : Except ε α} {f : α → Except ε β} {error e : ε} {a : α}

/-- One check: nothing when it holds, the error when it does not. -/
def ensure (ok : Bool) (error : ε) : Except ε Unit :=
  if ok then .ok () else .error error

@[simp] theorem ensure_true (error : ε) : ensure true error = .ok () := rfl

@[simp] theorem ensure_false (error : ε) : ensure false error = .error error := rfl

@[simp] theorem ensure_eq_ok : ensure ok error = .ok u ↔ ok := by
  cases ok <;> simp

@[simp] theorem ok_bind (a : α) (f : α → Except ε β) : ((.ok a : Except ε α) >>= f) = f a := rfl

@[simp] theorem error_bind (e : ε) (f : α → Except ε β) :
    ((.error e : Except ε α) >>= f) = .error e := rfl

/-- A sequence succeeds exactly when its first part does and the rest does
on the value of that part. -/
theorem bind_ok_iff : (x >>= f) = .ok b ↔ ∃ a, x = .ok a ∧ f a = .ok b := by
  constructor
  · intro h
    rcases x with e | a
    · cases h
    · exact ⟨a, rfl, h⟩
  · rintro ⟨a, rfl, h⟩
    exact h

/-- A sequence fails with the error of its first part, or with one of the
rest. -/
theorem bind_error_iff : (x >>= f) = .error e ↔ x = .error e ∨ ∃ a, x = .ok a ∧ f a = .error e := by
  constructor
  · intro h
    rcases x with e' | a
    · exact .inl (congrArg Except.error (Except.error.inj h))
    · exact .inr ⟨a, rfl, h⟩
  · rintro (rfl | ⟨a, rfl, h⟩)
    · rfl
    · exact h

theorem ensure_eq_error : ensure ok error = .error e ↔ ok = false ∧ e = error := by
  cases ok <;> simp [eq_comm]

/-- The value under a `some`, or the error. -/
def required (value : Option α) (error : ε) : Except ε α :=
  match value with
  | some a => .ok a
  | none => .error error

@[simp] theorem required_some (a : α) (error : ε) : required (some a) error = .ok a := rfl

@[simp] theorem required_none (error : ε) : required (none : Option α) error = .error error := rfl

@[simp] theorem required_eq_ok : required value error = .ok a ↔ value = some a := by
  cases value <;> simp

/-- Replace an error. -/
def orElse {ε' : Type} (x : Except ε α) (error : ε') : Except ε' α :=
  match x with
  | .ok a => .ok a
  | .error _ => .error error

@[simp] theorem orElse_eq_ok {ε' : Type} {error : ε'} : orElse x error = .ok a ↔ x = .ok a := by
  cases x <;> simp [orElse]

/-- Map an error. -/
def mapErr {ε' : Type} (f : ε → ε') : Except ε α → Except ε' α
  | .ok a => .ok a
  | .error error => .error (f error)

@[simp] theorem mapErr_eq_ok {ε' : Type} {f : ε → ε'} : mapErr f x = .ok a ↔ x = .ok a := by
  cases x <;> simp [mapErr]

variable {xs : List α}

/-- A check of every element of a list. -/
theorem forM_eq_ok {f : α → Except ε Unit} :
    xs.forM f = .ok () ↔ ∀ x ∈ xs, f x = .ok () := by
  induction xs with
  | nil => simp [List.forM, pure, Except.pure]
  | cons x xs ih =>
    have hcons : (x :: xs).forM f = (f x >>= fun _ => xs.forM f) := rfl
    rw [hcons, bind_ok_iff, List.forall_mem_cons, ← ih]
    constructor
    · rintro ⟨_, hx, hxs⟩
      exact ⟨hx, hxs⟩
    · rintro ⟨hx, hxs⟩
      exact ⟨(), hx, hxs⟩

theorem exists_of_forM_eq_error {f : α → Except ε Unit}
    (h : xs.forM f = .error e) : ∃ x ∈ xs, f x = .error e := by
  induction xs with
  | nil => cases h
  | cons x xs ih =>
    have hcons : (f x >>= fun _ => xs.forM f) = .error e := h
    rcases bind_error_iff.mp hcons with hx | ⟨_, _, hrest⟩
    · exact ⟨x, mem_cons_self, hx⟩
    · obtain ⟨y, hy, herror⟩ := ih hrest
      exact ⟨y, mem_cons_of_mem x hy, herror⟩

/-- A computation on every element of a list. -/
theorem mapM_eq_ok : xs.mapM f = .ok ys ↔ List.Forall₂ (fun x y => f x = .ok y) xs ys := by
  induction xs generalizing ys with
  | nil => simp [pure, Except.pure, eq_comm]
  | cons x xs ih =>
    simp only [mapM_cons, bind_ok_iff, ih, forall₂_cons_left_iff, pure, Except.pure,
      Except.ok.injEq]
    constructor
    · rintro ⟨y, hy, zs, hzs, rfl⟩
      exact ⟨y, zs, hy, hzs, rfl⟩
    · rintro ⟨y, zs, hy, hzs, rfl⟩
      exact ⟨y, hy, zs, hzs, rfl⟩

theorem exists_of_mapM_eq_error (h : xs.mapM f = .error e) : ∃ x ∈ xs, f x = .error e := by
  induction xs with
  | nil => cases h
  | cons x xs ih =>
    rw [mapM_cons] at h
    rcases bind_error_iff.mp h with hx | ⟨y, _, hrest⟩
    · exact ⟨x, mem_cons_self, hx⟩
    · rcases bind_error_iff.mp hrest with hxs | ⟨ys, _, hpure⟩
      · obtain ⟨z, hz, herror⟩ := ih hxs
        exact ⟨z, mem_cons_of_mem x hz, herror⟩
      · cases hpure

theorem exists_mapM_eq_ok (h : ∀ x ∈ xs, ∃ y, f x = .ok y) :
    ∃ ys, xs.mapM f = .ok ys := by
  cases hmap : xs.mapM f with
  | ok ys => exact ⟨ys, rfl⟩
  | error e =>
    obtain ⟨x, hx, herror⟩ := exists_of_mapM_eq_error hmap
    obtain ⟨y, hy⟩ := h x hx
    rw [hy] at herror
    cases herror

section Forall₂

variable {R : α → β → Prop} {xs : List α} {ys : List β}

theorem exists_left_of_mem (h : List.Forall₂ R xs ys) (hy : y ∈ ys) : ∃ x ∈ xs, R x y := by
  induction h with
  | nil => cases hy
  | @cons x y' xs ys hxy hrest ih =>
    rcases mem_cons.mp hy with rfl | hmem
    · exact ⟨x, mem_cons_self, hxy⟩
    · obtain ⟨z, hz, hzy⟩ := ih hmem
      exact ⟨z, mem_cons_of_mem x hz, hzy⟩

theorem exists_right_of_mem (h : List.Forall₂ R xs ys) {x : α} (hx : x ∈ xs) : ∃ y ∈ ys, R x y := by
  obtain ⟨y, hy, hxy⟩ := exists_left_of_mem h.flip hx
  exact ⟨y, hy, hxy⟩

/-- A relation that is a function on the elements with a property. -/
theorem forall₂_map_iff {P : α → Prop} :
    List.Forall₂ (fun x y => P x ∧ y = g x) xs ys ↔ (∀ x ∈ xs, P x) ∧ ys = xs.map g := by
  induction xs generalizing ys with
  | nil => simp
  | cons x xs ih =>
    cases ys with
    | nil => simp
    | cons y ys => simp [ih, and_assoc, and_left_comm]

end Forall₂

end Abbey.Lib
