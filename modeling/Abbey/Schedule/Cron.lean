import Abbey.Lib.Checked
import Abbey.Lib.Offsets
import Mathlib.Data.List.Destutter
import Mathlib.Data.List.Sort

/-!
# Cron expressions

`src/automation_schedule/cron.rs`: the fields.

* `Term` is the grammar of one part of a field, `Denotes` what a field means.
* `cron_field_exact`: the parser accepts the grammar, and its values are the union.
-/

namespace Abbey.Schedule

open Abbey.Lib List

/-! ## The source -/

inductive ScheduleError where
  | invalidSchedule

def number (s : List Char) : Except ScheduleError Nat := do
  ensure (s ≠ [] && s.all Char.isDigit) .invalidSchedule
  ensure (Nat.ofDigitChars 10 s 0 < 2 ^ 32) .invalidSchedule
  .ok (Nat.ofDigitChars 10 s 0)

/-- The base and the step of a part. -/
def divide (part : List Char) : Except ScheduleError (List Char × Option Nat) :=
  match splitOnce '/' part with
  | none => .ok (part, none)
  | some (base, step) => do
    ensure ('/' ∉ step) .invalidSchedule
    let step ← number step
    .ok (base, some step)

def bounds (min max : Nat) (base : List Char) (step : Option Nat) :
    Except ScheduleError (Nat × Nat) :=
  if base = ['*'] then .ok (min, max)
  else match splitOnce '-' base with
    | some (a, b) => do
      let lo ← number a
      let hi ← number b
      .ok (lo, hi)
    | none => do
      ensure step.isNone .invalidSchedule
      let n ← number base
      .ok (n, n)

/-- Every `step`-th number from `lo` to `hi`. -/
structure Span where
  lo : Nat
  hi : Nat
  step : Nat

def Span.values (span : Span) : List Nat :=
  (range' span.lo (span.hi + 1 - span.lo)).filter (fun n => (n - span.lo) % span.step = 0)

/-- The values that one part of a field pushes. -/
def pushed (min max : Nat) (part : List Char) : Except ScheduleError (List Nat) := do
  let (base, step) ← divide part
  ensure (step ≠ some 0) .invalidSchedule
  let (lo, hi) ← bounds min max base step
  ensure (min ≤ lo && hi ≤ max && lo ≤ hi) .invalidSchedule
  .ok (Span.values ⟨lo, hi, step.getD 1⟩)

/-- `Vec::sort_unstable` and `Vec::dedup`. -/
def increasing (values : List Nat) : List Nat :=
  (values.mergeSort (fun m n => m ≤ n)).destutter (· ≠ ·)

def field (s : List Char) (min max : Nat) : Except ScheduleError (List Nat) := do
  let values ← (s.splitOn ',').mapM (pushed min max)
  ensure (increasing values.flatten ≠ []) .invalidSchedule
  .ok (increasing values.flatten)

/-! ## The grammar -/

variable {s t base part : List Char} {n lo hi min max : Nat} {step : Option Nat}
  {values : List Nat} {span : Span} {spans : List Span}

/-- A decimal `u32`. -/
structure Number (s : List Char) (n : Nat) : Prop where
  digits : s ≠ [] ∧ ∀ c ∈ s, c.isDigit = true
  value : n = Nat.ofDigitChars 10 s 0
  small : n < 2 ^ 32

/-- The parts that may have a step. -/
inductive Base (min max : Nat) : List Char → Nat → Nat → Prop
  | all : Base min max ['*'] min max
  | range {s t : List Char} {a b : Nat} (first : Number s a) (last : Number t b) :
      Base min max (s ++ '-' :: t) a b

/-- `*`, `*/k`, `a-b`, `a-b/k` or `n`. -/
inductive Form (min max : Nat) : List Char → Span → Prop
  | plain {base : List Char} {lo hi : Nat} (h : Base min max base lo hi) :
      Form min max base ⟨lo, hi, 1⟩
  | stepped {base t : List Char} {lo hi k : Nat} (h : Base min max base lo hi)
      (step : Number t k) (positive : k ≠ 0) : Form min max (base ++ '/' :: t) ⟨lo, hi, k⟩
  | one {s : List Char} {n : Nat} (h : Number s n) : Form min max s ⟨n, n, 1⟩

/-- A form whose numbers are in order and in the bounds of the field. -/
structure Term (min max : Nat) (s : List Char) (span : Span) : Prop where
  form : Form min max s span
  low : min ≤ span.lo
  high : span.hi ≤ max
  order : span.lo ≤ span.hi

def Span.Has (span : Span) (n : Nat) : Prop := ∃ i, n = span.lo + i * span.step ∧ n ≤ span.hi

/-- A field is a comma-separated list of terms, and its values are theirs in order. -/
def Denotes (min max : Nat) (s : List Char) (values : List Nat) : Prop :=
  ∃ parts spans, parts ≠ [] ∧ s = [','].intercalate parts ∧
    Forall₂ (Term min max) parts spans ∧ values.Pairwise (· < ·) ∧
    ∀ n, n ∈ values ↔ ∃ span ∈ spans, span.Has n

theorem number_eq_ok : number s = .ok n ↔ Number s n := by
  simp only [number, bind_ok_iff, ensure_eq_ok, Bool.and_eq_true, decide_eq_true_eq, all_eq_true,
    Except.ok.injEq, exists_const]
  constructor
  · rintro ⟨hdigits, hsmall, rfl⟩
    exact ⟨hdigits, rfl, hsmall⟩
  · rintro ⟨hdigits, rfl, hsmall⟩
    exact ⟨hdigits, hsmall, rfl⟩

theorem Number.notMem (h : Number s n) {c : Char} (hc : c.isDigit = false) : c ∉ s := by
  intro hmem
  rw [h.digits.2 c hmem] at hc
  cases hc

theorem Base.notMem (h : Base min max s lo hi) {c : Char} (hc : c.isDigit = false)
    (hother : c ≠ '*' ∧ c ≠ '-') : c ∉ s := by
  cases h with
  | all => simpa using hother.1
  | range first last => simp [first.notMem hc, last.notMem hc, hother.2]

theorem Form.notMem (h : Form min max s span) : ',' ∉ s := by
  cases h with
  | plain base => exact base.notMem rfl (by decide)
  | stepped base step => simp [base.notMem (c := ',') rfl (by decide), step.notMem (c := ',') rfl]
  | one number => exact number.notMem rfl

/-! ## One part -/

theorem divide_eq_ok : divide part = .ok (base, step) ↔ '/' ∉ base ∧
    (part = base ∧ step = none ∨ ∃ t k, part = base ++ '/' :: t ∧ Number t k ∧ step = some k) := by
  constructor
  · intro h
    unfold divide at h
    split at h
    · rename_i hnone
      cases h
      exact ⟨by simpa [splitOnce] using hnone, .inl ⟨rfl, rfl⟩⟩
    · rename_i t hsome
      simp only [bind_ok_iff, number_eq_ok, Except.ok.injEq, Prod.mk.injEq] at h
      obtain ⟨_, _, k, hk, rfl, rfl⟩ := h
      obtain ⟨hpart, hbase⟩ := splitOnce_eq_some.mp hsome
      exact ⟨hbase, .inr ⟨t, k, hpart, hk, rfl⟩⟩
  · rintro ⟨hbase, ⟨rfl, rfl⟩ | ⟨t, k, rfl, hk, rfl⟩⟩
    · rw [divide, splitOnce, if_neg hbase]
    · have ht : '/' ∉ t := hk.notMem rfl
      simp [divide, splitOnce_eq_some.mpr ⟨rfl, hbase⟩, number_eq_ok.mpr hk, ht]

theorem bounds_eq_ok : bounds min max base step = .ok (lo, hi) ↔
    Base min max base lo hi ∨ step = none ∧ Number base lo ∧ hi = lo := by
  constructor
  · intro h
    unfold bounds at h
    split at h
    · rename_i hstar
      cases h
      exact .inl (hstar ▸ .all)
    · split at h
      · rename_i a b hsplit
        obtain ⟨rfl, _⟩ := splitOnce_eq_some.mp hsplit
        simp only [bind_ok_iff, number_eq_ok, Except.ok.injEq, Prod.mk.injEq] at h
        obtain ⟨_, first, _, last, rfl, rfl⟩ := h
        exact .inl (.range first last)
      · simp only [bind_ok_iff, ensure_eq_ok, number_eq_ok, Except.ok.injEq, Prod.mk.injEq] at h
        obtain ⟨_, hnone, _, hnumber, rfl, rfl⟩ := h
        exact .inr ⟨by simpa using hnone, hnumber, rfl⟩
  · rintro ((_ | ⟨first, last⟩) | ⟨rfl, hnumber, rfl⟩)
    · rfl
    · rw [bounds, if_neg (by simp [append_eq_cons_iff]),
        splitOnce_eq_some.mpr ⟨rfl, first.notMem rfl⟩]
      simp only [number_eq_ok.mpr first, number_eq_ok.mpr last, ok_bind]
    · have hstar : base ≠ ['*'] := by
        rintro rfl
        exact hnumber.notMem (c := '*') rfl (by simp)
      rw [bounds, if_neg hstar, splitOnce, if_neg (hnumber.notMem rfl)]
      simp only [number_eq_ok.mpr hnumber, ok_bind, Option.isNone_none, ensure_true]

theorem pushed_eq_ok : pushed min max part = .ok values ↔
    ∃ span, Term min max part span ∧ values = span.values := by
  simp only [pushed, bind_ok_iff, ensure_eq_ok, Prod.exists, Bool.and_eq_true, decide_eq_true_eq,
    Except.ok.injEq, exists_const, divide_eq_ok, bounds_eq_ok]
  constructor
  · rintro ⟨base, step, ⟨_, hpart⟩, hstep, lo, hi, hbase | ⟨rfl, hnumber, rfl⟩,
      ⟨⟨hlow, hhigh⟩, horder⟩, rfl⟩ <;>
      rcases hpart with ⟨rfl, hnone⟩ | ⟨t, k, rfl, hk, hsome⟩
    · exact ⟨_, ⟨.plain hbase, hlow, hhigh, horder⟩, by rw [hnone]; rfl⟩
    · have hne : k ≠ 0 := fun hzero => hstep (by rw [hsome, hzero])
      exact ⟨_, ⟨.stepped hbase hk hne, hlow, hhigh, horder⟩, by rw [hsome]; rfl⟩
    · exact ⟨_, ⟨.one hnumber, hlow, hhigh, horder⟩, rfl⟩
    · cases hsome
  · rintro ⟨span, ⟨hform, hlow, hhigh, horder⟩, rfl⟩
    cases hform with
    | plain h => exact ⟨_, none, ⟨h.notMem rfl (by decide), .inl ⟨rfl, rfl⟩⟩, by simp, _, _,
        .inl h, ⟨⟨hlow, hhigh⟩, horder⟩, rfl⟩
    | stepped h hk hne => exact ⟨_, _, ⟨h.notMem rfl (by decide), .inr ⟨_, _, rfl, hk, rfl⟩⟩,
        by simpa using hne, _, _, .inl h, ⟨⟨hlow, hhigh⟩, horder⟩, rfl⟩
    | one h => exact ⟨_, none, ⟨h.notMem rfl, .inl ⟨rfl, rfl⟩⟩, by simp, _, _,
        .inr ⟨rfl, h, rfl⟩, ⟨⟨hlow, hhigh⟩, horder⟩, rfl⟩

/-! ## One field -/

theorem Span.mem_values : n ∈ span.values ↔ span.Has n := by
  simp only [values, Has, mem_filter, mem_range'_1, decide_eq_true_eq]
  constructor
  · rintro ⟨⟨hlow, hhigh⟩, hstep⟩
    obtain ⟨i, hi⟩ := Nat.dvd_of_mod_eq_zero hstep
    exact ⟨i, by rw [Nat.mul_comm]; omega, by omega⟩
  · rintro ⟨i, rfl, hle⟩
    exact ⟨by omega, by simp⟩

theorem mem_destutter' {m : Nat} : n ∈ values.destutter' (· ≠ ·) m ↔ n ∈ m :: values := by
  induction values generalizing m with
  | nil => rw [destutter'_nil]
  | cons k ns ih =>
    by_cases hne : m ≠ k
    · rw [destutter'_cons_pos _ hne, mem_cons, ih]
      exact mem_cons.symm
    · rw [destutter'_cons_neg _ hne, ih, not_not.mp hne]
      simp

theorem mem_increasing :
    n ∈ increasing (spans.map Span.values).flatten ↔ ∃ span ∈ spans, span.Has n := by
  have hsort : n ∈ (spans.map Span.values).flatten.mergeSort (fun m n => m ≤ n) ↔
      ∃ span ∈ spans, span.Has n := by
    simp [Span.mem_values]
  rw [← hsort]
  unfold increasing
  cases (spans.map Span.values).flatten.mergeSort (fun m n => m ≤ n) with
  | nil => rfl
  | cons => exact mem_destutter'

theorem pairwise_increasing (values : List Nat) : (increasing values).Pairwise (· < ·) := by
  have hsorted : (values.mergeSort (fun m n => m ≤ n)).Pairwise (· ≤ ·) := by
    refine (pairwise_mergeSort ?_ ?_ values).imp of_decide_eq_true
    · simpa using fun a b c => Nat.le_trans
    · simpa using Nat.le_total
  have hle := (hsorted.sublist (destutter_sublist (· ≠ ·) _)).isChain
  have hne := isChain_destutter (· ≠ ·) (values.mergeSort (fun m n => m ≤ n))
  rw [isChain_iff_getElem] at hle hne
  have hlt := fun i hi => Nat.lt_of_le_of_ne (hle i hi) (hne i hi)
  exact (isChain_iff_getElem.mpr hlt).pairwise

theorem mapM_pushed {parts : List (List Char)} {found : List (List Nat)} :
    parts.mapM (pushed min max) = .ok found ↔
      ∃ spans, Forall₂ (Term min max) parts spans ∧ found = spans.map Span.values := by
  rw [mapM_eq_ok]
  simp only [pushed_eq_ok]
  induction parts generalizing found with
  | nil => simp
  | cons part parts ih =>
    simp only [forall₂_cons_left_iff, ih]
    constructor
    · rintro ⟨_, _, ⟨span, hterm, rfl⟩, ⟨spans, hterms, rfl⟩, rfl⟩
      exact ⟨span :: spans, ⟨span, spans, hterm, hterms, rfl⟩, rfl⟩
    · rintro ⟨_, ⟨span, spans, hterm, hterms, rfl⟩, rfl⟩
      exact ⟨_, _, ⟨span, hterm, rfl⟩, ⟨spans, hterms, rfl⟩, rfl⟩

/-- A field is accepted exactly when it is a list of terms. -/
theorem cron_field_exact : field s min max = .ok values ↔ Denotes min max s values := by
  unfold field Denotes
  simp only [bind_ok_iff, mapM_pushed, ensure_eq_ok, decide_eq_true_eq, Except.ok.injEq,
    exists_const]
  constructor
  · rintro ⟨_, ⟨spans, hterms, rfl⟩, _, rfl⟩
    exact ⟨_, spans, splitOn_ne_nil ',' s, (intercalate_splitOn ',').symm, hterms,
      pairwise_increasing _, fun n => mem_increasing⟩
  · rintro ⟨parts, spans, hne, rfl, hterms, hsorted, hmem⟩
    have hparts : ([','].intercalate parts).splitOn ',' = parts := by
      have hall := hterms.imp (fun _ _ hterm => And.intro hterm.form.notMem hterm)
      exact splitOn_intercalate ',' ((forall₂_and_left _ _).mp hall).1 hne
    rw [hparts]
    refine ⟨_, ⟨spans, hterms, rfl⟩, ?_, (pairwise_increasing _).eq_of_mem_iff hsorted
      (fun {n} => mem_increasing.trans (hmem n).symm)⟩
    cases hterms with
    | nil => exact absurd rfl hne
    | @cons _ span _ _ hterm =>
      exact ne_nil_of_mem (mem_increasing.mpr ⟨span, mem_cons_self, 0, by simp, hterm.order⟩)

end Abbey.Schedule
