import Abbey.Learning.Data
import Abbey.Lib.Offsets
import Mathlib.Algebra.Order.Field.Power
import Mathlib.Tactic.Linarith
import Mathlib.Tactic.NormNum
import Mathlib.Tactic.Ring

/-!
# The NLL gate

`nll_within_gate` of `crates/abbey-learning/src/pipeline.rs` compares two
measurements as the decimals that `serde_json` prints, not as floating point.

* `shorter_or_le`: without leading zeros, digits are ordered by their number
  and then as texts.
* `scaled_eq`: the digits and the exponent of a scaled decimal.
* `nllWithinGate_exact`: the gate compares the decimals themselves.
-/

namespace Abbey.Learning

open Abbey.Lib List Option
open Nat (ofDigitChars toDigits)

variable {cs ds : List Char}

/-! ## The gate -/

def i32Max : Int := 2 ^ 31 - 1

def inI32 (n : Int) : Bool := -2 ^ 31 ≤ n && n ≤ i32Max

/-- `i32` subtraction.  An overflow is a panic. -/
def subI32 (m n : Int) : Except LearningError Int := do
  ensure (inI32 (m - n)) (.bail "attempt to subtract with overflow")
  return m - n

/-- `str::parse::<i32>`. -/
def parseI32 (cs : List Char) : Option Int :=
  let digits := if cs.head? = some '-' ∨ cs.head? = some '+' then cs.tail else cs
  let n : Int := ofDigitChars 10 digits 0
  let n := if cs.head? = some '-' then -n else n
  if digits ≠ [] ∧ digits.all Char.isDigit ∧ inI32 n then some n else none

def u128Max : Nat := 2 ^ 128 - 1

/-- `str::parse::<u128>` of the digits of a number: there can only be too many. -/
def parseU128 (digits : List Char) : Except LearningError Nat := do
  ensure (digits ≠ [] && digits.all Char.isDigit && ofDigitChars 10 digits 0 ≤ u128Max)
    (.bail "number too large to fit in target type")
  return ofDigitChars 10 digits 0

def isMark (c : Char) : Bool := c = 'e' || c = 'E'

/-- `split_once(['e', 'E'])`, with the exponent parsed. -/
def splitExponent (number : List Char) : List Char × Int :=
  match number.dropWhile (fun c => !isMark c) with
  | [] => (number, 0)
  | _ :: e => (number.takeWhile (fun c => !isMark c), (parseI32 e).getD i32Max)

def scaled (value : Value) (multiplier : Nat) : Except LearningError (List Char × Int) := do
  let number ← match value with
    | .number n => .ok (Value.printNumber n)
    | _ => .error (.bail "numeric NLL required")
  let (mantissa, exponent) := splitExponent number
  ensure (exponent.natAbs ≤ 1024) (.bail "NLL decimal exponent exceeds limit")
  let mantissa := mantissa.dropWhile (fun c => c = '-')
  let fraction := (splitOnce '.' mantissa).elim 0 (fun halves => halves.2.length)
  let coefficient ← parseU128 (mantissa.filter (fun c => c ≠ '.'))
  ensure (coefficient * multiplier ≤ u128Max) (.bail "NLL coefficient exceeds bound")
  ensure (inI32 fraction) (.bail "out of range integral type conversion attempted")
  return (toDigits 10 (coefficient * multiplier), ← subI32 exponent fraction)

/-- `trim_start_matches('0')`. -/
def trimZeros (cs : List Char) : List Char := cs.dropWhile (fun c => c = '0')

/-- `<=` of texts. -/
def le : List Char → List Char → Bool
  | [], _ => true
  | _ :: _, [] => false
  | c :: cs, d :: ds => c < d || (c = d && le cs ds)

def nllWithinGate (base candidate : Value) : Except LearningError Bool := do
  let (a, ae) ← scaled candidate 100
  let (b, be) ← scaled base 102
  let common := min ae be
  let a := a ++ List.replicate (← subI32 ae common).toNat '0'
  let b := b ++ List.replicate (← subI32 be common).toNat '0'
  let a := trimZeros a
  let b := trimZeros b
  return a.length < b.length || (a.length = b.length && le a b)

/-! ## Decimals -/

/-- One or more digits. -/
structure Digits where
  chars : List Char
  nonempty : chars ≠ []
  digits : ∀ c ∈ chars, c.isDigit

structure Exponent where
  upper : Bool
  /-- The sign, where `true` is a minus. -/
  sign : Option Bool
  digits : Digits

def Exponent.text (e : Exponent) : List Char :=
  (e.sign.elim [] fun minus => [if minus then '-' else '+']) ++ e.digits.chars

def Exponent.value (e : Exponent) : Int :=
  if e.sign = some true then -ofDigitChars 10 e.digits.chars 0 else ofDigitChars 10 e.digits.chars 0

/-- `-?digits[.digits][(e|E)[+-]digits]`. -/
structure Decimal where
  negative : Bool
  whole : Digits
  fraction : Option Digits
  exponent : Option Exponent

namespace Decimal

def places (d : Decimal) : List Char := d.fraction.elim [] Digits.chars

def exponentValue (d : Decimal) : Int := d.exponent.elim 0 Exponent.value

def mantissa (d : Decimal) : List Char :=
  d.whole.chars ++ d.fraction.elim [] fun digits => '.' :: digits.chars

def text (d : Decimal) : List Char :=
  (if d.negative then ['-'] else []) ++ d.mantissa ++
    d.exponent.elim [] fun e => (if e.upper then 'E' else 'e') :: e.text

def coefficient (d : Decimal) : Nat := ofDigitChars 10 (d.whole.chars ++ d.places) 0

/-- The number that a decimal denotes. -/
def value (d : Decimal) : ℚ :=
  (if d.negative then -1 else 1) * (d.coefficient * 10 ^ (d.exponentValue - d.places.length))

/-- At most twenty significant digits and an exponent of at most 1024.  The
texts of `serde_json`, of at most 24 characters, are short enough. -/
structure Fits (d : Decimal) : Prop where
  significant : (trimZeros (d.whole.chars ++ d.places)).length ≤ 20
  exponent : d.exponentValue.natAbs ≤ 1024
  short : d.text.length ≤ 2 ^ 30

end Decimal

/-! ## Digits -/

theorem toNat_digit {c : Char} (h : c.isDigit) : 48 ≤ c.toNat ∧ c.toNat ≤ 57 :=
  Char.isDigit_iff_toNat.mp h

theorem ofDigitChars_digit_cons (c : Char) (cs : List Char) :
    ofDigitChars 10 (c :: cs) 0 = 10 ^ cs.length * (c.toNat - 48) + ofDigitChars 10 cs 0 := by
  rw [Nat.ofDigitChars_cons, Nat.ofDigitChars_eq_ofDigitChars_zero]
  simp

theorem ofDigitChars_lt (h : ∀ c ∈ cs, c.isDigit) : ofDigitChars 10 cs 0 < 10 ^ cs.length := by
  induction cs with
  | nil => simp
  | cons c cs ih =>
    have hc := toNat_digit (h c mem_cons_self)
    have hcs := ih (fun d hd => h d (mem_cons_of_mem c hd))
    have hmul := Nat.mul_le_mul_left (10 ^ cs.length) (show c.toNat - 48 ≤ 9 by omega)
    rw [ofDigitChars_digit_cons, length_cons, pow_succ]
    omega

/-- Leading zeros do not count. -/
theorem ofDigitChars_trimZeros (cs : List Char) :
    ofDigitChars 10 (trimZeros cs) 0 = ofDigitChars 10 cs 0 := by
  induction cs with
  | nil => rfl
  | cons c cs ih =>
    unfold trimZeros at ih ⊢
    by_cases hc : c = '0'
    · rw [dropWhile_cons_of_pos (by simpa using hc), ih, hc, ofDigitChars_digit_cons]
      simp
    · rw [dropWhile_cons_of_neg (by simpa using hc)]

theorem isDigit_of_mem_trimZeros (h : ∀ c ∈ cs, c.isDigit) : ∀ c ∈ trimZeros cs, c.isDigit :=
  fun c hc => h c ((dropWhile_sublist _).subset hc)

section

variable (hcs : ∀ c ∈ cs, c.isDigit) (hds : ∀ c ∈ ds, c.isDigit)

include hcs hds

/-- Digits of one number of places are ordered as texts. -/
theorem le_iff_of_length_eq
    (hlen : cs.length = ds.length) : le cs ds ↔ ofDigitChars 10 cs 0 ≤ ofDigitChars 10 ds 0 := by
  induction cs generalizing ds with
  | nil =>
    rw [eq_nil_of_length_eq_zero hlen.symm]
    simp [le]
  | cons c cs ih =>
    obtain _ | ⟨d, ds⟩ := ds
    · exact absurd hlen (by simp)
    · have hlen : cs.length = ds.length := by simpa using hlen
      have hc := toNat_digit (hcs c mem_cons_self)
      have hd := toNat_digit (hds d mem_cons_self)
      have hcs := fun e he => hcs e (mem_cons_of_mem c he)
      have hds := fun e he => hds e (mem_cons_of_mem d he)
      have hlow := ofDigitChars_lt hcs
      have hhigh := ofDigitChars_lt hds
      have hless : c < d ↔ c.toNat < d.toNat := Iff.rfl
      have hsame : c = d ↔ c.toNat = d.toNat := Char.toNat_inj.symm
      rw [le, Bool.or_eq_true, Bool.and_eq_true, decide_eq_true_eq, decide_eq_true_eq, hless, hsame,
        ih hcs hds hlen, ofDigitChars_digit_cons, ofDigitChars_digit_cons, hlen]
      rw [hlen] at hlow
      obtain hlt | heq | hgt := lt_trichotomy c.toNat d.toNat
      · have hmul := Nat.mul_le_mul_left (10 ^ ds.length)
          (show c.toNat - 48 + 1 ≤ d.toNat - 48 by omega)
        rw [Nat.mul_succ] at hmul
        omega
      · simp [heq]
      · have hmul := Nat.mul_le_mul_left (10 ^ ds.length)
          (show d.toNat - 48 + 1 ≤ c.toNat - 48 by omega)
        rw [Nat.mul_succ] at hmul
        omega

/-- Digits that are fewer without their leading zeros are less. -/
theorem lt_of_shorter (h : (trimZeros cs).length < (trimZeros ds).length) :
    ofDigitChars 10 cs 0 < ofDigitChars 10 ds 0 := by
  have hlow := ofDigitChars_lt (isDigit_of_mem_trimZeros hcs)
  have hdigits := isDigit_of_mem_trimZeros hds
  rw [← ofDigitChars_trimZeros cs, ← ofDigitChars_trimZeros ds]
  cases hrest : trimZeros ds with
  | nil => exact absurd h (by simp [hrest])
  | cons d rest =>
    have hd := toNat_digit (hdigits d (hrest ▸ mem_cons_self))
    have hzero : ¬ d = '0' := by
      unfold trimZeros at hrest
      have hhead := head_dropWhile_not (fun c => decide (c = '0')) (by simp [hrest] : ds.dropWhile _ ≠ [])
      simpa [hrest] using hhead
    have hne : d.toNat ≠ 48 := fun h => hzero (Char.toNat_inj.mp h)
    rw [hrest, length_cons] at h
    calc ofDigitChars 10 (trimZeros cs) 0
        < 10 ^ (trimZeros cs).length := hlow
      _ ≤ 10 ^ rest.length := Nat.pow_le_pow_right (by omega) (by omega)
      _ ≤ 10 ^ rest.length * (d.toNat - 48) := Nat.le_mul_of_pos_right _ (by omega)
      _ ≤ ofDigitChars 10 (d :: rest) 0 := by rw [ofDigitChars_digit_cons]; omega

/-- What the gate computes of two texts of digits. -/
theorem shorter_or_le : (trimZeros cs).length < (trimZeros ds).length ∨
      (trimZeros cs).length = (trimZeros ds).length ∧ le (trimZeros cs) (trimZeros ds) ↔
    ofDigitChars 10 cs 0 ≤ ofDigitChars 10 ds 0 := by
  obtain hlt | heq | hgt := lt_trichotomy (trimZeros cs).length (trimZeros ds).length
  · exact iff_of_true (Or.inl hlt) (lt_of_shorter hcs hds hlt).le
  · rw [le_iff_of_length_eq (isDigit_of_mem_trimZeros hcs) (isDigit_of_mem_trimZeros hds) heq,
      ofDigitChars_trimZeros, ofDigitChars_trimZeros]
    simp [heq]
  · exact iff_of_false (by omega) (not_le.mpr (lt_of_shorter hds hcs hgt))

end

/-! ## One decimal -/

variable {d : Decimal}

theorem not_isMark_of_isDigit (h : c.isDigit) : isMark c = false := by
  have hc := toNat_digit h
  unfold isMark
  rw [Bool.or_eq_false_iff, decide_eq_false_iff_not, decide_eq_false_iff_not]
  constructor
  · rintro rfl
    exact absurd hc (by decide)
  · rintro rfl
    exact absurd hc (by decide)

theorem parseI32_text {e : Exponent} (h : e.value.natAbs ≤ 1024) : parseI32 e.text = some e.value := by
  obtain ⟨upper, sign, digits⟩ := e
  have hall : digits.chars.all Char.isDigit := all_eq_true.mpr digits.digits
  have hin : inI32 (Exponent.value ⟨upper, sign, digits⟩) := by
    unfold inI32 i32Max
    rw [Bool.and_eq_true, decide_eq_true_eq, decide_eq_true_eq]
    omega
  have hhead : ∀ c, c.isDigit = false → digits.chars.head? ≠ some c := by
    intro c hc hhead
    exact absurd (digits.digits c (mem_of_mem_head? hhead)) (by simp [hc])
  obtain _ | _ | _ := sign
  · simp only [Exponent.value, reduceCtorEq, if_false] at hin
    simp [parseI32, Exponent.text, Exponent.value, digits.nonempty, hall, hin,
      hhead '-' (by decide), hhead '+' (by decide)]
  · simp only [Exponent.value, reduceCtorEq, if_false, some.injEq] at hin
    simp [parseI32, Exponent.text, Exponent.value, digits.nonempty, hall, hin]
  · simp only [Exponent.value, if_true] at hin
    simp [parseI32, Exponent.text, Exponent.value, digits.nonempty, hall, hin]

namespace Decimal

theorem digit_or_point (h : c ∈ d.mantissa) : c.isDigit ∨ c = '.' := by
  unfold mantissa at h
  obtain h | h := mem_append.mp h
  · exact Or.inl (d.whole.digits c h)
  · cases hfraction : d.fraction with
    | none => simp [hfraction] at h
    | some digits =>
      rw [hfraction] at h
      obtain rfl | h := mem_cons.mp h
      · exact Or.inr rfl
      · exact Or.inl (digits.digits c h)

theorem isDigit_coefficient : ∀ c ∈ d.whole.chars ++ d.places, c.isDigit := by
  intro c hc
  obtain h | h := mem_append.mp hc
  · exact d.whole.digits c h
  · unfold places at h
    cases hfraction : d.fraction with
    | none => simp [hfraction] at h
    | some digits =>
      rw [hfraction] at h
      exact digits.digits c h

theorem splitExponent_text (h : d.exponentValue.natAbs ≤ 1024) :
    splitExponent d.text = ((if d.negative then ['-'] else []) ++ d.mantissa, d.exponentValue) := by
  have hmarks : ∀ c ∈ (if d.negative then ['-'] else []) ++ d.mantissa, (!isMark c) := by
    intro c hc
    obtain hc | hc := mem_append.mp hc
    · split at hc
      · rw [mem_singleton.mp hc]
        decide
      · exact absurd hc not_mem_nil
    · obtain hc | rfl := digit_or_point hc
      · simp [not_isMark_of_isDigit hc]
      · decide
  unfold splitExponent text exponentValue at *
  cases hexponent : d.exponent with
  | none =>
    rw [elim_none, append_nil, dropWhile_eq_nil_iff.mpr hmarks]
    rfl
  | some e =>
    rw [hexponent] at h
    have hmark : (!isMark (if e.upper then 'E' else 'e')) = false := by
      cases e.upper <;> decide
    obtain ⟨htake, hdrop⟩ := takeWhile_first hmarks hmark e.text
    rw [elim_some, htake, hdrop]
    simp [parseI32_text h]

theorem trim_sign : ((if d.negative then ['-'] else []) ++ d.mantissa).dropWhile (fun c => c = '-') =
    d.mantissa := by
  have hmantissa : d.mantissa.dropWhile (fun c => c = '-') = d.mantissa := by
    apply dropWhile_eq_self_iff.mpr
    intro hpos
    obtain hc | hc := digit_or_point (getElem_mem hpos)
    · intro heq
      rw [of_decide_eq_true heq] at hc
      exact absurd hc (by decide)
    · simp [hc]
  cases d.negative
  · simpa using hmantissa
  · simpa using hmantissa

theorem filter_mantissa : d.mantissa.filter (fun c => c ≠ '.') = d.whole.chars ++ d.places := by
  have hdigits : ∀ digits : Digits, digits.chars.filter (fun c => c ≠ '.') = digits.chars := by
    intro digits
    apply filter_eq_self.mpr
    intro c hc
    refine decide_eq_true fun hpoint => ?_
    exact absurd (hpoint ▸ digits.digits c hc) (by decide)
  unfold mantissa places
  rw [filter_append, hdigits]
  cases d.fraction with
  | none => rfl
  | some digits => simpa using hdigits digits

theorem splitOnce_mantissa :
    (splitOnce '.' d.mantissa).elim 0 (fun halves => halves.2.length) = d.places.length := by
  have hwhole : '.' ∉ d.whole.chars := fun h => absurd (d.whole.digits '.' h) (by decide)
  unfold mantissa places
  cases d.fraction with
  | none => simp [splitOnce, hwhole]
  | some digits =>
    rw [elim_some, splitOnce_eq_some.mpr ⟨rfl, hwhole⟩]
    rfl

theorem coefficient_lt (h : d.Fits) : d.coefficient < 10 ^ 20 := by
  unfold coefficient
  rw [← ofDigitChars_trimZeros]
  calc ofDigitChars 10 (trimZeros (d.whole.chars ++ d.places)) 0
      < 10 ^ (trimZeros (d.whole.chars ++ d.places)).length :=
        ofDigitChars_lt (isDigit_of_mem_trimZeros isDigit_coefficient)
    _ ≤ 10 ^ 20 := Nat.pow_le_pow_right (by omega) h.significant

theorem places_le (h : d.Fits) : d.places.length ≤ 2 ^ 30 := by
  have hshort := h.short
  unfold text mantissa at hshort
  unfold places
  cases hfraction : d.fraction with
  | none => simp
  | some digits =>
    simp only [hfraction, elim_some, length_append, length_cons] at hshort ⊢
    omega

end Decimal

theorem inI32_of_le (h : n.natAbs ≤ 2 ^ 31 - 1) : inI32 n := by
  unfold inI32 i32Max
  rw [Bool.and_eq_true, decide_eq_true_eq, decide_eq_true_eq]
  omega

/-- No product overflows. -/
theorem scaled_eq (h : d.Fits) (hn : Value.printNumber n = d.text)
    (hm : multiplier ≤ 102) : scaled (.number n) multiplier =
      .ok (toDigits 10 (d.coefficient * multiplier), d.exponentValue - d.places.length) := by
  have hexponent := h.exponent
  have hplaces := Decimal.places_le h
  have hcoefficient := Decimal.coefficient_lt h
  have hproduct : d.coefficient * multiplier ≤ u128Max :=
    (Nat.mul_le_mul hcoefficient.le hm).trans (by decide)
  have hparse : parseU128 (d.whole.chars ++ d.places) = .ok d.coefficient := by
    have hne : d.whole.chars ++ d.places ≠ [] := append_ne_nil_of_left_ne_nil d.whole.nonempty _
    have hall := all_eq_true.mpr (Decimal.isDigit_coefficient (d := d))
    have hmax : ofDigitChars 10 (d.whole.chars ++ d.places) 0 ≤ u128Max :=
      hcoefficient.le.trans (by decide)
    rw [parseU128, decide_eq_true hne, hall, decide_eq_true hmax]
    rfl
  simp only [scaled, hn, ok_bind, Decimal.splitExponent_text hexponent, Decimal.trim_sign,
    Decimal.filter_mantissa, Decimal.splitOnce_mantissa, hparse, hexponent, hproduct, decide_true,
    ensure_true, inI32_of_le (show (d.places.length : Int).natAbs ≤ 2 ^ 31 - 1 by omega), subI32,
    inI32_of_le (show (d.exponentValue - d.places.length).natAbs ≤ 2 ^ 31 - 1 by omega)]
  rfl

/-! ## The gate is exact -/

theorem value_eq (h : 0 ≤ d.value) :
    d.value = d.coefficient * (10 : ℚ) ^ (d.exponentValue - d.places.length) := by
  have hnonneg : 0 ≤ d.coefficient * (10 : ℚ) ^ (d.exponentValue - d.places.length) := by positivity
  unfold Decimal.value at h ⊢
  cases hnegative : d.negative
  · simp
  · rw [hnegative, if_pos rfl] at h
    rw [if_pos rfl]
    linarith

/-- Two coefficients at a common exponent. -/
theorem shifted_le_iff {m n : Nat} {me ne common : Int} (hm : common ≤ me) (hn : common ≤ ne) :
    10 ^ (me - common).toNat * m ≤ 10 ^ (ne - common).toNat * n ↔
      (m : ℚ) * 10 ^ me ≤ n * 10 ^ ne := by
  have hshift : ∀ {k : Nat} {e : Int}, common ≤ e →
      (k : ℚ) * 10 ^ e = ((10 ^ (e - common).toNat * k : Nat) : ℚ) * 10 ^ common := by
    intro k e he
    have hsum : e = ((e - common).toNat : Int) + common := by omega
    conv_lhs => rw [hsum, zpow_add₀ (by norm_num), zpow_natCast]
    push_cast
    ring
  rw [hshift hm, hshift hn, mul_le_mul_iff_left₀ (by positivity), Nat.cast_le]

theorem nllWithinGate_exact {base candidate : Number} {b c : Decimal}
    (hbase : Value.printNumber base = b.text) (hcandidate : Value.printNumber candidate = c.text)
    (hb : b.Fits) (hc : c.Fits) (hpos : 0 < b.value) (hnonneg : 0 ≤ c.value) :
    ∃ within, nllWithinGate (.number base) (.number candidate) = .ok within ∧
      (within = true ↔ 100 * c.value ≤ 102 * b.value) := by
  have hdigits : ∀ n k : Nat, ∀ x ∈ toDigits 10 n ++ replicate k '0', x.isDigit := by
    intro n k x hx
    obtain hx | hx := mem_append.mp hx
    · exact Nat.isDigit_of_mem_toDigits (by omega) (by omega) hx
    · rw [eq_of_mem_replicate hx]
      decide
  have hshifted : ∀ n k : Nat, ofDigitChars 10 (toDigits 10 n ++ replicate k '0') 0 = 10 ^ k * n := by
    intro n k
    rw [Nat.ofDigitChars_append, Nat.ofDigitChars_ten_toDigits, Nat.ofDigitChars_replicate_zero]
  have hexact : (100 * c.value ≤ 102 * b.value) ↔
      ((c.coefficient * 100 : Nat) : ℚ) * 10 ^ (c.exponentValue - c.places.length) ≤
        ((b.coefficient * 102 : Nat) : ℚ) * 10 ^ (b.exponentValue - b.places.length) := by
    rw [value_eq hnonneg, value_eq hpos.le]
    push_cast
    ring_nf
  have hcexponent := hc.exponent
  have hbexponent := hb.exponent
  have hcplaces := Decimal.places_le hc
  have hbplaces := Decimal.places_le hb
  rw [hexact]
  simp only [nllWithinGate, scaled_eq hc hcandidate (show 100 ≤ 102 by omega),
    scaled_eq hb hbase le_rfl, ok_bind]
  have hae : -2 ^ 30 - 1024 ≤ c.exponentValue - c.places.length ∧
      c.exponentValue - c.places.length ≤ 1024 := by omega
  have hbe : -2 ^ 30 - 1024 ≤ b.exponentValue - b.places.length ∧
      b.exponentValue - b.places.length ≤ 1024 := by omega
  generalize c.exponentValue - (c.places.length : Int) = ae at hae ⊢
  generalize b.exponentValue - (b.places.length : Int) = be at hbe ⊢
  simp only [subI32, inI32_of_le (show (ae - min ae be).natAbs ≤ 2 ^ 31 - 1 by omega),
    inI32_of_le (show (be - min ae be).natAbs ≤ 2 ^ 31 - 1 by omega), ensure_true, ok_bind]
  refine ⟨_, rfl, ?_⟩
  rw [Bool.or_eq_true, Bool.and_eq_true, decide_eq_true_eq, decide_eq_true_eq,
    shorter_or_le (hdigits _ _) (hdigits _ _), hshifted, hshifted]
  exact shifted_le_iff (min_le_left ae be) (min_le_right ae be)

/-- `1`. -/
def one : Decimal := ⟨false, ⟨['1'], by simp, by simp⟩, none, none⟩

/-- `11e-1`. -/
def elevenTenths : Decimal :=
  ⟨false, ⟨['1', '1'], by simp, by simp⟩, none, some ⟨false, some true, one.whole⟩⟩

theorem nllWithinGate_exact_sample : ∃ within,
    nllWithinGate (.number (.posInt 1)) (.number (.other "11e-1")) = .ok within ∧
      (within = true ↔ (110 : ℚ) ≤ 102) := by
  have hbase : one.value = 1 := by
    norm_num [Decimal.value, show one.coefficient = 1 from rfl, show one.exponentValue = 0 from rfl,
      show one.places = [] from rfl, show one.negative = false from rfl]
  have hcandidate : elevenTenths.value = 11 / 10 := by
    norm_num [Decimal.value, show elevenTenths.coefficient = 11 from rfl,
      show elevenTenths.exponentValue = -1 from rfl, show elevenTenths.places = [] from rfl,
      show elevenTenths.negative = false from rfl]
  have h := @nllWithinGate_exact (.posInt 1) (.other "11e-1") one elevenTenths (by decide)
    (by decide) ⟨by decide, by decide, by decide⟩ ⟨by decide, by decide, by decide⟩
    (by rw [hbase]; norm_num) (by rw [hcandidate]; norm_num)
  rw [hbase, hcandidate] at h
  convert h using 4 <;> norm_num

end Abbey.Learning
