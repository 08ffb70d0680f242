import Mathlib.Data.List.Infix
import Mathlib.Tactic.Common
import Mathlib.Tactic.SplitIfs

/-!
# UTF-8 with replacement

What the front of some bytes is: a character, an error, or the beginning of a
character that has not ended.  An error is the longest beginning of a sequence
that cannot go on; a decoder puts one replacement character in its place.

`scan` decodes what can be decided and leaves an unfinished beginning, at most
three bytes (`length_rest_le`).  A reader that gets the bytes in chunks and
keeps the beginning sees the characters of the whole (`scan_append`).
`lossy` replaces the beginning as well, which is the decoding of bytes that
have ended.
-/

namespace Abbey.Lib.Utf8

/-- The front of some bytes, with the bytes behind it. -/
inductive Front where
  | char (c : Char) (rest : List UInt8)
  | error (rest : List UInt8)
  | unfinished

def isContinuation (byte : UInt8) : Bool := 0x80 ≤ byte && byte ≤ 0xbf

/-- The second byte that may follow a first byte of three or four bytes:
neither an overlong form, nor a surrogate, nor beyond U+10FFFF. -/
def isSecond (first second : UInt8) : Bool :=
  if first = 0xe0 then 0xa0 ≤ second && second ≤ 0xbf
  else if first = 0xed then 0x80 ≤ second && second ≤ 0x9f
  else if first = 0xf0 then 0x90 ≤ second && second ≤ 0xbf
  else if first = 0xf4 then 0x80 ≤ second && second ≤ 0x8f
  else isContinuation second

/-- The bits of a first byte and of the continuation bytes. -/
def decodeBits (first : Nat) (rest : List UInt8) : Char :=
  Char.ofNat (rest.foldl (fun n byte => n * 64 + (byte.toNat - 0x80)) first)

/-- The next byte of a sequence, as far as there is one and it fits. -/
def next (fits : UInt8 → Bool) (k : UInt8 → List UInt8 → Front) : List UInt8 → Front
  | [] => .unfinished
  | b :: rest => if fits b then k b rest else .error (b :: rest)

/-- What a first byte asks for. -/
def after (a : UInt8) : List UInt8 → Front :=
  if a < 0x80 then .char (Char.ofNat a.toNat)
  else if 0xc2 ≤ a && a ≤ 0xdf then
    next isContinuation (fun b => .char (decodeBits (a.toNat - 0xc0) [b]))
  else if 0xe0 ≤ a && a ≤ 0xef then
    next (isSecond a) (fun b => next isContinuation (fun c =>
      .char (decodeBits (a.toNat - 0xe0) [b, c])))
  else if 0xf0 ≤ a && a ≤ 0xf4 then
    next (isSecond a) (fun b => next isContinuation (fun c => next isContinuation (fun d =>
      .char (decodeBits (a.toNat - 0xf0) [b, c, d]))))
  else .error

def front : List UInt8 → Front
  | [] => .unfinished
  | a :: rest => after a rest

/-- U+FFFD. -/
def replacement : Char := '\uFFFD'

/-! ## What a front depends on -/

/-- The bytes behind a front. -/
def Front.rest? : Front → Option (List UInt8)
  | char _ rest | error rest => some rest
  | unfinished => none

/-- A front with more bytes behind it. -/
def Front.append (more : List UInt8) : Front → Front
  | char c rest => .char c (rest ++ more)
  | error rest => .error (rest ++ more)
  | unfinished => .unfinished

/-- A reading that takes bytes from the front only, and is undecided on fewer
than `n` bytes only. -/
structure Reads (n : Nat) (read : List UInt8 → Front) : Prop where
  le : ∀ bytes rest, (read bytes).rest? = some rest → rest.length ≤ bytes.length
  short : ∀ bytes, read bytes = .unfinished → bytes.length < n
  append : ∀ bytes more, read bytes ≠ .unfinished →
    read (bytes ++ more) = (read bytes).append more

theorem reads_char (c : Char) : Reads 0 (Front.char c) where
  le bytes rest h := by
    cases h
    exact Nat.le_refl _
  short bytes h := by cases h
  append bytes more _ := rfl

theorem reads_error : Reads 0 Front.error where
  le bytes rest h := by
    cases h
    exact Nat.le_refl _
  short bytes h := by cases h
  append bytes more _ := rfl

theorem Reads.next (h : ∀ b, Reads n (k b)) : Reads (n + 1) (Utf8.next fits k) where
  le bytes rest hrest := by
    cases bytes with
    | nil => cases hrest
    | cons b bytes =>
      unfold Utf8.next at hrest
      dsimp only at hrest
      split_ifs at hrest
      · have hle := (h b).le bytes rest hrest
        rw [List.length_cons]
        omega
      · cases hrest
        exact Nat.le_refl _
  short bytes hbytes := by
    cases bytes with
    | nil => exact Nat.succ_pos n
    | cons b bytes =>
      unfold Utf8.next at hbytes
      dsimp only at hbytes
      split_ifs at hbytes
      have hlt := (h b).short bytes hbytes
      rw [List.length_cons]
      omega
  append bytes more hbytes := by
    cases bytes with
    | nil => exact absurd rfl hbytes
    | cons b bytes =>
      unfold Utf8.next at hbytes ⊢
      rw [List.cons_append]
      dsimp only at hbytes ⊢
      split_ifs at hbytes ⊢
      · exact (h b).append bytes more hbytes
      · rfl

theorem Reads.mono {read : List UInt8 → Front} (h : Reads n read) (hle : n ≤ m) : Reads m read :=
  ⟨h.le, fun bytes hbytes => Nat.lt_of_lt_of_le (h.short bytes hbytes) hle, h.append⟩

theorem reads_after (a : UInt8) : Reads 3 (after a) := by
  unfold after
  split_ifs
  · exact (reads_char _).mono (by omega)
  · exact (Reads.next (fun b => reads_char _)).mono (by omega)
  · exact (Reads.next (fun b => Reads.next (fun c => reads_char _))).mono (by omega)
  · exact Reads.next (fun b => Reads.next (fun c => Reads.next (fun d => reads_char _)))
  · exact reads_error.mono (by omega)

variable {bytes rest : List UInt8} {c : Char}

/-- A front that is decided takes a byte at least. -/
theorem length_lt_of_rest (h : (front bytes).rest? = some rest) : rest.length < bytes.length := by
  cases bytes with
  | nil => cases h
  | cons a bytes => exact Nat.lt_succ_of_le ((reads_after a).le bytes rest h)

/-- An unfinished sequence has three bytes at most. -/
theorem length_le_of_unfinished (h : front bytes = .unfinished) : bytes.length ≤ 3 := by
  cases bytes with
  | nil => exact Nat.zero_le 3
  | cons a bytes => exact (reads_after a).short bytes h

/-- What is decided does not depend on what follows. -/
theorem front_append (h : front bytes ≠ .unfinished) (more : List UInt8) :
    front (bytes ++ more) = (front bytes).append more := by
  cases bytes with
  | nil => exact absurd rfl h
  | cons a bytes => exact (reads_after a).append bytes more h

/-! ## Decoding -/

/-- The characters that are decided, and the beginning that is left. -/
def scan (bytes : List UInt8) : List Char × List UInt8 :=
  match h : front bytes with
  | .char c rest => (c :: (scan rest).1, (scan rest).2)
  | .error rest => (replacement :: (scan rest).1, (scan rest).2)
  | .unfinished => ([], bytes)
termination_by bytes.length
decreasing_by all_goals exact length_lt_of_rest (by rw [h]; rfl)

theorem scan_of_char (h : front bytes = .char c rest) :
    scan bytes = (c :: (scan rest).1, (scan rest).2) := by
  rw [scan]
  split
  all_goals simp_all

theorem scan_of_error (h : front bytes = .error rest) :
    scan bytes = (replacement :: (scan rest).1, (scan rest).2) := by
  rw [scan]
  split
  all_goals simp_all

theorem scan_of_unfinished (h : front bytes = .unfinished) : scan bytes = ([], bytes) := by
  rw [scan]
  split
  all_goals simp_all

/-- `String::from_utf8_lossy`: a beginning at the end is replaced as well. -/
def lossy (bytes : List UInt8) : List Char :=
  (scan bytes).1 ++ if (scan bytes).2.isEmpty then [] else [replacement]

/-- A reader that keeps the beginning sees the characters of the whole. -/
theorem scan_append (bytes more : List UInt8) :
    scan (bytes ++ more) = ((scan bytes).1 ++ (scan ((scan bytes).2 ++ more)).1,
      (scan ((scan bytes).2 ++ more)).2) := by
  fun_induction scan bytes with
  | case1 bytes c rest h ih =>
    have hmore := front_append (by rw [h]; simp) more
    rw [h] at hmore
    rw [scan_of_char hmore, ih]
    rfl
  | case2 bytes rest h ih =>
    have hmore := front_append (by rw [h]; simp) more
    rw [h] at hmore
    rw [scan_of_error hmore, ih]
    rfl
  | case3 bytes h => simp

/-- What is left is an unfinished sequence. -/
theorem front_scan (bytes : List UInt8) : front (scan bytes).2 = .unfinished := by
  fun_induction scan bytes with
  | case1 bytes c rest h ih => exact ih
  | case2 bytes rest h ih => exact ih
  | case3 bytes h => exact h

theorem length_rest_le (bytes : List UInt8) : (scan bytes).2.length ≤ 3 :=
  length_le_of_unfinished (front_scan bytes)

end Abbey.Lib.Utf8
