import Abbey.Decode.Lines

/-!
# Plain text of the backends

`src/stream/plain.rs`: bytes that are text, with escape sequences of a
terminal in it.  A chunk may end within a character, whose bytes are carried
to the next chunk, and within an escape sequence, whose state is kept.
-/

namespace Abbey.Decode

open Abbey.Lib Utf8 List

/-- Where an escape sequence stands. -/
inductive Esc where
  | none
  | start
  | csi

/-- `strip`: the text without escape sequences, and where the last one
stands. -/
def stripEsc : Esc → List Char → Esc × List Char
  | esc, [] => (esc, [])
  | .none, c :: cs =>
    if c = '\x1b' then stripEsc .start cs
    else ((stripEsc .none cs).1, c :: (stripEsc .none cs).2)
  | .start, c :: cs => stripEsc (if c = '[' then .csi else .none) cs
  | .csi, c :: cs => stripEsc (if '@' ≤ c ∧ c ≤ '~' then .none else .csi) cs

structure PlainDecoder where
  carry : List UInt8
  esc : Esc

/-- `std::str::from_utf8`, as the characters up to the first error and the
bytes from there on. -/
def validUpTo (bytes : List UInt8) : List Char × List UInt8 :=
  match h : Utf8.front bytes with
  | .char c rest => (c :: (validUpTo rest).1, (validUpTo rest).2)
  | .error _ | .unfinished => ([], bytes)
termination_by bytes.length
decreasing_by exact Utf8.length_lt_of_rest (by rw [h]; rfl)

namespace PlainDecoder

def fresh : PlainDecoder := ⟨[], .none⟩

/-- `emit`. -/
def emit (d : PlainDecoder) (text : List Char) : PlainDecoder × List StreamEvent :=
  let (esc, cleaned) := stripEsc d.esc text
  ({ d with esc }, if cleaned.isEmpty then [] else [.textDelta cleaned])

/-- The loop of `feed`: up to an error the text is taken as it is; an error
that has a length is replaced, one without is an unfinished character.  Every
turn that goes on takes a byte. -/
def decode : Nat → List UInt8 → List Char × List UInt8
  | 0, carry => ([], carry)
  | n + 1, carry =>
    let (valid, rest) := validUpTo carry
    match Utf8.front rest with
    | .error rest' =>
      (valid ++ Utf8.replacement :: (decode n rest').1, (decode n rest').2)
    | .char _ _ | .unfinished => (valid, rest)

def feed (d : PlainDecoder) (chunk : List UInt8) : PlainDecoder × List StreamEvent :=
  let carry := d.carry ++ chunk
  let (text, carry') := decode (carry.length + 1) carry
  { d with carry := carry' }.emit text

def finish (d : PlainDecoder) : PlainDecoder × List StreamEvent :=
  if d.carry.isEmpty then (d, []) else { d with carry := [] }.emit (Utf8.lossy d.carry)

end PlainDecoder

/-- The text of some events. -/
def textOf (events : List StreamEvent) : List Char :=
  events.flatMap (fun
    | .textDelta text => text
    | _ => [])

/-! ## The loop -/

/-- A scan up to the first error and from there on. -/
theorem scan_validUpTo (bytes : List UInt8) :
    scan bytes = ((validUpTo bytes).1 ++ (scan (validUpTo bytes).2).1,
      (scan (validUpTo bytes).2).2) := by
  fun_induction validUpTo bytes with
  | case1 bytes c rest h ih =>
    rw [scan_of_char h, ih]
    rfl
  | case2 bytes rest h => rfl
  | case3 bytes h => rfl

theorem front_validUpTo (bytes : List UInt8) (c : Char) (rest : List UInt8) :
    front (validUpTo bytes).2 ≠ .char c rest := by
  fun_induction validUpTo bytes with
  | case1 bytes c' rest' h ih => exact ih
  | case2 bytes rest' h => simp [h]
  | case3 bytes h => simp [h]

theorem length_validUpTo_le (bytes : List UInt8) : (validUpTo bytes).2.length ≤ bytes.length := by
  fun_induction validUpTo bytes with
  | case1 bytes c rest h ih =>
    have hlt : rest.length < bytes.length := length_lt_of_rest (by rw [h]; rfl)
    exact ih.trans (Nat.le_of_lt hlt)
  | case2 bytes rest h => exact Nat.le_refl _
  | case3 bytes h => exact Nat.le_refl _

/-- The loop is a scan. -/
theorem decode_eq_scan (h : carry.length < n) : PlainDecoder.decode n carry = scan carry := by
  induction n generalizing carry with
  | zero => omega
  | succ n ih =>
    rw [PlainDecoder.decode, scan_validUpTo]
    have hle := length_validUpTo_le carry
    cases hfront : front (validUpTo carry).2 with
    | char c rest => exact absurd hfront (front_validUpTo carry c rest)
    | error rest =>
      have hlt : rest.length < (validUpTo carry).2.length :=
        length_lt_of_rest (by rw [hfront]; rfl)
      simp only [hfront]
      rw [ih (by omega), scan_of_error hfront]
    | unfinished =>
      simp only [hfront]
      rw [scan_of_unfinished hfront, append_nil]

/-! ## Escape sequences -/

theorem stripEsc_append (esc : Esc) (a b : List Char) :
    stripEsc esc (a ++ b) = ((stripEsc (stripEsc esc a).1 b).1,
      (stripEsc esc a).2 ++ (stripEsc (stripEsc esc a).1 b).2) := by
  induction a generalizing esc with
  | nil => cases esc <;> simp [stripEsc]
  | cons c a ih =>
    cases esc with
    | none =>
      rw [cons_append]
      by_cases hc : c = '\x1b'
      · simp only [stripEsc, hc, if_true, ih]
      · simp only [stripEsc, hc, if_false, ih, cons_append]
    | start | csi => simp only [cons_append, stripEsc, ih]

theorem textOf_emit (d : PlainDecoder) (text : List Char) :
    textOf (d.emit text).2 = (stripEsc d.esc text).2 := by
  unfold PlainDecoder.emit
  dsimp only
  split_ifs with h
  · simp only [textOf, flatMap_nil]
    exact (isEmpty_iff.mp h).symm
  · simp [textOf]

theorem textOf_append (a b : List StreamEvent) : textOf (a ++ b) = textOf a ++ textOf b :=
  flatMap_append

/-! ## Chunks -/

namespace PlainDecoder

/-- Some chunks after each other. -/
def feedAll : PlainDecoder → List (List UInt8) → PlainDecoder × List StreamEvent
  | d, [] => (d, [])
  | d, chunk :: chunks =>
    let (d', first) := d.feed chunk
    let (d'', rest) := feedAll d' chunks
    (d'', first ++ rest)

/-- A fresh decoder on some chunks and the end. -/
def decodeAll (chunks : List (List UInt8)) : List StreamEvent :=
  (feedAll fresh chunks).2 ++ (feedAll fresh chunks).1.finish.2

theorem feed_eq (d : PlainDecoder) (chunk : List UInt8) :
    (d.feed chunk).1 =
       ⟨(scan (d.carry ++ chunk)).2,
        (stripEsc d.esc (scan (d.carry ++ chunk)).1).1⟩ ∧
      textOf (d.feed chunk).2 = (stripEsc d.esc (scan (d.carry ++ chunk)).1).2 := by
  unfold feed
  dsimp only
  rw [decode_eq_scan (Nat.lt_succ_self _), textOf_emit]
  exact ⟨rfl, rfl⟩

/-- The decoder after some chunks is the decoder after their bytes. -/
theorem feedAll_eq (d : PlainDecoder) (hd : scan d.carry = ([], d.carry))
    (chunks : List (List UInt8)) :
    (feedAll d chunks).1 =
       ⟨(scan (d.carry ++ chunks.flatten)).2,
        (stripEsc d.esc (scan (d.carry ++ chunks.flatten)).1).1⟩ ∧
      textOf (feedAll d chunks).2 = (stripEsc d.esc (scan (d.carry ++ chunks.flatten)).1).2 := by
  induction chunks generalizing d with
  | nil =>
    rw [flatten_nil, append_nil, hd]
    cases d with
    | mk carry esc => cases esc <;> exact ⟨rfl, rfl⟩
  | cons chunk chunks ih =>
    obtain ⟨hstate, htext⟩ := feed_eq d chunk
    have hkept : scan (d.feed chunk).1.carry = ([], (d.feed chunk).1.carry) := by
      rw [hstate]
      exact scan_of_unfinished (front_scan _)
    obtain ⟨hlater, hmore⟩ := ih (d.feed chunk).1 hkept
    rw [hstate] at hlater hmore
    have hscan := scan_append (d.carry ++ chunk) chunks.flatten
    rw [append_assoc] at hscan
    rw [flatten_cons, hscan, stripEsc_append]
    refine ⟨?_, ?_⟩
    · rw [feedAll]
      dsimp only
      rw [hstate, hlater]
    · rw [feedAll]
      dsimp only
      rw [textOf_append, htext, hstate, hmore]

theorem fresh_unfinished : scan fresh.carry = ([], fresh.carry) :=
  scan_of_unfinished rfl

/-- The text does not depend on the cut. -/
theorem decodeAll_eq (chunks : List (List UInt8)) :
    textOf (decodeAll chunks) = (stripEsc .none (lossy chunks.flatten)).2 := by
  obtain ⟨hstate, htext⟩ := feedAll_eq fresh fresh_unfinished chunks
  have hcarry : fresh.carry ++ chunks.flatten = chunks.flatten := rfl
  rw [hcarry] at hstate htext
  have hlossy : lossy chunks.flatten = (scan chunks.flatten).1 ++
      if (scan chunks.flatten).2.isEmpty then [] else [replacement] := rfl
  unfold decodeAll finish
  rw [textOf_append, htext, hstate, hlossy, stripEsc_append]
  congr 1
  dsimp only
  by_cases hempty : (scan chunks.flatten).2.isEmpty
  · rw [if_pos hempty, if_pos hempty]
    cases (stripEsc fresh.esc (scan chunks.flatten).1).1 <;> rfl
  · rw [if_neg hempty, if_neg hempty, textOf_emit]
    have hrest : lossy (scan chunks.flatten).2 = [replacement] := by
      rw [lossy, scan_of_unfinished (front_scan _), if_neg hempty, nil_append]
    rw [hrest]
    rfl

theorem length_carry_le (chunks : List (List UInt8)) :
    (feedAll fresh chunks).1.carry.length ≤ 3 := by
  rw [(feedAll_eq fresh fresh_unfinished chunks).1]
  exact length_rest_le _

end PlainDecoder

end Abbey.Decode
