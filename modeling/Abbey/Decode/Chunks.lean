import Abbey.Decode.Plain

/-!
# Chunks of a backend

A pipe cuts the output of a backend into chunks at any byte.

`push_append` says that a line buffer assembles the same lines from any cut,
and `feedAll_eq` that a decoder then emits the same events, apart from its
notices about over-long lines: a chunk has one of them however many such lines
it holds.  `unchunked` puts the four decoders together with the bounds on
what they keep between chunks.
-/

namespace Abbey.Decode

open Abbey.Lib List

variable {b : LineBuffer}

/-! ## Lines -/

namespace LineBuffer

theorem push_cons (b : LineBuffer) (x : UInt8) (chunk : List UInt8) :
    (b.push (x :: chunk)).1 = ((b.byte x).1.push chunk).1 ∧
      (b.push (x :: chunk)).2.1 = (b.byte x).2.1.toList ++ ((b.byte x).1.push chunk).2.1 :=
  ⟨rfl, rfl⟩

theorem push_append (b : LineBuffer) (a c : List UInt8) :
    (b.push (a ++ c)).1 = ((b.push a).1.push c).1 ∧
      (b.push (a ++ c)).2.1 = (b.push a).2.1 ++ ((b.push a).1.push c).2.1 := by
  induction a generalizing b with
  | nil => exact ⟨rfl, rfl⟩
  | cons x a ih =>
    obtain ⟨hbuffer, hlines⟩ := ih (b.byte x).1
    rw [cons_append, (push_cons b x (a ++ c)).1, (push_cons b x (a ++ c)).2,
      (push_cons b x a).1, (push_cons b x a).2, hlines, append_assoc]
    exact ⟨hbuffer, rfl⟩

/-- A byte never leaves more than a MiB. -/
theorem length_byte_le (h : b.pending.length ≤ maxLineBytes) (x : UInt8) :
    (b.byte x).1.pending.length ≤ maxLineBytes := by
  unfold byte
  dsimp only
  split_ifs with hnewline hdiscard hdiscard hlong
  · exact Nat.zero_le _
  · exact Nat.zero_le _
  · exact h
  · exact Nat.zero_le _
  · exact Nat.le_of_not_lt hlong

theorem length_push_le (h : b.pending.length ≤ maxLineBytes) (chunk : List UInt8) :
    (b.push chunk).1.pending.length ≤ maxLineBytes := by
  induction chunk generalizing b with
  | nil => exact h
  | cons x chunk ih => exact ih (length_byte_le h x)

end LineBuffer

/-! ## Decoders -/

namespace Ndjson

variable {σ : Type} (parse : Parser) (backend : Backend σ)

/-- Some chunks after each other. -/
def feedAll : Ndjson σ → List (List UInt8) → Ndjson σ × List StreamEvent
  | d, [] => (d, [])
  | d, chunk :: chunks =>
    let (d', first) := d.feed parse backend chunk
    let (d'', rest) := feedAll d' chunks
    (d'', first ++ rest)

/-- A fresh decoder on some chunks and the end: its events and the number of
unknown ones. -/
def decodeAll (chunks : List (List UInt8)) : List StreamEvent × Nat :=
  let (d, events) := feedAll parse backend (fresh backend) chunks
  let (d', last) := d.finish parse backend
  (events ++ last, d'.unknown)

/-- The events apart from the notices about over-long lines. -/
def apart (events : List StreamEvent) : List StreamEvent :=
  events.filter (fun event => decide (event ≠ overlong backend))

variable {parse backend}

/-- A buffer beside does not matter to the reading of lines. -/
theorem decodeLine_with (d : Ndjson σ) (b : LineBuffer) (line : List Char) :
    (d.withLines b).decodeLine parse backend line =
      ((d.decodeLine parse backend line).1.withLines b, (d.decodeLine parse backend line).2) := by
  unfold decodeLine
  cases parse line <;> rfl

theorem decodeLines_with (d : Ndjson σ) (b : LineBuffer) (lines : List (List Char)) :
    (d.withLines b).decodeLines parse backend lines =
      ((d.decodeLines parse backend lines).1.withLines b,
        (d.decodeLines parse backend lines).2) := by
  induction lines generalizing d with
  | nil => rfl
  | cons line lines ih =>
    simp only [decodeLines, decodeLine_with, ih]

theorem decodeLines_append (d : Ndjson σ) (first later : List (List Char)) :
    d.decodeLines parse backend (first ++ later) =
      (((d.decodeLines parse backend first).1.decodeLines parse backend later).1,
        (d.decodeLines parse backend first).2 ++
          ((d.decodeLines parse backend first).1.decodeLines parse backend later).2) := by
  induction first generalizing d with
  | nil => rfl
  | cons line first ih =>
    simp only [cons_append, decodeLines, ih, append_assoc]

theorem apart_append (a b : List StreamEvent) :
    apart backend (a ++ b) = apart backend a ++ apart backend b :=
  filter_append a b

theorem apart_overflow (overflow : Bool) (events : List StreamEvent) :
    apart backend ((if overflow then [overlong backend] else []) ++ events) =
      apart backend events := by
  rw [apart_append]
  cases overflow <;> simp [apart]

/-- A decoder after some chunks has read the lines of their bytes. -/
theorem feedAll_eq (d : Ndjson σ) (chunks : List (List UInt8)) :
    (feedAll parse backend d chunks).1 =
        (d.decodeLines parse backend (d.lines.push chunks.flatten).2.1).1.withLines
          (d.lines.push chunks.flatten).1 ∧
      apart backend (feedAll parse backend d chunks).2 =
        apart backend (d.decodeLines parse backend (d.lines.push chunks.flatten).2.1).2 := by
  induction chunks generalizing d with
  | nil => exact ⟨rfl, rfl⟩
  | cons chunk chunks ih =>
    obtain ⟨hbuffer, hlines⟩ := d.lines.push_append chunk chunks.flatten
    have hfed : (d.feed parse backend chunk).1 =
        (d.decodeLines parse backend (d.lines.push chunk).2.1).1.withLines
          (d.lines.push chunk).1 := by
      simp only [feed, decodeLines_with]
    have hevents : apart backend (d.feed parse backend chunk).2 =
        apart backend (d.decodeLines parse backend (d.lines.push chunk).2.1).2 := by
      simp only [feed, decodeLines_with, apart_overflow]
    obtain ⟨hlater, hmore⟩ := ih (d.feed parse backend chunk).1
    rw [hfed, lines_withLines, decodeLines_with] at hlater hmore
    rw [flatten_cons, hlines, hbuffer, decodeLines_append]
    simp only [feedAll]
    refine ⟨?_, ?_⟩
    · rw [hfed, hlater, withLines_withLines]
    · rw [apart_append, hevents, hfed, hmore, ← apart_append]

/-- The events and the count do not depend on the cut. -/
theorem decodeAll_congr (h : chunks.flatten = chunks'.flatten) :
    apart backend (decodeAll parse backend chunks).1 =
        apart backend (decodeAll parse backend chunks').1 ∧
      (decodeAll parse backend chunks).2 = (decodeAll parse backend chunks').2 := by
  obtain ⟨hstate, hevents⟩ := @feedAll_eq σ parse backend (fresh backend) chunks
  obtain ⟨hstate', hevents'⟩ := @feedAll_eq σ parse backend (fresh backend) chunks'
  rw [h] at hstate hevents
  have hsame : (feedAll parse backend (fresh backend) chunks).1 =
      (feedAll parse backend (fresh backend) chunks').1 := hstate.trans hstate'.symm
  simp only [decodeAll, apart_append, hevents, hevents', hsame, and_self]

theorem length_pending_le (chunks : List (List UInt8)) :
    (feedAll parse backend (fresh backend) chunks).1.lines.pending.length ≤ maxLineBytes := by
  rw [(feedAll_eq (fresh backend) chunks).1]
  exact LineBuffer.length_push_le (Nat.zero_le _) _

end Ndjson

/-! ## All decoders -/

/-- A decoder of lines does not depend on the cut, and keeps no more than a
MiB. -/
structure Ndjson.Unchunked {σ : Type} (parse : Parser) (backend : Backend σ)
    (chunks chunks' : List (List UInt8)) : Prop where
  events : apart backend (decodeAll parse backend chunks).1 =
    apart backend (decodeAll parse backend chunks').1
  unknown : (decodeAll parse backend chunks).2 = (decodeAll parse backend chunks').2
  bounded : (feedAll parse backend (fresh backend) chunks).1.lines.pending.length ≤ maxLineBytes

/-- The same for text: what is emitted is the text of all the bytes without
escape sequences, and no more than three bytes are carried. -/
structure PlainDecoder.Unchunked (chunks chunks' : List (List UInt8)) : Prop where
  same : textOf (decodeAll chunks) = textOf (decodeAll chunks')
  text : textOf (decodeAll chunks) = (stripEsc .none (Utf8.lossy chunks.flatten)).2
  bounded : (feedAll fresh chunks).1.carry.length ≤ 3

theorem ndjson_unchunked (parse : Parser) (backend : Backend σ)
    (h : chunks.flatten = chunks'.flatten) : Ndjson.Unchunked parse backend chunks chunks' :=
  ⟨(Ndjson.decodeAll_congr h).1, (Ndjson.decodeAll_congr h).2, Ndjson.length_pending_le chunks⟩

/-- No decoder depends on how the pipe cuts the bytes. -/
theorem unchunked (parse : Parser) {chunks chunks' : List (List UInt8)}
    (h : chunks.flatten = chunks'.flatten) :
    Ndjson.Unchunked parse claude chunks chunks' ∧
      Ndjson.Unchunked parse cursor chunks chunks' ∧
      Ndjson.Unchunked parse grok chunks chunks' ∧ PlainDecoder.Unchunked chunks chunks' := by
  refine ⟨ndjson_unchunked parse claude h, ndjson_unchunked parse cursor h,
    ndjson_unchunked parse grok h, ?_, PlainDecoder.decodeAll_eq chunks,
    PlainDecoder.length_carry_le chunks⟩
  rw [PlainDecoder.decodeAll_eq, PlainDecoder.decodeAll_eq, h]

/-- A character and an escape sequence cut in two. -/
theorem unchunked_sample :
    Ndjson.Unchunked (fun _ => none) claude [[0x1b], [0x5b, 0x6d, 0xc3], [0xa9]]
        [[0x1b, 0x5b, 0x6d, 0xc3, 0xa9]] ∧
      Ndjson.Unchunked (fun _ => none) cursor [[0x1b], [0x5b, 0x6d, 0xc3], [0xa9]]
        [[0x1b, 0x5b, 0x6d, 0xc3, 0xa9]] ∧
      Ndjson.Unchunked (fun _ => none) grok [[0x1b], [0x5b, 0x6d, 0xc3], [0xa9]]
        [[0x1b, 0x5b, 0x6d, 0xc3, 0xa9]] ∧
      PlainDecoder.Unchunked [[0x1b], [0x5b, 0x6d, 0xc3], [0xa9]]
        [[0x1b, 0x5b, 0x6d, 0xc3, 0xa9]] :=
  unchunked (fun _ => none) rfl

end Abbey.Decode
