import Abbey.Lib.Checked
import Mathlib.Tactic.Common

/-!
# Control frames

`src/daemon/framing.rs`: legacy frames and schema-3 frames share one stream.

A reader is the list of what its reads have ready: `read_exact` asks again until
its buffer is full, so how a stream is cut does not show in what it reads
(`readExact_fst`, `readExact_snd`).  Whether `try_reserve_exact` is granted is a
parameter.

* `readFrame_frame`: what was written is read, and the rest stays.
* `frames_stream`: the same for a sequence of frames.
-/

namespace Abbey.Daemon

open Abbey.Lib List Except

/-! ## The source -/

def maxAppFrameBytes : Nat := 1024 * 1024
def maxV4ControlBytes : Nat := 64 * 1024

/-- `SCHEMA3_MAGIC`, `b"ABS3"`. -/
def schema3Magic : List UInt8 := [0x41, 0x42, 0x53, 0x33]

inductive FrameKind where
  | legacy | schema3
  deriving DecidableEq

def FrameKind.limit (legacy : Nat) : FrameKind → Nat
  | .legacy => min legacy maxAppFrameBytes
  | .schema3 => min legacy maxV4ControlBytes

inductive FrameFailure where
  | empty | oversize | io
  deriving DecidableEq

structure FrameReadError where
  kind : FrameKind
  failure : FrameFailure
  deriving DecidableEq

/-- `u32::to_be_bytes`. -/
def toBeBytes (n : Nat) : List UInt8 :=
  [n / 2 ^ 24, n / 2 ^ 16, n / 2 ^ 8, n].map UInt8.ofNat

/-- `u32::from_be_bytes`. -/
def fromBeBytes (bytes : List UInt8) : Nat := bytes.foldl (fun n b => 256 * n + b.toNat) 0

/-- What each read has ready; an interrupted read has nothing. -/
abbrev Reader := List (List UInt8)

/-- `Read::read_exact` into a buffer of `n` bytes. -/
def readExact (n : Nat) : Reader → Option (List UInt8) × Reader
  | [] => (if n = 0 then some [] else none, [])
  | ready :: reader =>
    if n ≤ ready.length then (some (ready.take n), ready.drop n :: reader)
    else
      let (bytes, reader) := readExact (n - ready.length) reader
      (bytes.map (ready ++ ·), reader)

variable (reserves : Nat → Bool) (legacyMax : Nat)

/-- `read_frame` after the length. -/
def readBody (kind : FrameKind) (length : Nat) (reader : Reader) :
    Except FrameReadError (FrameKind × List UInt8) × Reader :=
  if length = 0 then (.error ⟨kind, .empty⟩, reader)
  else if kind.limit legacyMax < length then (.error ⟨kind, .oversize⟩, reader)
  else if reserves length = false then (.error ⟨kind, .oversize⟩, reader)
  else match readExact length reader with
    | (none, reader) => (.error ⟨kind, .io⟩, reader)
    | (some bytes, reader) => (.ok (kind, bytes), reader)

def readFrame (reader : Reader) : Except FrameReadError (FrameKind × List UInt8) × Reader :=
  match readExact 4 reader with
  | (none, reader) => (.error ⟨.legacy, .io⟩, reader)
  | (some first, reader) =>
    if first = schema3Magic then
      match readExact 4 reader with
      | (none, reader) => (.error ⟨.schema3, .io⟩, reader)
      | (some length, reader) => readBody reserves legacyMax .schema3 (fromBeBytes length) reader
    else readBody reserves legacyMax .legacy (fromBeBytes first) reader

/-- `io::ErrorKind::InvalidData`. -/
inductive WriteError where
  | invalidData (message : String)

/-- `write_frame` to a writer that takes every byte: what it appends. -/
def writeFrame : FrameKind × List UInt8 → Except WriteError (List UInt8)
  | (kind, bytes) => do
    ensure (!bytes.isEmpty && bytes.length ≤ kind.limit legacyMax)
      (.invalidData "invalid control frame length")
    ensure (bytes.length < 2 ^ 32) (.invalidData "invalid control frame length")
    .ok ((if kind = .schema3 then schema3Magic else []) ++ toBeBytes bytes.length ++ bytes)

/-- `n` calls of `read_frame`, one after another. -/
def readFrames : Nat → Reader → List (Except FrameReadError (FrameKind × List UInt8)) × Reader
  | 0, reader => ([], reader)
  | n + 1, reader =>
    let (result, reader) := readFrame reserves legacyMax reader
    let (results, reader) := readFrames n reader
    (result :: results, reader)

/-! ## Reading -/

theorem readExact_fst (n : Nat) (reader : Reader) :
    (readExact n reader).1 =
      if n ≤ reader.flatten.length then some (reader.flatten.take n) else none := by
  induction reader generalizing n with
  | nil =>
    rw [readExact]
    by_cases hn : n = 0
    · rw [if_pos hn, if_pos (by simp [hn]), hn]
      rfl
    · rw [if_neg hn, if_neg (by simpa using hn)]
  | cons ready reader ih =>
    rw [readExact, flatten_cons, length_append]
    by_cases hn : n ≤ ready.length
    · rw [if_pos hn, if_pos (by omega), take_append_of_le_length hn]
    · rw [if_neg hn]
      show (readExact (n - ready.length) reader).1.map (ready ++ ·) = _
      rw [ih]
      by_cases hrest : n - ready.length ≤ reader.flatten.length
      · rw [if_pos hrest, if_pos (by omega), take_append,
          take_of_length_le (show ready.length ≤ n by omega)]
        rfl
      · rw [if_neg hrest, if_neg (by omega)]
        rfl

theorem readExact_snd (n : Nat) (reader : Reader) :
    (readExact n reader).2.flatten = reader.flatten.drop n := by
  induction reader generalizing n with
  | nil => simp [readExact]
  | cons ready reader ih =>
    rw [readExact, flatten_cons]
    by_cases hn : n ≤ ready.length
    · rw [if_pos hn, drop_append_of_le_length hn]
      rfl
    · rw [if_neg hn]
      show (readExact (n - ready.length) reader).2.flatten = _
      rw [ih, drop_append, drop_of_length_le (show ready.length ≤ n by omega), nil_append]

/-- A buffer's worth of bytes is read off the front. -/
theorem readExact_append (h : reader.flatten = bytes ++ rest) :
    ∃ reader', readExact bytes.length reader = (some bytes, reader') ∧ reader'.flatten = rest := by
  have hfst := readExact_fst bytes.length reader
  have hsnd := readExact_snd bytes.length reader
  rw [h, if_pos (by simp), take_left] at hfst
  rw [h, drop_left] at hsnd
  exact ⟨_, Prod.ext hfst rfl, hsnd⟩

/-! ## Lengths -/

theorem length_toBeBytes (n : Nat) : (toBeBytes n).length = 4 := rfl

theorem fromBeBytes_toBeBytes (h : n < 2 ^ 32) : fromBeBytes (toBeBytes n) = n := by
  simp only [toBeBytes, fromBeBytes, map_cons, map_nil, foldl_cons, foldl_nil, UInt8.toNat_ofNat']
  omega

variable {legacyMax} {kind : FrameKind} {bytes written : List UInt8}

theorem FrameKind.limit_le : kind.limit legacyMax ≤ maxAppFrameBytes := by
  cases kind
  · exact Nat.min_le_right _ _
  · exact Nat.le_trans (Nat.min_le_right _ _) (by decide)

/-- No length that is admitted spells the magic. -/
theorem toBeBytes_ne_magic (h : n ≤ maxAppFrameBytes) : toBeBytes n ≠ schema3Magic := by
  intro hmagic
  have hmax : maxAppFrameBytes = 1048576 := rfl
  have hn := fromBeBytes_toBeBytes (n := n) (by omega)
  have hspelled : fromBeBytes schema3Magic = 1094865715 := rfl
  rw [hmagic, hspelled] at hn
  omega

theorem writeFrame_eq_ok : writeFrame legacyMax (kind, bytes) = .ok written ↔
    (bytes ≠ [] ∧ bytes.length ≤ kind.limit legacyMax) ∧
      (if kind = .schema3 then schema3Magic else []) ++ toBeBytes bytes.length ++ bytes =
        written := by
  have hlimit : kind.limit legacyMax ≤ maxAppFrameBytes := FrameKind.limit_le
  have hmax : maxAppFrameBytes = 1048576 := rfl
  simp only [writeFrame, bind_ok_iff, ensure_eq_ok, Bool.and_eq_true, decide_eq_true_eq,
    Bool.not_eq_true', isEmpty_eq_false_iff, ok.injEq, exists_const]
  constructor
  · rintro ⟨haccept, _, hwritten⟩
    exact ⟨haccept, hwritten⟩
  · rintro ⟨haccept, hwritten⟩
    exact ⟨haccept, by omega, hwritten⟩

/-! ## One frame -/

variable {reserves} {readMax : Nat} {reader after : Reader} {rest : List UInt8}
  {error : FrameReadError}

/-- A frame that was written leads to its own body, under every limit of the reader. -/
theorem readFrame_written (reserves : Nat → Bool) (readMax : Nat)
    (hwrite : writeFrame legacyMax (kind, bytes) = .ok written)
    (h : reader.flatten = written ++ rest) :
    ∃ reader', reader'.flatten = bytes ++ rest ∧ readFrame reserves readMax reader =
      readBody reserves readMax kind bytes.length reader' := by
  obtain ⟨⟨_, hsize⟩, rfl⟩ := writeFrame_eq_ok.mp hwrite
  have hlimit := Nat.le_trans hsize FrameKind.limit_le
  have hmax : maxAppFrameBytes = 1048576 := rfl
  have hlength : fromBeBytes (toBeBytes bytes.length) = bytes.length :=
    fromBeBytes_toBeBytes (by omega)
  unfold readFrame
  cases kind with
  | legacy =>
    obtain ⟨reader', hread, hrest⟩ := readExact_append
      (show reader.flatten = toBeBytes bytes.length ++ (bytes ++ rest) by simp [h])
    rw [length_toBeBytes] at hread
    refine ⟨reader', hrest, ?_⟩
    simp only [hread, if_neg (toBeBytes_ne_magic hlimit), hlength]
  | schema3 =>
    obtain ⟨middle, hmagic, hmiddle⟩ := readExact_append
      (show reader.flatten = schema3Magic ++ (toBeBytes bytes.length ++ (bytes ++ rest)) by
        simp [h])
    obtain ⟨reader', hread, hrest⟩ := readExact_append hmiddle
    rw [length_toBeBytes] at hread
    refine ⟨reader', hrest, ?_⟩
    simp only [show readExact 4 reader = (some schema3Magic, middle) from hmagic, if_true,
      hread, hlength]

/-- What was written is read, and the rest stays. -/
theorem readFrame_frame (hwrite : writeFrame legacyMax (kind, bytes) = .ok written)
    (hreserve : reserves bytes.length) (h : reader.flatten = written ++ rest) :
    ∃ reader', readFrame reserves legacyMax reader = (.ok (kind, bytes), reader') ∧
      reader'.flatten = rest := by
  obtain ⟨body, hbody, hread⟩ := readFrame_written reserves legacyMax hwrite h
  obtain ⟨⟨hne, hsize⟩, _⟩ := writeFrame_eq_ok.mp hwrite
  have hpos : bytes.length ≠ 0 := by simpa using hne
  obtain ⟨reader', hexact, hrest⟩ := readExact_append hbody
  refine ⟨reader', ?_, hrest⟩
  rw [hread, readBody, if_neg hpos, if_neg (by omega), if_neg (by simp [hreserve]), hexact]

/-- The kind that a result is for. -/
def resultKind : Except FrameReadError (FrameKind × List UInt8) → FrameKind
  | .ok (kind, _) => kind
  | .error error => error.kind

theorem resultKind_readBody (kind : FrameKind) (length : Nat) (reader : Reader) :
    resultKind (readBody reserves readMax kind length reader).1 = kind := by
  unfold readBody
  split_ifs
  all_goals first | rfl | skip
  split <;> rfl

/-- A body that is refused for its length is not touched. -/
theorem readBody_refused {length : Nat}
    (h : readBody reserves readMax kind length reader = (.error error, after))
    (hfailure : error.failure ≠ .io) : after = reader := by
  unfold readBody at h
  split_ifs at h
  all_goals first | exact (congrArg Prod.snd h).symm | skip
  split at h
  · have herror : (⟨kind, .io⟩ : FrameReadError) = error :=
      Except.error.inj (congrArg Prod.fst h)
    exact absurd (congrArg FrameReadError.failure herror).symm hfailure
  · cases h

theorem readFrame_nil (h : reader.flatten = []) :
    (readFrame reserves readMax reader).1 = .error ⟨.legacy, .io⟩ := by
  have hfst := readExact_fst 4 reader
  rw [h, if_neg (by simp)] at hfst
  unfold readFrame
  rw [show readExact 4 reader = (none, (readExact 4 reader).2) from Prod.ext hfst rfl]

/-- At most the magic and the length are gone when a length is refused. -/
theorem readFrame_refused (h : readFrame reserves readMax reader = (.error error, after))
    (hfailure : error.failure ≠ .io) :
    ∃ consumed, consumed.length ≤ 8 ∧ reader.flatten = consumed ++ after.flatten := by
  have hfirst := readExact_snd 4 reader
  unfold readFrame at h
  split at h
  · obtain rfl := Except.error.inj (congrArg Prod.fst h)
    exact absurd rfl hfailure
  rename_i first middle hread
  rw [hread] at hfirst
  split_ifs at h
  · have hsecond := readExact_snd 4 middle
    split at h
    · obtain rfl := Except.error.inj (congrArg Prod.fst h)
      exact absurd rfl hfailure
    rename_i length last hread'
    rw [hread'] at hsecond
    obtain rfl := readBody_refused h hfailure
    refine ⟨reader.flatten.take 8, length_take_le 8 _, ?_⟩
    rw [hsecond, hfirst, drop_drop, take_append_drop]
  · obtain rfl := readBody_refused h hfailure
    refine ⟨reader.flatten.take 4, Nat.le_trans (length_take_le 4 _) (by omega), ?_⟩
    rw [hfirst, take_append_drop]

/-! ## A stream of frames -/

theorem frames_stream : {frames : List (FrameKind × List UInt8)} → {stream : List (List UInt8)} →
    {reader : Reader} → frames.mapM (writeFrame legacyMax) = .ok stream →
    (∀ frame ∈ frames, reserves frame.2.length) → reader.flatten = stream.flatten →
    (readFrames reserves legacyMax (frames.length + 1) reader).1 =
      frames.map .ok ++ [.error ⟨.legacy, .io⟩]
  | [], stream, reader, hwrite, _, h => by
    obtain rfl : [] = stream := ok.inj hwrite
    show [(readFrame reserves legacyMax reader).1] = _
    rw [readFrame_nil h]
    rfl
  | (kind, bytes) :: frames, stream, reader, hwrite, hreserve, h => by
    rw [mapM_cons] at hwrite
    obtain ⟨written, hframe, hrest⟩ := bind_ok_iff.mp hwrite
    obtain ⟨stream', hframes, hstream⟩ := bind_ok_iff.mp hrest
    obtain rfl := ok.inj hstream
    obtain ⟨reader', hread, hafter⟩ := readFrame_frame hframe (hreserve _ mem_cons_self)
      (by simpa using h)
    have hlater := frames_stream hframes
      (fun frame hmem => hreserve frame (mem_cons_of_mem _ hmem)) hafter
    show (readFrame reserves legacyMax reader).1 ::
      (readFrames reserves legacyMax (frames.length + 1)
        (readFrame reserves legacyMax reader).2).1 = _
    rw [hread, hlater]
    rfl

/-- Control frames survive the stream: read under the limit they were written with they come
back in order, whatever the cuts of the stream; a frame is of its kind for every reader; and
a length is refused before the body is touched. -/
theorem control_frames_round_trip (reserves : Nat → Bool) (legacyMax : Nat) :
    (∀ (frames : List (FrameKind × List UInt8)) stream (reader : Reader),
      frames.mapM (writeFrame legacyMax) = .ok stream →
      (∀ frame ∈ frames, reserves frame.2.length = true) →
      reader.flatten = stream.flatten →
      (readFrames reserves legacyMax (frames.length + 1) reader).1 =
        frames.map .ok ++ [.error ⟨.legacy, .io⟩]) ∧
    (∀ kind bytes written readMax (reader : Reader),
      writeFrame legacyMax (kind, bytes) = .ok written → written <+: reader.flatten →
      resultKind (readFrame reserves readMax reader).1 = kind) ∧
    ∀ kind failure (reader after : Reader),
      readFrame reserves legacyMax reader = (.error ⟨kind, failure⟩, after) →
      failure = .empty ∨ failure = .oversize →
      ∃ consumed, consumed.length ≤ 8 ∧ reader.flatten = consumed ++ after.flatten := by
  refine ⟨fun _ _ _ => frames_stream, fun kind bytes written readMax reader hwrite hprefix => ?_,
    fun kind failure reader after hread hfailure => ?_⟩
  · obtain ⟨rest, hrest⟩ := hprefix
    obtain ⟨reader', _, hread⟩ := readFrame_written reserves readMax hwrite hrest.symm
    rw [hread, resultKind_readBody]
  · refine readFrame_refused hread ?_
    rintro rfl
    exact hfailure.elim nofun nofun

/-- A legacy frame and a schema-3 frame in one stream that is cut inside the magic. -/
theorem control_frames_round_trip_cut :
    (readFrames (fun _ => true) 16 3
      [[0, 0, 0, 1, 7, 0x41], [], [0x42, 0x53, 0x33, 0, 0, 0, 2, 8, 9]]).1 =
        [.ok (.legacy, [7]), .ok (.schema3, [8, 9]), .error ⟨.legacy, .io⟩] ∧
      resultKind (readFrame (fun _ => true) 16 [[0, 0, 0, 1, 7]]).1 = .legacy ∧
      ∃ consumed, consumed.length ≤ 8 ∧ [0, 0, 0, 0] = consumed ++ ([[]] : Reader).flatten :=
  ⟨(control_frames_round_trip (fun _ => true) 16).1 [(.legacy, [7]), (.schema3, [8, 9])]
      [[0, 0, 0, 1, 7], [0x41, 0x42, 0x53, 0x33, 0, 0, 0, 2, 8, 9]] _ rfl (by simp) rfl,
    (control_frames_round_trip (fun _ => true) 16).2.1 .legacy [7] _ 16 _ rfl
      (prefix_refl [0, 0, 0, 1, 7]),
    (control_frames_round_trip (fun _ => true) 16).2.2 .legacy .empty [[0, 0, 0, 0]] [[]] rfl
      (.inl rfl)⟩

end Abbey.Daemon
