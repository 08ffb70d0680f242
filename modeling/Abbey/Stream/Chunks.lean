import Abbey.Stream.Events

/-!
# Chunks of a stream

Which ways of cutting a stream into chunks give an answer.

* `Terminates` says that some bytes end with the line of the terminal
  marker, as their first.  What follows is judged in two ways: in the same
  chunk as lines (`trailing`), in a later one byte by byte.
* `feedAll_terminates` is what a successful run says of the bytes.
* `feedAll_of_terminates` runs any cut of a stream that ends in ASCII white
  space.
-/

namespace Abbey.Stream

open Abbey.Lib List Except
open Abbey.Run (isWhitespace)
open SseAccumulator

variable {crates : Crates}
variable {ls rest : List (List UInt8)} {line : List UInt8}
variable {post : List UInt8}

/-! ## Lines that say nothing -/

/-- A blank line or a comment. -/
def skipped (line : List UInt8) : Bool :=
  (fromUtf8 line).any (fun text => text.all isWhitespace || text.head? = some ':')

/-- What may follow the terminal marker in its chunk. -/
def trailing (post : List UInt8) : Bool :=
  (frame 0x0a post).1.all (fun line => skipped (stripReturn line)) &&
    (frame 0x0a post).2.all isAsciiWhitespace

theorem processLine_of_skipped (h : skipped line) (s : SseAccumulator) :
    s.processLine crates line = .ok (s, []) := by
  obtain ⟨text, htext, hskip⟩ := (Option.any_eq_true _ _).mp h
  unfold processLine
  rw [htext, required_some, ok_bind, if_pos hskip]

variable {deltas : List (List Char)} {s t : SseAccumulator}

/-- After the terminal marker only such lines pass. -/
theorem processLine_of_done
    (hdone : s.done) (h : s.processLine crates line = .ok (t, deltas)) :
    skipped line ∧ t = s ∧ deltas = [] := by
  have hskipped : skipped line := by
    by_contra hnot
    unfold processLine at h
    simp only [bind_ok_iff, required_eq_ok] at h
    obtain ⟨text, htext, h⟩ := h
    rw [if_neg, hdone] at h
    · cases h
    · intro hskip
      exact hnot ((Option.any_eq_true _ _).mpr ⟨text, htext, hskip⟩)
  rw [processLine_of_skipped hskipped] at h
  cases h
  exact ⟨hskipped, rfl, rfl⟩

theorem buffer_processLine
    (h : s.processLine crates line = .ok (t, deltas)) : t.buffer = s.buffer := by
  unfold processLine at h
  simp only [bind_ok_iff, required_eq_ok] at h
  obtain ⟨text, _, h⟩ := h
  split_ifs at h with hskip
  · cases h
    rfl
  · simp only [bind_ok_iff] at h
    obtain ⟨_, _, payload, _, h⟩ := h
    split_ifs at h with hdone
    · unfold terminate at h
      simp only [bind_ok_iff] at h
      obtain ⟨_, _, _, _, _, _, h⟩ := h
      cases h
      rfl
    · simp only [bind_ok_iff] at h
      obtain ⟨_, _, value, _, h⟩ := h
      unfold processEvent at h
      simp only [bind_ok_iff] at h
      obtain ⟨_, _, _, _, _, _, _, _, _, _, _, _, h⟩ := h
      cases h
      rfl

/-! ## Several lines -/

theorem processLines_cons :
    processLines crates s (line :: rest) = .ok (t, deltas) ↔
      ∃ u first more, s.processLine crates (stripReturn line) = .ok (u, first) ∧
        processLines crates u rest = .ok (t, more) ∧ deltas = first ++ more := by
  rw [processLines]
  simp only [bind_ok_iff, Prod.exists, ok.injEq, Prod.mk.injEq]
  constructor
  · rintro ⟨u, first, hfirst, v, more, hmore, rfl, rfl⟩
    exact ⟨u, first, more, hfirst, hmore, rfl⟩
  · rintro ⟨u, first, more, hfirst, hmore, rfl⟩
    exact ⟨u, first, hfirst, t, more, hmore, rfl, rfl⟩

theorem processLines_append : processLines crates s (ls ++ ks) = .ok (t, deltas) ↔
      ∃ u first more, processLines crates s ls = .ok (u, first) ∧
        processLines crates u ks = .ok (t, more) ∧ deltas = first ++ more := by
  induction ls generalizing s deltas with
  | nil =>
    rw [nil_append]
    constructor
    · intro h
      exact ⟨s, [], deltas, rfl, h, rfl⟩
    · rintro ⟨u, first, more, hfirst, hmore, rfl⟩
      cases hfirst
      exact hmore
  | cons line ls ih =>
    rw [cons_append, processLines_cons]
    constructor
    · rintro ⟨u, first, more, hfirst, hmore, rfl⟩
      obtain ⟨v, second, third, hsecond, hthird, rfl⟩ := ih.mp hmore
      refine ⟨v, first ++ second, third, ?_, hthird, (append_assoc _ _ _).symm⟩
      exact processLines_cons.mpr ⟨u, first, second, hfirst, hsecond, rfl⟩
    · rintro ⟨v, _, third, hhead, hthird, rfl⟩
      obtain ⟨u, first, second, hfirst, hsecond, rfl⟩ := processLines_cons.mp hhead
      refine ⟨u, first, second ++ third, hfirst, ?_, append_assoc _ _ _⟩
      exact ih.mpr ⟨v, second, third, hsecond, hthird, rfl⟩

theorem processLines_of_skipped (h : ∀ line ∈ ls, skipped (stripReturn line))
    (s : SseAccumulator) : processLines crates s ls = .ok (s, []) := by
  induction ls with
  | nil => rfl
  | cons line ls ih =>
    refine processLines_cons.mpr ⟨s, [], [], processLine_of_skipped (h line mem_cons_self) s, ?_,
      rfl⟩
    exact ih (fun other hother => h other (mem_cons_of_mem line hother))

theorem processLines_of_done
    (hdone : s.done) (h : processLines crates s ls = .ok (t, deltas)) :
    (∀ line ∈ ls, skipped (stripReturn line)) ∧ t = s ∧ deltas = [] := by
  induction ls generalizing deltas with
  | nil =>
    cases h
    exact ⟨by simp, rfl, rfl⟩
  | cons line ls ih =>
    obtain ⟨u, first, more, hfirst, hmore, rfl⟩ := processLines_cons.mp h
    obtain ⟨hskipped, rfl, rfl⟩ := processLine_of_done hdone hfirst
    obtain ⟨hall, rfl, rfl⟩ := ih hmore
    refine ⟨?_, rfl, rfl⟩
    intro other hother
    rcases mem_cons.mp hother with rfl | hmem
    · exact hskipped
    · exact hall other hmem

theorem buffer_processLines
    (h : processLines crates s ls = .ok (t, deltas)) : t.buffer = s.buffer := by
  induction ls generalizing s deltas with
  | nil =>
    cases h
    rfl
  | cons line ls ih =>
    obtain ⟨u, first, more, hfirst, hmore, _⟩ := processLines_cons.mp h
    rw [ih hmore, buffer_processLine hfirst]

/-! ## The line of the terminal marker -/

/-- Some lines whose last one is the first to end the stream. -/
def EndsWith (crates : Crates) (s : SseAccumulator) (lines : List (List UInt8))
    (t : SseAccumulator) (deltas : List (List Char)) : Prop :=
  ∃ init last u first final, lines = init ++ [last] ∧
    processLines crates s init = .ok (u, first) ∧ u.done = false ∧
    u.processLine crates (stripReturn last) = .ok (t, final) ∧ t.done = true ∧ deltas = first ++ final

/-- Lines that end the stream have such a line, and say nothing after it. -/
theorem exists_endsWith (hs : s.done = false)
    (ht : t.done) (h : processLines crates s ls = .ok (t, deltas)) :
    ∃ before after, ls = before ++ after ∧ EndsWith crates s before t deltas ∧
      ∀ line ∈ after, skipped (stripReturn line) := by
  induction ls generalizing s deltas with
  | nil =>
    cases h
    rw [hs] at ht
    cases ht
  | cons line ls ih =>
    obtain ⟨u, first, more, hfirst, hmore, rfl⟩ := processLines_cons.mp h
    cases hu : u.done with
    | true =>
      obtain ⟨hall, rfl, rfl⟩ := processLines_of_done hu hmore
      refine ⟨[line], ls, rfl, ⟨[], line, s, [], first, rfl, rfl, hs, hfirst, hu, ?_⟩, hall⟩
      rw [append_nil, nil_append]
    | false =>
      obtain ⟨before, after, rfl, ⟨init, last, v, d, e, rfl, hinit, hv, hlast, _, rfl⟩, hall⟩ :=
        ih hu hmore
      refine ⟨line :: (init ++ [last]), after, rfl, ⟨line :: init, last, v, first ++ d, e, rfl,
        ?_, hv, hlast, ht, (append_assoc _ _ _).symm⟩, hall⟩
      exact processLines_cons.mpr ⟨u, first, d, hfirst, hinit, rfl⟩

theorem EndsWith.processLines
    (h : EndsWith crates s ls t deltas) : processLines crates s ls = .ok (t, deltas) := by
  obtain ⟨init, last, u, first, final, rfl, hinit, _, hlast, _, rfl⟩ := h
  refine processLines_append.mpr ⟨u, first, final, hinit, ?_, rfl⟩
  exact processLines_cons.mpr ⟨t, final, [], hlast, rfl, (append_nil _).symm⟩

/-- Bytes that end with the line of the terminal marker. -/
def Terminates (crates : Crates) (s : SseAccumulator) (pre : List UInt8) (t : SseAccumulator)
    (deltas : List (List Char)) : Prop :=
  (frame 0x0a pre).2 = [] ∧ EndsWith crates s (frame 0x0a pre).1 t deltas

/-! ## ASCII white space -/

theorem fromUtf8_encode (cs : List Char) :
    fromUtf8 (cs.flatMap String.utf8EncodeChar) = some cs := by
  have hbytes : (cs.flatMap String.utf8EncodeChar).toByteArray = cs.utf8Encode := rfl
  unfold fromUtf8
  rw [hbytes, utf8Decode?_utf8Encode, Option.map_some, toList_toArray]

theorem encode_whitespace (h : isAsciiWhitespace byte) :
    String.utf8EncodeChar (Char.ofNat byte.toNat) = [byte] ∧
      isWhitespace (Char.ofNat byte.toNat) := by
  unfold isAsciiWhitespace at h
  simp only [Bool.or_eq_true, decide_eq_true_eq] at h
  rcases h with (((rfl | rfl) | rfl) | rfl) | rfl <;> decide

theorem skipped_of_ascii (h : ∀ byte ∈ line, isAsciiWhitespace byte) :
    skipped line := by
  have hencode : (line.map (fun byte => Char.ofNat byte.toNat)).flatMap String.utf8EncodeChar =
      line := by
    induction line with
    | nil => rfl
    | cons byte line ih =>
      rw [map_cons, flatMap_cons, (encode_whitespace (h byte mem_cons_self)).1,
        ih (fun other hother => h other (mem_cons_of_mem byte hother))]
      rfl
  have htext := fromUtf8_encode (line.map (fun byte => Char.ofNat byte.toNat))
  rw [hencode] at htext
  unfold skipped
  rw [htext, Option.any_some, Bool.or_eq_true]
  refine .inl (all_eq_true.mpr ?_)
  intro c hc
  obtain ⟨byte, hbyte, rfl⟩ := mem_map.mp hc
  exact (encode_whitespace (h byte hbyte)).2

theorem skipped_of_mem_frame (h : post.all isAsciiWhitespace)
    (hline : line ∈ (frame 0x0a post).1) : skipped (stripReturn line) := by
  apply skipped_of_ascii
  intro byte hbyte
  have hin : byte ∈ line := by
    unfold stripReturn at hbyte
    split_ifs at hbyte
    · exact (dropLast_sublist line).subset hbyte
    · exact hbyte
  exact all_eq_true.mp h byte (mem_of_mem_frame (.inl ⟨line, hline, hin⟩))

theorem rest_of_ascii (h : post.all isAsciiWhitespace) :
    (frame 0x0a post).2.all isAsciiWhitespace := by
  rw [all_eq_true]
  intro byte hbyte
  exact all_eq_true.mp h byte (mem_of_mem_frame (.inr hbyte))

/-- Lines that say nothing, and white space after the last of them. -/
theorem trailing_append (hlines : ∀ line ∈ (frame 0x0a xs).1, skipped (stripReturn line))
    (hrest : ((frame 0x0a xs).2 ++ ys).all isAsciiWhitespace) : trailing (xs ++ ys) := by
  unfold trailing
  rw [frame_append, Bool.and_eq_true]
  refine ⟨?_, rest_of_ascii hrest⟩
  rw [all_eq_true]
  intro line hline
  rcases mem_append.mp hline with hold | hnew
  · exact hlines line hold
  · exact skipped_of_mem_frame hrest hnew

/-! ## Feeding -/

section Feeding

variable {s t : SseAccumulator} {deltas : List (List Char)}
variable {chunks : List (List UInt8)} {chunk : List UInt8}

theorem clear_buffer (hbuffer : s.buffer = []) (b : List UInt8) :
    ({ ({ s with buffer := b } : SseAccumulator) with buffer := [] } : SseAccumulator) = s := by
  obtain ⟨buffer, done, finishReason, calls, markers⟩ := s
  subst hbuffer
  rfl

theorem feed_of_done (hdone : s.done) : s.feed crates chunk = .ok (t, deltas) ↔
      chunk.all isAsciiWhitespace ∧ t = s ∧ deltas = [] := by
  unfold feed
  rw [if_pos hdone]
  simp only [bind_ok_iff, ensure_eq_ok, ok.injEq, Prod.mk.injEq]
  constructor
  · rintro ⟨_, hascii, rfl, rfl⟩
    exact ⟨hascii, rfl, rfl⟩
  · rintro ⟨hascii, rfl, rfl⟩
    exact ⟨(), hascii, rfl, rfl⟩

theorem feed_of_open (hopen : s.done = false) : s.feed crates chunk = .ok (t, deltas) ↔
      ∃ u, processLines crates { s with buffer := [] } (frame 0x0a (s.buffer ++ chunk)).1 =
          .ok (u, deltas) ∧
        (u.done = true → (frame 0x0a (s.buffer ++ chunk)).2.all isAsciiWhitespace) ∧
        t = { u with buffer := (frame 0x0a (s.buffer ++ chunk)).2 } := by
  unfold feed
  rw [if_neg (by simp [hopen])]
  simp only [bind_ok_iff, ensure_eq_ok, ok.injEq, Prod.mk.injEq, Prod.exists,
    Bool.or_eq_true, Bool.not_eq_true']
  constructor
  · rintro ⟨u, first, hlines, _, hrest, rfl, rfl⟩
    refine ⟨u, hlines, ?_, rfl⟩
    intro hu
    rcases hrest with hnot | hascii
    · rw [hu] at hnot
      cases hnot
    · exact hascii
  · rintro ⟨u, hlines, hrest, rfl⟩
    refine ⟨u, deltas, hlines, (), ?_, rfl, rfl⟩
    cases hu : u.done with
    | false => exact .inl rfl
    | true => exact .inr (hrest hu)

theorem feedAll_cons : feedAll crates s (chunk :: rest) = .ok (t, deltas) ↔
      ∃ u first more, s.feed crates chunk = .ok (u, first) ∧
        feedAll crates u rest = .ok (t, more) ∧ deltas = first ++ more := by
  rw [feedAll]
  simp only [bind_ok_iff, Prod.exists, ok.injEq, Prod.mk.injEq]
  constructor
  · rintro ⟨u, first, hfirst, v, more, hmore, rfl, rfl⟩
    exact ⟨u, first, more, hfirst, hmore, rfl⟩
  · rintro ⟨u, first, more, hfirst, hmore, rfl⟩
    exact ⟨u, first, hfirst, t, more, hmore, rfl, rfl⟩

/-- After the terminal marker a chunk is white space. -/
theorem feedAll_of_done (hdone : s.done) : feedAll crates s chunks = .ok (t, deltas) ↔
      chunks.flatten.all isAsciiWhitespace ∧ t = s ∧ deltas = [] := by
  induction chunks generalizing deltas with
  | nil =>
    rw [feedAll, ok.injEq, Prod.mk.injEq]
    simp [eq_comm]
  | cons chunk rest ih =>
    rw [feedAll_cons, flatten_cons, all_append, Bool.and_eq_true]
    constructor
    · rintro ⟨u, first, more, hfirst, hmore, rfl⟩
      obtain ⟨hascii, rfl, rfl⟩ := (feed_of_done hdone).mp hfirst
      obtain ⟨hrest, rfl, rfl⟩ := ih.mp hmore
      exact ⟨⟨hascii, hrest⟩, rfl, rfl⟩
    · rintro ⟨⟨hascii, hrest⟩, rfl, rfl⟩
      exact ⟨t, [], [], (feed_of_done hdone).mpr ⟨hascii, rfl, rfl⟩, ih.mpr ⟨hrest, rfl, rfl⟩, rfl⟩

/-- What a run that ended says of the bytes. -/
theorem feedAll_terminates (hopen : s.done = false) (h : feedAll crates s chunks = .ok (t, deltas))
    (ht : t.done) :
    ∃ pre post u, s.buffer ++ chunks.flatten = pre ++ post ∧
      Terminates crates { s with buffer := [] } pre u deltas ∧ trailing post ∧
      t.calls = u.calls := by
  induction chunks generalizing s deltas with
  | nil =>
    cases h
    rw [hopen] at ht
    cases ht
  | cons chunk rest ih =>
    obtain ⟨v, first, more, hfirst, hmore, rfl⟩ := feedAll_cons.mp h
    obtain ⟨u, hlines, hrest, rfl⟩ := (feed_of_open hopen).mp hfirst
    rw [flatten_cons, ← append_assoc]
    generalize hbytes : s.buffer ++ chunk = bytes at hlines hrest hmore
    cases hu : u.done with
    | true =>
      obtain ⟨hascii, rfl, rfl⟩ := (feedAll_of_done (s := { u with buffer := (frame 0x0a bytes).2 })
        hu).mp hmore
      obtain ⟨before, after, hsplit, hends, hafter⟩ :=
        exists_endsWith (s := { s with buffer := [] }) hopen hu hlines
      obtain ⟨ys, zs, rfl, hys, hzs⟩ := frame_split hsplit
      refine ⟨ys, zs ++ rest.flatten, u, append_assoc _ _ _, ⟨by rw [hys], ?_⟩, ?_, rfl⟩
      · rw [hys, append_nil]
        exact hends
      · apply trailing_append
        · rw [hzs]
          exact hafter
        · rw [hzs, all_append, hrest hu, hascii]
          rfl
    | false =>
      obtain ⟨pre, post, w, hflat, ⟨hpre, init, last, x, d, e, hsplit, hinit, hx, hlast, hw, rfl⟩,
        hpost, hcalls⟩ := ih (s := { u with buffer := (frame 0x0a bytes).2 }) hu hmore
      rw [clear_buffer (buffer_processLines hlines)] at hinit
      have hframe := @frame_append UInt8 _ 0x0a bytes rest.flatten
      obtain ⟨ys, zs, hys, hfirstPart, hzs⟩ :=
        @frame_split UInt8 _ 0x0a (bytes ++ rest.flatten) ((frame 0x0a bytes).1 ++ init ++ [last])
          (frame 0x0a post).1 (by
            rw [hframe, hflat, frame_append, hpre, hsplit]
            simp)
      have hrestPart : (frame 0x0a (bytes ++ rest.flatten)).2 = (frame 0x0a post).2 := by
        rw [hframe, hflat, frame_append, hpre]
        rfl
      refine ⟨ys, zs, w, hys, ⟨by rw [hfirstPart], ?_⟩, ?_, hcalls⟩
      · rw [hfirstPart]
        refine ⟨(frame 0x0a bytes).1 ++ init, last, x, first ++ d, e, rfl, ?_, hx, hlast, hw, ?_⟩
        · exact processLines_append.mpr ⟨u, first, d, hlines, hinit, rfl⟩
        · rw [append_assoc]
      · unfold trailing at hpost ⊢
        rw [hzs, hrestPart]
        exact hpost

/-- A stream that ends in white space runs however it is cut. -/
theorem feedAll_of_terminates (hopen : s.done = false)
    (hbuffer : 0x0a ∉ s.buffer) (hends : Terminates crates { s with buffer := [] } pre t deltas)
    (hpost : post.all isAsciiWhitespace) (h : s.buffer ++ chunks.flatten = pre ++ post) :
    ∃ b, b.all isAsciiWhitespace ∧
      feedAll crates s chunks = .ok ({ t with buffer := b }, deltas) := by
  induction chunks generalizing s pre deltas with
  | nil =>
    obtain ⟨_, init, last, _, _, _, hlines, _⟩ := hends
    have hnone := @frame_nil_of_notMem UInt8 _ 0x0a s.buffer hbuffer
    rw [flatten_nil, append_nil] at h
    rw [h, frame_append, hlines] at hnone
    simp at hnone
  | cons chunk rest ih =>
    rw [flatten_cons, ← append_assoc] at h
    obtain ⟨hpre, init, last, u, d, e, hlines, hinit, hu, hlast, ht, rfl⟩ := hends
    by_cases hcut : ∃ x, x ≠ [] ∧ pre = s.buffer ++ chunk ++ x ∧ rest.flatten = x ++ post
    · obtain ⟨x, hx, rfl, hrest⟩ := hcut
      have hframe := @frame_append UInt8 _ 0x0a (s.buffer ++ chunk) x
      rw [hframe] at hpre hlines
      -- the last line is not complete in this chunk
      rcases eq_nil_or_concat (frame 0x0a ((frame 0x0a (s.buffer ++ chunk)).2 ++ x)).1 with
        hnone | ⟨later, other, hlater⟩
      · have hempty := rest_eq_of_no_record hnone
        rw [hpre] at hempty
        exact absurd (append_eq_nil_iff.mp hempty.symm).2 hx
      rw [concat_eq_append] at hlater
      rw [hlater, ← append_assoc] at hlines
      obtain ⟨hinitEq, hlastEq⟩ := append_inj' hlines rfl
      cases hlastEq
      rw [← hinitEq] at hinit
      obtain ⟨v, d₁, d₂, hfirst, hsecond, rfl⟩ := processLines_append.mp hinit
      have hv : v.done = false := by
        by_contra hdone
        rw [Bool.not_eq_false] at hdone
        rw [(processLines_of_done hdone hsecond).2.1, hdone] at hu
        cases hu
      have hfeed : s.feed crates chunk =
          .ok ({ v with buffer := (frame 0x0a (s.buffer ++ chunk)).2 }, d₁) := by
        refine (feed_of_open hopen).mpr ⟨v, hfirst, ?_, rfl⟩
        intro hdone
        rw [hv] at hdone
        cases hdone
      obtain ⟨b, hb, hrun⟩ := ih (s := { v with buffer := (frame 0x0a (s.buffer ++ chunk)).2 }) hv
        (notMem_rest _) (by
          rw [clear_buffer (buffer_processLines hfirst)]
          exact ⟨hpre, later, last, u, d₂, e, hlater, hsecond, hu, hlast, ht, rfl⟩)
        (by rw [hrest, append_assoc])
      refine ⟨b, hb, feedAll_cons.mpr ⟨_, d₁, d₂ ++ e, hfeed, hrun, append_assoc _ _ _⟩⟩
    · obtain ⟨y, hy, hrest⟩ : ∃ y, s.buffer ++ chunk = pre ++ y ∧ post = y ++ rest.flatten := by
        rcases append_eq_append_iff.mp h with ⟨x, hpre', hrest'⟩ | ⟨y, hy, hrest'⟩
        · by_cases hx : x = []
          · subst hx
            exact ⟨[], by simpa using hpre'.symm, by simpa using hrest'.symm⟩
          · exact absurd ⟨x, hx, hpre', hrest'⟩ hcut
        · exact ⟨y, hy, hrest'⟩
      rw [hrest, all_append, Bool.and_eq_true] at hpost
      have hframe : frame 0x0a (s.buffer ++ chunk) =
          ((init ++ [last]) ++ (frame 0x0a y).1, (frame 0x0a y).2) := by
        rw [hy, frame_append, hlines, hpre, nil_append]
      have hends : EndsWith crates { s with buffer := [] } (init ++ [last]) t (d ++ e) :=
        ⟨init, last, u, d, e, rfl, hinit, hu, hlast, ht, rfl⟩
      have hskip := @processLines_of_skipped crates (frame 0x0a y).1
        (fun line hline => skipped_of_mem_frame hpost.1 hline) t
      have hfeed : s.feed crates chunk = .ok ({ t with buffer := (frame 0x0a y).2 }, d ++ e) := by
        refine (feed_of_open hopen).mpr ⟨t, ?_, ?_, by rw [hframe]⟩
        · rw [hframe]
          exact processLines_append.mpr ⟨t, d ++ e, [], hends.processLines, hskip,
            (append_nil _).symm⟩
        · intro _
          rw [hframe]
          exact rest_of_ascii hpost.1
      refine ⟨(frame 0x0a y).2, rest_of_ascii hpost.1,
        feedAll_cons.mpr ⟨_, d ++ e, [], hfeed, ?_, (append_nil _).symm⟩⟩
      exact (feedAll_of_done (s := { t with buffer := (frame 0x0a y).2 }) ht).mpr
        ⟨hpost.2, rfl, rfl⟩

end Feeding

end Abbey.Stream
