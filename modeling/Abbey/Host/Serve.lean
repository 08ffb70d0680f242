import Abbey.Host.Server
import Abbey.Lib.Framing
import Mathlib.Data.List.DropRight

/-!
# The stdio loop

Frames are read with a bound, so that a read can stop before, at or after the end
of a line.  `serve_eq` says that the session is nevertheless the one of its lines:
`treatAll` gives each of them to `treat` in their order.
-/

namespace Abbey.Host

open Abbey.Lib List

variable {last : Except String Unit} {chunk : List UInt8}

def lineFeed : UInt8 := 0x0a
def carriageReturn : UInt8 := 0x0d

/-! ## Input -/

/-- The bytes still to come, what comes after them, and the length of every buffer
that was filled. -/
structure Reader where
  bytes : List UInt8
  fault : Option String
  buffered : List Nat

variable {r : Reader}

/-- What the end of the bytes gives. -/
def ending (fault : Option String) : Except String Unit :=
  match fault with
  | some error => .error error
  | none => .ok ()

namespace Reader

/-- `take(limit).read_until(newline)`: the end is only met when the limit is not. -/
def read (limit : Nat) (r : Reader) : Except String (List UInt8) × Reader :=
  let (chunk, rest) := readUntil lineFeed limit r.bytes
  let result :=
    if chunk.getLast? = some lineFeed ∨ chunk.length = limit then .ok chunk
    else (ending r.fault).map (fun _ => chunk)
  (result, ⟨rest, r.fault, r.buffered ++ [chunk.length]⟩)

theorem bytes_read (limit : Nat) (r : Reader) :
    (readUntil lineFeed limit r.bytes).1 ++ (r.read limit).2.bytes = r.bytes :=
  readUntil_append limit r.bytes

theorem fault_read (limit : Nat) (r : Reader) : (r.read limit).2.fault = r.fault := rfl

variable {limit bound : Nat} {r' : Reader}

theorem eq_chunk_of_read (h : r.read limit = (.ok chunk, r')) : chunk ++ r'.bytes = r.bytes := by
  have hbytes := bytes_read limit r
  unfold read ending at h
  dsimp only at h
  rw [Prod.mk.injEq] at h
  obtain ⟨hchunk, rfl⟩ := h
  split_ifs at hchunk with hstop
  · cases hchunk
    exact hbytes
  · cases hfault : r.fault with
    | none =>
      rw [hfault] at hchunk
      cases hchunk
      exact hbytes
    | some error =>
      rw [hfault] at hchunk
      cases hchunk

/-- Discard the bytes up to the next newline and with it. -/
def drainLine (r : Reader) : Except String Unit × Reader :=
  match h : r.read maxRequestBytes with
  | (.error error, r') => (.error error, r')
  | (.ok discard, r') =>
    if hstop : discard = [] ∨ discard.getLast? = some lineFeed then (.ok (), r')
    else drainLine r'
termination_by r.bytes.length
decreasing_by
  have hlength := congrArg List.length (eq_chunk_of_read h)
  have hpos := List.length_pos_of_ne_nil (not_or.mp hstop).1
  rw [List.length_append] at hlength
  omega

theorem length_drainLine_le (r : Reader) : r.drainLine.2.bytes.length ≤ r.bytes.length := by
  fun_induction drainLine r with
  | case1 r error r' h =>
    have hlength := congrArg length (bytes_read maxRequestBytes r)
    rw [h, length_append] at hlength
    exact hlength ▸ Nat.le_add_left _ _
  | case2 r discard r' h hstop =>
    have hlength := congrArg length (eq_chunk_of_read h)
    rw [length_append] at hlength
    exact hlength ▸ Nat.le_add_left _ _
  | case3 r discard r' h hstop ih =>
    have hlength := congrArg length (eq_chunk_of_read h)
    rw [length_append] at hlength
    omega

/-- The lines of the input: what follows the last newline is one when the end of
the input comes after it. -/
def lines (r : Reader) : List (List UInt8) :=
  (frame lineFeed r.bytes).1.map (fun record => record ++ [lineFeed]) ++
    if r.fault = none ∧ (frame lineFeed r.bytes).2 ≠ [] then [(frame lineFeed r.bytes).2] else []

theorem lines_of_line (hrecord : lineFeed ∉ record)
    (hbytes : r.bytes = record ++ lineFeed :: r'.bytes) (hfault : r'.fault = r.fault) :
    r.lines = (record ++ [lineFeed]) :: r'.lines := by
  unfold lines
  rw [hbytes, frame_append_cons hrecord, hfault]
  rfl

theorem flatten_lines (h : r.fault = none) : r.lines.flatten = r.bytes := by
  have hframe := flatten_frame lineFeed r.bytes
  rw [lines, flatten_append]
  split_ifs with hlast
  · rw [flatten_cons, flatten_nil, append_nil]
    exact hframe
  · rw [not_and, not_not] at hlast
    rw [hlast h] at hframe
    exact hframe

/-- A line is not empty and has a newline at most at its end. -/
theorem line_of_mem (h : line ∈ r.lines) : line ≠ [] ∧ lineFeed ∉ line.dropLast := by
  rcases mem_append.mp h with hrecord | hlast
  · obtain ⟨record, hmem, rfl⟩ := mem_map.mp hrecord
    rw [dropLast_concat]
    exact ⟨List.append_ne_nil_of_right_ne_nil record (cons_ne_nil _ _), notMem_record hmem⟩
  · split_ifs at hlast with hrest
    · rw [mem_singleton.mp hlast]
      exact ⟨hrest.2, fun hin => notMem_rest r.bytes (dropLast_subset _ hin)⟩
    · cases hlast

theorem lines_of_open (hbytes : lineFeed ∉ r.bytes) :
    r.lines = if r.fault = none ∧ r.bytes ≠ [] then [r.bytes] else [] := by
  unfold lines
  rw [frame_nil_of_notMem hbytes]
  rfl

/-- A read ends with the line, at the limit within it, or where the bytes end. -/
theorem read_cases (limit : Nat) (r : Reader) :
    (∃ record, lineFeed ∉ record ∧ r.bytes = record ++ lineFeed :: (r.read limit).2.bytes ∧
      (r.read limit).1 = .ok (record ++ [lineFeed])) ∨
    (∃ chunk, lineFeed ∉ chunk ∧ chunk.length = limit ∧ r.bytes = chunk ++ (r.read limit).2.bytes ∧
      (r.read limit).1 = .ok chunk) ∨
    lineFeed ∉ r.bytes ∧ (r.read limit).2.bytes = [] ∧
      (r.read limit).1 = (ending r.fault).map (fun _ => r.bytes) := by
  have hbytes := bytes_read limit r
  have hresult : (r.read limit).1 =
      if (readUntil lineFeed limit r.bytes).1.getLast? = some lineFeed ∨
          (readUntil lineFeed limit r.bytes).1.length = limit then
        .ok (readUntil lineFeed limit r.bytes).1
      else (ending r.fault).map (fun _ => (readUntil lineFeed limit r.bytes).1) := rfl
  rcases @readUntil_cases UInt8 _ lineFeed limit r.bytes with ⟨record, hrecord, hsep⟩ | ⟨hsep, hstop⟩
  · refine .inl ⟨record, hsep, ?_, ?_⟩
    · rw [hrecord, append_assoc] at hbytes
      exact hbytes.symm
    · rw [hresult, hrecord, if_pos (.inl getLast?_concat)]
  · refine .inr ?_
    by_cases hlimit : (readUntil lineFeed limit r.bytes).1.length = limit
    · exact .inl ⟨_, hsep, hlimit, hbytes.symm, by rw [hresult, if_pos (.inr hlimit)]⟩
    · have hrest := hstop.resolve_left hlimit
      have hchunk : (readUntil lineFeed limit r.bytes).1 = r.bytes := by
        have happend := @readUntil_append UInt8 _ lineFeed limit r.bytes
        rwa [hrest, append_nil] at happend
      rw [hchunk] at hsep hlimit hresult
      have hlast : r.bytes.getLast? ≠ some lineFeed :=
        fun hlast => hsep (mem_of_getLast? hlast)
      exact .inr ⟨hsep, hrest, by rw [hresult, if_neg (not_or.mpr ⟨hlast, hlimit⟩)]⟩

/-- Draining ends with the line, or where the bytes end. -/
theorem drainLine_cases (r : Reader) :
    (∃ record, lineFeed ∉ record ∧ r.bytes = record ++ lineFeed :: r.drainLine.2.bytes ∧
      r.drainLine.1 = .ok ()) ∨
    lineFeed ∉ r.bytes ∧ r.drainLine.2.bytes = [] ∧ r.drainLine.1 = ending r.fault := by
  fun_induction drainLine r with
  | case1 r error r' h =>
    have hread := read_cases maxRequestBytes r
    rw [h] at hread
    rcases hread with ⟨_, _, _, hok⟩ | ⟨_, _, _, _, hok⟩ | ⟨hsep, hrest, hresult⟩
    · cases hok
    · cases hok
    · refine .inr ⟨hsep, hrest, ?_⟩
      cases hfault : r.fault with
      | none =>
        rw [hfault] at hresult
        cases hresult
      | some e =>
        rw [hfault] at hresult
        cases hresult
        rfl
  | case2 r discard r' h hstop =>
    have hread := read_cases maxRequestBytes r
    rw [h] at hread
    rcases hread with ⟨record, hsep, hbytes, _⟩ | ⟨chunk, hsep, hlength, _, hok⟩ | ⟨hsep, hrest, hresult⟩
    · exact .inl ⟨record, hsep, hbytes, rfl⟩
    · cases hok
      rcases hstop with rfl | hlast
      · cases hlength
      · exact absurd (mem_of_getLast? hlast) hsep
    · refine .inr ⟨hsep, hrest, ?_⟩
      cases hfault : r.fault with
      | none => rfl
      | some e =>
        rw [hfault] at hresult
        cases hresult
  | case3 r discard r' h hstop ih =>
    have hread := read_cases maxRequestBytes r
    have hfault : r'.fault = r.fault := by
      have hread := fault_read maxRequestBytes r
      rwa [h] at hread
    rw [h] at hread
    rw [not_or] at hstop
    rcases hread with ⟨record, _, _, hok⟩ | ⟨chunk, hsep, _, hbytes, hok⟩ | ⟨hsep, hrest, hresult⟩
    · cases hok
      exact absurd getLast?_concat hstop.2
    · cases hok
      rcases ih with ⟨record, hrecord, hnext, hresult⟩ | ⟨hnext, hempty, hresult⟩
      · refine .inl ⟨discard ++ record, ?_, ?_, hresult⟩
        · rw [mem_append, not_or]
          exact ⟨hsep, hrecord⟩
        · rw [hbytes, hnext, append_assoc]
      · refine .inr ⟨?_, hempty, by rw [hresult, hfault]⟩
        rw [hbytes, mem_append, not_or]
        exact ⟨hsep, hnext⟩
    · rcases ih with ⟨record, _, hnext, _⟩ | ⟨hnext, hempty, hresult'⟩
      · rw [show r'.bytes = [] from hrest] at hnext
        exact absurd hnext.symm (by simp)
      · exact .inr ⟨hsep, hempty, by rw [hresult', hfault]⟩

theorem fault_drainLine (r : Reader) : r.drainLine.2.fault = r.fault := by
  fun_induction drainLine r with
  | case1 r error r' h | case2 r discard r' h hstop =>
    have hread := fault_read maxRequestBytes r
    rwa [h] at hread
  | case3 r discard r' h hstop ih =>
    have hread := fault_read maxRequestBytes r
    rw [h] at hread
    rw [ih, hread]

/-- No more than a number of bytes was ever buffered. -/
def Holds (limit : Nat) (r : Reader) : Prop := ∀ n ∈ r.buffered, n ≤ limit

theorem holds_read (h : r.Holds bound) (hlimit : limit ≤ bound) : (r.read limit).2.Holds bound := by
  intro n hn
  rcases mem_append.mp hn with hold | hnew
  · exact h n hold
  · rw [mem_singleton.mp hnew]
    exact (length_readUntil_le limit r.bytes).trans hlimit

theorem holds_drainLine (h : r.Holds bound) (hbound : maxRequestBytes ≤ bound) :
    r.drainLine.2.Holds bound := by
  fun_induction drainLine r with
  | case1 r error r' hread | case2 r discard r' hread hstop =>
    have hread' := holds_read h hbound
    rwa [hread] at hread'
  | case3 r discard r' hread hstop ih =>
    have hread' := holds_read h hbound
    rw [hread] at hread'
    exact ih hread'

end Reader

/-! ## Output -/

/-- The lines written, and the errors that the next writes meet. -/
structure Writer where
  lines : List (List Char)
  faults : List (Option String)

variable {writer : Writer}

namespace Server

/-- Write one line. -/
def writeFrame (server : Server) (writer : Writer) (response : Value) :
    Except String Unit × Writer :=
  match writer.faults with
  | some error :: faults => (.error error, ⟨writer.lines, faults⟩)
  | none :: faults => (.ok (), ⟨writer.lines ++ [server.encodeFrame response], faults⟩)
  | [] => (.ok (), ⟨writer.lines ++ [server.encodeFrame response], []⟩)

def tooLarge : Value :=
  error none .requestTooLarge s!"request frame exceeds {maxRequestBytes} bytes"

/-- A line without the line ends after it. -/
def strip (frame : List UInt8) : List UInt8 :=
  frame.rdropWhile (fun byte => byte = lineFeed || byte = carriageReturn)

end Server

/-- A session with its pipes. -/
structure Session where
  server : Server
  reader : Reader
  writer : Writer

/-- How one pass of the loop ends. -/
inductive Pass where
  | ended (result : Except String Unit) (s : Session)
  | again (s : Session)

def Pass.session : Pass → Session
  | .ended _ s => s
  | .again s => s

namespace Session

variable (env : Surroundings)

open Server

/-- Write a response and go on. -/
def reply (server : Server) (reader : Reader) (writer : Writer) (response : Value) : Pass :=
  match server.writeFrame writer response with
  | (.error e, writer) => .ended (.error e) ⟨server, reader, writer⟩
  | (.ok (), writer) => .again ⟨server, reader, writer⟩

/-- An oversized frame: what is left of its line is discarded only when the
bounded read stopped within the line. -/
def refuse (server : Server) (frame : List UInt8) (reader : Reader) (writer : Writer) : Pass :=
  match if frame.getLast? = some lineFeed then (.ok (), reader) else reader.drainLine with
  | (.error e, reader) => .ended (.error e) ⟨server, reader, writer⟩
  | (.ok (), reader) => reply server reader writer tooLarge

/-- A frame within the limit: an empty one is passed over. -/
def handle (server : Server) (frame : List UInt8) (reader : Reader) (writer : Writer) : Pass :=
  if strip frame = [] then .again ⟨server, reader, writer⟩
  else
    match server.handleFrame env (strip frame) with
    | (none, server) => .again ⟨server, reader, writer⟩
    | (some response, server) => reply server reader writer response

/-- One pass of the loop. -/
def pass (s : Session) : Pass :=
  match s.reader.read (maxRequestBytes + 1) with
  | (.error e, reader) => .ended (.error e) ⟨s.server, reader, s.writer⟩
  | (.ok frame, reader) =>
    if frame = [] then .ended (.ok ()) ⟨s.server, reader, s.writer⟩
    else if frame.length > maxRequestBytes then refuse s.server frame reader s.writer
    else handle env s.server frame reader s.writer

theorem reader_reply (server : Server) (reader : Reader) (writer : Writer) (response : Value) :
    (reply server reader writer response).session.reader = reader := by
  unfold reply
  rcases server.writeFrame writer response with ⟨_ | ⟨⟩, writer'⟩ <;> rfl

theorem reader_handle (server : Server) (frame : List UInt8) (reader : Reader)
    (writer : Writer) : (handle env server frame reader writer).session.reader = reader := by
  unfold handle
  split_ifs with hblank
  · rfl
  · rcases server.handleFrame env (strip frame) with ⟨_ | response, server'⟩
    · rfl
    · exact reader_reply server' reader writer response

theorem reader_refuse (server : Server) (frame : List UInt8) (reader : Reader) (writer : Writer) :
    (refuse server frame reader writer).session.reader = reader ∨
      (refuse server frame reader writer).session.reader = reader.drainLine.2 := by
  unfold refuse
  split_ifs with hlast
  · exact .inl (reader_reply server reader writer tooLarge)
  · refine .inr ?_
    rcases reader.drainLine with ⟨_ | ⟨⟩, rest⟩
    · rfl
    · exact reader_reply server rest writer tooLarge

/-- What a pass leaves of the input: the rest of its read, or of the line. -/
theorem reader_pass (s : Session) :
    (pass env s).session.reader = (s.reader.read (maxRequestBytes + 1)).2 ∨
      (pass env s).session.reader = (s.reader.read (maxRequestBytes + 1)).2.drainLine.2 := by
  unfold pass
  rcases s.reader.read (maxRequestBytes + 1) with ⟨error | frame, reader⟩
  · exact .inl rfl
  · dsimp only
    split_ifs with hframe hlong
    · exact .inl rfl
    · exact reader_refuse s.server frame reader s.writer
    · exact .inl (reader_handle env s.server frame reader s.writer)

variable {s s' : Session} {lines : List (List UInt8)}

/-- A pass that goes on has read something. -/
theorem exists_of_again (h : pass env s = .again s') :
    ∃ frame reader, s.reader.read (maxRequestBytes + 1) = (.ok frame, reader) ∧ frame ≠ [] := by
  unfold pass at h
  rcases hread : s.reader.read (maxRequestBytes + 1) with ⟨error | frame, reader⟩
  · simp only [hread] at h
    cases h
  · simp only [hread] at h
    by_cases hframe : frame = []
    · rw [if_pos hframe] at h
      cases h
    · exact ⟨frame, reader, rfl, hframe⟩

theorem length_pass_lt (h : pass env s = .again s') :
    s'.reader.bytes.length < s.reader.bytes.length := by
  obtain ⟨frame, reader, hread, hframe⟩ := exists_of_again env h
  have hlength := congrArg length (Reader.eq_chunk_of_read hread)
  have hpos := length_pos_of_ne_nil hframe
  have hdrain := Reader.length_drainLine_le reader
  have hleft := reader_pass env s
  rw [h, hread] at hleft
  rw [length_append] at hlength
  rcases hleft with hleft | hleft
  · rw [show s'.reader = reader from hleft]
    omega
  · rw [show s'.reader = reader.drainLine.2 from hleft]
    omega

/-- Read frames until the end, and write a line for each response. -/
def serve (s : Session) : Except String Unit × Session :=
  match _h : pass env s with
  | .ended result s' => (result, s')
  | .again s' => serve s'
termination_by s.reader.bytes.length
decreasing_by exact length_pass_lt env _h

/-! ## The session of the lines -/

/-- What a line does: one that is too long is refused, one that is empty does
nothing, and any other is a frame. -/
def treat (line : List UInt8) (server : Server) (writer : Writer) :
    Except String Unit × Server × Writer :=
  if line.length > maxRequestBytes then
    let (result, writer) := server.writeFrame writer tooLarge
    (result, server, writer)
  else if strip line = [] then (.ok (), server, writer)
  else
    match server.handleFrame env (strip line) with
    | (none, server) => (.ok (), server, writer)
    | (some response, server) =>
      let (result, writer) := server.writeFrame writer response
      (result, server, writer)

/-- The lines in their order, up to the first that cannot be answered, and what
comes after them. -/
def treatAll (last : Except String Unit) :
    List (List UInt8) → Server → Writer → Except String Unit × Server × Writer
  | [], server, writer => (last, server, writer)
  | line :: lines, server, writer =>
    match treat env line server writer with
    | (.error e, server, writer) => (.error e, server, writer)
    | (.ok (), server, writer) => treatAll last lines server writer

/-- What is still to come of a session. -/
def remains (s : Session) : Except String Unit × Server × Writer :=
  treatAll env (ending s.reader.fault) s.reader.lines s.server s.writer

/-- What comes of a pass. -/
def comes : Pass → Except String Unit × Server × Writer
  | .ended result s => (result, s.server, s.writer)
  | .again s => remains env s

theorem comes_reply (server : Server) (reader : Reader) (writer : Writer) (response : Value) :
    comes env (reply server reader writer response) = match server.writeFrame writer response with
      | (.error e, writer) => (.error e, server, writer)
      | (.ok (), writer) => remains env ⟨server, reader, writer⟩ := by
  unfold reply
  rcases server.writeFrame writer response with ⟨_ | ⟨⟩, writer'⟩ <;> rfl

theorem treatAll_long (hlong : line.length > maxRequestBytes) (server : Server) (writer : Writer) :
    treatAll env last (line :: lines) server writer = match server.writeFrame writer tooLarge with
      | (.error e, writer) => (.error e, server, writer)
      | (.ok (), writer) => treatAll env last lines server writer := by
  rw [treatAll, treat, if_pos hlong]
  rcases server.writeFrame writer tooLarge with ⟨_ | ⟨⟩, writer'⟩ <;> rfl

/-- A frame up to its newline, or the rest of the input, is passed on whole. -/
theorem treatAll_frame
    (hlong : ¬ line.length > maxRequestBytes) (server : Server) (writer : Writer) :
    treatAll env last (line :: lines) server writer =
      if strip line = [] then treatAll env last lines server writer else
        match server.handleFrame env (strip line) with
        | (none, server) => treatAll env last lines server writer
        | (some response, server) =>
          match server.writeFrame writer response with
          | (.error e, writer) => (.error e, server, writer)
          | (.ok (), writer) => treatAll env last lines server writer := by
  rw [treatAll, treat, if_neg hlong]
  split_ifs with hblank
  · rfl
  · rcases server.handleFrame env (strip line) with ⟨_ | response, server'⟩
    · rfl
    · dsimp only
      rcases server'.writeFrame writer response with ⟨_ | ⟨⟩, writer'⟩ <;> rfl

variable {s : Session}

theorem comes_refused {line : List UInt8} {reader : Reader}
    (hlines : s.reader.lines = line :: reader.lines) (hfault : reader.fault = s.reader.fault)
    (hlong : line.length > maxRequestBytes) :
    comes env (reply s.server reader s.writer tooLarge) = remains env s := by
  rw [comes_reply, remains, hlines, treatAll_long env hlong, ← hfault]
  rfl

theorem comes_handle {reader : Reader}
    (hlines : s.reader.lines = line :: reader.lines) (hfault : reader.fault = s.reader.fault)
    (hlong : ¬ line.length > maxRequestBytes) :
    comes env (handle env s.server line reader s.writer) = remains env s := by
  rw [remains, hlines, treatAll_frame env hlong, ← hfault, handle]
  split_ifs with hblank
  · rfl
  · rcases s.server.handleFrame env (strip line) with ⟨_ | response, server⟩
    · rfl
    · exact comes_reply env server reader s.writer response

/-- A read that stopped within a line: what is left of the line is discarded. -/
theorem comes_refuse {reader : Reader} (hsep : lineFeed ∉ chunk)
    (hbytes : s.reader.bytes = chunk ++ reader.bytes) (hfault : reader.fault = s.reader.fault)
    (hlong : chunk.length > maxRequestBytes) :
    comes env (refuse s.server chunk reader s.writer) = remains env s := by
  have hlast : chunk.getLast? ≠ some lineFeed := fun hlast => hsep (mem_of_getLast? hlast)
  have hdrain := Reader.drainLine_cases reader
  have hkept := Reader.fault_drainLine reader
  unfold refuse
  rw [if_neg hlast]
  rcases hresult : reader.drainLine with ⟨result, rest⟩
  rw [hresult] at hdrain hkept
  rcases hdrain with ⟨record, hrecord, hnext, rfl⟩ | ⟨hnext, hrest, rfl⟩
  · refine @comes_refused env s (chunk ++ record ++ [lineFeed]) rest ?_ (hkept.trans hfault) ?_
    · refine Reader.lines_of_line ?_ ?_ (hkept.trans hfault)
      · rw [mem_append, not_or]
        exact ⟨hsep, hrecord⟩
      · rw [hbytes, hnext, append_assoc]
    · rw [append_assoc, length_append]
      omega
  · have hopen : lineFeed ∉ s.reader.bytes := by
      rw [hbytes, mem_append, not_or]
      exact ⟨hsep, hnext⟩
    have hlines := Reader.lines_of_open hopen
    cases hend : reader.fault with
    | some e =>
      rw [remains, hlines, ← hfault, hend, if_neg (fun h => nomatch h.1)]
      rfl
    | none =>
      have hpos : s.reader.bytes ≠ [] := by
        rw [hbytes]
        refine append_ne_nil_of_left_ne_nil ?_ _
        rintro rfl
        exact absurd hlong (by decide)
      rw [if_pos ⟨hfault.symm.trans hend, hpos⟩] at hlines
      have hnone : rest.lines = [] := by
        rw [Reader.lines_of_open (by rw [show rest.bytes = [] from hrest]; exact not_mem_nil)]
        exact if_neg (fun h => h.2 hrest)
      refine @comes_refused env s s.reader.bytes rest (by rw [hlines, hnone])
        (hkept.trans hfault) ?_
      rw [hbytes, length_append]
      omega

/-- A pass takes the first of the lines that are left. -/
theorem comes_pass (s : Session) : comes env (pass env s) = remains env s := by
  have hread := Reader.read_cases (maxRequestBytes + 1) s.reader
  have hfault := Reader.fault_read (maxRequestBytes + 1) s.reader
  unfold pass
  rcases hresult : s.reader.read (maxRequestBytes + 1) with ⟨result, reader⟩
  rw [hresult] at hread hfault
  rcases hread with ⟨record, hsep, hbytes, rfl⟩ | ⟨chunk, hsep, hlength, hbytes, rfl⟩ |
    ⟨hsep, hrest, hend⟩
  · have hlines := Reader.lines_of_line hsep hbytes hfault
    dsimp only
    rw [if_neg (append_ne_nil_of_right_ne_nil record (cons_ne_nil _ _))]
    split_ifs with hlong
    · rw [refuse, if_pos getLast?_concat]
      exact comes_refused env hlines hfault hlong
    · exact comes_handle env hlines hfault hlong
  · have hlong : chunk.length > maxRequestBytes := by omega
    have hchunk : chunk ≠ [] := by
      rintro rfl
      exact absurd hlong (by decide)
    dsimp only
    rw [if_neg hchunk, if_pos hlong]
    exact comes_refuse env hsep hbytes hfault hlong
  · have hlines := Reader.lines_of_open hsep
    have hnone : reader.lines = [] := by
      rw [Reader.lines_of_open (by rw [show reader.bytes = [] from hrest]; exact not_mem_nil)]
      exact if_neg (fun h => h.2 hrest)
    cases hkind : s.reader.fault with
    | some e =>
      rw [hkind] at hend
      rw [show result = .error e from hend, remains, hlines, hkind, if_neg (fun h => nomatch h.1)]
      rfl
    | none =>
      rw [hkind] at hend
      rw [show result = .ok s.reader.bytes from hend]
      dsimp only
      split_ifs with hempty hlong
      · rw [remains, hlines, hkind, if_neg (fun h => h.2 hempty)]
        rfl
      · exact comes_refuse env hsep (by rw [show reader.bytes = [] from hrest, append_nil])
          hfault hlong
      · rw [if_pos ⟨hkind, hempty⟩] at hlines
        exact comes_handle env (by rw [hlines, hnone]) hfault hlong

/-- The bound of the buffers of a pass. -/
theorem holds_pass (h : s.reader.Holds (maxRequestBytes + 1)) :
    (pass env s).session.reader.Holds (maxRequestBytes + 1) := by
  have hread := Reader.holds_read h (Nat.le_refl (maxRequestBytes + 1))
  rcases reader_pass env s with hleft | hleft
  · rw [hleft]
    exact hread
  · rw [hleft]
    exact Reader.holds_drainLine hread (Nat.le_succ maxRequestBytes)

theorem holds_serve (h : s.reader.Holds (maxRequestBytes + 1)) :
    (serve env s).2.reader.Holds (maxRequestBytes + 1) := by
  fun_induction serve env s with
  | case1 s result s' hpass =>
    have hholds := holds_pass env h
    rwa [hpass] at hholds
  | case2 s s' hpass ih =>
    have hholds := holds_pass env h
    rw [hpass] at hholds
    exact ih hholds

/-! ## The end -/

theorem reply_ne_ok (server : Server) (reader : Reader) (writer : Writer) (response : Value)
    (s : Session) : reply server reader writer response ≠ .ended (.ok ()) s := by
  unfold reply
  rcases server.writeFrame writer response with ⟨_ | ⟨⟩, writer'⟩ <;> simp

theorem handle_ne_ok (server : Server) (frame : List UInt8) (reader : Reader) (writer : Writer)
    (s : Session) : handle env server frame reader writer ≠ .ended (.ok ()) s := by
  unfold handle
  split_ifs with hblank
  · simp
  · rcases server.handleFrame env (strip frame) with ⟨_ | response, server'⟩
    · simp
    · exact reply_ne_ok server' reader writer response s

theorem refuse_ne_ok (server : Server) (frame : List UInt8) (reader : Reader) (writer : Writer)
    (s : Session) : refuse server frame reader writer ≠ .ended (.ok ()) s := by
  unfold refuse
  split_ifs with hlast
  · exact reply_ne_ok server reader writer tooLarge s
  · rcases reader.drainLine with ⟨_ | ⟨⟩, rest⟩
    · simp
    · exact reply_ne_ok server rest writer tooLarge s

/-- The loop ends well only where a read finds nothing. -/
theorem bytes_of_ended (h : pass env s = .ended (.ok ()) s') :
    s'.reader.bytes = [] := by
  have hread := Reader.read_cases (maxRequestBytes + 1) s.reader
  unfold pass at h
  rcases hresult : s.reader.read (maxRequestBytes + 1) with ⟨error | frame, reader⟩
  · simp only [hresult] at h
    cases h
  · rw [hresult] at hread
    simp only [hresult] at h
    split_ifs at h with hframe hlong
    · cases h
      rcases hread with ⟨record, _, _, hok⟩ | ⟨chunk, _, hlength, _, hok⟩ | ⟨_, hrest, _⟩
      · cases hok
        exact absurd hframe (append_ne_nil_of_right_ne_nil record (cons_ne_nil _ _))
      · cases hok
        rw [hframe] at hlength
        cases hlength
      · exact hrest
    · exact absurd h (refuse_ne_ok s.server frame reader s.writer s')
    · exact absurd h (handle_ne_ok env s.server frame reader s.writer s')

theorem bytes_of_serve (h : (serve env s).1 = .ok ()) :
    (serve env s).2.reader.bytes = [] := by
  fun_induction serve env s with
  | case1 s result s' hpass =>
    rw [show result = .ok () from h] at hpass
    exact bytes_of_ended env hpass
  | case2 s s' hpass ih => exact ih h

/-- A line is answered when the writer takes it. -/
theorem treat_of_sound (line : List UInt8) (server : Server) (h : writer.faults = []) :
    (treat env line server writer).1 = .ok () ∧ (treat env line server writer).2.2.faults = [] := by
  have hwrite : ∀ (server : Server) (response : Value),
      (server.writeFrame writer response).1 = .ok () ∧
        (server.writeFrame writer response).2.faults = [] := by
    intro server response
    unfold writeFrame
    rw [h]
    exact ⟨rfl, rfl⟩
  unfold treat
  split_ifs with hlong hblank
  · exact hwrite server tooLarge
  · exact ⟨rfl, h⟩
  · rcases server.handleFrame env (strip line) with ⟨_ | response, server'⟩
    · exact ⟨rfl, h⟩
    · exact hwrite server' response

theorem treatAll_of_sound (last : Except String Unit) (lines : List (List UInt8)) (server : Server)
    (h : writer.faults = []) : (treatAll env last lines server writer).1 = last := by
  induction lines generalizing server writer with
  | nil => rfl
  | cons line lines ih =>
    obtain ⟨hok, hfaults⟩ := treat_of_sound env line server h
    rw [treatAll]
    rcases htreat : treat env line server writer with ⟨result, server', writer'⟩
    rw [htreat] at hok hfaults
    rw [show result = .ok () from hok]
    exact ih server' hfaults

/-- The session is the one of its lines. -/
theorem serve_comes (s : Session) :
    ((serve env s).1, (serve env s).2.server, (serve env s).2.writer) = remains env s := by
  fun_induction serve env s with
  | case1 s result s' h =>
    have hpass := comes_pass env s
    rwa [h] at hpass
  | case2 s s' h ih =>
    have hpass := comes_pass env s
    rw [h] at hpass
    rw [ih]
    exact hpass

/-- The lines of the input are treated one by one, and the loop ends where the
input does; it never held more than a byte beyond the limit. -/
theorem serve_lines (server : Server) (bytes : List UInt8) (fault : Option String)
    (writer : Writer) :
    let reader : Reader := ⟨bytes, fault, []⟩
    let s := serve env ⟨server, reader, writer⟩
    (s.1, s.2.server, s.2.writer) = treatAll env (ending fault) reader.lines server writer ∧
      (s.1 = .ok () → s.2.reader.bytes = []) ∧
      (writer.faults = [] → s.1 = ending fault) ∧
      (∀ n ∈ s.2.reader.buffered, n ≤ 262145) ∧
      (fault = none → reader.lines.flatten = bytes) ∧
      ∀ line ∈ reader.lines, line ≠ [] ∧ lineFeed ∉ line.dropLast := by
  intro reader s
  have hcomes := serve_comes env ⟨server, reader, writer⟩
  refine ⟨hcomes, bytes_of_serve env, ?_, ?_, ?_, ?_⟩
  · intro hfaults
    have hresult := congrArg Prod.fst hcomes
    exact hresult.trans (treatAll_of_sound env (ending fault) reader.lines server hfaults)
  · exact holds_serve env nofun
  · intro hfault
    exact Reader.flatten_lines hfault
  · intro line hline
    exact Reader.line_of_mem hline

end Session

end Abbey.Host
