import Abbey.Stream.Chunks

/-!
# Answers of a stream

A stream read as a whole: its lines are events and the terminal marker
(`Reads`), one event has the finish reason and is the last
(`Finishes`), the fragments add up to complete tool calls (`Ended`).  The
run over the lines and this reading agree (`endsWith_ended`,
`endsWith_of_ended`), so an answer depends on the chunks only through what
follows the terminal marker: `unchunked_iff_quiet`.
-/

namespace Abbey.Stream

open Abbey.Lib List Except Option
open Abbey.Run (isWhitespace)
open SseAccumulator

variable {crates : Crates}
variable {chunks lines : List (List UInt8)} {text : List Char} {tools : List ToolCall}
  {line : List UInt8} {reason : String} {events : List Value}

/-! ## Lines -/

/-- What a line says. -/
inductive Line where
  | skipped
  | done
  | event (value : Value)
  deriving DecidableEq

def readLine (crates : Crates) (line : List UInt8) : Except LlmError Line := do
  let line ← required (fromUtf8 line) "the backend stream contained invalid UTF-8"
  if line.all isWhitespace || line.head? = some ':' then .ok .skipped
  else do
    let payload ← required (stripPrefix "data:".toList line)
      "the backend stream contained an unsupported SSE field"
    if trim payload = "[DONE]".toList then .ok .done
    else do
      let value ← mapErr (fun e => s!"the backend stream event was not JSON: {e}")
        (crates.parse (trim payload))
      .ok (.event value)

/-- The lines that say something, in order. -/
def Reads (crates : Crates) (lines : List (List UInt8)) (said : List Line) : Prop :=
  ∃ reads, List.Forall₂ (fun line read => readLine crates (stripReturn line) = .ok read) lines reads ∧
    reads.filter (fun read => read ≠ .skipped) = said

/-- What an accumulator does with such a line. -/
def take (crates : Crates) (s : SseAccumulator) :
    Line → Except LlmError (SseAccumulator × List (List Char))
  | .skipped => .ok (s, [])
  | .done => do
    ensure (!s.done) "the backend sent an event after the stream terminal marker"
    s.terminate crates
  | .event value => do
    ensure (!s.done) "the backend sent an event after the stream terminal marker"
    ensure s.finishReason.isNone "the backend sent an event after its finish reason"
    s.processEvent value

theorem processLine_eq_ok {s : SseAccumulator} {r : SseAccumulator × List (List Char)} :
    s.processLine crates line = .ok r ↔
      ∃ read, readLine crates line = .ok read ∧ take crates s read = .ok r := by
  unfold processLine readLine
  cases fromUtf8 line with
  | none => simp [required]
  | some text =>
    simp only [required_some, ok_bind]
    by_cases hskip : (text.all isWhitespace || text.head? = some ':')
    · rw [if_pos hskip, if_pos hskip]
      simp [take]
    rw [if_neg hskip, if_neg hskip]
    cases stripPrefix "data:".toList text with
    | none => simp [required, bind_ok_iff]
    | some payload =>
      simp only [required_some, ok_bind]
      by_cases hdone : trim payload = "[DONE]".toList
      · rw [if_pos hdone, if_pos hdone]
        simp [take]
      rw [if_neg hdone, if_neg hdone]
      simp only [bind_ok_iff, ok.injEq]
      constructor
      · rintro ⟨u, hopen, _, hfinish, value, hvalue, hevent⟩
        refine ⟨.event value, ⟨value, hvalue, rfl⟩, ?_⟩
        simp only [take, bind_ok_iff]
        exact ⟨u, hopen, _, hfinish, hevent⟩
      · rintro ⟨_, ⟨value, hvalue, rfl⟩, htake⟩
        simp only [take, bind_ok_iff] at htake
        obtain ⟨u, hopen, _, hfinish, hevent⟩ := htake
        exact ⟨u, hopen, _, hfinish, value, hvalue, hevent⟩

/-! ## Events -/

/-- The finish reason of an event. -/
def finishOf (value : Value) : Option String :=
  (firstChoice value).bind (fun choice => (choice.index "finish_reason").asStr)

/-- The text of an event. -/
def contentOf (value : Value) : List Char :=
  (((firstChoice value).bind
    (fun choice => ((choice.index "delta").index "content").asStr)).getD "").toList

/-- The fragments of tool calls after an event. -/
def eventCalls (calls : List StreamedCall) (value : Value) :
    Except LlmError (List StreamedCall) := do
  let choice ← required (firstChoice value) "the backend stream event carried no choice"
  ensure (contentOf value = [] || (finishOf value).isNone)
    "the backend combined a terminal finish reason with more text"
  let items ← toolCallItems (choice.index "delta")
  ensure ((finishOf value).isNone || items.isEmpty)
    "the backend combined a terminal finish reason with more tool data"
  ensure (items.length ≤ maxToolCallsPerTurn)
    s!"the backend streamed more than {maxToolCallsPerTurn} tool calls in one event"
  items.foldlM addToolCall calls

/-- The texts of some events. -/
def contents (events : List Value) : List (List Char) :=
  (events.map contentOf).filter (fun text => text ≠ [])

theorem flatten_contents (events : List Value) :
    (contents events).flatten = (events.map contentOf).flatten := by
  unfold contents
  induction events.map contentOf with
  | nil => rfl
  | cons text texts ih =>
    by_cases htext : text = []
    · rw [filter_cons_of_neg (by simpa using htext), ih, htext]
      rfl
    · rw [filter_cons_of_pos (by simpa using htext), flatten_cons, ih, flatten_cons]

theorem flatten_shown (text : List Char) : (shown text).flatten = text := by
  unfold shown
  split_ifs with htext
  · rw [htext]
    rfl
  · simp

theorem processEvent_eq_ok {s t : SseAccumulator} {value : Value} {deltas : List (List Char)} :
    s.processEvent value = .ok (t, deltas) ↔ ∃ calls, eventCalls s.calls value = .ok calls ∧
      t = { s with
        markers := (pushAll s.markers (contents [value])).1
        calls
        finishReason := (finishOf value).or s.finishReason } ∧
      deltas = shown (pushAll s.markers (contents [value])).2 := by
  unfold processEvent eventCalls
  cases hchoice : firstChoice value with
  | none => simp [required, bind_ok_iff]
  | some choice =>
    have hfinish : finishOf value = (choice.index "finish_reason").asStr := by
      rw [finishOf, hchoice]
      rfl
    have hcontent : contentOf value = (((choice.index "delta").index "content").asStr.getD "").toList := by
      rw [contentOf, hchoice]
      rfl
    have hpushed : pushAll s.markers (contents [value]) =
        if contentOf value = [] then (s.markers, []) else s.markers.push (contentOf value) := by
      unfold contents
      rw [map_singleton]
      split_ifs with hempty
      · rw [filter_cons_of_neg (by simpa using hempty)]
        rfl
      · rw [filter_cons_of_pos (by simpa using hempty)]
        simp [pushAll]
    rw [hpushed]
    simp only [required_some, ok_bind, hfinish, hcontent, bind_ok_iff, ok.injEq,
      Prod.mk.injEq]
    constructor
    · rintro ⟨u, htext, items, hitems, _, hdata, _, hlength, calls, hcalls, rfl, rfl⟩
      exact ⟨calls, ⟨u, htext, items, hitems, _, hdata, _, hlength, hcalls⟩, rfl, rfl⟩
    · rintro ⟨calls, ⟨u, htext, items, hitems, _, hdata, _, hlength, hcalls⟩, rfl, rfl⟩
      exact ⟨u, htext, items, hitems, _, hdata, _, hlength, calls, hcalls, rfl, rfl⟩

/-! ## One event after another -/

/-- The finish reason and the fragments after one more event. -/
def addEvent (state : Option String × List StreamedCall) (value : Value) :
    Except LlmError (Option String × List StreamedCall) := do
  ensure state.1.isNone "the backend sent an event after its finish reason"
  let calls ← eventCalls state.2 value
  .ok (finishOf value, calls)

/-- The last event, and no other, has a finish reason. -/
def Finishes (events : List Value) (reason : String) : Prop :=
  ∃ init last, events = init ++ [last] ∧ finishOf last = some reason ∧
    ∀ value ∈ init, finishOf value = none

theorem addEvent_eq_ok {state : Option String × List StreamedCall} {value : Value}
    {r : Option String × List StreamedCall} : addEvent state value = .ok r ↔
      state.1 = none ∧ ∃ calls, eventCalls state.2 value = .ok calls ∧ r = (finishOf value, calls) := by
  unfold addEvent
  simp only [bind_ok_iff, ensure_eq_ok, ok.injEq, isNone_iff_eq_none]
  constructor
  · rintro ⟨_, hnone, calls, hcalls, rfl⟩
    exact ⟨hnone, calls, hcalls, rfl⟩
  · rintro ⟨hnone, calls, hcalls, rfl⟩
    exact ⟨(), hnone, calls, hcalls, rfl⟩

/-- Events that end with a finish reason. -/
theorem foldlM_addEvent {calls slots : List StreamedCall} :
    events.foldlM addEvent (none, calls) = .ok (some reason, slots) ↔
      Finishes events reason ∧ events.foldlM eventCalls calls = .ok slots := by
  induction events generalizing calls with
  | nil =>
    constructor
    · intro h
      cases h
    · rintro ⟨⟨init, last, heq, _⟩, _⟩
      simp at heq
  | cons value rest ih =>
    simp only [foldlM_cons, bind_ok_iff, addEvent_eq_ok]
    cases hfinish : finishOf value with
    | none =>
      constructor
      · rintro ⟨_, ⟨_, next, hnext, rfl⟩, hrest⟩
        obtain ⟨⟨init, last, rfl, hlast, hinit⟩, hslots⟩ := ih.mp hrest
        refine ⟨⟨value :: init, last, rfl, hlast, ?_⟩, next, hnext, hslots⟩
        intro other hother
        rcases mem_cons.mp hother with rfl | hmem
        · exact hfinish
        · exact hinit other hmem
      · rintro ⟨⟨init, last, heq, hlast, hinit⟩, next, hnext, hslots⟩
        refine ⟨_, ⟨trivial, next, hnext, rfl⟩, ih.mpr ⟨?_, hslots⟩⟩
        cases init with
        | nil =>
          injection heq with hvalue
          rw [← hvalue, hfinish] at hlast
          cases hlast
        | cons first init =>
          injection heq with hvalue hrest
          exact ⟨init, last, hrest, hlast, fun other hother =>
            hinit other (mem_cons_of_mem first hother)⟩
    | some found =>
      constructor
      · rintro ⟨_, ⟨_, next, hnext, rfl⟩, hrest⟩
        cases rest with
        | nil =>
          cases hrest
          exact ⟨⟨[], value, rfl, hfinish, by simp⟩, slots, hnext, rfl⟩
        | cons other rest =>
          simp only [foldlM_cons, bind_ok_iff, addEvent_eq_ok] at hrest
          obtain ⟨_, ⟨hnone, _⟩, _⟩ := hrest
          cases hnone
      · rintro ⟨⟨init, last, heq, hlast, hinit⟩, next, hnext, hslots⟩
        cases init with
        | nil =>
          injection heq with hvalue hrest
          subst hvalue hrest
          cases hslots
          rw [hfinish] at hlast
          cases hlast
          exact ⟨_, ⟨trivial, slots, hnext, rfl⟩, rfl⟩
        | cons first init =>
          injection heq with hvalue _
          have hnone := hinit first mem_cons_self
          rw [← hvalue, hfinish] at hnone
          cases hnone

/-! ## Lines before the terminal marker -/

section Run

variable {s t : SseAccumulator} {deltas : List (List Char)} {events : List Value}

theorem pushAll_append (m : Stripper) (a b : List (List Char)) :
    pushAll m (a ++ b) = ((pushAll (pushAll m a).1 b).1,
      (pushAll m a).2 ++ (pushAll (pushAll m a).1 b).2) := by
  induction a generalizing m with
  | nil => rfl
  | cons delta a ih =>
    rw [cons_append, pushAll, ih, pushAll]
    simp

theorem contents_cons (value : Value) (events : List Value) :
    contents (value :: events) = contents [value] ++ contents events := by
  unfold contents
  rw [map_cons, ← singleton_append, filter_append]
  rfl

variable {ls : List (List UInt8)}

theorem reads_cons {said : List Line} :
    Reads crates (line :: ls) said ↔ ∃ read rest, readLine crates (stripReturn line) = .ok read ∧
      Reads crates ls rest ∧ said = if read = .skipped then rest else read :: rest := by
  constructor
  · rintro ⟨reads, hreads, rfl⟩
    cases hreads with
    | cons hread hrest =>
      rename_i read reads
      refine ⟨read, _, hread, ⟨reads, hrest, rfl⟩, ?_⟩
      by_cases hskip : read = .skipped
      · simp [hskip]
      · simp [hskip]
  · rintro ⟨read, _, hread, ⟨reads, hrest, rfl⟩, rfl⟩
    refine ⟨read :: reads, .cons hread hrest, ?_⟩
    by_cases hskip : read = .skipped
    · simp [hskip]
    · simp [hskip]

/-- What an accumulator that goes on has read. -/
theorem reads_of_processLines
    (h : processLines crates s ls = .ok (t, deltas)) (ht : t.done = false) :
    ∃ events, Reads crates ls (events.map Line.event) ∧
      events.foldlM addEvent (s.finishReason, s.calls) = .ok (t.finishReason, t.calls) ∧
      pushAll s.markers (contents events) = (t.markers, deltas.flatten) := by
  induction ls generalizing s deltas with
  | nil =>
    cases h
    exact ⟨[], ⟨[], .nil, rfl⟩, rfl, rfl⟩
  | cons line ls ih =>
    obtain ⟨u, first, more, hfirst, hmore, rfl⟩ := processLines_cons.mp h
    obtain ⟨events, hreads, hevents, hpushed⟩ := ih hmore
    obtain ⟨read, hread, htake⟩ := processLine_eq_ok.mp hfirst
    cases read with
    | skipped =>
      cases htake
      exact ⟨events, reads_cons.mpr ⟨.skipped, _, hread, hreads, rfl⟩, hevents, hpushed⟩
    | done =>
      -- the stream would have ended
      unfold take terminate at htake
      simp only [bind_ok_iff, ok.injEq, Prod.mk.injEq] at htake
      obtain ⟨_, _, _, _, _, _, _, _, rfl, _⟩ := htake
      have hstays := (processLines_of_done rfl hmore).2.1
      rw [hstays] at ht
      cases ht
    | event value =>
      unfold take at htake
      simp only [bind_ok_iff, ensure_eq_ok, isNone_iff_eq_none] at htake
      obtain ⟨_, _, _, hnone, hevent⟩ := htake
      obtain ⟨calls, hcalls, rfl, rfl⟩ := processEvent_eq_ok.mp hevent
      rw [hnone, or_none] at hevents
      refine ⟨value :: events, reads_cons.mpr ⟨.event value, _, hread, hreads, rfl⟩, ?_, ?_⟩
      · rw [foldlM_cons, bind_ok_iff]
        exact ⟨_, addEvent_eq_ok.mpr ⟨hnone, calls, hcalls, rfl⟩, hevents⟩
      · rw [contents_cons, pushAll_append, hpushed, flatten_append, flatten_shown]

/-- Lines that can be read are run. -/
theorem processLines_of_reads (hs : s.done = false)
    (hreads : Reads crates ls (events.map Line.event)) {finish : Option String}
    {calls : List StreamedCall}
    (hevents : events.foldlM addEvent (s.finishReason, s.calls) = .ok (finish, calls)) :
    ∃ t deltas, processLines crates s ls = .ok (t, deltas) ∧ t.done = false ∧
      t.finishReason = finish ∧ t.calls = calls := by
  induction ls generalizing s events with
  | nil =>
    obtain ⟨_, hnil, hempty⟩ := hreads
    cases hnil
    have hevents' : events = [] := map_eq_nil_iff.mp hempty.symm
    subst hevents'
    cases hevents
    exact ⟨s, [], rfl, hs, rfl, rfl⟩
  | cons line ls ih =>
    obtain ⟨read, said, hread, hrest, hsaid⟩ := reads_cons.mp hreads
    by_cases hskip : read = .skipped
    · subst hskip
      rw [if_pos rfl] at hsaid
      subst hsaid
      obtain ⟨t, deltas, hrun, hdone, hfinish, hcalls⟩ := ih hs hrest hevents
      refine ⟨t, deltas, processLines_cons.mpr ⟨s, [], deltas, ?_, hrun, rfl⟩, hdone, hfinish,
        hcalls⟩
      exact processLine_eq_ok.mpr ⟨.skipped, hread, rfl⟩
    · rw [if_neg hskip] at hsaid
      cases events with
      | nil => cases hsaid
      | cons value events =>
        injection hsaid with hvalue hsaid
        subst hvalue hsaid
        rw [foldlM_cons, bind_ok_iff] at hevents
        obtain ⟨_, hadd, hlater⟩ := hevents
        obtain ⟨hfirst, next, hnext, rfl⟩ := addEvent_eq_ok.mp hadd
        have hnone : s.finishReason = none := hfirst
        have hevent := processEvent_eq_ok.mpr ⟨next, hnext, rfl, rfl⟩
        have htake := processLine_eq_ok.mpr ⟨.event value, hread, by
          simp only [take, bind_ok_iff, ensure_eq_ok]
          exact ⟨(), by rw [hs]; rfl, (), by rw [hnone]; rfl, hevent⟩⟩
        obtain ⟨t, deltas, hrun, hdone, hfinish, hcalls⟩ := ih (s := { s with
            markers := (pushAll s.markers (contents [value])).1
            calls := next
            finishReason := (finishOf value).or s.finishReason }) hs hrest (by
          rw [hnone, or_none]
          exact hlater)
        exact ⟨t, _, processLines_cons.mpr ⟨_, _, deltas, htake, hrun, rfl⟩, hdone, hfinish, hcalls⟩

end Run

/-! ## Whole answers -/

/-- Some lines with the events of an answer and the terminal marker as the
last one. -/
structure Ended (crates : Crates) (lines : List (List UInt8)) (events : List Value)
    (reason : String) (tools : List ToolCall) : Prop where
  lines : ∃ init last, lines = init ++ [last] ∧ Reads crates init (events.map Line.event) ∧
    readLine crates (stripReturn last) = .ok .done
  finishes : Finishes events reason
  calls : ∃ slots, events.foldlM eventCalls [] = .ok slots ∧ parsedToolCalls crates slots = .ok tools
  valid : validateTerminal crates reason tools.length = .ok ()

/-- Bytes that are such lines. -/
def Ends (crates : Crates) (pre : List UInt8) : Prop :=
  (frame 0x0a pre).2 = [] ∧ ∃ events reason tools, Ended crates (frame 0x0a pre).1 events reason tools

/-- A run that ends the stream has read an answer. -/
theorem endsWith_ended {t : SseAccumulator} {deltas : List (List Char)}
    (h : EndsWith crates .fresh lines t deltas) :
    ∃ events reason tools, Ended crates lines events reason tools ∧
      parsedToolCalls crates t.calls = .ok tools ∧
      deltas.flatten = strip (events.map contentOf).flatten := by
  obtain ⟨init, last, u, first, final, rfl, hinit, hu, hlast, ht, rfl⟩ := h
  obtain ⟨events, hreads, hevents, hpushed⟩ := reads_of_processLines hinit hu
  obtain ⟨read, hread, htake⟩ := processLine_eq_ok.mp hlast
  cases read with
  | skipped =>
    cases htake
    rw [hu] at ht
    cases ht
  | event value =>
    unfold take at htake
    simp only [bind_ok_iff] at htake
    obtain ⟨_, _, _, _, hevent⟩ := htake
    obtain ⟨calls, _, rfl, _⟩ := processEvent_eq_ok.mp hevent
    rw [show _ = u.done from rfl, hu] at ht
    cases ht
  | done =>
    unfold take terminate at htake
    simp only [bind_ok_iff, required_eq_ok, ok.injEq, Prod.mk.injEq] at htake
    obtain ⟨_, _, reason, hreason, tools, htools, _, hvalid, rfl, rfl⟩ := htake
    rw [hreason] at hevents
    obtain ⟨hfinishes, hslots⟩ := foldlM_addEvent.mp hevents
    refine ⟨events, reason, tools, ⟨⟨init, last, rfl, hreads, hread⟩, hfinishes,
      ⟨u.calls, hslots, htools⟩, hvalid⟩, htools, ?_⟩
    rw [← flatten_contents, ← pushAll_strip]
    have hfresh : fresh.markers = Stripper.fresh := rfl
    rw [hfresh] at hpushed
    rw [hpushed, flatten_append, flatten_shown]

/-- Lines that can be read as an answer end a run. -/
theorem endsWith_of_ended (h : Ended crates lines events reason tools) :
    ∃ t deltas, EndsWith crates .fresh lines t deltas := by
  obtain ⟨⟨init, last, rfl, hreads, hlast⟩, hfinishes, ⟨slots, hslots, htools⟩, hvalid⟩ := h
  obtain ⟨u, first, hrun, hu, hreason, hcalls⟩ := @processLines_of_reads crates .fresh events init
    rfl hreads _ _ (foldlM_addEvent.mpr ⟨hfinishes, hslots⟩)
  refine ⟨{ u with markers := .fresh, done := true }, _, init, last, u, first,
    shown u.markers.finish, rfl, hrun, hu, ?_, rfl, rfl⟩
  refine processLine_eq_ok.mpr ⟨.done, hlast, ?_⟩
  simp only [take, terminate, bind_ok_iff, ensure_eq_ok, required_eq_ok]
  refine ⟨(), by rw [hu]; rfl, reason, hreason, tools, ?_, (), hvalid, trivial⟩
  rw [hcalls]
  exact htools

theorem ends_iff {pre : List UInt8} :
    Ends crates pre ↔ ∃ t deltas, Terminates crates .fresh pre t deltas := by
  constructor
  · rintro ⟨hrest, events, reason, tools, hended⟩
    obtain ⟨t, deltas, hends⟩ := endsWith_of_ended hended
    exact ⟨t, deltas, hrest, hends⟩
  · rintro ⟨t, deltas, hrest, hends⟩
    obtain ⟨events, reason, tools, hended, _⟩ := endsWith_ended hends
    exact ⟨hrest, events, reason, tools, hended⟩

/-! ## Cuts of a stream -/

section Cuts

variable {bs pre post : List UInt8} {t : SseAccumulator}

theorem deliver_eq_ok : deliver crates chunks = .ok (text, tools) ↔ ∃ s deltas,
      feedAll crates .fresh chunks = .ok (s, deltas) ∧ s.done ∧
        s.buffer.all isAsciiWhitespace ∧ parsedToolCalls crates s.calls = .ok tools ∧
        text = deltas.flatten := by
  unfold deliver toolCalls SseAccumulator.finish
  simp only [bind_ok_iff, ensure_eq_ok, Prod.exists, ok.injEq, Prod.mk.injEq]
  constructor
  · rintro ⟨s, deltas, hfeed, _, ⟨_, hdone, hbuffer⟩, _, ⟨_, _, hcalls⟩, rfl, rfl⟩
    exact ⟨s, deltas, hfeed, hdone, hbuffer, hcalls, rfl⟩
  · rintro ⟨s, deltas, hfeed, hdone, hbuffer, hcalls, rfl⟩
    exact ⟨s, deltas, hfeed, (), ⟨(), hdone, hbuffer⟩, tools, ⟨(), ⟨(), hdone, hbuffer⟩, hcalls⟩,
      rfl, rfl⟩

/-- What an answer says of the bytes. -/
theorem terminates_of_deliver (h : deliver crates chunks = .ok (text, tools)) :
    ∃ pre post t deltas, chunks.flatten = pre ++ post ∧ Terminates crates .fresh pre t deltas ∧
      trailing post ∧ parsedToolCalls crates t.calls = .ok tools ∧ text = deltas.flatten := by
  obtain ⟨s, deltas, hfeed, hdone, _, hcalls, rfl⟩ := deliver_eq_ok.mp h
  obtain ⟨pre, post, t, hflat, hends, hpost, hsame⟩ := feedAll_terminates rfl hfeed hdone
  rw [hsame] at hcalls
  exact ⟨pre, post, t, deltas, hflat, hends, hpost, hcalls, rfl⟩

theorem deliver_of_terminates {deltas : List (List Char)}
    (hends : Terminates crates .fresh pre t deltas) (hpost : post.all isAsciiWhitespace)
    (htools : parsedToolCalls crates t.calls = .ok tools) (h : chunks.flatten = pre ++ post) :
    deliver crates chunks = .ok (deltas.flatten, tools) := by
  have hdone : t.done := by
    obtain ⟨_, _, _, _, _, _, _, _, _, _, hdone, _⟩ := hends
    exact hdone
  obtain ⟨b, hb, hrun⟩ := feedAll_of_terminates (s := .fresh) rfl (by simp [SseAccumulator.fresh])
    hends hpost h
  exact deliver_eq_ok.mpr ⟨_, deltas, hrun, hdone, hb, htools, rfl⟩

/-- In one chunk, lines that say nothing may follow the terminal marker. -/
theorem feed_whole {deltas : List (List Char)}
    (hends : Terminates crates .fresh pre t deltas) (hpost : trailing post) :
    feed crates .fresh (pre ++ post) = .ok ({ t with buffer := (frame 0x0a post).2 }, deltas) := by
  obtain ⟨hpre, hlines⟩ := hends
  obtain ⟨hskip, hrest⟩ := (Bool.and_eq_true _ _).mp hpost
  have hframe : frame 0x0a (pre ++ post) =
      ((frame 0x0a pre).1 ++ (frame 0x0a post).1, (frame 0x0a post).2) := by
    rw [frame_append, hpre, nil_append]
  refine (feed_of_open rfl).mpr ⟨t, ?_, ?_, ?_⟩
  · show processLines crates .fresh (frame 0x0a (pre ++ post)).1 = _
    rw [hframe]
    refine processLines_append.mpr ⟨t, deltas, [], hlines.processLines, ?_, (append_nil _).symm⟩
    exact processLines_of_skipped (all_eq_true.mp hskip) t
  · intro _
    show (frame 0x0a (pre ++ post)).2.all isAsciiWhitespace
    rw [hframe]
    exact hrest
  · show _ = ({ t with buffer := (frame 0x0a (pre ++ post)).2 } : SseAccumulator)
    rw [hframe]

/-- After a chunk that ends with the terminal marker only white space
passes. -/
theorem ascii_of_feed_pre {u : SseAccumulator} {deltas more : List (List Char)}
    (hends : Terminates crates .fresh pre t deltas)
    (h : feedAll crates .fresh [pre, post] = .ok (u, more)) :
    post.all isAsciiWhitespace := by
  obtain ⟨v, first, rest, hfirst, hrest, _⟩ := feedAll_cons.mp h
  have hwhole := @feed_whole crates pre [] t deltas hends rfl
  rw [append_nil, hfirst, ok.injEq, Prod.mk.injEq] at hwhole
  obtain ⟨_, _, _, _, _, _, _, _, _, _, hdone, _⟩ := hends
  have hv : v.done := by
    rw [hwhole.1]
    exact hdone
  have hall := ((feedAll_of_done hv).mp hrest).1
  simpa using hall

end Cuts

/-- What a stream of bytes answers does not depend on how it is cut, and an
answer is the text and the tool calls of a stream with one finish reason and
one terminal marker. -/
structure Unchunked (crates : Crates) (bs : List UInt8) : Prop where
  independent : ∀ chunks others : List (List UInt8), chunks.flatten = bs → others.flatten = bs →
    (deliver crates chunks).toOption = (deliver crates others).toOption
  answered : ∀ chunks text tools, chunks.flatten = bs → deliver crates chunks = .ok (text, tools) →
    ∃ events reason, Reads crates (frame 0x0a bs).1 (events.map Line.event ++ [.done]) ∧
      (frame 0x0a bs).2.all isAsciiWhitespace = true ∧ Finishes events reason ∧
      text = strip (events.map contentOf).flatten

/-- Nothing but ASCII white space follows the terminal marker of an answer,
unless it is not even blank lines and comments. -/
def Quiet (crates : Crates) (bs : List UInt8) : Prop :=
  ∀ pre post, bs = pre ++ post → Ends crates pre → trailing post = true →
    post.all isAsciiWhitespace = true

theorem reads_append {ls ks : List (List UInt8)} {said more : List Line}
    (h : Reads crates ls said) (h' : Reads crates ks more) :
    Reads crates (ls ++ ks) (said ++ more) := by
  obtain ⟨reads, hreads, rfl⟩ := h
  obtain ⟨others, hothers, rfl⟩ := h'
  exact ⟨reads ++ others, rel_append hreads hothers, filter_append _ _⟩

theorem readLine_of_skipped (h : skipped line) : readLine crates line = .ok .skipped := by
  obtain ⟨text, htext, hskip⟩ := (any_eq_true _ _).mp h
  unfold readLine
  rw [htext, required_some, ok_bind, if_pos hskip]

theorem reads_of_skipped {ls : List (List UInt8)}
    (h : ∀ line ∈ ls, skipped (stripReturn line)) : Reads crates ls [] := by
  induction ls with
  | nil => exact ⟨[], .nil, rfl⟩
  | cons line ls ih =>
    refine reads_cons.mpr ⟨.skipped, [], readLine_of_skipped (h line mem_cons_self), ?_, rfl⟩
    exact ih (fun other hother => h other (mem_cons_of_mem line hother))

theorem answered_of_deliver (h : deliver crates chunks = .ok (text, tools)) :
    ∃ events reason, Reads crates (frame 0x0a chunks.flatten).1 (events.map Line.event ++ [.done]) ∧
      (frame 0x0a chunks.flatten).2.all isAsciiWhitespace ∧ Finishes events reason ∧
      text = strip (events.map contentOf).flatten := by
  obtain ⟨pre, post, t, deltas, hflat, ⟨hpre, hends⟩, hpost, _, rfl⟩ := terminates_of_deliver h
  obtain ⟨events, reason, tools', hended, _, htext⟩ := endsWith_ended hends
  obtain ⟨init, last, hlines, hreads, hlast⟩ := hended.lines
  obtain ⟨hskip, hrest⟩ := (Bool.and_eq_true _ _).mp hpost
  have hdone : Reads crates [last] [.done] :=
    reads_cons.mpr ⟨.done, [], hlast, reads_of_skipped (by simp), rfl⟩
  refine ⟨events, reason, ?_, ?_, hended.finishes, htext⟩
  · rw [hflat, frame_append, hpre, hlines, nil_append]
    have hall := reads_append (reads_append hreads hdone)
      (reads_of_skipped (all_eq_true.mp hskip))
    rw [append_nil] at hall
    exact hall
  · rw [hflat, frame_append, hpre]
    exact hrest

/-- An answer is independent of the chunks exactly when what follows the
terminal marker is quiet. -/
theorem unchunked_iff_quiet (crates : Crates) (bs : List UInt8) :
    Unchunked crates bs ↔ Quiet crates bs := by
  constructor
  · intro h pre post hbs hends hpost
    obtain ⟨t, deltas, hterminates⟩ := ends_iff.mp hends
    obtain ⟨_, _, tools, _, htools, _⟩ := endsWith_ended hterminates.2
    obtain ⟨_, _, _, _, _, _, _, _, _, _, hdone, _⟩ := id hterminates
    have hwhole : deliver crates [pre ++ post] = .ok (deltas.flatten, tools) := by
      refine deliver_eq_ok.mpr ⟨_, deltas, feedAll_cons.mpr ⟨_, deltas, [],
        feed_whole hterminates hpost, rfl, (append_nil _).symm⟩, hdone, ?_, htools, rfl⟩
      exact ((Bool.and_eq_true _ _).mp hpost).2
    have hsame := h.independent [pre ++ post] [pre, post] (by simp [hbs]) (by simp [hbs])
    rw [hwhole] at hsame
    cases hcut : deliver crates [pre, post] with
    | error e =>
      rw [hcut] at hsame
      cases hsame
    | ok answer =>
      obtain ⟨u, more, hfeed, _⟩ := deliver_eq_ok.mp hcut
      exact ascii_of_feed_pre hterminates hfeed
  · intro h
    have himplies : ∀ chunks others : List (List UInt8), chunks.flatten = bs →
        others.flatten = bs → ∀ answer, deliver crates chunks = .ok answer →
          deliver crates others = .ok answer := by
      intro chunks others hchunks hothers answer hanswer
      obtain ⟨pre, post, t, deltas, hflat, hends, hpost, htools, htext⟩ :=
        terminates_of_deliver hanswer
      have hascii := h pre post (hchunks.symm.trans hflat) (ends_iff.mpr ⟨t, deltas, hends⟩) hpost
      have hother := deliver_of_terminates hends hascii htools
        ((hothers.trans hchunks.symm).trans hflat)
      rw [hother, ← htext]
    refine ⟨?_, ?_⟩
    · intro chunks others hchunks hothers
      apply Option.ext
      intro answer
      have hok : ∀ x : Except LlmError (List Char × List ToolCall),
          x.toOption = some answer ↔ x = .ok answer := by
        intro x
        cases x with
        | error e | ok a => simp [Except.toOption]
      rw [hok, hok]
      exact ⟨himplies chunks others hchunks hothers answer,
        himplies others chunks hothers hchunks answer⟩
    · rintro chunks text tools rfl hanswer
      exact answered_of_deliver hanswer

/-! ## A comment after the terminal marker -/

/-- A parser that knows the finish event. -/
def sampleCrates : Crates where
  parse payload :=
    if payload = "\x7b\"choices\":[\x7b\"finish_reason\":\"stop\"\x7d]\x7d".toList then
      .ok (.object [("choices", .array [.object [("finish_reason", .string "stop")]])])
    else .error "expected value"
  debug s := s!"\"{s}\""

/-- A finish event and the terminal marker. -/
def sampleStream : List UInt8 :=
  ("data: \x7b\"choices\":[\x7b\"finish_reason\":\"stop\"\x7d]\x7d\ndata: [DONE]\n".toList).flatMap
    String.utf8EncodeChar

def sampleComment : List UInt8 := (": bye\n".toList).flatMap String.utf8EncodeChar

/-- A comment after the terminal marker passes in the same chunk and not in
the next. -/
theorem comment_depends_on_chunks : ¬ Unchunked sampleCrates (sampleStream ++ sampleComment) := by
  intro h
  have hsame := h.independent [sampleStream ++ sampleComment] [sampleStream, sampleComment]
    (by simp) (by simp)
  have hone : deliver sampleCrates [sampleStream ++ sampleComment] = .ok ([], []) := by
    decide +kernel
  have htwo : deliver sampleCrates [sampleStream, sampleComment] =
      .error "the backend sent data after the stream terminal marker" := by
    decide +kernel
  rw [hone, htwo] at hsame
  cases hsame

end Abbey.Stream
