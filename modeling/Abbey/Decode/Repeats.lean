import Abbey.Decode.Chunks

/-!
# Text that is streamed and repeated

Cursor and Claude send the text of a message in pieces and then once more as a
whole.  `CursorDecoder` takes a text for the repetition when it equals all that was
streamed, so a piece that equals the pieces before it is lost and the whole text
then comes out too (`cursor_text`).  `ClaudeDecoder` has a flag for it.
-/

namespace Abbey.Decode

open Abbey.Lib ClaudeDecoder List Ndjson

variable {parse : Parser} {line text : List Char} {lines deltas : List (List Char)}

/-! ## Cursor -/

/-- An `assistant` line with one text. -/
def Says (parse : Parser) (line text : List Char) : Prop :=
  ∃ v block, parse line = some v ∧ (v.index "type").asStr = some "assistant" ∧
    contentBlocks v = [block] ∧ str (block.index "text") = some text

/-- No piece is the text of all the pieces before it. -/
def NoEcho (deltas : List (List Char)) : Prop :=
  ∀ before d after, deltas = before ++ d :: after → before ≠ [] → d ≠ before.flatten

namespace CursorDecoder

/-- What is streamed after some texts. -/
def streamed : State → List (List Char) → State
  | text, [] => text
  | text, t :: ts => if !text.isEmpty && t = text then streamed text ts else streamed (text ++ t) ts

end CursorDecoder

open CursorDecoder (streamed)

variable {d : Ndjson CursorDecoder.State}

theorem decodeLine_says (h : Says parse line text) :
    ((d.decodeLine parse cursor line).1).state = streamed d.state [text] ∧
      d.state ++ textOf (d.decodeLine parse cursor line).2 = streamed d.state [text] := by
  obtain ⟨v, block, hparse, htype, hblocks, htext⟩ := h
  unfold decodeLine
  simp only [hparse, cursor, CursorDecoder.read, htype, hblocks, CursorDecoder.assistantBlocks,
    htext, streamed]
  split_ifs
  · exact ⟨rfl, append_nil _⟩
  · exact ⟨rfl, by simp [textOf]⟩

/-- The events of some texts are what they add to the text streamed. -/
theorem decodeLines_says (h : List.Forall₂ (Says parse) lines deltas) :
    ((d.decodeLines parse cursor lines).1).state = streamed d.state deltas ∧
      d.state ++ textOf (d.decodeLines parse cursor lines).2 = streamed d.state deltas := by
  induction h generalizing d with
  | nil => exact ⟨rfl, append_nil _⟩
  | @cons line text lines deltas hline _ ih =>
    obtain ⟨hstate, hevents⟩ := decodeLine_says (d := d) hline
    obtain ⟨hlast, hmore⟩ := ih (d := (d.decodeLine parse cursor line).1)
    have hstep : streamed (streamed d.state [text]) deltas = streamed d.state (text :: deltas) := by
      simp only [streamed]
      split_ifs <;> rfl
    rw [hstate, hstep] at hlast hmore
    refine ⟨hlast, ?_⟩
    rw [decodeLines, textOf_append, ← append_assoc, hevents]
    exact hmore

theorem streamed_append (text : List Char) (first later : List (List Char)) :
    streamed text (first ++ later) = streamed (streamed text first) later := by
  induction first generalizing text with
  | nil => rfl
  | cons t first ih =>
    simp only [cons_append, streamed]
    split_ifs <;> exact ih _

/-- Without an echo every piece is streamed, and an echo is missing. -/
theorem streamed_pieces (hne : ∀ d ∈ deltas, d ≠ []) :
    (NoEcho deltas → streamed [] deltas = deltas.flatten) ∧
      (¬ NoEcho deltas → streamed [] deltas ≠ [] ∧
        (streamed [] deltas).length < deltas.flatten.length) := by
  induction deltas using reverseRecOn with
  | nil => exact ⟨fun _ => rfl, fun h => absurd (fun before d after hsplit => by simp at hsplit) h⟩
  | append_singleton front d ih =>
    obtain ⟨hkeeps, hloses⟩ := ih (fun d hd => hne d (mem_append_left _ hd))
    have hd : d ≠ [] := hne d (by simp)
    have hlength := length_pos_iff.mpr hd
    have hlast : ∀ text, streamed text [d] = if !text.isEmpty && d = text then text else text ++ d :=
      fun _ => rfl
    have hfront : NoEcho (front ++ [d]) ↔ NoEcho front ∧ (front ≠ [] → d ≠ front.flatten) := by
      constructor
      · intro h
        refine ⟨fun before e after hsplit => h before e (after ++ [d]) (by simp [hsplit]),
          h front d [] rfl⟩
      · rintro ⟨h, hecho⟩ before e after hsplit hbefore
        rcases eq_nil_or_concat after with rfl | ⟨after, last, rfl⟩
        · obtain ⟨rfl, hlist⟩ := append_inj' hsplit rfl
          obtain rfl := (cons.inj hlist).1
          exact hecho hbefore
        · rw [concat_eq_append, ← cons_append, ← append_assoc] at hsplit
          obtain ⟨rfl, -⟩ := append_inj' hsplit rfl
          exact h before e after rfl hbefore
    rw [streamed_append, hlast, hfront, flatten_append, flatten_singleton,
      length_append]
    constructor
    · rintro ⟨hno, hecho⟩
      rw [hkeeps hno, if_neg]
      simp only [Bool.and_eq_true, Bool.not_eq_true', isEmpty_eq_false_iff, decide_eq_true_eq]
      rintro ⟨hnil, heq⟩
      exact hecho (fun h => hnil (by rw [h]; rfl)) heq
    · intro h
      by_cases hno : NoEcho front
      · have hecho : front ≠ [] ∧ d = front.flatten := by
          by_contra hnot
          exact h ⟨hno, fun hne heq => hnot ⟨hne, heq⟩⟩
        have hpos : front.flatten ≠ [] := hecho.2 ▸ hd
        rw [hkeeps hno, if_pos (by simp [hpos, hecho.2])]
        exact ⟨hpos, by omega⟩
      · obtain ⟨hpos, hless⟩ := hloses hno
        split_ifs
        · exact ⟨hpos, by omega⟩
        · refine ⟨by simp [hpos], ?_⟩
          rw [length_append]
          omega

theorem cursor_text (hne : ∀ d ∈ deltas, d ≠ []) (hlines : List.Forall₂ (Says parse) lines deltas)
    (hlast : Says parse line deltas.flatten) :
    textOf ((fresh cursor).decodeLines parse cursor (lines ++ [line])).2 = deltas.flatten ↔
      NoEcho deltas := by
  obtain ⟨-, hevents⟩ := decodeLines_says (d := .fresh cursor)
    (rel_append hlines (.cons hlast .nil))
  have hstart : (fresh cursor).state = [] := rfl
  obtain ⟨hkeeps, hloses⟩ := streamed_pieces hne
  have hwhole : ∀ text, streamed text [deltas.flatten] =
      if !text.isEmpty && deltas.flatten = text then text else text ++ deltas.flatten :=
    fun _ => rfl
  rw [hstart, nil_append, streamed_append, hwhole] at hevents
  rw [hevents]
  by_cases hno : NoEcho deltas
  · rw [hkeeps hno]
    refine ⟨fun _ => hno, fun _ => ?_⟩
    by_cases hnil : deltas.flatten = []
    · simp [hnil]
    · rw [if_pos (by simp [hnil])]
  · obtain ⟨hpos, hless⟩ := hloses hno
    refine ⟨fun heq => ?_, fun h => absurd h hno⟩
    have hlength := congrArg length heq
    have hlonger := length_pos_iff.mpr hpos
    split_ifs at hlength
    · omega
    · rw [length_append] at hlength
      omega

/-! ## Claude -/

/-- The text of the blocks of an `assistant` message. -/
def messageText (v : Value) : List Char :=
  (contentBlocks v).flatMap (fun block =>
    if (block.index "type").asStr = some "text" then strOrEmpty (block.index "text") else [])

/-- A `stream_event` line with this event. -/
def Streams (parse : Parser) (line : List Char) (event : Value → Prop) : Prop :=
  ∃ v, parse line = some v ∧ (v.index "type").asStr = some "stream_event" ∧ event (v.index "event")

def IsTextDelta (text : List Char) (event : Value) : Prop :=
  (event.index "type").asStr = some "content_block_delta" ∧
    ((event.index "delta").index "type").asStr = some "text_delta" ∧
    str ((event.index "delta").index "text") = some text

/-- The lines of a message and its text, or of a tool message, which has none. -/
inductive Sends (parse : Parser) : List (List Char) → List Char → Prop where
  | message {first last v} {lines deltas : List (List Char)} :
    Streams parse first (fun event => (event.index "type").asStr = some "message_start") →
    List.Forall₂ (fun line d => Streams parse line (IsTextDelta d)) lines deltas →
    parse last = some v → (v.index "type").asStr = some "assistant" →
    messageText v = deltas.flatten → Sends parse (first :: lines ++ [last]) deltas.flatten
  | toolUse {line v} : parse line = some v → (v.index "type").asStr = some "assistant" →
    messageText v = [] → Sends parse [line] []
  | toolResult {line v} : parse line = some v → (v.index "type").asStr = some "user" →
    Sends parse [line] []

variable {d : Ndjson ClaudeDecoder.State}

theorem decodeLine_claude (h : parse line = some v) :
    (d.decodeLine parse claude line).1.state = (read d.state v).state ∧
      (d.decodeLine parse claude line).2 = (read d.state v).events := by
  unfold decodeLine
  rw [h]
  exact ⟨rfl, rfl⟩

/-- The blocks of a message give its text unless it was streamed. -/
theorem textOf_assistantBlocks (streamed : Bool) (v : Value) :
    textOf ((contentBlocks v).flatMap (assistantBlock streamed)) =
      if streamed then [] else messageText v := by
  unfold messageText
  induction contentBlocks v with
  | nil => cases streamed <;> rfl
  | cons block blocks ih =>
    have hblock : textOf (assistantBlock streamed block) = if streamed then [] else
        if (block.index "type").asStr = some "text" then strOrEmpty (block.index "text")
        else [] := by
      unfold assistantBlock
      split
      · rename_i htype
        cases streamed <;> simp [textOf, htype]
      · rename_i htype
        cases streamed <;> simp [textOf, htype]
      · rename_i htext _
        rw [if_neg htext]
        cases streamed <;> rfl
    rw [flatMap_cons, textOf_append, ih, hblock]
    cases streamed <;> simp

theorem decodeLines_deltas
    (h : List.Forall₂ (fun line d => Streams parse line (IsTextDelta d)) lines deltas) :
    (d.decodeLines parse claude lines).1.state = (d.state || !deltas.isEmpty) ∧
      textOf (d.decodeLines parse claude lines).2 = deltas.flatten := by
  induction h generalizing d with
  | nil => exact ⟨(Bool.or_false _).symm, rfl⟩
  | @cons line text lines deltas hline _ ih =>
    obtain ⟨v, hparse, htype, hevent, hdelta, htext⟩ := hline
    obtain ⟨hstate, hevents⟩ := decodeLine_claude (d := d) hparse
    obtain ⟨hlast, hmore⟩ := ih (d := (d.decodeLine parse claude line).1)
    have hread : read d.state v = ⟨true, [.textDelta text], 0⟩ := by
      simp only [ClaudeDecoder.read, htype, ClaudeDecoder.readStreamEvent, hevent, hdelta,
        strOrEmpty, htext, Option.getD_some]
    rw [hread] at hstate hevents
    refine ⟨?_, ?_⟩
    · change ((d.decodeLine parse claude line).1.decodeLines parse claude lines).1.state = _
      rw [hlast, hstate]
      simp
    · rw [decodeLines, textOf_append, hmore, hevents]
      simp [textOf]

/-- Every message starts and ends with a decoder that has streamed nothing. -/
theorem decodeLines_sends (hd : d.state = false) (h : Sends parse lines text) :
    (d.decodeLines parse claude lines).1.state = false ∧
      textOf (d.decodeLines parse claude lines).2 = text := by
  have hone : ∀ {line v}, parse line = some v →
      (d.decodeLines parse claude [line]).1.state = (ClaudeDecoder.read d.state v).state ∧
        textOf (d.decodeLines parse claude [line]).2 =
          textOf (ClaudeDecoder.read d.state v).events := by
    intro line v hparse
    obtain ⟨hstate, hevents⟩ := decodeLine_claude (d := d) hparse
    exact ⟨hstate, by rw [decodeLines, ← hevents]; simp [decodeLines]⟩
  cases h with
  | @message first last v lines deltas hstart hdeltas hlast htype htext =>
    obtain ⟨start, hfirst, hstream, hevent⟩ := hstart
    obtain ⟨hstate, hevents⟩ := decodeLine_claude (d := d) hfirst
    have hread : ClaudeDecoder.read d.state start = ⟨false, [], 0⟩ := by
      simp only [ClaudeDecoder.read, hstream, ClaudeDecoder.readStreamEvent, hevent]
    rw [hread] at hstate hevents
    obtain ⟨hmid, hpieces⟩ := decodeLines_deltas (d := (d.decodeLine parse claude first).1) hdeltas
    rw [hstate, Bool.false_or] at hmid
    obtain ⟨hend, hrepeat⟩ := decodeLine_claude
      (d := ((d.decodeLine parse claude first).1.decodeLines parse claude lines).1) hlast
    have hfinal : ∀ streamed, ClaudeDecoder.read streamed v =
        ⟨false, (contentBlocks v).flatMap (ClaudeDecoder.assistantBlock streamed), 0⟩ := by
      intro streamed
      simp only [ClaudeDecoder.read, htype]
    rw [hfinal] at hend hrepeat
    rw [cons_append, decodeLines]
    dsimp only
    rw [decodeLines_append, hevents]
    refine ⟨hend, ?_⟩
    simp only [decodeLines, append_nil, nil_append]
    rw [textOf_append, hpieces, hrepeat, textOf_assistantBlocks, hmid, htext]
    cases deltas <;> simp
  | toolUse hparse htype htext =>
    obtain ⟨hstate, hevents⟩ := hone hparse
    simp only [hd, ClaudeDecoder.read, htype] at hstate hevents
    refine ⟨hstate, ?_⟩
    rw [hevents, textOf_assistantBlocks, htext]
    rfl
  | @toolResult line v hparse htype =>
    obtain ⟨hstate, hevents⟩ := hone hparse
    simp only [hd, ClaudeDecoder.read, htype] at hstate hevents
    refine ⟨hstate, ?_⟩
    rw [hevents, textOf, flatMap_assoc, flatMap_eq_nil_iff]
    intro block _
    unfold ClaudeDecoder.userBlock
    split_ifs <;> rfl

/-- An `assistant` line with one block of this text. -/
def assistantValue (text : String) : Value :=
  .object [("type", .string "assistant"), ("message", .object [("content",
    .array [.object [("type", .string "text"), ("text", .string text)]])])]

/-- The line of a tool's result. -/
def userValue : Value := .object [("type", .string "user")]

/-- The parser on three lines. -/
def sampleParse : Parser := fun line =>
  [assistantValue "ha", assistantValue "haha", userValue].find? (fun v => v.print = line)

theorem says_ha : Says sampleParse (assistantValue "ha").print "ha".toList :=
  ⟨assistantValue "ha", _, by decide +kernel, rfl, rfl, rfl⟩

end Abbey.Decode
