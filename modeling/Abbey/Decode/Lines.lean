import Abbey.Lib.Utf8
import Abbey.Stream.Events

/-!
# Event streams of the backends

`src/stream/ndjson.rs`, `claude.rs`, `cursor.rs` and `grok.rs`: three backends
write one JSON value a line.  `LineBuffer` assembles the lines and drops a
line of more than a MiB.  Each backend has its own reading of a line, a state
between lines and a count of events that it does not know.

The three decoders feed and finish in the same way, so they are one `Ndjson`
with the name of the backend and its reading.  The parser of JSON comes from
outside.
-/

namespace Abbey.Decode

open Abbey.Lib
open Abbey.Stream (get trim)

/-! ## Events -/

/-- `StreamEvent`, without `Done`, which no decoder emits. -/
inductive StreamEvent where
  | textDelta (text : List Char)
  | thinkingDelta (text : List Char)
  | toolStart (id name : List Char) (input : Value)
  | toolEnd (id : List Char) (ok : Bool) (output : List Char)
  | usage (inputTokens outputTokens : Nat)
  | sessionId (id : List Char)
  | notice (text : List Char)
  | failed (text : List Char)
  deriving DecidableEq

/-! ## Lines -/

def maxLineBytes : Nat := 1024 * 1024

structure LineBuffer where
  pending : List UInt8
  discarding : Bool

namespace LineBuffer

def fresh : LineBuffer := ⟨[], false⟩

/-- The text of the pending bytes, unless it is blank. -/
def line (b : LineBuffer) : Option (List Char) :=
  let text := trim (Utf8.lossy b.pending)
  if text.isEmpty then none else some text

/-- One byte: the buffer, the line that it ends and whether it makes the line
over-long. -/
def byte (b : LineBuffer) (x : UInt8) : LineBuffer × Option (List Char) × Bool :=
  if x = 0x0a then
    if b.discarding then (fresh, none, false) else (fresh, b.line, false)
  else if b.discarding then (b, none, false)
  else
    let pending := b.pending ++ [x]
    if maxLineBytes < pending.length then (⟨[], true⟩, none, true)
    else (⟨pending, false⟩, none, false)

def push (b : LineBuffer) : List UInt8 → LineBuffer × List (List Char) × Bool
  | [] => (b, [], false)
  | x :: chunk =>
    let (b', ended, tooLong) := b.byte x
    let (b'', lines, overflow) := b'.push chunk
    (b'', ended.toList ++ lines, tooLong || overflow)

def finish (b : LineBuffer) : Option (List Char) := if b.discarding then none else b.line

end LineBuffer

/-- `clip`: at most `maxChars` characters, with `…` when cut. -/
def clip (s : List Char) (maxChars : Nat) : List Char :=
  s.take maxChars ++ if maxChars < s.length then ['…'] else []

/-! ## Reading a line -/

def asArray : Value → Option (List Value)
  | .array items => some items
  | _ => none

/-- `as_str`, as characters. -/
def str (v : Value) : Option (List Char) := v.asStr.map String.toList

/-- `as_str().unwrap_or_default()`. -/
def strOrEmpty (v : Value) : List Char := (str v).getD []

/-- `v["message"]["content"].as_array().into_iter().flatten()`. -/
def contentBlocks (v : Value) : List Value :=
  (asArray ((v.index "message").index "content")).getD []

/-- `serde_json::from_str`. -/
abbrev Parser := List Char → Option Value

/-- What a line does: the state after it, its events, and how many of them are
not known. -/
structure Read (σ : Type) where
  state : σ
  events : List StreamEvent
  unknown : Nat

/-- The reading of a value by a backend. -/
structure Backend (σ : Type) where
  name : String
  start : σ
  read : σ → Value → Read σ

/-! ## Claude -/

def toolResultText : Value → List Char
  | .string s => s.toList
  | .array items =>
    List.intercalate ['\n'] (items.filterMap (fun item => (get item "text").bind str))
  | _ => []

namespace ClaudeDecoder

/-- The state is `streamed_text`. -/
abbrev State := Bool

/-- An event of the type `stream_event`. -/
def readStreamEvent (streamed : State) (event : Value) : Read State :=
  match (event.index "type").asStr with
  | some "message_start" => ⟨false, [], 0⟩
  | some "content_block_delta" =>
    match ((event.index "delta").index "type").asStr with
    | some "text_delta" =>
      ⟨true, [.textDelta (strOrEmpty ((event.index "delta").index "text"))], 0⟩
    | some "thinking_delta" =>
      ⟨streamed, [.thinkingDelta (strOrEmpty ((event.index "delta").index "thinking"))], 0⟩
    | _ => ⟨streamed, [], 0⟩
  | _ => ⟨streamed, [], 0⟩

/-- A block of an `assistant` message. -/
def assistantBlock (streamed : State) (block : Value) : List StreamEvent :=
  match (block.index "type").asStr with
  | some "text" => if streamed then [] else [.textDelta (strOrEmpty (block.index "text"))]
  | some "tool_use" =>
    [.toolStart (strOrEmpty (block.index "id"))
      ((str (block.index "name")).getD "tool".toList) (block.index "input")]
  | _ => []

/-- A block of a `user` message. -/
def userBlock (block : Value) : List StreamEvent :=
  if (block.index "type").asStr = some "tool_result" then
    [.toolEnd (strOrEmpty (block.index "tool_use_id"))
      (!((block.index "is_error").asBool.getD false)) (toolResultText (block.index "content"))]
  else []

def readResult (v : Value) : List StreamEvent :=
  let usage :=
    match ((v.index "usage").index "input_tokens").asU64,
      ((v.index "usage").index "output_tokens").asU64 with
    | some i, some o => [StreamEvent.usage i o]
    | _, _ => []
  let failed :=
    if (v.index "is_error").asBool = some true then
      [StreamEvent.failed (((str (v.index "result")).or (str (v.index "subtype"))).getD
        "error".toList)]
    else []
  usage ++ failed

def read (streamed : State) (v : Value) : Read State :=
  match (v.index "type").asStr with
  | some "system" =>
    if (v.index "subtype").asStr = some "init" then
      ⟨streamed, ((str (v.index "session_id")).map StreamEvent.sessionId).toList, 0⟩
    else ⟨streamed, [], 0⟩
  | some "stream_event" => readStreamEvent streamed (v.index "event")
  | some "assistant" => ⟨false, (contentBlocks v).flatMap (assistantBlock streamed), 0⟩
  | some "user" => ⟨streamed, (contentBlocks v).flatMap userBlock, 0⟩
  | some "result" => ⟨streamed, readResult v, 0⟩
  | _ => ⟨streamed, [], 1⟩

end ClaudeDecoder

def claude : Backend ClaudeDecoder.State := ⟨"claude", false, ClaudeDecoder.read⟩

/-! ## Cursor -/

/-- `tool_entry`: the name and the body of a tool call.  The map of the
parser lists its fields in the order of `fields`. -/
def toolEntry (v : Value) : Option (List Char × Value) :=
  match v.index "tool_call" with
  | .object ((key, body) :: _) =>
    some (if "ToolCall".toList.isSuffixOf key.toList then
      key.toList.take (key.toList.length - 8) else key.toList, body)
  | _ => none

namespace CursorDecoder

/-- The state is `text`, what has been streamed. -/
abbrev State := List Char

/-- The blocks of an `assistant` message. -/
def assistantBlocks : State → List Value → State × List StreamEvent
  | text, [] => (text, [])
  | text, block :: blocks =>
    match str (block.index "text") with
    | none => assistantBlocks text blocks
    | some t =>
      if !text.isEmpty && t = text then assistantBlocks text blocks
      else
        let (text', events) := assistantBlocks (text ++ t) blocks
        (text', .textDelta t :: events)

def readToolCall (text : State) (v : Value) : Read State :=
  let id := strOrEmpty (v.index "call_id")
  match toolEntry v with
  | none => ⟨text, [], 1⟩
  | some (name, body) =>
    match (v.index "subtype").asStr with
    | some "started" => ⟨text, [.toolStart id name (body.index "args")], 0⟩
    | some "completed" =>
      let result := body.index "result"
      let ok := (get result "success").isSome
      let detail := if ok then result.index "success" else result.index "error"
      ⟨text, [.toolEnd id ok ((str detail).getD (clip detail.print 400))], 0⟩
    | _ => ⟨text, [], 1⟩

def read (text : State) (v : Value) : Read State :=
  match (v.index "type").asStr with
  | some "system" => ⟨text, ((str (v.index "session_id")).map StreamEvent.sessionId).toList, 0⟩
  | some "assistant" =>
    let (text', events) := assistantBlocks text (contentBlocks v)
    ⟨text', events, 0⟩
  | some "thinking" => ⟨text, ((str (v.index "text")).map StreamEvent.thinkingDelta).toList, 0⟩
  | some "tool_call" => readToolCall text v
  | some "result" =>
    ⟨text, if (v.index "is_error").asBool = some true then
      [.failed ((str (v.index "result")).getD "error".toList)] else [], 0⟩
  | some "user" => ⟨text, [], 0⟩
  | _ => ⟨text, [], 1⟩

end CursorDecoder

def cursor : Backend CursorDecoder.State := ⟨"cursor", [], CursorDecoder.read⟩

/-! ## Grok -/

namespace GrokDecoder

/-- Nothing is kept between lines. -/
abbrev State := Unit

/-- `update`: the session update, at any of its places. -/
def update (v : Value) : Option Value :=
  [v, v.index "update", (v.index "params").index "update"].find?
    (fun u => (get u "sessionUpdate").isSome)

def readUpdate (u : Value) : Read State :=
  let text := strOrEmpty ((u.index "content").index "text")
  let id := strOrEmpty (u.index "toolCallId")
  match (u.index "sessionUpdate").asStr with
  | some "agent_message_chunk" => ⟨(), [.textDelta text], 0⟩
  | some "agent_thought_chunk" => ⟨(), [.thinkingDelta text], 0⟩
  | some "tool_call" =>
    ⟨(), [.toolStart id (((str (u.index "title")).or (str (u.index "kind"))).getD "tool".toList)
      (u.index "rawInput")], 0⟩
  | some "tool_call_update" =>
    match (u.index "status").asStr with
    | some "completed" => ⟨(), [.toolEnd id true (clip (u.index "content").print 400)], 0⟩
    | some "failed" => ⟨(), [.toolEnd id false (clip (u.index "content").print 400)], 0⟩
    | _ => ⟨(), [], 0⟩
  | _ => ⟨(), [], 1⟩

def read (_ : State) (v : Value) : Read State :=
  match update v with
  | none => ⟨(), [], 1⟩
  | some u => readUpdate u

end GrokDecoder

def grok : Backend GrokDecoder.State := ⟨"grok", (), GrokDecoder.read⟩

/-! ## The decoder -/

/-- `ClaudeDecoder`, `CursorDecoder` or `GrokDecoder`. -/
structure Ndjson (σ : Type) where
  lines : LineBuffer
  state : σ
  unknown : Nat

namespace Ndjson

variable {σ : Type} (parse : Parser) (backend : Backend σ)

def fresh : Ndjson σ := ⟨.fresh, backend.start, 0⟩

def withLines (d : Ndjson σ) (lines : LineBuffer) : Ndjson σ := { d with lines }

@[simp] theorem lines_withLines (d : Ndjson σ) (b : LineBuffer) : (d.withLines b).lines = b := rfl

@[simp] theorem withLines_withLines (d : Ndjson σ) (b c : LineBuffer) :
    (d.withLines b).withLines c = d.withLines c := rfl

/-- `decode_line`. -/
def decodeLine (d : Ndjson σ) (line : List Char) : Ndjson σ × List StreamEvent :=
  match parse line with
  | none =>
    (d, [.notice (backend.name.toList ++ ": unparsed line: ".toList ++ clip line 160)])
  | some v =>
    let r := backend.read d.state v
    ({ d with
      state := r.state
      unknown := d.unknown + r.unknown }, r.events)

def decodeLines : Ndjson σ → List (List Char) → Ndjson σ × List StreamEvent
  | d, [] => (d, [])
  | d, line :: lines =>
    let (d', first) := d.decodeLine parse backend line
    let (d'', rest) := decodeLines d' lines
    (d'', first ++ rest)

/-- The notice about an over-long line. -/
def overlong : StreamEvent :=
  .notice (backend.name.toList ++ ": dropped an over-long stream line".toList)

def feed (d : Ndjson σ) (chunk : List UInt8) : Ndjson σ × List StreamEvent :=
  let (buffer, lines, overflow) := d.lines.push chunk
  let (d', events) := (d.withLines buffer).decodeLines parse backend lines
  (d', (if overflow then [overlong backend] else []) ++ events)

def finish (d : Ndjson σ) : Ndjson σ × List StreamEvent :=
  (d.withLines { d.lines with pending := [] }).decodeLines parse backend d.lines.finish.toList

end Ndjson

end Abbey.Decode
