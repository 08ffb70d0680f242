import Abbey.Lib.Framing
import Abbey.Lib.Json
import Abbey.Run.Contract
import Abbey.Stream.Markers

/-!
# Streamed answers

`extensions/bot/src/llm/stream.rs`, the parser of server-sent events, with
what it uses of `dialect.rs`.  Bytes arrive in chunks.  A chunk is cut into
lines, a line is a field with an event or the terminal marker `[DONE]`, and
an event adds text and fragments of tool calls.

Every error is `LlmError::backend` with a text.  The parser of JSON and the
debug text of a string come from outside.
-/

namespace Abbey.Stream

open Abbey.Lib
open Abbey.Run (isWhitespace)

/-- The text of `LlmError::backend`. -/
abbrev LlmError := String

/-- `serde_json::from_str` and the text of a string under `{:?}`. -/
structure Crates where
  parse : List Char → Except String Value
  debug : String → String

def maxToolCallsPerTurn : Nat := 8

/-! ## Text -/

/-- `std::str::from_utf8`. -/
def fromUtf8 (bytes : List UInt8) : Option (List Char) :=
  bytes.toByteArray.utf8Decode?.map Array.toList

def trim (cs : List Char) : List Char := (cs.dropWhile isWhitespace).rdropWhile isWhitespace

/-- `u8::is_ascii_whitespace`. -/
def isAsciiWhitespace (byte : UInt8) : Bool :=
  byte = 0x20 || byte = 0x09 || byte = 0x0a || byte = 0x0c || byte = 0x0d

/-- `strip_prefix`. -/
def stripPrefix (start cs : List Char) : Option (List Char) :=
  if start.isPrefixOf cs then some (cs.drop start.length) else none

/-! ## Tool calls -/

/-- `Value::get` with a name. -/
def get (v : Value) (field : String) : Option Value := v.asObject.bind (fun o => o.lookup field)

/-- `StreamedCall`: what the fragments of one call add up to. -/
structure StreamedCall where
  id : String
  callType : String
  name : String
  arguments : String

def StreamedCall.empty : StreamedCall := ⟨"", "", "", ""⟩

/-- `optional_string`. -/
def optionalString (v : Value) (field : String) (index : Nat) : Except LlmError (Option String) :=
  match get v field with
  | none => .ok none
  | some .null => .ok none
  | some (.string value) => .ok (some value)
  | some _ => .error s!"backend streamed tool call {index} with a non-string {field}"

/-- One fragment of a tool call.  The checks of the source after a name or
arguments were found to be a string never fire. -/
def addToolCall (calls : List StreamedCall) (call : Value) :
    Except LlmError (List StreamedCall) := do
  let index ← required ((get call "index").bind Value.asU64)
    "the backend streamed a tool call without a valid index"
  ensure (index < maxToolCallsPerTurn)
    s!"the backend tool-call index {index} exceeded the per-turn limit of {maxToolCallsPerTurn}"
  let id ← optionalString call "id" index
  let callType ← optionalString call "type" index
  ensure ((get call "function").all (fun v => v.asObject.isSome))
    s!"backend streamed tool call {index} with a non-object function"
  let function := call.index "function"
  let name ← optionalString function "name" index
  let arguments ← optionalString function "arguments" index
  let slots := calls ++ List.replicate (index + 1 - calls.length) .empty
  .ok (slots.modify index (fun slot =>
    ⟨slot.id ++ id.getD "", slot.callType ++ callType.getD "", slot.name ++ name.getD "",
      slot.arguments ++ arguments.getD ""⟩))

/-- The items of the field `tool_calls` of a delta. -/
def toolCallItems (delta : Value) : Except LlmError (List Value) :=
  match delta.index "tool_calls" with
  | .null => .ok []
  | .array items => .ok items
  | _ => .error "the backend stream tool_calls field was not an array"

/-! ## Complete tool calls -/

/-- `ToolCall`. -/
structure ToolCall where
  id : String
  name : String
  arguments : Value
  deriving DecidableEq

/-- `required` of `dialect.rs`. -/
def requiredText (v : Option Value) (field : String) (i : Nat) : Except LlmError String :=
  required ((v.bind Value.asStr).filter (fun s => !s.toList.all isWhitespace))
    s!"backend tool call {i} carried no nonempty {field}"

def anthropicCall (b : Value) (i : Nat) : Except LlmError ToolCall := do
  let id ← requiredText (get b "id") "id" i
  let name ← requiredText (get b "name") "name" i
  let input ← required ((get b "input").filter (fun v => v.asObject.isSome))
    s!"Anthropic tool call {i} input was not an object"
  .ok ⟨id, name, input⟩

def argumentsOf (crates : Crates) (v : Option Value) (i : Nat) : Except LlmError Value :=
  match v with
  | some (.string s) => mapErr
    (fun e => s!"backend tool call {i} carried invalid JSON arguments: {e}") (crates.parse s.toList)
  | some (.object fields) => .ok (.object fields)
  | _ => .error s!"backend tool call {i} arguments were not a JSON object or encoded object"

def functionCall (crates : Crates) (c : Value) (i : Nat) : Except LlmError ToolCall := do
  let _ ← required c.asObject s!"backend tool call {i} was not an object"
  ensure ((get c "type").bind Value.asStr = some "function")
    s!"backend tool call {i} did not declare type function"
  let id ← requiredText (get c "id") "id" i
  let function ← required ((get c "function").filter (fun v => v.asObject.isSome))
    s!"backend tool call {i} carried no function object"
  let name ← requiredText (get function "name") "function name" i
  let arguments ← argumentsOf crates (get function "arguments") i
  ensure arguments.asObject.isSome s!"backend tool call {i} arguments were not a JSON object"
  .ok ⟨id, name, arguments⟩

def isAnthropic (calls : List Value) : Bool :=
  (calls.head?.bind (fun v => (get v "type").bind Value.asStr)) = some "tool_use" ||
    calls.any (fun v => (get v "input").isSome)

/-- `bounded_calls`. -/
def boundedCalls (crates : Crates) (calls : List Value) (limit : Nat) :
    Except LlmError (List ToolCall) := do
  ensure (calls.length ≤ limit)
    s!"the backend returned {calls.length} tool calls; the per-turn limit is {limit}"
  if calls = [] then .ok []
  else if isAnthropic calls then calls.zipIdx.mapM (fun c => anthropicCall c.1 c.2)
  else calls.zipIdx.mapM (fun c => functionCall crates c.1 c.2)

/-- `validate_terminal`. -/
def validateTerminal (crates : Crates) (finish : String) (calls : Nat) : Except LlmError Unit :=
  if finish ∈ ["stop", "end_turn", "stop_sequence"] then
    ensure (calls = 0) "the backend marked a tool-bearing response as plain completion"
  else if finish ∈ ["tool_calls", "tool_use"] then
    ensure (0 < calls) "the backend claimed tool completion without a valid tool call"
  else if finish ∈ ["length", "max_tokens"] then
    .error "the backend exhausted its output limit before completing the response"
  else if finish = "content_filter" then
    .error "the backend stopped without a complete response because of its content filter"
  else if finish = "model_context_window_exceeded" then
    .error "Anthropic exhausted the model context window before completing the response"
  else if finish = "refusal" then
    .error "Anthropic refused the request without a complete answer"
  else if finish = "pause_turn" then
    .error "Anthropic paused the turn instead of completing it"
  else .error s!"the backend returned unsupported finish reason {crates.debug finish}"

/-- The call that `parsed_tool_calls` makes of the fragments. -/
def synthetic (call : StreamedCall) : Value :=
  .object [("function", .object [("arguments", .string call.arguments),
    ("name", .string call.name)]), ("id", .string call.id), ("type", .string call.callType)]

def parsedToolCalls (crates : Crates) (calls : List StreamedCall) : Except LlmError (List ToolCall) :=
  boundedCalls crates (calls.map synthetic) maxToolCallsPerTurn

/-! ## The accumulator -/

structure SseAccumulator where
  buffer : List UInt8
  done : Bool
  finishReason : Option String
  calls : List StreamedCall
  markers : Stripper

/-- `/choices/0`. -/
def firstChoice (value : Value) : Option Value :=
  match get value "choices" with
  | some (.array items) => items.head?
  | some (.object fields) => fields.lookup "0"
  | _ => none

/-- A delta that shows some text, or nothing. -/
def shown (text : List Char) : List (List Char) := if text = [] then [] else [text]

namespace SseAccumulator

def fresh : SseAccumulator := ⟨[], false, none, [], .fresh⟩

/-- The accumulator after an event and the deltas of its text. -/
def processEvent (s : SseAccumulator) (value : Value) :
    Except LlmError (SseAccumulator × List (List Char)) := do
  let choice ← required (firstChoice value) "the backend stream event carried no choice"
  let finish := (choice.index "finish_reason").asStr
  let delta := choice.index "delta"
  let text := (((delta.index "content").asStr).getD "").toList
  ensure (text = [] || finish.isNone)
    "the backend combined a terminal finish reason with more text"
  let pushed := if text = [] then (s.markers, []) else s.markers.push text
  let items ← toolCallItems delta
  ensure (finish.isNone || items.isEmpty)
    "the backend combined a terminal finish reason with more tool data"
  ensure (items.length ≤ maxToolCallsPerTurn)
    s!"the backend streamed more than {maxToolCallsPerTurn} tool calls in one event"
  let calls ← items.foldlM addToolCall s.calls
  .ok ({ s with markers := pushed.1, calls, finishReason := finish.or s.finishReason },
    shown pushed.2)

/-- The terminal marker: the text that was held back is shown. -/
def terminate (crates : Crates) (s : SseAccumulator) :
    Except LlmError (SseAccumulator × List (List Char)) := do
  let finish ← required s.finishReason "the backend stream ended without a finish reason"
  let calls ← parsedToolCalls crates s.calls
  validateTerminal crates finish calls.length
  .ok ({ s with markers := .fresh, done := true }, shown s.markers.finish)

def processLine (crates : Crates) (s : SseAccumulator) (line : List UInt8) :
    Except LlmError (SseAccumulator × List (List Char)) := do
  let line ← required (fromUtf8 line) "the backend stream contained invalid UTF-8"
  if line.all isWhitespace || line.head? = some ':' then .ok (s, [])
  else do
    ensure (!s.done) "the backend sent an event after the stream terminal marker"
    let payload ← required (stripPrefix "data:".toList line)
      "the backend stream contained an unsupported SSE field"
    if trim payload = "[DONE]".toList then s.terminate crates
    else do
      ensure s.finishReason.isNone "the backend sent an event after its finish reason"
      let value ← mapErr (fun e => s!"the backend stream event was not JSON: {e}")
        (crates.parse (trim payload))
      s.processEvent value

/-- The bytes of a line without its carriage return. -/
def stripReturn (line : List UInt8) : List UInt8 :=
  if line.getLast? = some 0x0d then line.dropLast else line

/-- The lines of a chunk, one after another. -/
def processLines (crates : Crates) : SseAccumulator → List (List UInt8) →
    Except LlmError (SseAccumulator × List (List Char))
  | s, [] => .ok (s, [])
  | s, line :: rest => do
    let (s, deltas) ← s.processLine crates (stripReturn line)
    let (s, more) ← processLines crates s rest
    .ok (s, deltas ++ more)

/-- `feed`. -/
def feed (crates : Crates) (s : SseAccumulator) (chunk : List UInt8) :
    Except LlmError (SseAccumulator × List (List Char)) :=
  if s.done then do
    ensure (chunk.all isAsciiWhitespace)
      "the backend sent data after the stream terminal marker"
    .ok (s, [])
  else do
    let (lines, buffer) := frame 0x0a (s.buffer ++ chunk)
    let (s, deltas) ← processLines crates { s with buffer := [] } lines
    ensure (!s.done || buffer.all isAsciiWhitespace)
      "the backend sent data after the stream terminal marker"
    .ok ({ s with buffer }, deltas)

/-- `finish`. -/
def finish (s : SseAccumulator) : Except LlmError Unit := do
  ensure s.done "the backend stream ended before the [DONE] terminal marker"
  ensure (s.buffer.all isAsciiWhitespace) "the backend stream ended with an incomplete event"

/-- `tool_calls`. -/
def toolCalls (crates : Crates) (s : SseAccumulator) : Except LlmError (List ToolCall) := do
  s.finish
  parsedToolCalls crates s.calls

end SseAccumulator

/-! ## A whole stream -/

open SseAccumulator

/-- Feed some chunks. -/
def feedAll (crates : Crates) : SseAccumulator → List (List UInt8) →
    Except LlmError (SseAccumulator × List (List Char))
  | s, [] => .ok (s, [])
  | s, chunk :: rest => do
    let (s, deltas) ← s.feed crates chunk
    let (s, more) ← feedAll crates s rest
    .ok (s, deltas ++ more)

/-- Feed all chunks of an answer, then `finish` and `tool_calls`: the text
and the tool calls. -/
def deliver (crates : Crates) (chunks : List (List UInt8)) :
    Except LlmError (List Char × List ToolCall) := do
  let (s, deltas) ← feedAll crates .fresh chunks
  s.finish
  let calls ← s.toolCalls crates
  .ok (deltas.flatten, calls)

end Abbey.Stream
