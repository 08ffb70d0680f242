import Abbey.Host.Redact
import Abbey.Host.Tools

/-!
# The tool server

One frame is parsed, routed and answered; a response becomes a line in one place,
which replaces secrets and bounds its size.
-/

namespace Abbey.Host

open Abbey.Lib

/-- How a worker thread with a handler ends before the deadline. -/
inductive Ran where
  | unstarted (error : String)
  | late
  | finished

/-- What a session takes from its surroundings: its version, the JSON parser or the
text of its error, and how the workers end in the order of their calls. -/
structure Surroundings where
  version : String
  fromSlice : List UInt8 → Except String Document
  worker : Nat → Ran

/-- One session; `calls` is the number of the workers that it has asked for. -/
structure Server where
  tools : List SafeTool
  callTimeoutMillis : Nat
  initialized : Bool
  secrets : List (List Char)
  calls : Nat

structure Failure where
  code : Code
  message : String

def latestProtocolVersion : String := "2025-06-18"

def supportedProtocolVersions : List String := ["2025-06-18", "2025-03-26", "2024-11-05"]

def instructions : String :=
  "Read-only Abbey introspection. Every tool is non-mutating: there is no shell, " ++
    "filesystem, or command-execution tool in this registry, and none can be added without " ++
    "changing the registry's effect type."

namespace Server

variable (env : Surroundings)

def requireInitialized (server : Server) : Except Failure Unit :=
  ensure server.initialized
    ⟨.invalidRequest, "server is not initialized — send `initialize` first"⟩

def requestedVersion (params : Value) : Except Failure (Option String) :=
  match get params "protocolVersion" with
  | none => .ok none
  | some .null => .ok none
  | some (.string version) =>
    if version.utf8ByteSize ≤ maxProtocolVersionBytes then .ok (some version)
    else .error ⟨.invalidParams, s!"`protocolVersion` exceeds {maxProtocolVersionBytes} bytes"⟩
  | some _ => .error ⟨.invalidParams, "`protocolVersion` must be a string"⟩

def negotiated (requested : Option String) : String :=
  (requested.filter (fun version => version ∈ supportedProtocolVersions)).getD
    latestProtocolVersion

def welcome (version : String) : Value :=
  .object [
    ("capabilities", .object [("tools", .object [("listChanged", .bool false)])]),
    ("instructions", .string instructions),
    ("protocolVersion", .string version),
    ("serverInfo", .object [
      ("name", .string "abbey"),
      ("title", .string "Abbey read-only tools"),
      ("version", .string env.version)])]

def initialize_ (server : Server) (params : Value) : Except Failure Value × Server :=
  match requestedVersion params with
  | .error failure => (.error failure, server)
  | .ok requested => (.ok (welcome env (negotiated requested)), { server with initialized := true })

/-- The tool and the arguments of a call. -/
def callTarget (server : Server) (params : Value) : Except Failure (SafeTool × Value) := do
  let name ← match get params "name" with
    | some (.string name) => .ok name
    | _ => .error ⟨.invalidParams, "`name` is required and must be a string"⟩
  ensure (name.utf8ByteSize ≤ maxToolNameBytes)
    ⟨.invalidParams, s!"tool name exceeds {maxToolNameBytes} bytes"⟩
  let tool ← required (server.tools.find? (fun tool => tool.name = name))
    ⟨.invalidParams, s!"unknown tool `{name}`"⟩
  let arguments ← match get params "arguments" with
    | none => .ok (.object [])
    | some .null => .ok (.object [])
    | some (.object fields) => .ok (.object fields)
    | some _ => .error ⟨.invalidParams, "`arguments` must be an object when present"⟩
  return (tool, arguments)

def runWithTimeout (server : Server) (tool : SafeTool) (arguments : Value) :
    Except Failure (Except String Document) × Server :=
  let asked := { server with calls := server.calls + 1 }
  match env.worker server.calls with
  | .unstarted error => (.error ⟨.internalError, s!"cannot start tool worker: {error}"⟩, asked)
  | .late =>
    (.error ⟨.requestTimeout, s!"tool `{tool.name}` exceeded the {server.callTimeoutMillis} ms " ++
      "request deadline"⟩, asked)
  | .finished => (.ok (tool.handler arguments), asked)

def callTool (server : Server) (params : Value) : Except Failure Value × Server :=
  match server.callTarget params with
  | .error failure => (.error failure, server)
  | .ok (tool, arguments) =>
    let (outcome, server) := server.runWithTimeout env tool arguments
    (outcome.map callResult, server)

/-- What a method answers. -/
def route (server : Server) (method : String) (params : Value) : Except Failure Value × Server :=
  match method with
  | "initialize" => server.initialize_ env params
  | "ping" => (.ok (.object []), server)
  | "tools/list" => (server.requireInitialized.map (fun _ => listPayload server.tools), server)
  | "tools/call" =>
    match server.requireInitialized with
    | .error failure => (.error failure, server)
    | .ok () => server.callTool env params
  | other => (.error ⟨.methodNotFound, s!"unknown method `{other}`"⟩, server)

/-- Route one message; a notification gets no response. -/
def handleMessage (server : Server) (message : Message) : Option Value × Server :=
  match message.id with
  | none => (none, server)
  | some id =>
    match server.route env message.method message.params with
    | (.ok result, server) => (some (success id result), server)
    | (.error failure, server) => (some (error (some id) failure.code failure.message), server)

/-- A document with a method and without an id. -/
def isNotification (document : Value) : Bool :=
  document.asObject.any (fun fields =>
    (fields.lookup "id").isNone && ((fields.lookup "method").bind Value.asStr).isSome)

/-- Handle one raw frame. -/
def handleFrame (server : Server) (frame : List UInt8) : Option Value × Server :=
  match env.fromSlice frame with
  | .error text => (some (error none .parseError s!"frame is not valid JSON: {text}"), server)
  | .ok ⟨document, _⟩ =>
    if jsonDepth document > maxJsonDepth then
      if isNotification document then (none, server)
      else (some (error none .invalidRequest
        s!"request nesting exceeds the maximum depth of {maxJsonDepth}"), server)
    else
      match parseMessage document with
      | .error failure =>
        if isNotification document then (none, server)
        else (some (error failure.id failure.code failure.message), server)
      | .ok message => server.handleMessage env message

/-- The line of a response. -/
def encodeFrame (server : Server) (response : Value) : List Char :=
  let line := redactWith response.print server.secrets
  if bytes line > maxResponseBytes then
    (error (some ((get response "id").getD .null)) .internalError
      s!"response exceeds {maxResponseBytes} bytes").print
  else line

end Server

end Abbey.Host
