import Abbey.Host.Rpc

/-!
# Safe tools

The descriptor of a tool and the shape of its result, which carries the indented
text of the structured answer.
-/

namespace Abbey.Host

open Abbey.Lib

/-- The only effect a tool can have. -/
inductive EffectClass where
  | readOnly
  deriving DecidableEq

/-- One registered tool. -/
structure SafeTool where
  name : String
  title : String
  description : String
  effect : EffectClass
  schema : Document
  handler : Value → Except String Document

def SafeTool.descriptor (tool : SafeTool) : Value :=
  .object [
    ("annotations", .object [
      ("destructiveHint", .bool false),
      ("idempotentHint", .bool true),
      ("openWorldHint", .bool false),
      ("readOnlyHint", .bool (tool.effect = .readOnly))]),
    ("description", .string tool.description),
    ("inputSchema", tool.schema.val),
    ("name", .string tool.name),
    ("title", .string tool.title)]

def listPayload (tools : List SafeTool) : Value :=
  .object [("tools", .array (tools.map SafeTool.descriptor))]

/-! ## Indented text -/

/-- A line break and the indentation of a level. -/
def newline (level : Nat) : List Char := '\n' :: List.replicate (2 * level) ' '

mutual

/-- The text of a value with an element a line. -/
def pretty (level : Nat) : Value → List Char
  | .array [] => ['[', ']']
  | .array items => '[' :: prettyItems (level + 1) items ++ newline level ++ [']']
  | .object [] => ['\x7b', '\x7d']
  | .object fields => '\x7b' :: prettyFields (level + 1) fields ++ newline level ++ ['\x7d']
  | v => v.print

def prettyItems (level : Nat) : List Value → List Char
  | [] => []
  | [v] => newline level ++ pretty level v
  | v :: vs => newline level ++ pretty level v ++ ',' :: prettyItems level vs

def prettyFields (level : Nat) : List (String × Value) → List Char
  | [] => []
  | [(key, v)] => newline level ++ Value.printString key ++ ':' :: ' ' :: pretty level v
  | (key, v) :: fields =>
    newline level ++ Value.printString key ++ ':' :: ' ' :: pretty level v ++
      ',' :: prettyFields level fields

end

example : pretty 0 (.object [("a", .array [.null, .bool true]), ("b", .array [])]) =
    "\x7b\n  \"a\": [\n    null,\n    true\n  ],\n  \"b\": []\n\x7d".toList := by
  decide +kernel

def textContent (text : String) : Value :=
  .array [.object [("text", .string text), ("type", .string "text")]]

/-- The outcome of a handler as a result. -/
def callResult : Except String Document → Value
  | .ok structured =>
    .object [
      ("content", textContent (String.ofList (pretty 0 structured.val))),
      ("isError", .bool false),
      ("structuredContent", structured.val)]
  | .error message => .object [("content", textContent message), ("isError", .bool true)]

end Abbey.Host
