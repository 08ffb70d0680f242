import Mathlib.Data.List.DropRight
import Mathlib.Data.String.Basic
import Abbey.Lib.Json
import Abbey.Run.Contract

/-!
# The WDBX store of the bot

`extensions/bot/src/wdbx.rs`, the store without the memory layer over it.
A file is a header and one record a line.  `parse` reads the records of two
kinds and keeps every other line as it is, `tryRender` writes them all.

A key/value map is the ordered map of the standard library, as in the
source.  The parser of JSON, the numbers `f32` and the text of a number come
from the crate `serde_json` and the language; a number of the file is any
JSON number, which `asF32` rounds.  Errors of the file system are not
modelled.
-/

namespace Abbey.Recall

open Abbey.Lib
open Abbey.Run (isWhitespace)

variable {F : Type}

/-- `serde_json::from_str`, `as_f64() as f32`, `f32::is_finite` and the text
of a finite number. -/
structure Crates (F : Type) where
  parse : List Char → Except String Value
  asF32 : Number → F
  isFinite : F → Bool
  f32Text : F → String

abbrev BTreeMap := Std.ExtTreeMap String String

def header : List Char := "# ABI-WDBX v1".toList

def checksumPrefix : List Char := "# checksum:".toList

inductive WdbxError where
  | missingHeader (found : String)
  | malformedLine (line : Nat) (reason : String)
  deriving DecidableEq

inductive WdbxEncodeError where
  | unencodable

def u64Max : Nat := 2 ^ 64 - 1

structure WdbxStore (F : Type) where
  kv : BTreeMap
  vectors : List (Nat × List F)
  nextId : Nat
  unknown : List (List Char)
  deriving DecidableEq

namespace WdbxStore

def new : WdbxStore F := ⟨∅, [], 1, []⟩

/-! ## Reading -/

/-- `Value::as_u64`. -/
def asU64 : Value → Option Nat
  | .number (.posInt n) => if n ≤ u64Max then some n else none
  | _ => none

def asArray : Value → Option (List Value)
  | .array items => some items
  | _ => none

def stringField (object : Value) (field : String) : Except String String :=
  required (object.index field).asStr s!"missing string field `{field}`"

def element (crates : Crates F) : Value → Except String F
  | .number n => .ok (crates.asF32 n)
  | item => .error s!"vector element {String.ofList item.print} is not a number"

/-- `parse_record`, with the reason of a malformed line. -/
def parseRecord (crates : Crates F) (store : WdbxStore F) (line : List Char) :
    Except String (WdbxStore F) := do
  let value ← mapErr (fun e => s!"not JSON ({e})") (crates.parse line)
  let _ ← required value.asObject "not a JSON object"
  let typeName ← required (value.index "type").asStr "missing string field `type`"
  if typeName = "kv" then do
    let key ← stringField value "key"
    let text ← stringField value "value"
    .ok { store with kv := store.kv.insert key text }
  else if typeName = "vector" then do
    let id ← required (asU64 (value.index "id")) "vector `id` is not a non-negative integer"
    let items ← required (asArray (value.index "values")) "vector `values` is not an array"
    let values ← items.mapM (element crates)
    ensure (store.vectors.all (fun row => row.1 ≠ id)) s!"duplicate vector id {id}"
    .ok { store with
      vectors := store.vectors ++ [(id, values)]
      nextId := max store.nextId (min (id + 1) u64Max) }
  else .ok { store with unknown := store.unknown ++ [line] }

/-- `trim_end_matches('\r')`. -/
def trimEnd (line : List Char) : List Char := line.rdropWhile (fun c => c = '\r')

/-- One line of the body. -/
def parseLine (crates : Crates F) (store : WdbxStore F) (line : List Char) :
    Except String (WdbxStore F) :=
  if line.all isWhitespace then .ok store
  else if checksumPrefix.isPrefixOf line then .ok store
  else if line.head? = some '#' then .ok { store with unknown := store.unknown ++ [line] }
  else parseRecord crates store line

/-- The loop over the body, with the number of the next line. -/
def parseLines (crates : Crates F) : WdbxStore F → Nat → List (List Char) →
    Except WdbxError (WdbxStore F)
  | store, _, [] => .ok store
  | store, lineNo, raw :: rest => do
    let store ← mapErr (.malformedLine lineNo) (parseLine crates store (trimEnd raw))
    parseLines crates store (lineNo + 1) rest

def parse (crates : Crates F) (text : List Char) : Except WdbxError (WdbxStore F) := do
  let first := trimEnd ((lines text).head?.getD [])
  ensure (first = header) (.missingHeader (String.ofList first))
  parseLines crates .new 2 (lines text).tail

/-! ## Writing -/

/-- The text of `KvLine`. -/
def kvLine (key value : String) : List Char :=
  (Value.object [("type", .string "kv"), ("key", .string key), ("value", .string value)]).print

/-- The text of `VectorLine`. -/
def vectorLine (crates : Crates F) (id : Nat) (values : List F) : List Char :=
  (Value.object [("type", .string "vector"), ("id", .number (.posInt id)),
    ("values", .array (values.map (fun x => .number (.other (crates.f32Text x)))))]).print

def renderVector (crates : Crates F) (row : Nat × List F) : Except WdbxEncodeError (List Char) :=
  if row.2.all crates.isFinite then .ok (vectorLine crates row.1 row.2) else .error .unencodable

def tryRender (crates : Crates F) (store : WdbxStore F) : Except WdbxEncodeError (List Char) := do
  let vectors ← store.vectors.mapM (renderVector crates)
  .ok (unlines (header :: vectors ++ store.kv.toList.map (fun row => kvLine row.1 row.2) ++
    store.unknown))

/-! ## Edits -/

def putKv (store : WdbxStore F) (key value : String) : WdbxStore F :=
  { store with kv := store.kv.insert key value }

def getKv (store : WdbxStore F) (key : String) : Option String := store.kv[key]?

/-- The store after the removal and the old value. -/
def removeKv (store : WdbxStore F) (key : String) : WdbxStore F × Option String :=
  ({ store with kv := store.kv.erase key }, store.kv[key]?)

/-- The rows whose key starts with a text, in the order of their keys. -/
def kvWithPrefix (store : WdbxStore F) (start : String) : List (String × String) :=
  (store.kv.toList.dropWhile (fun row => decide (row.1 < start))).takeWhile
    (fun row => start.toList.isPrefixOf row.1.toList)

/-- The store after the insert and the new id. -/
def insertVector (store : WdbxStore F) (values : List F) : WdbxStore F × Nat :=
  ({ store with
    vectors := store.vectors ++ [(store.nextId, values)]
    nextId := min (store.nextId + 1) u64Max }, store.nextId)

/-- The store after the removal and whether the vector existed. -/
def removeVector (store : WdbxStore F) (id : Nat) : WdbxStore F × Bool :=
  let vectors := store.vectors.filter (fun row => row.1 ≠ id)
  ({ store with vectors }, vectors.length ≠ store.vectors.length)

end WdbxStore

end Abbey.Recall
