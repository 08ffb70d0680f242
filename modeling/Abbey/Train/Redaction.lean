import Abbey.Run.Contract
import Abbey.Lib.Text

/-!
# Redaction of training text

`src/train/redaction.rs`.  A text is passed over twice from the left, first for
secrets and then for absolute paths.  A place in it is what stands before, last
character first, and the rest; a span is the number of its characters.
-/

namespace Abbey.Train

open Abbey.Lib
open Abbey.Run (isWhitespace)

/-- `REDACTED`. -/
def redacted : List Char := "[redacted]".toList

def pathPlaceholder : List Char := "[path]".toList

def minSecretTail : Nat := 8

structure Redaction where
  text : String
  changed : Bool
  deriving DecidableEq

/-! ## Characters -/

def isTokenChar (c : Char) : Bool :=
  c.isAlphanum || c = '-' || c = '_' || c = '.' || c = '~' || c = '+' || c = '/'

def isNameChar (c : Char) : Bool := c.isAlphanum || c = '_'

def isSecretBoundary (c : Char) : Bool := !(c.isAlphanum || c = '-' || c = '_')

def isPathBoundary (c : Char) : Bool :=
  isWhitespace c || c ∈ ['(', '[', '\x7b', '=', ',', '"', '\'']

def isPathTerminator (c : Char) : Bool :=
  isWhitespace c ||
    c ∈ [',', ';', ')', ']', '\x7d', '(', '"', '\'', '\x60', '<', '>', '|']

/-- Where an unquoted value ends. -/
def isValueEnd (c : Char) : Bool :=
  isWhitespace c || c ∈ [',', ';', ')', ']', '\x7d', '"', '\'', '\x60', '<', '>']

/-- The number of characters before the first occurrence of a pattern. -/
def find (pat : List Char) : List Char → Option Nat
  | [] => if pat = [] then some 0 else none
  | c :: cs => if pat <+: c :: cs then some 0 else (find pat cs).map (· + 1)

/-! ## Secrets -/

def beginMark : List Char := "-----BEGIN ".toList
def keyMark : List Char := "PRIVATE KEY-----".toList
def endMark : List Char := "-----END ".toList

/-- A PEM block: its key mark stands in the first 512 bytes, and without a
matching end it goes on to the end of the text. -/
def pemBlockEnd (rest : List Char) : Option Nat :=
  if beginMark <+: rest then
    match find keyMark rest with
    | none => none
    | some marker =>
      if bytes (rest.take (marker + keyMark.length)) ≤ 512 then
        let after := rest.drop (marker + keyMark.length)
        match find endMark after with
        | none => some rest.length
        | some toEnd =>
          match find keyMark (after.drop toEnd) with
          | none => some rest.length
          | some close => some (marker + keyMark.length + toEnd + close + keyMark.length)
      else none
  else none

/-- Nothing or a boundary stands before. -/
def atBoundary (before : List Char) : Bool := before.head?.all isSecretBoundary

def bearerEnd (before rest : List Char) : Option Nat :=
  if (rest.take 6).map Char.toLower = "bearer".toList ∧ atBoundary before then
    let tail := rest.drop 6
    let spaces := tail.takeWhile (fun c => c = ' ' || c = '\t')
    let token := (tail.drop spaces.length).takeWhile (fun c => isTokenChar c || c = '=')
    if spaces = [] ∨ token.length < minSecretTail then none
    else some (6 + spaces.length + token.length)
  else none

def secretPrefixes : List (List Char) := ["sk-".toList, "ghp_".toList, "AKIA".toList]

def prefixedSecretEnd (before rest : List Char) : Option Nat :=
  secretPrefixes.findSome? (fun head =>
    if head <+: rest ∧ atBoundary before then
      let tail := (rest.drop head.length).takeWhile isTokenChar
      if tail.length < minSecretTail then none else some (head.length + tail.length)
    else none)

/-- An assignment: the characters of its name before the place, where its value
starts and ends after the place, and its quote. -/
structure AssignmentSpan where
  nameLength : Nat
  valueStart : Nat
  valueEnd : Nat
  quote : Option Char
  deriving DecidableEq

def keywords : List (List Char) :=
  ["key".toList, "token".toList, "password".toList, "secret".toList]

def isQuote (c : Char) : Bool := c = '"' || c = '\''

/-- The characters of a value and its quote: a quoted one ends with its quote. -/
def valueOf (value : List Char) : Nat × Option Char :=
  match value with
  | [] => (0, none)
  | c :: body =>
    if isQuote c then
      match find [c] body with
      | some close => (close + 2, some c)
      | none => (value.length, some c)
    else ((value.takeWhile (fun c => !isValueEnd c)).length, none)

def assignmentSpan (before rest : List Char) : Option AssignmentSpan :=
  match keywords.find? (fun word => word <+: rest.map Char.toLower) with
  | none => none
  | some keyword =>
    let tail := rest.drop keyword.length
    if ['='] <+: tail ∧ before.head?.all (fun c => !(c.isAlphanum || c = '-')) then
      let value := tail.drop 1
      let (length, quote) := valueOf value
      if ((value.take length).filter (fun c => !isQuote c)).length < minSecretTail then none
      else
        let start := keyword.length + 1
        some ⟨(before.takeWhile isNameChar).length, start, start + length, quote⟩
    else none

/-- What is found at a place: how much of the text so far it takes back, what it
writes, and the characters it passes over. -/
structure Found where
  takesBack : Nat
  text : List Char
  length : Nat
  deriving DecidableEq

/-- An assignment keeps its name and its quotes. -/
def AssignmentSpan.found (span : AssignmentSpan) (before rest : List Char) : Found :=
  ⟨span.nameLength, (before.take span.nameLength).reverse ++ rest.take span.valueStart ++
    span.quote.toList ++ redacted ++ span.quote.toList, span.valueEnd⟩

def secretAt (before rest : List Char) : Option Found :=
  match pemBlockEnd rest with
  | some length => some ⟨0, redacted, length⟩
  | none =>
    match bearerEnd before rest with
    | some length => some ⟨0, redacted, length⟩
    | none =>
      match prefixedSecretEnd before rest with
      | some length => some ⟨0, redacted, length⟩
      | none => (assignmentSpan before rest).map (fun span => span.found before rest)

/-! ## Paths -/

def startsDrive : List Char → Bool
  | letter :: ':' :: slash :: _ => letter.isAlpha && (slash = '\\' || slash = '/')
  | _ => false

/-- The characters of a path from where it must go on. -/
def pathRunEnd (start : Nat) (rest : List Char) : Nat :=
  start + ((rest.drop start).takeWhile (fun c => !isPathTerminator c)).length

def pathEnd (before rest : List Char) : Option Nat :=
  if before.head?.all isPathBoundary then
    if "//".toList <+: rest then none
    else if "/".toList <+: rest then
      if pathRunEnd 1 rest < 2 then none else some (pathRunEnd 1 rest)
    else if startsDrive rest then
      if pathRunEnd 3 rest < 3 then none else some (pathRunEnd 3 rest)
    else none
  else none

def pathAt (before rest : List Char) : Option Found :=
  (pathEnd before rest).map (fun length => ⟨0, pathPlaceholder, length⟩)

/-! ## Passes -/

/-- One pass from the left: `skip` characters still belong to what was found, and
`out` is the text so far, last character first. -/
def passFrom (recognise : List Char → List Char → Option Found) :
    Nat → List Char → List Char → List Char → List Char
  | _, _, out, [] => out.reverse
  | skip + 1, before, out, c :: rest => passFrom recognise skip (c :: before) out rest
  | 0, before, out, c :: rest =>
    match recognise before (c :: rest) with
    | some found =>
      passFrom recognise (found.length - 1) (c :: before)
        (found.text.reverse ++ out.drop found.takesBack) rest
    | none => passFrom recognise 0 (c :: before) (c :: out) rest

def redactSecrets (input : List Char) : List Char := passFrom secretAt 0 [] [] input

def redactPaths (input : List Char) : List Char := passFrom pathAt 0 [] [] input

def redact (input : String) : Redaction :=
  let text := String.ofList (redactPaths (redactSecrets input.toList))
  ⟨text, text ≠ input⟩

example : redact "see (/opt/data), api_key=abcdefghij and sk-abc" =
    ⟨"see ([path]), api_key=[redacted] and sk-abc", true⟩ := by
  decide +kernel

end Abbey.Train
