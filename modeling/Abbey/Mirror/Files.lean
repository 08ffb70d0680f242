import Abbey.Conversation.Ledger

/-!
# The compatibility mirrors

`src/state.rs` and `src/state/conversation/private_fs.rs`: the files that
repeat the selected conversation for older readers.  A state directory has
`chat-id`, `chat-id.export`, `history.log` and one file in `by-cwd` for
each working directory.  The files of a state directory are a table from
the mirror to its bytes; that their paths are distinct and inside the
directory is what `validate_layout` checks.

Owners, modes and symbolic links are not modelled.
-/

namespace Abbey.Mirror

open Abbey.Lib
open Abbey.Conversation (Path trim utf8 lowerHex)
open Abbey.Run (StoreError isControl)

abbrev Bytes := List UInt8

/-- A mirror of the state directory. -/
inductive MirrorPath where
  | cwd (name : String)
  | global
  | exported
  | history
  deriving DecidableEq

variable {path : MirrorPath}

structure MirrorRow where
  path : MirrorPath
  bytes : Bytes
  deriving DecidableEq

abbrev Files := Table MirrorRow.path

inductive ChatError where
  | bail (message : String)
  | store (context : String) (error : StoreError)
  deriving DecidableEq

/-! ## Names -/

/-- The second byte that may follow a first byte of a sequence of three or
four bytes. -/
def isSecondByte (first second : UInt8) : Bool :=
  if first = 0xe0 then 0xa0 ≤ second && second ≤ 0xbf
  else if first = 0xed then 0x80 ≤ second && second ≤ 0x9f
  else if first = 0xf0 then 0x90 ≤ second && second ≤ 0xbf
  else if first = 0xf4 then 0x80 ≤ second && second ≤ 0x8f
  else 0x80 ≤ second && second ≤ 0xbf

def isContinuation (byte : UInt8) : Bool := 0x80 ≤ byte && byte ≤ 0xbf

/-- The bits that the bytes of a sequence carry. -/
def decodeBits (first : Nat) (rest : List UInt8) : Char :=
  Char.ofNat (rest.foldl (fun n byte => n * 64 + (byte.toNat - 0x80)) first)

/-- `String::from_utf8_lossy`: one replacement character for each longest
start of a sequence that does not go on. -/
def fromUtf8Lossy : List UInt8 → List Char
  | [] => []
  | a :: rest =>
    if a < 0x80 then Char.ofNat a.toNat :: fromUtf8Lossy rest
    else if 0xc2 ≤ a && a ≤ 0xdf then
      match rest with
      | b :: rest' =>
        if isContinuation b then decodeBits (a.toNat - 0xc0) [b] :: fromUtf8Lossy rest'
        else '\uFFFD' :: fromUtf8Lossy (b :: rest')
      | [] => ['\uFFFD']
    else if 0xe0 ≤ a && a ≤ 0xef then
      match rest with
      | b :: rest' =>
        if isSecondByte a b then
          match rest' with
          | c :: rest'' =>
            if isContinuation c then decodeBits (a.toNat - 0xe0) [b, c] :: fromUtf8Lossy rest''
            else '\uFFFD' :: fromUtf8Lossy (c :: rest'')
          | [] => ['\uFFFD']
        else '\uFFFD' :: fromUtf8Lossy (b :: rest')
      | [] => ['\uFFFD']
    else if 0xf0 ≤ a && a ≤ 0xf4 then
      match rest with
      | b :: rest' =>
        if isSecondByte a b then
          match rest' with
          | c :: rest'' =>
            if isContinuation c then
              match rest'' with
              | d :: rest''' =>
                if isContinuation d then
                  decodeBits (a.toNat - 0xf0) [b, c, d] :: fromUtf8Lossy rest'''
                else '\uFFFD' :: fromUtf8Lossy (d :: rest''')
              | [] => ['\uFFFD']
            else '\uFFFD' :: fromUtf8Lossy (c :: rest'')
          | [] => ['\uFFFD']
        else '\uFFFD' :: fromUtf8Lossy (b :: rest')
      | [] => ['\uFFFD']
    else '\uFFFD' :: fromUtf8Lossy rest

/-- `Path::to_string_lossy`. -/
def toStringLossy (path : Path) : String := String.ofList (fromUtf8Lossy path)

/-- The characters that a mirror name keeps. -/
def isKeyChar (c : Char) : Bool := c.isAlphanum || c = '.' || c = '-' || c = '_'

/-- `cwd_key`: the name of the mirror of a working directory. -/
def cwdKey (cwd : Path) : String :=
  String.ofList (((fromUtf8Lossy cwd).map (fun c => if isKeyChar c then c else '_')).take 180)

example : cwdKey (utf8 "/work/a b/\u00e9.rs") = "_work_a_b__.rs" := by decide +kernel

/-! ## Reading and writing -/

def maxIdFileBytes : Nat := 4 * 1024

def maxHistoryBytes : Nat := 8 * 1024 * 1024

def contents (files : Files) (path : MirrorPath) : Option Bytes :=
  (files.find path).map MirrorRow.bytes

/-- `read_optional_bounded`. -/
def readOptionalBounded (files : Files) (path : MirrorPath) (limit : Nat) :
    Except ChatError (Option Bytes) := do
  let bytes := contents files path
  ensure (bytes.all (fun bytes => bytes.length ≤ limit))
    (.bail "conversation mirror exceeds its size bound")
  .ok bytes

/-- `str::from_utf8`. -/
def fromUtf8 (bytes : Bytes) : Option String := String.fromUTF8? ⟨bytes.toArray⟩

/-- The first of the `str::lines` of a text. -/
def firstLine (text : String) : Option String :=
  match text.toList with
  | [] => none
  | chars =>
    let line := chars.takeWhile (fun c => c ≠ '\n')
    some (String.ofList (if line.getLast? = some '\r' ∧ line.length < chars.length
      then line.dropLast else line))

/-- `read_first_line_bounded`. -/
def readFirstLineBounded (files : Files) (path : MirrorPath) :
    Except ChatError (Option String) := do
  match ← readOptionalBounded files path maxIdFileBytes with
  | none => .ok none
  | some bytes => do
    let text ← required (fromUtf8 bytes) (.bail "conversation mirror is not UTF-8")
    .ok (((firstLine text).map trim).filter (fun line => !line.isEmpty))

/-- `atomic_replace`. -/
def atomicReplace (files : Files) (path : MirrorPath) (bytes : Bytes) :
    Except ChatError Files := do
  let _ ← readOptionalBounded files path (max bytes.length maxIdFileBytes)
  .ok (files.put ⟨path, bytes⟩)

/-- `remove_mirror`. -/
def removeMirror (files : Files) (path : MirrorPath) : Files :=
  files.delete (fun row => row.path = path)

/-- `posix_single_quote`. -/
def posixSingleQuote (value : String) : String :=
  String.ofList ('\'' :: (value.toList.flatMap
    (fun c => if c = '\'' then ['\'', '\\', '\'', '\''] else [c])) ++ ['\''])

/-- The bytes of one mirror after each kind of write. -/
theorem contents_put (files : Files) (path other : MirrorPath) (bytes : Bytes) :
    contents (files.put ⟨path, bytes⟩) other =
      if path = other then some bytes else contents files other := by
  unfold contents
  rw [Table.find_put]
  split_ifs
  · rfl
  · rfl

theorem contents_remove (files : Files) (path other : MirrorPath) :
    contents (removeMirror files path) other =
      if path = other then none else contents files other := by
  unfold contents removeMirror
  rw [Table.find_delete]
  cases hfind : files.find other with
  | none => simp
  | some row =>
    have hkey := Table.pk_of_find hfind
    by_cases heq : path = other
    · simp [hkey, heq]
    · simp [hkey, heq, Ne.symm heq]

theorem readOptionalBounded_eq_ok {bytes : Option Bytes} :
    readOptionalBounded files path limit = .ok bytes ↔
      bytes = contents files path ∧ ∀ content, contents files path = some content →
        content.length ≤ limit := by
  unfold readOptionalBounded
  simp only [bind_ok_iff, ensure_eq_ok, Option.all_eq_true, decide_eq_true_eq, Except.ok.injEq]
  constructor
  · rintro ⟨_, hbound, rfl⟩
    exact ⟨rfl, hbound⟩
  · rintro ⟨rfl, hbound⟩
    exact ⟨(), hbound, rfl⟩

theorem atomicReplace_eq_ok {bytes : Bytes} :
    atomicReplace files path bytes = .ok files' ↔ (∀ content, contents files path = some content →
        content.length ≤ max bytes.length maxIdFileBytes) ∧ files' = files.put ⟨path, bytes⟩ := by
  unfold atomicReplace
  simp only [bind_ok_iff, readOptionalBounded_eq_ok, Except.ok.injEq]
  constructor
  · rintro ⟨_, ⟨_, hbound⟩, rfl⟩
    exact ⟨hbound, rfl⟩
  · rintro ⟨hbound, rfl⟩
    exact ⟨contents files path, ⟨rfl, hbound⟩, rfl⟩

end Abbey.Mirror
