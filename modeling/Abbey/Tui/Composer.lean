import Abbey.Lib.Offsets
import Abbey.Lib.Replace
import Abbey.Run.Contract

/-!
# The prompt composer

`src/tui/composer.rs`: a multiline prompt and a cursor that counts bytes.  The
source slices the prompt at the cursor, so an operation is partial: it has no
value where the source panics.
-/

namespace Abbey.Tui

open Abbey.Lib
open Abbey.Run (isWhitespace)

structure Composer where
  text : List Char
  cursor : Nat

/-- What an operation answers. -/
inductive Answer where
  | done
  | taken (text : List Char)
  | moved (ok : Bool)

/-- `s.replace("\r\n", "\n").replace('\r', "\n")`. -/
def normalize (s : List Char) : List Char :=
  replace ['\r'] ['\n'] (replace ['\r', '\n'] ['\n'] s)

namespace Composer

def fresh : Composer := ⟨[], 0⟩

def set (text : List Char) : Composer := ⟨text, bytes text⟩

def take (c : Composer) : Composer × List Char := (⟨[], 0⟩, c.text)

def insertChar (c : Composer) (added : Char) : Option Composer := do
  let text ← insertAt c.text c.cursor [added]
  some ⟨text, c.cursor + added.utf8Size⟩

def insertStr (c : Composer) (s : List Char) : Option Composer := do
  let added := normalize s
  let text ← insertAt c.text c.cursor added
  some ⟨text, c.cursor + bytes added⟩

def newline (c : Composer) : Option Composer := c.insertChar '\n'

def prevBoundary (c : Composer) (i : Nat) : Option Nat := do
  let (before, _) ← splitAt c.text i
  some ((charIndices before).getLast?.elim 0 Prod.fst)

def nextBoundary (c : Composer) (i : Nat) : Option Nat := do
  let (_, after) ← splitAt c.text i
  some (after.head?.elim i (fun next => i + next.utf8Size))

def backspace (c : Composer) : Option Composer :=
  if 0 < c.cursor then do
    let p ← c.prevBoundary c.cursor
    let text ← removeRange c.text p c.cursor
    some ⟨text, p⟩
  else some c

def delete (c : Composer) : Option Composer :=
  if c.cursor < bytes c.text then do
    let n ← c.nextBoundary c.cursor
    let text ← removeRange c.text c.cursor n
    some { c with text := text }
  else some c

def left (c : Composer) : Option Composer := do
  some { c with cursor := ← c.prevBoundary c.cursor }

def right (c : Composer) : Option Composer := do
  some { c with cursor := ← c.nextBoundary c.cursor }

/-- The offset after the blank that a word follows. -/
def afterBlank (trimmed : List Char) : Option Nat → Option Nat
  | none => some 0
  | some i => do
    let (_, rest) ← splitAt trimmed i
    some (i + rest.head?.elim 1 Char.utf8Size)

def wordLeft (c : Composer) : Option Composer := do
  let (before, _) ← splitAt c.text c.cursor
  let trimmed := before.rdropWhile isWhitespace
  some { c with cursor := ← afterBlank trimmed (rfind isWhitespace trimmed) }

def wordRight (c : Composer) : Option Composer := do
  let (_, after) ← splitAt c.text c.cursor
  let skipWs := bytes after - bytes (after.dropWhile isWhitespace)
  let (_, rest) ← splitAt after skipWs
  let word := (find isWhitespace rest).getD (bytes rest)
  some { c with cursor := c.cursor + (skipWs + word) }

def lineBounds (c : Composer) : Option (Nat × Nat) := do
  let (before, after) ← splitAt c.text c.cursor
  let start := (rfind (· = '\n') before).elim 0 (· + 1)
  let stop := (find (· = '\n') after).elim (bytes c.text) (c.cursor + ·)
  some (start, stop)

def lineStart (c : Composer) : Option Composer := do
  let (start, _) ← c.lineBounds
  some { c with cursor := start }

def lineEnd (c : Composer) : Option Composer := do
  let (_, stop) ← c.lineBounds
  some { c with cursor := stop }

def killLineBefore (c : Composer) : Option Composer := do
  let (start, _) ← c.lineBounds
  let text ← removeRange c.text start c.cursor
  some ⟨text, start⟩

def killWordBefore (c : Composer) : Option Composer := do
  let moved ← c.wordLeft
  let text ← removeRange moved.text moved.cursor c.cursor
  some { moved with text := text }

def cursorRowCol (c : Composer) : Option (Nat × Nat) := do
  let (before, _) ← splitAt c.text c.cursor
  some (before.count '\n', ((before.splitOn '\n').getLast?.getD []).length)

/-- The loop of `move_to_row`, at line `i`. -/
def rowOffset (row col i offset : Nat) : List (List Char) → Option Nat
  | [] => none
  | line :: lines =>
    if i = row then some (offset + offsetOf line col)
    else rowOffset row col (i + 1) (offset + (bytes line + 1)) lines

def moveToRow (c : Composer) (row col : Nat) : Composer :=
  (rowOffset row col 0 0 (c.text.splitOn '\n')).elim c (fun cursor => { c with cursor := cursor })

def up (c : Composer) : Option (Composer × Bool) := do
  let (row, col) ← c.cursorRowCol
  if row = 0 then some (c, false) else some (c.moveToRow (row - 1) col, true)

def down (c : Composer) : Option (Composer × Bool) := do
  let (row, col) ← c.cursorRowCol
  if (c.text.splitOn '\n').length ≤ row + 1 then some (c, false)
  else some (c.moveToRow (row + 1) col, true)

end Composer

/-! ## Runs -/

inductive Op where
  | set (text : List Char)
  | take
  | insertChar (added : Char)
  | insertStr (s : List Char)
  | newline
  | backspace
  | delete
  | left
  | right
  | wordLeft
  | wordRight
  | lineStart
  | lineEnd
  | killLineBefore
  | killWordBefore
  | up
  | down

/-- An operation that answers nothing. -/
def quiet (c : Option Composer) : Option (Composer × Answer) := c.map (·, .done)

namespace Composer

def step (c : Composer) : Op → Option (Composer × Answer)
  | .set text => some (set text, .done)
  | .take => some (c.take.1, .taken c.take.2)
  | .insertChar added => quiet (c.insertChar added)
  | .insertStr s => quiet (c.insertStr s)
  | .newline => quiet c.newline
  | .backspace => quiet c.backspace
  | .delete => quiet c.delete
  | .left => quiet c.left
  | .right => quiet c.right
  | .wordLeft => quiet c.wordLeft
  | .wordRight => quiet c.wordRight
  | .lineStart => quiet c.lineStart
  | .lineEnd => quiet c.lineEnd
  | .killLineBefore => quiet c.killLineBefore
  | .killWordBefore => quiet c.killWordBefore
  | .up => c.up.map (fun (c', ok) => (c', .moved ok))
  | .down => c.down.map (fun (c', ok) => (c', .moved ok))

def run (c : Composer) : List Op → Option (Composer × List Answer)
  | [] => some (c, [])
  | op :: ops => do
    let (c', answer) ← c.step op
    let (c'', answers) ← run c' ops
    some (c'', answer :: answers)

end Composer

end Abbey.Tui
