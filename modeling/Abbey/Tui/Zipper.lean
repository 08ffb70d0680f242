import Abbey.Tui.Composer

/-!
# The composer as a text zipper

What the composer is for: the characters before the cursor and those after it.
No byte offset occurs here.  `composer` is the composer of a zipper, and each
operation of the composer is the operation of the zipper (`step_composer`).

A text before the cursor is some whole lines and the head of one
(`whole_lines`); the operations that look for a line are read off that form.
-/

namespace Abbey.Tui

open Abbey.Lib List
open Abbey.Run (isWhitespace)

structure Zipper where
  before : List Char
  after : List Char

def notBlank (c : Char) : Bool := !isWhitespace c

def notEnd (c : Char) : Bool := c ≠ '\n'

namespace Zipper

def text (z : Zipper) : List Char := z.before ++ z.after

/-- The line of the cursor. -/
def row (z : Zipper) : Nat := z.before.count '\n'

def col (z : Zipper) : Nat := (z.before.rtakeWhile notEnd).length

/-- What stands before the word before the cursor. -/
def beforeWord (z : Zipper) : List Char :=
  (z.before.rdropWhile isWhitespace).rdropWhile notBlank

/-- What stands before the line of the cursor. -/
def beforeLine (z : Zipper) : List Char := z.before.rdropWhile notEnd

/-- The cursor after `kept`, of the characters before it. -/
def backTo (z : Zipper) (kept : List Char) : Zipper :=
  ⟨kept, z.before.drop kept.length ++ z.after⟩

/-- The cursor after `passed`, of the characters after it. -/
def past (z : Zipper) (passed : List Char) : Zipper :=
  ⟨z.before ++ passed, z.after.drop passed.length⟩

def up (z : Zipper) : Option Zipper :=
  if z.beforeLine = [] then none
  else
    let upper := z.beforeLine.dropLast
    let line := upper.rtakeWhile notEnd
    some (z.backTo (upper.rdropWhile notEnd ++ line.take z.col))

def down (z : Zipper) : Option Zipper :=
  match z.after.dropWhile notEnd with
  | [] => none
  | _ :: below =>
    some (z.past (z.after.takeWhile notEnd ++ '\n' :: (below.takeWhile notEnd).take z.col))

def moved (z : Zipper) (z' : Option Zipper) : Zipper × Answer := (z'.getD z, .moved z'.isSome)

def step (z : Zipper) : Op → Zipper × Answer
  | .set text => (⟨text, []⟩, .done)
  | .take => (⟨[], []⟩, .taken z.text)
  | .insertChar added => (⟨z.before ++ [added], z.after⟩, .done)
  | .insertStr s => (⟨z.before ++ normalize s, z.after⟩, .done)
  | .newline => (⟨z.before ++ ['\n'], z.after⟩, .done)
  | .backspace => (⟨z.before.dropLast, z.after⟩, .done)
  | .delete => (⟨z.before, z.after.tail⟩, .done)
  | .left => (z.backTo z.before.dropLast, .done)
  | .right => (z.past (z.after.take 1), .done)
  | .wordLeft => (z.backTo z.beforeWord, .done)
  | .wordRight =>
    let blank := z.after.takeWhile isWhitespace
    (z.past (blank ++ (z.after.dropWhile isWhitespace).takeWhile notBlank), .done)
  | .lineStart => (z.backTo z.beforeLine, .done)
  | .lineEnd => (z.past (z.after.takeWhile notEnd), .done)
  | .killLineBefore => (⟨z.beforeLine, z.after⟩, .done)
  | .killWordBefore => (⟨z.beforeWord, z.after⟩, .done)
  | .up => z.moved z.up
  | .down => z.moved z.down

def run (z : Zipper) : List Op → Zipper × List Answer
  | [] => (z, [])
  | op :: ops =>
    let (z', answer) := z.step op
    let (z'', answers) := run z' ops
    (z'', answer :: answers)

end Zipper

/-- The composer of a zipper: its cursor is the boundary between the two texts. -/
def Zipper.composer (z : Zipper) : Composer := ⟨z.before ++ z.after, bytes z.before⟩

/-! ## Divisions -/

section Divisions

variable {z : Zipper} {kept span passed rest : List Char}

theorem backTo_append (h : z.before = kept ++ span) : z.backTo kept = ⟨kept, span ++ z.after⟩ := by
  rw [Zipper.backTo, h, drop_left]

theorem past_append (h : z.after = passed ++ rest) :
    z.past passed = ⟨z.before ++ passed, rest⟩ := by
  rw [Zipper.past, h, drop_left]

theorem composer_backTo (h : z.before = kept ++ span) :
    (z.backTo kept).composer = ⟨z.before ++ z.after, bytes kept⟩ := by
  rw [backTo_append h, Zipper.composer, h, append_assoc]

theorem composer_past (h : z.after = passed ++ rest) :
    (z.past passed).composer = ⟨z.before ++ z.after, bytes z.before + bytes passed⟩ := by
  rw [past_append h, Zipper.composer, h, append_assoc, bytes_append]

/-- The span between the kept characters and the cursor is removed. -/
theorem removeRange_composer (h : z.before = kept ++ span) :
    removeRange (z.before ++ z.after) (bytes kept) (bytes z.before) = some (kept ++ z.after) := by
  rw [h, append_assoc, removeRange_bytes]

theorem beforeWord_append (z : Zipper) :
    z.before = z.beforeWord ++ ((z.before.rdropWhile isWhitespace).rtakeWhile notBlank ++
      z.before.rtakeWhile isWhitespace) := by
  rw [Zipper.beforeWord, ← append_assoc, rdropWhile_append_rtakeWhile,
    rdropWhile_append_rtakeWhile]

theorem beforeLine_append (z : Zipper) : z.before = z.beforeLine ++ z.before.rtakeWhile notEnd :=
  rdropWhile_append_rtakeWhile.symm

end Divisions

/-! ## Lines -/

theorem notEnd_of_notMem {cs : List Char} (h : '\n' ∉ cs) : ∀ c ∈ cs, notEnd c := by
  intro c hc
  simp only [notEnd, decide_eq_true_eq]
  rintro rfl
  exact h hc

section Lines

variable {ls : List (List Char)} {head : List Char}

/-- The line of the cursor is what stands after the whole lines. -/
theorem rtakeWhile_unlines (hhead : '\n' ∉ head) : (unlines ls ++ head).rtakeWhile notEnd = head ∧
      (unlines ls ++ head).rdropWhile notEnd = unlines ls := by
  rcases eq_nil_or_concat ls with rfl | ⟨ls, line, rfl⟩
  · have hall := notEnd_of_notMem hhead
    exact ⟨List.rtakeWhile_eq_self_iff.mpr hall, rdropWhile_eq_nil_iff.mpr hall⟩
  · rw [concat_eq_append]
    have hshape : unlines (ls ++ [line]) ++ head = (unlines ls ++ line) ++ '\n' :: head := by
      simp [unlines]
    have hend : unlines (ls ++ [line]) = unlines ls ++ line ++ ['\n'] := by simp [unlines]
    rw [hshape, hend]
    exact rtakeWhile_last _ (by decide) (notEnd_of_notMem hhead)

end Lines

/-- The loop finds the line at its row. -/
theorem rowOffset_lines (row col i offset : Nat) (ls more : List (List Char)) (line : List Char)
    (hrow : row = i + ls.length) :
    Composer.rowOffset row col i offset (ls ++ line :: more) =
      some (offset + bytes (unlines ls) + bytes (line.take col)) := by
  induction ls generalizing i offset with
  | nil =>
    rw [nil_append, Composer.rowOffset, if_pos (by simp [hrow]), offsetOf_eq]
    rfl
  | cons first ls ih =>
    rw [length_cons] at hrow
    have hbytes : bytes (unlines (first :: ls)) = bytes first + 1 + bytes (unlines ls) := by
      simp only [unlines, flatMap_cons, bytes_append, bytes_cons, bytes_nil]
      rw [show '\n'.utf8Size = 1 from rfl]
    rw [cons_append, Composer.rowOffset, if_neg (by omega),
      ih (i + 1) (offset + (bytes first + 1)) (by omega), hbytes]
    congr 1
    omega

end Abbey.Tui
