import Abbey.Lib.Text
import Mathlib.Data.List.DropRight
import Mathlib.Data.List.SplitOn

/-!
# Byte offsets in a text

A text is a list of characters, and an offset counts bytes.  An operation that
slices a text at an offset has no value where the offset is not a boundary
between two characters; in the source it panics there.

* `splitAt_bytes`: the offset of a boundary is the bytes before it.
* `find_first`, `rfind_last`: a search answers the offset of the match, stated at
  the match; `divides_first` and `divides_last` say when there is one.
-/

namespace Abbey.Lib

open List Option

variable {c : Char} {ls : List (List Char)} {cs ds : List Char}

/-- `str::split_at`. -/
def splitAt : List Char → Nat → Option (List Char × List Char)
  | cs, 0 => some ([], cs)
  | [], _ + 1 => none
  | c :: cs, n + 1 =>
    if c.utf8Size ≤ n + 1 then
      (splitAt cs (n + 1 - c.utf8Size)).map (fun (before, after) => (c :: before, after))
    else none

theorem splitAt_bytes (before after : List Char) :
    splitAt (before ++ after) (bytes before) = some (before, after) := by
  induction before with
  | nil => cases after <;> rfl
  | cons c before ih =>
    obtain ⟨n, hn⟩ := Nat.exists_eq_succ_of_ne_zero c.utf8Size_pos.ne'
    have hsize : bytes (c :: before) = (n + bytes before) + 1 := by rw [bytes_cons, hn]; omega
    have hrest : n + bytes before + 1 - c.utf8Size = bytes before := by omega
    rw [hsize, cons_append, splitAt, if_pos (by omega), hrest, ih]
    rfl

/-- `str::replace_range` of a range by nothing. -/
def removeRange (cs : List Char) (start stop : Nat) : Option (List Char) :=
  if stop < start then none else do
    let (before, _) ← splitAt cs start
    let (_, after) ← splitAt cs stop
    some (before ++ after)

theorem removeRange_bytes (before span after : List Char) :
    removeRange (before ++ (span ++ after)) (bytes before) (bytes (before ++ span)) =
      some (before ++ after) := by
  have hstop : splitAt (before ++ (span ++ after)) (bytes (before ++ span)) =
      some (before ++ span, after) := by
    rw [← append_assoc, splitAt_bytes]
  rw [removeRange, if_neg (by rw [bytes_append]; omega), splitAt_bytes, hstop]
  rfl

/-- `String::insert_str`. -/
def insertAt (cs : List Char) (offset : Nat) (added : List Char) : Option (List Char) := do
  let (before, after) ← splitAt cs offset
  some (before ++ added ++ after)

theorem insertAt_bytes (before after added : List Char) :
    insertAt (before ++ after) (bytes before) added = some (before ++ added ++ after) := by
  rw [insertAt, splitAt_bytes]
  rfl

/-! ## Characters with their offsets -/

def charIndicesFrom (offset : Nat) : List Char → List (Nat × Char)
  | [] => []
  | c :: cs => (offset, c) :: charIndicesFrom (offset + c.utf8Size) cs

/-- `str::char_indices`. -/
def charIndices (cs : List Char) : List (Nat × Char) := charIndicesFrom 0 cs

theorem charIndicesFrom_append (offset : Nat) (cs ds : List Char) :
    charIndicesFrom offset (cs ++ ds) =
      charIndicesFrom offset cs ++ charIndicesFrom (offset + bytes cs) ds := by
  induction cs generalizing offset with
  | nil => rfl
  | cons c cs ih => simp [charIndicesFrom, ih, Nat.add_assoc]

theorem charIndices_append_cons (cs : List Char) (c : Char) (ds : List Char) :
    charIndices (cs ++ c :: ds) =
      charIndices cs ++ (bytes cs, c) :: charIndicesFrom (bytes cs + c.utf8Size) ds := by
  rw [charIndices, charIndicesFrom_append, Nat.zero_add]
  rfl

theorem mem_charIndicesFrom (h : p ∈ charIndicesFrom offset cs) : p.2 ∈ cs := by
  induction cs generalizing offset with
  | nil => exact absurd h not_mem_nil
  | cons c cs ih =>
    rcases mem_cons.mp h with rfl | hrest
    · exact mem_cons_self
    · exact mem_cons_of_mem c (ih hrest)

/-- The offset of the character at a position, or the end of the text. -/
def offsetOf (cs : List Char) (position : Nat) : Nat :=
  ((charIndices cs)[position]?).elim (bytes cs) Prod.fst

theorem offsetOf_eq (cs : List Char) (position : Nat) :
    offsetOf cs position = bytes (cs.take position) := by
  have hfrom : ∀ (cs : List Char) (position offset : Nat),
      ((charIndicesFrom offset cs)[position]?).elim (offset + bytes cs) Prod.fst =
        offset + bytes (cs.take position) := by
    intro cs
    induction cs with
    | nil => simp [charIndicesFrom]
    | cons c cs ih =>
      intro position offset
      cases position with
      | zero => simp [charIndicesFrom]
      | succ position =>
        have hrest := ih position (offset + c.utf8Size)
        simpa [charIndicesFrom, Nat.add_assoc] using hrest
  simpa [offsetOf, charIndices] using hfrom cs position 0

/-! ## Searches -/

/-- `str::find` of a character. -/
def find (p : Char → Bool) (cs : List Char) : Option Nat :=
  ((charIndices cs).find? (fun entry => p entry.2)).map Prod.fst

/-- `str::rfind` of a character. -/
def rfind (p : Char → Bool) (cs : List Char) : Option Nat :=
  ((charIndices cs).reverse.find? (fun entry => p entry.2)).map Prod.fst

variable {p : Char → Bool}

theorem find_first (hcs : ∀ c ∈ cs, p c = false) (hc : p c) (ds : List Char) :
    find p (cs ++ c :: ds) = some (bytes cs) := by
  have hnone : (charIndices cs).find? (fun entry => p entry.2) = none := by
    rw [find?_eq_none]
    intro entry hentry
    simp [hcs _ (mem_charIndicesFrom hentry)]
  rw [find, charIndices_append_cons, find?_append, hnone, none_or,
    find?_cons_of_pos (by simpa using hc)]
  rfl

theorem find_none (hcs : ∀ c ∈ cs, p c = false) : find p cs = none := by
  rw [find, map_eq_none_iff, find?_eq_none]
  intro entry hentry
  simp [hcs _ (mem_charIndicesFrom hentry)]

theorem rfind_last (cs : List Char) (hc : p c) (hds : ∀ d ∈ ds, p d = false) :
    rfind p (cs ++ c :: ds) = some (bytes cs) := by
  have hnone : ((charIndicesFrom (bytes cs + c.utf8Size) ds).reverse.find?
      (fun entry => p entry.2)) = none := by
    rw [find?_eq_none]
    intro entry hentry
    simp [hds _ (mem_charIndicesFrom (mem_reverse.mp hentry))]
  rw [rfind, charIndices_append_cons, reverse_append, reverse_cons, append_assoc,
    find?_append, hnone, none_or, singleton_append,
    find?_cons_of_pos (by simpa using hc)]
  rfl

theorem rfind_none (hcs : ∀ c ∈ cs, p c = false) : rfind p cs = none := by
  rw [rfind, map_eq_none_iff, find?_eq_none]
  intro entry hentry
  simp [hcs _ (mem_charIndicesFrom (mem_reverse.mp hentry))]

/-- A text holds no match, or divides at the first one. -/
theorem divides_first (p : Char → Bool) (cs : List Char) : (∀ c ∈ cs, p c = false) ∨
      ∃ before c after, cs = before ++ c :: after ∧ (∀ b ∈ before, p b = false) ∧ p c := by
  induction cs with
  | nil => exact .inl (by simp)
  | cons d cs ih =>
    by_cases hd : p d
    · exact .inr ⟨[], d, cs, rfl, by simp, hd⟩
    rw [Bool.not_eq_true] at hd
    rcases ih with hnone | ⟨before, c, after, rfl, hbefore, hc⟩
    · exact .inl (by simpa [hd] using hnone)
    · exact .inr ⟨d :: before, c, after, rfl, by simpa [hd] using hbefore, hc⟩

/-- A text holds no match, or divides at the last one. -/
theorem divides_last (p : Char → Bool) (cs : List Char) : (∀ c ∈ cs, p c = false) ∨
      ∃ before c after, cs = before ++ c :: after ∧ (∀ a ∈ after, p a = false) ∧ p c := by
  rcases divides_first p cs.reverse with hnone | ⟨before, c, after, heq, hbefore, hc⟩
  · exact .inl (fun c hc => hnone c (mem_reverse.mpr hc))
  · refine .inr ⟨after.reverse, c, before.reverse, ?_, ?_, hc⟩
    · rw [← reverse_reverse cs, heq]
      simp
    · intro a ha
      exact hbefore a (mem_reverse.mp ha)

theorem takeWhile_first (hcs : ∀ c ∈ cs, p c) (hc : p c = false) (ds : List Char) :
    (cs ++ c :: ds).takeWhile p = cs ∧ (cs ++ c :: ds).dropWhile p = c :: ds := by
  constructor
  · rw [takeWhile_append_of_pos hcs, takeWhile_cons_of_neg (by simp [hc]), append_nil]
  · rw [dropWhile_append_of_pos hcs, dropWhile_cons_of_neg (by simp [hc])]

theorem rtakeWhile_last (cs : List Char) (hc : p c = false) (hds : ∀ d ∈ ds, p d) :
    (cs ++ c :: ds).rtakeWhile p = ds ∧ (cs ++ c :: ds).rdropWhile p = cs ++ [c] := by
  have hrev : (cs ++ c :: ds).reverse = ds.reverse ++ c :: cs.reverse := by simp
  obtain ⟨htake, hdrop⟩ := takeWhile_first (fun d hd => hds d (mem_reverse.mp hd)) hc cs.reverse
  constructor
  · rw [rtakeWhile, hrev, htake, reverse_reverse]
  · rw [rdropWhile, hrev, hdrop]
    simp

/-- `str::split_once` at a character. -/
def splitOnce (sep : Char) (cs : List Char) : Option (List Char × List Char) :=
  if sep ∈ cs then
    some (cs.takeWhile (fun c => c ≠ sep), (cs.dropWhile (fun c => c ≠ sep)).tail)
  else none

theorem splitOnce_eq_some {before after : List Char} :
    splitOnce sep cs = some (before, after) ↔ cs = before ++ sep :: after ∧ sep ∉ before := by
  have happend : ∀ {before : List Char}, sep ∉ before → ∀ after,
      splitOnce sep (before ++ sep :: after) = some (before, after) := by
    intro before hbefore after
    have hall : ∀ c ∈ before, decide (c ≠ sep) := by
      intro c hc
      exact decide_eq_true (fun h => hbefore (h ▸ hc))
    obtain ⟨htake, hdrop⟩ := takeWhile_first hall (decide_eq_false (not_not_intro rfl)) after
    rw [splitOnce, if_pos (by simp), htake, hdrop]
    rfl
  constructor
  · intro h
    by_cases hmem : sep ∈ cs
    · obtain ⟨xs, ys, rfl, hxs⟩ := eq_append_cons_of_mem hmem
      rw [happend hxs] at h
      obtain ⟨rfl, rfl⟩ := Prod.mk.inj (some.inj h)
      exact ⟨rfl, hxs⟩
    · rw [splitOnce, if_neg hmem] at h
      exact absurd h (by simp)
  · rintro ⟨rfl, hbefore⟩
    exact happend hbefore after

/-! ## Whole lines -/

/-- A text is some whole lines and the head of a line. -/
theorem whole_lines (cs : List Char) :
    ∃ ls head, cs = unlines ls ++ head ∧ (∀ line ∈ ls, '\n' ∉ line) ∧ '\n' ∉ head := by
  induction cs using reverseRecOn with
  | nil => exact ⟨[], [], rfl, by simp, by simp⟩
  | append_singleton cs c ih =>
    obtain ⟨ls, head, rfl, hls, hhead⟩ := ih
    by_cases hc : c = '\n'
    · refine ⟨ls ++ [head], [], by simp [unlines, hc], ?_, by simp⟩
      intro line hline
      rcases mem_append.mp hline with hold | hnew
      · exact hls line hold
      · rw [mem_singleton.mp hnew]
        exact hhead
    · exact ⟨ls, head ++ [c], by simp, hls, by simpa [hhead] using Ne.symm hc⟩

theorem splitOn_unlines (hls : ∀ line ∈ ls, '\n' ∉ line) (rest : List Char) :
    (unlines ls ++ rest).splitOn '\n' = ls ++ rest.splitOn '\n' := by
  induction ls with
  | nil => rfl
  | cons line ls ih =>
    have hline := hls line mem_cons_self
    have hrest := ih (fun other hother => hls other (mem_cons_of_mem line hother))
    have hshape : unlines (line :: ls) ++ rest = line ++ '\n' :: (unlines ls ++ rest) := by
      simp [unlines]
    rw [hshape, splitOn_append_cons_self, splitOn_eq_singleton hline, hrest]
    rfl

theorem count_unlines (hls : ∀ line ∈ ls, '\n' ∉ line) : (unlines ls).count '\n' = ls.length := by
  induction ls with
  | nil => rfl
  | cons line ls ih =>
    have hrest := ih (fun other hother => hls other (mem_cons_of_mem line hother))
    rw [show unlines (line :: ls) = line ++ '\n' :: unlines ls by simp [unlines],
      count_append, count_eq_zero_of_not_mem (hls line mem_cons_self),
      count_cons_self, hrest, length_cons]
    omega

/-- A piece between ends of lines holds none. -/
theorem newline_notMem_of_mem_splitOn (h : line ∈ cs.splitOn '\n') : '\n' ∉ line := by
  obtain ⟨ls, head, rfl, hls, hhead⟩ := whole_lines cs
  rw [splitOn_unlines hls, splitOn_eq_singleton hhead, mem_append, mem_singleton] at h
  rcases h with hmem | rfl
  · exact hls line hmem
  · exact hhead

end Abbey.Lib
