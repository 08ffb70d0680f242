import Mathlib.Algebra.BigOperators.Group.List.Basic
import Mathlib.Algebra.GroupWithZero.Nat
import Mathlib.Tactic.Common

/-!
# The bytes of a text

A string as the list of its characters, and the bytes of its UTF-8 text as
a sum over them.  Cuts of a text at a character boundary are then prefixes
of a list.

`lines` is what the lines of a text are, and `lines_unlines` reads back the
lines that a text was written from.
-/

namespace Abbey.Lib

open List

/-- The bytes of the UTF-8 text of some characters. -/
def bytes (cs : List Char) : Nat := (cs.map Char.utf8Size).sum

@[simp] theorem bytes_nil : bytes [] = 0 := rfl

@[simp] theorem bytes_cons (c : Char) (cs : List Char) :
    bytes (c :: cs) = c.utf8Size + bytes cs := by
  simp [bytes]

@[simp] theorem bytes_append (cs ds : List Char) : bytes (cs ++ ds) = bytes cs + bytes ds := by
  simp [bytes]

theorem utf8ByteSize_ofChars (cs : List Char) : (String.ofList cs).utf8ByteSize = bytes cs := by
  induction cs with
  | nil => simp
  | cons c cs ih =>
    have hcons : c :: cs = [c] ++ cs := rfl
    rw [hcons, String.ofList_append, String.utf8ByteSize_append, ih, bytes_append]
    simp

theorem utf8ByteSize_eq (s : String) : s.utf8ByteSize = bytes s.toList := by
  rw [← utf8ByteSize_ofChars, String.ofList_toList]

/-- Characters without bytes are none. -/
theorem eq_nil_of_bytes_eq_zero (h : bytes cs = 0) : cs = [] := by
  cases cs with
  | nil => rfl
  | cons c cs =>
    have hpos := c.utf8Size_pos
    rw [bytes_cons] at h
    omega

/-- A prefix of a text with as many bytes is the text. -/
theorem eq_of_prefix_of_size {s t : String} (h : s.toList <+: t.toList)
    (hsize : s.utf8ByteSize = t.utf8ByteSize) : s = t := by
  obtain ⟨rest, hrest⟩ := h
  rw [utf8ByteSize_eq, utf8ByteSize_eq, ← hrest, bytes_append] at hsize
  have hnil : rest = [] := eq_nil_of_bytes_eq_zero (by omega)
  rw [hnil, append_nil] at hrest
  exact String.toList_inj.mp hrest

/-! ## Lines -/

/-- `str::split_inclusive`. -/
def splitInclusive (p : Char → Bool) : List Char → List (List Char)
  | [] => []
  | c :: cs =>
    if p c then [c] :: splitInclusive p cs
    else match splitInclusive p cs with
      | [] => [[c]]
      | piece :: rest => (c :: piece) :: rest

/-- A line without its end. -/
def chomp (line : List Char) : List Char :=
  if line.getLast? = some '\n' then
    if line.dropLast.getLast? = some '\r' then line.dropLast.dropLast else line.dropLast
  else line

/-- `str::lines`. -/
def lines (cs : List Char) : List (List Char) := (splitInclusive (fun c => c = '\n') cs).map chomp

theorem splitInclusive_flatten (p : Char → Bool) (cs : List Char) :
    (splitInclusive p cs).flatten = cs ∧ ∀ piece ∈ splitInclusive p cs, piece ≠ [] := by
  induction cs with
  | nil => simp [splitInclusive]
  | cons c cs ih =>
    unfold splitInclusive
    by_cases hc : p c
    · rw [if_pos hc]
      simpa [ih.1] using ih.2
    · rw [if_neg hc]
      cases hsplit : splitInclusive p cs with
      | nil =>
        rw [hsplit] at ih
        simp [← ih.1]
      | cons piece rest =>
        rw [hsplit] at ih
        refine ⟨?_, ?_⟩
        · simp only [flatten_cons, cons_append] at ih ⊢
          rw [ih.1]
        · intro q hq
          rcases mem_cons.mp hq with rfl | hmem
          · exact cons_ne_nil _ _
          · exact ih.2 q (mem_cons_of_mem piece hmem)

theorem chomp_sublist (line : List Char) : (chomp line).Sublist line := by
  unfold chomp
  split_ifs
  · exact (dropLast_sublist _).trans (dropLast_sublist _)
  · exact dropLast_sublist _
  · exact List.Sublist.refl _

variable {line text : List Char}

theorem splitInclusive_append (h : '\n' ∉ line) :
    splitInclusive (fun c => c = '\n') (line ++ '\n' :: rest) =
      (line ++ ['\n']) :: splitInclusive (fun c => c = '\n') rest := by
  induction line with
  | nil => simp [splitInclusive]
  | cons c line ih =>
    rw [mem_cons, not_or] at h
    have hc : (decide (c = '\n')) = false := by simpa using Ne.symm h.1
    simp only [cons_append, splitInclusive, hc, Bool.false_eq_true, if_false, ih h.2]

theorem subset_of_mem_lines (h : line ∈ lines text) : line ⊆ text := by
  obtain ⟨piece, hpiece, rfl⟩ := mem_map.mp h
  intro c hc
  rw [← (splitInclusive_flatten (fun c => c = '\n') text).1]
  exact mem_flatten.mpr ⟨piece, hpiece, (chomp_sublist piece).subset hc⟩

/-- The text of some lines, each with its end. -/
def unlines (ls : List (List Char)) : List Char := ls.flatMap (fun line => line ++ ['\n'])

/-- Lines that hold no end of a line are read back. -/
theorem lines_unlines
    (h : ∀ line ∈ ls, '\n' ∉ line ∧ line.getLast? ≠ some '\r') : lines (unlines ls) = ls := by
  induction ls with
  | nil => rfl
  | cons line ls ih =>
    obtain ⟨hline, hlast⟩ := h line mem_cons_self
    have hrest := ih (fun other hother => h other (mem_cons_of_mem line hother))
    have hchomp : chomp (line ++ ['\n']) = line := by
      unfold chomp
      rw [getLast?_concat, if_pos rfl, dropLast_concat, if_neg hlast]
    unfold lines at hrest ⊢
    rw [unlines, flatMap_cons, append_assoc, singleton_append,
      splitInclusive_append hline, map_cons, hchomp]
    exact congrArg _ hrest

/-- A line holds no end of a line. -/
theorem newline_notMem_of_mem_lines (h : line ∈ lines text) : '\n' ∉ line := by
  have hpieces : ∀ cs : List Char, ∀ piece ∈ splitInclusive (fun c => c = '\n') cs,
      '\n' ∉ piece.dropLast ∧ (piece.getLast? = some '\n' ∨ '\n' ∉ piece) := by
    intro cs
    induction cs with
    | nil => simp [splitInclusive]
    | cons c cs ih =>
      intro piece hpiece
      rw [splitInclusive] at hpiece
      by_cases hc : c = '\n'
      · rw [if_pos (by simpa using hc)] at hpiece
        rcases mem_cons.mp hpiece with rfl | hrest
        · simp [hc]
        · exact ih piece hrest
      · rw [if_neg (by simpa using hc)] at hpiece
        cases hsplit : splitInclusive (fun c => c = '\n') cs with
        | nil =>
          rw [hsplit, mem_singleton] at hpiece
          simp [hpiece, Ne.symm hc]
        | cons first rest =>
          rw [hsplit] at hpiece ih
          rcases mem_cons.mp hpiece with rfl | hrest
          · obtain ⟨hdrop, hlast⟩ := ih first mem_cons_self
            cases first with
            | nil => simp [Ne.symm hc]
            | cons d first =>
              rw [dropLast_cons_cons, getLast?_cons_cons, mem_cons, mem_cons]
              simp only [Ne.symm hc, false_or]
              exact ⟨hdrop, hlast⟩
          · exact ih piece (mem_cons_of_mem first hrest)
  obtain ⟨piece, hpiece, rfl⟩ := mem_map.mp h
  obtain ⟨hdrop, hlast⟩ := hpieces text piece hpiece
  unfold chomp
  split_ifs with hend hreturn
  · intro hmem
    exact hdrop (dropLast_subset _ hmem)
  · exact hdrop
  · rcases hlast with hsome | hnone
    · exact absurd hsome hend
    · exact hnone

end Abbey.Lib
