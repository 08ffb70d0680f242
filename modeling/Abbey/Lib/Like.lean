import Mathlib.Data.List.Infix

/-!
# SQL `LIKE` patterns

A pattern has two wildcards: `%` stands for any text and `_` for one
character.  Everything else is compared without regard to the case of ASCII
letters.

A pattern without wildcards between two `%` says that the text contains it:
`like_contains`.  With `ESCAPE` any literal can be written as a pattern:
`likeEscape_contains`.
-/

namespace Abbey.Lib

open List

/-- ASCII letters in lower case, the rest as it is. -/
def foldCase (cs : List Char) : List Char := cs.map Char.toLower

def isWildcard (c : Char) : Bool := c = '%' || c = '_'

def like : List Char → List Char → Bool
  | [], text => text.isEmpty
  | p :: pattern, text =>
    if p = '%' then text.tails.any (like pattern)
    else match text with
      | [] => false
      | c :: text => (p = '_' || p.toLower = c.toLower) && like pattern text

variable {pattern text : List Char}

@[simp] theorem like_nil : like [] text ↔ text = [] := by
  rw [like, List.isEmpty_iff]

@[simp] theorem like_percent :
    like ('%' :: pattern) text ↔ ∃ rest, rest <:+ text ∧ like pattern rest := by
  rw [like.eq_def]
  simp only [if_pos, any_eq_true, mem_tails]

theorem like_cons_nil (hp : p ≠ '%') : like (p :: pattern) [] = false := by
  rw [like, if_neg hp]

theorem like_cons_cons (hp : p ≠ '%') : like (p :: pattern) (c :: text) ↔
    (p = '_' ∨ p.toLower = c.toLower) ∧ like pattern text := by
  rw [like, if_neg hp]
  simp

/-- A last `%` leaves the rest of the text open. -/
theorem like_append_percent (hpattern : pattern.any isWildcard = false) :
    like (pattern ++ ['%']) text ↔ foldCase pattern <+: foldCase text := by
  induction pattern generalizing text with
  | nil => simp [foldCase]
  | cons p pattern ih =>
    rw [any_cons, Bool.or_eq_false_iff] at hpattern
    have hp : p ≠ '%' ∧ p ≠ '_' := by simpa [isWildcard] using hpattern.1
    cases text with
    | nil =>
      rw [cons_append, like_cons_nil hp.1]
      simp [foldCase]
    | cons c text =>
      rw [cons_append, like_cons_cons hp.1, ih hpattern.2]
      simp [foldCase, hp.2]

/-- A text contains a literal when some end of the text starts with it. -/
theorem exists_suffix_foldCase : (∃ rest, rest <:+ text ∧ foldCase literal <+: foldCase rest) ↔
      foldCase literal <:+: foldCase text := by
  rw [infix_iff_prefix_suffix]
  constructor
  · rintro ⟨rest, hrest, hprefix⟩
    exact ⟨foldCase rest, hprefix, hrest.map _⟩
  · rintro ⟨folded, hprefix, hsuffix⟩
    have hdrop := suffix_iff_eq_drop.mp hsuffix
    refine ⟨text.drop ((foldCase text).length - folded.length), drop_suffix _ _, ?_⟩
    have hfold : foldCase (text.drop ((foldCase text).length - folded.length)) = folded := by
      rw [foldCase, map_drop]
      exact hdrop.symm
    rwa [hfold]

/-- The pattern `%q%` for a literal `q`. -/
theorem like_contains (hpattern : pattern.any isWildcard = false) :
    like ('%' :: (pattern ++ ['%'])) text ↔ foldCase pattern <:+: foldCase text := by
  rw [like_percent, ← exists_suffix_foldCase]
  simp only [like_append_percent hpattern]

/-! ## Escapes -/

/-- `LIKE .. ESCAPE e`: the character after `e` stands for itself. -/
def likeEscape (e : Char) : List Char → List Char → Bool
  | [], text => text.isEmpty
  | p :: pattern, text =>
    if p = e then
      match pattern, text with
      | q :: pattern, c :: text => q.toLower = c.toLower && likeEscape e pattern text
      | _, _ => false
    else if p = '%' then text.tails.any (likeEscape e pattern)
    else match text with
      | [] => false
      | c :: text => (p = '_' || p.toLower = c.toLower) && likeEscape e pattern text

/-- A literal as a pattern: its wildcards are escaped. -/
def escapeLike (e : Char) (literal : List Char) : List Char :=
  literal.flatMap (fun c => if c = e || isWildcard c then [e, c] else [c])

variable {e : Char} {literal : List Char}

theorem likeEscape_percent (he : e ≠ '%') : likeEscape e ('%' :: pattern) text ↔
      ∃ rest, rest <:+ text ∧ likeEscape e pattern rest := by
  rw [likeEscape.eq_def]
  simp only [if_neg (Ne.symm he), if_true]
  simp only [any_eq_true, mem_tails]

theorem likeEscape_append_percent (he : e ≠ '%') :
    likeEscape e (escapeLike e literal ++ ['%']) text ↔
      foldCase literal <+: foldCase text := by
  induction literal generalizing text with
  | nil =>
    have hall : ∃ rest, rest <:+ text ∧ likeEscape e [] rest := ⟨[], by simp, rfl⟩
    simpa [escapeLike, foldCase, likeEscape_percent he] using hall
  | cons c literal ih =>
    by_cases hc : c = e ∨ isWildcard c
    · -- the character stands behind the escape
      have hpattern : escapeLike e (c :: literal) ++ ['%'] =
          e :: c :: (escapeLike e literal ++ ['%']) := by
        simp [escapeLike, hc]
      rw [hpattern, likeEscape.eq_def]
      cases text with
      | nil => simp [foldCase]
      | cons d text => simp [ih, foldCase]
    · have hpattern : escapeLike e (c :: literal) ++ ['%'] =
          c :: (escapeLike e literal ++ ['%']) := by
        simp [escapeLike, hc]
      have hne : c ≠ e ∧ c ≠ '%' ∧ c ≠ '_' := by simpa [isWildcard] using hc
      rw [hpattern, likeEscape.eq_def]
      cases text with
      | nil => simp [hne, foldCase]
      | cons d text => simp [ih, foldCase, hne]

/-- The pattern `%q%` for an escaped literal `q`. -/
theorem likeEscape_contains (he : e ≠ '%') :
    likeEscape e ('%' :: (escapeLike e literal ++ ['%'])) text ↔
      foldCase literal <:+: foldCase text := by
  rw [likeEscape_percent he, ← exists_suffix_foldCase]
  simp only [likeEscape_append_percent he]

end Abbey.Lib
