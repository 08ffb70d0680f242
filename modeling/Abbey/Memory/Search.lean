import Abbey.Memory.Wdbx

/-!
# Keyword queries

SQLite reads a query as a `LIKE` pattern and WDBX as a substring.  They ask
the same of every record when the query has no wildcard, and otherwise
`sampleText` is a text that only SQLite finds.
-/

namespace Abbey.Memory

open Abbey.Lib SqliteMemory List

variable {query : String}

/-- The query without `%`, and `x` where `_` stands. -/
def sampleText (query : String) : List Char :=
  (query.toList.filter (· ≠ '%')).map (fun c => if c = '_' then 'x' else c)

theorem likePattern_of_literal (h : query.toList.any isWildcard = false) :
    likePattern query = '%' :: (query.toList ++ ['%']) := by
  unfold likePattern
  rw [filter_eq_self.mpr]
  intro c hc
  have hwild := (any_eq_false.mp h) c hc
  simp only [isWildcard, Bool.or_eq_true, decide_eq_true_eq, not_or] at hwild
  exact decide_eq_true hwild.1

/-- A query without wildcards asks the same of both backends. -/
theorem matchesKeyword_eq (h : query.toList.any isWildcard = false) :
    matchesKeyword query = WdbxMemory.matchesKeyword query := by
  have hcontains : ∀ text : String,
      like (likePattern query) text.toList = WdbxMemory.contains text query := by
    intro text
    rw [Bool.eq_iff_iff, likePattern_of_literal h, like_contains h]
    exact (decide_eq_true_iff (p := foldCase query.toList <:+: foldCase text.toList)).symm
  funext rec
  unfold matchesKeyword WdbxMemory.matchesKeyword
  rw [hcontains, hcontains, hcontains]

theorem like_sample (h : ∀ c ∈ pattern, c ≠ '%') :
    like (pattern ++ ['%']) (pattern.map (fun c => if c = '_' then 'x' else c)) := by
  induction pattern with
  | nil => simp
  | cons p pattern ih =>
    rw [cons_append, map_cons, like_cons_cons (h p mem_cons_self)]
    refine ⟨?_, ih (fun c hc => h c (mem_cons_of_mem p hc))⟩
    by_cases hp : p = '_'
    · exact .inl hp
    · exact .inr (by rw [if_neg hp])

/-- SQLite finds the sample. -/
theorem like_sampleText : like (likePattern query) (sampleText query) := by
  unfold likePattern
  rw [like_percent]
  refine ⟨_, suffix_rfl, like_sample (fun c hc => ?_)⟩
  exact of_decide_eq_true (mem_filter.mp hc).2

/-- WDBX finds the sample only for a query without wildcards. -/
theorem literal_of_contains_sampleText
    (h : foldCase query.toList <:+: foldCase (sampleText query)) :
    query.toList.any isWildcard = false := by
  have hlength := h.length_le
  unfold foldCase sampleText at hlength
  rw [length_map, length_map, length_map] at hlength
  have hnone : ∀ c ∈ query.toList, c ≠ '%' := by
    intro c hc
    have hkeep := length_filter_eq_length_iff.mp
      (Nat.le_antisymm (length_filter_le (fun c => decide (c ≠ '%')) _) hlength) c hc
    exact of_decide_eq_true hkeep
  have hself : query.toList.filter (· ≠ '%') = query.toList :=
    filter_eq_self.mpr (fun c hc => decide_eq_true (hnone c hc))
  have hsample : foldCase query.toList = foldCase (sampleText query) := by
    refine h.eq_of_length ?_
    unfold foldCase sampleText
    rw [hself, length_map, length_map, length_map]
  unfold foldCase sampleText at hsample
  rw [hself, map_map, map_inj_left] at hsample
  rw [any_eq_false]
  intro c hc hwild
  simp only [isWildcard, Bool.or_eq_true, decide_eq_true_eq] at hwild
  rcases hwild with rfl | rfl
  · exact hnone _ hc rfl
  · exact absurd (hsample _ hc) (by decide)

end Abbey.Memory
