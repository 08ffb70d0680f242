import Mathlib.Data.List.MinMax
import Mathlib.Tactic.Common

/-!
# The latest entry of a history

A history is a list, oldest first, whose entries carry increasing ranks.
`latest p` is its last entry with a property, which is what a table that
keeps the last writer holds, and what a query for the greatest rank finds
(`argmax_filter_eq_latest`).
-/

namespace Abbey.Lib

open List

variable {α β : Type} {p q : α → Bool} {log : List α} {m n : α}

/-- The last entry with a property. -/
def latest (p : α → Bool) (log : List α) : Option α := (log.filter p).getLast?

@[simp] theorem latest_nil (p : α → Bool) : latest p [] = none := rfl

theorem latest_append (p : α → Bool) (log : List α) (m : α) :
    latest p (log ++ [m]) = if p m then some m else latest p log := by
  unfold latest
  rw [filter_append]
  split_ifs with hm
  · simp [hm]
  · simp [hm]

theorem mem_of_latest (h : latest p log = some m) : m ∈ log ∧ p m :=
  mem_filter.mp (mem_of_getLast? h)

theorem latest_eq_none_iff : latest p log = none ↔ ∀ m ∈ log, p m = false := by
  unfold latest
  rw [getLast?_eq_none_iff, filter_eq_nil_iff]
  simp

theorem latest_congr (h : ∀ m ∈ log, p m = q m) : latest p log = latest q log := by
  unfold latest
  rw [filter_congr h]

/-- In an ordered history every other entry with the property comes before the latest. -/
theorem eq_or_of_latest {R : α → α → Prop} (hR : log.Pairwise R) (h : latest p log = some m)
    (hn : n ∈ log) (hp : p n) : n = m ∨ R n m := by
  have hfilter := hR.filter p
  have hmem : n ∈ log.filter p := mem_filter.mpr ⟨hn, hp⟩
  obtain ⟨rest, hrest⟩ := getLast?_eq_some_iff.mp h
  rw [hrest] at hfilter hmem
  rcases mem_append.mp hmem with hold | hlast
  · exact .inr ((pairwise_append.mp hfilter).2.2 n hold m mem_cons_self)
  · exact .inl (mem_singleton.mp hlast)

/-- With increasing ranks every other entry comes before the latest. -/
theorem lt_of_latest (rank : α → Nat) (hrank : log.Pairwise (fun a b => rank a < rank b))
    (h : latest p log = some m) (hn : n ∈ log) (hp : p n) (hne : n ≠ m) :
    rank n < rank m :=
  (eq_or_of_latest hrank h hn hp).resolve_left hne

/-- The latest entry with a weaker property that has the stronger one. -/
theorem latest_of_imp (hpq : ∀ n ∈ log, p n → q n) (h : latest q log = some m)
    (hm : p m) : latest p log = some m := by
  obtain ⟨rest, hrest⟩ := getLast?_eq_some_iff.mp h
  have hfilter : log.filter p = (log.filter q).filter p := by
    rw [filter_filter]
    refine filter_congr (fun n hn => ?_)
    by_cases hp : p n
    · simp [hp, hpq n hn hp]
    · simp [hp]
  unfold latest
  rw [hfilter, hrest, filter_append]
  simp [hm]

/-- The entry of greatest rank is the latest. -/
theorem argmax_filter_eq_latest {rank : α → Nat}
    (hrank : log.Pairwise (fun a b => rank a < rank b)) (p : α → Bool) :
    (log.filter p).argmax rank = latest p log := by
  induction log using reverseRecOn with
  | nil => rfl
  | append_singleton log m ih =>
    have hold := ih (pairwise_append.mp hrank).1
    rw [latest_append, filter_append]
    split_ifs with hm
    · rw [filter_cons_of_pos hm, filter_nil, argmax_concat, hold]
      cases hlatest : latest p log with
      | none => rfl
      | some n =>
        have hlt : rank n < rank m := (pairwise_append.mp hrank).2.2 n
          (mem_of_latest hlatest).1 m mem_cons_self
        simp [hlt]
    · simp [hm, hold]

/-- The same for the image of a history under a map that keeps the ranks. -/
theorem argmax_map_eq_latest {rank : β → Nat}
    (hrank : log.Pairwise (fun a b => rank (f a) < rank (f b))) {q : β → Bool}
    (hq : ∀ m ∈ log, q (f m) = p m) :
    ((log.map f).filter q).argmax rank = (latest p log).map f := by
  have himage : (log.map f).Pairwise (fun a b => rank a < rank b) :=
    pairwise_map.mpr hrank
  rw [argmax_filter_eq_latest himage]
  unfold latest
  rw [filter_map, getLast?_map]
  congr 2
  exact filter_congr hq

end Abbey.Lib
