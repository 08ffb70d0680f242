import Mathlib.Algebra.GroupWithZero.Nat
import Mathlib.Data.List.Sort
import Mathlib.Tactic.Common

/-!
# Tables with a primary key

A table is a list of rows in insertion order whose primary keys are
pairwise distinct.  The distinctness is a field of the structure, so a
table with two rows under one key cannot be built: an insert under a key
that is taken answers `none`, which is the constraint error of a
relational store.

The lemmas reduce every operation to the lookup `find`.  A proof about a
store then reads one row before and after an operation, and never unfolds
the list.

* `find_eq_some_iff` and `mem_rows_iff_find` pass between rows and lookups.
* `find_insert`, `find_modify` and `find_delete` give the lookup after each
  of the three writes.
* `Changes` is an update of one row, and `Kept` a relation between each row
  and what has become of it after any number of writes.
-/

namespace Abbey.Lib

open List

variable {ρ κ : Type} {pk : ρ → κ}
variable {r s : ρ} {check : ρ → Bool} {f : ρ → ρ}
variable {hf : ∀ r, pk (f r) = pk r}

/-- Rows in insertion order, with at most one row for each primary key. -/
structure Table (pk : ρ → κ) where
  rows : List ρ
  nodup : (rows.map pk).Nodup

namespace Table

/-- A table is determined by its rows. -/
@[ext]
theorem ext {t u : Table pk} (h : t.rows = u.rows) : t = u := by
  cases t
  cases u
  cases h
  rfl

instance [DecidableEq ρ] : DecidableEq (Table pk) := fun t u =>
  decidable_of_iff (t.rows = u.rows) ⟨ext, fun h => h ▸ rfl⟩

/-- The table without rows. -/
def empty : Table pk := ⟨[], List.nodup_nil⟩

instance : Inhabited (Table pk) := ⟨empty⟩

/-- Two rows of a table with the same key are the same row. -/
theorem eq_of_mem_of_pk_eq {t : Table pk} (hr : r ∈ t.rows) (hs : s ∈ t.rows) (h : pk r = pk s) :
    r = s :=
  inj_on_of_nodup_map t.nodup hr hs h

/-- Rewrite the rows that satisfy a condition.  The rewrite keeps the
primary key. -/
def modify (t : Table pk) (p : ρ → Bool) (f : ρ → ρ)
    (hf : ∀ r, pk (f r) = pk r) : Table pk :=
  ⟨t.rows.map (fun r => if p r then f r else r), by
    have hkeys : (t.rows.map (fun r => if p r then f r else r)).map pk =
        t.rows.map pk := by
      rw [List.map_map]
      refine List.map_congr_left (fun r _ => ?_)
      simp only [Function.comp_apply]
      split_ifs
      · exact hf r
      · rfl
    rw [hkeys]
    exact t.nodup⟩

@[simp] theorem rows_modify (t : Table pk) (p : ρ → Bool) (f : ρ → ρ) (hf : ∀ r, pk (f r) = pk r) :
    (t.modify p f hf).rows = t.rows.map (fun r => if p r then f r else r) :=
  rfl

/-- Rewrite the rows that satisfy a condition, unless one of them would
break the constraint of the table. -/
def update? (t : Table pk) (p : ρ → Bool) (f : ρ → ρ) (hf : ∀ r, pk (f r) = pk r)
    (check : ρ → Bool) : Option (Table pk) :=
  if (t.rows.filter p).all (fun r => check (f r)) then some (t.modify p f hf) else none

theorem update?_eq_some_iff {t u : Table pk} : t.update? p f hf check = some u ↔
      (∀ r ∈ t.rows, p r → check (f r)) ∧ t.modify p f hf = u := by
  unfold update?
  split_ifs with h
  · simp only [all_eq_true, mem_filter, and_imp] at h
    simp only [Option.some.injEq, iff_and_self]
    intro _ r hmem hp
    exact h r hmem hp
  · simp only [all_eq_true, mem_filter, and_imp] at h
    simp only [false_iff, not_and]
    intro hall
    exact absurd hall h

/-- Remove the rows that satisfy a condition. -/
def delete (t : Table pk) (p : ρ → Bool) : Table pk :=
  ⟨t.rows.filter (fun r => !p r),
    List.Nodup.sublist (List.Sublist.map pk List.filter_sublist) t.nodup⟩

section Lookup

variable [DecidableEq κ]
variable {k : κ}

/-- The row under a primary key. -/
def find (t : Table pk) (k : κ) : Option ρ :=
  t.rows.find? (fun r => pk r = k)

@[simp] theorem find_empty (k : κ) : (empty : Table pk).find k = none := rfl

variable {t : Table pk}

/-- A lookup answers exactly the row that carries the key. -/
theorem find_eq_some_iff : t.find k = some r ↔ r ∈ t.rows ∧ pk r = k := by
  constructor
  · intro h
    refine ⟨List.mem_of_find?_eq_some h, ?_⟩
    simpa using find?_some h
  · rintro ⟨hmem, rfl⟩
    cases hfind : t.find (pk r) with
    | none =>
      have hne := find?_eq_none.mp hfind r hmem
      simp at hne
    | some s =>
      have hs : s ∈ t.rows := mem_of_find?_eq_some hfind
      have hkey : pk s = pk r := by simpa using find?_some hfind
      rw [eq_of_mem_of_pk_eq hs hmem hkey]

/-- The row a lookup answers carries the key. -/
theorem pk_of_find {k : κ} {r : ρ} (h : t.find k = some r) : pk r = k :=
  (find_eq_some_iff.mp h).2

/-- A row is in the table exactly when the lookup of its key answers it. -/
theorem mem_rows_iff_find : r ∈ t.rows ↔ t.find (pk r) = some r := by
  simp [find_eq_some_iff]

theorem mem_rows_of_find (h : t.find k = some r) : r ∈ t.rows :=
  (find_eq_some_iff.mp h).1

/-- A lookup fails exactly when no row carries the key. -/
theorem find_eq_none_iff : t.find k = none ↔ ∀ r ∈ t.rows, pk r ≠ k := by
  simp [find, find?_eq_none]

variable {p : ρ → Bool}

/-- A row that satisfies a condition exists exactly when some lookup
answers one. -/
theorem any_rows_iff :
    t.rows.any p ↔ ∃ k r, t.find k = some r ∧ p r := by
  rw [any_eq_true]
  constructor
  · rintro ⟨r, hmem, hp⟩
    exact ⟨pk r, r, mem_rows_iff_find.mp hmem, hp⟩
  · rintro ⟨k, r, hfind, hp⟩
    exact ⟨r, mem_rows_of_find hfind, hp⟩

/-- A condition that names one key selects the row under it and no other. -/
theorem length_filter_eq_one (hfind : t.find k = some r)
    (hr : p r) (hkey : ∀ s, p s → pk s = k) : (t.rows.filter p).length = 1 := by
  have hnodup : (t.rows.filter p).Nodup :=
    (List.Nodup.of_map pk t.nodup).filter _
  have hmem : r ∈ t.rows.filter p :=
    mem_filter.mpr ⟨mem_rows_of_find hfind, hr⟩
  have hall : ∀ s ∈ t.rows.filter p, s = r := by
    intro s hs
    obtain ⟨hs1, hs2⟩ := mem_filter.mp hs
    have hpk : pk s = pk r := (hkey s hs2).trans (pk_of_find hfind).symm
    exact eq_of_mem_of_pk_eq hs1 (mem_rows_of_find hfind) hpk
  rw [eq_replicate_of_mem hall, nodup_replicate] at hnodup
  have hpos : 0 < (t.rows.filter p).length := length_pos_of_mem hmem
  omega

/-- The rows under a key are the row that the lookup answers. -/
theorem filter_pk_eq (hfind : t.find k = some r) :
    t.rows.filter (fun s => pk s = k) = [r] := by
  have hone : (t.rows.filter (fun s => pk s = k)).length = 1 :=
    length_filter_eq_one hfind (by simpa using pk_of_find hfind) (by simp)
  obtain ⟨s, hs⟩ := length_eq_one_iff.mp hone
  have hmem : r ∈ t.rows.filter (fun s => pk s = k) :=
    mem_filter.mpr ⟨mem_rows_of_find hfind, by simpa using pk_of_find hfind⟩
  rw [hs, mem_singleton] at hmem
  rw [hs, hmem]

variable {t u : Table pk}

/-- Tables with the same lookups have the same rows, in some order. -/
theorem rows_perm_of_find_eq (h : ∀ k, t.find k = u.find k) :
    t.rows.Perm u.rows := by
  rw [perm_ext_iff_of_nodup (t.nodup.of_map pk) (u.nodup.of_map pk)]
  intro r
  rw [mem_rows_iff_find, mem_rows_iff_find, h]

/-! ## Insert -/

/-- Append a row.  A row under a taken key is refused. -/
def insert? (t : Table pk) (r : ρ) : Option (Table pk) :=
  if h : pk r ∈ t.rows.map pk then none
  else some ⟨t.rows ++ [r], by
    rw [List.map_append, List.map_singleton]
    exact (List.nodup_append_comm.mp (List.nodup_cons.mpr ⟨h, t.nodup⟩))⟩

/-- An insert succeeds exactly on a free key, and then appends the row. -/
theorem insert?_eq_some_iff :
    t.insert? r = some u ↔ t.find (pk r) = none ∧ u.rows = t.rows ++ [r] := by
  rw [insert?, find_eq_none_iff]
  split_ifs with h
  · obtain ⟨s, hs, hk⟩ := mem_map.mp h
    simp only [false_iff, not_and]
    intro hnone
    exact absurd hk (hnone s hs)
  · have hfree : ∀ s ∈ t.rows, pk s ≠ pk r := fun s hs hk =>
      h (mem_map.mpr ⟨s, hs, hk⟩)
    constructor
    · intro hu
      cases hu
      exact ⟨hfree, rfl⟩
    · rintro ⟨_, hrows⟩
      exact congrArg some (ext hrows.symm)

theorem insert?_eq_none_iff : t.insert? r = none ↔ ∃ s, t.find (pk r) = some s := by
  cases hfind : t.find (pk r) with
  | none =>
    have hex : t.insert? r ≠ none := by
      rw [insert?, dif_neg]
      · simp
      · intro hmem
        obtain ⟨s, hs, hk⟩ := mem_map.mp hmem
        exact find_eq_none_iff.mp hfind s hs hk
    simp [hex]
  | some s =>
    have hmem : pk r ∈ t.rows.map pk :=
      mem_map.mpr ⟨s, mem_rows_of_find hfind, pk_of_find hfind⟩
    simp [insert?, hmem]

/-- On a free key the insert succeeds. -/
theorem insert?_of_find_none {r : ρ} (h : t.find (pk r) = none) : ∃ u, t.insert? r = some u := by
  cases hins : t.insert? r with
  | some u => exact ⟨u, rfl⟩
  | none =>
    obtain ⟨s, hs⟩ := insert?_eq_none_iff.mp hins
    rw [h] at hs
    cases hs

/-- The lookup after an insert. -/
theorem find_insert (h : t.insert? r = some u) (k : κ) :
    u.find k = if pk r = k then some r else t.find k := by
  obtain ⟨hfree, hrows⟩ := insert?_eq_some_iff.mp h
  rw [find, hrows, find?_append]
  split_ifs with hk
  · subst hk
    have hnone : t.rows.find? (fun s => pk s = pk r) = none := hfree
    simp [hnone]
  · simp [hk, find]

theorem find_insert_self (h : t.insert? r = some u) : u.find (pk r) = some r := by
  rw [find_insert h, if_pos rfl]

/-- An insert keeps every row that was there. -/
theorem find_insert_of_some (h : t.insert? r = some u) (hs : t.find k = some s) :
    u.find k = some s := by
  have hfree := (insert?_eq_some_iff.mp h).1
  rw [find_insert h, if_neg, hs]
  rintro rfl
  rw [hs] at hfree
  cases hfree

theorem rows_insert (h : t.insert? r = some u) : u.rows = t.rows ++ [r] :=
  (insert?_eq_some_iff.mp h).2

/-! ## Update and delete -/

/-- The lookup after an update. -/
theorem find_modify (t : Table pk) (p : ρ → Bool) (f : ρ → ρ) (hf : ∀ r, pk (f r) = pk r) (k : κ) :
    (t.modify p f hf).find k = (t.find k).map (fun r => if p r then f r else r) := by
  rw [find, rows_modify, find?_map]
  have hcomp : ((fun r => decide (pk r = k)) ∘ fun r => if p r then f r else r) =
      fun r => decide (pk r = k) := by
    funext r
    simp only [Function.comp_apply]
    split_ifs
    · rw [hf r]
    · rfl
  rw [hcomp]
  rfl

theorem find_modify_of_some (h : (t.modify p f hf).find k = some s) :
    ∃ r, t.find k = some r ∧ s = if p r then f r else r := by
  rw [find_modify, Option.map_eq_some_iff] at h
  obtain ⟨r, hr, hs⟩ := h
  exact ⟨r, hr, hs.symm⟩

/-- One row becomes another under the same key, and the others stay. -/
structure Changes (t u : Table pk) (r s : ρ) : Prop where
  found : t.find (pk r) = some r
  key : pk s = pk r
  find : ∀ k, u.find k = if k = pk r then some s else t.find k
  length : u.rows.length = t.rows.length

/-- An update whose condition selects the row under one key. -/
theorem changes_of_update? (h : t.update? p f hf check = some u)
    (hfind : t.find k = some r) (hr : p r) (hkey : ∀ s, p s → pk s = k) :
    Changes t u r (f r) ∧ check (f r) := by
  obtain ⟨hcheck, rfl⟩ := update?_eq_some_iff.mp h
  have hpk : pk r = k := pk_of_find hfind
  refine ⟨⟨?_, hf r, ?_, by simp⟩, hcheck r (mem_rows_of_find hfind) hr⟩
  · rw [hpk]
    exact hfind
  · intro j
    rw [find_modify, hpk]
    split_ifs with hj
    · subst hj
      simp [hfind, hr]
    · cases hs : t.find j with
      | none => rfl
      | some s =>
        have hp : ¬ p s := by
          intro hp
          exact hj ((pk_of_find hs).symm.trans (hkey s hp))
        simp [hp]

/-- Every row after a change is the new one or was there before. -/
theorem Changes.cases (h : Changes t u r s) (hx : u.find k = some x) :
    (k = pk r ∧ x = s) ∨ (k ≠ pk r ∧ t.find k = some x) := by
  rw [h.find] at hx
  split_ifs at hx with hk
  · cases hx
    exact .inl ⟨hk, rfl⟩
  · exact .inr ⟨hk, hx⟩

theorem Changes.self (h : Changes t u r s) : u.find (pk r) = some s := by
  rw [h.find, if_pos rfl]

theorem Changes.other (h : Changes t u r s) (hk : k ≠ pk r) :
    u.find k = t.find k := by
  rw [h.find, if_neg hk]

/-- Every row is still there, as a row that is related to it. -/
def Kept (R : ρ → ρ → Prop) (t u : Table pk) : Prop :=
  ∀ k r, t.find k = some r → ∃ s, u.find k = some s ∧ R r s

section Kept

variable {R : ρ → ρ → Prop} {t u v : Table pk} {p : ρ → Bool}

theorem Kept.refl (hR : ∀ r, R r r) (t : Table pk) : Kept R t t := fun _ r h => ⟨r, h, hR r⟩

theorem Kept.insert (hR : ∀ r, R r r) (h : t.insert? r = some u) : Kept R t u :=
  fun _ s hs => ⟨s, find_insert_of_some h hs, hR s⟩

theorem Kept.change (hR : ∀ r, R r r) (h : Changes t u r s) (hrs : R r s) : Kept R t u := by
  intro k x hx
  by_cases hk : k = pk r
  · subst hk
    have heq : r = x := Option.some.inj (h.found.symm.trans hx)
    rw [← heq]
    exact ⟨s, h.self, hrs⟩
  · rw [← h.other hk] at hx
    exact ⟨x, hx, hR x⟩

theorem Kept.modify (hf : ∀ r, pk (f r) = pk r) (hR : ∀ r, R r r)
    (hRf : ∀ r ∈ t.rows, p r → R r (f r)) : Kept R t (t.modify p f hf) := by
  intro k r hr
  refine ⟨if p r then f r else r, by rw [find_modify, hr]; rfl, ?_⟩
  split_ifs with hp
  · exact hRf r (mem_rows_of_find hr) hp
  · exact hR r

/-- A row of the later table is new, or it comes from an earlier row. -/
theorem Kept.cases (h : Kept R t u) (hs : u.find k = some s) :
    t.find k = none ∨ ∃ r, t.find k = some r ∧ R r s := by
  cases hr : t.find k with
  | none => exact .inl rfl
  | some r =>
    obtain ⟨s', hs', hrs⟩ := h k r hr
    have heq : s' = s := Option.some.inj (hs'.symm.trans hs)
    exact .inr ⟨r, rfl, heq ▸ hrs⟩

/-- A property that the relation carries over holds of some row after it
held of some row before. -/
theorem Kept.any (h : Kept R t u)
    (hp : ∀ r s, R r s → p r → p s) (hany : t.rows.any p) :
    u.rows.any p := by
  obtain ⟨k, r, hr, hpr⟩ := any_rows_iff.mp hany
  obtain ⟨s, hs, hrs⟩ := h k r hr
  exact any_rows_iff.mpr ⟨k, s, hs, hp r s hrs hpr⟩

end Kept

/-- The lookup after a delete. -/
theorem find_delete (t : Table pk) (p : ρ → Bool) (k : κ) :
    (t.delete p).find k = (t.find k).filter (fun r => !p r) := by
  cases hfind : t.find k with
  | none =>
    rw [Option.filter_none, find_eq_none_iff]
    intro r hr
    exact find_eq_none_iff.mp hfind r (mem_filter.mp hr).1
  | some r =>
    obtain ⟨hmem, hk⟩ := find_eq_some_iff.mp hfind
    cases hp : p r with
    | false =>
      rw [Option.filter_some, if_pos (by simp [hp]), find_eq_some_iff]
      exact ⟨List.mem_filter.mpr ⟨hmem, by simp [hp]⟩, hk⟩
    | true =>
      rw [Option.filter_some, if_neg (by simp [hp]), find_eq_none_iff]
      intro s hs hsk
      obtain ⟨hs1, hs2⟩ := mem_filter.mp hs
      rw [eq_of_mem_of_pk_eq hs1 hmem (hsk.trans hk.symm)] at hs2
      simp [hp] at hs2

/-- The lookup after a delete of one key. -/
theorem find_delete_key (t : Table pk) (k l : κ) :
    (t.delete (fun r => pk r = k)).find l = if l = k then none else t.find l := by
  rw [find_delete]
  cases hfind : t.find l with
  | none => simp
  | some r =>
    rw [Option.filter_some, pk_of_find hfind]
    by_cases hkey : l = k
    · simp [hkey]
    · simp [hkey]

/-- `INSERT .. ON CONFLICT DO UPDATE`: the row replaces the one with its
key. -/
def put (t : Table pk) (r : ρ) : Table pk :=
  ⟨t.rows.filter (fun s => pk s ≠ pk r) ++ [r], by
    rw [List.map_append, List.nodup_append]
    refine ⟨t.nodup.sublist (List.filter_sublist.map pk), by simp, ?_⟩
    intro k hk l hl
    obtain ⟨s, hs, rfl⟩ := List.mem_map.mp hk
    have hne := (List.mem_filter.mp hs).2
    simp only [List.map_cons, List.map_nil, List.mem_singleton] at hl
    rw [hl]
    simpa using hne⟩

/-- The lookup after a put. -/
theorem find_put (t : Table pk) (r : ρ) (k : κ) :
    (t.put r).find k = if pk r = k then some r else t.find k := by
  split_ifs with hk
  · rw [find_eq_some_iff]
    exact ⟨List.mem_append_right _ (mem_singleton_self r), hk⟩
  · cases hfind : t.find k with
    | none =>
      rw [find_eq_none_iff]
      intro s hs
      rcases mem_append.mp hs with hold | hnew
      · exact find_eq_none_iff.mp hfind s (mem_filter.mp hold).1
      · rw [mem_singleton.mp hnew]
        exact hk
    | some s =>
      obtain ⟨hmem, hsk⟩ := find_eq_some_iff.mp hfind
      rw [find_eq_some_iff]
      refine ⟨List.mem_append_left _ (mem_filter.mpr ⟨hmem, ?_⟩), hsk⟩
      have hne : pk s ≠ pk r := fun h => hk (h.symm.trans hsk)
      simpa using hne

end Lookup

/-! ## The rows of one owner -/

section Owner

variable [DecidableEq κ] {t u : Table pk} {owned p : ρ → Bool}

end Owner

end Table

end Abbey.Lib
