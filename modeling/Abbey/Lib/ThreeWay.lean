import Mathlib.Data.List.Sort
import Abbey.Lib.Maps

/-!
# Three-way merges

A published change is applied to a live copy of what it was made from.  For
one register the change is taken where the live value is still the value it
started from (`pick`), and a map is merged key by key.  A list of rows is
merged as the set of its members.

* `pick` and its laws.
* Loops that change one key of a map at a time, and what they leave at a key.
* `mergeRows` and `mergeMap`.
* `lastRows`, the end of a history in the order of a key, and what a second
  round of it does.
-/

namespace Abbey.Lib

open List Except

open Std (ExtTreeMap ExtTreeSet TransCmp LawfulEqCmp)

section Pick

variable {α : Type} [DecidableEq α] {live before after : α}

/-- The published value, where the live one has not changed. -/
def pick (live before after : α) : α := if live = before then after else live

theorem pick_of_eq (h : live = before) : pick live before after = after :=
  if_pos h

theorem pick_of_ne (h : live ≠ before) : pick live before after = live :=
  if_neg h

/-- Nothing was published. -/
@[simp] theorem pick_self (live before : α) : pick live before before = live := by
  unfold pick
  split_ifs with h
  · exact h.symm
  · rfl

end Pick

/-! ## Loops over maps -/

section Loops

variable {α β ι ε : Type} {cmp : α → α → Ordering} [TransCmp cmp] [DecidableEq α]
variable {m : ExtTreeMap α β cmp} {entries : List ι} {change : Option β → Option β} {key : ι → α}

/-- A step that changes one key. -/
def ChangesAt (key : α) (change : Option β → Option β) (before after : ExtTreeMap α β cmp) : Prop :=
  ∀ k : α, after[k]? = if k = key then change before[k]? else before[k]?

/-- A loop whose steps change different keys leaves each change at its key. -/
theorem foldlM_at {step : ExtTreeMap α β cmp → ι → Except ε (ExtTreeMap α β cmp)}
    {change : ι → Option β → Option β}
    (hstep : ∀ m entry m', step m entry = .ok m' → ChangesAt (key entry) (change entry) m m')
    (hnodup : (entries.map key).Nodup) (h : entries.foldlM step m = .ok m') :
    (∀ entry ∈ entries, m'[key entry]? = change entry m[key entry]?) ∧
      ∀ k, k ∉ entries.map key → m'[k]? = m[k]? := by
  induction entries generalizing m with
  | nil =>
    have hsame : m = m' := ok.inj h
    subst hsame
    simp
  | cons first entries ih =>
    rw [foldlM_cons, bind_ok_iff] at h
    obtain ⟨next, hnext, hrest⟩ := h
    rw [map_cons, nodup_cons] at hnodup
    obtain ⟨hat, hother⟩ := ih hnodup.2 hrest
    have hchange := hstep m first next hnext
    refine ⟨fun entry hentry => ?_, fun k hk => ?_⟩
    · rcases mem_cons.mp hentry with rfl | hmem
      · rw [hother _ hnodup.1, hchange, if_pos rfl]
      · have hne : key entry ≠ key first := by
          intro heq
          exact hnodup.1 (heq ▸ mem_map_of_mem hmem)
        rw [hat entry hmem, hchange, if_neg hne]
    · rw [map_cons, mem_cons, not_or] at hk
      rw [hother k hk.2, hchange, if_neg hk.1]

theorem foldl_at {step : ExtTreeMap α β cmp → ι → ExtTreeMap α β cmp}
    {change : ι → Option β → Option β}
    (hstep : ∀ m entry, ChangesAt (key entry) (change entry) m (step m entry))
    (hnodup : (entries.map key).Nodup) (m : ExtTreeMap α β cmp) :
    (∀ entry ∈ entries, (entries.foldl step m)[key entry]? = change entry m[key entry]?) ∧
      ∀ k, k ∉ entries.map key → (entries.foldl step m)[k]? = m[k]? := by
  have hrun : entries.foldlM (fun m entry => (ok (step m entry) : Except Unit _)) m =
      .ok (entries.foldl step m) := foldlM_pure
  refine foldlM_at (fun m entry m' h => ?_) hnodup hrun
  rw [← ok.inj h]
  exact hstep m entry

variable [LawfulEqCmp cmp]

theorem changesAt_insert {key : α} (h : change m[key]? = some value) :
    ChangesAt key change m (m.insert key value) := by
  intro k
  simp only [ExtTreeMap.getElem?_insert, LawfulEqCmp.compare_eq_iff_eq, eq_comm (a := key)]
  split_ifs with heq
  · subst heq
    exact h.symm
  · rfl

theorem changesAt_erase {key : α} (h : change m[key]? = none) :
    ChangesAt key change m (m.erase key) := by
  intro k
  simp only [ExtTreeMap.getElem?_erase, LawfulEqCmp.compare_eq_iff_eq, eq_comm (a := key)]
  split_ifs with heq
  · subst heq
    exact h.symm
  · rfl

omit [LawfulEqCmp cmp] in
theorem changesAt_self {key : α} (h : change m[key]? = m[key]?) : ChangesAt key change m m := by
  intro k
  split_ifs with heq
  · subst heq
    exact h.symm
  · rfl

/-- A loop over the entries of another map. -/
theorem foldl_toList_at {γ : Type} {step : ExtTreeMap α β cmp → α × γ → ExtTreeMap α β cmp}
    {change : α × γ → Option β → Option β}
    (hstep : ∀ m entry, ChangesAt entry.1 (change entry) m (step m entry))
    (entries : ExtTreeMap α γ cmp) (m : ExtTreeMap α β cmp) (k : α) :
    (entries.toList.foldl step m)[k]? =
      (entries[k]?).elim m[k]? (fun value => change (k, value) m[k]?) := by
  have hnodup : (entries.toList.map Prod.fst).Nodup := by
    rw [ExtTreeMap.map_fst_toList_eq_keys]
    exact ExtTreeMap.nodup_keys
  obtain ⟨hat, hother⟩ := foldl_at hstep hnodup m
  cases hvalue : entries[k]? with
  | some value =>
    exact hat (k, value) (ExtTreeMap.mem_toList_iff_getElem?_eq_some.mpr hvalue)
  | none =>
    refine hother k (fun hmem => ?_)
    obtain ⟨entry, hentry, rfl⟩ := mem_map.mp hmem
    rw [ExtTreeMap.mem_toList_iff_getElem?_eq_some.mp hentry] at hvalue
    exact Option.some_ne_none _ hvalue

omit [DecidableEq α] in
theorem filter_filter_self (t : ExtTreeMap α β cmp) (p : α → β → Bool) :
    (t.filter p).filter p = t.filter p := by
  apply ExtTreeMap.ext_getElem?
  intro k
  rw [ExtTreeMap.getElem?_filter', ExtTreeMap.getElem?_filter', Option.filter_filter]
  simp

end Loops

/-! ## Lists and maps -/

section Rows

variable {α : Type} [DecidableEq α]

def mergeRows (live before after : List α) : List α :=
  after.foldl (fun rows row => if row ∉ before ∧ row ∉ rows then rows ++ [row] else rows)
    (live.filter (fun row => row ∉ before ∨ row ∈ after))

theorem mem_foldl_add (before after rows : List α) (row : α) : row ∈ after.foldl
        (fun rows row => if row ∉ before ∧ row ∉ rows then rows ++ [row] else rows) rows ↔
      row ∈ rows ∨ row ∈ after ∧ row ∉ before := by
  induction after generalizing rows with
  | nil => simp
  | cons first after ih =>
    rw [foldl_cons, ih]
    by_cases hadd : first ∉ before ∧ first ∉ rows
    · rw [if_pos hadd, mem_append, mem_singleton, mem_cons]
      constructor
      · rintro ((hrow | rfl) | hafter)
        · exact Or.inl hrow
        · exact Or.inr ⟨Or.inl rfl, hadd.1⟩
        · exact Or.inr ⟨Or.inr hafter.1, hafter.2⟩
      · rintro (hrow | ⟨rfl | hafter, hbefore⟩)
        · exact Or.inl (Or.inl hrow)
        · exact Or.inl (Or.inr rfl)
        · exact Or.inr ⟨hafter, hbefore⟩
    · rw [if_neg hadd, mem_cons]
      constructor
      · rintro (hrow | hafter)
        · exact Or.inl hrow
        · exact Or.inr ⟨Or.inr hafter.1, hafter.2⟩
      · rintro (hrow | ⟨rfl | hafter, hbefore⟩)
        · exact Or.inl hrow
        · left
          by_contra hrow
          exact hadd ⟨hbefore, hrow⟩
        · exact Or.inr ⟨hafter, hbefore⟩

/-- A row stays unless its removal was published, and comes unless it was there before. -/
theorem mem_mergeRows {live before after : List α} : row ∈ mergeRows live before after ↔
      row ∈ live ∧ ¬(row ∈ before ∧ row ∉ after) ∨ row ∈ after ∧ row ∉ before := by
  unfold mergeRows
  rw [mem_foldl_add, mem_filter, decide_eq_true_eq]
  have hkept : (row ∉ before ∨ row ∈ after) ↔ ¬(row ∈ before ∧ row ∉ after) := by tauto
  rw [hkept]

end Rows

section Maps

variable {α β : Type} {cmp : α → α → Ordering} [TransCmp cmp] [LawfulEqCmp cmp]

/-- The keys of two maps, in their order. -/
def keysOf (before after : ExtTreeMap α β cmp) : List α :=
  (before.keys.foldl (fun keys k => keys.insert k)
    (after.keys.foldl (fun keys k => keys.insert k) (∅ : ExtTreeSet α cmp))).toList

theorem mem_foldl_insert (ks : List α) (set : ExtTreeSet α cmp) (k : α) :
    k ∈ ks.foldl (fun keys k => keys.insert k) set ↔ k ∈ set ∨ k ∈ ks := by
  induction ks generalizing set with
  | nil => simp
  | cons first ks ih =>
    rw [foldl_cons, ih, ExtTreeSet.mem_insert, LawfulEqCmp.compare_eq_iff_eq, mem_cons,
      eq_comm (a := first)]
    tauto

theorem mem_keysOf {before after : ExtTreeMap α β cmp} :
    k ∈ keysOf before after ↔ k ∈ before ∨ k ∈ after := by
  unfold keysOf
  rw [ExtTreeSet.mem_toList, mem_foldl_insert, mem_foldl_insert, ExtTreeMap.mem_keys,
    ExtTreeMap.mem_keys]
  simp only [ExtTreeSet.not_mem_empty, false_or]
  exact or_comm

theorem nodup_keysOf (before after : ExtTreeMap α β cmp) : (keysOf before after).Nodup := by
  refine (ExtTreeSet.distinct_toList).imp ?_
  intro a b hne heq
  rw [heq] at hne
  exact hne Std.ReflCmp.compare_self

variable [DecidableEq α] [DecidableEq β]

def mergeMap (live before after : ExtTreeMap α β cmp) : ExtTreeMap α β cmp :=
  (keysOf before after).foldl (fun rows k =>
    if rows[k]? = before[k]? ∧ before[k]? ≠ after[k]? then
      match after[k]? with
      | some value => rows.insert k value
      | none => rows.erase k
    else rows) live

/-- The maps are merged key by key. -/
theorem getElem?_mergeMap (live before after : ExtTreeMap α β cmp) (k : α) :
    (mergeMap live before after)[k]? = pick live[k]? before[k]? after[k]? := by
  have hstep : ∀ (rows : ExtTreeMap α β cmp) (k : α),
      ChangesAt k (fun value => pick value before[k]? after[k]?) rows
        (if rows[k]? = before[k]? ∧ before[k]? ≠ after[k]? then
          match after[k]? with
          | some value => rows.insert k value
          | none => rows.erase k
        else rows) := by
    intro rows k
    by_cases heq : rows[k]? = before[k]?
    · by_cases hchanged : before[k]? = after[k]?
      · rw [if_neg (by simp [hchanged])]
        apply changesAt_self
        simp only [hchanged, pick_self]
      · rw [if_pos ⟨heq, hchanged⟩]
        cases hafter : after[k]? with
        | some value => exact changesAt_insert (pick_of_eq heq)
        | none => exact changesAt_erase (pick_of_eq heq)
    · rw [if_neg (fun h => heq h.1)]
      exact changesAt_self (pick_of_ne heq)
  have hnodup : ((keysOf before after).map id).Nodup := by simpa using nodup_keysOf before after
  have hloop := foldl_at hstep hnodup live
  by_cases hmem : k ∈ keysOf before after
  · exact hloop.1 k hmem
  · have hnone : before[k]? = none ∧ after[k]? = none := by
      rw [mem_keysOf, not_or] at hmem
      exact ⟨ExtTreeMap.getElem?_eq_none hmem.1, ExtTreeMap.getElem?_eq_none hmem.2⟩
    rw [hnone.1, hnone.2, pick_self]
    exact hloop.2 k (by simpa using hmem)

/-- Nothing was published. -/
@[simp] theorem mergeMap_self (live before : ExtTreeMap α β cmp) :
    mergeMap live before before = live := by
  apply ExtTreeMap.ext_getElem?
  intro k
  rw [getElem?_mergeMap, pick_self]

end Maps

/-! ## Bounded histories -/

section Histories

variable {α : Type} [DecidableEq α] {live after : List α}

/-- The rows that are not there yet, in their order. -/
def addMissing (live after : List α) : List α :=
  after.foldl (fun rows row => if row ∉ rows then rows ++ [row] else rows) live

theorem addMissing_eq (live after : List α) :
    ∃ extra, addMissing live after = live ++ extra ∧ extra.length ≤ after.length ∧
      (∀ row ∈ extra, row ∈ after ∧ row ∉ live) ∧ ∀ row ∈ after, row ∈ live ++ extra := by
  induction after generalizing live with
  | nil => exact ⟨[], by simp [addMissing]⟩
  | cons first after ih =>
    by_cases hmem : first ∈ live
    · obtain ⟨extra, hextra, hlength, hnew, hall⟩ := ih live
      refine ⟨extra, ?_, ?_, fun row hrow => ?_, fun row hrow => ?_⟩
      · rw [← hextra, addMissing, foldl_cons, if_neg (by simpa using hmem)]
        rfl
      · rw [length_cons]
        omega
      · exact ⟨List.mem_cons_of_mem _ (hnew row hrow).1, (hnew row hrow).2⟩
      · rcases mem_cons.mp hrow with rfl | hrest
        · exact mem_append_left _ hmem
        · exact hall row hrest
    · obtain ⟨extra, hextra, hlength, hnew, hall⟩ := ih (live ++ [first])
      refine ⟨first :: extra, ?_, ?_, fun row hrow => ?_, fun row hrow => ?_⟩
      · rw [append_cons, ← hextra, addMissing, foldl_cons, if_pos hmem]
        rfl
      · rw [length_cons, length_cons]
        omega
      · rcases mem_cons.mp hrow with rfl | hrest
        · exact ⟨by simp, hmem⟩
        · have hrow' := hnew row hrest
          exact ⟨List.mem_cons_of_mem _ hrow'.1, fun hlive => hrow'.2 (mem_append_left _ hlive)⟩
      · rcases mem_cons.mp hrow with rfl | hrest
        · simp
        · simpa [append_assoc] using hall row hrest

theorem addMissing_of_subset (h : ∀ row ∈ after, row ∈ live) : addMissing live after = live := by
  obtain ⟨extra, hextra, -, hnew, -⟩ := addMissing_eq live after
  have hnil : extra = [] := by
    rw [eq_nil_iff_forall_not_mem]
    intro row hrow
    exact (hnew row hrow).2 (h row (hnew row hrow).1)
  rw [hextra, hnil, append_nil]

variable (r : α → α → Prop) [DecidableRel r]

/-- The last rows in the order of `r`. -/
def lastRows (cap : Nat) (rows : List α) : List α :=
  (rows.insertionSort r).drop ((rows.insertionSort r).length - cap)

/-- A second round adds only rows that are too old to stay. -/
theorem lastRows_addMissing_lastRows [Std.Total r] [IsTrans α r]
    (h : live.length + after.length ≤ cap ∨
      ∀ a ∈ live ++ after, ∀ b ∈ live ++ after, r a b → r b a → a = b) :
    lastRows r cap (addMissing (lastRows r cap (addMissing live after)) after) =
      lastRows r cap (addMissing live after) := by
  obtain ⟨extra, hextra, hlength, hnew, hall⟩ := addMissing_eq live after
  rw [hextra]
  have hsorted : ((live ++ extra).insertionSort r).Pairwise r := pairwise_insertionSort r _
  have hmem : ∀ row, row ∈ (live ++ extra).insertionSort r ↔ row ∈ live ++ extra :=
    fun row => mem_insertionSort r
  have hinside : ∀ row ∈ live ++ extra, row ∈ live ++ after := by
    intro row hrow
    rcases mem_append.mp hrow with hlive | hadded
    · exact mem_append_left _ hlive
    · exact mem_append_right _ (hnew row hadded).1
  obtain ⟨dropped, hdropped⟩ : ∃ n, ((live ++ extra).insertionSort r).length - cap = n := ⟨_, rfl⟩
  have hkept : lastRows r cap (live ++ extra) = ((live ++ extra).insertionSort r).drop dropped := by
    rw [lastRows, hdropped]
  rw [hkept]
  generalize hrows : (live ++ extra).insertionSort r = rows at *
  have hkeptSorted : (rows.drop dropped).Pairwise r := hsorted.sublist (drop_sublist _ _)
  by_cases hzero : dropped = 0
  · subst hzero
    rw [drop_zero, addMissing_of_subset (fun row hrow => (hmem row).mpr (hall row hrow)),
      lastRows, hsorted.insertionSort_eq, hdropped, drop_zero]
  have hcap : (rows.drop dropped).length = cap := by
    rw [length_drop]
    omega
  have hdistinct : ∀ a ∈ live ++ after, ∀ b ∈ live ++ after, r a b → r b a → a = b := by
    rcases h with hfew | hdistinct
    · have hcount : rows.length = (live ++ extra).length := by
        rw [← hrows, length_insertionSort]
      rw [length_append] at hcount
      omega
    · exact hdistinct
  obtain ⟨again, hagain, -, hold, -⟩ := addMissing_eq (rows.drop dropped) after
  -- What comes back was cut off before, so it stands strictly before all that stayed.
  have hbefore : ∀ old ∈ again, ∀ row ∈ rows.drop dropped, r old row := by
    intro old holdmem row hrow
    have hcut : old ∈ rows.take dropped := by
      have hsome := (hmem old).mpr (hall old (hold old holdmem).1)
      rw [← take_append_drop dropped rows, mem_append] at hsome
      exact hsome.resolve_right (hold old holdmem).2
    have hsplit := hsorted
    rw [← take_append_drop dropped rows, pairwise_append] at hsplit
    exact hsplit.2.2 old hcut row hrow
  have hsort : (rows.drop dropped ++ again).insertionSort r =
      again.insertionSort r ++ rows.drop dropped := by
    refine @List.Perm.eq_of_pairwise α r _ _ ?_ (pairwise_insertionSort r _) ?_ ?_
    · intro a b ha hb hab hba
      have hrow : ∀ row, row ∈ rows.drop dropped ++ again → row ∈ live ++ after := by
        intro row hrow
        rcases mem_append.mp hrow with hstay | hback
        · exact hinside row ((hmem row).mp (mem_of_mem_drop hstay))
        · exact mem_append_right _ (hold row hback).1
      have hb' : b ∈ rows.drop dropped ++ again := by
        rw [mem_append, mem_insertionSort] at hb
        rw [mem_append]
        exact hb.symm
      exact hdistinct a (hrow a ((mem_insertionSort r).mp ha)) b (hrow b hb') hab hba
    · rw [pairwise_append]
      refine ⟨List.pairwise_insertionSort r _, hkeptSorted, fun old holdmem row hrow => ?_⟩
      exact hbefore old ((mem_insertionSort r).mp holdmem) row hrow
    · exact (perm_insertionSort r _).trans
        ((perm_append_comm).trans ((perm_insertionSort r again).symm.append_right _))
  rw [hagain, lastRows, hsort]
  have hcut : (again.insertionSort r ++ rows.drop dropped).length - cap =
      (again.insertionSort r).length := by
    rw [length_append, hcap]
    omega
  rw [hcut, drop_left]

end Histories

end Abbey.Lib
