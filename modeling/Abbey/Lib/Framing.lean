import Mathlib.Tactic.Common

/-!
# Records with a terminator

A sequence is divided at a separator into the records that are complete and the
rest after the last separator.  A reader that gets the sequence in chunks
keeps the rest between them: `frame_append` says that it sees the same records.

* `frame_split`: a cut between two records divides the sequence.
* `frame_nil_of_notMem`: nothing is complete without a separator.
* `readUntil_cases`: where a read of a bounded number of elements stops.
-/

namespace Abbey.Lib

open List

variable {α : Type} [DecidableEq α] {sep : α}
variable {records : List (List α)} {field record xs : List α}
variable {other : List α} {x : α}

/-- The complete records, without their separators, and the rest. -/
def frame (sep : α) : List α → List (List α) × List α
  | [] => ([], [])
  | x :: xs =>
    if x = sep then ([] :: (frame sep xs).1, (frame sep xs).2)
    else match (frame sep xs).1 with
      | [] => ([], x :: (frame sep xs).2)
      | record :: records => ((x :: record) :: records, (frame sep xs).2)

@[simp] theorem frame_nil : frame sep [] = ([], []) := rfl

theorem frame_cons_sep (xs : List α) :
    frame sep (sep :: xs) = ([] :: (frame sep xs).1, (frame sep xs).2) := by
  rw [frame, if_pos rfl]

theorem frame_cons_open (hx : x ≠ sep) (h : (frame sep xs).1 = []) :
    frame sep (x :: xs) = ([], x :: (frame sep xs).2) := by
  rw [frame, if_neg hx, h]

theorem frame_cons_record (hx : x ≠ sep) (h : (frame sep xs).1 = record :: records) :
    frame sep (x :: xs) = ((x :: record) :: records, (frame sep xs).2) := by
  rw [frame, if_neg hx, h]

/-- A reader that keeps the rest sees the records of the whole. -/
theorem frame_append (xs ys : List α) :
    frame sep (xs ++ ys) = ((frame sep xs).1 ++ (frame sep ((frame sep xs).2 ++ ys)).1,
      (frame sep ((frame sep xs).2 ++ ys)).2) := by
  induction xs with
  | nil => rfl
  | cons x xs ih =>
    rw [cons_append]
    by_cases hx : x = sep
    · subst hx
      rw [frame_cons_sep, frame_cons_sep, ih]
      rfl
    · cases hrecords : (frame sep xs).1 with
      | nil =>
        rw [hrecords, nil_append] at ih
        rw [frame_cons_open hx hrecords, nil_append, cons_append]
        cases hlater : (frame sep ((frame sep xs).2 ++ ys)).1 with
        | nil => rw [frame_cons_open hx (by rw [ih, hlater]), frame_cons_open hx hlater, ih]
        | cons record records =>
          rw [frame_cons_record hx (by rw [ih, hlater]), frame_cons_record hx hlater, ih]
      | cons record records =>
        rw [hrecords] at ih
        rw [frame_cons_record hx (by rw [ih]; rfl), frame_cons_record hx hrecords, ih]
        rfl

theorem frame_nil_of_notMem (h : sep ∉ xs) : frame sep xs = ([], xs) := by
  induction xs with
  | nil => rfl
  | cons x xs ih =>
    rw [mem_cons, not_or] at h
    rw [frame_cons_open (Ne.symm h.1) (by rw [ih h.2]), ih h.2]

theorem notMem_rest (xs : List α) : sep ∉ (frame sep xs).2 := by
  induction xs with
  | nil => exact not_mem_nil
  | cons x xs ih =>
    by_cases hx : x = sep
    · subst hx
      rw [frame_cons_sep]
      exact ih
    · cases hrecords : (frame sep xs).1 with
      | nil =>
        rw [frame_cons_open hx hrecords, mem_cons, not_or]
        exact ⟨Ne.symm hx, ih⟩
      | cons record records =>
        rw [frame_cons_record hx hrecords]
        exact ih

/-- Without a complete record everything is kept. -/
theorem rest_eq_of_no_record (h : (frame sep xs).1 = []) : (frame sep xs).2 = xs := by
  induction xs with
  | nil => rfl
  | cons x xs ih =>
    by_cases hx : x = sep
    · subst hx
      rw [frame_cons_sep] at h
      cases h
    · cases hrecords : (frame sep xs).1 with
      | nil => rw [frame_cons_open hx hrecords, ih hrecords]
      | cons record records =>
        rw [frame_cons_record hx hrecords] at h
        cases h

/-- The records and the rest hold nothing new. -/
theorem mem_of_mem_frame
    (h : (∃ record ∈ (frame sep xs).1, x ∈ record) ∨ x ∈ (frame sep xs).2) : x ∈ xs := by
  induction xs with
  | nil =>
    rcases h with ⟨record, hrecord, _⟩ | hrest
    · cases hrecord
    · cases hrest
  | cons y xs ih =>
    by_cases hy : y = sep
    · subst hy
      rw [frame_cons_sep] at h
      apply mem_cons_of_mem
      apply ih
      refine h.imp_left ?_
      rintro ⟨record, hrecord, hx⟩
      rcases mem_cons.mp hrecord with rfl | hmem
      · cases hx
      · exact ⟨record, hmem, hx⟩
    · cases hrecords : (frame sep xs).1 with
      | nil =>
        rw [frame_cons_open hy hrecords] at h
        rcases h with ⟨record, hrecord, _⟩ | hrest
        · cases hrecord
        · rcases mem_cons.mp hrest with rfl | hmem
          · exact mem_cons_self
          · exact mem_cons_of_mem y (ih (.inr hmem))
      | cons first later =>
        rw [frame_cons_record hy hrecords] at h
        rw [hrecords] at ih
        rcases h with ⟨record, hrecord, hx⟩ | hrest
        · rcases mem_cons.mp hrecord with rfl | hmem
          · rcases mem_cons.mp hx with rfl | hin
            · exact mem_cons_self
            · exact mem_cons_of_mem y (ih (.inl ⟨first, mem_cons_self, hin⟩))
          · exact mem_cons_of_mem y (ih (.inl ⟨record, mem_cons_of_mem first hmem, hx⟩))
        · exact mem_cons_of_mem y (ih (.inr hrest))

/-- The first record and what follows it. -/
theorem exists_first (h : (frame sep xs).1 = record :: records) :
    ∃ ys, xs = record ++ sep :: ys ∧ frame sep (record ++ [sep]) = ([record], []) ∧
      frame sep ys = (records, (frame sep xs).2) := by
  induction xs generalizing record records with
  | nil => cases h
  | cons x xs ih =>
    by_cases hx : x = sep
    · subst hx
      rw [frame_cons_sep] at h ⊢
      injection h with hrecord hrecords
      subst hrecord
      refine ⟨xs, rfl, by rw [nil_append, frame_cons_sep]; rfl, ?_⟩
      rw [← hrecords]
    · cases hrest : (frame sep xs).1 with
      | nil =>
        rw [frame_cons_open hx hrest] at h
        cases h
      | cons first later =>
        rw [frame_cons_record hx hrest] at h ⊢
        injection h with hrecord hrecords
        subst hrecord
        obtain ⟨ys, hxs, hfirst, hys⟩ := ih hrest
        refine ⟨ys, by rw [hxs]; rfl, ?_, by rw [hys, hrecords]⟩
        rw [cons_append, frame_cons_record hx (by rw [hfirst]), hfirst]

/-- Records that are complete are the records of a prefix. -/
theorem frame_split {before after : List (List α)} (h : (frame sep xs).1 = before ++ after) :
    ∃ ys zs, xs = ys ++ zs ∧ frame sep ys = (before, []) ∧ frame sep zs = (after, (frame sep xs).2) := by
  induction before generalizing xs with
  | nil => exact ⟨[], xs, rfl, rfl, by rw [← nil_append after, ← h]⟩
  | cons record before ih =>
    rw [cons_append] at h
    obtain ⟨rest, hxs, hfirst, hrest⟩ := exists_first h
    have hlater : (frame sep rest).1 = before ++ after := by rw [hrest]
    obtain ⟨ys, zs, hsplit, hys, hzs⟩ := ih hlater
    refine ⟨record ++ sep :: ys, zs, by rw [hxs, hsplit]; simp, ?_, by rw [hzs, hrest]⟩
    have happend : record ++ sep :: ys = (record ++ [sep]) ++ ys := by simp
    rw [happend, frame_append, hfirst, nil_append, hys]
    rfl

theorem frame_append_cons (h : sep ∉ record) (xs : List α) :
    frame sep (record ++ sep :: xs) = (record :: (frame sep xs).1, (frame sep xs).2) := by
  induction record with
  | nil => exact frame_cons_sep xs
  | cons x record ih =>
    rw [mem_cons, not_or] at h
    rw [cons_append, frame_cons_record (Ne.symm h.1) (by rw [ih h.2]), ih h.2]

theorem notMem_record (h : record ∈ (frame sep xs).1) : sep ∉ record := by
  induction xs generalizing record with
  | nil => cases h
  | cons x xs ih =>
    by_cases hx : x = sep
    · subst hx
      rw [frame_cons_sep] at h
      rcases mem_cons.mp h with rfl | hmem
      · exact not_mem_nil
      · exact ih hmem
    · cases hrecords : (frame sep xs).1 with
      | nil =>
        rw [frame_cons_open hx hrecords] at h
        cases h
      | cons first later =>
        rw [frame_cons_record hx hrecords] at h
        rw [hrecords] at ih
        rcases mem_cons.mp h with rfl | hmem
        · rw [mem_cons, not_or]
          exact ⟨Ne.symm hx, ih mem_cons_self⟩
        · exact ih (mem_cons_of_mem first hmem)

/-- The records with their separators and the rest are the sequence. -/
theorem flatten_frame (sep : α) (xs : List α) :
    ((frame sep xs).1.map (fun record => record ++ [sep])).flatten ++ (frame sep xs).2 = xs := by
  induction xs with
  | nil => rfl
  | cons x xs ih =>
    by_cases hx : x = sep
    · subst hx
      rw [frame_cons_sep]
      exact congrArg (cons x) ih
    · cases hrecords : (frame sep xs).1 with
      | nil =>
        rw [frame_cons_open hx hrecords]
        rw [hrecords] at ih
        exact congrArg (cons x) ih
      | cons first later =>
        rw [frame_cons_record hx hrecords]
        rw [hrecords] at ih
        exact congrArg (cons x) ih

/-! ## Bounded reads -/

/-- The elements up to a separator and with it, but at most a number of them,
and what is left. -/
def readUntil (sep : α) : Nat → List α → List α × List α
  | 0, xs => ([], xs)
  | _ + 1, [] => ([], [])
  | limit + 1, x :: xs =>
    if x = sep then ([x], xs)
    else (x :: (readUntil sep limit xs).1, (readUntil sep limit xs).2)

theorem readUntil_append (limit : Nat) (xs : List α) :
    (readUntil sep limit xs).1 ++ (readUntil sep limit xs).2 = xs := by
  fun_induction readUntil sep limit xs with
  | case1 xs => rfl
  | case2 limit => rfl
  | case3 limit xs => rfl
  | case4 limit x xs hx ih => rw [cons_append, ih]

theorem length_readUntil_le (limit : Nat) (xs : List α) :
    (readUntil sep limit xs).1.length ≤ limit := by
  fun_induction readUntil sep limit xs with
  | case1 xs => exact Nat.le_refl 0
  | case2 limit => exact Nat.zero_le _
  | case3 limit xs => exact Nat.succ_le_succ (Nat.zero_le limit)
  | case4 limit x xs hx ih => exact Nat.succ_le_succ ih

/-- A read stops after the separator, at the bound or at the end. -/
theorem readUntil_cases (limit : Nat) (xs : List α) :
    (∃ record, (readUntil sep limit xs).1 = record ++ [sep] ∧ sep ∉ record) ∨
      sep ∉ (readUntil sep limit xs).1 ∧
        ((readUntil sep limit xs).1.length = limit ∨ (readUntil sep limit xs).2 = []) := by
  fun_induction readUntil sep limit xs with
  | case1 xs => exact .inr ⟨List.not_mem_nil, .inl rfl⟩
  | case2 limit => exact .inr ⟨List.not_mem_nil, .inr rfl⟩
  | case3 limit xs => exact .inl ⟨[], rfl, not_mem_nil⟩
  | case4 limit x xs hx ih =>
    rcases ih with ⟨record, hrecord, hsep⟩ | ⟨hsep, hstop⟩
    · refine .inl ⟨x :: record, by rw [hrecord]; rfl, ?_⟩
      rw [mem_cons, not_or]
      exact ⟨Ne.symm hx, hsep⟩
    · refine .inr ⟨?_, hstop.imp_left (fun hlength => congrArg Nat.succ hlength)⟩
      rw [mem_cons, not_or]
      exact ⟨Ne.symm hx, hsep⟩

/-! ## Terminated fields -/

/-- Some fields with a separator after each. -/
def terminated (sep : α) (fields : List (List α)) : List α :=
  fields.flatMap (fun field => field ++ [sep])

/-- The parts of a field between the separators in it. -/
def parts (sep : α) (field : List α) : List (List α) :=
  (frame sep field).1 ++ [(frame sep field).2]

theorem terminated_append (xs ys : List (List α)) :
    terminated sep (xs ++ ys) = terminated sep xs ++ terminated sep ys :=
  flatMap_append

theorem terminated_cons (field : List α) (fields : List (List α)) :
    terminated sep (field :: fields) = field ++ sep :: terminated sep fields := by
  rw [terminated, flatMap_cons, append_assoc]
  rfl

theorem parts_ne_nil (field : List α) : parts sep field ≠ [] :=
  append_ne_nil_of_right_ne_nil _ (cons_ne_nil _ _)

theorem parts_of_notMem (h : sep ∉ field) : parts sep field = [field] := by
  rw [parts, frame_nil_of_notMem h, nil_append]

theorem terminated_parts (field : List α) : terminated sep (parts sep field) = field ++ [sep] := by
  have hflatten : terminated sep (frame sep field).1 ++ (frame sep field).2 = field := by
    rw [terminated, flatMap_def]
    exact flatten_frame sep field
  calc terminated sep (parts sep field)
      = terminated sep (frame sep field).1 ++ ((frame sep field).2 ++ [sep]) := by
        rw [parts, terminated_append, terminated_cons]
        rfl
    _ = field ++ [sep] := by rw [← append_assoc, hflatten]

theorem parts_inj (h : parts sep field = parts sep other) : field = other := by
  have hfield := @terminated_parts α _ sep field
  rw [h, terminated_parts] at hfield
  exact (append_cancel_right hfield).symm

theorem eq_of_parts (h : parts sep field = [other]) : field = other := by
  have hfield := @terminated_parts α _ sep field
  rw [h, terminated_cons] at hfield
  exact (append_cancel_right (show other ++ [sep] = field ++ [sep] from hfield)).symm

/-- Two parts are two fields when they have to be. -/
theorem eq_of_two_parts (h : [a, b] = parts sep field ++ (parts sep other ++ rest)) :
    field = a ∧ other = b ∧ rest = [] := by
  obtain ⟨c, cs, hfield⟩ := exists_cons_of_ne_nil (@parts_ne_nil α _ sep field)
  obtain ⟨d, ds, hother⟩ := exists_cons_of_ne_nil (@parts_ne_nil α _ sep other)
  have hlength := congrArg length h
  rw [hfield, hother] at hlength
  simp only [length_append, length_cons, length_nil] at hlength
  have hcs : cs = [] := eq_nil_of_length_eq_zero (by omega)
  have hds : ds = [] := eq_nil_of_length_eq_zero (by omega)
  have hrest : rest = [] := eq_nil_of_length_eq_zero (by omega)
  subst hcs hds hrest
  rw [hfield, hother] at h
  simp only [cons_append, nil_append, cons.injEq, and_true] at h
  exact ⟨eq_of_parts (h.1 ▸ hfield), eq_of_parts (h.2 ▸ hother), rfl⟩

/-- A reader sees the parts of the fields. -/
theorem frame_terminated (fields : List (List α)) :
    frame sep (terminated sep fields) = (fields.flatMap (parts sep), []) := by
  induction fields with
  | nil => rfl
  | cons field fields ih =>
    have hfield : frame sep (field ++ [sep]) = (parts sep field, []) := by
      rw [frame_append, frame_append_cons (notMem_rest field)]
      rfl
    have hcons : terminated sep (field :: fields) = (field ++ [sep]) ++ terminated sep fields := rfl
    rw [hcons, frame_append, hfield, nil_append, ih]
    rfl

/-- Fields without separators are read back. -/
theorem terminated_inj {xs ys : List (List α)} (hxs : ∀ x ∈ xs, sep ∉ x) (hys : ∀ y ∈ ys, sep ∉ y)
    (h : terminated sep xs = terminated sep ys) : xs = ys := by
  have hread : ∀ fields : List (List α), (∀ field ∈ fields, sep ∉ field) →
      fields.flatMap (parts sep) = fields := by
    intro fields hfields
    induction fields with
    | nil => rfl
    | cons field fields ih =>
      rw [forall_mem_cons] at hfields
      rw [flatMap_cons, parts_of_notMem hfields.1, ih hfields.2]
      rfl
  have hframe := congrArg (fun cs => (frame sep cs).1) h
  simp only [frame_terminated] at hframe
  rwa [hread xs hxs, hread ys hys] at hframe

end Abbey.Lib
