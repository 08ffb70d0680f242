import Mathlib.Data.List.Nodup
import Abbey.Recall.Store

/-!
# Saving and loading a store

Which sequences of edits leave a store that can be saved and loaded again.

* `Sound` is what `parse` establishes and every edit keeps.  A line that was
  kept as it is stays such a line for every store (`Kept`).
* `answered_eq` is the closed form of the ids that a sequence of inserts
  answers.  The next id stops at the greatest `u64`, so the ids are fresh
  exactly while they fit.
* `parse_render` reads a rendered store back.
* `survives_iff_fits` puts them together.
-/

namespace Abbey.Recall

open Abbey.Lib List WdbxStore Except
open Abbey.Run (isWhitespace)

variable {F : Type} {crates : Crates F}
variable {ls : List (List Char)} {line text : List Char} {values : List F} {id : Nat}
  {row : Nat × List F} {store' : WdbxStore F}
variable {rest : List (List Char)} {n : Nat}

/-! ## Sequences of edits -/

/-- One edit of a store. -/
inductive Edit (F : Type) where
  | putKv (key value : String)
  | removeKv (key : String)
  | insertVector (values : List F)
  | removeVector (id : Nat)

namespace WdbxStore

def ids (store : WdbxStore F) : List Nat := store.vectors.map Prod.fst

/-- The store after an edit. -/
def edit (store : WdbxStore F) : Edit F → WdbxStore F
  | .putKv key value => store.putKv key value
  | .removeKv key => (store.removeKv key).1
  | .insertVector values => (store.insertVector values).1
  | .removeVector id => (store.removeVector id).1

/-- The store after some edits. -/
def edits (store : WdbxStore F) (ops : List (Edit F)) : WdbxStore F := ops.foldl edit store

/-- The ids that the inserts among some edits answer, in order. -/
def answered : WdbxStore F → List (Edit F) → List Nat
  | _, [] => []
  | store, op :: ops =>
    match op with
    | .insertVector values =>
      (store.insertVector values).2 :: (store.insertVector values).1.answered ops
    | op => (store.edit op).answered ops

end WdbxStore

/-- The number of inserts. -/
def inserts (ops : List (Edit F)) : Nat :=
  (ops.filter (fun op => match op with
    | .insertVector _ => true
    | _ => false)).length

open WdbxStore

@[simp] theorem inserts_insertVector (values : List F) (ops : List (Edit F)) :
    inserts (.insertVector values :: ops) = inserts ops + 1 := rfl

theorem inserts_cons_of_ne {op : Edit F} (h : ∀ values, op ≠ .insertVector values)
    (ops : List (Edit F)) : inserts (op :: ops) = inserts ops := by
  cases op with
  | insertVector values => exact absurd rfl (h values)
  | putKv | removeKv | removeVector => rfl

/-! ## Lines that are kept -/

/-- A line that every store keeps as it is. -/
structure Kept (crates : Crates F) (line : List Char) : Prop where
  oneLine : '\n' ∉ line ∧ line.getLast? ≠ some '\r'
  parsed : ∀ store : WdbxStore F, parseLine crates store line =
    .ok { store with unknown := store.unknown ++ [line] }

/-- What one line of a file does to a store. -/
inductive Read (crates : Crates F) (store : WdbxStore F) (line : List Char) :
    WdbxStore F → Prop where
  | skipped : Read crates store line store
  | kv (key value : String) : Read crates store line (store.putKv key value)
  | vector (id : Nat) (values : List F) (bound : id ≤ u64Max) (unused : id ∉ store.ids) :
      Read crates store line { store with
        vectors := store.vectors ++ [(id, values)]
        nextId := max store.nextId (min (id + 1) u64Max) }
  | kept (parsed : ∀ other : WdbxStore F, parseLine crates other line =
        .ok { other with unknown := other.unknown ++ [line] }) :
      Read crates store line { store with unknown := store.unknown ++ [line] }

theorem asU64_eq_some {value : Value} (h : asU64 value = some id) : id ≤ u64Max := by
  unfold asU64 at h
  split at h
  · split_ifs at h with hbound
    cases h
    exact hbound
  · cases h

variable {store : WdbxStore F} {ops : List (Edit F)}

theorem read_of_parseRecord (h : parseRecord crates store line = .ok store')
    (hline : ∀ other : WdbxStore F, parseLine crates other line = parseRecord crates other line) :
    Read crates store line store' := by
  unfold parseRecord at h
  simp only [bind_ok_iff, mapErr_eq_ok, required_eq_ok] at h
  obtain ⟨value, hvalue, fields, hfields, typeName, htype, h⟩ := h
  split_ifs at h with hkv hvector
  · simp only [bind_ok_iff, ok.injEq] at h
    obtain ⟨key, _, text, _, rfl⟩ := h
    exact .kv key text
  · simp only [bind_ok_iff, required_eq_ok, ensure_eq_ok, ok.injEq] at h
    obtain ⟨id, hid, items, _, values, _, _, hunused, rfl⟩ := h
    refine .vector id values (asU64_eq_some hid) ?_
    intro hmem
    obtain ⟨row, hrow, hrowId⟩ := mem_map.mp hmem
    have hne := all_eq_true.mp hunused row hrow
    exact absurd hrowId (by simpa using hne)
  · cases h
    refine .kept (fun other => ?_)
    rw [hline]
    unfold parseRecord
    simp only [hvalue, mapErr, ok_bind, hfields, required_some, htype, if_neg hkv, if_neg hvector]

theorem read_of_parseLine (h : parseLine crates store line = .ok store') :
    Read crates store line store' := by
  by_cases hblank : line.all isWhitespace
  · rw [parseLine, if_pos hblank] at h
    cases h
    exact .skipped
  by_cases hchecksum : checksumPrefix.isPrefixOf line
  · rw [parseLine, if_neg hblank, if_pos hchecksum] at h
    cases h
    exact .skipped
  by_cases hcomment : line.head? = some '#'
  · rw [parseLine, if_neg hblank, if_neg hchecksum, if_pos hcomment] at h
    cases h
    refine .kept (fun other => ?_)
    rw [parseLine, if_neg hblank, if_neg hchecksum, if_pos hcomment]
  · have hline : ∀ other : WdbxStore F,
        parseLine crates other line = parseRecord crates other line := by
      intro other
      rw [parseLine, if_neg hblank, if_neg hchecksum, if_neg hcomment]
    rw [hline] at h
    exact read_of_parseRecord h hline

/-! ## What a parsed store is -/

/-- The greatest id of a store, zero when there is none. -/
def lastId (store : WdbxStore F) : Nat := store.ids.foldr max 0

/-- What `parse` establishes. -/
structure Sound (crates : Crates F) (store : WdbxStore F) : Prop where
  nodup : store.ids.Nodup
  bound : ∀ id ∈ store.ids, id ≤ u64Max
  next : store.nextId = min (lastId store + 1) u64Max
  kept : ∀ line ∈ store.unknown, Kept crates line

theorem foldr_max_append (xs : List Nat) (x : Nat) :
    (xs ++ [x]).foldr max 0 = max (xs.foldr max 0) x := by
  induction xs with
  | nil => simp
  | cons y ys ih => rw [cons_append, foldr_cons, foldr_cons, ih, max_assoc]

theorem le_lastId (h : id ∈ store.ids) : id ≤ lastId store := by
  unfold lastId
  generalize store.ids = ids at h
  induction ids with
  | nil => cases h
  | cons other ids ih =>
    rw [foldr_cons]
    rcases mem_cons.mp h with rfl | hmem
    · exact le_max_left _ _
    · exact le_trans (ih hmem) (le_max_right _ _)

theorem lastId_mem_or_zero (store : WdbxStore F) : lastId store ∈ store.ids ∨ lastId store = 0 := by
  unfold lastId
  generalize store.ids = ids
  induction ids with
  | nil => exact .inr rfl
  | cons id ids ih =>
    rw [foldr_cons]
    rcases le_total (ids.foldr max 0) id with hle | hle
    · rw [max_eq_left hle]
      exact .inl mem_cons_self
    · rw [max_eq_right hle]
      exact ih.imp_left (mem_cons_of_mem id)

theorem Sound.new : Sound crates (.new : WdbxStore F) := by
  refine ⟨List.nodup_nil, by simp [WdbxStore.new, ids], ?_, by simp [WdbxStore.new]⟩
  rfl

theorem Sound.read (h : Sound crates store)
    (hline : '\n' ∉ line ∧ line.getLast? ≠ some '\r') (hread : Read crates store line store') :
    Sound crates store' := by
  cases hread with
  | skipped => exact h
  | kv key value => exact ⟨h.nodup, h.bound, h.next, h.kept⟩
  | vector id values hbound hunused =>
    have hids : ({ store with
        vectors := store.vectors ++ [(id, values)]
        nextId := max store.nextId (min (id + 1) u64Max) } : WdbxStore F).ids =
          store.ids ++ [id] := by
      simp [ids]
    refine ⟨?_, ?_, ?_, h.kept⟩
    · rw [hids, ← concat_eq_append]
      exact List.Nodup.concat hunused h.nodup
    · rw [hids]
      intro other hother
      rcases mem_append.mp hother with hold | hnew
      · exact h.bound other hold
      · rw [mem_singleton.mp hnew]
        exact hbound
    · have hnext := h.next
      unfold lastId at hnext ⊢
      rw [hids, foldr_max_append]
      show max store.nextId (min (id + 1) u64Max) = _
      omega
  | kept hparsed =>
    refine ⟨h.nodup, h.bound, h.next, ?_⟩
    intro other hother
    rcases mem_append.mp hother with hold | hnew
    · exact h.kept other hold
    · rw [mem_singleton.mp hnew]
      exact ⟨hline, hparsed⟩

theorem trimEnd_getLast? (line : List Char) : (trimEnd line).getLast? ≠ some '\r' := by
  intro h
  unfold trimEnd at h
  have hne : line.rdropWhile (fun c => c = '\r') ≠ [] := by
    intro hnil
    rw [hnil] at h
    cases h
  have hlast := rdropWhile_last_not (fun c => decide (c = '\r')) line hne
  rw [getLast?_eq_some_getLast hne, Option.some.injEq] at h
  exact hlast (by simpa using h)

theorem trimEnd_eq (h : line.getLast? ≠ some '\r') : trimEnd line = line := by
  unfold trimEnd
  rw [rdropWhile_eq_self_iff]
  intro hne
  rw [getLast?_eq_some_getLast hne] at h
  simpa using h

theorem Sound.parseLines (h : Sound crates store)
    (hls : ∀ line ∈ ls, '\n' ∉ line) (hparse : parseLines crates store n ls = .ok store') :
    Sound crates store' := by
  induction ls generalizing store n with
  | nil =>
    cases hparse
    exact h
  | cons line ls ih =>
    rw [parseLines, bind_ok_iff] at hparse
    obtain ⟨mid, hmid, hrest⟩ := hparse
    rw [mapErr_eq_ok] at hmid
    have hnewline : '\n' ∉ trimEnd line := by
      intro hmem
      exact hls line mem_cons_self ((List.rdropWhile_prefix _ _).subset hmem)
    exact ih (h.read ⟨hnewline, trimEnd_getLast? line⟩ (read_of_parseLine hmid))
      (fun other hother => hls other (mem_cons_of_mem line hother)) hrest

theorem Sound.parse (h : parse crates text = .ok store) :
    Sound crates store := by
  unfold WdbxStore.parse at h
  simp only [bind_ok_iff] at h
  obtain ⟨_, _, hlines⟩ := h
  refine Sound.new.parseLines ?_ hlines
  intro line hline
  exact newline_notMem_of_mem_lines (mem_of_mem_tail hline)

/-! ## The ids of a run -/

section Ids

variable {store : WdbxStore F} {ops : List (Edit F)} {op : Edit F}

theorem Sound.next_le (h : Sound crates store) : store.nextId ≤ u64Max := by
  have hnext := h.next
  omega

theorem nextId_edit (h : ∀ values, op ≠ .insertVector values) :
    (store.edit op).nextId = store.nextId := by
  cases op with
  | insertVector values => exact absurd rfl (h values)
  | putKv | removeKv | removeVector => rfl

theorem answered_cons_of_ne (h : ∀ values, op ≠ .insertVector values)
    (ops : List (Edit F)) : store.answered (op :: ops) = (store.edit op).answered ops := by
  cases op with
  | insertVector values => exact absurd rfl (h values)
  | putKv | removeKv | removeVector => rfl

/-- The ids that the inserts answer count up and stop at the greatest
`u64`. -/
theorem answered_eq {store : WdbxStore F} (h : store.nextId ≤ u64Max) (ops : List (Edit F)) :
    store.answered ops = (range (inserts ops)).map (fun j => min (store.nextId + j) u64Max) := by
  induction ops generalizing store with
  | nil => rfl
  | cons op ops ih =>
    by_cases hop : ∃ values, op = .insertVector values
    · obtain ⟨values, rfl⟩ := hop
      have hnext : (store.insertVector values).1.nextId = min (store.nextId + 1) u64Max := rfl
      have hrest := @ih (store.insertVector values).1 (by omega)
      rw [answered, hrest, inserts_insertVector, range_succ_eq_map, map_cons, map_map]
      refine congrArg₂ cons ?_ ?_
      · show store.nextId = _
        omega
      · apply map_congr_left
        intro j _
        rw [hnext, Function.comp_apply]
        omega
    · have hne : ∀ values, op ≠ .insertVector values := fun values heq => hop ⟨values, heq⟩
      rw [answered_cons_of_ne hne, ih (by rw [nextId_edit hne]; exact h), nextId_edit hne,
        inserts_cons_of_ne hne]

/-- The vectors after some edits were there before or were inserted. -/
theorem ids_edits_sublist (store : WdbxStore F) (ops : List (Edit F)) :
    (store.edits ops).ids.Sublist (store.ids ++ store.answered ops) := by
  induction ops generalizing store with
  | nil => simp [edits, answered]
  | cons op ops ih =>
    have hrest := ih (store.edit op)
    cases op with
    | putKv key value => exact hrest
    | removeKv key => exact hrest
    | insertVector values =>
      have hids : (store.insertVector values).1.ids = store.ids ++ [store.nextId] := by
        simp [ids, insertVector]
      have hcons : store.ids ++ store.answered (.insertVector values :: ops) =
          (store.insertVector values).1.ids ++ (store.insertVector values).1.answered ops := by
        rw [hids, append_assoc]
        rfl
      rw [hcons]
      exact hrest
    | removeVector id =>
      refine hrest.trans (List.Sublist.append_right ?_ _)
      exact List.Sublist.map Prod.fst filter_sublist

/-- The ids are fresh while they fit. -/
theorem fresh_of_fits (h : Sound crates store)
    (hfits : lastId store + inserts ops ≤ u64Max) : (store.ids ++ store.answered ops).Nodup := by
  have hanswered : store.answered ops =
      (range (inserts ops)).map (fun j => lastId store + 1 + j) := by
    rw [answered_eq h.next_le]
    apply map_congr_left
    intro j hj
    have hlt := mem_range.mp hj
    have hnext := h.next
    omega
  rw [hanswered, nodup_append]
  refine ⟨h.nodup, ?_, ?_⟩
  · apply List.Nodup.map _ nodup_range
    intro i j hij
    simp only at hij
    omega
  · intro id hid other hother heq
    obtain ⟨j, _, rfl⟩ := mem_map.mp hother
    have hle := le_lastId hid
    omega

/-- Ids that do not fit are answered twice. -/
theorem fits_of_fresh (h : Sound crates store) (hfresh : (store.ids ++ store.answered ops).Nodup) :
    lastId store + inserts ops ≤ u64Max := by
  by_contra hover
  have hnext := h.next
  obtain ⟨_, hanswered, hdisjoint⟩ := nodup_append.mp hfresh
  rw [answered_eq h.next_le] at hanswered hdisjoint
  have hbound : lastId store ≤ u64Max := by
    rcases lastId_mem_or_zero store with hmem | hzero
    · exact h.bound _ hmem
    · omega
  by_cases hone : inserts ops = 1
  · -- the greatest id is taken, and the only insert answers it again
    have hlast : lastId store = u64Max := by omega
    have hmem : lastId store ∈ store.ids := by
      rcases lastId_mem_or_zero store with hmem | hzero
      · exact hmem
      · have hpos : 0 < u64Max := by decide
        omega
    refine hdisjoint _ hmem (lastId store) ?_ rfl
    refine mem_map.mpr ⟨0, mem_range.mpr (by omega), ?_⟩
    omega
  · -- the last two inserts answer the same id
    have hinj := inj_on_of_nodup_map hanswered
      (mem_range.mpr (show inserts ops - 2 < inserts ops by omega))
      (mem_range.mpr (show inserts ops - 1 < inserts ops by omega)) (by omega)
    omega

end Ids

/-! ## The vectors of a run -/

theorem mem_vectors_edits (h : row ∈ (store.edits ops).vectors) :
    (row ∈ store.vectors ∧ .removeVector row.1 ∉ ops) ∨ .insertVector row.2 ∈ ops := by
  induction ops generalizing store with
  | nil => exact .inl ⟨h, not_mem_nil⟩
  | cons op ops ih =>
    rcases ih h with ⟨hmem, hkept⟩ | hinserted
    · cases op with
      | putKv key value | removeKv key => exact .inl ⟨hmem, by simp [hkept]⟩
      | insertVector values =>
        rcases mem_append.mp hmem with hold | hnew
        · exact .inl ⟨hold, by simp [hkept]⟩
        · rw [mem_singleton.mp hnew]
          exact .inr mem_cons_self
      | removeVector id =>
        obtain ⟨hold, hne⟩ := mem_filter.mp hmem
        have hid : row.1 ≠ id := by simpa using hne
        exact .inl ⟨hold, by simp [hkept, hid]⟩
    · exact .inr (mem_cons_of_mem op hinserted)

/-- A vector that is not removed stays. -/
theorem mem_vectors_edits_of_mem (h : row ∈ store.vectors) (hkept : .removeVector row.1 ∉ ops) :
    row ∈ (store.edits ops).vectors := by
  induction ops generalizing store with
  | nil => exact h
  | cons op ops ih =>
    rw [mem_cons, not_or] at hkept
    refine ih ?_ hkept.2
    cases op with
    | putKv key value => exact h
    | removeKv key => exact h
    | insertVector values => exact mem_append_left _ h
    | removeVector id =>
      have hne : row.1 ≠ id := by
        rintro rfl
        exact hkept.1 rfl
      exact mem_filter.mpr ⟨h, by simpa using hne⟩

theorem unknown_edits (store : WdbxStore F) (ops : List (Edit F)) :
    (store.edits ops).unknown = store.unknown := by
  induction ops generalizing store with
  | nil => rfl
  | cons op ops ih =>
    have hop : (store.edit op).unknown = store.unknown := by cases op <;> rfl
    exact (ih (store.edit op)).trans hop

/-! ## A rendered store -/

/-- The parser reads back the records of a store. -/
structure Reads (crates : Crates F) (store : WdbxStore F) : Prop where
  kv : ∀ row ∈ store.kv.toList, crates.parse (kvLine row.1 row.2) =
    .ok (.object [("key", .string row.1), ("type", .string "kv"), ("value", .string row.2)])
  vector : ∀ row ∈ store.vectors, row.2.all crates.isFinite = true →
    crates.parse (vectorLine crates row.1 row.2) = .ok (.object [("id", .number (.posInt row.1)),
      ("type", .string "vector"),
      ("values", .array (row.2.map (fun x => .number (.other (crates.f32Text x)))))])
  number : ∀ row ∈ store.vectors, ∀ x ∈ row.2, crates.isFinite x = true →
    '\n' ∉ (crates.f32Text x).toList ∧ crates.asF32 (.other (crates.f32Text x)) = x

/-- A line that starts a record. -/
structure Opens (line : List Char) : Prop where
  oneLine : '\n' ∉ line ∧ line.getLast? ≠ some '\r'
  parseLine : ∀ {F : Type} (crates : Crates F) (store : WdbxStore F),
    WdbxStore.parseLine crates store line = parseRecord crates store line

theorem opens_object {fields : List (String × Value)} (h : ∀ field ∈ fields, '\n' ∉ field.2.print) :
    Opens (Value.object fields).print := by
  have hprint : (Value.object fields).print = '\x7b' :: (Value.printFields fields ++ ['\x7d']) := by
    rw [Value.print]
    rfl
  have hfields := Value.newline_notMem_printFields h
  refine ⟨⟨by simp [hprint, hfields], ?_⟩, ?_⟩
  · rw [hprint, ← cons_append, getLast?_concat]
    decide
  · intro F crates store
    have hbrace : isWhitespace '\x7b' = false := by decide
    have hblank : (Value.object fields).print.all isWhitespace = false := by
      rw [hprint, all_cons, hbrace, Bool.false_and]
    have hchecksum : checksumPrefix.isPrefixOf (Value.object fields).print = false := by
      rw [hprint]
      rfl
    have hhead : (Value.object fields).print.head? ≠ some '#' := by
      rw [hprint, head?_cons]
      decide
    rw [parseLine, hblank, hchecksum, if_neg Bool.false_ne_true, if_neg Bool.false_ne_true,
      if_neg hhead]

theorem opens_kvLine (key value : String) : Opens (kvLine key value) := by
  apply opens_object
  simp [Value.newline_notMem_printString]

theorem newline_notMem_printItems {items : List Value} (h : ∀ item ∈ items, '\n' ∉ item.print) :
    '\n' ∉ Value.printItems items := by
  induction items with
  | nil => simp [Value.printItems]
  | cons item items ih =>
    have hitem := h item mem_cons_self
    have hrest := ih (fun other hother => h other (mem_cons_of_mem item hother))
    cases items with
    | nil => simpa [Value.printItems] using hitem
    | cons other items => simp [Value.printItems, hitem, hrest]

theorem newline_notMem_decimal (n : Nat) : '\n' ∉ (toString n).toList := by
  have hdigits : (toString n).toList = Nat.toDigits 10 n := by
    show (Nat.repr n).toList = _
    rw [Nat.repr, String.toList_ofList]
  intro h
  rw [hdigits] at h
  have hdigit : '\n'.isDigit := Nat.isDigit_of_mem_toDigits (by decide) (by decide) h
  exact absurd hdigit (by decide)

theorem opens_vectorLine (h : ∀ x ∈ values, '\n' ∉ (crates.f32Text x).toList) :
    Opens (vectorLine crates id values) := by
  have hid : '\n' ∉ (Value.number (.posInt id)).print := by
    rw [Value.print]
    exact newline_notMem_decimal id
  have hitems : '\n' ∉ (Value.array (values.map
      (fun x => .number (.other (crates.f32Text x))))).print := by
    have hall : ∀ item ∈ values.map (fun x => Value.number (.other (crates.f32Text x))),
        '\n' ∉ item.print := by
      intro item hitem
      obtain ⟨x, hx, rfl⟩ := mem_map.mp hitem
      rw [Value.print]
      exact h x hx
    have hrows := newline_notMem_printItems hall
    rw [Value.print]
    simp [hrows]
  apply opens_object
  simp [Value.newline_notMem_printString, hid, hitems]

theorem parseRecord_kvLine {key value : String} (h : crates.parse (kvLine key value) =
      .ok (.object [("key", .string key), ("type", .string "kv"), ("value", .string value)]))
    (store : WdbxStore F) :
    parseRecord crates store (kvLine key value) = .ok (store.putKv key value) := by
  unfold parseRecord
  rw [h]
  rfl

theorem mapM_element (h : ∀ x ∈ values, crates.asF32 (.other (crates.f32Text x)) = x) :
    (values.map (fun x => Value.number (.other (crates.f32Text x)))).mapM (element crates) =
      .ok values := by
  rw [mapM_eq_ok, forall₂_map_left_iff, forall₂_same]
  intro x hx
  rw [element, h x hx]

theorem parseRecord_vectorLine (h : crates.parse (vectorLine crates id values) =
      .ok (.object [("id", .number (.posInt id)), ("type", .string "vector"),
      ("values", .array (values.map (fun x => .number (.other (crates.f32Text x)))))]))
    (hvalues : ∀ x ∈ values, crates.asF32 (.other (crates.f32Text x)) = x) (hid : id ≤ u64Max)
    (hunused : id ∉ store.ids) :
    parseRecord crates store (vectorLine crates id values) = .ok { store with
      vectors := store.vectors ++ [(id, values)]
      nextId := max store.nextId (min (id + 1) u64Max) } := by
  have hall : store.vectors.all (fun row => decide (row.1 ≠ id)) := by
    rw [all_eq_true]
    intro row hrow
    have hne : row.1 ≠ id := fun heq => hunused (mem_map.mpr ⟨row, hrow, heq⟩)
    simpa using hne
  have htype : (Value.object [("id", .number (.posInt id)), ("type", .string "vector"),
      ("values", .array (values.map (fun x => .number (.other (crates.f32Text x)))))]).index
        "type" = .string "vector" := rfl
  have hindex : (Value.object [("id", .number (.posInt id)), ("type", .string "vector"),
      ("values", .array (values.map (fun x => .number (.other (crates.f32Text x)))))]).index
        "id" = .number (.posInt id) := rfl
  have hitems : (Value.object [("id", .number (.posInt id)), ("type", .string "vector"),
      ("values", .array (values.map (fun x => .number (.other (crates.f32Text x)))))]).index
        "values" = .array (values.map (fun x => .number (.other (crates.f32Text x)))) := rfl
  unfold parseRecord
  rw [h]
  simp only [mapErr, ok_bind, Value.asObject, required_some, htype, Value.asStr, hindex, asU64,
    if_pos hid, hitems, asArray, mapM_element hvalues, hall, ensure_true]
  rfl

/-! ## Reading a rendered store back -/

theorem parseLines_cons (hlast : line.getLast? ≠ some '\r')
    (h : parseLine crates store line = .ok store') :
    parseLines crates store n (line :: rest) = parseLines crates store' (n + 1) rest := by
  rw [parseLines, trimEnd_eq hlast, h]
  rfl

/-- The lines of the vectors are read back in order. -/
theorem parseLines_vectors {rows : List (Nat × List F)} (store : WdbxStore F) (n : Nat)
    (rest : List (List Char)) (hunused : (store.ids ++ rows.map Prod.fst).Nodup)
    (hread : ∀ row ∈ rows, Opens (vectorLine crates row.1 row.2) ∧
      ∀ other : WdbxStore F, row.1 ∉ other.ids →
        parseRecord crates other (vectorLine crates row.1 row.2) = .ok { other with
          vectors := other.vectors ++ [row]
          nextId := max other.nextId (min (row.1 + 1) u64Max) }) :
    ∃ next, parseLines crates store n (rows.map (fun row => vectorLine crates row.1 row.2) ++ rest) =
      parseLines crates { store with vectors := store.vectors ++ rows, nextId := next }
        (n + rows.length) rest := by
  induction rows generalizing store n with
  | nil => exact ⟨store.nextId, by simp⟩
  | cons row rows ih =>
    obtain ⟨hopens, hparse⟩ := hread row mem_cons_self
    have hrow : row.1 ∉ store.ids := by
      intro hmem
      have hdisjoint := (nodup_append.mp hunused).2.2
      exact hdisjoint row.1 hmem row.1 (by simp) rfl
    have hids : ({ store with
        vectors := store.vectors ++ [row]
        nextId := max store.nextId (min (row.1 + 1) u64Max) } : WdbxStore F).ids =
          store.ids ++ [row.1] := by
      simp [ids]
    obtain ⟨next, hnext⟩ := ih { store with
        vectors := store.vectors ++ [row]
        nextId := max store.nextId (min (row.1 + 1) u64Max) } (n + 1)
      (by rw [hids, append_assoc]; exact hunused)
      (fun other hother => hread other (mem_cons_of_mem row hother))
    refine ⟨next, ?_⟩
    rw [map_cons, cons_append, parseLines_cons hopens.oneLine.2
      ((hopens.parseLine crates store).trans (hparse store hrow)), hnext]
    simp only [append_assoc, singleton_append, length_cons, Nat.add_assoc, Nat.add_comm 1]

/-- The lines of the map are read back. -/
theorem parseLines_kv {rows : List (String × String)}
    (hread : ∀ row ∈ rows, ∀ other : WdbxStore F, parseRecord crates other (kvLine row.1 row.2) =
      .ok (other.putKv row.1 row.2)) :
    parseLines crates store n (rows.map (fun row => kvLine row.1 row.2) ++ rest) =
      parseLines crates { store with kv := store.kv.insertMany rows } (n + rows.length) rest := by
  induction rows generalizing store n with
  | nil => rfl
  | cons row rows ih =>
    have hopens := opens_kvLine row.1 row.2
    have hparse := hread row mem_cons_self store
    rw [map_cons, cons_append, parseLines_cons hopens.oneLine.2
      ((hopens.parseLine crates store).trans hparse),
      ih (fun other hother => hread other (mem_cons_of_mem row hother)),
      Std.ExtTreeMap.insertMany_cons, length_cons, Nat.add_assoc, Nat.add_comm 1]
    rfl

/-- The kept lines are kept again. -/
theorem parseLines_kept (hkept : ∀ line ∈ ls, Kept crates line) :
    parseLines crates store n ls = .ok { store with unknown := store.unknown ++ ls } := by
  induction ls generalizing store n with
  | nil => simp [parseLines]
  | cons line ls ih =>
    have hline := hkept line mem_cons_self
    rw [parseLines_cons hline.oneLine.2 (hline.parsed store),
      ih (fun other hother => hkept other (mem_cons_of_mem line hother))]
    simp

/-- A map is what its rows make of the empty map. -/
theorem insertMany_toList (m : BTreeMap) : (∅ : BTreeMap).insertMany m.toList = m := by
  rw [← Std.ExtTreeMap.ofList_eq_insertMany_empty]
  apply Std.ExtTreeMap.ext_getElem?
  intro key
  cases hkey : m[key]? with
  | some value =>
    refine Std.ExtTreeMap.getElem?_ofList_of_mem (k := key) ?_
      Std.ExtTreeMap.distinct_keys_toList ?_
    · exact Std.ReflCmp.compare_self
    · exact Std.ExtTreeMap.mem_toList_iff_getElem?_eq_some.mpr hkey
  | none =>
    apply Std.ExtTreeMap.getElem?_ofList_of_contains_eq_false
    rw [Bool.eq_false_iff]
    intro hcontains
    obtain ⟨row, hrow, rfl⟩ := mem_map.mp (contains_iff_mem.mp hcontains)
    have hsome : m[row.1]? = some row.2 :=
      Std.ExtTreeMap.mem_toList_iff_getElem?_eq_some.mp hrow
    rw [hkey] at hsome
    cases hsome

/-- The lines of a store with finite vectors. -/
def storeLines (crates : Crates F) (store : WdbxStore F) : List (List Char) :=
  header :: store.vectors.map (fun row => vectorLine crates row.1 row.2) ++
    store.kv.toList.map (fun row => kvLine row.1 row.2) ++ store.unknown

/-- A store is written exactly when its vectors are finite. -/
theorem tryRender_eq_ok : tryRender crates store = .ok text ↔
      (∀ row ∈ store.vectors, row.2.all crates.isFinite) ∧
        text = unlines (storeLines crates store) := by
  have hrow : ∀ (row : Nat × List F) (line : List Char), renderVector crates row = .ok line ↔
      row.2.all crates.isFinite ∧ line = vectorLine crates row.1 row.2 := by
    intro row line
    unfold renderVector
    split_ifs with hfinite
    · simp [hfinite, eq_comm]
    · simp [hfinite]
  unfold tryRender storeLines
  simp only [bind_ok_iff, mapM_eq_ok, hrow, forall₂_map_iff, ok.injEq]
  constructor
  · rintro ⟨_, ⟨hfinite, rfl⟩, rfl⟩
    exact ⟨hfinite, rfl⟩
  · rintro ⟨hfinite, rfl⟩
    exact ⟨_, ⟨hfinite, rfl⟩, rfl⟩

/-- The records of a store with finite vectors start lines, and are read
back. -/
theorem reads_vector (hreads : Reads crates store)
    (hbound : ∀ id ∈ store.ids, id ≤ u64Max) (hrow : row ∈ store.vectors)
    (hfinite : row.2.all crates.isFinite) :
    Opens (vectorLine crates row.1 row.2) ∧ ∀ other : WdbxStore F, row.1 ∉ other.ids →
      parseRecord crates other (vectorLine crates row.1 row.2) = .ok { other with
        vectors := other.vectors ++ [row]
        nextId := max other.nextId (min (row.1 + 1) u64Max) } := by
  have hnumber : ∀ x ∈ row.2, '\n' ∉ (crates.f32Text x).toList ∧
      crates.asF32 (.other (crates.f32Text x)) = x :=
    fun x hx => hreads.number row hrow x hx (all_eq_true.mp hfinite x hx)
  refine ⟨opens_vectorLine (fun x hx => (hnumber x hx).1), fun other hunused => ?_⟩
  exact parseRecord_vectorLine (hreads.vector row hrow hfinite) (fun x hx => (hnumber x hx).2)
    (hbound row.1 (mem_map_of_mem hrow)) hunused

/-- A rendered store is read back, with the next id computed again. -/
theorem parse_storeLines (hnodup : store.ids.Nodup)
    (hbound : ∀ id ∈ store.ids, id ≤ u64Max) (hkept : ∀ line ∈ store.unknown, Kept crates line)
    (hfinite : ∀ row ∈ store.vectors, row.2.all crates.isFinite)
    (hreads : Reads crates store) :
    ∃ next, parse crates (unlines (storeLines crates store)) =
      .ok { store with nextId := next } := by
  have hvector := fun row hrow => reads_vector hreads hbound hrow (hfinite row hrow)
  have hlines : lines (unlines (storeLines crates store)) = storeLines crates store := by
    apply lines_unlines
    intro line hline
    unfold storeLines at hline
    rw [cons_append, cons_append, mem_cons, mem_append, mem_append] at hline
    rcases hline with rfl | (hline | hline) | hline
    · decide
    · obtain ⟨row, hrow, rfl⟩ := mem_map.mp hline
      exact (hvector row hrow).1.oneLine
    · obtain ⟨row, _, rfl⟩ := mem_map.mp hline
      exact (opens_kvLine row.1 row.2).oneLine
    · exact (hkept line hline).oneLine
  obtain ⟨next, hvectors⟩ := parseLines_vectors new 2
    (store.kv.toList.map (fun row => kvLine row.1 row.2) ++ store.unknown) hnodup hvector
  refine ⟨next, ?_⟩
  have htail : (storeLines crates store).tail =
      store.vectors.map (fun row => vectorLine crates row.1 row.2) ++
        (store.kv.toList.map (fun row => kvLine row.1 row.2) ++ store.unknown) := by
    unfold storeLines
    rw [cons_append, cons_append, tail_cons, append_assoc]
  have hheader : trimEnd ((storeLines crates store).head?.getD []) = header := by
    show trimEnd header = header
    exact trimEnd_eq (by decide)
  unfold parse
  rw [hlines, hheader, htail, hvectors,
    parseLines_kv (fun row hrow other => parseRecord_kvLine (hreads.kv row hrow) other),
    parseLines_kept hkept]
  have hkv : (new : WdbxStore F).kv.insertMany store.kv.toList = store.kv :=
    insertMany_toList store.kv
  simp only [decide_true, ensure_true, ok_bind, new, nil_append] at hkv ⊢
  rw [hkv]

/-! ## Edits that leave a store that can be saved -/

/-- What a user of a store relies on after some edits: the ids are distinct
at every point, every insert answered an id that no vector had before, and
the store is written and read back as it was. -/
structure Survives (crates : Crates F) (store : WdbxStore F) (ops : List (Edit F)) : Prop where
  distinct : ∀ done, done <+: ops → (store.edits done).ids.Nodup
  fresh : (store.ids ++ store.answered ops).Nodup
  saved : ∃ text, tryRender crates (store.edits ops) = .ok text ∧ ∃ loaded,
    parse crates text = .ok loaded ∧ loaded.kv = (store.edits ops).kv ∧
    loaded.vectors = (store.edits ops).vectors ∧ loaded.unknown = (store.edits ops).unknown ∧
    tryRender crates loaded = .ok text

/-- The ids of the inserts fit in a `u64`, and every vector with a number
beyond the range of `f32` is removed. -/
structure Fits (crates : Crates F) (store : WdbxStore F) (ops : List (Edit F)) : Prop where
  ids : lastId store + inserts ops ≤ u64Max
  finite : ∀ row ∈ store.vectors, row.2.all crates.isFinite = false → .removeVector row.1 ∈ ops

theorem inserts_le_of_prefix {done : List (Edit F)} (h : done <+: ops) :
    inserts done ≤ inserts ops :=
  (h.sublist.filter _).length_le

/-- A parsed store survives some edits exactly when they fit. -/
theorem survives_iff_fits {text : List Char} {store : WdbxStore F}
    (hparse : parse crates text = .ok store) {ops : List (Edit F)}
    (hinserted : ∀ values, .insertVector values ∈ ops → values.all crates.isFinite = true)
    (hreads : Reads crates (store.edits ops)) :
    Survives crates store ops ↔ Fits crates store ops := by
  have hsound := Sound.parse hparse
  constructor
  · intro h
    refine ⟨fits_of_fresh hsound h.fresh, ?_⟩
    intro row hrow hinfinite
    by_contra hkept
    obtain ⟨out, hrender, _⟩ := h.saved
    have hfinite := (tryRender_eq_ok.mp hrender).1 row (mem_vectors_edits_of_mem hrow hkept)
    rw [hinfinite] at hfinite
    cases hfinite
  · intro h
    have hfresh := fresh_of_fits hsound h.ids
    have hdistinct : ∀ done, done <+: ops → (store.edits done).ids.Nodup := by
      intro done hdone
      have hle := inserts_le_of_prefix hdone
      have hids := h.ids
      exact (fresh_of_fits hsound (by omega)).sublist (ids_edits_sublist store done)
    have hbound : ∀ id ∈ (store.edits ops).ids, id ≤ u64Max := by
      intro id hid
      rcases mem_append.mp ((ids_edits_sublist store ops).subset hid) with hold | hnew
      · exact hsound.bound id hold
      · rw [answered_eq hsound.next_le] at hnew
        obtain ⟨j, _, rfl⟩ := mem_map.mp hnew
        exact min_le_right _ _
    have hkept : ∀ line ∈ (store.edits ops).unknown, Kept crates line := by
      rw [unknown_edits]
      exact hsound.kept
    have hfinite : ∀ row ∈ (store.edits ops).vectors, row.2.all crates.isFinite = true := by
      intro row hrow
      rcases mem_vectors_edits hrow with ⟨hold, hstays⟩ | hnew
      · by_contra hinfinite
        rw [Bool.not_eq_true] at hinfinite
        exact hstays (h.finite row hold hinfinite)
      · exact hinserted row.2 hnew
    obtain ⟨next, hloaded⟩ :=
      parse_storeLines (hdistinct ops (prefix_refl ops)) hbound hkept hfinite hreads
    have hrender := tryRender_eq_ok.mpr ⟨hfinite, rfl⟩
    exact ⟨hdistinct, hfresh, _, hrender, _, hloaded, rfl, rfl, rfl, hrender⟩

/-! ## A saved file -/

/-- `f32` by its text, and a parser that knows some lines. -/
def sampleCrates : Crates String where
  parse line :=
    if line = kvLine "note" "hello" then
      .ok (.object [("key", .string "note"), ("type", .string "kv"), ("value", .string "hello")])
    else if line = "\x7b\"type\":\"vector\",\"id\":1,\"values\":[0.5]\x7d".toList then
      .ok (.object [("id", .number (.posInt 1)), ("type", .string "vector"),
        ("values", .array [.number (.other "0.5")])])
    else if line = "\x7b\"type\":\"vector\",\"id\":2,\"values\":[0.25]\x7d".toList then
      .ok (.object [("id", .number (.posInt 2)), ("type", .string "vector"),
        ("values", .array [.number (.other "0.25")])])
    else if line = "\x7b\"type\":\"vector\",\"id\":18446744073709551615,\"values\":[]\x7d".toList then
      .ok (.object [("id", .number (.posInt u64Max)), ("type", .string "vector"),
        ("values", .array [])])
    else if line = "\x7b\"type\":\"block\"\x7d".toList then .ok (.object [("type", .string "block")])
    else .error "expected value"
  asF32
    | .posInt n => s!"{n}.0"
    | .other text => text
  isFinite x := x ≠ "inf"
  f32Text x := x

def sampleText : List Char := unlines
  ["# ABI-WDBX v1".toList, "\x7b\"type\":\"vector\",\"id\":1,\"values\":[0.5]\x7d".toList,
    "\x7b\"type\":\"block\"\x7d".toList]

def sampleStore : WdbxStore String :=
  ⟨∅, [(1, ["0.5"])], 2, ["\x7b\"type\":\"block\"\x7d".toList]⟩

/-- The edits of a user: two writes and the removal of the old vector. -/
def sampleEdits : List (Edit String) :=
  [.insertVector ["0.25"], .putKv "note" "hello", .removeVector 1]

theorem survives_iff_fits_sample : parse sampleCrates sampleText = .ok sampleStore ∧
    (Survives sampleCrates sampleStore sampleEdits ↔ Fits sampleCrates sampleStore sampleEdits) := by
  have hparse : parse sampleCrates sampleText = .ok sampleStore := by decide +kernel
  refine ⟨hparse, survives_iff_fits hparse ?_ ⟨?_, ?_, ?_⟩⟩
  · intro values hvalues
    have heq : values = ["0.25"] := by simpa [sampleEdits] using hvalues
    rw [heq]
    decide
  · have hkv : (sampleStore.edits sampleEdits).kv.toList = [("note", "hello")] := by decide +kernel
    rw [hkv]
    decide +kernel
  · have hvectors : (sampleStore.edits sampleEdits).vectors = [(2, ["0.25"])] := by decide +kernel
    rw [hvectors]
    decide +kernel
  · have hvectors : (sampleStore.edits sampleEdits).vectors = [(2, ["0.25"])] := by decide +kernel
    rw [hvectors]
    decide +kernel

/-- A file with a vector under the greatest `u64`. -/
def fullText : List Char := unlines
  ["# ABI-WDBX v1".toList,
    "\x7b\"type\":\"vector\",\"id\":18446744073709551615,\"values\":[]\x7d".toList]

/-- The next insert answers the id that is taken. -/
theorem full_file_lost : parse sampleCrates fullText = .ok ⟨∅, [(u64Max, [])], u64Max, []⟩ ∧
    ¬ Survives sampleCrates ⟨∅, [(u64Max, [])], u64Max, []⟩ [.insertVector ["0.25"]] := by
  refine ⟨by decide +kernel, fun h => ?_⟩
  have hids := h.fresh
  have htwice : ¬ ([u64Max, u64Max] : List Nat).Nodup := by decide
  exact htwice hids

end Abbey.Recall
