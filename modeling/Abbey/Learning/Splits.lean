import Abbey.Conversation.Names
import Abbey.Learning.Data

/-!
# The splits of a dataset

`validate_rows` walks over the rows once and keeps what it has seen.
`validateRows_eq_ok` says what it makes sure of, in terms of the rows
alone: the prompts of a dataset have one lineage each.  The split of a row
is a function of its lineage, and so no prompt is in two splits.

The rows that `prepare` publishes are read back from its files, and they
are the rows of the source.
-/

namespace Abbey.Learning

open Abbey.Lib
open Abbey.Conversation (Sha256 utf8 lowerHex trim)
open Abbey.Run (isWhitespace)

/-! ## The checks of a dataset -/

section Rows

variable {row : Row} {rows before : List Row} {isPrivate : Bool}

/-- The prompt and the response of a row, as the checks compare them. -/
def Row.content (row : Row) : String × String := (normalize row.prompt, normalize row.response)

/-- The checks of one row. -/
structure Row.Ok (row : Row) (isPrivate : Bool) : Prop where
  texts : ∀ text ∈ [row.id, row.lineage, row.prompt, row.response, row.provenance],
    checkedText text = .ok ()
  approved : row.approved = true
  consented : row.isPrivate = true → isPrivate = true

/-- The checks between the rows. -/
structure Distinct (rows : List Row) : Prop where
  ids : (rows.map Row.id).Nodup
  contents : (rows.map Row.content).Nodup
  lineages : ∀ a ∈ rows, ∀ b ∈ rows, normalize a.prompt = normalize b.prompt →
    a.lineage = b.lineage

theorem Distinct.nil : Distinct [] := ⟨List.nodup_nil, List.nodup_nil, by simp⟩

theorem Distinct.perm (h : Distinct rows) (hperm : rows.Perm before) : Distinct before := by
  refine ⟨(hperm.map Row.id).nodup_iff.mp h.ids, (hperm.map Row.content).nodup_iff.mp h.contents, ?_⟩
  intro a ha b hb
  exact h.lineages a (hperm.mem_iff.mpr ha) b (hperm.mem_iff.mpr hb)

theorem Distinct.sublist (h : Distinct rows) (hsub : before.Sublist rows) : Distinct before := by
  refine ⟨h.ids.sublist (hsub.map Row.id), h.contents.sublist (hsub.map Row.content), ?_⟩
  intro a ha b hb
  exact h.lineages a (hsub.subset ha) b (hsub.subset hb)

theorem distinct_cons : Distinct (row :: before) ↔ Distinct before ∧
    row.id ∉ before.map Row.id ∧ row.content ∉ before.map Row.content ∧
    ∀ b ∈ before, normalize b.prompt = normalize row.prompt → b.lineage = row.lineage := by
  constructor
  · intro h
    refine ⟨h.sublist (List.sublist_cons_self row before), (List.nodup_cons.mp h.ids).1,
      (List.nodup_cons.mp h.contents).1, ?_⟩
    intro b hb
    exact h.lineages b (List.mem_cons_of_mem row hb) row List.mem_cons_self
  · rintro ⟨h, hid, hcontent, hlineage⟩
    refine ⟨List.nodup_cons.mpr ⟨hid, h.ids⟩, List.nodup_cons.mpr ⟨hcontent, h.contents⟩, ?_⟩
    intro a ha b hb hprompt
    rcases List.mem_cons.mp ha with rfl | hold
    · rcases List.mem_cons.mp hb with rfl | hother
      · rfl
      · exact (hlineage b hother hprompt.symm).symm
    · rcases List.mem_cons.mp hb with rfl | hother
      · exact hlineage a hold hprompt
      · exact h.lineages a hold b hother hprompt

/-- What has been seen after some rows, the latest first. -/
def Seen.of (before : List Row) : Seen :=
  ⟨before.map Row.id, before.map Row.content,
    before.map (fun row => (normalize row.prompt, row.lineage))⟩

/-- The map of prompts keeps the last lineage only; that is enough, since
all lineages of a prompt were equal so far. -/
theorem lookup_prompts (h : Distinct before) (prompt lineage : String) :
    ((before.map (fun row => (normalize row.prompt, row.lineage))).lookup prompt).all
      (fun other => other = lineage) ↔
        ∀ b ∈ before, normalize b.prompt = prompt → b.lineage = lineage := by
  induction before with
  | nil => simp
  | cons row rest ih =>
    obtain ⟨hrest, _, _, hlineage⟩ := distinct_cons.mp h
    rw [List.map_cons, List.lookup_cons]
    by_cases hsame : prompt = normalize row.prompt
    · simp only [hsame, beq_self_eq_true, Option.all_some, decide_eq_true_eq]
      constructor
      · intro heq b hb hprompt
        rcases List.mem_cons.mp hb with rfl | hb
        · exact heq
        · exact (hlineage b hb hprompt).trans heq
      · intro hall
        exact hall row List.mem_cons_self rfl
    · have hne : (prompt == normalize row.prompt) = false := by simpa using hsame
      simp only [hne]
      rw [ih hrest]
      constructor
      · intro hall b hb hprompt
        rcases List.mem_cons.mp hb with rfl | hb
        · exact absurd hprompt.symm hsame
        · exact hall b hb hprompt
      · intro hall b hb
        exact hall b (List.mem_cons_of_mem row hb)

theorem validateRow_eq_ok (h : Distinct before) {seen : Seen} :
    validateRow isPrivate (Seen.of before) row = .ok seen ↔
      row.Ok isPrivate ∧ Distinct (row :: before) ∧ seen = Seen.of (row :: before) := by
  unfold validateRow
  simp only [bind_ok_iff, ensure_eq_ok, Except.ok.injEq]
  constructor
  · rintro ⟨_, htexts, _, happroved, _, hprivate, _, hid, _, hcontent, _, hprompt, rfl⟩
    refine ⟨⟨forM_eq_ok.mp htexts, happroved, ?_⟩, distinct_cons.mpr ⟨h, ?_, ?_, ?_⟩, rfl⟩
    · intro hrow
      simpa [hrow] using hprivate
    · simpa [Seen.of] using hid
    · simpa [Seen.of, Row.content] using hcontent
    · exact (lookup_prompts h _ _).mp hprompt
  · rintro ⟨hok, hdistinct, rfl⟩
    obtain ⟨_, hid, hcontent, hlineage⟩ := distinct_cons.mp hdistinct
    refine ⟨(), forM_eq_ok.mpr hok.texts, (), hok.approved, (), ?_, (), ?_, (), ?_, (), ?_, rfl⟩
    · cases hrow : row.isPrivate with
      | false => rfl
      | true => simpa using hok.consented hrow
    · simpa [Seen.of] using hid
    · simpa [Seen.of, Row.content] using hcontent
    · exact (lookup_prompts h _ _).mpr hlineage

theorem foldlM_validateRow (rows : List Row) (isPrivate : Bool) (h : Distinct before) :
    (∃ seen, rows.foldlM (validateRow isPrivate) (Seen.of before) = .ok seen) ↔
      (∀ row ∈ rows, row.Ok isPrivate) ∧ Distinct (rows.reverse ++ before) := by
  induction rows generalizing before with
  | nil => simp [h, pure, Except.pure]
  | cons row rows ih =>
    simp only [List.foldlM_cons, bind_ok_iff, List.reverse_cons, List.append_assoc,
      List.singleton_append, List.forall_mem_cons]
    constructor
    · rintro ⟨seen, mid, hrow, hrest⟩
      obtain ⟨hok, hdistinct, rfl⟩ := (validateRow_eq_ok h).mp hrow
      obtain ⟨hoks, hall⟩ := (ih hdistinct).mp ⟨seen, hrest⟩
      exact ⟨⟨hok, hoks⟩, hall⟩
    · rintro ⟨⟨hok, hoks⟩, hall⟩
      have hdistinct := hall.sublist (List.sublist_append_right rows.reverse (row :: before))
      obtain ⟨seen, hrest⟩ := (ih hdistinct).mpr ⟨hoks, hall⟩
      exact ⟨seen, _, (validateRow_eq_ok h).mpr ⟨hok, hdistinct, rfl⟩, hrest⟩

/-- What `validate_rows` makes sure of. -/
theorem validateRows_eq_ok : validateRows rows isPrivate = .ok () ↔
    rows ≠ [] ∧ rows.length ≤ 100000 ∧ (∀ row ∈ rows, row.Ok isPrivate) ∧ Distinct rows := by
  have hfold := foldlM_validateRow rows isPrivate Distinct.nil
  rw [List.append_nil] at hfold
  have hreverse : Distinct rows.reverse ↔ Distinct rows :=
    ⟨fun h => h.perm (List.reverse_perm rows), fun h => h.perm (List.reverse_perm rows).symm⟩
  rw [hreverse] at hfold
  unfold validateRows
  simp only [bind_ok_iff, ensure_eq_ok, Bool.and_eq_true, decide_eq_true_eq]
  constructor
  · rintro ⟨_, ⟨hne, hlen⟩, seen, hseen, _⟩
    exact ⟨hne, hlen, hfold.mp ⟨seen, hseen⟩⟩
  · rintro ⟨hne, hlen, hrest⟩
    obtain ⟨seen, hseen⟩ := hfold.mpr hrest
    exact ⟨(), ⟨hne, hlen⟩, seen, hseen, trivial⟩

theorem validateRows_perm (hperm : rows.Perm before) (h : validateRows rows isPrivate = .ok ()) :
    validateRows before isPrivate = .ok () := by
  obtain ⟨hne, hlen, hok, hdistinct⟩ := validateRows_eq_ok.mp h
  refine validateRows_eq_ok.mpr ⟨?_, ?_, ?_, hdistinct.perm hperm⟩
  · rintro rfl
    exact hne hperm.eq_nil
  · rw [← hperm.length_eq]
    exact hlen
  · intro row hrow
    exact hok row (hperm.mem_iff.mpr hrow)

end Rows

/-! ## Verified datasets -/

section Verified

variable {crates : Crates} {dir : Directory} {manifest : Value} {split : Split} {rows : List Row}

theorem verifySplit_eq_ok (h : verifySplit crates dir manifest split = .ok rows) :
    ∃ bytes, dir split.fileName = some bytes ∧ readRows crates (some bytes) = .ok rows ∧
      (manifest.index "files").index split.fileName = .string (digestBytes crates.sha bytes) ∧
      ((manifest.index "counts").index split.name).asU64 = some rows.length ∧
      ∀ row ∈ rows, splitFor crates.sha row.lineage = split := by
  unfold verifySplit sha256File at h
  simp only [bind_ok_iff, required_eq_ok, ensure_eq_ok, Except.ok.injEq, Bool.and_eq_true,
    decide_eq_true_eq, List.all_eq_true] at h
  obtain ⟨_, ⟨bytes, hbytes, rfl⟩, _, hdigest, found, hrows, _, ⟨_, hcount⟩, _, hsplit, rfl⟩ := h
  rw [hbytes] at hrows
  exact ⟨bytes, hbytes, hrows, hdigest, hcount, hsplit⟩

/-- What `verify_dataset` makes sure of. -/
theorem verifyDataset_eq_ok (h : verifyDataset crates dir = .ok manifest) :
    ∃ (rows : Split → List Row) (isPrivate : Bool),
      (∀ split, verifySplit crates dir manifest split = .ok (rows split)) ∧
      manifest.index "private" = .bool isPrivate ∧
      validateRows (rows .train ++ rows .valid ++ rows .test) isPrivate = .ok () := by
  unfold verifyDataset at h
  simp only [bind_ok_iff, required_eq_ok, ensure_eq_ok, Except.ok.injEq] at h
  obtain ⟨found, _, fields, _, _, _, files, _, _, _, isPrivate, hprivate, train, htrain, valid,
    hvalid, test, htest, _, hrows, rfl⟩ := h
  refine ⟨fun split => split.casesOn train valid test, isPrivate, ?_, ?_, hrows⟩
  · intro split
    cases split with
    | train => exact htrain
    | valid => exact hvalid
    | test => exact htest
  · cases hvalue : found.index "private" with
    | bool b =>
      rw [hvalue] at hprivate
      rw [Option.some.inj hprivate]
    | null | number | string | array | object =>
      rw [hvalue] at hprivate
      cases hprivate

end Verified

/-! ## The files of a published dataset -/

section Files

variable {crates : Crates} {rows : List Row}

theorem fromUtf8_utf8 (s : String) : fromUtf8 (utf8 s) = some s := by
  have hbytes : (⟨(utf8 s).toArray⟩ : ByteArray) = s.toUTF8 := by
    unfold utf8
    rw [Array.toArray_toList]
  unfold fromUtf8
  rw [hbytes]
  unfold String.fromUTF8?
  rw [dif_pos (show s.toUTF8.IsValidUTF8 from s.isValidUTF8)]
  rfl

theorem utf8_append (a b : String) : utf8 (a ++ b) = utf8 a ++ utf8 b := by
  unfold utf8
  simp [String.toUTF8]

/-- The text of some rows. -/
def rowsText (rows : List Row) : List Char := rows.flatMap (fun row => row.toValue.print ++ ['\n'])

theorem rowsFile_eq (rows : List Row) : rowsFile rows = utf8 (String.ofList (rowsText rows)) := by
  induction rows with
  | nil => rfl
  | cons row rows ih =>
    have hline : utf8 (String.ofList ['\n']) = [0x0a] := by decide
    have hcons : rowsFile (row :: rows) = (canonical row.toValue ++ [0x0a]) ++ rowsFile rows := rfl
    have htext : rowsText (row :: rows) = (row.toValue.print ++ ['\n']) ++ rowsText rows := rfl
    rw [hcons, htext, ih, String.ofList_append, String.ofList_append, utf8_append, utf8_append, hline]
    rfl

theorem print_row (row : Row) : ∃ middle, row.toValue.print = '\x7b' :: middle ++ ['\x7d'] ∧
    '\n' ∉ middle := by
  refine ⟨_, rfl, Value.newline_notMem_printFields ?_⟩
  have hbool := Value.newline_notMem_print_bool
  have hstring : ∀ s, '\n' ∉ (Value.string s).print := by
    intro s
    rw [Value.print_string]
    exact Value.newline_notMem_printString s
  simp only [List.forall_mem_cons, hbool, hstring, not_false_eq_true, true_and]
  simp

theorem lines_rowsText (rows : List Row) :
    lines (rowsText rows) = rows.map (fun row => row.toValue.print) := by
  have htext : rowsText rows = unlines (rows.map (fun row => row.toValue.print)) := by
    unfold rowsText unlines
    rw [List.flatMap_map]
  rw [htext]
  apply lines_unlines
  intro line hline
  obtain ⟨row, _, rfl⟩ := List.mem_map.mp hline
  obtain ⟨middle, hprint, hmiddle⟩ := print_row row
  rw [hprint]
  refine ⟨by simp [hmiddle], ?_⟩
  rw [List.getLast?_concat]
  decide

theorem ofValue_toValue (row : Row) : Row.ofValue row.toValue = some row := by
  rfl

/-- The parser reads what `canonical` writes of these rows. -/
def Reads (crates : Crates) (rows : List Row) : Prop :=
  ∀ row ∈ rows, crates.parse (canonical row.toValue) = some row.toValue

theorem mapM_ok {α β ε : Type} {f : α → Except ε β} {g : α → β} {xs : List α}
    (h : ∀ x ∈ xs, f x = .ok (g x)) : xs.mapM f = .ok (xs.map g) := by
  rw [mapM_eq_ok, List.forall₂_map_right_iff, List.forall₂_same]
  exact h

/-- The rows of a file that was written are read back. -/
theorem readRows_rowsFile (h : Reads crates rows) (hsize : (rowsFile rows).length ≤ maxJson) :
    readRows crates (some (rowsFile rows)) = .ok rows := by
  have hlines : (lines (rowsText rows)).filter (fun line => !line.all isWhitespace) =
      rows.map (fun row => row.toValue.print) := by
    rw [lines_rowsText, List.filter_eq_self]
    intro line hline
    obtain ⟨row, _, rfl⟩ := List.mem_map.mp hline
    obtain ⟨middle, hprint, _⟩ := print_row row
    rw [hprint]
    rfl
  have hvalues : readJsonl crates (some (rowsFile rows)) = .ok (rows.map Row.toValue) := by
    unfold readJsonl boundedRead
    simp only [required_some, ok_bind, hsize, decide_true, ensure_true]
    rw [rowsFile_eq, fromUtf8_utf8]
    simp only [required_some, ok_bind]
    rw [String.toList_ofList, hlines, List.mapM_map]
    refine mapM_ok (fun row hrow => ?_)
    have hparse := h row hrow
    unfold canonical at hparse
    simp only [Function.comp_apply, hparse, required_some]
  unfold readRows
  rw [hvalues]
  simp only [ok_bind]
  rw [List.mapM_map]
  have hrow : ∀ row ∈ rows, required (Row.ofValue row.toValue) LearningError.notJson =
      .ok (id row) := by
    intro row _
    rw [ofValue_toValue]
    rfl
  have hrows := mapM_ok hrow
  rw [List.map_id] at hrows
  exact hrows

end Files

/-! ## What `prepare` publishes -/

section Published

variable {crates : Crates} {source grant : Bytes} {isPrivate : Bool} {manifest : Value}
  {dir : Directory} {rows : List Row}
variable {raw : List Row}
variable {file : Bytes} {split : Split}

theorem mem_splits (split : Split) : split ∈ [Split.test, .train, .valid] := by
  cases split <;> decide

theorem prepare_eq_ok (h : prepare crates source grant isPrivate = .ok (manifest, dir)) :
    ∃ raw file, readRows crates (some source) = .ok raw ∧
      validateRows (raw.map (redactRow crates)) isPrivate = .ok () ∧
      (∀ split, splitRows crates.sha (raw.map (redactRow crates)) split ≠ []) ∧
      (∀ split, (rowsFile (splitRows crates.sha (raw.map (redactRow crates)) split)).length ≤
        maxJson) ∧
      manifest = datasetManifest crates.sha source isPrivate (raw.map (redactRow crates)) ∧
      jsonFile manifest = .ok file ∧
      dir = published crates.sha (raw.map (redactRow crates)) file := by
  unfold prepare at h
  simp only [bind_ok_iff, ensure_eq_ok, Except.ok.injEq, Prod.mk.injEq, List.all_eq_true,
    decide_eq_true_eq] at h
  obtain ⟨_, _, raw, hraw, _, hvalid, _, hsplits, _, hsizes, file, hfile, rfl, rfl⟩ := h
  refine ⟨raw, file, hraw, hvalid, fun split => hsplits split (mem_splits split), ?_, rfl, hfile, rfl⟩
  intro split
  have hsize := forM_eq_ok.mp hsizes split (mem_splits split)
  simpa using hsize

theorem prepare_of_valid (hconsent : consent grant isPrivate = .ok ())
    (hraw : readRows crates (some source) = .ok raw) (hrows : raw.map (redactRow crates) = rows)
    (hvalid : validateRows rows isPrivate = .ok ())
    (hsplits : ∀ split, splitRows crates.sha rows split ≠ [])
    (hsizes : ∀ split, (rowsFile (splitRows crates.sha rows split)).length ≤ maxJson)
    (hmanifest : datasetManifest crates.sha source isPrivate rows = manifest)
    (hfile : jsonFile manifest = .ok file) :
    prepare crates source grant isPrivate = .ok (manifest, published crates.sha rows file) := by
  have hall : ([Split.test, .train, .valid].all (fun split => splitRows crates.sha rows split ≠ [])) =
      true := by
    rw [List.all_eq_true]
    intro split _
    simpa using hsplits split
  have hbounds : [Split.test, .train, .valid].forM (fun split =>
      ensure ((rowsFile (splitRows crates.sha rows split)).length ≤ maxJson)
        (LearningError.bail "split exceeds bound")) = .ok () := by
    rw [forM_eq_ok]
    intro split _
    simpa using hsizes split
  unfold prepare
  simp only [hconsent, hraw, ok_bind, hrows, hvalid, hall, ensure_true, hbounds, hmanifest, hfile]

theorem published_fileName (sha : Sha256) (rows : List Row) (file : Bytes) (split : Split) :
    published sha rows file split.fileName = some (rowsFile (splitRows sha rows split)) := by
  cases split <;> rfl

theorem mem_splitRows {sha : Sha256} {row : Row} :
    row ∈ splitRows sha rows split ↔ row ∈ rows ∧ splitFor sha row.lineage = split := by
  unfold splitRows
  rw [(List.mergeSort_perm _ _).mem_iff, List.mem_filter, decide_eq_true_eq]

/-- Each row is in one split. -/
theorem splitRows_perm (sha : Sha256) (rows : List Row) :
    (splitRows sha rows .train ++ splitRows sha rows .valid ++ splitRows sha rows .test).Perm
      rows := by
  have hsorted : ∀ split, (splitRows sha rows split).Perm
      (rows.filter (fun row => splitFor sha row.lineage = split)) :=
    fun split => List.mergeSort_perm _ _
  refine (((hsorted .train).append (hsorted .valid)).append (hsorted .test)).trans ?_
  rw [List.perm_iff_count]
  intro row
  rw [List.count_append, List.count_append]
  cases hsplit : splitFor sha row.lineage with
  | train | valid | test => simp [List.count_filter, List.count_eq_zero_of_not_mem, hsplit]

theorem Reads.splitRows (h : Reads crates rows) (split : Split) :
    Reads crates (splitRows crates.sha rows split) := by
  intro row hrow
  exact h row (mem_splitRows.mp hrow).1

theorem verifySplit_published (hreads : Reads crates rows)
    (hne : splitRows crates.sha rows split ≠ [])
    (hsize : (rowsFile (splitRows crates.sha rows split)).length ≤ maxJson) :
    verifySplit crates (published crates.sha rows file)
      (datasetManifest crates.sha source isPrivate rows) split =
        .ok (splitRows crates.sha rows split) := by
  have hdigest : ((datasetManifest crates.sha source isPrivate rows).index "files").index
      split.fileName = .string (digestBytes crates.sha (rowsFile (splitRows crates.sha rows split))) := by
    cases split <;> rfl
  have hcount : (((datasetManifest crates.sha source isPrivate rows).index "counts").index
      split.name).asU64 = some (splitRows crates.sha rows split).length := by
    cases split <;> rfl
  have hall : (splitRows crates.sha rows split).all
      (fun row => splitFor crates.sha row.lineage = split) := by
    rw [List.all_eq_true]
    intro row hrow
    simpa using (mem_splitRows.mp hrow).2
  unfold verifySplit sha256File
  rw [published_fileName]
  simp only [required_some, ok_bind, hdigest, decide_true, ensure_true,
    readRows_rowsFile (hreads.splitRows split) hsize, hcount, hne, ne_eq, not_false_eq_true,
    Bool.and_self, hall]

/-- The manifest is a closed object, and its fields are read by evaluation. -/
theorem verifyDataset_of_splits
    (hread : readJson crates (some file) = .ok (datasetManifest crates.sha source isPrivate rows))
    (hsplit : ∀ split, verifySplit crates (published crates.sha rows file)
      (datasetManifest crates.sha source isPrivate rows) split =
      .ok (splitRows crates.sha rows split))
    (hrows : validateRows
      (splitRows crates.sha rows .train ++ splitRows crates.sha rows .valid ++ splitRows crates.sha
      rows .test) isPrivate = .ok ()) :
    verifyDataset crates (published crates.sha rows file) =
      .ok (datasetManifest crates.sha source isPrivate rows) := by
  have hfile : published crates.sha rows file "manifest.json" = some file := rfl
  unfold verifyDataset
  rw [hfile]
  simp only [bind_ok_iff, ensure_eq_ok, required_eq_ok, Bool.and_eq_true, decide_eq_true_eq]
  exact ⟨_, hread, _, rfl, (), ⟨rfl, rfl⟩, _, rfl, (), ⟨rfl, rfl⟩, isPrivate, rfl, _,
    hsplit .train, _, hsplit .valid, _, hsplit .test, (), hrows, rfl⟩

/-- What `prepare` published is accepted. -/
theorem verifyDataset_published (h : prepare crates source grant isPrivate = .ok (manifest, dir))
    (hraw : readRows crates (some source) = .ok raw)
    (hreads : Reads crates (raw.map (redactRow crates)))
    (hparse : crates.parse (canonical manifest ++ [0x0a]) = some manifest) :
    verifyDataset crates dir = .ok manifest := by
  obtain ⟨raw', file, hraw', hvalid, hsplits, hsizes, hmanifest, hfile, rfl⟩ := prepare_eq_ok h
  rw [hraw, Except.ok.injEq] at hraw'
  rw [← hraw'] at hvalid hsplits hsizes hmanifest ⊢
  unfold jsonFile at hfile
  simp only [bind_ok_iff, ensure_eq_ok, decide_eq_true_eq, Except.ok.injEq] at hfile
  obtain ⟨_, hbound, rfl⟩ := hfile
  have hread : readJson crates (some (canonical manifest ++ [0x0a])) = .ok manifest := by
    unfold readJson boundedRead
    simp only [required_some, ok_bind, hbound, decide_true, ensure_true, hparse]
  have hsplit : ∀ split, verifySplit crates (published crates.sha (raw.map (redactRow crates))
      (canonical manifest ++ [0x0a])) manifest split =
        .ok (splitRows crates.sha (raw.map (redactRow crates)) split) := by
    intro split
    rw [hmanifest]
    exact verifySplit_published hreads (hsplits split) (hsizes split)
  have hrows := validateRows_perm (splitRows_perm crates.sha (raw.map (redactRow crates))).symm hvalid
  rw [hmanifest] at hread hsplit ⊢
  exact verifyDataset_of_splits hread hsplit hrows

end Published

/-! ## No leaks -/

section Leaks

/-- The splits of a dataset have nothing in common, and the manifest says
what they are. -/
structure Separated (crates : Crates) (dir : Directory) (manifest : Value)
    (rows : Split → List Row) : Prop where
  files : ∀ split, ∃ bytes, dir split.fileName = some bytes ∧
    readRows crates (some bytes) = .ok (rows split) ∧
    (manifest.index "files").index split.fileName = .string (digestBytes crates.sha bytes) ∧
    (manifest.index "counts").index split.name = .number (.posInt (rows split).length)
  lineages : ∀ s s', ∀ a ∈ rows s, ∀ b ∈ rows s', a.lineage = b.lineage → s = s'
  prompts : ∀ s s', ∀ a ∈ rows s, ∀ b ∈ rows s', normalize a.prompt = normalize b.prompt → s = s'
  ids : ((rows .train ++ rows .valid ++ rows .test).map Row.id).Nodup
  pairs : ((rows .train ++ rows .valid ++ rows .test).map
    (fun row => (row.prompt, row.response))).Nodup
  approved : ∀ split, ∀ row ∈ rows split, row.approved = true
  consented : ∀ split, ∀ row ∈ rows split, row.isPrivate = true →
    manifest.index "private" = .bool true

theorem number_of_asU64 {v : Value} {n : Nat} (h : v.asU64 = some n) : v = .number (.posInt n) := by
  unfold Value.asU64 at h
  split at h
  · rw [Option.some.inj h]
  · cases h

theorem mem_append_splits {rows : Split → List Row} {split : Split} {row : Row}
    (h : row ∈ rows split) : row ∈ rows .train ++ rows .valid ++ rows .test := by
  rw [List.mem_append, List.mem_append]
  cases split with
  | train => exact .inl (.inl h)
  | valid => exact .inl (.inr h)
  | test => exact .inr h

theorem separated_of_verifyDataset {crates : Crates} {dir : Directory} {manifest : Value}
    (h : verifyDataset crates dir = .ok manifest) : ∃ rows, Separated crates dir manifest rows := by
  obtain ⟨rows, isPrivate, hsplits, hprivate, hvalid⟩ := verifyDataset_eq_ok h
  obtain ⟨_, _, hok, hdistinct⟩ := validateRows_eq_ok.mp hvalid
  have hlineage : ∀ s, ∀ a ∈ rows s, splitFor crates.sha a.lineage = s := by
    intro s
    obtain ⟨_, _, _, _, _, hsplit⟩ := verifySplit_eq_ok (hsplits s)
    exact hsplit
  refine ⟨rows, ?_, ?_, ?_, hdistinct.ids, ?_, ?_, ?_⟩
  · intro split
    obtain ⟨bytes, hbytes, hrows, hdigest, hcount, _⟩ := verifySplit_eq_ok (hsplits split)
    exact ⟨bytes, hbytes, hrows, hdigest, number_of_asU64 hcount⟩
  · intro s s' a ha b hb hsame
    rw [← hlineage s a ha, ← hlineage s' b hb, hsame]
  · intro s s' a ha b hb hsame
    have hsameLineage := hdistinct.lineages a (mem_append_splits ha) b (mem_append_splits hb) hsame
    rw [← hlineage s a ha, ← hlineage s' b hb, hsameLineage]
  · have hcontents := hdistinct.contents
    have hcomp : Row.content = (fun pair : String × String => (normalize pair.1, normalize pair.2)) ∘
        (fun row : Row => (row.prompt, row.response)) := rfl
    rw [hcomp, ← List.map_map] at hcontents
    exact hcontents.of_map _
  · intro split row hrow
    exact (hok row (mem_append_splits hrow)).approved
  · intro split row hrow hsecret
    rw [hprivate, (hok row (mem_append_splits hrow)).consented hsecret]

/-- A dataset that `verify_dataset` accepts does not leak between its
splits, whatever its files are, and the splits that `prepare` publishes are
the redacted rows of its source. -/
theorem dataset_splits_disjoint (crates : Crates) :
    (∀ dir manifest, verifyDataset crates dir = .ok manifest →
      ∃ rows, Separated crates dir manifest rows) ∧
    ∀ source grant isPrivate manifest dir raw,
      prepare crates source grant isPrivate = .ok (manifest, dir) →
      readRows crates (some source) = .ok raw → Reads crates (raw.map (redactRow crates)) →
      ∃ rows : Split → List Row,
        (∀ split, readRows crates (dir split.fileName) = .ok (rows split)) ∧
        (rows .train ++ rows .valid ++ rows .test).Perm (raw.map (redactRow crates)) ∧
        (rows .train ++ rows .valid ++ rows .test).Nodup := by
  refine ⟨fun dir manifest h => separated_of_verifyDataset h, ?_⟩
  intro source grant isPrivate manifest dir raw hprepare hraw hreads
  obtain ⟨raw', file, hraw', hvalid, _, hsizes, _, _, rfl⟩ := prepare_eq_ok hprepare
  rw [hraw, Except.ok.injEq] at hraw'
  rw [← hraw'] at hvalid hsizes ⊢
  have hperm := splitRows_perm crates.sha (raw.map (redactRow crates))
  refine ⟨splitRows crates.sha (raw.map (redactRow crates)), ?_, hperm, ?_⟩
  · intro split
    rw [published_fileName]
    exact readRows_rowsFile (hreads.splitRows split) (hsizes split)
  · obtain ⟨_, _, _, hdistinct⟩ := validateRows_eq_ok.mp hvalid
    exact hperm.nodup_iff.mpr (hdistinct.ids.of_map _)

def sampleRows : List Row :=
  [⟨"1", "doc-0", "question 1", "answer 1", "notes", true, false⟩,
    ⟨"2", "doc-4", "question 2", "answer 2", "notes", true, false⟩,
    ⟨"3", "doc-11", "question 3", "answer 3", "notes", true, false⟩]

/-- The bytes of a digest. -/
def digestOf (n : Nat) : Vector UInt8 32 :=
  ⟨((List.range 32).map (fun i => UInt8.ofNat (n / 256 ^ (31 - i)))).toArray, by simp⟩

/-- The SHA-256 digests of what `prepare` hashes for these rows: the length
of a message and one of its bytes tell which it is. -/
def sampleSha : Sha256 := fun message => digestOf (
  if message.length = 420 then 0xaa47e389892bed6c30de326e900c716971c63ba244490cdcae30ec2e4de537d6
  else if message.length = 379 then
    0xdccd46c14bdda4bba3f5e2e82492684f42904ba4b819ce9fea647271fc4650ae
  else if message.length = 127 then
    0x70cdab3e36a232f04d55c36c72efca10279d956d373d724ed203b244c631c377
  else if message.length = 126 then
    if message[23]? = some 0x31 then
      0xb1219fa5448d1f79ca77672c7134dc78af48fca960c1aa001be01df3ec22b31d
    else 0x89af9805c2f872e447245d841f8b6e5711849aca11490890ae9c86131bce53ae
  else if message.length = 28 then
    0xb3575d5db0add7662529cd4dce514e3dbd2e942ef44f82a2ccfaa058fce4818c
  else if message.getLast? = some 0x30 then
    0x23699d5153a83e0f1bb50f86da4db8c0ce35cf157e2458aff4be85dbd6404d78
  else 0xde318c8005ce30ea637e16763f4b0da7ffd73af8b95204ce89794321881d78ca)

def sampleSplit : Split → List Row
  | .train => sampleRows.take 1
  | .valid => (sampleRows.drop 1).take 1
  | .test => sampleRows.drop 2

def sampleDigest : Split → Nat
  | .train => 0xb1219fa5448d1f79ca77672c7134dc78af48fca960c1aa001be01df3ec22b31d
  | .valid => 0x89af9805c2f872e447245d841f8b6e5711849aca11490890ae9c86131bce53ae
  | .test => 0x70cdab3e36a232f04d55c36c72efca10279d956d373d724ed203b244c631c377

def sampleFields : List (String × Value) :=
  [("counts", .object [("test", .number (.posInt 1)), ("train", .number (.posInt 1)),
      ("valid", .number (.posInt 1))]),
    ("files", .object ([Split.test, .train, .valid].map (fun split =>
      (split.fileName, .string (lowerHex (digestOf (sampleDigest split)).toList))))),
    ("private", .bool false), ("schema", .string "abbey.dataset.v1"),
    ("source_sha256", .string (lowerHex (digestOf
      0xdccd46c14bdda4bba3f5e2e82492684f42904ba4b819ce9fea647271fc4650ae).toList))]

def sampleManifest : Value :=
  .object (sampleFields.take 4 ++ [("sha256", .string (lowerHex (digestOf
    0xaa47e389892bed6c30de326e900c716971c63ba244490cdcae30ec2e4de537d6).toList))] ++
    sampleFields.drop 4)

/-- There is nothing to redact in these rows, and only their lines and the
manifest are parsed. -/
def sampleCrates : Crates where
  sha := sampleSha
  parse := fun bytes =>
    if bytes.getLast? = some 0x0a then some sampleManifest
    else (sampleRows.find? (fun row => (utf8 row.id).head? = bytes[23]?)).map Row.toValue
  secrets := id

def sampleGrant : Bytes := utf8 "abbey-train-consent: v1\n"

theorem sample_parse (bytes : Bytes) : sampleCrates.parse bytes =
    if bytes.getLast? = some 0x0a then some sampleManifest
    else (sampleRows.find? (fun row => (utf8 row.id).head? = bytes[23]?)).map Row.toValue := rfl

theorem length_canonical (v : Value) : (canonical v).length = bytes v.print := by
  unfold canonical
  rw [Conversation.length_utf8, utf8ByteSize_ofChars]

theorem length_rowsFile (rows : List Row) : (rowsFile rows).length = bytes (rowsText rows) := by
  rw [rowsFile_eq, Conversation.length_utf8, utf8ByteSize_ofChars]

theorem splitRows_sample (split : Split) :
    splitRows sampleSha sampleRows split = sampleSplit split := by
  have htrain : splitFor sampleSha "doc-0" = .train := by decide +kernel
  have hvalid : splitFor sampleSha "doc-4" = .valid := by decide +kernel
  have htest : splitFor sampleSha "doc-11" = .test := by decide +kernel
  cases split <;> simp [splitRows, sampleRows, sampleSplit, htrain, hvalid, htest]

theorem digest_sample (split : Split) : digestBytes sampleSha (rowsFile (sampleSplit split)) =
      lowerHex (digestOf (sampleDigest split)).toList := by
  have hlength : ∀ split, bytes (rowsText (sampleSplit split)) =
      if split = .test then 127 else 126 := by
    intro split
    cases split <;> decide +kernel
  have htrain : (rowsFile (sampleSplit .train))[23]? = some 0x31 := by decide +kernel
  have hvalid : (rowsFile (sampleSplit .valid))[23]? = some 0x32 := by decide +kernel
  unfold digestBytes sampleSha
  rw [length_rowsFile, hlength]
  cases split with
  | train => simp [htrain, sampleDigest]
  | valid => simp [hvalid, sampleDigest]
  | test => simp [sampleDigest]

theorem sample_manifest :
    datasetManifest sampleSha (rowsFile sampleRows) false sampleRows = sampleManifest := by
  have hsource : digestBytes sampleSha (rowsFile sampleRows) = lowerHex (digestOf
      0xdccd46c14bdda4bba3f5e2e82492684f42904ba4b819ce9fea647271fc4650ae).toList := by
    have hlength : bytes (rowsText sampleRows) = 379 := by decide +kernel
    unfold digestBytes sampleSha
    rw [length_rowsFile, hlength]
    rfl
  have hunsigned : unsignedManifest sampleSha (rowsFile sampleRows) false sampleRows =
      sampleFields := by
    unfold unsignedManifest
    simp only [List.map_cons, List.map_nil, splitRows_sample, digest_sample, hsource]
    rfl
  have hdigest : digestValue sampleSha (.object sampleFields) = lowerHex (digestOf
      0xaa47e389892bed6c30de326e900c716971c63ba244490cdcae30ec2e4de537d6).toList := by
    have hlength : bytes (Value.object sampleFields).print = 420 := by decide +kernel
    unfold digestValue digestBytes sampleSha
    rw [length_canonical, hlength]
    rfl
  unfold datasetManifest
  simp only [hunsigned, hdigest]
  rfl

theorem sample_reads : Reads sampleCrates sampleRows := by
  have hrows : ∀ row ∈ sampleRows, (canonical row.toValue).getLast? ≠ some 0x0a ∧
      (utf8 row.id).head? = (canonical row.toValue)[23]? := by
    decide +kernel
  have hids : ∀ row ∈ sampleRows, ∀ other ∈ sampleRows,
      (utf8 other.id).head? = (utf8 row.id).head? → other = row := by
    decide +kernel
  intro row hrow
  obtain ⟨hlast, hid⟩ := hrows row hrow
  rw [sample_parse, if_neg hlast, ← hid]
  cases hfind : sampleRows.find? (fun other => (utf8 other.id).head? = (utf8 row.id).head?) with
  | none => simpa using List.find?_eq_none.mp hfind row hrow
  | some other =>
    rw [hids row hrow other (List.mem_of_find?_eq_some hfind)
      (by simpa using List.find?_some hfind)]
    rfl

theorem sample_redacted : sampleRows.map (redactRow sampleCrates) = sampleRows := by
  decide +kernel

theorem sample_read : readRows sampleCrates (some (rowsFile sampleRows)) = .ok sampleRows := by
  refine readRows_rowsFile sample_reads ?_
  rw [length_rowsFile]
  decide +kernel

theorem sample_prepared : ∃ dir,
    prepare sampleCrates (rowsFile sampleRows) sampleGrant false = .ok (sampleManifest, dir) := by
  have hconsent : consent sampleGrant false = .ok () := by decide +kernel
  have hvalid : validateRows sampleRows false = .ok () := by decide +kernel
  have hsizes : ∀ split, bytes (rowsText (sampleSplit split)) ≤ maxJson := by
    intro split
    cases split <;> decide +kernel
  have hbound : bytes sampleManifest.print + 1 ≤ maxJson := by decide +kernel
  have hfile : jsonFile sampleManifest = .ok (canonical sampleManifest ++ [0x0a]) := by
    have hlength : (canonical sampleManifest ++ [0x0a]).length ≤ maxJson := by
      rw [List.length_append, length_canonical, List.length_singleton]
      exact hbound
    unfold jsonFile
    simp only [hlength, decide_true, ensure_true, ok_bind]
  refine ⟨_, prepare_of_valid hconsent sample_read sample_redacted hvalid ?_ ?_ sample_manifest hfile⟩
  · intro split
    rw [show sampleCrates.sha = sampleSha from rfl, splitRows_sample]
    cases split <;> exact List.cons_ne_nil _ _
  · intro split
    rw [show sampleCrates.sha = sampleSha from rfl, splitRows_sample, length_rowsFile]
    exact hsizes split

/-- A dataset of three rows. -/
theorem sample_splits_disjoint : ∃ dir,
    prepare sampleCrates (rowsFile sampleRows) sampleGrant false = .ok (sampleManifest, dir) ∧
    verifyDataset sampleCrates dir = .ok sampleManifest ∧
    (∃ rows, Separated sampleCrates dir sampleManifest rows) ∧
    ∃ rows : Split → List Row, (∀ split, readRows sampleCrates (dir split.fileName) = .ok (rows split)) ∧
      (rows .train ++ rows .valid ++ rows .test).Perm sampleRows := by
  obtain ⟨dir, hprepare⟩ := sample_prepared
  have hreads : Reads sampleCrates (sampleRows.map (redactRow sampleCrates)) := by
    rw [sample_redacted]
    exact sample_reads
  have hparse : sampleCrates.parse (canonical sampleManifest ++ [0x0a]) = some sampleManifest := by
    rw [sample_parse, if_pos List.getLast?_concat]
  have hverify := verifyDataset_published hprepare sample_read hreads hparse
  obtain ⟨rows, hrows, hperm, _⟩ := (dataset_splits_disjoint sampleCrates).2 _ _ _ _ _ _ hprepare
    sample_read hreads
  rw [sample_redacted] at hperm
  exact ⟨dir, hprepare, hverify, (dataset_splits_disjoint sampleCrates).1 dir sampleManifest hverify,
    rows, hrows, hperm⟩

end Leaks

end Abbey.Learning
