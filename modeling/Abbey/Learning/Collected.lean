import Abbey.Learning.Excerpts
import Abbey.Lib.JsonText

/-!
# Collected sources can be prepared

A collection is read back by `prepare`, and its rows pass every check of
one row.  What is left are the checks between the rows: redaction may take
away what keeps two prompts or two responses apart.  `prepares_iff` says
when it does not.
-/

namespace Abbey.Learning

open Abbey.Lib List Value Excerpt Collection
open Abbey.Conversation (Sha256 utf8 lowerHex)
open Abbey.Run (isWhitespace)

variable {s : Collection} {texts : List (Document × String)}

/-! ## The rows of a collection -/

section Collections

variable {sha : Sha256} {isPrivate : Bool} {documents : List Document} {found : List Excerpt}

/-- The documents whose words no earlier document has. -/
def originals : List String → List (Document × String) → List (Document × String)
  | _, [] => []
  | seen, entry :: rest =>
    if seen.contains (normalize entry.2) then originals seen rest
    else entry :: originals (seen ++ [normalize entry.2]) rest

/-- The excerpts of the documents that a collection is made of. -/
def collectedExcerpts (documents : List Document) : Except LearningError (List Excerpt) := do
  let texts ← readDocuments 0 documents
  let found ← (originals [] texts).mapM (fun entry => documentExcerpts entry.1 entry.2)
  .ok found.flatten

theorem mem_originals {seen : List String} (h : entry ∈ originals seen texts) : entry ∈ texts := by
  induction texts generalizing seen with
  | nil => cases h
  | cons first rest ih =>
    unfold originals at h
    split_ifs at h
    · exact mem_cons_of_mem first (ih h)
    · rcases mem_cons.mp h with rfl | hrest
      · exact mem_cons_self
      · exact mem_cons_of_mem first (ih hrest)

theorem length_of_fromUtf8 {text : String} (h : fromUtf8 content = some text) :
    text.toList.length ≤ content.length := by
  have hsize : text.utf8ByteSize = content.length := by
    unfold fromUtf8 String.fromUTF8? at h
    split_ifs at h
    rw [← Option.some.inj h]
    rfl
  have hbytes := length_le_bytes text.toList
  rw [← utf8ByteSize_eq] at hbytes
  omega

theorem readDocuments_ok (h : readDocuments total documents = .ok texts) :
    ∀ entry ∈ texts, entry.2.toList.length ≤ maxFile ∧ entry.2.toList.all isWhitespace = false ∧
        '\x00' ∉ entry.2.toList := by
  induction documents generalizing total texts with
  | nil =>
    obtain rfl := Except.ok.inj h
    simp
  | cons doc rest ih =>
    unfold readDocuments at h
    simp only [bind_ok_iff, ensure_eq_ok, required_eq_ok, decide_eq_true_eq, Bool.and_eq_true,
      Bool.not_eq_true', Except.ok.injEq] at h
    obtain ⟨_, hsize, _, _, text, htext, _, ⟨hblank, hnul⟩, later, hlater, rfl⟩ := h
    intro entry hentry
    rcases mem_cons.mp hentry with rfl | hrest
    · exact ⟨(length_of_fromUtf8 htext).trans hsize, hblank, by simpa using hnul⟩
    · exact ih hlater entry hrest

theorem collectedExcerpts_ok (h : collectedExcerpts documents = .ok found) : ∀ e ∈ found, e.Ok := by
  unfold collectedExcerpts at h
  simp only [bind_ok_iff, Except.ok.injEq] at h
  obtain ⟨texts, htexts, lists, hlists, rfl⟩ := h
  intro e he
  obtain ⟨list, hlist, he⟩ := mem_flatten.mp he
  obtain ⟨entry, hentry, hfound⟩ := exists_left_of_mem (mapM_eq_ok.mp hlists) hlist
  obtain ⟨hsize, hblank, hplain⟩ := readDocuments_ok htexts entry (mem_originals hentry)
  exact excerpts_ok hsize hblank hplain hfound e he

theorem contains_keys (seen : List (String × String)) (key : String) :
    (seen.map Prod.fst).contains key = (seen.lookup key).isSome := by
  induction seen with
  | nil => rfl
  | cons entry rest ih =>
    obtain ⟨name, value⟩ := entry
    rw [map_cons, contains_cons, lookup_cons, ih]
    cases key == name with
    | true => simp
    | false => simp

/-- The rows of a collection are those of the excerpts of its documents. -/
theorem foldlM_collectDocument (h : texts.foldlM (collectDocument sha isPrivate) s = .ok t) :
    ∃ lists, (originals (s.seen.map Prod.fst) texts).mapM
        (fun entry => documentExcerpts entry.1 entry.2) = .ok lists ∧
      t.rows = (lists.flatten.map (row sha isPrivate)).foldl addRow s.rows := by
  induction texts generalizing s with
  | nil =>
    obtain rfl := Except.ok.inj h
    exact ⟨[], rfl, rfl⟩
  | cons entry rest ih =>
    rw [foldlM_cons, bind_ok_iff] at h
    obtain ⟨mid, hstep, hrest⟩ := h
    obtain ⟨lists, hlists, hrows⟩ := ih hrest
    unfold collectDocument at hstep
    cases hlookup : s.seen.lookup (normalize entry.2) with
    | some original =>
      simp only [hlookup, Except.ok.injEq] at hstep
      subst hstep
      have hseen : (s.seen.map Prod.fst).contains (normalize entry.2) := by
        rw [contains_keys, hlookup]
        rfl
      refine ⟨lists, ?_, hrows⟩
      unfold originals
      rw [if_pos hseen]
      exact hlists
    | none =>
      simp only [hlookup, bind_ok_iff, Except.ok.injEq] at hstep
      obtain ⟨list, hlist, rfl⟩ := hstep
      have hseen : (s.seen.map Prod.fst).contains (normalize entry.2) = false := by
        rw [contains_keys, hlookup]
        rfl
      refine ⟨list :: lists, ?_, ?_⟩
      · unfold originals
        rw [hseen, if_neg (by simp), mapM_cons, hlist]
        simp only [map_append, map_cons, map_nil] at hlists
        rw [hlists]
        rfl
      · rw [flatten_cons, map_append, foldl_append]
        exact hrows

/-- What is left of some rows when those with a known id are left out. -/
theorem foldl_addRow (rows before : List Row) (hbefore : (before.map Row.id).Nodup) :
    ((rows.foldl addRow before).map Row.id).Nodup ∧
      (∀ row ∈ rows.foldl addRow before, row ∈ before ∨ row ∈ rows) ∧
      (∀ row ∈ before ++ rows, row.id ∈ (rows.foldl addRow before).map Row.id) := by
  induction rows generalizing before with
  | nil => exact ⟨hbefore, fun row hrow => .inl hrow, fun row hrow => by
      rw [append_nil] at hrow
      exact mem_map_of_mem hrow⟩
  | cons first rest ih =>
    rw [foldl_cons]
    unfold addRow
    by_cases hknown : (before.map Row.id).contains first.id
    · rw [if_pos hknown]
      obtain ⟨hnodup, hfrom, hall⟩ := ih before hbefore
      refine ⟨hnodup, ?_, ?_⟩
      · intro row hrow
        rcases hfrom row hrow with hold | hnew
        · exact .inl hold
        · exact .inr (mem_cons_of_mem first hnew)
      · intro row hrow
        rcases mem_append.mp hrow with hold | hnew
        · exact hall row (mem_append_left rest hold)
        · rcases mem_cons.mp hnew with rfl | hrest
          · obtain ⟨other, hother, hid⟩ := mem_map.mp (contains_iff_mem.mp hknown)
            rw [← hid]
            exact hall other (mem_append_left rest hother)
          · exact hall row (mem_append_right before hrest)
    · rw [if_neg hknown]
      have hsnoc : ((before ++ [first]).map Row.id).Nodup := by
        rw [map_append, map_singleton, ← concat_eq_append, nodup_concat]
        exact ⟨fun hmem => hknown (contains_iff_mem.mpr hmem), hbefore⟩
      obtain ⟨hnodup, hfrom, hall⟩ := ih (before ++ [first]) hsnoc
      rw [append_assoc, singleton_append] at hall
      refine ⟨hnodup, ?_, hall⟩
      intro row hrow
      rcases hfrom row hrow with hold | hnew
      · rcases mem_append.mp hold with hin | hfirst
        · exact .inl hin
        · rw [mem_singleton.mp hfirst]
          exact .inr mem_cons_self
      · exact .inr (mem_cons_of_mem first hnew)

/-- Rows with ids of their own are all added. -/
theorem foldl_addRow_eq {rows before : List Row} (h : ((before ++ rows).map Row.id).Nodup) :
    rows.foldl addRow before = before ++ rows := by
  induction rows generalizing before with
  | nil => exact (append_nil before).symm
  | cons row rows ih =>
    have hnew : row.id ∉ before.map Row.id := by
      rw [map_append, map_cons, nodup_append] at h
      exact fun hmem => h.2.2 row.id hmem row.id mem_cons_self rfl
    rw [foldl_cons, addRow, if_neg (by simpa using hnew), ih (by simpa using h), append_assoc]
    rfl

theorem collectDocument_new {doc : Document} {text : String}
    (hlookup : s.seen.lookup (normalize text) = none)
    (hfound : documentExcerpts doc text = .ok found)
    (hids : ((s.rows ++ found.map (row sha isPrivate)).map Row.id).Nodup) :
    collectDocument sha isPrivate s (doc, text) = .ok ⟨s.rows ++ found.map (row sha isPrivate),
      s.files ++ [fileItem sha doc none],
      s.seen ++ [(normalize text, doc.source.name ++ ":" ++ doc.relative)], s.duplicates,
      s.count doc found.length⟩ := by
  unfold collectDocument
  simp only [hlookup, hfound, ok_bind, foldl_addRow_eq hids, length_append, length_map,
    Nat.add_sub_cancel_left]

/-- What `collect` writes. -/
theorem collect_eq_ok (h : collect sha config grant isPrivate documents = .ok (manifest, source)) :
    ∃ found rows, collectedExcerpts documents = .ok found ∧
      rows = (found.map (row sha isPrivate)).foldl addRow [] ∧ rows ≠ [] ∧
      source = rowsFile rows ∧ source.length ≤ maxJson := by
  unfold collect at h
  simp only [bind_ok_iff, ensure_eq_ok, decide_eq_true_eq, Except.ok.injEq, Prod.mk.injEq] at h
  obtain ⟨_, _, _, _, _, _, texts, htexts, s, hfold, _, hne, _, hsize, _, _, _, rfl⟩ := h
  obtain ⟨lists, hlists, hrows⟩ := foldlM_collectDocument hfold
  refine ⟨lists.flatten, s.rows, ?_, hrows, hne, rfl, hsize⟩
  unfold collectedExcerpts
  simp only [htexts, ok_bind]
  rw [show originals [] texts = originals (empty.seen.map Prod.fst) texts from rfl, hlists]
  rfl

/-- The checks of a collection where the documents are read. -/
theorem collect_of (hconsent : consent grant isPrivate = .ok ())
    (hfew : documents.length ≤ maxFiles)
    (haliases : (aliases.all (fun a => documents.any (fun doc => doc.source = a))))
    (htexts : readDocuments 0 documents = .ok texts)
    (h : (texts.foldlM (collectDocument sha isPrivate) .empty).toOption.any (fun s =>
      s.rows ≠ [] ∧ bytes (rowsText s.rows) ≤ maxJson ∧
        bytes (collectionManifest sha config (rowsFile s.rows) isPrivate
          (documents.map (fun doc => doc.content.length)).sum s).print < maxJson)) :
    ∃ manifest source, collect sha config grant isPrivate documents = .ok (manifest, source) := by
  cases hfold : texts.foldlM (collectDocument sha isPrivate) .empty with
  | error e =>
    rw [hfold] at h
    cases h
  | ok s =>
    rw [hfold] at h
    obtain ⟨hne, hsource, hmanifest⟩ := of_decide_eq_true h
    rw [← length_rowsFile] at hsource
    rw [← length_canonical] at hmanifest
    unfold collect jsonFile
    simp only [hconsent, hfew, haliases, htexts, hfold, hne, hsource, ok_bind, decide_true, ensure_true,
      ne_eq, not_false_eq_true, length_append, length_singleton, Nat.succ_le_of_lt hmanifest]
    exact ⟨_, _, rfl⟩

/-- The keys and marks of a line alone are 84 bytes. -/
theorem bytes_row (row : Row) : 84 ≤ bytes (row.toValue.print ++ ['\n']) := by
  have hstring : ∀ text, 2 ≤ bytes (printString text) := by
    intro text
    unfold printString
    simp only [cons_append, bytes_cons, bytes_append, bytes_nil]
    have hquote : '"'.utf8Size = 1 := by decide
    omega
  have hbool : ∀ b, 4 ≤ bytes (bool b).print := by
    intro b
    cases b <;> decide
  have hkeys : bytes (printString "approved") = 10 ∧ bytes (printString "id") = 4 ∧
      bytes (printString "lineage") = 9 ∧ bytes (printString "private") = 9 ∧
      bytes (printString "prompt") = 8 ∧ bytes (printString "provenance") = 12 ∧
      bytes (printString "response") = 10 := by
    decide
  have happroved := hbool row.approved
  have hprivate := hbool row.isPrivate
  have hid := hstring row.id
  have hlineage := hstring row.lineage
  have hprompt := hstring row.prompt
  have hprovenance := hstring row.provenance
  have hresponse := hstring row.response
  have hmarks : ':'.utf8Size = 1 ∧ ','.utf8Size = 1 := by decide
  unfold Row.toValue
  rw [print]
  simp only [printFields, print_string, cons_append, bytes_cons, bytes_append, hkeys, hmarks]
  omega

theorem bytes_rowsText_le (rows : List Row) :
    bytes (rowsText rows) ≤ (rows.map (fun row => row.toValue.weight + 1)).sum := by
  induction rows with
  | nil => exact Nat.le_refl 0
  | cons row rows ih =>
    have hrow := bytes_print_le row.toValue
    have hline : bytes ['\n'] = 1 := rfl
    unfold rowsText at ih ⊢
    rw [flatMap_cons, bytes_append, bytes_append, hline, map_cons, sum_cons]
    omega

theorem utf8ByteSize_digestBytes (sha : Sha256) (content : Bytes) :
    (digestBytes sha content).utf8ByteSize = 64 := by
  have hdigest := Conversation.isLowerHexSha256_lowerHex (sha content)
  unfold Conversation.isLowerHexSha256 at hdigest
  simp only [Bool.and_eq_true, decide_eq_true_eq] at hdigest
  exact hdigest.1

theorem utf8ByteSize_append_digestBytes (s : String) (sha : Sha256) (content : Bytes) :
    (s ++ digestBytes sha content).utf8ByteSize = s.utf8ByteSize + 64 := by
  rw [String.utf8ByteSize_append, utf8ByteSize_digestBytes]

theorem length_rows_le {rows : List Row} (h : (rowsFile rows).length ≤ maxJson) :
    rows.length ≤ 100000 := by
  have hlines : ∀ rows : List Row, 84 * rows.length ≤ bytes (rowsText rows) := by
    intro rows
    induction rows with
    | nil => simp [rowsText]
    | cons row rest ih =>
      have hrow := bytes_row row
      unfold rowsText at ih ⊢
      rw [flatMap_cons, bytes_append, length_cons]
      omega
  have hbytes := hlines rows
  have hlimit : maxJson = 8388608 := rfl
  rw [length_rowsFile] at h
  omega

end Collections

/-- The line of a row says which row it is of. -/
theorem row_eq_of_canonical {a b : Row} (h : canonical a.toValue = canonical b.toValue) : a = b := by
  have hprint : a.toValue.print = b.toValue.print := by
    have hread := congrArg fromUtf8 h
    unfold canonical at hread
    rw [fromUtf8_utf8, fromUtf8_utf8, Option.some.injEq] at hread
    have hlist := congrArg String.toList hread
    rwa [String.toList_ofList, String.toList_ofList] at hlist
  have hproper : ∀ row : Row, row.toValue.Proper := by
    intro row
    simp [Row.toValue, Value.Proper, numbers, numbersFields]
  have hvalue := print_inj (hproper a) (hproper b) hprint
  cases a
  cases b
  simpa [Row.toValue, and_comm, and_assoc, and_left_comm] using hvalue

/-! ## The errors of `prepare` -/

section Errors

variable {crates : Crates} {isPrivate : Bool} {rows : List Row} {source grant : Bytes}
  {e : LearningError} {seen : Seen}

def duplicateErrors : List LearningError :=
  [.bail "duplicate example id", .bail "duplicate example content",
    .bail "duplicate prompt across lineages"]

theorem validateRow_error {row : Row} (hok : row.Ok isPrivate)
    (h : validateRow isPrivate seen row = .error e) : e ∈ duplicateErrors := by
  have htexts : [row.id, row.lineage, row.prompt, row.response, row.provenance].forM checkedText =
      .ok () := forM_eq_ok.mpr hok.texts
  have hconsented : (!row.isPrivate || isPrivate) := by
    cases hrow : row.isPrivate with
    | false => rfl
    | true => exact hok.consented hrow
  unfold validateRow at h
  simp only [htexts, hok.approved, hconsented, ensure_true, ok_bind, bind_error_iff, ensure_eq_error,
    reduceCtorEq, and_false, exists_false, or_false] at h
  rcases h with ⟨_, rfl⟩ | ⟨_, _, ⟨_, rfl⟩ | ⟨_, _, _, rfl⟩⟩
  · exact mem_cons_self
  · exact mem_cons_of_mem _ mem_cons_self
  · exact mem_cons_of_mem _ (mem_cons_of_mem _ mem_cons_self)

theorem foldlM_validateRow_error (hok : ∀ row ∈ rows, row.Ok isPrivate)
    (h : rows.foldlM (validateRow isPrivate) seen = .error e) : e ∈ duplicateErrors := by
  induction rows generalizing seen with
  | nil => cases h
  | cons row rest ih =>
    rw [foldlM_cons, bind_error_iff] at h
    rcases h with hrow | ⟨mid, _, hrest⟩
    · exact validateRow_error (hok row mem_cons_self) hrow
    · exact ih (fun r hr => hok r (mem_cons_of_mem row hr)) hrest

/-- With the checks of each row passed, only the checks between the rows
can fail. -/
theorem validateRows_error (hne : rows ≠ []) (hcount : rows.length ≤ 100000)
    (hok : ∀ row ∈ rows, row.Ok isPrivate) (h : validateRows rows isPrivate = .error e) :
    e ∈ duplicateErrors ∧ ¬ Distinct rows := by
  refine ⟨?_, ?_⟩
  · unfold validateRows at h
    simp only [hne, hcount, ne_eq, not_false_eq_true, decide_true, Bool.and_self, ensure_true, ok_bind,
      bind_error_iff, reduceCtorEq, and_false, exists_false, or_false] at h
    exact foldlM_validateRow_error hok h
  · intro hdistinct
    have hvalid := validateRows_eq_ok.mpr ⟨hne, hcount, hok, hdistinct⟩
    rw [hvalid] at h
    cases h

/-- The failures that are excused: an empty split, or a size. -/
def Excused (e : LearningError) : Prop :=
  e ∈ [.bail "all three lineage splits must be nonempty", .bail "split exceeds bound",
    .bail "JSON output exceeds bound", .bail "input exceeds byte limit",
    LearningError.bail "nonempty bounded dataset required"]

theorem not_excused_of_duplicate (h : e ∈ duplicateErrors) : ¬ Excused e := by
  unfold duplicateErrors at h
  unfold Excused
  simp only [mem_cons, not_mem_nil, or_false] at h
  rcases h with rfl | rfl | rfl <;> decide

/-- The source can be prepared: what fails is excused, and what is published
is accepted with its manifest. -/
def Prepares (crates : Crates) (source : Bytes) (isPrivate : Bool) : Prop :=
  ∀ grant, consent grant isPrivate = .ok () →
    (∀ e, prepare crates source grant isPrivate = .error e → Excused e) ∧
    ∀ manifest dir, prepare crates source grant isPrivate = .ok (manifest, dir) →
      verifyDataset crates dir = .ok manifest

/-- After the checks of the rows every failure is excused. -/
theorem prepare_error (hconsent : consent grant isPrivate = .ok ())
    (hraw : readRows crates (some source) = .ok raw)
    (h : prepare crates source grant isPrivate = .error e) :
    validateRows (raw.map (redactRow crates)) isPrivate = .error e ∨ Excused e := by
  unfold prepare at h
  simp only [hconsent, hraw, ok_bind, bind_error_iff, ensure_eq_error] at h
  rcases h with hvalid | ⟨_, _, ⟨_, rfl⟩ | ⟨_, _, hsizes | ⟨_, _, hfile⟩⟩⟩
  · exact .inl hvalid
  · exact .inr (by unfold Excused; decide)
  · obtain ⟨_, _, herror⟩ := exists_of_forM_eq_error hsizes
    rw [(ensure_eq_error.mp herror).2]
    exact .inr (by unfold Excused; decide)
  · unfold jsonFile at hfile
    simp only [bind_error_iff, ensure_eq_error, reduceCtorEq, and_false, exists_false, or_false] at hfile
    rw [hfile.2]
    exact .inr (by unfold Excused; decide)

end Errors

/-! ## When a collection can be prepared -/

section Main

variable {crates : Crates} {isPrivate : Bool} {documents : List Document} {found : List Excerpt}
  {config grant source : Bytes} {manifest : Value}

/-- Redaction keeps the excerpts apart: two excerpts whose prompts become
the same are of one lineage, and their texts stay different. -/
def KeptApart (crates : Crates) (found : List Excerpt) : Prop :=
  ∀ a ∈ found, ∀ b ∈ found, a.key crates.sha ≠ b.key crates.sha →
    normalize (redact crates a.prompt) = normalize (redact crates b.prompt) →
    a.lineage = b.lineage ∧ normalize (redact crates a.text) ≠ normalize (redact crates b.text)

/-- What is taken from `sha2` and `serde_json`: no two keys have one digest,
and the parser reads back the rows. -/
structure Collectable (crates : Crates) (isPrivate : Bool) (found : List Excerpt) : Prop where
  digests : ∀ a ∈ found, ∀ b ∈ found,
    digestValue crates.sha (a.key crates.sha) = digestValue crates.sha (b.key crates.sha) →
      a.key crates.sha = b.key crates.sha
  rows : Reads crates (found.map (Excerpt.row crates.sha isPrivate))
  redacted : Reads crates (found.map (fun e => redactRow crates (e.row crates.sha isPrivate)))

theorem row_eq_of_key {a b : Excerpt} (h : a.key sha = b.key sha) :
    a.row sha isPrivate = b.row sha isPrivate := by
  have hkey := h
  simp only [key, array.injEq, cons.injEq, string.injEq, number.injEq,
    Number.posInt.injEq, and_true] at hkey
  obtain ⟨hname, hrelative, hdigest, hpath, hindex, htext⟩ := hkey
  unfold row lineage prompt
  rw [h, hname, hrelative, hdigest, hpath, hindex, htext]

/-- The checks between the rows of a collection. -/
theorem distinct_iff_keptApart (hserde : Collectable crates isPrivate found) {rows : List Row}
    (hrows : rows = (found.map (row crates.sha isPrivate)).foldl addRow []) :
    Distinct (rows.map (redactRow crates)) ↔ KeptApart crates found := by
  obtain ⟨hnodup, hfrom, hall⟩ := foldl_addRow (found.map (row crates.sha isPrivate)) []
    nodup_nil
  rw [← hrows] at hnodup hfrom hall
  have hids : (rows.map (redactRow crates)).map Row.id = rows.map Row.id := by
    rw [map_map]
    rfl
  -- every row is the row of an excerpt, and every excerpt has its row
  have hof : ∀ row ∈ rows, ∃ e ∈ found, e.row crates.sha isPrivate = row := by
    intro row hrow
    rcases hfrom row hrow with hnil | hmem
    · cases hnil
    · obtain ⟨e, he, heq⟩ := mem_map.mp hmem
      exact ⟨e, he, heq⟩
  have hto : ∀ e ∈ found, e.row crates.sha isPrivate ∈ rows := by
    intro e he
    obtain ⟨row, hrow, hid⟩ := mem_map.mp (hall _ (mem_append_right []
      (mem_map_of_mem he)))
    obtain ⟨other, hother, rfl⟩ := hof row hrow
    rw [← row_eq_of_key (hserde.digests other hother e he hid)]
    exact hrow
  constructor
  · intro hdistinct a ha b hb hkey hprompt
    have hina := mem_map_of_mem (f := redactRow crates) (hto a ha)
    have hinb := mem_map_of_mem (f := redactRow crates) (hto b hb)
    refine ⟨hdistinct.lineages _ hina _ hinb hprompt, ?_⟩
    intro hresponse
    have hsame := inj_on_of_nodup_map hdistinct.contents hina hinb
      (Prod.ext_iff.mpr ⟨hprompt, hresponse⟩)
    exact hkey (hserde.digests a ha b hb (congrArg Row.id hsame))
  · intro hapart
    have hpair : ∀ r ∈ rows, ∀ r' ∈ rows, r ≠ r' → normalize (redactRow crates r).prompt =
        normalize (redactRow crates r').prompt → r.lineage = r'.lineage ∧
          normalize (redactRow crates r).response ≠ normalize (redactRow crates r').response := by
      intro r hr r' hr' hne hprompt
      obtain ⟨a, ha, rfl⟩ := hof r hr
      obtain ⟨b, hb, rfl⟩ := hof r' hr'
      exact hapart a ha b hb (fun hkey => hne (row_eq_of_key hkey)) hprompt
    refine ⟨hids ▸ hnodup, ?_, ?_⟩
    · rw [map_map]
      refine List.Nodup.map_on ?_ (hnodup.of_map _)
      intro r hr r' hr' hcontent
      by_contra hne
      obtain ⟨hprompt, hresponse⟩ := Prod.ext_iff.mp hcontent
      exact (hpair r hr r' hr' hne hprompt).2 hresponse
    · intro a ha b hb hprompt
      obtain ⟨r, hr, rfl⟩ := mem_map.mp ha
      obtain ⟨r', hr', rfl⟩ := mem_map.mp hb
      by_cases hsame : r = r'
      · rw [hsame]
      · exact (hpair r hr r' hr' hsame hprompt).1

section

variable (hsecrets : Secrets crates)
  (h : collect crates.sha config grant isPrivate documents = .ok (manifest, source))
  (hfound : collectedExcerpts documents = .ok found) (hserde : Collectable crates isPrivate found)

include hsecrets h hfound hserde

/-- The source of a collection: its rows are read back, and all checks of
one row pass on them. -/
theorem collected_rows :
    ∃ rows, readRows crates (some source) = .ok rows ∧ rows ≠ [] ∧ rows.length ≤ 100000 ∧
      (∀ row ∈ rows.map (redactRow crates), row.Ok isPrivate) ∧
      Reads crates (rows.map (redactRow crates)) ∧
      (Distinct (rows.map (redactRow crates)) ↔ KeptApart crates found) := by
  obtain ⟨found', rows, hfound', hrows, hne, rfl, hsize⟩ := collect_eq_ok h
  obtain rfl := Except.ok.inj (hfound.symm.trans hfound')
  have hfrom : ∀ row ∈ rows, ∃ e ∈ found, e.row crates.sha isPrivate = row := by
    intro row hrow
    obtain ⟨_, hfrom, _⟩ := foldl_addRow (found.map (Excerpt.row crates.sha isPrivate)) []
      nodup_nil
    rw [← hrows] at hfrom
    rcases hfrom row hrow with hnil | hmem
    · cases hnil
    · obtain ⟨e, he, heq⟩ := mem_map.mp hmem
      exact ⟨e, he, heq⟩
  have hreads : Reads crates rows := by
    intro row hrow
    obtain ⟨e, he, rfl⟩ := hfrom row hrow
    exact hserde.rows _ (mem_map_of_mem he)
  refine ⟨rows, readRows_rowsFile hreads hsize, hne, length_rows_le hsize, ?_, ?_,
    distinct_iff_keptApart hserde hrows⟩
  · intro row hrow
    obtain ⟨raw, hraw, rfl⟩ := mem_map.mp hrow
    obtain ⟨e, he, rfl⟩ := hfrom raw hraw
    exact checked_row hsecrets (collectedExcerpts_ok hfound e he)
  · intro row hrow
    obtain ⟨raw, hraw, rfl⟩ := mem_map.mp hrow
    obtain ⟨e, he, rfl⟩ := hfrom raw hraw
    exact hserde.redacted _ (mem_map.mpr ⟨e, he, rfl⟩)

/-- Where redaction does not keep the excerpts apart, `prepare` answers with
a duplicate. -/
theorem prepare_duplicate (hapart : ¬ KeptApart crates found)
    (hconsent : consent other isPrivate = .ok ()) :
    ∃ e ∈ duplicateErrors, prepare crates source other isPrivate = .error e := by
  obtain ⟨rows, hraw, hne, hcount, hok, _, hiff⟩ := collected_rows hsecrets h hfound hserde
  cases hvalid : validateRows (rows.map (redactRow crates)) isPrivate with
  | ok _ => exact absurd (hiff.mp (validateRows_eq_ok.mp hvalid).2.2.2) hapart
  | error e =>
    have hduplicate := (validateRows_error (by simpa using hne) (by simpa using hcount) hok hvalid).1
    refine ⟨e, hduplicate, ?_⟩
    unfold prepare
    simp only [hconsent, hraw, ok_bind, hvalid, error_bind]

end

/-- A collected source can be prepared exactly when redaction keeps its
excerpts apart. -/
theorem prepares_iff (hsecrets : Secrets crates)
    (h : collect crates.sha config grant isPrivate documents = .ok (manifest, source))
    (hfound : collectedExcerpts documents = .ok found) (hserde : Collectable crates isPrivate found)
    (hmanifest : ∀ grant m dir, prepare crates source grant isPrivate = .ok (m, dir) →
      crates.parse (canonical m ++ [0x0a]) = some m) :
    Prepares crates source isPrivate ↔ KeptApart crates found := by
  constructor
  · intro hprepares
    by_contra hapart
    have hconsent : consent grant isPrivate = .ok () := by
      unfold collect at h
      simp only [bind_ok_iff] at h
      exact h.choose_spec.1
    obtain ⟨e, hduplicate, herror⟩ := prepare_duplicate hsecrets h hfound hserde hapart hconsent
    exact not_excused_of_duplicate hduplicate ((hprepares grant hconsent).1 e herror)
  · intro hapart other hother
    obtain ⟨rows, hraw, hne, hcount, hok, hreads, hiff⟩ := collected_rows hsecrets h hfound hserde
    refine ⟨?_, ?_⟩
    · intro e herror
      rcases prepare_error hother hraw herror with hvalid | hexcused
      · exact absurd (hiff.mpr hapart)
          (validateRows_error (by simpa using hne) (by simpa using hcount) hok hvalid).2
      · exact hexcused
    · intro m dir hprepare
      exact verifyDataset_published hprepare hraw hreads (hmanifest other m dir hprepare)

end Main

/-! ## Two headings that are paths -/

def markdownDocument : Document := ⟨.abbey, "a.md", utf8 "# /a\nx\n# /bb\ny", by decide, by decide⟩

def abiDocument : Document := ⟨.abi, "b.txt", utf8 "b", by decide, by decide⟩

def wdbxDocument : Document := ⟨.wdbx, "c.txt", utf8 "c", by decide, by decide⟩

def pathDocuments : List Document := [markdownDocument, abiDocument, wdbxDocument]

def pathTexts : List (Document × String) :=
  [(markdownDocument, "# /a\nx\n# /bb\ny"), (abiDocument, "b"), (wdbxDocument, "c")]

def pathExcerpts : List Excerpt :=
  [⟨markdownDocument, "/a", 1, "# /a x"⟩, ⟨markdownDocument, "/bb", 1, "# /bb y"⟩,
    ⟨abiDocument, "", 1, "b"⟩, ⟨wdbxDocument, "", 1, "c"⟩]

/-- The digest of a message is chosen by its length. -/
def lengthSha : Sha256 := fun message => digestOf message.length

/-- A parser that knows some rows. -/
def parseRows (rows : List Row) (line : Bytes) : Option Value :=
  (rows.find? (fun row => canonical row.toValue = line)).map Row.toValue

/-- No pattern of `redact` matches in these documents. -/
def plainCrates (parse : Bytes → Option Value) : Crates := ⟨lengthSha, parse, fun text => text⟩

/-- The rows of some excerpts and what redaction makes of them. -/
def knownRows (found : List Excerpt) : List Row :=
  found.map (Excerpt.row lengthSha false) ++
    found.map (fun e => redactRow (plainCrates fun _ => none) (e.row lengthSha false))

def pathCrates : Crates := plainCrates (parseRows (knownRows pathExcerpts))

theorem parseRows_canonical {rows : List Row} {row : Row} (h : row ∈ rows) :
    parseRows rows (canonical row.toValue) = some row.toValue := by
  unfold parseRows
  cases hfind : rows.find? (fun other => canonical other.toValue = canonical row.toValue) with
  | none =>
    have hno := find?_eq_none.mp hfind row h
    simp at hno
  | some other =>
    have hsame := find?_some hfind
    rw [row_eq_of_canonical (decide_eq_true_eq.mp hsame)]
    rfl

theorem reads_plainCrates {rows read : List Row} (h : ∀ row ∈ read, row ∈ rows) :
    Reads (plainCrates (parseRows rows)) read :=
  fun row hrow => parseRows_canonical (h row hrow)

theorem collectedExcerpts_path : collectedExcerpts pathDocuments = .ok pathExcerpts := rfl

def pathGrant : Bytes := utf8 "abbey-train-consent: v1\n"

theorem path_secrets : Secrets pathCrates :=
  ⟨fun _ h => h, fun _ h => h, fun text => Nat.le_mul_of_pos_left text.utf8ByteSize (by decide)⟩

theorem digestValue_lengthSha (v : Value) :
    digestValue lengthSha v = lowerHex (digestOf (bytes v.print)).toList := by
  unfold digestValue digestBytes lengthSha
  rw [length_canonical]

theorem path_keys : (pathExcerpts.map (fun e => digestValue lengthSha (e.key lengthSha))).Nodup := by
  simp only [digestValue_lengthSha, key, digestBytes, lowerHex, print, printItems, printString,
    String.toList_ofList]
  decide +kernel

theorem prompt_toList (e : Excerpt) : e.prompt.toList =
    "Source continuation from ".toList ++ e.doc.source.name.toList ++ ":".toList ++
      e.doc.relative.toList ++ "; section ".toList ++
      (if e.path = "" then "(document)" else e.path).toList ++ "; chunk ".toList ++
      (toString e.index).toList ++ ".".toList := by
  unfold prompt
  simp only [String.toList_append]

theorem path_not_keptApart : ¬ KeptApart pathCrates pathExcerpts := by
  intro h
  have hkey : (⟨markdownDocument, "/a", 1, "# /a x"⟩ : Excerpt).key lengthSha ≠
      (⟨markdownDocument, "/bb", 1, "# /bb y"⟩ : Excerpt).key lengthSha := by
    simp [key]
  have hprompt : normalize (redact pathCrates (prompt ⟨markdownDocument, "/a", 1, "# /a x"⟩)) =
      normalize (redact pathCrates (prompt ⟨markdownDocument, "/bb", 1, "# /bb y"⟩)) := by
    have hredact : ∀ text, redact pathCrates text = String.ofList (redactChars text.toList) :=
      fun text => rfl
    rw [hredact, hredact, prompt_toList, prompt_toList]
    unfold normalize
    rw [String.toList_ofList, String.toList_ofList]
    decide +kernel
  have hlineage := (h _ mem_cons_self _ (mem_cons_of_mem _ mem_cons_self) hkey
    hprompt).1
  exact absurd hlineage (by decide +kernel)

theorem path_consent : consent pathGrant false = .ok () := by
  decide +kernel

/-- The bounds of what is printed hold for every hash. -/
theorem path_collected_of {sha : Sha256}
    (hkeys : (pathExcerpts.map (fun e => digestValue sha (e.key sha))).Nodup) :
    ∃ manifest source, collect sha [] pathGrant false pathDocuments = .ok (manifest, source) := by
  have htexts : readDocuments 0 pathDocuments = .ok pathTexts := rfl
  have hmarkdown : documentExcerpts markdownDocument "# /a\nx\n# /bb\ny" =
      .ok (pathExcerpts.take 2) := rfl
  have habi : documentExcerpts abiDocument "b" = .ok [⟨abiDocument, "", 1, "b"⟩] := rfl
  have hwdbx : documentExcerpts wdbxDocument "c" = .ok [⟨wdbxDocument, "", 1, "c"⟩] := rfl
  have hnew : (normalize "b" == normalize "# /a\nx\n# /bb\ny") = false ∧
      (normalize "c" == normalize "# /a\nx\n# /bb\ny") = false ∧
      (normalize "c" == normalize "b") = false := by decide +kernel
  refine collect_of path_consent (by decide) rfl htexts ?_
  rw [pathTexts, foldlM_cons, collectDocument_new rfl hmarkdown
      (hkeys.sublist (by simp [pathExcerpts, Collection.empty, row])), ok_bind, foldlM_cons,
    collectDocument_new (by simp [Collection.empty, lookup_cons, hnew]) habi
      (hkeys.sublist (by simp [pathExcerpts, Collection.empty, row])), ok_bind, foldlM_cons,
    collectDocument_new (by simp [Collection.empty, lookup_cons, hnew]) hwdbx
      (hkeys.sublist (by simp [pathExcerpts, Collection.empty, row])), ok_bind, foldlM_nil]
  simp only [pure, Except.pure, Except.toOption, Option.any_some, decide_eq_true_eq]
  refine ⟨cons_ne_nil _ _, (bytes_rowsText_le _).trans ?_, (bytes_print_le _).trans_lt ?_⟩
  · simp only [Collection.empty, nil_append, cons_append, pathExcerpts, take_succ_cons, take_zero,
      map_cons, map_nil, sum_cons, sum_nil, row, Row.toValue, Value.weight, weightFields,
      digestValue, utf8ByteSize_digestBytes, utf8ByteSize_append_digestBytes]
    decide +kernel
  · simp only [Collection.empty, nil_append, cons_append, collectionManifest, unsignedCollection,
      Value.weight, weightFields, weightItems, Collection.count, repositoryValue, fileItem,
      digestValue, utf8ByteSize_digestBytes, take_succ_cons, take_zero, drop_succ_cons, drop_zero,
      Option.map_none, Option.toList_none, pathExcerpts, map_cons, map_nil, length_cons, length_nil]
    decide +kernel

theorem path_collected : ∃ manifest source,
    collect lengthSha [] pathGrant false pathDocuments = .ok (manifest, source) :=
  path_collected_of path_keys

theorem collectable_plainCrates {found : List Excerpt}
    (hkeys : (found.map (fun e => digestValue lengthSha (e.key lengthSha))).Nodup) :
    Collectable (plainCrates (parseRows (knownRows found))) false found where
  digests a ha b hb hdigest := by
    rw [inj_on_of_nodup_map hkeys ha hb hdigest]
  rows := reads_plainCrates (fun row hrow => mem_append_left _ hrow)
  redacted := reads_plainCrates (fun row hrow => mem_append_right _ hrow)

theorem path_collectable : Collectable pathCrates false pathExcerpts :=
  collectable_plainCrates path_keys

/-- The headings `/a` and `/bb` of one document become the same prompt, and
the collected source is refused. -/
theorem collected_source_refused : ∃ manifest source,
    collect lengthSha [] pathGrant false pathDocuments = .ok (manifest, source) ∧
      (∃ e ∈ duplicateErrors, prepare pathCrates source pathGrant false = .error e) ∧
      ¬ Prepares pathCrates source false := by
  obtain ⟨manifest, source, h⟩ := path_collected
  obtain ⟨e, hduplicate, herror⟩ := prepare_duplicate path_secrets h collectedExcerpts_path
    path_collectable path_not_keptApart path_consent
  refine ⟨manifest, source, h, ⟨e, hduplicate, herror⟩, ?_⟩
  intro hprepares
  exact not_excused_of_duplicate hduplicate ((hprepares pathGrant path_consent).1 e herror)

theorem path_prepares_iff : ∃ manifest source,
    collect lengthSha [] pathGrant false pathDocuments = .ok (manifest, source) ∧
      (Prepares pathCrates source false ↔ KeptApart pathCrates pathExcerpts) := by
  obtain ⟨manifest, source, h⟩ := path_collected
  refine ⟨manifest, source, h, prepares_iff path_secrets h collectedExcerpts_path path_collectable ?_⟩
  intro grant m dir hprepare
  have hconsent : consent grant false = .ok () := by
    unfold prepare at hprepare
    simp only [bind_ok_iff] at hprepare
    exact hprepare.choose_spec.1
  obtain ⟨_, _, herror⟩ := prepare_duplicate path_secrets h collectedExcerpts_path
    path_collectable path_not_keptApart hconsent
  rw [herror] at hprepare
  cases hprepare

end Abbey.Learning
