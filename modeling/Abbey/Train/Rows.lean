import Abbey.Train.Ledger

/-!
# Reading the ledger back

A ledger of complete lines is read as the rows that were written, and a
pointer that was written is read as one at the same artifact.  `Serde` is
what the crate `serde_json` promises for this: it parses what it printed,
and the text of a score is a number on one line.
-/

namespace Abbey.Train

open Abbey.Lib Value List Option
open Abbey.Conversation (utf8)
open Abbey.Learning (Bytes canonical fromUtf8 fromUtf8_utf8 utf8_append)
open Abbey.Run (isWhitespace)

variable {F : Type} {crates : Crates F}
variable {row : LedgerRow F}

structure Serde (crates : Crates F) : Prop where
  row : ∀ row, crates.parse (canonical (LedgerRow.toValue crates row)) = some (row.toValue crates)
  current : ∀ current, crates.parse (CurrentArtifact.pretty crates current) =
    some (current.toValue crates)
  oneLine : ∀ x text, crates.numberText x = some text → '\n' ∉ text.toList
  number : ∀ x text, crates.numberText x = some text →
    (crates.read (.other text)).isSome = true

/-- A row whose scores are read back as they were written. -/
structure LedgerRow.Exact (crates : Crates F) (row : LedgerRow F) : Prop where
  score : ∀ x ∈ row.reproductionScore, crates.Exact x
  baseline : ∀ x ∈ row.baselineReproductionScore, crates.Exact x

/-! ## Values -/

section Values

theorem lookup_pair (key other : String) (value : Value) (rest : List (String × Value)) :
    ((key, value) :: rest).lookup other =
      (if other = key then some value else none).or (rest.lookup other) := by
  by_cases hkey : other = key
  · simp [lookup_cons, hkey]
  · simp [lookup_cons, hkey, beq_false_of_ne hkey]

theorem lookup_optionalText (key other : String) (value : Option String) :
    (optionalText key value).lookup other = if other = key then value.map .string else none := by
  cases value with
  | none => simp [optionalText, optional]
  | some text =>
    by_cases hkey : other = key
    · simp [optionalText, optional, lookup_cons, hkey]
    · simp [optionalText, optional, lookup_cons, hkey, beq_false_of_ne hkey]

theorem lookup_optionalScore (key other : String) (value : Option F) :
    (optionalScore crates key value).lookup other =
      if other = key then value.map crates.scoreValue else none := by
  cases value with
  | none => simp [optionalScore, optional]
  | some x =>
    by_cases hkey : other = key
    · simp [optionalScore, optional, lookup_cons, hkey]
    · simp [optionalScore, optional, lookup_cons, hkey, beq_false_of_ne hkey]

variable {value : Value} {key : String}

theorem textField_of
    (h : value.index key = (text.map string).getD .null) : textField value key = some text := by
  unfold textField
  rw [h]
  cases text with
  | none => rfl
  | some text => rfl

theorem scoreField_of (h : value.index key = (score.map crates.scoreValue).getD .null)
    (hexact : ∀ x ∈ score, crates.Exact x) : scoreField crates value key = some score := by
  unfold scoreField
  rw [h]
  cases score with
  | none => rfl
  | some x =>
    obtain ⟨text, htext, hread⟩ := hexact x rfl
    simp [Crates.scoreValue, htext, hread]

/-- The fields of a row by their keys. -/
theorem LedgerRow.index_toValue (row : LedgerRow F) (key : String) :
    (row.toValue crates).index key = ((if key = "ts" then some (string row.ts) else none).or <|
        (if key = "op" then some (string row.op) else none).or <|
        (if key = "run_id" then row.runId.map string else none).or <|
        (if key = "source" then row.source.map string else none).or <|
        (if key = "dataset_digest" then row.datasetDigest.map string else none).or <|
        (if key = "dataset_path" then row.datasetPath.map string else none).or <|
        (if key = "manifest_digest" then row.manifestDigest.map string else none).or <|
        (if key = "consent_digest" then row.consentDigest.map string else none).or <|
        (if key = "artifact_path" then row.artifactPath.map string else none).or <|
        (if key = "artifact_digest" then row.artifactDigest.map string else none).or <|
        (if key = "reproduction_score" then row.reproductionScore.map crates.scoreValue
          else none).or <|
        (if key = "baseline_reproduction_score" then
          row.baselineReproductionScore.map crates.scoreValue else none).or <|
        (if key = "metric" then row.metric.map string else none).or <|
        (if key = "validation_leak" then row.validationLeak.map string else none).or <|
        (if key = "decision" then row.decision.map string else none).or <|
        (if key = "detail" then some (string row.detail) else none).or <|
        (if key = "row_digest" then some (string row.rowDigest) else none)).getD .null := by
  simp only [toValue, index, lookup_append, lookup_optionalText, lookup_optionalScore,
    lookup_pair, lookup_nil, Option.or_assoc, Option.or_none]

/-- A row whose scores are exact comes back from its value. -/
theorem LedgerRow.ofValue_toValue (h : row.Exact crates) :
    ofValue crates (row.toValue crates) = some row := by
  have hdetail : (row.toValue crates).asObject.bind (fun fields => fields.lookup "detail") =
      some (.string row.detail) := by
    simp [toValue, asObject, lookup_append, lookup_optionalText, lookup_optionalScore, lookup_pair]
  have hts : (row.toValue crates).index "ts" = .string row.ts := by simp [index_toValue]
  have hop : (row.toValue crates).index "op" = .string row.op := by simp [index_toValue]
  have hdigest : (row.toValue crates).index "row_digest" = .string row.rowDigest := by
    simp [index_toValue]
  have hscore : scoreField crates (row.toValue crates) "reproduction_score" =
      some row.reproductionScore := scoreField_of (by simp [index_toValue]) h.score
  have hbaseline : scoreField crates (row.toValue crates) "baseline_reproduction_score" =
      some row.baselineReproductionScore := scoreField_of (by simp [index_toValue]) h.baseline
  have htext : ∀ key text, (row.toValue crates).index key = (Option.map string text).getD .null →
      textField (row.toValue crates) key = some text := fun _ _ => textField_of
  unfold ofValue
  rw [hts, hop, hdetail, hdigest, hscore, hbaseline,
    htext "run_id" row.runId (by simp [index_toValue]),
    htext "source" row.source (by simp [index_toValue]),
    htext "dataset_digest" row.datasetDigest (by simp [index_toValue]),
    htext "dataset_path" row.datasetPath (by simp [index_toValue]),
    htext "manifest_digest" row.manifestDigest (by simp [index_toValue]),
    htext "consent_digest" row.consentDigest (by simp [index_toValue]),
    htext "artifact_path" row.artifactPath (by simp [index_toValue]),
    htext "artifact_digest" row.artifactDigest (by simp [index_toValue]),
    htext "metric" row.metric (by simp [index_toValue]),
    htext "validation_leak" row.validationLeak (by simp [index_toValue]),
    htext "decision" row.decision (by simp [index_toValue])]
  rfl

/-- A pointer comes back with the same run and artifact. -/
theorem CurrentArtifact.ofValue_toValue (hserde : Serde crates) (current : CurrentArtifact F) :
    ∃ score, ofValue crates (current.toValue crates) =
      some { current with reproductionScore := score } := by
  have hindex : ∀ key, (current.toValue crates).index key =
      ((if key = "run_id" then some (string current.runId) else none).or <|
        (if key = "artifact_path" then some (string current.artifactPath) else none).or <|
        (if key = "artifact_digest" then some (string current.artifactDigest)
          else none).or <|
        (if key = "reproduction_score" then current.reproductionScore.map crates.scoreValue
          else none).or <|
        (if key = "updated_at" then some (string current.updatedAt) else none)).getD .null := by
    intro key
    simp only [toValue, index, lookup_append, lookup_optionalScore, lookup_pair,
      lookup_nil, Option.or_assoc, Option.or_none]
  have hscore : ∃ score, scoreField crates (current.toValue crates) "reproduction_score" =
      some score := by
    unfold scoreField
    rw [hindex]
    cases current.reproductionScore with
    | none => exact ⟨none, by simp⟩
    | some x =>
      cases htext : crates.numberText x with
      | none => exact ⟨none, by simp [Crates.scoreValue, htext]⟩
      | some text =>
        obtain ⟨y, hy⟩ := Option.isSome_iff_exists.mp (hserde.number x text htext)
        exact ⟨some y, by simp [Crates.scoreValue, htext, hy]⟩
  obtain ⟨score, hscore⟩ := hscore
  refine ⟨score, ?_⟩
  have hstring : ∀ key text, (current.toValue crates).index key = .string text →
      ((current.toValue crates).index key).asStr = some text := by
    intro key text h
    rw [h]
    rfl
  unfold ofValue
  rw [hscore, hstring "run_id" current.runId (by simp [hindex]),
    hstring "artifact_path" current.artifactPath (by simp [hindex]),
    hstring "artifact_digest" current.artifactDigest (by simp [hindex]),
    hstring "updated_at" current.updatedAt (by simp [hindex])]
  rfl

end Values

/-! ## Lines -/

section Lines

variable {d : TrainDir}

theorem newline_notMem_utf8 (h : '\n' ∉ cs) : newline ∉ utf8 (String.ofList cs) := by
  have hutf8 : utf8 (String.ofList cs) = cs.flatMap String.utf8EncodeChar := by
    simp [utf8, utf8Encode]
  rw [hutf8, mem_flatMap]
  rintro ⟨c, hc, hbyte⟩
  have hvalue : c.val.toNat = 10 := by
    have hlead : ∀ n, 128 ≤ n → n < 256 → newline ≠ UInt8.ofNat n := by
      intro n hlow hhigh heq
      have hnat := congrArg UInt8.toNat heq
      rw [UInt8.toNat_ofNat'] at hnat
      have hten : newline.toNat = 10 := rfl
      omega
    unfold String.utf8EncodeChar at hbyte
    dsimp only at hbyte
    split_ifs at hbyte with hone htwo hthree
    · have hnat := congrArg UInt8.toNat (mem_singleton.mp hbyte)
      rw [UInt8.toNat_ofNat'] at hnat
      have hten : newline.toNat = 10 := rfl
      omega
    all_goals
      simp only [mem_cons, not_mem_nil, or_false] at hbyte
      exfalso
    · rcases hbyte with heq | heq
      · exact hlead _ (by omega) (by omega) heq
      · exact hlead _ (by omega) (by omega) heq
    · rcases hbyte with heq | heq | heq
      · exact hlead _ (by omega) (by omega) heq
      · exact hlead _ (by omega) (by omega) heq
      · exact hlead _ (by omega) (by omega) heq
    · rcases hbyte with heq | heq | heq | heq
      · exact hlead _ (by omega) (by omega) heq
      · exact hlead _ (by omega) (by omega) heq
      · exact hlead _ (by omega) (by omega) heq
      · exact hlead _ (by omega) (by omega) heq
  have hnewline : c = '\n' := by
    apply Char.ext
    apply UInt32.toNat_inj.mp
    rw [hvalue]
    rfl
  rw [hnewline] at hc
  exact h hc

theorem newline_notMem_scoreValue (hserde : Serde crates) (x : F) :
    '\n' ∉ (crates.scoreValue x).print := by
  unfold Crates.scoreValue
  cases htext : crates.numberText x with
  | none => 
    rw [elim_none, print]
    decide
  | some text =>
    rw [elim_some, print]
    exact hserde.oneLine x text htext

theorem newline_notMem_text (text : String) : '\n' ∉ (string text).print := by
  rw [print_string]
  exact newline_notMem_printString text

theorem newline_notMem_optionalText (key : String) (value : Option String) :
    ∀ field ∈ optionalText key value, '\n' ∉ field.2.print := by
  cases value with
  | none => simp [optionalText, optional]
  | some text =>
    intro field hfield
    rw [mem_singleton.mp hfield]
    exact newline_notMem_text text

theorem newline_notMem_optionalScore (hserde : Serde crates) (key : String) (value : Option F) :
    ∀ field ∈ optionalScore crates key value, '\n' ∉ field.2.print := by
  cases value with
  | none => simp [optionalScore, optional]
  | some x =>
    intro field hfield
    rw [mem_singleton.mp hfield]
    exact newline_notMem_scoreValue hserde x

/-- The text of a row is one line. -/
theorem LedgerRow.print_toValue (hserde : Serde crates) (row : LedgerRow F) :
    ∃ middle, (row.toValue crates).print = '\x7b' :: middle ++ ['\x7d'] ∧ '\n' ∉ middle := by
  refine ⟨_, rfl, newline_notMem_printFields ?_⟩
  simp only [forall_mem_append, forall_mem_cons, newline_notMem_text,
    not_false_eq_true, true_and, not_mem_nil, false_implies, implies_true, and_true]
  have htext := newline_notMem_optionalText
  have hscore := newline_notMem_optionalScore hserde
  exact ⟨⟨⟨⟨⟨⟨⟨⟨⟨⟨⟨⟨htext _ _, htext _ _⟩, htext _ _⟩, htext _ _⟩, htext _ _⟩, htext _ _⟩,
    htext _ _⟩, htext _ _⟩, hscore _ _⟩, hscore _ _⟩, htext _ _⟩, htext _ _⟩, htext _ _⟩

theorem newline_notMem_canonical (hserde : Serde crates) (row : LedgerRow F) :
    newline ∉ canonical (row.toValue crates) := by
  obtain ⟨middle, hprint, hmiddle⟩ := row.print_toValue hserde
  refine newline_notMem_utf8 ?_
  rw [hprint]
  simp [hmiddle]

theorem readLine_canonical (hserde : Serde crates) (h : row.Exact crates) :
    readLine crates (canonical (row.toValue crates)) = some row := by
  obtain ⟨middle, hprint, _⟩ := row.print_toValue hserde
  have hchomp : chomp (canonical (row.toValue crates)) = canonical (row.toValue crates) := by
    have hlast : canonical (row.toValue crates) =
        utf8 (String.ofList ('\x7b' :: middle)) ++ [0x7d] := by
      unfold canonical
      rw [hprint, String.ofList_append, utf8_append]
      rfl
    unfold chomp
    rw [hlast, getLast?_concat, if_neg (by decide)]
  have htext : fromUtf8 (canonical (row.toValue crates)) =
      some (String.ofList (row.toValue crates).print) := fromUtf8_utf8 _
  have hblank : (row.toValue crates).print.all isWhitespace = false := by
    rw [hprint]
    simp [show isWhitespace '\x7b' = false from by decide]
  unfold readLine
  rw [hchomp, htext]
  simp only [bind_eq_bind, bind_some, String.toList_ofList, hblank,
    Bool.false_eq_true, if_false, hserde.row]
  exact LedgerRow.ofValue_toValue h

theorem readLine_nil : readLine crates [] = none := rfl

/-- A ledger of complete lines reads as its rows. -/
theorem read_of_lines (hserde : Serde crates) (hexact : ∀ row ∈ rows, row.Exact crates)
    (hledger : d.ledger = rows.flatMap (LedgerRow.line crates)) : read crates d = rows := by
  unfold read
  rw [hledger]
  clear hledger
  induction rows with
  | nil => rfl
  | cons row rows ih =>
    obtain ⟨hrow, hrows⟩ := forall_mem_cons.mp hexact
    have hsplit : ((row :: rows).flatMap (LedgerRow.line crates)).splitOnP
        (fun byte => byte = newline) = canonical (row.toValue crates) ::
          (rows.flatMap (LedgerRow.line crates)).splitOnP (fun byte => byte = newline) := by
      rw [flatMap_cons, LedgerRow.line, append_assoc, singleton_append]
      refine splitOnP_append_cons_of_forall_mem (fun byte hbyte => ?_) newline
        (decide_eq_true rfl) _
      refine decide_eq_false (fun heq => newline_notMem_canonical hserde row ?_)
      rwa [heq] at hbyte
    rw [hsplit, filterMap_cons, readLine_canonical hserde hrow, ih hrows]

/-- The pointer that was written last. -/
theorem readCurrent_of_pretty (hserde : Serde crates) {current : CurrentArtifact F}
    (h : d.current = some (current.pretty crates)) :
    ∃ score, readCurrent crates d = .ok (some { current with reproductionScore := score }) := by
  obtain ⟨score, hvalue⟩ := current.ofValue_toValue hserde
  refine ⟨score, ?_⟩
  unfold readCurrent
  rw [h]
  simp only [hserde.current, bind_some, hvalue]

end Lines

end Abbey.Train
