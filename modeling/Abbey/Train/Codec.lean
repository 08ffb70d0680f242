import Abbey.Lib.JsonText
import Abbey.Provider.Scoring
import Abbey.Train.Rows

/-!
# A codec for the ledger

`Serde` can be met: over two scores, a parser that knows what was printed.
Two objects of texts and scores with the same text have the same fields,
both in the compact form of a row and in the form of the pointer.
-/

namespace Abbey.Train

open Abbey.Lib Value List Option
open Abbey.Conversation (utf8)
open Abbey.Learning (Bytes canonical fromUtf8 fromUtf8_utf8)
open Abbey.Provider (Floating)

variable {fields : List (String × Value)}
variable {others : List (String × Value)} {bytes : Bytes} {v w : Value}

section Joined

variable {α : Type} {f : α → List Char} {sep stop : List Char} {as bs : List α}

/-- Pieces that say where they end can be told apart when they are joined,
where neither a piece nor the separator begins like what follows the last
piece. -/
theorem intercalate_inj (hpiece : ∀ a ∈ as, ∀ b ∈ bs, ∀ s t, f a ++ s = f b ++ t → a = b ∧ s = t)
    (hstart : ∀ a s t, f a ++ s ≠ stop ++ t) (hsep : ∀ s t, sep ++ s ≠ stop ++ t)
    (h : sep.intercalate (as.map f) ++ stop = sep.intercalate (bs.map f) ++ stop) : as = bs := by
  induction as generalizing bs with
  | nil =>
    cases bs with
    | nil => rfl
    | cons b bs =>
      cases bs with
      | nil => exact absurd (by simpa using h.symm) (hstart b stop [])
      | cons b' bs =>
        refine absurd ?_ (hstart b (sep ++ (sep.intercalate ((b' :: bs).map f) ++ stop)) [])
        simpa using h.symm
  | cons a as ih =>
    cases bs with
    | nil =>
      cases as with
      | nil => exact absurd (by simpa using h) (hstart a stop [])
      | cons a' as =>
        refine absurd ?_ (hstart a (sep ++ (sep.intercalate ((a' :: as).map f) ++ stop)) [])
        simpa using h
    | cons b bs =>
      have hab := hpiece a mem_cons_self b mem_cons_self
      have hrest : ∀ x ∈ as, ∀ y ∈ bs, ∀ s t, f x ++ s = f y ++ t → x = y ∧ s = t :=
        fun x hx y hy => hpiece x (mem_cons_of_mem a hx) y (mem_cons_of_mem b hy)
      cases as with
      | nil =>
        cases bs with
        | nil =>
          have heq := (hab stop stop (by simpa using h)).1
          rw [heq]
        | cons b' bs =>
          have hends := (hab stop (sep ++ (sep.intercalate ((b' :: bs).map f) ++ stop))
            (by simpa using h)).2
          exact absurd (by simpa using hends.symm) (hsep _ [])
      | cons a' as =>
        cases bs with
        | nil =>
          have hends := (hab (sep ++ (sep.intercalate ((a' :: as).map f) ++ stop)) stop
            (by simpa using h)).2
          exact absurd (by simpa using hends) (hsep _ [])
        | cons b' bs =>
          obtain ⟨rfl, hmore⟩ := hab
            (sep ++ (sep.intercalate ((a' :: as).map f) ++ stop))
            (sep ++ (sep.intercalate ((b' :: bs).map f) ++ stop)) (by simpa using h)
          rw [ih hrest (append_cancel_left hmore)]

end Joined

/-- A text, or one of the two numbers of the codec below. -/
inductive Scalar : Value → Prop where
  | text (s : String) : Scalar (.string s)
  | zero : Scalar (.number (.other "0.0"))
  | one : Scalar (.number (.other "1.0"))

theorem print_zero : (number (.other "0.0")).print = ['0', '.', '0'] := rfl

theorem print_one : (number (.other "1.0")).print = ['1', '.', '0'] := rfl

theorem Scalar.print_append_inj (hv : Scalar v) (hw : Scalar w)
    (h : v.print ++ s = w.print ++ t) : v = w ∧ s = t := by
  cases hv with
  | text a =>
    cases hw with
    | text b =>
      rw [print_string, print_string] at h
      obtain ⟨rfl, hrest⟩ := printString_append_inj h
      exact ⟨rfl, hrest⟩
    | zero => simp [print_zero, printString] at h
    | one => simp [print_one, printString] at h
  | zero =>
    cases hw with
    | text b => simp [print_zero, printString] at h
    | zero => exact ⟨rfl, append_cancel_left h⟩
    | one => simp [print_zero, print_one] at h
  | one =>
    cases hw with
    | text b => simp [print_one, printString] at h
    | zero => simp [print_zero, print_one] at h
    | one => exact ⟨rfl, append_cancel_left h⟩

theorem proper_of_scalar (h : ∀ field ∈ fields, Scalar field.2) : (object fields).Proper := by
  intro n hn
  change n ∈ numbersFields fields at hn
  induction fields with
  | nil => cases hn
  | cons field rest ih =>
    rcases mem_append.mp hn with hfirst | hrest
    · cases field with
      | mk key value =>
        cases h _ mem_cons_self with
        | text s => cases hfirst
        | zero | one =>
          rw [mem_singleton.mp hfirst]
          decide
    · exact ih (fun other hother => h other (mem_cons_of_mem field hother)) hrest

/-- The fields of two objects with the same compact text. -/
theorem printFields_inj (hfields : ∀ field ∈ fields, Scalar field.2)
    (hothers : ∀ field ∈ others, Scalar field.2)
    (h : (object fields).print = (object others).print) : fields = others :=
  object.inj (print_inj (proper_of_scalar hfields) (proper_of_scalar hothers) h)

/-- One field of the text over several lines. -/
def prettyField : String × Value → List Char
  | (key, value) => "  ".toList ++ Value.printString key ++ ": ".toList ++ value.print

theorem prettyObject_inj (hfields : ∀ field ∈ fields, Scalar field.2)
    (hothers : ∀ field ∈ others, Scalar field.2) (h : prettyObject fields = prettyObject others) :
    fields = others := by
  have hprint : ∀ fields, prettyObject fields = "\x7b\n".toList ++
      (",\n".toList.intercalate (fields.map prettyField) ++ "\n\x7d".toList) := by
    intro fields
    exact append_assoc _ _ _
  rw [hprint, hprint] at h
  refine intercalate_inj (fun a ha b hb s t heq => ?_) (fun a s t heq => ?_) (fun s t heq => ?_)
    (append_cancel_left h)
  · obtain ⟨key, value⟩ := a
    obtain ⟨key', value'⟩ := b
    simp only [prettyField, append_assoc] at heq
    obtain ⟨rfl, hrest⟩ := printString_append_inj (append_cancel_left heq)
    obtain ⟨rfl, hst⟩ := (hfields _ ha).print_append_inj (hothers _ hb)
      (append_cancel_left hrest)
    exact ⟨rfl, hst⟩
  · simp [prettyField] at heq
  · simp at heq

/-! ## The parser -/

/-- The scores 0.0 and 1.0. -/
instance : Floating (Fin 2) where
  literal digits _ := if digits = 0 then 0 else 1
  ofNat n := if n = 0 then 0 else 1
  isFinite _ := true
  le x y := x ≤ y
  totalCmp x y := compare x y

/-- The texts of the scores, without a parser. -/
def scoreTexts : Crates (Fin 2) where
  sha _ := .replicate 32 0
  parse _ := none
  numberText x := some (if x = 0 then "0.0" else "1.0")
  read
    | .other "0.0" => some 0
    | .other "1.0" => some 1
    | _ => none

/-- A value that the ledger prints in these bytes. -/
def Printed (bytes : Bytes) (value : Value) : Prop :=
  (∃ row : LedgerRow (Fin 2), value = row.toValue scoreTexts ∧ bytes = canonical value) ∨
    ∃ current : CurrentArtifact (Fin 2), value = current.toValue scoreTexts ∧
      bytes = current.pretty scoreTexts

open Classical in
noncomputable def parsePrinted (bytes : Bytes) : Option Value :=
  if h : ∃ value, Printed bytes value then some h.choose else none

noncomputable def sampleCrates : Crates (Fin 2) := { scoreTexts with parse := parsePrinted }

theorem scalar_optionalText (key : String) (value : Option String) :
    ∀ field ∈ optionalText key value, Scalar field.2 := by
  cases value with
  | none => simp [optionalText, optional]
  | some text =>
    intro field hfield
    rw [mem_singleton.mp hfield]
    exact .text text

theorem scalar_optionalScore (key : String) (value : Option (Fin 2)) :
    ∀ field ∈ optionalScore scoreTexts key value, Scalar field.2 := by
  cases value with
  | none => simp [optionalScore, optional]
  | some x =>
    intro field hfield
    rw [mem_singleton.mp hfield]
    by_cases hzero : x = 0
    · rw [hzero]
      exact .zero
    · have hone : x = 1 := by omega
      rw [hone]
      exact .one

theorem scalar_row (row : LedgerRow (Fin 2)) : ∃ fields, row.toValue scoreTexts = .object fields ∧
    ∀ field ∈ fields, Scalar field.2 := by
  refine ⟨_, rfl, ?_⟩
  have htext := scalar_optionalText
  have hscore := scalar_optionalScore
  simp only [forall_mem_append, forall_mem_cons, Scalar.text, true_and,
    not_mem_nil, false_implies, implies_true, and_true]
  exact ⟨⟨⟨⟨⟨⟨⟨⟨⟨⟨⟨⟨htext _ _, htext _ _⟩, htext _ _⟩, htext _ _⟩, htext _ _⟩, htext _ _⟩,
    htext _ _⟩, htext _ _⟩, hscore _ _⟩, hscore _ _⟩, htext _ _⟩, htext _ _⟩, htext _ _⟩

theorem scalar_current (current : CurrentArtifact (Fin 2)) : ∃ fields,
    current.toValue scoreTexts = .object fields ∧ ∀ field ∈ fields, Scalar field.2 := by
  refine ⟨_, rfl, ?_⟩
  have hscore := scalar_optionalScore
  simp only [forall_mem_append, forall_mem_cons, Scalar.text, true_and,
    not_mem_nil, false_implies, implies_true, and_true]
  exact hscore _ _

theorem utf8_inj (h : utf8 a = utf8 b) : a = b := by
  have hread := congrArg fromUtf8 h
  rw [fromUtf8_utf8, fromUtf8_utf8] at hread
  exact some.inj hread

/-- The compact text goes on where the other begins a line. -/
theorem print_ne_pretty (fields others : List (String × Value)) :
    (object fields).print ≠ prettyObject others := by
  intro h
  have hpretty : ∃ rest, prettyObject others = '\x7b' :: '\n' :: rest := ⟨_, rfl⟩
  obtain ⟨rest, hpretty⟩ := hpretty
  rw [hpretty, print] at h
  have hrest := (cons.inj h).2
  cases fields with
  | nil => simp [printFields] at hrest
  | cons field fields =>
    cases fields with
    | nil | cons other fields => simp [printFields, printString] at hrest

theorem pretty_eq {current : CurrentArtifact (Fin 2)}
    (h : current.toValue scoreTexts = .object fields) :
    current.pretty scoreTexts = utf8 (String.ofList (prettyObject fields)) := by
  unfold CurrentArtifact.pretty
  rw [h]
  rfl

/-- What was printed says what it was. -/
theorem Printed.unique (hv : Printed bytes v) (hw : Printed bytes w) : v = w := by
  have htext : ∀ {cs ds : List Char}, bytes = utf8 (String.ofList cs) →
      bytes = utf8 (String.ofList ds) → cs = ds := by
    intro cs ds hcs hds
    exact String.ofList_inj.mp (utf8_inj (hcs.symm.trans hds))
  obtain ⟨row, rfl, hrow⟩ | ⟨current, rfl, hcurrent⟩ := hv
  · obtain ⟨fields, hfields, hscalar⟩ := scalar_row row
    rw [hfields] at hrow ⊢
    obtain ⟨other, rfl, hother⟩ | ⟨current, rfl, hcurrent⟩ := hw
    · obtain ⟨others, hothers, hscalars⟩ := scalar_row other
      rw [hothers] at hother ⊢
      rw [printFields_inj hscalar hscalars (htext hrow hother)]
    · obtain ⟨others, hothers, _⟩ := scalar_current current
      rw [pretty_eq hothers] at hcurrent
      exact absurd (htext hrow hcurrent) (print_ne_pretty fields others)
  · obtain ⟨fields, hfields, hscalar⟩ := scalar_current current
    rw [pretty_eq hfields] at hcurrent
    rw [hfields]
    obtain ⟨other, rfl, hother⟩ | ⟨other, rfl, hother⟩ := hw
    · obtain ⟨others, hothers, _⟩ := scalar_row other
      rw [hothers] at hother
      exact absurd (htext hother hcurrent) (print_ne_pretty others fields)
    · obtain ⟨others, hothers, hscalars⟩ := scalar_current other
      rw [pretty_eq hothers] at hother
      rw [hothers, prettyObject_inj hscalar hscalars (htext hcurrent hother)]

theorem parsePrinted_of (h : Printed bytes value) : parsePrinted bytes = some value := by
  have hsome : ∃ value, Printed bytes value := ⟨value, h⟩
  unfold parsePrinted
  rw [dif_pos hsome]
  exact congrArg some (hsome.choose_spec.unique h)

theorem serde_sample : Serde sampleCrates where
  row row := parsePrinted_of (.inl ⟨row, rfl, rfl⟩)
  current current := parsePrinted_of (.inr ⟨current, rfl, rfl⟩)
  oneLine x text h := by
    have htext : (if x = 0 then "0.0" else "1.0") = text := some.inj h
    rw [← htext]
    split_ifs <;> decide
  number x text h := by
    have htext : (if x = 0 then "0.0" else "1.0") = text := some.inj h
    rw [← htext]
    split_ifs <;> rfl

theorem exact_sample (x : Fin 2) : sampleCrates.Exact x := by
  refine ⟨_, rfl, ?_⟩
  by_cases hzero : x = 0
  · rw [hzero]
    rfl
  · have hone : x = 1 := by omega
    rw [hone]
    rfl

end Abbey.Train
