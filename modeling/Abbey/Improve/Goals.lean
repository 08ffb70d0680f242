import Abbey.Improve.Ledger

/-!
# What the goal ledger says

`Declares` says what a heading of `goals.md` declares: the block under it, with
the values of the goal, and the body up to the next heading.  The parser succeeds
exactly when every heading declares a goal and no two goals have one id, and then
it answers these goals in order (`parseGoals_eq_ok`).

`render` writes goals in their canonical form, which is read back
(`parseGoals_render`).
-/

namespace Abbey.Improve

open Abbey.Lib List Except
open Abbey.Run (isWhitespace)
open Abbey.Stream (trim stripPrefix)

variable {g : Goal} {entry : Key × List Char} {line : Line} {ids : List (List Char)}
  {title titleText : List Char} {goals : List Goal} {rest : List Line} {m seen : Metadata}
  {heading number count : Nat}

/-! ## Trimmed texts -/

theorem trim_cons (h : isWhitespace c = false) (cs : List Char) :
    ∃ ds, trim (c :: cs) = c :: ds := by
  rw [trim, dropWhile_cons_of_neg (by simp [h])]
  rcases hdrop : (c :: cs).rdropWhile isWhitespace with _ | ⟨d, ds⟩
  · have hall := rdropWhile_eq_nil_iff.mp hdrop c mem_cons_self
    simp [h] at hall
  · have hpre := List.rdropWhile_prefix isWhitespace (c :: cs)
    rw [hdrop, cons_prefix_cons] at hpre
    exact ⟨ds, by rw [hpre.1]⟩

theorem trim_eq_self_iff : trim cs = cs ↔ (∀ c ∈ cs.head?, isWhitespace c = false) ∧
      ∀ c ∈ cs.getLast?, isWhitespace c = false := by
  have hlast : cs.rdropWhile isWhitespace = cs ↔ ∀ c ∈ cs.getLast?, isWhitespace c = false := by
    rw [rdropWhile_eq_self_iff]
    constructor
    · intro h c hc
      obtain ⟨hne, rfl⟩ := mem_getLast?_eq_getLast hc
      simpa using h hne
    · intro h hne
      simpa using h _ (getLast?_eq_some_getLast hne)
  cases cs with
  | nil => simp [trim]
  | cons c cs =>
    by_cases hc : isWhitespace c
    · constructor
      · intro h
        have hshort : (trim (c :: cs)).length ≤ cs.length := by
          rw [trim, dropWhile_cons_of_pos hc]
          exact ((List.rdropWhile_prefix _ _).length_le).trans (dropWhile_suffix _).length_le
        rw [h, length_cons] at hshort
        omega
      · intro h
        simp [hc] at h
    · rw [trim, dropWhile_cons_of_neg hc, hlast]
      simp [hc]

/-! ## Entries of a block -/

/-- A line of a block, read as a key and a value. -/
def Entry (line : Line) (entry : Key × List Char) : Prop :=
  ∃ before after, trim line = before ++ ':' :: after ∧ ':' ∉ before ∧
    trim before = entry.1.label.toList ∧ trim after = entry.2

theorem Key.parse_eq_some : Key.parse s = some key ↔ s = key.label.toList := by
  constructor
  · intro h
    exact (by simpa using find?_some h : key.label.toList = s).symm
  · rintro rfl
    cases key <;> decide

theorem Key.label_injective {a b : Key} (h : a.label.toList = b.label.toList) : a = b := by
  have ha := Key.parse_eq_some.mpr (rfl : a.label.toList = a.label.toList)
  rw [h, Key.parse_eq_some.mpr rfl] at ha
  exact (Option.some.inj ha).symm

theorem Key.label_head (key : Key) :
    ∃ c cs, key.label.toList = c :: cs ∧ isWhitespace c = false ∧ c ≠ '#' := by
  cases key <;> exact ⟨_, _, rfl, by decide, by decide⟩

/-- A value that its key takes. -/
def Accepts (entry : Key × List Char) : Prop :=
  entry.2 ≠ [] ∧ (entry.1 = .status → (GoalStatus.parse entry.2).isSome)

theorem readEntry_eq_ok : readEntry number title seen (trim line) = .ok entry ↔
      Entry line entry ∧ Accepts entry ∧ entry.1 ∉ seen.map Prod.fst := by
  have hseen : ∀ key : Key, key.label.toList ∈ seen.map (fun e => e.1.label.toList) ↔
      key ∈ seen.map Prod.fst := by
    intro key
    simp only [mem_map]
    constructor
    · rintro ⟨e, he, hlabel⟩
      exact ⟨e, he, Key.label_injective hlabel⟩
    · rintro ⟨e, he, rfl⟩
      exact ⟨e, he, rfl⟩
  unfold readEntry Entry
  by_cases hblank : trim line = []
  · rw [if_pos hblank]
    simp [hblank]
  rw [if_neg hblank]
  cases hsplit : splitOnce ':' (trim line) with
  | none =>
    simp only [reduceCtorEq, false_iff]
    rintro ⟨⟨before, after, heq, hbefore, -⟩, -⟩
    rw [splitOnce_eq_some.mpr ⟨heq, hbefore⟩] at hsplit
    exact absurd hsplit (by simp)
  | some parts =>
    obtain ⟨before, after⟩ := parts
    obtain ⟨heq, hbefore⟩ := splitOnce_eq_some.mp hsplit
    have hread : (∃ b a, trim line = b ++ ':' :: a ∧ ':' ∉ b ∧
        trim b = entry.1.label.toList ∧ trim a = entry.2) ↔
          trim before = entry.1.label.toList ∧ trim after = entry.2 := by
      constructor
      · rintro ⟨b, a, heq', hb, hkey, hvalue⟩
        have hsame := splitOnce_eq_some.mpr ⟨heq', hb⟩
        rw [hsplit] at hsame
        obtain ⟨rfl, rfl⟩ := Prod.mk.inj (Option.some.inj hsame)
        exact ⟨hkey, hvalue⟩
      · rintro ⟨hkey, hvalue⟩
        exact ⟨before, after, heq, hbefore, hkey, hvalue⟩
    rw [hread]
    dsimp only
    obtain ⟨key, value⟩ := entry
    cases hparse : Key.parse (trim before) with
    | none =>
      have hunknown : trim before ≠ key.label.toList := by
        intro h
        rw [Key.parse_eq_some.mpr h] at hparse
        exact absurd hparse (by simp)
      simp only [hunknown, false_and, iff_false]
      split_ifs <;> simp
    | some known =>
      have hlabel := Key.parse_eq_some.mp hparse
      have hnonempty : known.label.toList ≠ [] := by
        obtain ⟨c, cs, hcs, -⟩ := known.label_head
        simp [hcs]
      have hkey : known.label.toList = key.label.toList ↔ known = key :=
        ⟨Key.label_injective, fun h => by rw [h]⟩
      simp only [hlabel, hnonempty, false_or, hkey, hseen, Accepts]
      by_cases hvalue : trim after = []
      · rw [if_pos hvalue]
        simp only [reduceCtorEq, false_iff]
        rintro ⟨⟨-, rfl⟩, ⟨hne, -⟩, -⟩
        exact hne hvalue
      rw [if_neg hvalue]
      by_cases hold : known ∈ seen.map Prod.fst
      · rw [if_pos hold]
        simp only [reduceCtorEq, false_iff]
        rintro ⟨⟨rfl, -⟩, -, hnew⟩
        exact hnew hold
      rw [if_neg hold]
      by_cases hstatus : known = .status ∧ GoalStatus.parse (trim after) = none
      · rw [if_pos hstatus]
        simp only [reduceCtorEq, false_iff]
        rintro ⟨⟨rfl, rfl⟩, ⟨-, hknown⟩, -⟩
        have hsome := hknown hstatus.1
        rw [hstatus.2] at hsome
        exact absurd hsome (by simp)
      · rw [if_neg hstatus, ok.injEq, Prod.mk.injEq]
        constructor
        · rintro ⟨rfl, rfl⟩
          refine ⟨⟨rfl, rfl⟩, ⟨hvalue, fun h => ?_⟩, hold⟩
          rw [Option.isSome_iff_ne_none]
          exact fun hnone => hstatus ⟨h, hnone⟩
        · exact fun h => h.1

/-- A line of a block is no heading. -/
theorem isHeading_of_entry (h : Entry line entry) : isHeading line = false := by
  obtain ⟨before, after, heq, -, hkey, -⟩ := h
  by_contra hheading
  rw [Bool.not_eq_false, isHeading, List.isPrefixOf_iff_prefix] at hheading
  obtain ⟨rest, rfl⟩ := hheading
  obtain ⟨ds, hds⟩ := trim_cons (show isWhitespace '#' = false by decide)
    ("# ".toList ++ rest)
  obtain ⟨c, cs, hcs, -, hc⟩ := entry.1.label_head
  rw [show "## ".toList ++ rest = '#' :: ("# ".toList ++ rest) from rfl, hds] at heq
  cases before with
  | nil => exact absurd (cons.inj heq).1 (by decide)
  | cons b before =>
    rw [cons_append] at heq
    rw [← (cons.inj heq).1] at hkey
    obtain ⟨es, hes⟩ := trim_cons (show isWhitespace '#' = false by decide) before
    rw [hes, hcs] at hkey
    exact hc (cons.inj hkey).1.symm

theorem isHeading_of_trim (h : trim line = goalMetadataOpen ∨ trim line = goalMetadataClose) :
    isHeading line = false := by
  by_contra hheading
  rw [Bool.not_eq_false, isHeading, List.isPrefixOf_iff_prefix] at hheading
  obtain ⟨rest, rfl⟩ := hheading
  obtain ⟨ds, hds⟩ := trim_cons (show isWhitespace '#' = false by decide)
    ("# ".toList ++ rest)
  rw [show "## ".toList ++ rest = '#' :: ("# ".toList ++ rest) from rfl, hds] at h
  rcases h with h | h <;> exact absurd (cons.inj h).1 (by decide)

/-! ## Blocks -/

/-- Lines that begin with a block: its entries, with distinct keys, its end and
what comes after it. -/
def Block (lines : List Line) (entries : Metadata) (rest : List Line) : Prop :=
  (∃ block close, lines = block ++ close :: rest ∧ trim close = goalMetadataClose ∧
      List.Forall₂ Entry block entries) ∧
    (∀ entry ∈ entries, Accepts entry) ∧ (entries.map Prod.fst).Nodup

theorem readBlock_eq_ok {lines : List Line} {all : Metadata} :
    readBlock heading number title seen lines = .ok (all, count) ↔
      ∃ block close rest entries, lines = block ++ close :: rest ∧
        trim close = goalMetadataClose ∧ List.Forall₂ Entry block entries ∧
        all = seen ++ entries ∧ count = block.length + 1 ∧ (∀ entry ∈ entries, Accepts entry) ∧
        (∀ entry ∈ entries, entry.1 ∉ seen.map Prod.fst) ∧ (entries.map Prod.fst).Nodup := by
  induction lines generalizing number seen all count with
  | nil => simp [readBlock]
  | cons line lines ih =>
    unfold readBlock
    by_cases hclose : trim line = goalMetadataClose
    · rw [if_pos hclose]
      constructor
      · intro h
        obtain ⟨rfl, rfl⟩ := Prod.mk.inj (ok.inj h)
        exact ⟨[], line, lines, [], rfl, hclose, .nil, by simp, rfl, by simp, by simp, by simp⟩
      · rintro ⟨block, close, rest, entries, heq, -, hall, rfl, rfl, -⟩
        cases hall with
        | nil => simp
        | cons hentry _ =>
          obtain ⟨before, after, hline, -⟩ := hentry
          rw [cons_append] at heq
          rw [← (cons.inj heq).1, hclose] at hline
          have hcolon : ':' ∈ goalMetadataClose := by rw [hline]; simp
          exact absurd hcolon (by decide)
    rw [if_neg hclose]
    constructor
    · intro h
      cases hread : readEntry number title seen (trim line) with
      | error e => simp [hread] at h
      | ok entry =>
        simp only [hread] at h
        obtain ⟨hentry, haccepts, hnew⟩ := readEntry_eq_ok.mp hread
        cases hrest : readBlock heading (number + 1) title (seen ++ [entry]) lines with
        | error e => simp [hrest] at h
        | ok result =>
          obtain ⟨all', count'⟩ := result
          simp only [hrest, ok.injEq, Prod.mk.injEq] at h
          obtain ⟨rfl, rfl⟩ := h
          obtain ⟨block, close, rest, entries, rfl, hend, hall, rfl, rfl, hacc, hapart, hnodup⟩ :=
            ih.mp hrest
          refine ⟨line :: block, close, rest, entry :: entries, rfl, hend, .cons hentry hall,
            by simp, rfl, by simpa using ⟨haccepts, fun a b => hacc (a, b)⟩, ?_, ?_⟩
          · intro other hother
            rcases mem_cons.mp hother with rfl | hmem
            · exact hnew
            · exact fun h => hapart other hmem (by simp [h])
          · rw [map_cons, nodup_cons]
            refine ⟨fun h => ?_, hnodup⟩
            obtain ⟨other, hother, hsame⟩ := mem_map.mp h
            exact hapart other hother (by simp [hsame])
    · rintro ⟨block, close, rest, entries, heq, hend, hall, rfl, rfl, hacc, hapart, hnodup⟩
      cases hall with
      | nil =>
        rw [nil_append] at heq
        exact absurd ((cons.inj heq).1 ▸ hend) hclose
      | @cons first entry block entries hentry hall =>
        rw [cons_append] at heq
        obtain ⟨rfl, rfl⟩ := cons.inj heq
        have hread : readEntry number title seen (trim line) = .ok entry :=
          readEntry_eq_ok.mpr ⟨hentry, hacc entry mem_cons_self, hapart entry mem_cons_self⟩
        rw [map_cons, nodup_cons] at hnodup
        have hrest : readBlock heading (number + 1) title (seen ++ [entry])
            (block ++ close :: rest) = .ok (seen ++ [entry] ++ entries, block.length + 1) := by
          refine ih.mpr ⟨block, close, rest, entries, rfl, hend, hall, rfl, rfl,
            fun other h => hacc other (mem_cons_of_mem _ h), fun other h => ?_, hnodup.2⟩
          rw [map_append, mem_append, not_or]
          refine ⟨hapart other (mem_cons_of_mem _ h), fun hsame => ?_⟩
          rw [map_singleton, mem_singleton] at hsame
          exact hnodup.1 (mem_map.mpr ⟨other, h, hsame⟩)
        rw [hread]
        dsimp only
        rw [hrest]
        simp

/-! ## Goals -/

/-- The entries have the values of a goal. -/
structure Carries (entries : Metadata) (g : Goal) : Prop where
  id : entries.lookup .id = some g.id
  validId : isValidGoalId g.id = true
  status : (entries.lookup .status).bind GoalStatus.parse = some g.status
  implementationEvidence : entries.lookup .implementationEvidence = some g.implementationEvidence
  automatedTestEvidence : entries.lookup .automatedTestEvidence = some g.automatedTestEvidence
  liveExternalEvidence : entries.lookup .liveExternalEvidence = some g.liveExternalEvidence
  nextAction : entries.lookup .nextAction = some g.nextAction
  blockerOwner : entries.lookup .blockerOwner = g.blockerOwner
  blocked : g.status = .blocked → g.blockerOwner ≠ none

/-- A heading with this text after its marker, above these lines, declares a goal. -/
def Declares (heading : List Char × List Line) (g : Goal) : Prop :=
  g.title = trim heading.1 ∧ g.title ≠ [] ∧
    ∃ opening lines entries rest, heading.2 = opening :: lines ∧ trim opening = goalMetadataOpen ∧
      Block lines entries rest ∧ Carries entries g ∧ g.body = bodyOf rest

/-- The headings, each with the lines after it. -/
def headings : List Line → List (List Char × List Line)
  | [] => []
  | line :: rest =>
    match stripPrefix "## ".toList line with
    | none => headings rest
    | some titleText => (titleText, rest) :: headings rest

theorem requireMetadata_eq_ok :
    requireMetadata m key title heading = .ok value ↔ m.lookup key = some value := by
  unfold requireMetadata
  cases m.lookup key <;> simp

theorem goalOf_eq_ok : goalOf heading title ids m rest = .ok g ↔
      g.title = title ∧ g.id ∉ ids ∧ Carries m g ∧ g.body = bodyOf rest := by
  unfold goalOf
  constructor
  · intro h
    obtain ⟨id, hid, h⟩ := bind_ok_iff.mp h
    split_ifs at h with hvalid hused
    split at h
    · exact absurd h (by simp)
    next status hstatus =>
      obtain ⟨implementation, himplementation, h⟩ := bind_ok_iff.mp h
      obtain ⟨automated, hautomated, h⟩ := bind_ok_iff.mp h
      obtain ⟨live, hlive, h⟩ := bind_ok_iff.mp h
      obtain ⟨next, hnext, h⟩ := bind_ok_iff.mp h
      split_ifs at h with hblocked
      rw [← ok.inj h]
      rw [requireMetadata_eq_ok] at hid himplementation hautomated hlive hnext
      exact ⟨rfl, hused, ⟨hid, hvalid, hstatus, himplementation, hautomated, hlive, hnext, rfl,
        fun hb hnone => hblocked ⟨hb, hnone⟩⟩, rfl⟩
  · rintro ⟨rfl, hused, hm, hbody⟩
    have hblocked : ¬(g.status = .blocked ∧ m.lookup .blockerOwner = none) :=
      fun h => hm.blocked h.1 (hm.blockerOwner ▸ h.2)
    refine bind_ok_iff.mpr ⟨g.id, requireMetadata_eq_ok.mpr hm.id, ?_⟩
    rw [if_pos hm.validId, if_neg hused, hm.status]
    dsimp only
    refine bind_ok_iff.mpr ⟨_, requireMetadata_eq_ok.mpr hm.implementationEvidence, ?_⟩
    refine bind_ok_iff.mpr ⟨_, requireMetadata_eq_ok.mpr hm.automatedTestEvidence, ?_⟩
    refine bind_ok_iff.mpr ⟨_, requireMetadata_eq_ok.mpr hm.liveExternalEvidence, ?_⟩
    refine bind_ok_iff.mpr ⟨_, requireMetadata_eq_ok.mpr hm.nextAction, ?_⟩
    rw [if_neg hblocked, hm.blockerOwner, ← hbody]

theorem headings_of_forall (h : ∀ line ∈ before, isHeading line = false)
    (rest : List Line) : headings (before ++ rest) = headings rest := by
  induction before with
  | nil => rfl
  | cons line before ih =>
    have hline := h line mem_cons_self
    rw [isHeading] at hline
    rw [cons_append, headings, stripPrefix, if_neg (by rw [hline]; exact Bool.false_ne_true)]
    exact ih (fun other hother => h other (mem_cons_of_mem _ hother))

theorem not_isHeading_of_block
    (h : List.Forall₂ Entry block entries) : ∀ line ∈ block, isHeading line = false := by
  induction h with
  | nil => simp
  | cons hentry _ ih =>
    intro line hline
    rcases mem_cons.mp hline with rfl | hmem
    · exact isHeading_of_entry hentry
    · exact ih line hmem

/-- A goal is read exactly where it is declared, and what is read holds no other
heading. -/
theorem readGoal_eq_ok : (∃ count, readGoal number titleText ids rest = .ok (g, count)) ↔
      Declares (titleText, rest) g ∧ g.id ∉ ids := by
  constructor
  · rintro ⟨count, h⟩
    unfold readGoal at h
    dsimp only at h
    split_ifs at h with htitle hopen
    obtain ⟨⟨m, used⟩, hblock, h⟩ := bind_ok_iff.mp h
    obtain ⟨goal, hgoal, h⟩ := bind_ok_iff.mp h
    obtain ⟨rfl, -⟩ := Prod.mk.inj (ok.inj h)
    obtain ⟨hname, hid, hcarries, hbody⟩ := goalOf_eq_ok.mp hgoal
    obtain ⟨block, close, after, entries, hlines, hclose, hall, rfl, rfl, hacc, -, hnodup⟩ :=
      readBlock_eq_ok.mp hblock
    cases rest with
    | nil => simp at hopen
    | cons opening rest =>
      rw [tail_cons] at hlines hbody
      have hopening : trim opening = goalMetadataOpen := by simpa using hopen
      have hafter : (block ++ close :: after).drop (block.length + 1) = after := by
        rw [append_cons, drop_left' (by simp)]
      rw [hlines, hafter] at hbody
      exact ⟨⟨hname, hname ▸ htitle, opening, rest, _, after, rfl, hopening,
        ⟨⟨block, close, hlines, hclose, hall⟩, hacc, hnodup⟩, hcarries, hbody⟩, hid⟩
  · rintro ⟨⟨hname, htitle, opening, lines, entries, after, rfl, hopening,
      ⟨⟨block, close, rfl, hclose, hall⟩, hacc, hnodup⟩, hcarries, hbody⟩, hid⟩
    have hblock : readBlock number (number + 2) (trim titleText) [] (block ++ close :: after) =
        .ok (entries, block.length + 1) :=
      readBlock_eq_ok.mpr ⟨block, close, after, entries, rfl, hclose, hall, rfl, rfl, hacc,
        by simp, hnodup⟩
    have hafter : (block ++ close :: after).drop (block.length + 1) = after := by
      rw [append_cons, drop_left' (by simp)]
    have hgoal : goalOf number (trim titleText) ids entries after = .ok g :=
      goalOf_eq_ok.mpr ⟨hname, hid, hcarries, hbody⟩
    refine ⟨block.length + 2, ?_⟩
    unfold readGoal
    dsimp only
    rw [if_neg (hname ▸ htitle), if_neg (by simp [hopening])]
    refine bind_ok_iff.mpr ⟨_, hblock, bind_ok_iff.mpr ⟨g, ?_, rfl⟩⟩
    rw [tail_cons, hafter]
    exact hgoal

theorem headings_readGoal (h : readGoal number titleText ids rest = .ok (g, count)) :
    headings (rest.drop count) = headings rest := by
  unfold readGoal at h
  dsimp only at h
  split_ifs at h with htitle hopen
  obtain ⟨⟨m, used⟩, hblock, h⟩ := bind_ok_iff.mp h
  obtain ⟨goal, -, h⟩ := bind_ok_iff.mp h
  obtain ⟨-, rfl⟩ := Prod.mk.inj (ok.inj h)
  obtain ⟨block, close, after, entries, hlines, hclose, hall, -, rfl, -⟩ :=
    readBlock_eq_ok.mp hblock
  cases rest with
  | nil => simp at hopen
  | cons opening rest =>
    rw [tail_cons] at hlines
    have hopening : trim opening = goalMetadataOpen := by simpa using hopen
    have hplain : ∀ line ∈ opening :: (block ++ [close]), isHeading line = false := by
      intro line hline
      simp only [mem_cons, mem_append, not_mem_nil, or_false] at hline
      rcases hline with rfl | hmem | rfl
      · exact isHeading_of_trim (.inl hopening)
      · exact not_isHeading_of_block hall line hmem
      · exact isHeading_of_trim (.inr hclose)
    have hshape : opening :: rest = (opening :: (block ++ [close])) ++ after := by
      rw [hlines]
      simp
    rw [hshape, headings_of_forall hplain, drop_left' (by simp)]

theorem parseLines_eq_ok {lines : List Line} : parseLines ids number skip lines = .ok goals ↔
      List.Forall₂ Declares (headings (lines.drop skip)) goals ∧ (goals.map Goal.id).Nodup ∧
        ∀ g ∈ goals, g.id ∉ ids := by
  induction lines generalizing ids number skip goals with
  | nil =>
    rw [parseLines, drop_nil, headings, ok.injEq]
    constructor
    · rintro rfl
      exact ⟨.nil, by simp, by simp⟩
    · rintro ⟨hall, -⟩
      cases hall
      rfl
  | cons line lines ih =>
    cases skip with
    | succ skip =>
      rw [parseLines, drop_succ_cons]
      exact ih
    | zero =>
      rw [parseLines, drop_zero, headings]
      cases hstrip : stripPrefix "## ".toList line with
      | none => exact ih
      | some titleText =>
        dsimp only
        cases hread : readGoal number titleText ids lines with
        | error e =>
          simp only [reduceCtorEq, false_iff]
          rintro ⟨hall, hnodup, hids⟩
          cases hall with
          | cons hdeclares _ =>
            obtain ⟨count, hok⟩ := readGoal_eq_ok.mpr
              ⟨hdeclares, hids _ mem_cons_self⟩
            rw [hread] at hok
            exact absurd hok (by simp)
        | ok result =>
          obtain ⟨g, count⟩ := result
          obtain ⟨hdeclares, hid⟩ := readGoal_eq_ok.mp ⟨count, hread⟩
          have hrest : ∀ {more : List Goal},
              parseLines (g.id :: ids) (number + 1) count lines = .ok more ↔
                List.Forall₂ Declares (headings lines) more ∧ (more.map Goal.id).Nodup ∧
                  ∀ other ∈ more, other.id ∉ g.id :: ids := by
            intro more
            rw [ih, headings_readGoal hread]
          dsimp only
          constructor
          · intro h
            cases hmore : parseLines (g.id :: ids) (number + 1) count lines with
            | error e => simp [hmore] at h
            | ok more =>
              rw [hmore] at h
              rw [← ok.inj h]
              obtain ⟨hall, hnodup, hids⟩ := hrest.mp hmore
              refine ⟨.cons hdeclares hall, ?_, ?_⟩
              · rw [map_cons, nodup_cons]
                refine ⟨fun hmem => ?_, hnodup⟩
                obtain ⟨other, hother, hsame⟩ := mem_map.mp hmem
                exact hids other hother (by simp [hsame])
              · intro other hother
                rcases mem_cons.mp hother with rfl | hmem
                · exact hid
                · exact fun hused => hids other hmem (mem_cons_of_mem _ hused)
          · rintro ⟨hall, hnodup, hids⟩
            cases hall with
            | @cons _ first _ more hfirst hall =>
              obtain ⟨count', hread'⟩ := readGoal_eq_ok.mpr ⟨hfirst, hids first mem_cons_self⟩
              rw [hread, ok.injEq, Prod.mk.injEq] at hread'
              obtain ⟨rfl, -⟩ := hread'
              rw [map_cons, nodup_cons] at hnodup
              have hmore := hrest.mpr ⟨hall, hnodup.2, fun other hother => by
                rw [mem_cons, not_or]
                exact ⟨fun hsame => hnodup.1 (hsame ▸ mem_map_of_mem hother),
                  hids other (mem_cons_of_mem _ hother)⟩⟩
              rw [hmore]

theorem parseGoals_eq_ok : parseGoals text = .ok goals ↔
      List.Forall₂ Declares (headings (lines text)) goals ∧ (goals.map Goal.id).Nodup := by
  rw [parseGoals, parseLines_eq_ok, drop_zero]
  simp

end Abbey.Improve
