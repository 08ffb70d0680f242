import Abbey.Improve.Goals

/-!
# Writing the goal ledger

The canonical form of goals, and that it is read back: `parseGoals_render`.  A
body is written line by line; a line that ends with a carriage return would come
back without it, so a canonical body has none (`render_carriageReturn`).
-/

namespace Abbey.Improve

open Abbey.Lib List
open Abbey.Run (isWhitespace)
open Abbey.Stream (trim stripPrefix)

variable {g : Goal} {entry : Key × List Char} {goals : List Goal}

/-- A trimmed value on one line. -/
structure Value (v : List Char) : Prop where
  ne_nil : v ≠ []
  trimmed : trim v = v
  oneLine : '\n' ∉ v

/-- Everything but the body can be written on one line each. -/
structure Fields (g : Goal) : Prop where
  title : Value g.title
  id : isValidGoalId g.id = true
  evidence : ∀ v ∈ [g.implementationEvidence, g.automatedTestEvidence, g.liveExternalEvidence,
    g.nextAction], Value v
  owner : ∀ v ∈ g.blockerOwner, Value v
  blocked : g.status = .blocked → g.blockerOwner ≠ none

/-- A goal that its canonical form determines. -/
structure Canonical (g : Goal) : Prop extends Fields g where
  body : trim g.body = g.body
  bodyLines : ∀ line ∈ g.body.splitOn '\n', isHeading line = false ∧ line.getLast? ≠ some '\r'

def entriesOf (g : Goal) : Metadata :=
  [(.id, g.id), (.status, g.status.label.toList),
    (.implementationEvidence, g.implementationEvidence),
    (.automatedTestEvidence, g.automatedTestEvidence),
    (.liveExternalEvidence, g.liveExternalEvidence), (.nextAction, g.nextAction)] ++
  g.blockerOwner.toList.map (fun owner => (.blockerOwner, owner))

def renderEntry (entry : Key × List Char) : Line :=
  entry.1.label.toList ++ ':' :: ' ' :: entry.2

def renderGoal (g : Goal) : List Line :=
  ("## ".toList ++ g.title) :: goalMetadataOpen :: ((entriesOf g).map renderEntry ++
    goalMetadataClose :: g.body.splitOn '\n')

def render (goals : List Goal) : List Char := unlines (goals.flatMap renderGoal)

/-! ## Lines of the canonical form -/

theorem value_of_isValidGoalId {id : List Char} (h : isValidGoalId id) : Value id := by
  simp only [isValidGoalId, Bool.and_eq_true, decide_eq_true_eq, all_eq_true] at h
  obtain ⟨⟨⟨⟨hne, -⟩, -⟩, -⟩, hall⟩ := h
  have hplain : ∀ c ∈ id, isWhitespace c = false ∧ c ≠ '\n' := by
    intro c hc
    have hrange := hall c hc
    simp only [Bool.or_eq_true, Bool.and_eq_true, decide_eq_true_eq, Char.le_def,
      UInt32.le_iff_toNat_le] at hrange
    have hcode : 97 ≤ c.toNat ∧ c.toNat ≤ 122 ∨ 48 ≤ c.toNat ∧ c.toNat ≤ 57 ∨ c.toNat = 45 := by
      rcases hrange with (hletter | hdigit) | rfl
      · exact .inl hletter
      · exact .inr (.inl hdigit)
      · exact .inr (.inr rfl)
    constructor
    · simp only [isWhitespace, Bool.or_eq_false_iff, Bool.and_eq_false_iff, decide_eq_false_iff_not]
      omega
    · rintro rfl
      exact absurd hcode (by decide)
  refine ⟨hne, trim_eq_self_iff.mpr ⟨?_, ?_⟩, fun h => (hplain _ h).2 rfl⟩
  · exact fun c hc => (hplain c (mem_of_mem_head? hc)).1
  · exact fun c hc => (hplain c (mem_of_getLast? hc)).1

theorem Value.getLast (h : Value v) :
    ∀ c ∈ v.getLast?, isWhitespace c = false := (trim_eq_self_iff.mp h.trimmed).2

theorem GoalStatus.parse_label (status : GoalStatus) :
    GoalStatus.parse status.label.toList = some status := by
  cases status <;> decide

theorem value_label (status : GoalStatus) : Value status.label.toList := by
  cases status <;> exact ⟨by decide, by decide, by decide⟩

theorem value_of_mem_entriesOf (h : Canonical g) (hentry : entry ∈ entriesOf g) :
    Value entry.2 := by
  simp only [entriesOf, mem_append, mem_cons, not_mem_nil, or_false, mem_map,
    Option.mem_toList] at hentry
  have hevidence := h.evidence
  simp only [mem_cons, not_mem_nil, or_false, forall_eq_or_imp, forall_eq] at hevidence
  rcases hentry with (rfl | rfl | rfl | rfl | rfl | rfl) | ⟨owner, howner, rfl⟩
  · exact value_of_isValidGoalId h.id
  · exact value_label g.status
  · exact hevidence.1
  · exact hevidence.2.1
  · exact hevidence.2.2.1
  · exact hevidence.2.2.2
  · exact h.owner owner howner

theorem trim_append (hc : isWhitespace c = false)
    (hds : ds ≠ []) (hlast : ∀ d ∈ ds.getLast?, isWhitespace d = false) :
    trim (c :: cs ++ ds) = c :: cs ++ ds := by
  refine trim_eq_self_iff.mpr ⟨by simp [hc], ?_⟩
  rw [getLast?_append_of_ne_nil _ hds]
  exact hlast

theorem entry_renderEntry (h : Value entry.2) : Entry (renderEntry entry) entry := by
  obtain ⟨c, cs, hlabel, hc, -⟩ := entry.1.label_head
  have hline : trim (renderEntry entry) = entry.1.label.toList ++ ':' :: ' ' :: entry.2 := by
    rw [renderEntry, hlabel]
    refine trim_append hc (by simp) ?_
    rw [getLast?_cons_cons, getLast?_cons_of_ne_nil h.ne_nil]
    exact h.getLast
  have hkey : ':' ∉ entry.1.label.toList ∧ trim entry.1.label.toList = entry.1.label.toList := by
    cases entry.1 <;> decide
  have hvalue : trim (' ' :: entry.2) = entry.2 := by
    rw [trim, dropWhile_cons_of_pos (by decide)]
    exact h.trimmed
  exact ⟨_, _, hline, hkey.1, hkey.2, hvalue⟩

/-- Every line of the canonical form is read back as it was written. -/
theorem lines_renderGoal (h : Canonical g) :
    ∀ line ∈ renderGoal g, '\n' ∉ line ∧ line.getLast? ≠ some '\r' := by
  have hreturn : ∀ {v : List Char}, Value v → v.getLast? ≠ some '\r' := by
    intro v hv hlast
    exact absurd (hv.getLast _ hlast) (by decide)
  intro line hline
  simp only [renderGoal, mem_cons, mem_append, mem_map] at hline
  rcases hline with rfl | rfl | ⟨entry, hentry, rfl⟩ | rfl | hbody
  · refine ⟨by simpa using h.title.oneLine, ?_⟩
    rw [getLast?_append_of_ne_nil _ h.title.ne_nil]
    exact hreturn h.title
  · exact ⟨by decide, by decide⟩
  · have hv := value_of_mem_entriesOf h hentry
    have hkey : '\n' ∉ entry.1.label.toList := by cases entry.1 <;> decide
    refine ⟨by simpa [renderEntry, hkey] using hv.oneLine, ?_⟩
    rw [renderEntry, getLast?_append_of_ne_nil _ (by simp), getLast?_cons_cons,
      getLast?_cons_of_ne_nil hv.ne_nil]
    exact hreturn hv
  · exact ⟨by decide, by decide⟩
  · exact ⟨newline_notMem_of_mem_splitOn hbody, (h.bodyLines line hbody).2⟩

/-! ## Reading back -/

theorem carries_entriesOf (h : Canonical g) : Carries (entriesOf g) g where
  id := rfl
  validId := h.id
  status := GoalStatus.parse_label g.status
  implementationEvidence := rfl
  automatedTestEvidence := rfl
  liveExternalEvidence := rfl
  nextAction := rfl
  blockerOwner := by
    rw [entriesOf]
    cases g.blockerOwner <;> rfl
  blocked := h.blocked

theorem block_entriesOf (h : Canonical g) (rest : List Line) :
    Block ((entriesOf g).map renderEntry ++ goalMetadataClose :: rest) (entriesOf g) rest := by
  refine ⟨⟨_, goalMetadataClose, rfl, by decide, ?_⟩, ?_, ?_⟩
  · rw [forall₂_map_left_iff]
    exact forall₂_same.mpr (fun entry hentry =>
      entry_renderEntry (value_of_mem_entriesOf h hentry))
  · intro entry hentry
    refine ⟨(value_of_mem_entriesOf h hentry).ne_nil, fun hstatus => ?_⟩
    simp only [entriesOf, mem_append, mem_cons, not_mem_nil, or_false, mem_map,
      Option.mem_toList] at hentry
    rcases hentry with (rfl | rfl | rfl | rfl | rfl | rfl) | ⟨owner, -, rfl⟩
    · cases hstatus
    · rw [GoalStatus.parse_label]
      rfl
    all_goals cases hstatus
  · cases howner : g.blockerOwner <;> simp [entriesOf, howner]

/-- The body of a goal is what stands before the next heading. -/
theorem bodyOf_append (h : Canonical g) (hmore : ∀ line ∈ more.head?, isHeading line) :
    bodyOf (g.body.splitOn '\n' ++ more) = g.body := by
  have hall : ∀ line ∈ g.body.splitOn '\n', (!isHeading line) := by
    intro line hline
    rw [(h.bodyLines line hline).1]
    rfl
  have hnext : more.takeWhile (fun line => !isHeading line) = [] := by
    cases more with
    | nil => rfl
    | cons line more =>
      rw [takeWhile_cons_of_neg]
      simp [hmore line rfl]
  rw [bodyOf, takeWhile_append_of_pos hall, hnext, append_nil, intercalate_splitOn, h.body]

theorem declares_render (h : ∀ g ∈ goals, Canonical g) :
    List.Forall₂ Declares (headings (goals.flatMap renderGoal)) goals := by
  induction goals with
  | nil => exact .nil
  | cons g goals ih =>
    have hg := h g mem_cons_self
    have hrest := ih (fun other hother => h other (mem_cons_of_mem _ hother))
    have hnext : ∀ line ∈ (goals.flatMap renderGoal).head?, isHeading line := by
      cases goals with
      | nil => simp
      | cons other goals =>
        intro line hline
        rw [flatMap_cons, renderGoal, cons_append, head?_cons] at hline
        rw [← Option.some.inj hline, isHeading, List.isPrefixOf_iff_prefix]
        exact prefix_append _ _
    have hplain : ∀ line ∈ goalMetadataOpen :: ((entriesOf g).map renderEntry ++
        goalMetadataClose :: g.body.splitOn '\n'), isHeading line = false := by
      intro line hline
      simp only [mem_cons, mem_append, mem_map] at hline
      rcases hline with rfl | ⟨entry, hentry, rfl⟩ | rfl | hbody
      · decide
      · exact isHeading_of_entry (entry_renderEntry (value_of_mem_entriesOf hg hentry))
      · decide
      · exact (hg.bodyLines line hbody).1
    have hstrip : stripPrefix "## ".toList ("## ".toList ++ g.title) = some g.title := by
      rw [stripPrefix, if_pos (by rw [List.isPrefixOf_iff_prefix]; exact prefix_append _ _), drop_left]
    rw [flatMap_cons, renderGoal, cons_append, headings, hstrip]
    dsimp only
    rw [headings_of_forall hplain]
    refine .cons ⟨hg.title.trimmed.symm, hg.title.ne_nil, goalMetadataOpen, _, entriesOf g, _,
      rfl, by decide, ?_, carries_entriesOf hg, (bodyOf_append hg hnext).symm⟩ hrest
    have hblock := block_entriesOf hg (g.body.splitOn '\n' ++ goals.flatMap renderGoal)
    simpa using hblock

theorem parseGoals_render (h : ∀ g ∈ goals, Canonical g) (hids : (goals.map Goal.id).Nodup) :
    parseGoals (render goals) = .ok goals := by
  have hlines : lines (render goals) = goals.flatMap renderGoal := by
    apply lines_unlines
    intro line hline
    obtain ⟨g, hg, hmem⟩ := mem_flatMap.mp hline
    exact lines_renderGoal (h g hg) line hmem
  rw [parseGoals_eq_ok, hlines]
  exact ⟨declares_render h, hids⟩

/-- The parser accepts exactly the texts whose headings declare goals with distinct
ids, it answers these goals, and it reads the canonical form back. -/
theorem goal_ledger_exact :
    (∀ (text : List Char) (goals : List Goal), parseGoals text = .ok goals ↔
      List.Forall₂ Declares (headings (lines text)) goals ∧ (goals.map Goal.id).Nodup) ∧
    ∀ goals : List Goal, (∀ g ∈ goals, Canonical g) → (goals.map Goal.id).Nodup →
      parseGoals (render goals) = .ok goals :=
  ⟨fun _ _ => parseGoals_eq_ok, fun _ h hids => parseGoals_render h hids⟩

/-- A goal with this body. -/
def goalWith (body : String) : Goal :=
  ⟨"a".toList, "A".toList, .todo, "x".toList, "y".toList, "z".toList, "go".toList, none, body.toList⟩

theorem fields_goalWith (body : String) : Fields (goalWith body) where
  title := show Value "A".toList from ⟨by decide, by decide, by decide⟩
  id := show isValidGoalId "a".toList = true by decide
  evidence := by
    intro v hv
    have hall : v = "x".toList ∨ v = "y".toList ∨ v = "z".toList ∨ v = "go".toList := by
      simpa [goalWith] using hv
    rcases hall with rfl | rfl | rfl | rfl <;> exact ⟨by decide, by decide, by decide⟩
  owner := fun v hv => by simp [goalWith] at hv
  blocked := fun h => by simp [goalWith] at h

theorem canonical_goalWith : Canonical (goalWith "a\nb") :=
  ⟨fields_goalWith "a\nb", by decide, by decide⟩

theorem goal_ledger_exact_sample :
    Canonical (goalWith "a\nb") ∧ parseGoals (render [goalWith "a\nb"]) = .ok [goalWith "a\nb"] := by
  exact ⟨canonical_goalWith,
    goal_ledger_exact.2 [goalWith "a\nb"] (by simpa using canonical_goalWith) (by simp)⟩

/-- The lines of this body are no headings, but the line with a carriage return
comes back without it. -/
theorem render_carriageReturn :
    Fields (goalWith "a\r\nb") ∧
    trim (goalWith "a\r\nb").body = (goalWith "a\r\nb").body ∧
      (∀ line ∈ lines (goalWith "a\r\nb").body, isHeading line = false) ∧
        parseGoals (render [goalWith "a\r\nb"]) = .ok [goalWith "a\nb"] ∧
          goalWith "a\nb" ≠ goalWith "a\r\nb" := by
  refine ⟨fields_goalWith _, by decide, by decide, ?_, by decide⟩
  have hlines : lines (render [goalWith "a\r\nb"]) = lines (render [goalWith "a\nb"]) := by
    decide +kernel
  have hread : parseGoals (render [goalWith "a\nb"]) = .ok [goalWith "a\nb"] :=
    parseGoals_render (by simpa using canonical_goalWith) (by simp)
  rw [parseGoals, hlines]
  exact hread

end Abbey.Improve
