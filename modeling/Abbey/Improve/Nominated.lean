import Abbey.Improve.Render
import Abbey.Improve.Work

/-!
# What the improve loop nominates

A line of the checklist stands below two headings: the last `##` one, and the
last `###` one after that.  `Placed` keeps both; the code keeps the name of the
nearer one.

`WellChosen` is what a choice of work must respect, for every ledger and hint.
It holds of a checklist exactly when nothing in it is misfiled
(`wellChosen_iff`): an item is nominated by its text, and it is the first of its
selection that has that text in it.
-/

namespace Abbey.Improve

open Abbey.Lib List Ledger
open Abbey.Run (isWhitespace)
open Abbey.Stream (trim stripPrefix)

variable {hint : Option (List Char)}

/-! ## Items with their headings -/

structure Placed where
  text : List Char
  done : Bool
  chapter : Option (List Char)
  part : Option (List Char)

variable {p : Placed} {selection : List Placed}

namespace Placed

def enclosing (p : Placed) : List (List Char) := p.chapter.toList ++ p.part.toList

/-- The name of the section that the code keeps. -/
def nearest (p : Placed) : List Char := (p.part.or p.chapter).getD []

def item (p : Placed) : TodoItem := ⟨p.text, p.done, p.nearest⟩

end Placed

def placedFrom (chapter part : Option (List Char)) : List Line → List Placed
  | [] => []
  | line :: rest =>
    match stripPrefix "## ".toList line with
    | some heading => placedFrom (some (trim heading)) none rest
    | none =>
      match stripPrefix "### ".toList line with
      | some heading => placedFrom chapter (some (trim heading)) rest
      | none =>
        match checkbox line with
        | some (done, text) => ⟨text, done, chapter, part⟩ :: placedFrom chapter part rest
        | none => placedFrom chapter part rest

def placed (text : List Char) : List Placed := placedFrom none none (lines text)

theorem todosFrom_eq (chapter part : Option (List Char)) (ls : List Line) :
    todosFrom ((part.or chapter).getD []) ls = (placedFrom chapter part ls).map Placed.item := by
  induction ls generalizing chapter part with
  | nil => rfl
  | cons line ls ih =>
    unfold todosFrom placedFrom
    cases stripPrefix "## ".toList line with
    | some heading => exact ih (some (trim heading)) none
    | none =>
      cases stripPrefix "### ".toList line with
      | some heading => exact ih chapter (some (trim heading))
      | none =>
        cases checkbox line with
        | some box => exact congrArg _ (ih chapter part)
        | none => exact ih chapter part

theorem parseTodos_eq (text : List Char) : parseTodos text = (placed text).map Placed.item :=
  todosFrom_eq none none (lines text)

/-! ## Texts of items -/

theorem head_dropWhile {cs ds : List Char} (h : cs.dropWhile isWhitespace = d :: ds) :
    isWhitespace d = false := by
  have hd := dropWhile_get_zero_not isWhitespace cs (by simp [h])
  simpa [h] using hd

theorem trim_ends (cs : List Char) : (∀ c ∈ (trim cs).head?, isWhitespace c = false) ∧
      ∀ c ∈ (trim cs).getLast?, isWhitespace c = false := by
  have hlast : ∀ ds : List Char, ∀ c ∈ (ds.rdropWhile isWhitespace).getLast?,
      isWhitespace c = false := by
    intro ds c hc
    obtain ⟨hne, rfl⟩ := mem_getLast?_eq_getLast hc
    simpa using rdropWhile_last_not isWhitespace ds hne
  refine ⟨fun c hc => ?_, hlast _⟩
  obtain ⟨rest, hrest⟩ := List.rdropWhile_prefix isWhitespace (cs.dropWhile isWhitespace)
  have hkept : ((cs.dropWhile isWhitespace).rdropWhile isWhitespace).head? = some c := hc
  have hhead : (cs.dropWhile isWhitespace).head? = some c := by
    rw [← hrest, head?_append, hkept]
    rfl
  cases hdrop : cs.dropWhile isWhitespace with
  | nil => simp [hdrop] at hhead
  | cons d ds =>
    rw [hdrop] at hhead
    rw [← Option.some.inj hhead]
    exact head_dropWhile hdrop

theorem trim_trim (cs : List Char) : trim (trim cs) = trim cs :=
  trim_eq_self_iff.mpr (trim_ends cs)

theorem trim_sublist (cs : List Char) : (trim cs).Sublist cs :=
  (List.rdropWhile_prefix _ _).sublist.trans (dropWhile_suffix _).sublist

theorem blank_of_trim_eq_nil (h : trim cs = []) : ∀ c ∈ cs, isWhitespace c := by
  have hall := rdropWhile_eq_nil_iff.mp h
  apply dropWhile_eq_nil_iff.mp
  cases hdrop : cs.dropWhile isWhitespace with
  | nil => rfl
  | cons d ds =>
    have hd := hall d (by simp [hdrop])
    rw [head_dropWhile hdrop] at hd
    exact absurd hd (by decide)

/-- The text of a box is a value that the goal ledger takes. -/
theorem value_of_checkbox (hline : '\n' ∉ line)
    (h : checkbox line = some (done, text)) : Value text := by
  have hbox : ∀ {mark rest : List Char}, mark.getLast? = some ' ' →
      stripPrefix mark (trim line) = some rest → Value (trim rest) := by
    intro mark rest hmark hstrip
    have hsplit : trim line = mark ++ rest := by
      rw [stripPrefix] at hstrip
      split_ifs at hstrip with hpre
      obtain ⟨more, hmore⟩ := List.isPrefixOf_iff_prefix.mp hpre
      rw [← hmore, drop_left] at hstrip
      rw [← hmore, Option.some.inj hstrip]
    have hends := (trim_ends line).2
    rw [hsplit] at hends
    refine ⟨fun hnil => ?_, trim_trim rest, fun hmem => ?_⟩
    · have hblank := blank_of_trim_eq_nil hnil
      cases hlast : rest.getLast? with
      | none =>
        rw [getLast?_eq_none_iff.mp hlast, append_nil, hmark] at hends
        exact absurd (hends ' ' rfl) (by decide)
      | some c =>
        have hc := hends c (by rw [getLast?_append, hlast]; rfl)
        rw [hblank c (mem_of_getLast? hlast)] at hc
        exact absurd hc (by decide)
    · have hmem' : '\n' ∈ trim line := by
        rw [hsplit]
        exact mem_append_right _ ((trim_sublist rest).subset hmem)
      exact hline ((trim_sublist line).subset hmem')
  unfold checkbox at h
  dsimp only at h
  cases hopen : stripPrefix "- [ ] ".toList (trim line) with
  | some rest =>
    rw [hopen] at h
    obtain ⟨-, rfl⟩ := Prod.mk.inj (Option.some.inj h)
    exact hbox rfl hopen
  | none =>
    rw [hopen] at h
    cases hlower : stripPrefix "- [x] ".toList (trim line) with
    | some rest =>
      rw [hlower] at h
      obtain ⟨-, rfl⟩ := Prod.mk.inj (Option.some.inj h)
      exact hbox rfl hlower
    | none =>
      rw [hlower, Option.none_or] at h
      cases hupper : stripPrefix "- [X] ".toList (trim line) with
      | some rest =>
        rw [hupper] at h
        obtain ⟨-, rfl⟩ := Prod.mk.inj (Option.some.inj h)
        exact hbox rfl hupper
      | none =>
        rw [hupper] at h
        exact absurd h (by simp)

/-! ## Selections -/

def barred (heading : List Char) : Bool := isDeferredSection heading || isBlockedSection heading

def openPlaced (text : List Char) : List Placed :=
  (placed text).filter (fun p => !p.done && !isDeferredSection p.nearest)

def actionablePlaced (text : List Char) : List Placed :=
  (openPlaced text).filter (fun p => !isBlockedSection p.nearest)

/-- The text of an unchecked box with no such heading above it. -/
def Stands (todoText : List Char) (bad : List Char → Bool) (todo : List Char) : Prop :=
  ∃ p ∈ placed todoText, p.done = false ∧ p.text = todo ∧ ∀ h ∈ p.enclosing, bad h = false

/-- No item of a selection before this one has its text in it. -/
def Nominable (selection : List Placed) (p : Placed) : Prop :=
  ∃ before after, selection = before ++ p :: after ∧ ∀ q ∈ before, ¬ p.text <:+: q.text

theorem nominable_of_find
    (h : selection.find? (fun q => contains q.text needle) = some p) : Nominable selection p := by
  obtain ⟨hp, before, after, hsplit, hbefore⟩ := find?_eq_some_iff_append.mp h
  refine ⟨before, after, hsplit, fun q hq hin => ?_⟩
  have hnot := hbefore q hq
  simp only [contains, decide_eq_true_eq, Bool.not_eq_true', decide_eq_false_iff_not] at hp hnot
  exact hnot (hp.trans hin)

theorem find_of_nominable (h : Nominable selection p) :
    selection.find? (fun q => contains q.text p.text) = some p := by
  obtain ⟨before, after, hsplit, hbefore⟩ := h
  refine find?_eq_some_iff_append.mpr ⟨by simp [contains], before, after, hsplit, ?_⟩
  intro q hq
  simpa [contains] using hbefore q hq

theorem nominable_of_head (h : selection.head? = some p) : Nominable selection p := by
  cases selection with
  | nil => simp at h
  | cons q selection =>
    rw [← Option.some.inj h]
    exact ⟨[], selection, rfl, by simp⟩

section Loaded

variable {l : Ledger} {todoText : List Char}
variable {g : Goal} {t : TodoItem}

theorem openTodos_eq (h : l.todos = (placed todoText).map Placed.item) :
    l.openTodos = (openPlaced todoText).map Placed.item := by
  rw [openTodos, h, filter_map]
  rfl

theorem actionableTodos_eq (h : l.todos = (placed todoText).map Placed.item) :
    l.actionableTodos = (actionablePlaced todoText).map Placed.item := by
  rw [actionableTodos, openTodos_eq h, filter_map]
  rfl

theorem find_names (g : Goal) (selection : List Placed) :
    (selection.map Placed.item).find? (names g) =
      (selection.find? (fun q => contains q.text (trim g.nextAction))).map Placed.item := by
  rw [find?_map]
  rfl

/-- A selected item is nominable. -/
theorem nominable_of_select (h : (selection.map Placed.item).find? (names g) = some t ∨
      (selection.map Placed.item).head? = some t) :
    ∃ p, Nominable selection p ∧ p.text = t.text := by
  rcases h with hfind | hhead
  · rw [find_names] at hfind
    obtain ⟨p, hp, rfl⟩ := Option.map_eq_some_iff.mp hfind
    exact ⟨p, nominable_of_find hp, rfl⟩
  · rw [head?_map] at hhead
    obtain ⟨p, hp, rfl⟩ := Option.map_eq_some_iff.mp hhead
    exact ⟨p, nominable_of_head hp, rfl⟩

variable (h : l.todos = (placed todoText).map Placed.item)

include h

theorem nominable_of_nextActionableTodo (ht : l.nextActionableTodo = some t) :
    ∃ p, Nominable (actionablePlaced todoText) p ∧ p.text = t.text := by
  rw [nextActionableTodo, actionableTodos_eq h] at ht
  cases hdefault : l.defaultGoal with
  | none =>
    rw [hdefault] at ht
    obtain ⟨p, hp, rfl⟩ := Option.map_eq_some_iff.mp (head?_map ▸ ht)
    exact ⟨p, nominable_of_head hp, rfl⟩
  | some g =>
    rw [hdefault] at ht
    exact nominable_of_select (Option.or_eq_some_iff.mp ht |>.imp_right And.right)

theorem nominable_of_actionableTodoFor (ht : l.actionableTodoFor g = some t) :
    ∃ p, Nominable (actionablePlaced todoText) p ∧ p.text = t.text := by
  rw [actionableTodoFor, Option.or_eq_some_iff] at ht
  rcases ht with hfind | ⟨-, hnext⟩
  · rw [actionableTodos_eq h] at hfind
    exact nominable_of_select (.inl hfind)
  · exact nominable_of_nextActionableTodo h hnext

theorem nominable_of_openTodoFor (ht : l.openTodoFor g = some t) :
    ∃ p, Nominable (openPlaced todoText) p ∧ p.text = t.text := by
  rw [openTodoFor, Option.or_eq_some_iff, openTodos_eq h] at ht
  rcases ht with hfind | ⟨-, hnext⟩
  · exact nominable_of_select (.inl hfind)
  · split_ifs at hnext
    rw [nextOpenTodo, openTodos_eq h] at hnext
    exact nominable_of_select (g := g) (.inr hnext)

omit h

end Loaded

/-! ## Choices of work -/

/-- No hint, or one of blanks only. -/
def Blank (hint : Option (List Char)) : Prop := ∀ value ∈ hint, trim value = []

/-- The focus is on the first goal in progress, or else on the first one to do;
where there is neither, it names no goal. -/
def NamesDefault (goals : List Goal) (title : List Char) (status : GoalStatus)
    (body : List Char) : Prop :=
  match (goals.find? (fun g => g.status = .inProgress)).or
      (goals.find? (fun g => g.status = .todo)) with
  | some g => title = g.title ∧ status = g.status ∧ body = g.runtimeContext
  | none => title = "open todo (no open goal)".toList

def WellChosen (todoText : List Char) : Prop :=
  ∀ (goalsText : List Char) (hint : Option (List Char)) (gateOnly : Bool) (l : Ledger),
    Ledger.load goalsText todoText = .ok l →
      (gateOnly = true → pickWork l hint gateOnly = .ok .stabilize ∨
        ∃ unknown, pickWork l hint gateOnly = .error unknown) ∧
      ∀ title status body todo, pickWork l hint gateOnly = .ok (.goal title status body todo) →
        (Blank hint → NamesDefault l.goals title status body) ∧
          ∀ text, todo = some text → (Blank hint → Stands todoText barred text) ∧
            (¬ Blank hint → Stands todoText isDeferredSection text)

/-- An item that can be nominated, although a heading above it is deferred or
blocked, has the text of another one that may be. -/
def NothingMisfiled (todoText : List Char) : Prop :=
  ∀ selection ∈ [actionablePlaced todoText, openPlaced todoText], ∀ p, Nominable selection p →
    (∃ h ∈ p.enclosing, barred h = true) → Stands todoText barred p.text

variable {l : Ledger}

theorem load_eq_ok : load goalsText todoText = .ok l ↔
      ∃ goals, parseGoals goalsText = .ok goals ∧ l = ⟨goals, parseTodos todoText⟩ := by
  unfold load
  cases parseGoals goalsText with
  | error e => simp [Except.map]
  | ok goals => simp [Except.map, eq_comm]

theorem pickGoal_of_blank (h : Blank hint) : l.pickGoal hint = l.defaultGoal := by
  cases hint with
  | none => rfl
  | some value =>
    rw [pickGoal, h value rfl]
    rfl

variable {todoText : List Char}

theorem placed_of_nominable (hmem : selection ∈ [actionablePlaced todoText, openPlaced todoText])
    (hp : Nominable selection p) : p ∈ placed todoText ∧ p.done = false := by
  have hopen : p ∈ openPlaced todoText := by
    obtain ⟨before, after, rfl, -⟩ := hp
    rw [mem_cons, mem_singleton] at hmem
    rcases hmem with hact | hopen
    · exact (mem_filter.mp (hact ▸ by simp : p ∈ actionablePlaced todoText)).1
    · exact hopen ▸ by simp
  obtain ⟨hplaced, htest⟩ := mem_filter.mp hopen
  simp only [Bool.and_eq_true, Bool.not_eq_true'] at htest
  exact ⟨hplaced, htest.1⟩

theorem stands_of_nominable (h : NothingMisfiled todoText)
    (hmem : selection ∈ [actionablePlaced todoText, openPlaced todoText])
    (hp : Nominable selection p) : Stands todoText barred p.text := by
  by_cases hbarred : ∃ h ∈ p.enclosing, barred h
  · exact h selection hmem p hp hbarred
  · obtain ⟨hplaced, hdone⟩ := placed_of_nominable hmem hp
    refine ⟨p, hplaced, hdone, rfl, fun heading hmem => ?_⟩
    by_contra hbad
    exact hbarred ⟨heading, hmem, by simpa using hbad⟩

theorem pickWork_gateOnly (l : Ledger) (hint : Option (List Char)) :
    pickWork l hint true = .ok .stabilize ∨ ∃ unknown, pickWork l hint true = .error unknown := by
  unfold pickWork
  dsimp only
  by_cases hunknown : l.pickGoal hint = none ∧ hint.any (fun value => trim value ≠ [])
  · rw [if_pos hunknown]
    exact .inr ⟨_, rfl⟩
  · rw [if_neg hunknown]
    exact .inl rfl

theorem pickWork_eq_goal (h : pickWork l hint gateOnly = .ok (.goal title status body todo)) :
    (∃ g, l.pickGoal hint = some g ∧ title = g.title ∧ status = g.status ∧ body = g.runtimeContext ∧
      todo = (if hint.isSome then l.openTodoFor g else l.actionableTodoFor g).map TodoItem.text) ∨
    (l.pickGoal hint = none ∧ title = "open todo (no open goal)".toList ∧
      ∃ t, l.nextActionableTodo = some t ∧ todo = some t.text) := by
  unfold pickWork at h
  dsimp only at h
  by_cases hunknown : l.pickGoal hint = none ∧ hint.any (fun value => trim value ≠ [])
  · rw [if_pos hunknown] at h
    cases h
  · rw [if_neg hunknown] at h
    cases gateOnly with
    | true => cases h
    | false =>
      rw [if_neg (by decide)] at h
      cases hgoal : l.pickGoal hint with
      | some g =>
        rw [hgoal] at h
        cases h
        exact .inl ⟨g, rfl, rfl, rfl, rfl, rfl⟩
      | none =>
        rw [hgoal] at h
        cases hnext : l.nextActionableTodo with
        | none =>
          rw [hnext] at h
          cases h
        | some t =>
          rw [hnext] at h
          cases h
          exact .inr ⟨rfl, rfl, t, rfl, rfl⟩

theorem namesDefault_of_blank (hblank : Blank hint) (h : l.pickGoal hint = found) :
    (l.goals.find? (fun g => g.status = .inProgress)).or
      (l.goals.find? (fun g => g.status = .todo)) = found := by
  rw [pickGoal_of_blank hblank] at h
  exact h

theorem wellChosen_of_nothingMisfiled (h : NothingMisfiled todoText) :
    WellChosen todoText := by
  intro goalsText hint gateOnly l hl
  have htodos : l.todos = (placed todoText).map Placed.item := by
    obtain ⟨goals, -, rfl⟩ := load_eq_ok.mp hl
    exact parseTodos_eq todoText
  have hfree : ∀ {selection}, selection ∈ [actionablePlaced todoText, openPlaced todoText] →
      ∀ {t : TodoItem}, (∃ p, Nominable selection p ∧ p.text = t.text) →
        ∀ text, some t.text = some text → (Blank hint → Stands todoText barred text) ∧
          (¬ Blank hint → Stands todoText isDeferredSection text) := by
    rintro selection hmem t ⟨p, hp, hpt⟩ text htext
    rw [← Option.some.inj htext, ← hpt]
    have hstands := stands_of_nominable h hmem hp
    obtain ⟨q, hq, hdone, htext, hbad⟩ := id hstands
    exact ⟨fun _ => hstands, fun _ => ⟨q, hq, hdone, htext, fun heading hheading =>
      (Bool.or_eq_false_iff.mp (hbad heading hheading)).1⟩⟩
  refine ⟨?_, fun title status body todo hpick => ?_⟩
  · rintro rfl
    exact pickWork_gateOnly l hint
  · rcases pickWork_eq_goal hpick with
      ⟨g, hgoal, rfl, rfl, rfl, rfl⟩ | ⟨hgoal, rfl, t, hnext, rfl⟩
    · refine ⟨fun hblank => ?_, fun text htext => ?_⟩
      · rw [NamesDefault, namesDefault_of_blank hblank hgoal]
        exact ⟨rfl, rfl, rfl⟩
      · obtain ⟨t, ht, htext⟩ := Option.map_eq_some_iff.mp htext
        split_ifs at ht
        · exact hfree (by simp) (nominable_of_openTodoFor htodos ht) text (by rw [htext])
        · exact hfree (by simp) (nominable_of_actionableTodoFor htodos ht) text (by rw [htext])
    · refine ⟨fun hblank => ?_, hfree (by simp) (nominable_of_nextActionableTodo htodos hnext)⟩
      rw [NamesDefault, namesDefault_of_blank hblank hgoal]

theorem value_of_placed (h : p ∈ placed text) : Value p.text := by
  have hall : ∀ ls : List Line, (∀ line ∈ ls, '\n' ∉ line) → ∀ chapter part,
      p ∈ placedFrom chapter part ls → Value p.text := by
    intro ls hls
    induction ls with
    | nil =>
      intro chapter part hp
      cases hp
    | cons line ls ih =>
      intro chapter part hp
      have hrest := ih (fun other hother => hls other (mem_cons_of_mem line hother))
      unfold placedFrom at hp
      split at hp
      · exact hrest _ _ hp
      · split at hp
        · exact hrest _ _ hp
        · split at hp
          case h_1 done item hbox =>
            rcases mem_cons.mp hp with rfl | hlater
            · exact value_of_checkbox (hls line mem_cons_self) hbox
            · exact hrest _ _ hlater
          · exact hrest _ _ hp
  exact hall (lines text) (fun line hline => newline_notMem_of_mem_lines hline) none none h

/-- A goal in progress with this next action. -/
def goalFor (text : List Char) : Goal :=
  { goalWith "" with status := .inProgress, nextAction := text }

theorem load_goalFor (todoText : List Char) {text : List Char} (h : Value text) :
    load (render [goalFor text]) todoText = .ok ⟨[goalFor text], parseTodos todoText⟩ := by
  have hfields := fields_goalWith ""
  have hcanonical : Canonical (goalFor text) := by
    refine ⟨⟨hfields.title, hfields.id, fun v hv => ?_, hfields.owner, ?_⟩, rfl, ?_⟩
    · rcases mem_append.mp (show v ∈ [_, _, _] ++ [text] from hv) with hsame | hnext
      · exact hfields.evidence v (mem_append_left [_] hsame)
      · rw [mem_singleton.mp hnext]
        exact h
    · simp [goalFor]
    · exact (show ∀ line ∈ splitOn '\n' [], isHeading line = false ∧ line.getLast? ≠ some '\r'
        by decide)
  exact load_eq_ok.mpr ⟨_, parseGoals_render (by simpa using hcanonical) (by simp), rfl⟩

/-- Whatever is nominable is nominated, by a ledger whose goal names it. -/
theorem stands_of_wellChosen (h : WellChosen todoText)
    (hmem : selection ∈ [actionablePlaced todoText, openPlaced todoText])
    (hp : Nominable selection p) : Stands todoText barred p.text := by
  have hvalue : Value p.text := value_of_placed (placed_of_nominable hmem hp).1
  have htodos : (mk [goalFor p.text] (parseTodos todoText)).todos =
      (placed todoText).map Placed.item := parseTodos_eq todoText
  have hnamed : (selection.map Placed.item).find? (names (goalFor p.text)) = some p.item := by
    rw [find_names, show trim (goalFor p.text).nextAction = p.text from hvalue.trimmed,
      find_of_nominable hp]
    rfl
  have hchosen : ∀ hint, Blank hint →
      pickWork ⟨[goalFor p.text], parseTodos todoText⟩ hint false = .ok (.goal
        (goalFor p.text).title .inProgress (goalFor p.text).runtimeContext (some p.text)) →
      Stands todoText barred p.text := by
    intro hint hblank hpick
    exact (((h _ hint false _ (load_goalFor todoText hvalue)).2 _ _ _ _ hpick).2 _ rfl).1 hblank
  rw [mem_cons, mem_singleton] at hmem
  rcases hmem with rfl | rfl
  · -- without a hint the actionable items are searched
    rw [← actionableTodos_eq htodos] at hnamed
    refine hchosen none nofun ?_
    change Except.ok (WorkFocus.goal _ _ _ ((((mk _ _).actionableTodos.find? _).or _).map _)) = _
    rw [hnamed]
    rfl
  · -- with a blank one all open items are
    rw [← openTodos_eq htodos] at hnamed
    refine hchosen (some []) (fun _ hmem => by rw [← Option.some.inj hmem]; rfl) ?_
    change Except.ok (WorkFocus.goal _ _ _ ((((mk _ _).openTodos.find? _).or _).map _)) = _
    rw [hnamed]
    rfl

def deferredText : List Char :=
  "## Deferred by construction\n### Search\n- [ ] semantic search\n".toList

def blockedText : List Char := "## Blocked\n- [ ] hosted trainer\n".toList

end Abbey.Improve
