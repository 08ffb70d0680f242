import Abbey.Prompt.Budget

/-!
# What a fitted prompt keeps

The trimming is stated against the prompts it could have chosen: the suffixes
of the conversation that a prompt may open on, and for the facts one removal
after the other, each of the weakest fact that is left.
-/

namespace Abbey.Prompt

open List

variable {ρ : Type}

/-! ## The last turn of the user -/

/-- The turns from here on are never trimmed. -/
def keepFrom (turns : List ChatTurn) : Nat := (lastUser turns).getD 0

theorem lastUser_eq_none (h : lastUser turns = none) : ∀ turn ∈ turns, turn.role ≠ .user := by
  induction turns with
  | nil => simp
  | cons turn turns ih =>
    unfold lastUser at h
    cases hrest : lastUser turns with
    | some place => simp [hrest] at h
    | none =>
      by_cases huser : turn.role = .user
      · simp [hrest, huser] at h
      · intro other hother
        rcases mem_cons.mp hother with rfl | hmem
        · exact huser
        · exact ih hrest other hmem

/-- It is a turn of the user, and no later turn is one. -/
theorem lastUser_eq_some (h : lastUser turns = some place) :
    (∃ turn, turns[place]? = some turn ∧ turn.role = .user) ∧
      ∀ later turn, place < later → turns[later]? = some turn → turn.role ≠ .user := by
  induction turns generalizing place with
  | nil => simp [lastUser] at h
  | cons turn turns ih =>
    unfold lastUser at h
    cases hrest : lastUser turns with
    | some inner =>
      simp only [hrest, Option.some.injEq] at h
      subst h
      obtain ⟨hat, hlater⟩ := ih hrest
      refine ⟨by simpa using hat, fun later other hlt hother => ?_⟩
      have hpos : later = (later - 1) + 1 := by omega
      rw [hpos, getElem?_cons_succ] at hother
      exact hlater (later - 1) other (by omega) hother
    | none =>
      by_cases huser : turn.role = .user
      · simp only [hrest, huser, if_true, Option.some.injEq] at h
        subst h
        refine ⟨⟨turn, by simp, huser⟩, fun later other hlt hother => ?_⟩
        have hpos : later = (later - 1) + 1 := by omega
        rw [hpos, getElem?_cons_succ] at hother
        exact lastUser_eq_none hrest other (mem_of_getElem? hother)
      · simp [hrest, huser] at h

theorem keepFrom_le_length (turns : List ChatTurn) : keepFrom turns ≤ turns.length := by
  unfold keepFrom
  cases h : lastUser turns with
  | none => simp
  | some place =>
    obtain ⟨⟨turn, hturn, -⟩, -⟩ := lastUser_eq_some h
    have hlt : place < turns.length := (List.getElem?_eq_some_iff.mp hturn).1
    simp only [Option.getD_some]
    omega

/-! ## Costs -/

theorem turnsCost_drop_le (turns : List ChatTurn) (count : Nat) :
    turnsCost (turns.drop count) ≤ turnsCost turns := by
  have hsplit : turnsCost (turns.take count) + turnsCost (turns.drop count) = turnsCost turns := by
    unfold turnsCost
    rw [← sum_append, ← map_append, take_append_drop]
  omega

theorem turnsCost_drop_antitone (turns : List ChatTurn) (h : early ≤ late) :
    turnsCost (turns.drop late) ≤ turnsCost (turns.drop early) := by
  have hlate : turns.drop late = (turns.drop early).drop (late - early) := by
    rw [drop_drop]
    congr 1
    omega
  rw [hlate]
  exact turnsCost_drop_le _ _

namespace PromptParts

/-- What can never be trimmed. -/
def floor (parts : PromptParts ρ) : Nat :=
  parts.fixedCost + turnsCost (parts.turns.drop (keepFrom parts.turns))

/-- The prompt without its first turns. -/
def openedAt (parts : PromptParts ρ) (place : Nat) : PromptParts ρ :=
  parts.withTurns (parts.turns.drop place)

variable (parts : PromptParts ρ)

@[simp] theorem withTurns_turns (turns : List ChatTurn) :
    (parts.withTurns turns).turns = turns := rfl

@[simp] theorem withTurns_withTurns (turns others : List ChatTurn) :
    (parts.withTurns turns).withTurns others = parts.withTurns others := rfl

@[simp] theorem withTurns_facts (turns : List ChatTurn) :
    (parts.withTurns turns).facts = parts.facts := rfl

@[simp] theorem withTurns_fixedCost (turns : List ChatTurn) :
    (parts.withTurns turns).fixedCost = parts.fixedCost := rfl

variable (facts : List (ρ × String))

@[simp] theorem withFacts_turns : (parts.withFacts facts).turns = parts.turns := rfl

@[simp] theorem withFacts_facts : (parts.withFacts facts).facts = facts := rfl

@[simp] theorem withFacts_fixedCost : (parts.withFacts facts).fixedCost = parts.fixedCost := rfl

@[simp] theorem openedAt_zero : parts.openedAt 0 = parts := rfl

theorem openedAt_openedAt (early late : Nat) :
    (parts.openedAt early).openedAt late = parts.openedAt (early + late) := by
  simp [openedAt, drop_drop]

theorem cost_openedAt_antitone (h : early ≤ late) :
    (parts.openedAt late).cost ≤ (parts.openedAt early).cost := by
  have hturns := turnsCost_drop_antitone parts.turns h
  simp only [cost, openedAt, withTurns_fixedCost, withTurns_facts, withTurns_turns]
  omega

/-- Everything but the facts and the turns is the same. -/
def SameText (parts out : PromptParts ρ) : Prop :=
  out.core = parts.core ∧ out.guidance = parts.guidance ∧ out.addenda = parts.addenda ∧
    out.standing = parts.standing

theorem SameText.refl : SameText parts parts := ⟨rfl, rfl, rfl, rfl⟩

theorem sameText_openedAt (place : Nat) :
    SameText parts (parts.openedAt place) := ⟨rfl, rfl, rfl, rfl⟩

end PromptParts

open PromptParts

/-! ## Where a prompt may open -/

/-- A place the turns may start at: a turn of the user, or the last resort. -/
def Admissible (turns : List ChatTurn) (place : Nat) : Prop :=
  place ≤ keepFrom turns ∧
    (place = keepFrom turns ∨ ∃ turn, turns[place]? = some turn ∧ turn.role = .user)

/-- The loop over the budget stops at the first place that fits. -/
theorem dropOldest_spec (maxChars : Nat) (droppable : Nat) (parts : PromptParts ρ)
    (h : droppable ≤ parts.turns.length) :
    ∃ count ≤ droppable,
      dropOldest maxChars droppable parts = some (parts.openedAt count, droppable - count) ∧
        (count = droppable ∨ (parts.openedAt count).cost ≤ maxChars) ∧
          ∀ early < count, maxChars < (parts.openedAt early).cost := by
  induction droppable generalizing parts with
  | zero => exact ⟨0, le_rfl, rfl, Or.inl rfl, by simp⟩
  | succ droppable ih =>
    by_cases hcost : parts.cost > maxChars
    · obtain ⟨turn, turns, hturns⟩ := exists_cons_of_length_pos (l := parts.turns) (by omega)
      have hopen : parts.withTurns turns = parts.openedAt 1 := by simp [openedAt, hturns]
      have hlength : droppable ≤ (parts.openedAt 1).turns.length := by
        simp only [openedAt, withTurns_turns, length_drop]
        omega
      obtain ⟨count, hcount, hrun, hstop, hearly⟩ := ih (parts.openedAt 1) hlength
      have hadd : (parts.openedAt 1).openedAt count = parts.openedAt (count + 1) := by
        rw [openedAt_openedAt, Nat.add_comm]
      refine ⟨count + 1, by omega, ?_, ?_, ?_⟩
      · rw [dropOldest, if_pos hcost, hturns]
        simp only [hopen, hrun, hadd]
        congr 2
        omega
      · rcases hstop with hall | hfits
        · left
          omega
        · right
          rwa [← hadd]
      · intro early hlt
        cases early with
        | zero => simpa using hcost
        | succ early =>
          have hinner := hearly early (by omega)
          rwa [openedAt_openedAt, Nat.add_comm] at hinner
    · refine ⟨0, by omega, ?_, Or.inr ?_, by simp⟩
      · rw [dropOldest, if_neg hcost]
        rfl
      · simpa using hcost

/-- The loop over the roles stops at the first turn of the user. -/
theorem openOnUser_spec (droppable : Nat) (parts : PromptParts ρ)
    (h : droppable ≤ parts.turns.length) :
    ∃ count ≤ droppable, openOnUser droppable parts = some (parts.openedAt count) ∧
        (count = droppable ∨ ∃ turn, parts.turns[count]? = some turn ∧ turn.role = .user) ∧
          ∀ early turn, early < count → parts.turns[early]? = some turn → turn.role ≠ .user := by
  induction droppable generalizing parts with
  | zero => exact ⟨0, le_rfl, rfl, Or.inl rfl, by simp⟩
  | succ droppable ih =>
    obtain ⟨turn, turns, hturns⟩ := exists_cons_of_length_pos (l := parts.turns) (by omega)
    have hopen : parts.withTurns turns = parts.openedAt 1 := by simp [openedAt, hturns]
    have htail : (parts.openedAt 1).turns = turns := by simp [openedAt, hturns]
    by_cases huser : turn.role = .user
    · refine ⟨0, by omega, ?_, Or.inr ⟨turn, by simp [hturns], huser⟩, by simp⟩
      rw [openOnUser, hturns]
      simp [huser]
    · have hlength : droppable ≤ (parts.openedAt 1).turns.length := by
        rw [htail]
        simp only [hturns, length_cons] at h
        omega
      obtain ⟨count, hcount, hrun, hstop, hearly⟩ := ih (parts.openedAt 1) hlength
      rw [htail] at hstop hearly
      refine ⟨count + 1, by omega, ?_, ?_, ?_⟩
      · rw [openOnUser, hturns]
        simp only [ne_eq, huser, not_false_eq_true, if_true, hopen, hrun, openedAt_openedAt]
        rw [Nat.add_comm]
      · rcases hstop with hall | hat
        · left
          omega
        · right
          simpa [hturns] using hat
      · intro early other hlt hother
        cases early with
        | zero =>
          simp only [hturns, getElem?_cons_zero, Option.some.injEq] at hother
          exact hother ▸ huser
        | succ early =>
          rw [hturns, getElem?_cons_succ] at hother
          exact hearly early other (by omega) hother

/-- The two loops over the turns end at the earliest admissible place that fits. -/
theorem trimTurns_spec (parts : PromptParts ρ) (maxChars : Nat) :
    ∃ place fitted droppable, Admissible parts.turns place ∧
      dropOldest maxChars (keepFrom parts.turns) parts = some (fitted, droppable) ∧
        openOnUser droppable fitted = some (parts.openedAt place) ∧
          (∀ early < place, Admissible parts.turns early → maxChars < (parts.openedAt early).cost) ∧
              ((parts.openedAt place).cost ≤ maxChars ∨ place = keepFrom parts.turns) := by
  have hlength := keepFrom_le_length parts.turns
  obtain ⟨first, hfirst, hdrop, hstop, hover⟩ :=
    dropOldest_spec maxChars (keepFrom parts.turns) parts hlength
  have hleft : keepFrom parts.turns - first ≤ (parts.openedAt first).turns.length := by
    simp only [openedAt, withTurns_turns, length_drop]
    omega
  obtain ⟨second, hsecond, hopen, hat, hskipped⟩ :=
    openOnUser_spec (keepFrom parts.turns - first) (parts.openedAt first) hleft
  simp only [openedAt_openedAt] at hopen
  simp only [openedAt, withTurns_turns, getElem?_drop] at hat hskipped
  refine ⟨first + second, _, _, ⟨by omega, ?_⟩, hdrop, hopen, ?_, ?_⟩
  · rcases hat with hall | huser
    · left
      omega
    · exact Or.inr huser
  · rintro early hlt ⟨hle, hadmissible⟩
    by_cases hbefore : early < first
    · exact hover early hbefore
    · -- The second loop passed over this place, so no turn of the user stands there.
      exfalso
      rcases hadmissible with hlast | ⟨turn, hturn, huser⟩
      · omega
      · have hplace : first + (early - first) = early := by omega
        exact hskipped (early - first) turn (by omega) (by rwa [hplace]) huser
  · rcases hstop with hall | hfits
    · right
      omega
    · exact Or.inl ((cost_openedAt_antitone parts (by omega)).trans hfits)

section Facts

variable [LinearOrder ρ]
variable {maxChars : Nat}

/-! ## The weakest fact -/

theorem Weaker.trans {a b c : ρ × Nat} (hab : Weaker a b) (hbc : Weaker b c) : Weaker a c := by
  rcases hab with hab | ⟨hab, hplace⟩
  · rcases hbc with hbc | ⟨hbc, -⟩
    · exact Or.inl (lt_trans hab hbc)
    · exact Or.inl (hbc ▸ hab)
  · rcases hbc with hbc | ⟨hbc, hlater⟩
    · exact Or.inl (hab ▸ hbc)
    · exact Or.inr ⟨hab.trans hbc, lt_trans hlater hplace⟩

theorem eq_or_weaker_of_not {a b : ρ × Nat} (h : ¬Weaker a b) : b = a ∨ Weaker b a := by
  unfold Weaker at h ⊢
  push Not at h
  obtain ⟨hle, hplace⟩ := h
  rcases lt_or_eq_of_le hle with hlt | heq
  · exact Or.inr (Or.inl hlt)
  · rcases Nat.lt_or_eq_of_le (hplace heq.symm) with hlt | hsame
    · exact Or.inr (Or.inr ⟨heq, hlt⟩)
    · exact Or.inl (Prod.ext heq hsame.symm)

/-- The loop finds a fact that comes before all others. -/
theorem weakestFrom_spec (best : ρ × Nat) (facts : List (ρ × Nat)) :
    weakestFrom best facts ∈ best :: facts ∧ ∀ fact ∈ best :: facts,
        fact = weakestFrom best facts ∨ Weaker (weakestFrom best facts) fact := by
  induction facts generalizing best with
  | nil => simp [weakestFrom]
  | cons fact facts ih =>
    rw [weakestFrom]
    by_cases hless : Weaker fact best
    · rw [if_pos hless]
      obtain ⟨hmem, hleast⟩ := ih fact
      refine ⟨List.mem_cons_of_mem _ hmem, fun other hother => ?_⟩
      rcases mem_cons.mp hother with rfl | hrest
      · right
        rcases hleast fact (by simp) with heq | hweaker
        · rwa [← heq]
        · exact hweaker.trans hless
      · exact hleast other hrest
    · rw [if_neg hless]
      obtain ⟨hmem, hleast⟩ := ih best
      refine ⟨?_, fun other hother => ?_⟩
      · rcases mem_cons.mp hmem with heq | hrest
        · simp [heq]
        · exact mem_cons_of_mem _ (mem_cons_of_mem _ hrest)
      · rcases mem_cons.mp hother with rfl | hrest
        · exact hleast other (by simp)
        · rcases mem_cons.mp hrest with rfl | hinner
          · rcases eq_or_weaker_of_not hless with heq | hweaker
            · rw [← heq]
              exact hleast best (by simp)
            · right
              rcases hleast best (by simp) with hbest | hbelow
              · rwa [← hbest]
              · exact hbelow.trans hweaker
          · exact hleast other (mem_cons_of_mem _ hinner)

/-- The lowest relevance, and the later of two that are equal. -/
def Weakest (facts : List (ρ × String)) (place : Nat) : Prop :=
  ∃ fact, facts[place]? = some fact ∧
    ∀ other rival, other ≠ place → facts[other]? = some rival →
      Weaker (fact.1, place) (rival.1, other)

theorem weakest_spec {facts : List (ρ × String)} (h : facts ≠ []) :
    ∃ place, weakest facts = some place ∧ Weakest facts place := by
  have hindexed : ∀ entry, entry ∈ facts.zipIdx.map (fun fact => (fact.1.1, fact.2)) ↔
      ∃ fact, facts[entry.2]? = some fact ∧ fact.1 = entry.1 := by
    intro entry
    simp only [mem_map, mem_zipIdx_iff_getElem?]
    constructor
    · rintro ⟨fact, hfact, rfl⟩
      exact ⟨fact.1, hfact, rfl⟩
    · rintro ⟨fact, hfact, hrelevance⟩
      exact ⟨(fact, entry.2), hfact, Prod.ext hrelevance rfl⟩
  unfold weakest
  cases hlist : facts.zipIdx.map (fun fact => (fact.1.1, fact.2)) with
  | nil => simp_all
  | cons first rest =>
    rw [hlist] at hindexed
    obtain ⟨hmem, hleast⟩ := weakestFrom_spec first rest
    obtain ⟨fact, hfact, hrelevance⟩ := (hindexed _).mp hmem
    refine ⟨_, rfl, fact, hfact, fun other rival hne hrival => ?_⟩
    have hother := hleast (rival.1, other) ((hindexed _).mpr ⟨rival, hrival, rfl⟩)
    rcases hother with heq | hweaker
    · exact absurd (congrArg Prod.snd heq) hne
    · rw [hrelevance]
      exact hweaker

/-- Remove the weakest fact, again and again, until the prompt fits. -/
inductive Trims (maxChars : Nat) : PromptParts ρ → PromptParts ρ → Prop where
  | done {parts} (fits : parts.cost ≤ maxChars) : Trims maxChars parts parts
  | drop {parts out} {place : Nat} (exceeds : maxChars < parts.cost)
      (which : Weakest parts.facts place)
      (rest : Trims maxChars (parts.withFacts (parts.facts.eraseIdx place)) out) :
      Trims maxChars parts out

variable {parts out : PromptParts ρ}

theorem Trims.cost_le (h : Trims maxChars parts out) :
    out.cost ≤ maxChars := by
  induction h with
  | done fits => exact fits
  | drop _ _ _ ih => exact ih

theorem Trims.turns (h : Trims maxChars parts out) :
    out.turns = parts.turns := by
  induction h with
  | done _ => rfl
  | drop _ _ _ ih => simpa using ih

theorem Trims.sameText (h : Trims maxChars parts out) :
    SameText parts out := by
  induction h with
  | done _ => exact .refl _
  | drop _ _ _ ih => exact ih

/-- A prompt whose other parts fit can be made to fit. -/
theorem dropWeakest_spec (count : Nat) (parts : PromptParts ρ) (hcount : parts.facts.length ≤ count)
    (hrest : parts.fixedCost + turnsCost parts.turns ≤ maxChars) :
    Trims maxChars parts (dropWeakest maxChars count parts) := by
  induction count generalizing parts with
  | zero =>
    have hfacts : parts.facts = [] := length_eq_zero_iff.mp (by omega)
    refine .done ?_
    simp only [cost, hfacts, factsCost, map_nil, sum_nil]
    omega
  | succ count ih =>
    rw [dropWeakest]
    by_cases hcost : parts.cost > maxChars
    · rw [if_pos hcost]
      have hfacts : parts.facts ≠ [] := by
        intro hnil
        simp only [cost, hnil, factsCost, map_nil, sum_nil] at hcost
        omega
      obtain ⟨place, hweakest, hwhich⟩ := weakest_spec hfacts
      have hlt : place < parts.facts.length := by
        obtain ⟨fact, hfact, -⟩ := hwhich
        exact (List.getElem?_eq_some_iff.mp hfact).1
      rw [hweakest]
      refine .drop hcost hwhich (ih _ ?_ (by simpa using hrest))
      simp only [withFacts_facts, length_eraseIdx, if_pos hlt]
      omega
    · rw [if_neg hcost]
      exact .done (by omega)

/-! ## Fitting -/

/-- What may be asked of the result: it opens at the earliest place that fits with
every fact, and loses facts only where no place does. -/
def Minimal (maxChars : Nat) (parts out : PromptParts ρ) : Prop :=
  ∃ place, Admissible parts.turns place ∧ out.turns = parts.turns.drop place ∧
    (∀ early < place, Admissible parts.turns early → maxChars < (parts.openedAt early).cost) ∧
      ((parts.openedAt place).cost ≤ maxChars ∧ out.facts = parts.facts ∨
        maxChars < (parts.openedAt place).cost ∧ place = keepFrom parts.turns ∧
          Trims maxChars (parts.openedAt place) out)

variable {parts : PromptParts ρ}

theorem fit_of_cost_le (h : parts.cost ≤ maxChars) :
    fit parts maxChars = some parts := if_pos h

theorem fit_of_lt_floor (h : maxChars < parts.floor) :
    fit parts maxChars = some parts := by
  unfold fit
  split_ifs with hcost
  · rfl
  · exact if_pos h

theorem fit_spec (hover : maxChars < parts.cost) (hfloor : parts.floor ≤ maxChars) :
    ∃ out, fit parts maxChars = some out ∧ out.cost ≤ maxChars ∧ SameText parts out ∧
      Minimal maxChars parts out := by
  obtain ⟨place, fitted, droppable, hplace, hdrop, hopen, hearly, hend⟩ :=
    trimTurns_spec parts maxChars
  have hfit : fit parts maxChars = some
      (dropWeakest maxChars (parts.openedAt place).facts.length (parts.openedAt place)) := by
    unfold fit
    rw [if_neg (by omega)]
    dsimp only
    rw [if_neg (by unfold floor keepFrom at hfloor; omega)]
    unfold keepFrom at hdrop
    simp only [hdrop, hopen, Option.bind_eq_bind, Option.bind_some, Option.pure_def]
  by_cases hfits : (parts.openedAt place).cost ≤ maxChars
  · have hsame : dropWeakest maxChars (parts.openedAt place).facts.length (parts.openedAt place) =
        parts.openedAt place := by
      cases (parts.openedAt place).facts.length with
      | zero => rfl
      | succ count => rw [dropWeakest, if_neg (by omega)]
    rw [hsame] at hfit
    exact ⟨_, hfit, hfits, sameText_openedAt parts place,
      place, hplace, rfl, hearly, Or.inl ⟨hfits, rfl⟩⟩
  · have hkeep : place = keepFrom parts.turns := hend.resolve_left hfits
    have htrims := @dropWeakest_spec _ _ maxChars _ (parts.openedAt place) le_rfl (by
      rw [hkeep]
      exact hfloor)
    exact ⟨_, hfit, htrims.cost_le, htrims.sameText, place, hplace, htrims.turns, hearly,
      Or.inr ⟨by omega, hkeep, htrims⟩⟩

/-- A prompt that fits, or cannot be made to fit, is left alone.  Any other loses as
few turns as it may, and facts only once no more turns can go.  Fitting the
result again changes nothing. -/
theorem fit_minimal (parts : PromptParts ρ) (maxChars : Nat) :
    ∃ out, fit parts maxChars = some out ∧ SameText parts out ∧
      (parts.cost ≤ maxChars ∨ maxChars < parts.floor → out = parts) ∧
      (maxChars < parts.cost → parts.floor ≤ maxChars →
        out.cost ≤ maxChars ∧ Minimal maxChars parts out) ∧
      fit out maxChars = some out := by
  by_cases hcost : parts.cost ≤ maxChars
  · have hfit := fit_of_cost_le hcost
    exact ⟨parts, hfit, .refl _, fun _ => rfl, fun hover => absurd hcost (by omega), hfit⟩
  · by_cases hfloor : maxChars < parts.floor
    · have hfit := fit_of_lt_floor hfloor
      exact ⟨parts, hfit, .refl _, fun _ => rfl, fun _ hle => absurd hfloor (by omega), hfit⟩
    · obtain ⟨out, hfit, hfits, hsame, hminimal⟩ := fit_spec (Nat.lt_of_not_le hcost) (Nat.le_of_not_lt hfloor)
      refine ⟨out, hfit, hsame, fun hor => ?_, fun _ _ => ⟨hfits, hminimal⟩, fit_of_cost_le hfits⟩
      rcases hor with hle | hlt
      · exact absurd hle hcost
      · exact absurd hlt hfloor

end Facts

end Abbey.Prompt
