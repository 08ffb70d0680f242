import Abbey.Work.Preferences

/-!
# Learned values

The values that `recompute` derives with one loop over the window, said as
counts of observations: `derived_recompute`.
-/

namespace Abbey.Work

open WorkPreferenceProfile List Option

variable {es : List PreferenceEvidence}

/-! ## Counts -/

/-- The observations of a profile that count. -/
def observations (p : WorkPreferenceProfile) : List PreferenceEvidence :=
  p.evidence.filter attributed

def snoozesIn (es : List PreferenceEvidence) (hour : Nat) : Nat :=
  es.countP (fun e => e.feedback = .snoozed hour)

def dismissalsIn (es : List PreferenceEvidence) : Nat := es.countP (fun e => e.feedback = .dismissed)

def briefingsIn (es : List PreferenceEvidence) (feedback : WorkFeedback) : Nat :=
  es.countP (fun e => e.feedback = feedback && e.kind = some .briefing)

/-- The smallest hour with the greatest count, which is at least five. -/
structure IsMode (count : Nat → Nat) (hour : Nat) : Prop where
  valid : hour < 24
  enough : 5 ≤ count hour
  greatest : ∀ other < 24, count other ≤ count hour
  smallest : ∀ other < hour, count other < count hour

/-- The learned values of a profile are what its observations say. -/
structure Derived (p : WorkPreferenceProfile) : Prop where
  learnedHour : ∀ hour, p.learnedHour = some hour ↔
    p.learningEnabled = true ∧ IsMode (snoozesIn (observations p)) hour
  reduceFollowups : p.reduceFollowups = true ↔
    p.learningEnabled = true ∧ 5 ≤ dismissalsIn (observations p)
  useful : p.briefingRank = 1 ↔ p.learningEnabled = true ∧
    5 ≤ briefingsIn (observations p) .useful ∧
      briefingsIn (observations p) .dismissed < briefingsIn (observations p) .useful
  unwanted : p.briefingRank = -1 ↔ p.learningEnabled = true ∧
    5 ≤ briefingsIn (observations p) .dismissed ∧
      briefingsIn (observations p) .useful < briefingsIn (observations p) .dismissed
  rank : p.briefingRank = 1 ∨ p.briefingRank = -1 ∨ p.briefingRank = 0

/-! ## The loop -/

/-- What the loop has counted after some observations. -/
structure Counted (es : List PreferenceEvidence) (t : Tally) : Prop where
  length : t.hours.length = 24
  hours : ∀ hour < 24, t.hours[hour]? = some (snoozesIn es hour)
  dismissed : t.dismissed = dismissalsIn es
  usefulBriefings : t.usefulBriefings = briefingsIn es .useful
  dismissedBriefings : t.dismissedBriefings = briefingsIn es .dismissed

theorem Counted.zero : Counted [] .zero := by
  refine ⟨rfl, ?_, rfl, rfl, rfl⟩
  intro hour hhour
  show (replicate 24 0)[hour]? = some 0
  rw [getElem?_replicate, if_pos hhour]

variable (es)

theorem snoozesIn_concat (e : PreferenceEvidence) (hour : Nat) :
    snoozesIn (es ++ [e]) hour = snoozesIn es hour + if e.feedback = .snoozed hour then 1 else 0 := by
  simp [snoozesIn, countP_append, countP_singleton]

theorem dismissalsIn_concat (e : PreferenceEvidence) :
    dismissalsIn (es ++ [e]) = dismissalsIn es + if e.feedback = .dismissed then 1 else 0 := by
  simp [dismissalsIn, countP_append, countP_singleton]

theorem briefingsIn_concat (e : PreferenceEvidence) (feedback : WorkFeedback) :
    briefingsIn (es ++ [e]) feedback =
      briefingsIn es feedback + if e.feedback = feedback ∧ e.kind = some .briefing then 1 else 0 := by
  simp [briefingsIn, countP_append, countP_singleton]

variable {es}

/-- One turn of the loop counts one observation. -/
theorem Counted.add (h : Counted es t) (e : PreferenceEvidence) :
    Counted (es ++ [e]) (t.add e) := by
  obtain ⟨hlength, hhours, hdismissed, huseful, hbriefings⟩ := h
  unfold Tally.add
  have hkept : (∀ hour, e.feedback ≠ .snoozed hour) →
      ∀ hour < 24, t.hours[hour]? = some (snoozesIn (es ++ [e]) hour) := by
    intro hnot hour hhour
    rw [hhours hour hhour, snoozesIn_concat, if_neg (hnot hour), Nat.add_zero]
  cases hfeedback : e.feedback with
  | useful | dismissed =>
    have hhours' := hkept (by simp [hfeedback])
    by_cases hkind : e.kind = some .briefing
    · simp only [if_pos hkind]
      refine ⟨hlength, hhours', ?_, ?_, ?_⟩
      all_goals simp [dismissalsIn_concat, briefingsIn_concat, hfeedback, hkind, *]
    · simp only [if_neg hkind]
      refine ⟨hlength, hhours', ?_, ?_, ?_⟩
      all_goals simp [dismissalsIn_concat, briefingsIn_concat, hfeedback, hkind, *]
  | snoozed hour =>
    by_cases hhour : hour < 24
    · simp only [if_pos hhour]
      refine ⟨by rw [length_modify, hlength], ?_, ?_, ?_, ?_⟩
      · intro other hother
        rw [getElem?_modify, hhours other hother, snoozesIn_concat, hfeedback]
        by_cases hsame : hour = other
        · simp [hsame]
        · simp [hsame]
      all_goals simp [dismissalsIn_concat, briefingsIn_concat, hfeedback, *]
    · simp only [if_neg hhour]
      refine ⟨hlength, ?_, ?_, ?_, ?_⟩
      · intro other hother
        have hne : hour ≠ other := by omega
        rw [hhours other hother, snoozesIn_concat, hfeedback]
        simp [hne]
      all_goals simp [dismissalsIn_concat, briefingsIn_concat, hfeedback, *]

theorem counted_foldl (es : List PreferenceEvidence) : Counted es (es.foldl Tally.add .zero) := by
  induction es using reverseRecOn with
  | nil => exact Counted.zero
  | append_singleton es e ih =>
    rw [foldl_append]
    exact ih.add e

/-! ## The greatest count -/

theorem busiest_concat (l : List Nat) (c : Nat) : busiest (l ++ [c]) = match busiest l with
      | none => some (c, l.length)
      | some y => if y.1 < c ∨ (y.1 = c ∧ l.length ≤ y.2) then some (c, l.length) else some y := by
  unfold busiest
  rw [zipIdx_append, foldl_append]
  generalize l.zipIdx.foldl _ none = best
  cases best with
  | none => simp
  | some y => simp

/-- The first of the greatest counts. -/
theorem busiest_spec (l : List Nat) : (busiest l = none ↔ l = []) ∧
    ∀ c i : Nat, busiest l = some (c, i) → l[i]? = some c ∧
      (∀ k x : Nat, l[k]? = some x → x ≤ c) ∧ ∀ k x : Nat, k < i → l[k]? = some x → x < c := by
  induction l using reverseRecOn with
  | nil => exact ⟨by simp [busiest], fun c i h => by simp [busiest] at h⟩
  | append_singleton l c ih =>
    obtain ⟨hnone, hsome⟩ := ih
    rw [busiest_concat]
    cases hbest : busiest l with
    | none =>
      rw [hnone.mp hbest]
      refine ⟨by simp, ?_⟩
      intro c' i h
      cases h
      refine ⟨rfl, ?_, ?_⟩
      · intro k x hx
        cases k with
        | zero => simpa using Nat.le_of_eq (by simpa using hx.symm)
        | succ k => simp at hx
      · intro k x hk
        exact absurd hk (Nat.not_lt_zero k)
    | some y =>
      obtain ⟨m, j⟩ := y
      obtain ⟨hj, hmax, hfirst⟩ := hsome m j hbest
      have hjlt : j < l.length := (List.getElem?_eq_some_iff.mp hj).1
      refine ⟨by simp; split_ifs <;> simp, ?_⟩
      intro c' i h
      dsimp only at h
      have helem : ∀ k x : Nat, (l ++ [c])[k]? = some x → (l[k]? = some x) ∨ (k = l.length ∧ x = c) := by
        intro k x hx
        rcases Nat.lt_or_ge k l.length with hlt | hge
        · rw [getElem?_append_left hlt] at hx
          exact .inl hx
        · rw [getElem?_append_right hge] at hx
          rcases Nat.eq_zero_or_pos (k - l.length) with hzero | hpos
          · rw [hzero] at hx
            exact .inr ⟨by omega, by simpa using hx.symm⟩
          · rw [getElem?_eq_none (by simp; omega)] at hx
            cases hx
      by_cases hgreater : m < c
      · rw [if_pos (.inl hgreater)] at h
        cases h
        refine ⟨by simp, ?_, ?_⟩
        · intro k x hx
          rcases helem k x hx with hold | ⟨_, rfl⟩
          · exact Nat.le_of_lt (Nat.lt_of_le_of_lt (hmax k x hold) hgreater)
          · exact Nat.le_refl x
        · intro k x hk hx
          rcases helem k x hx with hold | ⟨heq, _⟩
          · exact Nat.lt_of_le_of_lt (hmax k x hold) hgreater
          · omega
      · rw [if_neg (by omega)] at h
        cases h
        refine ⟨by rw [getElem?_append_left hjlt, hj], ?_, ?_⟩
        · intro k x hx
          rcases helem k x hx with hold | ⟨_, rfl⟩
          · exact hmax k x hold
          · omega
        · intro k x hk hx
          rcases helem k x hx with hold | ⟨heq, _⟩
          · exact hfirst k x hk hold
          · omega

/-! ## Derived values -/

variable (p : WorkPreferenceProfile)

@[simp] theorem evidence_recompute : p.recompute.evidence = p.evidence := by
  unfold recompute
  dsimp only
  split_ifs <;> rfl

@[simp] theorem learningEnabled_recompute : p.recompute.learningEnabled = p.learningEnabled := by
  unfold recompute
  dsimp only
  split_ifs <;> rfl

@[simp] theorem explicitHour_recompute : p.recompute.explicitHour = p.explicitHour := by
  unfold recompute
  dsimp only
  split_ifs <;> rfl

@[simp] theorem observedDeliveries_recompute :
    p.recompute.observedDeliveries = p.observedDeliveries := by
  unfold recompute
  dsimp only
  split_ifs <;> rfl

theorem observations_recompute : observations p.recompute = observations p := by
  rw [observations, evidence_recompute, observations]

/-- The hour that the search finds is the first of the busiest ones. -/
theorem learned_iff (h : Counted es t) (hour : Nat) :
    ((busiest t.hours).filter (fun x => 5 ≤ x.1)).map Prod.snd = some hour ↔
      IsMode (snoozesIn es) hour := by
  obtain ⟨hnone, hsome⟩ := busiest_spec t.hours
  cases hbest : busiest t.hours with
  | none =>
    have hlength := h.length
    rw [hnone.mp hbest] at hlength
    cases hlength
  | some best =>
    obtain ⟨c, i⟩ := best
    obtain ⟨hi, hmax, hfirst⟩ := hsome c i hbest
    have hlt : i < 24 := by
      rw [← h.length]
      exact (List.getElem?_eq_some_iff.mp hi).1
    have hcount : c = snoozesIn es i := by
      rw [h.hours i hlt, some.injEq] at hi
      exact hi.symm
    rw [map_eq_some_iff]
    simp only [filter_eq_some_iff, some.injEq, decide_eq_true_eq]
    constructor
    · rintro ⟨_, ⟨rfl, hfive⟩, rfl⟩
      refine ⟨hlt, by rw [← hcount]; exact hfive, ?_, ?_⟩
      · intro other hother
        rw [← hcount]
        exact hmax other _ (h.hours other hother)
      · intro other hother
        rw [← hcount]
        exact hfirst other _ hother (h.hours other (Nat.lt_trans hother hlt))
    · intro hmode
      have hfive := hmode.enough
      have hge := hmode.greatest i hlt
      have hle := hmax hour _ (h.hours hour hmode.valid)
      refine ⟨(c, i), ⟨rfl, by omega⟩, ?_⟩
      rcases Nat.lt_trichotomy i hour with hless | heq | hmore
      · have hsmall := hmode.smallest i hless
        omega
      · exact heq
      · have hsmall := hfirst hour _ hmore (h.hours hour hmode.valid)
        omega

theorem derived_recompute : Derived p.recompute := by
  have hcounted := counted_foldl (observations p)
  have hhours := learned_iff hcounted
  obtain ⟨_, _, hdismissed, huseful, hbriefings⟩ := hcounted
  have hsnoozes : ∀ hour, snoozesIn (observations p) hour ≤ (observations p).length :=
    fun hour => countP_le_length
  have hdismissals : dismissalsIn (observations p) ≤ (observations p).length :=
    countP_le_length
  have hshown : ∀ feedback, briefingsIn (observations p) feedback ≤ (observations p).length :=
    fun feedback => countP_le_length
  by_cases hoff : (!p.learningEnabled || decide ((observations p).length < 5)) = true
  · have heq : p.recompute =
        { p with learnedHour := none, reduceFollowups := false, briefingRank := 0 } := by
      unfold recompute
      exact if_pos hoff
    have hfew : p.learningEnabled → (observations p).length < 5 := by
      intro hon
      rw [hon] at hoff
      simpa using hoff
    constructor
    · intro hour
      rw [observations_recompute, learningEnabled_recompute, heq]
      refine iff_of_false (by simp) (fun ⟨hon, hmode⟩ => ?_)
      have hle := hmode.enough.trans (hsnoozes hour)
      exact absurd (hfew hon) (by omega)
    · rw [observations_recompute, learningEnabled_recompute, heq]
      refine iff_of_false (by simp) (fun ⟨hon, hfive⟩ => ?_)
      exact absurd (hfew hon) (by omega)
    · rw [observations_recompute, learningEnabled_recompute, heq]
      refine iff_of_false (by simp) (fun ⟨hon, hfive, _⟩ => ?_)
      have hle := hfive.trans (hshown .useful)
      exact absurd (hfew hon) (by omega)
    · rw [observations_recompute, learningEnabled_recompute, heq]
      refine iff_of_false (by simp) (fun ⟨hon, hfive, _⟩ => ?_)
      have hle := hfive.trans (hshown .dismissed)
      exact absurd (hfew hon) (by omega)
    · rw [heq]
      exact .inr (.inr rfl)
  · have hon : p.learningEnabled := by
      by_contra hnot
      rw [Bool.not_eq_true] at hnot
      exact hoff (by rw [hnot]; rfl)
    have heq : p.recompute = { p with
        learnedHour := ((busiest ((observations p).foldl Tally.add .zero).hours).filter
          (fun x => 5 ≤ x.1)).map Prod.snd
        reduceFollowups := 5 ≤ dismissalsIn (observations p)
        briefingRank :=
          if 5 ≤ briefingsIn (observations p) .useful ∧
              briefingsIn (observations p) .dismissed < briefingsIn (observations p) .useful then 1
          else if 5 ≤ briefingsIn (observations p) .dismissed ∧
              briefingsIn (observations p) .useful < briefingsIn (observations p) .dismissed then -1
          else 0 } := by
      rw [← hdismissed, ← huseful, ← hbriefings]
      unfold recompute
      exact if_neg hoff
    constructor
    · intro hour
      rw [observations_recompute, learningEnabled_recompute, heq]
      simp only [hhours hour, hon, true_and]
    · rw [observations_recompute, learningEnabled_recompute, heq]
      simp only [hon, true_and, decide_eq_true_eq]
    · rw [observations_recompute, learningEnabled_recompute, heq]
      simp only [hon, true_and]
      split_ifs with h h'
      · simp [h]
      · simp [h]
      · simp [h]
    · rw [observations_recompute, learningEnabled_recompute, heq]
      simp only [hon, true_and]
      split_ifs with h h'
      · have hnot : ¬ briefingsIn (observations p) .useful < briefingsIn (observations p) .dismissed := by
          omega
        simp [hnot]
      · simp [h']
      · simp [h']
    · rw [heq]
      dsimp only
      split_ifs
      · exact .inl rfl
      · exact .inr (.inl rfl)
      · exact .inr (.inr rfl)

end Abbey.Work
