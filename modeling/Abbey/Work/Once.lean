import Abbey.Lib.Window
import Abbey.Work.Learning

/-!
# Counting once

A profile is a bounded window of observations with a memory of the
deliveries that were observed (`memory`).

What a function of a profile does to it is one change of that window:
`memory_observe`, `memory_correction`, `memory_reset`, and from them
`memory_feedback` and `memory_control`.
-/

namespace Abbey.Work

open Abbey.Lib List Window
open WorkPreferenceProfile

variable {isCorrection : Bool} {kind : Option WorkDeliveryKind} {feedback : Option WorkFeedback}
  {e : PreferenceEvidence} {access : WorkAccess} {p : WorkPreferenceProfile}
variable {es : List PreferenceEvidence} {deliveryId : Nat} {p' : WorkPreferenceProfile}

abbrev Observations := Window PreferenceEvidence (Nat × Nat)

/-- A change of the window of a profile. -/
abbrev Observed := Change PreferenceEvidence (Nat × Nat)

/-- The window of a profile. -/
def memory (p : WorkPreferenceProfile) : Observations :=
  ⟨observations p, p.observedDeliveries ∪ ((observations p).map pair).toFinset⟩

/-- The bound of `observe`. -/
def maxObservations : Nat := 100

abbrev Sound (p : WorkPreferenceProfile) : Prop := (memory p).Sound pair maxObservations

/-! ## The window of a profile -/

variable (p)

theorem memory_recompute : memory p.recompute = memory p := by
  rw [memory, observations_recompute, observedDeliveries_recompute, memory]

theorem observations_rememberObservations :
    observations p.rememberObservations = observations p := rfl

theorem memory_rememberObservations : memory p.rememberObservations = memory p := by
  unfold memory
  rw [observations_rememberObservations]
  congr 1
  show (p.observedDeliveries ∪ ((observations p).map pair).toFinset) ∪
    ((observations p).map pair).toFinset = _
  rw [Finset.union_assoc, Finset.union_idempotent]

theorem memory_reset : memory p.reset = (memory p).apply pair maxObservations .clear := by
  unfold reset
  rw [memory_recompute]
  unfold memory apply record
  congr 1
  show (p.observedDeliveries ∪ ((observations p).map pair).toFinset) ∪ ∅ = _
  rw [Finset.union_empty]

variable {p}

/-- The newest observations with a new one. -/
theorem rtake_concat (l : List PreferenceEvidence) (e : PreferenceEvidence) :
    (if 100 ≤ l.length then l.drop (l.length - 99) else l) ++ [e] =
      (l ++ [e]).rtake maxObservations := by
  rw [show maxObservations = 99 + 1 from rfl, rtake_concat_succ, rtake]
  by_cases hlength : 100 ≤ l.length
  · rw [if_pos hlength]
  · rw [if_neg hlength, show l.length - 99 = 0 by omega, drop_zero]

/-- Observing a delivery of a known member, scope and kind. -/
theorem memory_observe (hp : Sound p) (hattributed : attributed e)
    (h : p.observe e = .ok p') :
    memory p' = (memory p).apply pair maxObservations (.accept e) := by
  unfold observe at h
  obtain ⟨_, _, h⟩ := bind_ok_iff.mp h
  dsimp only at h
  have hseen : p.rememberObservations.observedDeliveries = (memory p).seen := rfl
  rw [hattributed, hseen] at h
  unfold apply record
  dsimp only
  by_cases hin : pair e ∈ (memory p).seen
  · simp only [Bool.not_true, Bool.false_eq_true, if_false, if_pos hin] at h ⊢
    cases h
    rw [memory_rememberObservations, rtake_of_length_le hp.bounded]
  · simp only [Bool.not_true, Bool.false_eq_true, if_false, if_neg hin, Except.ok.injEq] at h ⊢
    rw [← h, memory_recompute]
    have hevidence : p.rememberObservations.evidence.filter attributed = observations p := rfl
    rw [hevidence, rtake_concat]
    have hkept : ∀ x ∈ (observations p ++ [e]).rtake maxObservations,
        x ∈ observations p ∨ x = e := by
      intro x hx
      have hmem := (rtake_suffix _ _).subset hx
      rw [mem_append, mem_singleton] at hmem
      exact hmem
    have hall : ((observations p ++ [e]).rtake maxObservations).filter attributed =
        (observations p ++ [e]).rtake maxObservations := by
      apply filter_eq_self.mpr
      intro x hx
      rcases hkept x hx with hold | rfl
      · exact (mem_filter.mp hold).2
      · exact hattributed
    unfold memory observations
    dsimp only
    rw [show p.evidence.filter attributed = observations p from rfl, hall]
    congr 1
    ext k
    simp only [Finset.mem_union, Finset.mem_insert, mem_toFinset, mem_map]
    constructor
    · rintro (hold | ⟨x, hx, rfl⟩)
      · exact hold
      · rcases hkept x hx with hold | rfl
        · exact .inr (.inr ⟨x, hold, rfl⟩)
        · exact .inl rfl
    · exact fun hold => .inl hold

/-! ## Corrections -/

/-- The observation that a caller owns is the one with the pair. -/
theorem own_iff (h : attributed e) :
    (attributed e && decide (e.deliveryId = deliveryId) && decide (e.actor = some actor)) ↔
      pair e = (deliveryId, actor) := by
  cases hactor : e.actor with
  | none =>
    unfold attributed at h
    rw [hactor] at h
    cases h
  | some a => simp [h, pair, hactor]

variable {actor index now : Nat}

/-- The observation at the index of a pair, and the others without that pair. -/
theorem own_split (hdistinct : ((es.filter attributed).map pair).Nodup)
    (h : es.findIdx? (fun e => attributed e && e.deliveryId = deliveryId && e.actor = some actor) =
      some index) :
    ∃ before own after, es = before ++ own :: after ∧ before.length = index ∧
      attributed own ∧ pair own = (deliveryId, actor) ∧
      ∀ x ∈ before.filter attributed ++ after.filter attributed, pair x ≠ (deliveryId, actor) := by
  obtain ⟨hi, hown, -⟩ := findIdx?_eq_some_iff_getElem.mp h
  have hes : es = es.take index ++ es[index] :: es.drop (index + 1) := by
    rw [getElem_cons_drop, take_append_drop]
  have hattributed : attributed es[index] := by
    simp only [Bool.and_eq_true] at hown
    exact hown.1.1
  have hpair := (own_iff hattributed).mp hown
  refine ⟨_, _, _, hes, length_take_of_le hi.le, hattributed, hpair, fun x hx heq => ?_⟩
  rw [hes, filter_append, filter_cons_of_pos hattributed, map_append, map_cons, nodup_middle,
    nodup_cons, ← map_append, hpair, ← heq] at hdistinct
  exact hdistinct.1 (mem_map_of_mem hx)

/-- Changing the observation at the index of a pair changes the observations
with that pair and no other. -/
theorem filter_modify_own (hf : ∀ e, attributed (f e) = attributed e)
    (hdistinct : ((es.filter attributed).map pair).Nodup)
    (h : es.findIdx? (fun e => attributed e && e.deliveryId = deliveryId && e.actor = some actor) =
      some index) : (es.modify index f).filter attributed =
      (es.filter attributed).map (fun e => if pair e = (deliveryId, actor) then f e else e) := by
  obtain ⟨before, own, after, rfl, rfl, hattributed, hpair, hothers⟩ := own_split hdistinct h
  have hsame : ∀ l ⊆ before.filter attributed ++ after.filter attributed,
      l.map (fun e => if pair e = (deliveryId, actor) then f e else e) = l := by
    intro l hl
    rw [map_congr_left (fun x hx => if_neg (hothers x (hl hx))), map_id']
  have hmodify : ∀ l, (l ++ own :: after).modify l.length f = l ++ f own :: after := by
    intro l
    induction l with
    | nil => rfl
    | cons e l ih => exact congrArg (e :: ·) ih
  rw [hmodify, filter_append, filter_append, filter_cons_of_pos ((hf own).trans hattributed),
    filter_cons_of_pos hattributed, map_append, map_cons, if_pos hpair,
    hsame _ (subset_append_left _ _), hsame _ (subset_append_right _ _)]

theorem filter_eraseIdx_own (hdistinct : ((es.filter attributed).map pair).Nodup)
    (h : es.findIdx? (fun e => attributed e && e.deliveryId = deliveryId && e.actor = some actor) =
      some index) :
    (es.eraseIdx index).filter attributed =
      (es.filter attributed).filter (fun e => pair e ≠ (deliveryId, actor)) := by
  obtain ⟨before, own, after, rfl, rfl, hattributed, hpair, hothers⟩ := own_split hdistinct h
  have hkept := filter_eq_self.mpr (fun x hx => decide_eq_true (hothers x hx))
  rw [filter_append] at hkept
  rw [eraseIdx_append_of_length_le le_rfl, Nat.sub_self, eraseIdx_cons_zero, filter_append,
    filter_append, filter_cons_of_pos hattributed, filter_append,
    filter_cons_of_neg (by simp [hpair]), hkept]

/-- What a correction asks of the window. -/
def correction (deliveryId actor : Nat) (feedback : Option WorkFeedback) (now : Nat) : Observed :=
  match feedback with
  | some feedback => .amend (deliveryId, actor) (fun e => { e with feedback, at_ := now })
  | none => .withdraw (deliveryId, actor)

/-- The observation of the caller that a correction finds. -/
theorem ownIndex_eq_some (h : p.ownIndex deliveryId actor = some index) :
    (deliveryId, actor) ∈ (observations p).map pair := by
  obtain ⟨hlt, hown, _⟩ := findIdx?_eq_some_iff_getElem.mp h
  have hattributed : attributed p.evidence[index] := by
    simp only [Bool.and_eq_true] at hown
    exact hown.1.1
  rw [← (own_iff hattributed).mp hown]
  exact mem_map_of_mem (mem_filter.mpr ⟨List.getElem_mem hlt, hattributed⟩)

/-- A correction of the own observation is one change of the window. -/
theorem memory_correction (hp : Sound p)
    (h : p.ownIndex deliveryId actor = some index) (feedback : Option WorkFeedback) (now : Nat) :
    memory { p.rememberObservations with
        evidence := match feedback with
          | some feedback => p.evidence.modify index (fun e => { e with feedback, at_ := now })
          | none => p.evidence.eraseIdx index } =
      (memory p).apply pair maxObservations (correction deliveryId actor feedback now) := by
  have hdistinct : ((p.evidence.filter attributed).map pair).Nodup := hp.distinct
  have hunion : ∀ es : List PreferenceEvidence, (∀ e ∈ es, pair e ∈ (observations p).map pair) →
      p.rememberObservations.observedDeliveries ∪ (es.map pair).toFinset = (memory p).seen := by
    intro es hes
    apply Finset.union_eq_left.mpr
    intro k hk
    obtain ⟨e, he, rfl⟩ := mem_map.mp (mem_toFinset.mp hk)
    exact Finset.mem_union_right _ (mem_toFinset.mpr (hes e he))
  cases feedback with
  | some feedback =>
    have hkept := filter_modify_own (f := fun e => { e with feedback, at_ := now })
      (fun _ => rfl) hdistinct h
    have hkeys : ((observations p).map (fun e => if pair e = (deliveryId, actor) then
        { e with feedback, at_ := now } else e)).map pair = (observations p).map pair :=
      map_key_amend _ _ (fun _ => rfl)
    unfold memory apply record correction observations
    dsimp only
    rw [hkept]
    congr 1
    · rw [rtake_of_length_le]
      rw [length_map]
      exact hp.bounded
    · apply hunion
      intro e he
      rw [← hkeys]
      exact mem_map_of_mem he
  | none =>
    have hkept := filter_eraseIdx_own hdistinct h
    unfold memory apply record correction observations
    dsimp only
    rw [hkept]
    congr 1
    · rw [rtake_of_length_le]
      exact Nat.le_trans (length_filter_le _ _) hp.bounded
    · apply hunion
      intro e he
      exact mem_map_of_mem (mem_filter.mp he).1

/-! ## The functions of a profile -/

/-- What an accepted call of `feedback` asks of the window. -/
def asked (access : WorkAccess) (kind : Option WorkDeliveryKind) (deliveryId : Nat)
    (feedback : Option WorkFeedback) (isCorrection : Bool) (now : Nat) : Option Observed :=
  if isCorrection then some (correction deliveryId access.actor feedback now)
  else feedback.map (fun feedback =>
    .accept ⟨some access.actor, some access.scope, kind, deliveryId, feedback, now⟩)

/-- The window after an optional change. -/
def changed (w : Observations) (c : Option Observed) : Observations :=
  c.elim w (w.apply pair maxObservations)

theorem feedback_error {e : WorkError}
    (h : p.feedback access kind deliveryId feedback isCorrection now = (p', .error e)) :
    p' = p := by
  unfold WorkPreferenceProfile.feedback at h
  split at h
  · split at h
    · cases h
      rfl
    · cases h
  · split at h
    · cases h
      rfl
    · split at h
      · cases h
        rfl
      · cases h

theorem derived_feedback
    (h : p.feedback access kind deliveryId feedback isCorrection now = (p', .ok ())) :
    Derived p' := by
  unfold WorkPreferenceProfile.feedback at h
  split at h
  · split at h
    · cases h
    · cases h
      exact derived_recompute _
  · split at h
    · cases h
    · split at h
      · cases h
      · cases h
        exact derived_recompute _

/-- An accepted call is the change that it asks for. -/
theorem memory_feedback (hp : Sound p) (hactor : access.actor ≠ 0) (hkind : kind.isSome)
    (h : p.feedback access kind deliveryId feedback isCorrection now = (p', .ok ())) :
    memory p' = changed (memory p) (asked access kind deliveryId feedback isCorrection now) ∧
      (isCorrection = true → (deliveryId, access.actor) ∈ (observations p).map pair) := by
  unfold WorkPreferenceProfile.feedback at h
  unfold asked changed
  cases isCorrection with
  | true =>
    simp only [if_true] at h ⊢
    cases hindex : p.ownIndex deliveryId access.actor with
    | none =>
      rw [hindex] at h
      cases h
    | some index =>
      rw [hindex] at h
      dsimp only at h
      rw [Prod.mk.injEq] at h
      rw [← h.1, memory_recompute]
      exact ⟨memory_correction hp hindex feedback now, fun _ => ownIndex_eq_some hindex⟩
  | false =>
    simp only [Bool.false_eq_true, if_false] at h ⊢
    cases feedback with
    | none => cases h
    | some feedback =>
      dsimp only at h
      cases hobserve : p.observe
          ⟨some access.actor, some access.scope, kind, deliveryId, feedback, now⟩ with
      | error e =>
        rw [hobserve] at h
        cases h
      | ok q =>
        rw [hobserve] at h
        dsimp only at h
        rw [Prod.mk.injEq] at h
        rw [← h.1, memory_recompute]
        have hattributed : attributed
            ⟨some access.actor, some access.scope, kind, deliveryId, feedback, now⟩ := by
          simp [attributed, hactor, hkind]
        exact ⟨memory_observe hp hattributed hobserve, fun hfalse => absurd hfalse (by simp)⟩

theorem memory_control (p : WorkPreferenceProfile) (enabled : Option Bool)
    (explicitHour : Option (Option Nat)) (reset : Bool) :
    memory (p.control enabled explicitHour reset) =
      changed (memory p) (if reset then some .clear else none) := by
  unfold WorkPreferenceProfile.control
  dsimp only
  rw [memory_recompute]
  cases reset with
  | true =>
    simp only [if_true]
    rw [memory_reset]
    rfl
  | false => rfl

end Abbey.Work
