import Abbey.Continuity.Capacity

/-!
# Publications keep the bound

A publication is staged, published and settled.  `stage_upholds` and
`publish_upholds` say that the scopes with a card or with one under way stay
in a given set when the staged scope is in it; `removeCards_upholds` carries
this through the loop of an erasure.
-/

namespace Abbey.Continuity

open Abbey.Lib Abbey.Run ContinuityStore Except List

variable {bound : Finset WorkScope} {s t s₀ : AppState} {scope : WorkScope}
variable {expected : Option ContinuityCard}

/-! ## One publication -/

/-- A publication is noted for a scope whose card it expects. -/
theorem Fits.stage {desired : Option ContinuityCard} (h : Fits bound s)
    (hexpected : s.continuity.card scope = expected)
    (hdesired : ∀ card, desired = some card → card.scope = scope ∧ validateCard card = .ok ())
    (hscope : desired.isSome → scope ∈ bound) (hcards : t.continuity = s.continuity)
    (hpending : t.safety.pending = s.safety.pending.put ⟨scope, memo, expected, desired⟩) :
    Fits bound t := by
  have hfind : ∀ other, t.safety.pending.find other = if scope = other
      then some ⟨scope, memo, expected, desired⟩ else s.safety.pending.find other := by
    intro other
    rw [hpending]
    exact Table.find_put _ _ _
  refine ⟨by rw [hcards]; exact h.valid, ?_, ?_, ?_⟩
  · intro other op hop
    rw [hcards]
    rw [hfind] at hop
    split_ifs at hop with hother
    · cases hop
      exact .inl (hother ▸ hexpected)
    · exact h.expected other op hop
  · intro other op card hop hcard
    rw [hfind] at hop
    split_ifs at hop with hother
    · cases hop
      exact hother ▸ hdesired card hcard
    · exact h.desired other op card hop hcard
  · intro other hother
    rw [mem_claimed, hcards, hfind] at hother
    rcases hother with hlive | ⟨op, hop, hsome⟩
    · exact h.within (mem_claimed.mpr (.inl hlive))
    · split_ifs at hop with hsame
      · cases hop
        exact hsame ▸ hscope hsome
      · exact h.within (mem_claimed.mpr (.inr ⟨op, hop, hsome⟩))

/-- The live store takes the card of a publication. -/
theorem Fits.replace {cards : ContinuityStore} (h : Fits bound s)
    (hop : s.safety.pending.find scope = some op)
    (hcards : s.continuity.replaceExact scope op.expected op.desired = .ok cards) :
    Fits bound { s with continuity := cards } := by
  have hcard := card_replaceExact hcards
  refine ⟨?_, ?_, h.desired, ?_⟩
  · intro other card hlive
    rw [hcard] at hlive
    split_ifs at hlive
    · exact (h.desired scope op card hop hlive).2
    · exact h.valid other card hlive
  · intro other op' hop'
    show cards.card other = _ ∨ cards.card other = _
    rw [hcard]
    split_ifs with hother
    · rw [hother] at hop'
      cases hop.symm.trans hop'
      exact .inr rfl
    · exact h.expected other op' hop'
  · intro other hother
    apply h.within
    rw [mem_claimed] at hother ⊢
    rcases hother with hlive | hdesired
    · rw [hcard] at hlive
      split_ifs at hlive with hsame
      · exact .inr ⟨op, hsame ▸ hop, hlive⟩
      · exact .inl hlive
    · exact .inr hdesired

/-- A publication is settled. -/
theorem Fits.settle (h : Fits bound s) (hcards : t.continuity = s.continuity)
    (hpending : t.safety.pending = s.safety.pending.delete (fun op => op.scope = scope)) :
    Fits bound t := by
  have hfind : ∀ other op, t.safety.pending.find other = some op →
      s.safety.pending.find other = some op := by
    intro other op hop
    rw [hpending, Table.find_delete_key] at hop
    split_ifs at hop
    exact hop
  refine ⟨by rw [hcards]; exact h.valid, ?_, ?_, ?_⟩
  · intro other op hop
    rw [hcards]
    exact h.expected other op (hfind other op hop)
  · intro other op card hop
    exact h.desired other op card (hfind other op hop)
  · intro other hother
    apply h.within
    rw [mem_claimed] at hother ⊢
    rw [hcards] at hother
    refine hother.imp_right ?_
    rintro ⟨op, hop, hsome⟩
    exact ⟨op, hfind other op hop, hsome⟩

/-- A publication of a card is under way, over a live store. -/
structure Staged (bound : Finset WorkScope) (live : ContinuityStore) (scope : WorkScope)
    (desired : Option ContinuityCard) (s : AppState) : Prop where
  fits : Fits bound s
  live : s.continuity = live
  pending : ∃ op, s.safety.pending.find scope = some op ∧ op.desired = desired

/-- The live store differs at most under one scope. -/
structure Published (bound : Finset WorkScope) (live : ContinuityStore) (scope : WorkScope)
    (s : AppState) : Prop where
  fits : Fits bound s
  others : ∀ other, other ≠ scope → s.continuity.card other = live.card other

theorem stage_upholds (desired : Option ContinuityCard) (memo : Option String) (h : Fits bound s₀)
    (hexpected : s₀.continuity.card scope = expected)
    (hdesired : ∀ card, desired = some card → card.scope = scope ∧ validateCard card = .ok ())
    (hscope : desired.isSome → scope ∈ bound) :
    Upholds (Fits bound) (Frozen s₀) (stageContinuity scope expected desired memo)
      (fun _ => Staged bound s₀.continuity scope desired) := by
  have hnote : Upholds (Fits bound) (Frozen s₀)
      (updateSafety (fun safety => { safety.bump with
        blocked := insert scope safety.blocked
        pending := safety.pending.put ⟨scope, memo, expected, desired⟩ }))
      (fun _ => Staged bound s₀.continuity scope desired) := by
    apply upholds_commit fun s hs => h.frozen hs
    intro s t a hs ht
    have ht : t = _ := (congrArg Prod.fst (ok.inj ht)).symm
    have hpending : t.safety.pending =
        s.safety.pending.put ⟨scope, memo, expected, desired⟩ := by rw [ht]
    have hcards : t.continuity = s.continuity := by rw [ht]
    have hfits : Fits bound t := (h.frozen hs).stage (by rw [hs.1]; exact hexpected) hdesired
      hscope hcards hpending
    refine ⟨hfits, hfits, hcards.trans hs.1, ⟨scope, memo, expected, desired⟩, ?_, rfl⟩
    rw [hpending, Table.find_put, if_pos rfl]
  exact (upholds_read (fun s hs => h.frozen hs) fun _ _ hs _ => hs).bind fun _ =>
    hnote.bind fun _ => upholds_read (fun _ hs => hs.fits) fun _ _ hs _ => hs

theorem publish_upholds (bound : Finset WorkScope) (scope : WorkScope) (outside : Outside)
    (snapshot : Stores) (live : ContinuityStore) :
    Upholds (Fits bound) (Staged bound live scope (snapshot.continuity.card scope))
      (publishContinuity outside snapshot scope) (fun _ => Published bound live scope) := by
  have hreplace : ∀ op : PendingPublication, Upholds (Fits bound)
      (fun s => Staged bound live scope (snapshot.continuity.card scope) s ∧
        s.safety.pending.find scope = some op)
      (.commit (fun s => do
        let cards ← s.continuity.replaceExact scope op.expected (snapshot.continuity.card scope)
        .ok ({ s with continuity := cards }, ())))
      (fun _ => Published bound live scope) := by
    intro op
    apply upholds_commit fun _ hs => hs.1.fits
    intro s t a ⟨hstaged, hop⟩ ht
    obtain ⟨cards, hcards, ht⟩ := bind_ok_iff.mp ht
    obtain ⟨op', hop', hdesired⟩ := hstaged.pending
    cases hop.symm.trans hop'
    cases ht
    have hfits := hstaged.fits.replace hop (hdesired ▸ hcards)
    refine ⟨hfits, hfits, fun other hother => ?_⟩
    show cards.card other = live.card other
    rw [card_replaceExact hcards, if_neg hother, hstaged.live]
  have hsettle : ∀ op : PendingPublication, Upholds (Fits bound) (Published bound live scope)
      (updateSafety (fun safety => ContinuitySafety.unfence scope { safety with
        pending := safety.pending.delete (fun op => op.scope = scope)
        forgets := safety.forgets.delete (fun row => some row.1 = op.forgetMemo) }))
      (fun _ => Published bound live scope) := by
    intro op
    apply upholds_commit fun _ hs => hs.fits
    intro s t a hs ht
    have ht : t = _ := (congrArg Prod.fst (ok.inj ht)).symm
    have hcards : t.continuity = s.continuity := by rw [ht]
    have hfits : Fits bound t := hs.fits.settle hcards (by rw [ht]; exact unfence_pending _ _)
    exact ⟨hfits, hfits, fun other hother => by rw [hcards]; exact hs.others other hother⟩
  refine (upholds_lift (fun _ hs => hs.fits) fun _ _ hs _ => hs).bind fun _ =>
    (upholds_lift (fun _ hs => hs.fits) fun _ _ hs _ => hs).bind fun _ =>
    (upholds_lift (fun _ hs => hs.fits) fun _ _ hs _ => hs).bind fun _ => ?_
  have hread : Upholds (Fits bound) (Staged bound live scope (snapshot.continuity.card scope))
      (.read (fun s => required (s.safety.pending.find scope) .stale) : Commit PendingPublication)
      (fun op s => Staged bound live scope (snapshot.continuity.card scope) s ∧
        s.safety.pending.find scope = some op) :=
    upholds_read (fun _ hs => hs.fits) fun s op hs hop => ⟨hs, required_eq_ok.mp hop⟩
  exact hread.bind fun op => (hreplace op).bind fun _ => (hsettle op).bind fun _ =>
    upholds_lift (fun _ hs => hs.fits) fun _ _ hs _ => hs

/-! ## Removals -/

/-- The cards that an erasure still has to remove are in the live store. -/
structure Removing (bound : Finset WorkScope) (cards : List ContinuityCard) (s : AppState) :
    Prop where
  fits : Fits bound s
  distinct : (cards.map ContinuityCard.scope).Nodup
  live : ∀ card ∈ cards, s.continuity.card card.scope = some card

theorem Removing.frozen {cards : List ContinuityCard} (h : Removing bound cards s)
    (hfrozen : Frozen s t) : Removing bound cards t :=
  ⟨h.fits.frozen hfrozen, h.distinct, by rw [hfrozen.1]; exact h.live⟩

theorem removeCard_upholds (host : Host) (env : ForgetEnv) (nativeActor : Option (Nat × Nat))
    (card : ContinuityCard) (cards : List ContinuityCard) :
    Upholds (Fits bound) (Removing bound (card :: cards))
      (eraseContinuityTarget host env nativeActor card) (fun _ => Removing bound cards) := by
  apply upholds_of_states
  intro s₀ h
  have hfits : ∀ s, Frozen s₀ s → Fits bound s := fun s hs => h.fits.frozen hs
  have hfrozen : ∀ {α : Type} {x : Commit α}, Keeps (Frozen s₀) x →
      Upholds (Fits bound) (Frozen s₀) x (fun _ => Frozen s₀) :=
    fun hx => hx.upholds.imp hfits fun _ _ hs => hs
  have hsnapshot := (preparedSnapshot_upholds h.fits).imp hfits fun _ _ hs => hs
  have hcard := h.live card mem_cons_self
  have hdistinct := nodup_cons.mp h.distinct
  have hstage : ∀ (snapshot : Stores) (memo : Option String) (left : ContinuityStore),
      snapshot.continuity.removeExact card = .ok left → Upholds (Fits bound) (Frozen s₀)
        (do
          stageContinuity card.scope (some card) none memo
          publishContinuity env.outside { snapshot with continuity := left } card.scope
          updateSafety (ContinuitySafety.dropMemo memo))
        (fun _ => Removing bound cards) := by
    intro snapshot memo left hleft
    have hnone : left.card card.scope = none := by rw [removeExact_ok hleft, if_pos rfl]
    have hpublish := publish_upholds bound card.scope env.outside
      { snapshot with continuity := left } s₀.continuity
    have hdrop : Upholds (Fits bound) (Published bound s₀.continuity card.scope)
        (updateSafety (ContinuitySafety.dropMemo memo)) (fun _ => Removing bound cards) := by
      apply upholds_commit fun _ hs => hs.fits
      intro s t a hs ht
      have ht : t = _ := (congrArg Prod.fst (ok.inj ht)).symm
      have hfits : Fits bound t := hs.fits.frozen (by rw [ht]; exact ⟨rfl, rfl, rfl⟩)
      refine ⟨hfits, hfits, hdistinct.2, fun other hother => ?_⟩
      have hne : other.scope ≠ card.scope :=
        fun heq => hdistinct.1 (heq ▸ mem_map_of_mem hother)
      rw [show t.continuity = s.continuity by rw [ht], hs.others other.scope hne]
      exact h.live other (mem_cons_of_mem card hother)
    exact (stage_upholds none memo h.fits hcard (by simp) (by simp)).bind fun _ =>
      (hpublish.pre fun _ hs => hnone.symm ▸ hs).bind fun _ => hdrop
  have hrun : Upholds (Fits bound) (Frozen s₀) (eraseContinuityTarget host env nativeActor card)
      (fun _ => Removing bound cards) := by
    refine hsnapshot.bind fun _ => Upholds.pre ?_ fun _ hs => hs.1
    refine (hfrozen (admitContinuityForget_frozen host env card nativeActor)).bind fun memo => ?_
    refine (hfrozen (manages_keeps _ _ _)).bind fun _ => ?_
    refine hsnapshot.bind fun snapshot => Upholds.pre ?_ fun _ hs => hs.1
    have hremove : Upholds (Fits bound) (Frozen s₀)
        (.lift (snapshot.continuity.removeExact card) : Commit ContinuityStore)
        (fun left s => Frozen s₀ s ∧ snapshot.continuity.removeExact card = .ok left) :=
      upholds_lift hfits fun _ _ hs hleft => ⟨hs, hleft⟩
    refine hremove.bind fun left => upholds_of_states fun s hs => ?_
    exact (hstage snapshot memo left hs.2).pre fun _ heq => heq ▸ hs.1
  exact hrun.pre fun _ heq => heq ▸ .refl s₀

theorem removeCards_upholds (host : Host) (env : ContinuityCard → ForgetEnv)
    (cards : List ContinuityCard) (nativeActor : Option (Nat × Nat)) :
    Upholds (Fits bound) (Removing bound cards) (eraseContinuityTargets host env cards nativeActor)
      (fun _ => Fits bound) := by
  have hfence : Upholds (Fits bound) (Removing bound cards) (fenceContinuity cards)
      (fun _ => Removing bound cards) := by
    apply upholds_of_states
    intro s h
    exact ((fenceContinuity_frozen cards).upholds.imp (fun _ ht => h.fits.frozen ht)
      fun _ _ ht => h.frozen ht).pre fun _ heq => heq ▸ .refl s
  exact hfence.bind fun _ => (upholds_forM (fun _ hs => hs.fits)
    fun card cards => removeCard_upholds host (env card) nativeActor card cards).bind
    fun _ => upholds_pure (fun _ hs => hs.fits) fun _ hs => hs.fits

end Abbey.Continuity
