import Abbey.Continuity.Commit
import Abbey.Lib.System

/-!
# The capacity of the live store

A confirmation counts the cards that are not expired, in a snapshot that
drops the others; the live store takes the new card and keeps the expired
ones.  The loader counts every card.  `Sound` bounds the scopes that have a
card or are about to get one (`claimed`), and every command keeps it as long
as a confirmation finds room among them (`roomy`).
-/

namespace Abbey.Continuity

open Abbey.Lib Abbey.Run ContinuityStore List

variable {s : AppState} {scope : WorkScope}
variable {t : AppState} {bound : Finset WorkScope}

/-! ## The claimed scopes -/

/-- The scopes that a pending publication gives a card. -/
def desiredScopes (safety : ContinuitySafety) : Finset WorkScope :=
  ((safety.pending.rows.filter (fun op => op.desired.isSome)).map
    PendingPublication.scope).toFinset

def claimed (s : AppState) : Finset WorkScope := s.continuity.scopes ∪ desiredScopes s.safety

theorem mem_desiredScopes : scope ∈ desiredScopes safety ↔
      ∃ op, safety.pending.find scope = some op ∧ op.desired.isSome := by
  unfold desiredScopes
  rw [mem_toFinset, mem_map]
  constructor
  · rintro ⟨op, hop, rfl⟩
    obtain ⟨hmem, hdesired⟩ := mem_filter.mp hop
    exact ⟨op, Table.mem_rows_iff_find.mp hmem, hdesired⟩
  · rintro ⟨op, hop, hdesired⟩
    exact ⟨op, mem_filter.mpr ⟨Table.mem_rows_of_find hop, hdesired⟩, Table.pk_of_find hop⟩

theorem mem_claimed : scope ∈ claimed s ↔ (s.continuity.card scope).isSome ∨
      ∃ op, s.safety.pending.find scope = some op ∧ op.desired.isSome := by
  rw [claimed, Finset.mem_union, mem_scopes, mem_desiredScopes]

/-- The publications that are under way fit the live store, and the scopes
of both are in `bound`. -/
structure Fits (bound : Finset WorkScope) (s : AppState) : Prop where
  valid : s.continuity.Valid
  expected : ∀ scope op, s.safety.pending.find scope = some op →
    s.continuity.card scope = op.expected ∨ s.continuity.card scope = op.desired
  desired : ∀ scope op card, s.safety.pending.find scope = some op → op.desired = some card →
    card.scope = scope ∧ validateCard card = .ok ()
  within : claimed s ⊆ bound

/-- There is room for the cards and for those that are under way. -/
def Sound (s : AppState) : Prop := ∃ bound, bound.card ≤ maxCards ∧ Fits bound s

/-- The cards, the pending publications and the work records are the same. -/
def Frozen (s t : AppState) : Prop :=
  t.continuity = s.continuity ∧ t.safety.pending = s.safety.pending ∧ t.work = s.work

theorem Frozen.refl (s : AppState) : Frozen s s := ⟨rfl, rfl, rfl⟩

theorem claimed_of_frozen (h : Frozen s t) : claimed t = claimed s := by
  obtain ⟨hcards, hpending, _⟩ := h
  unfold claimed desiredScopes
  rw [hcards, hpending]

theorem Fits.frozen (h : Fits bound s) (hfrozen : Frozen s t) : Fits bound t := by
  have hclaimed := claimed_of_frozen hfrozen
  obtain ⟨hcards, hpending, _⟩ := hfrozen
  refine ⟨by rw [hcards]; exact h.valid, ?_, ?_, by rw [hclaimed]; exact h.within⟩
  · rw [hcards, hpending]
    exact h.expected
  · rw [hpending]
    exact h.desired

theorem Fits.mono (h : Fits bound s) (hsub : bound ⊆ bound') : Fits bound' s :=
  ⟨h.valid, h.expected, h.desired, h.within.trans hsub⟩

theorem Sound.claimed (h : Sound s) : Fits (claimed s) s ∧ (claimed s).card ≤ maxCards := by
  obtain ⟨bound, hroom, hfits⟩ := h
  exact ⟨⟨hfits.valid, hfits.expected, hfits.desired, Finset.Subset.refl _⟩,
    (Finset.card_le_card hfits.within).trans hroom⟩

theorem Sound.frozen (h : Sound s) (hfrozen : Frozen s t) : Sound t := by
  obtain ⟨bound, hroom, hfits⟩ := h
  exact ⟨bound, hroom, hfits.frozen hfrozen⟩

/-! ## Snapshots -/

/-- A card in a snapshot: the one that is being published, or the live one. -/
def overlaid (s : AppState) (scope : WorkScope) : Option ContinuityCard :=
  match s.safety.pending.find scope with
  | some op => op.desired
  | none => s.continuity.card scope

theorem overlayPending_ok {ops : List PendingPublication} (cards : ContinuityStore)
    (hexpected : ∀ op ∈ ops, cards.card op.scope = op.expected ∨ cards.card op.scope = op.desired)
    (hdesired : ∀ op ∈ ops, ∀ card, op.desired = some card → card.scope = op.scope ∧
      validateCard card = .ok ())
    (hnodup : (ops.map PendingPublication.scope).Nodup) :
    ∃ cards', ops.foldlM overlayPending cards = .ok cards' ∧
      ∀ scope, cards'.card scope = match ops.find? (fun op => op.scope = scope) with
        | some op => op.desired
        | none => cards.card scope := by
  induction ops generalizing cards with
  | nil => exact ⟨cards, rfl, fun scope => rfl⟩
  | cons op ops ih =>
    rw [map_cons, nodup_cons] at hnodup
    obtain ⟨mid, hmid⟩ := replaceExact_ok (hexpected op mem_cons_self)
      (hdesired op mem_cons_self)
    have hcard := card_replaceExact hmid
    have hother : ∀ later ∈ ops, mid.card later.scope = later.expected ∨
        mid.card later.scope = later.desired := by
      intro later hlater
      have hne : later.scope ≠ op.scope :=
        fun heq => hnodup.1 (heq ▸ mem_map_of_mem hlater)
      rw [hcard, if_neg hne]
      exact hexpected later (mem_cons_of_mem op hlater)
    obtain ⟨cards', hfold, hcards'⟩ := ih mid hother
      (fun later hlater => hdesired later (mem_cons_of_mem op hlater)) hnodup.2
    refine ⟨cards', ?_, fun scope => ?_⟩
    · rw [foldlM_cons, show overlayPending cards op = .ok mid from hmid]
      exact hfold
    · rw [hcards', find?_cons]
      by_cases hscope : op.scope = scope
      · have hnone : ops.find? (fun later => later.scope = scope) = none := by
          rw [find?_eq_none]
          intro later hlater heq
          refine hnodup.1 (mem_map.mpr ⟨later, hlater, ?_⟩)
          rw [hscope]
          simpa using heq
        rw [hnone, decide_eq_true hscope]
        show mid.card scope = op.desired
        rw [hcard, if_pos hscope.symm]
      · rw [decide_eq_false hscope]
        cases ops.find? (fun later => later.scope = scope) with
        | some later => rfl
        | none =>
          show mid.card scope = cards.card scope
          rw [hcard, if_neg (Ne.symm hscope)]

/-- A snapshot holds the overlaid cards. -/
theorem Fits.snapshot (h : Fits bound s) :
    ∃ cards, takeSnapshot s = (s, ⟨cards, s.work, false⟩) ∧ cards.Valid ∧
      (∀ scope, cards.card scope = overlaid s scope) ∧ cards.scopes ⊆ bound := by
  obtain ⟨cards, hfold, hcards⟩ := overlayPending_ok s.continuity
    (fun op hop => h.expected op.scope op (Table.mem_rows_iff_find.mp hop))
    (fun op hop card => h.desired op.scope op card (Table.mem_rows_iff_find.mp hop))
    s.safety.pending.nodup
  have hoverlaid : ∀ scope, cards.card scope = overlaid s scope := hcards
  refine ⟨cards, ?_, fun scope card hcard => ?_, hoverlaid, fun scope hscope => h.within ?_⟩
  · unfold takeSnapshot overlayContinuity
    rw [hfold]
  · rw [hoverlaid] at hcard
    unfold overlaid at hcard
    split at hcard
    · exact (h.desired scope _ card ‹_› hcard).2
    · exact h.valid scope card hcard
  · rw [mem_scopes, hoverlaid] at hscope
    unfold overlaid at hscope
    rw [mem_claimed]
    split at hscope
    · exact .inr ⟨_, ‹_›, hscope⟩
    · exact .inl hscope

/-- A store with room for its valid cards is never what a publication fails of. -/
theorem persistCanonicalOwned_of_room
    (hprepared : stores.canonicalPreparationFailed = false) (hvalid : stores.continuity.Valid)
    (hroom : stores.continuity.scopes.card ≤ maxCards) :
    persistCanonicalOwned rest stores = rest := by
  unfold persistCanonicalOwned
  rw [hprepared, deserialize_serialize hvalid, if_pos (by rwa [length_eq_card_scopes])]
  rfl

/-! ## Steps that leave the cards alone -/

section Frozen

variable {bound : Finset WorkScope} {s₀ : AppState}
variable {f : ContinuitySafety → ContinuitySafety}

theorem updateSafety_frozen (hf : ∀ safety, (f safety).pending = safety.pending) :
    Keeps (Frozen s₀) (updateSafety f) := by
  apply keeps_commit
  intro s t a hs ht
  cases ht
  obtain ⟨hcards, hpending, hwork⟩ := hs
  exact ⟨hcards, (hf s.safety).trans hpending, hwork⟩

theorem updateSafety_keeps (hf : ∀ safety, (f safety).pending = safety.pending) :
    Keeps (Fits bound) (updateSafety f) := by
  apply keeps_commit
  intro s t a hs ht
  cases ht
  exact hs.frozen ⟨rfl, hf s.safety, rfl⟩

theorem unfence_pending (scope : WorkScope) (safety : ContinuitySafety) :
    (safety.unfence scope).pending = safety.pending := by
  unfold ContinuitySafety.unfence
  split_ifs
  · rfl
  · rfl

theorem fenceContinuity_frozen (cards : List ContinuityCard) :
    Keeps (Frozen s₀) (fenceContinuity cards) := by
  refine Keeps.bind (updateSafety_frozen fun safety => by rfl) fun _ =>
    keeps_read.bind fun _ => Keeps.bind ?_ fun _ => keeps_lift
  apply keeps_commit
  intro s t a hs ht
  cases ht
  exact hs

theorem abandonCard_frozen (card : ContinuityCard) : Keeps (Frozen s₀) (abandonCard card) := by
  unfold abandonCard
  split_ifs
  · exact (fenceContinuity_frozen [card]).bind fun _ => updateSafety_frozen fun safety => rfl
  · exact keeps_pure

theorem manages_keeps {P : AppState → Prop} (access : Except WorkError WorkAccess)
    (scope : WorkScope) (nativeActor : Option (Nat × Nat)) :
    Keeps P (manages access scope nativeActor) := by
  cases nativeActor with
  | none => exact keeps_pure
  | some native =>
    exact keeps_lift.bind fun _ => keeps_read.bind fun _ => keeps_pure

theorem admitContinuityForget_frozen (host : Host) (env : ForgetEnv) (card : ContinuityCard)
    (nativeActor : Option (Nat × Nat)) :
    Keeps (Frozen s₀) (admitContinuityForget host env card nativeActor) := by
  unfold admitContinuityForget
  cases card.episodeReceipt with
  | none => exact keeps_pure
  | some receipt =>
    refine keeps_lift.bind fun _ => keeps_read.bind fun memo => ?_
    by_cases hforgotten : memo.any Prod.snd
    · rw [if_pos hforgotten]
      exact keeps_pure
    · rw [if_neg hforgotten]
      refine keeps_read.bind fun _ => Keeps.bind (updateSafety_frozen ?_) fun _ => ?_
      · intro safety
        split_ifs
        · rfl
        · rfl
      · cases env.verified with
        | forgotten => exact keeps_pure
        | unknown => exact keeps_lift
        | live =>
          exact (manages_keeps _ _ _).bind fun _ => keeps_lift.bind fun _ =>
            keeps_lift.bind fun _ => Keeps.bind (updateSafety_frozen fun safety => by rfl)
              fun _ => keeps_pure

theorem eraseContinuityOrphan_frozen (host : Host) (env : ContinuityCard → ForgetEnv)
    (scope : WorkScope) (nativeActor : Option (Nat × Nat)) :
    Keeps (Frozen s₀) (eraseContinuityOrphan host env scope nativeActor) := by
  refine keeps_read.bind fun orphan => ?_
  cases orphan with
  | none => exact keeps_pure
  | some card =>
    exact (admitContinuityForget_frozen _ _ _ _).bind fun _ => (manages_keeps _ _ _).bind fun _ =>
      keeps_read.bind fun _ => updateSafety_frozen fun safety => rfl

/-- What keeps the cards keeps the bound. -/
theorem keeps_fits {α : Type} {x : Commit α} (h : ∀ s₀, Keeps (Frozen s₀) x) :
    Keeps (Fits bound) x :=
  fun s t hs hcrash => hs.frozen (h s s t (.refl s) hcrash)

theorem takeSnapshot_frozen (h : Fits bound s) (hfrozen : Frozen s t) :
    takeSnapshot t = (t, (takeSnapshot s).2) := by
  obtain ⟨cards, hsnapshot, _⟩ := h.snapshot
  obtain ⟨cards', hsnapshot', _⟩ := (h.frozen hfrozen).snapshot
  obtain ⟨hcards, hpending, hwork⟩ := hfrozen
  have hoverlay : overlayContinuity t.safety t.continuity =
      overlayContinuity s.safety s.continuity := by
    unfold overlayContinuity
    rw [hpending, hcards]
  unfold takeSnapshot at hsnapshot hsnapshot' ⊢
  rw [hoverlay] at hsnapshot' ⊢
  cases hcase : overlayContinuity s.safety s.continuity with
  | ok cards => rw [hwork]
  | error failure =>
    rw [hcase] at hsnapshot
    cases congrArg (fun result => result.2.canonicalPreparationFailed) hsnapshot

/-- A snapshot can be prepared, and it is the one of the start. -/
theorem preparedSnapshot_upholds (h : Fits bound s₀) :
    Upholds (Frozen s₀) (Frozen s₀) preparedSnapshot
      (fun snapshot t => Frozen s₀ t ∧ snapshot = (takeSnapshot s₀).2) := by
  have htake : Upholds (Frozen s₀) (Frozen s₀)
      (.commit (fun s => .ok (takeSnapshot s)) : Commit Stores)
      (fun snapshot t => Frozen s₀ t ∧ snapshot = (takeSnapshot s₀).2) := by
    apply upholds_commit fun _ hs => hs
    intro s t snapshot hs ht
    rw [takeSnapshot_frozen h hs] at ht
    cases ht
    exact ⟨hs, hs, rfl⟩
  exact htake.bind fun snapshot =>
    (upholds_lift (fun _ hs => hs.1) fun _ _ hs _ => hs).bind fun _ =>
      upholds_pure (fun _ hs => hs.1) fun _ hs => hs

end Frozen

end Abbey.Continuity
