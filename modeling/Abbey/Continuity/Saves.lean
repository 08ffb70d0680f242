import Abbey.Continuity.Publication

/-!
# Continuity cards and the saves of a run

Clearing, erasure, work edits and snapshots keep every bound on the claimed
scopes; a confirmation adds its own scope (`confirm_keeps`).  As long as a
confirmation that the store takes finds room among all claimed scopes,
expired cards included, no save fails of the cards (`cards_never_stop_saves`).
The confirmation itself does not count the expired cards of the live store,
so a run can leave one card too many in it (`expired_cards_stop_saves`).
-/

namespace Abbey.Continuity

open Abbey.Lib Abbey.Run ContinuityStore ContinuityStore Finset

variable {bound : Finset WorkScope} {s t s₀ : AppState}
variable {cards : List ContinuityCard}

/-! ## Commands that add no scope -/

theorem reconcile_keeps (outside : Outside) (scope : WorkScope) :
    Keeps (Fits bound) (reconcileContinuity outside scope) := by
  refine Upholds.keeps (Q := fun _ => Fits bound) ?_
  apply upholds_of_states
  intro s₀ h
  have hread : Upholds (Fits bound) (· = s₀)
      (.read (fun s => .ok (s.safety.pending.find scope)) : Commit (Option PendingPublication))
      (fun op s => s = s₀ ∧ s₀.safety.pending.find scope = op) :=
    upholds_read (fun _ hs => hs ▸ h) fun s op hs hop => ⟨hs, by cases hop; rw [hs]⟩
  refine hread.bind fun operation => upholds_of_states ?_
  rintro s ⟨rfl, hoperation⟩
  cases operation with
  | none => exact upholds_pure (fun _ hs => hs ▸ h) fun _ hs => hs ▸ h
  | some op =>
    obtain ⟨cards, hsnapshot, _, hcards, _⟩ := h.snapshot
    have htake : Upholds (Fits bound) (· = s)
        (.commit (fun s => .ok (takeSnapshot s)) : Commit Stores)
        (fun snapshot t => Staged bound s.continuity scope (snapshot.continuity.card scope) t) := by
      apply upholds_commit fun _ hs => hs ▸ h
      rintro _ t snapshot rfl ht
      rw [hsnapshot] at ht
      cases ht
      refine ⟨h, h, rfl, op, hoperation, ?_⟩
      show op.desired = cards.card scope
      rw [hcards]
      unfold overlaid
      rw [hoperation]
    exact htake.bind fun snapshot => (publish_upholds bound scope outside snapshot s.continuity).bind fun _ =>
      upholds_pure (fun _ hs => hs.fits) fun _ hs => hs.fits

theorem Fits.removing (h : Fits bound s) (hcards : List.Sublist cards s.continuity.cards.rows) :
    Removing bound cards s :=
  ⟨h, s.continuity.cards.nodup.sublist (hcards.map ContinuityCard.scope),
    fun _ hcard => Table.mem_rows_iff_find.mp (hcards.subset hcard)⟩

theorem clear_keeps (host : Host) (env : ClearEnv) (scope : WorkScope) (actor channel : Nat) :
    Keeps (Fits bound) (clearContinuity host env scope actor channel) := by
  have hcard : ∀ access : WorkAccess, Upholds (Fits bound) (Fits bound)
      (.read (fun s => (s.continuity.clear scope access s.work).map Prod.snd) :
        Commit (Option ContinuityCard))
      (fun card s => Removing bound card.toList s) := by
    intro access
    apply upholds_read fun _ hs => hs
    intro s card hs hcard
    have hlive : s.continuity.card scope = card := by
      unfold clear at hcard
      cases hcheck : authorizeScope scope access s.work true with
      | error failure =>
        rw [hcheck] at hcard
        cases hcard
      | ok _ =>
        rw [hcheck] at hcard
        exact Except.ok.inj hcard
    apply hs.removing
    cases card with
    | none => exact List.nil_sublist _
    | some card =>
      exact List.singleton_sublist.mpr (Table.mem_rows_of_find hlive)
  refine keeps_lift.bind fun access => keeps_read.bind fun _ =>
    (reconcile_keeps _ _).bind fun reconciled =>
    Keeps.bind (keeps_fits fun _ => eraseContinuityOrphan_frozen _ _ _ _) fun _ =>
    keeps_lift.bind fun access => ?_
  refine Upholds.keeps (Q := fun _ => Fits bound) ?_
  exact (hcard access).bind fun card => (removeCards_upholds host env.target card.toList _).bind
    fun removed => ((updateSafety_keeps (unfence_pending scope)).bind
      fun _ => keeps_pure).upholds

theorem erase_keeps (host : Host) (env : EraseEnv) (scope : String) (member : Option Nat) :
    Keeps (Fits bound) (eraseContinuityOwned host env scope member) := by
  have hcards : Upholds (Fits bound) (Fits bound)
      (.read (fun s => .ok (s.continuity.erasureTargets scope member s.work)) :
        Commit (List ContinuityCard))
      (fun cards s => Removing bound cards s) := by
    apply upholds_read fun _ hs => hs
    intro s cards hs hcards
    cases hcards
    exact hs.removing List.filter_sublist
  refine keeps_read.bind fun orphans =>
    (Keeps.forM fun _ => keeps_fits fun _ => eraseContinuityOrphan_frozen _ _ _ _).bind fun _ =>
    keeps_read.bind fun pending => (Keeps.mapM fun _ _ => reconcile_keeps _ _).bind
    fun reconciled => ?_
  refine Upholds.keeps (Q := fun _ => Fits bound) ?_
  exact hcards.bind fun cards => (removeCards_upholds host env.target cards none).bind
    fun count => ((Keeps.forM fun target => updateSafety_keeps (unfence_pending target)).bind
      fun _ => keeps_pure).upholds

theorem takeSnapshot_keeps :
    Keeps (Fits bound) (.commit (fun s => .ok (takeSnapshot s)) : Commit Stores) := by
  apply keeps_commit
  intro s t snapshot hs ht
  obtain ⟨cards, hsnapshot, _⟩ := hs.snapshot
  rw [hsnapshot] at ht
  cases ht
  exact hs

theorem work_keeps (outside : Outside) (change : WorkStore → Except WorkError WorkStore) :
    Keeps (Fits bound) (commitWorkOwned outside change) := by
  refine takeSnapshot_keeps.bind fun snapshot => keeps_lift.bind fun work =>
    keeps_lift.bind fun _ => ?_
  apply keeps_commit
  intro s t a hs ht
  cases ht
  exact ⟨hs.valid, hs.expected, hs.desired, hs.within⟩

/-! ## Confirmations -/

/-- The store takes the confirmation. -/
def accepts (s : AppState) (env : ConfirmEnv) (grant : ContinuityProposal)
    (actor channel : Nat) : Bool :=
  (freshContinuityAccess env.access grant.scope actor channel).toOption.any (fun access =>
    ((takeSnapshot s).2.continuity.confirm grant access (takeSnapshot s).2.work
      env.confirmedAt).isOk)

/-- A confirmation that the store takes comes while fewer than `maxCards`
other scopes have a card, expired or not, or are about to get one. -/
def roomy (s : AppState) : Event → Bool
  | .confirm env grant _ actor channel =>
    !accepts s env grant actor channel || ((claimed s).erase grant.scope).card < maxCards
  | _ => true

theorem card_insert_le_of_roomy (h : ((claimed s).erase scope).card < maxCards) :
    (insert scope (claimed s)).card ≤ maxCards := by
  have hsub : insert scope (claimed s) ⊆ insert scope ((claimed s).erase scope) := by
    intro other hother
    rw [mem_insert] at hother ⊢
    by_cases hsame : other = scope
    · exact .inl hsame
    · exact .inr (mem_erase.mpr ⟨hsame, hother.resolve_left hsame⟩)
  calc (insert scope (claimed s)).card
      ≤ (insert scope ((claimed s).erase scope)).card := card_le_card hsub
    _ ≤ ((claimed s).erase scope).card + 1 := card_insert_le _ _
    _ ≤ maxCards := h

/-- The card that a confirmation is about to publish. -/
theorem admitCard_upholds (host : Host) (env : ConfirmEnv) (grant : ContinuityProposal)
    (generation actor channel : Nat) (old : Option ContinuityCard) {cards : ContinuityStore}
    {card : ContinuityCard} (hscope : card.scope = grant.scope) (hvalid : validateCard card = .ok ())
    (hcard : cards.card grant.scope = some card) :
    Upholds (Frozen s₀) (Frozen s₀)
      (admitCard host env grant generation actor channel old cards card)
      (fun admitted t => Frozen s₀ t ∧ admitted.2.scope = grant.scope ∧
        validateCard admitted.2 = .ok () ∧ admitted.1.card grant.scope = some admitted.2) := by
  unfold admitCard
  split_ifs
  · have hinstall : Upholds (Frozen s₀) (Frozen s₀)
        (do
          let digest ← .lift (required env.recorded .persistence)
          .lift (cards.installReceipt card digest))
        (fun admitted t => Frozen s₀ t ∧ admitted.2.scope = grant.scope ∧
          validateCard admitted.2 = .ok () ∧ admitted.1.card grant.scope = some admitted.2) := by
      refine keeps_lift.upholds.bind fun digest => ?_
      apply upholds_lift fun _ hs => hs
      rintro s ⟨cards', admitted⟩ hs hinstall
      obtain ⟨hsame, hvalid', hcards'⟩ := installReceipt_ok hinstall
      refine ⟨hs, hsame.trans hscope, hvalid', ?_⟩
      rw [hcards', if_pos hscope]
    cases old.bind ContinuityCard.episodeReceipt with
    | none => exact hinstall
    | some receipt =>
      exact keeps_lift.upholds.bind fun _ => keeps_lift.upholds.bind fun _ =>
        keeps_read.upholds.bind fun _ => hinstall
  · exact keeps_lift.upholds.bind fun _ => upholds_pure (fun _ hs => hs)
      fun _ hs => ⟨hs, hscope, hvalid, hcard⟩

theorem card_of_recheck {cards : ContinuityStore}
    (h : recheckContinuity check grant generation actor channel old cards s = .ok ()) :
    s.continuity.card grant.scope = old := by
  unfold recheckContinuity at h
  simp only [bind_ok_iff, ensure_eq_ok, decide_eq_true_eq] at h
  obtain ⟨_, _, _, _, _, hold, _⟩ := h
  exact hold

/-- A confirmation that is roomy keeps the store sound. -/
theorem confirm_sound (host : Host) (env : ConfirmEnv) (grant : ContinuityProposal)
    (generation actor channel : Nat) (h : Sound s₀)
    (hroomy : roomy s₀ (.confirm env grant generation actor channel))
    (hcrash : Crash (confirmContinuity host env grant generation actor channel) s₀ t) :
    Sound t := by
  have hfits := h.claimed.1
  have hsound : ∀ s, Frozen s₀ s → Sound s := fun s hs => h.frozen hs
  have hkeep : ∀ {α : Type} {x : Commit α}, Keeps (Frozen s₀) x →
      Upholds Sound (Frozen s₀) x (fun _ => Frozen s₀) :=
    fun hx => hx.upholds.imp hsound fun _ _ hs => hs
  -- what is published once the store took the confirmation
  have hpublish : ∀ (snapshot : Stores) (old : Option ContinuityCard)
      (admitted : ContinuityStore × ContinuityCard),
      (insert grant.scope (claimed s₀)).card ≤ maxCards → s₀.continuity.card grant.scope = old →
      admitted.2.scope = grant.scope → validateCard admitted.2 = .ok () →
      admitted.1.card grant.scope = some admitted.2 →
      Upholds Sound (Frozen s₀)
        (do
          stageContinuity grant.scope old (some admitted.2) none
          publishContinuity env.outside { snapshot with continuity := admitted.1 } grant.scope
          pure admitted.2)
        (fun _ _ => True) := by
    intro snapshot old admitted hroom hold hscope hvalid hcard
    have hbound : ∀ s, Fits (insert grant.scope (claimed s₀)) s → Sound s :=
      fun s hs => ⟨_, hroom, hs⟩
    have hstage := stage_upholds (some admitted.2) none
      (hfits.mono (subset_insert grant.scope _)) hold
      (fun card hsome => by cases hsome; exact ⟨hscope, hvalid⟩)
      (fun _ => mem_insert_self _ _)
    have hlive := publish_upholds (insert grant.scope (claimed s₀)) grant.scope env.outside
      { snapshot with continuity := admitted.1 } s₀.continuity
    exact (hstage.imp hbound fun _ _ hs => hs).bind fun _ =>
      ((hlive.pre fun _ hs => hcard.symm ▸ hs).imp hbound fun _ _ hs => hs).bind fun _ =>
      upholds_pure (fun s hs => hbound s hs.fits) fun _ _ => trivial
  have hrun : Upholds Sound (Frozen s₀)
      (confirmContinuity host env grant generation actor channel) (fun _ _ => True) := by
    refine (hkeep keeps_read).bind fun _ => (hkeep keeps_read).bind fun _ => ?_
    have haccess : Upholds Sound (Frozen s₀)
        (.lift (freshContinuityAccess env.access grant.scope actor channel) : Commit WorkAccess)
        (fun access s => Frozen s₀ s ∧
          freshContinuityAccess env.access grant.scope actor channel = .ok access) :=
      upholds_lift hsound fun _ _ hs haccess => ⟨hs, haccess⟩
    refine haccess.bind fun access => upholds_of_states fun s ⟨hs, haccess⟩ =>
      Upholds.pre ?_ fun _ heq => heq ▸ hs
    refine (hkeep keeps_read).bind fun _ =>
      ((preparedSnapshot_upholds hfits).imp hsound fun _ _ hs => hs).bind fun snapshot =>
      upholds_of_states fun s' ⟨hs', hsnapshot⟩ => Upholds.pre ?_ fun _ heq => heq ▸ hs'
    have hconfirm : Upholds Sound (Frozen s₀)
        (.lift (snapshot.continuity.confirm grant access snapshot.work env.confirmedAt) :
          Commit (ContinuityStore × ContinuityCard))
        (fun confirmed s => Frozen s₀ s ∧
          snapshot.continuity.confirm grant access snapshot.work env.confirmedAt = .ok confirmed) :=
      upholds_lift hsound fun _ _ hs hconfirm => ⟨hs, hconfirm⟩
    refine hconfirm.bind fun confirmed => upholds_of_states fun s'' ⟨hs'', hconfirm⟩ =>
      Upholds.pre ?_ fun _ heq => heq ▸ hs''
    have haccepts : accepts s₀ env grant actor channel := by
      unfold accepts
      rw [haccess, ← hsnapshot]
      show (snapshot.continuity.confirm grant access snapshot.work env.confirmedAt).isOk
      rw [hconfirm]
      rfl
    have hroom : ((claimed s₀).erase grant.scope).card < maxCards := by
      simpa [roomy, haccepts] using hroomy
    obtain ⟨hscope, hvalid, hcards, _⟩ := confirm_ok hconfirm
    refine ((admitCard_upholds host env grant generation actor channel _ hscope hvalid
      (by rw [hcards, if_pos rfl])).imp hsound fun _ _ hs => hs).bind fun admitted =>
      upholds_of_states fun u ⟨hu, hscope, hvalid, hcard⟩ => Upholds.pre ?_ fun _ heq => heq ▸ hu
    have hcheck : Upholds Sound (Frozen s₀)
        (.read (fun s => .ok (recheckContinuity env.final grant generation actor channel
          (snapshot.continuity.card grant.scope) admitted.1 s)) : Commit (Except WorkError Unit))
        (fun check s => Frozen s₀ s ∧
          (check = .ok () → s₀.continuity.card grant.scope = snapshot.continuity.card grant.scope)) := by
      apply upholds_read hsound
      intro s check hs hcheck
      cases hcheck
      exact ⟨hs, fun hok => hs.1 ▸ card_of_recheck hok⟩
    refine hcheck.bind fun check => ?_
    cases check with
    | error failure =>
      exact ((hkeep (abandonCard_frozen admitted.2)).pre fun _ hs => hs.1).bind fun _ =>
        upholds_lift hsound fun _ _ _ _ => trivial
    | ok _ =>
      refine upholds_of_states fun v ⟨hv, hold⟩ => Upholds.pre ?_ fun _ heq => heq ▸ hv
      exact hpublish snapshot _ admitted (card_insert_le_of_roomy hroom) (hold rfl) hscope hvalid
        hcard
  exact hrun.crash s₀ t (.refl s₀) hcrash

/-! ## Runs -/

/-- Every command keeps the store sound when its confirmations are roomy. -/
theorem Sound.step (h : Sound s) (hroomy : roomy s event)
    (hnext : next host s event = some t) : Sound t := by
  have hkeep : ∀ {α : Type} {x : Commit α}, (∀ bound, Keeps (Fits bound) x) →
      Sound (x.final s) := by
    intro α x hx
    obtain ⟨bound, hroom, hfits⟩ := h
    exact ⟨bound, hroom, hx bound s _ hfits (crash_final x s)⟩
  cases event with
  | confirm env grant generation actor channel =>
    cases hnext
    exact confirm_sound host env grant generation actor channel h hroomy (crash_final _ s)
  | clear env scope actor channel =>
    cases hnext
    exact hkeep fun _ => clear_keeps host env scope actor channel
  | erase env scope member =>
    cases hnext
    exact hkeep fun _ => erase_keeps host env scope member
  | work outside change =>
    cases hnext
    exact hkeep fun _ => work_keeps outside change
  | persist =>
    cases hnext
    obtain ⟨cards, hsnapshot, _⟩ := h.claimed.1.snapshot
    rw [hsnapshot]
    exact h

/-- What a load leaves is sound. -/
theorem Sound.load {work : WorkStore} {now : Nat} (h : load cards work now = .ok s) : Sound s := by
  unfold Continuity.load at h
  obtain ⟨store, hstore, h⟩ := bind_ok_iff.mp h
  cases h
  obtain ⟨hvalid, hlength⟩ := deserialize_ok hstore
  have hcard : ∀ scope card, (store.pruneCurrent work now).card scope = some card →
      store.card scope = some card := by
    intro scope card hcard
    unfold pruneCurrent ContinuityStore.card at hcard
    rw [Table.find_delete, Option.filter_eq_some_iff] at hcard
    exact hcard.1
  have hpruned : (store.pruneCurrent work now).cards.rows.length ≤ maxCards :=
    (List.length_filter_le _ _).trans hlength
  refine ⟨(store.pruneCurrent work now).scopes, by rwa [← length_eq_card_scopes],
    fun scope card hfound => hvalid scope card (hcard scope card hfound), ?_, ?_, ?_⟩
  · intro scope op hop
    cases hop
  · intro scope op card hop
    cases hop
  · intro scope hscope
    rw [mem_claimed] at hscope
    rcases hscope with hlive | ⟨op, hop, _⟩
    · exact mem_scopes.mpr hlive
    · cases hop

/-- A save in this state does not fail of the cards. -/
structure Saves (s : AppState) : Prop where
  length : s.continuity.cards.rows.length ≤ maxCards
  persists : ∀ rest, persistCanonicalOwned rest (takeSnapshot s).2 = rest

theorem Sound.saves (h : Sound s) : Saves s := by
  obtain ⟨hfits, hroom⟩ := h.claimed
  obtain ⟨cards, hsnapshot, hvalid, _, hscopes⟩ := hfits.snapshot
  refine ⟨?_, fun rest => ?_⟩
  · rw [length_eq_card_scopes]
    exact (card_le_card subset_union_left).trans hroom
  · rw [hsnapshot]
    exact persistCanonicalOwned_of_room rfl hvalid ((card_le_card hscopes).trans hroom)

/-- In a run from a load whose confirmations are roomy, no save fails of the
cards. -/
theorem cards_never_stop_saves (host : Host) (cards : List ContinuityCard) (work : WorkStore)
    (now : Nat) (hload : load cards work now = .ok s)
    (hrun : Steps (next host) (fun s event => roomy s event = true) s t) : Saves t := by
  have hsound : Sound t := hrun.invariant (fun _ _ _ h hroomy hnext => h.step hroomy hnext)
    (.load hload)
  exact hsound.saves

/-! ## Expired cards -/

def soloProject (owner : Nat) : Nat × WorkProject :=
  (owner, ⟨owner, .personal owner, {owner}, {owner}⟩)

/-- Owners from 1 on, each with one project. -/
def soloWork (count : Nat) : WorkStore :=
  ⟨⟨(List.range' 1 count).map soloProject, by
    rw [List.map_map]
    show ((List.range' 1 count).map (fun owner => owner)).Nodup
    simpa using List.nodup_range'⟩, .empty, .empty⟩

def soloCard (owner : Nat) : ContinuityCard := {
  schemaVersion := 1
  scope := .personal owner
  confirmedBy := owner
  revision := 1
  confirmedText := "ship it"
  sourceRefs := ∅
  expiresAt := 700000
  episodeReceipt := none }

def soloCards (count : Nat) : List ContinuityCard := (List.range' 1 count).map soloCard

def soloAccess (owner : Nat) : WorkAccess := ⟨owner, none, 1, true, true⟩

def soloHost : Host := ⟨fun _ => false, fun _ => ""⟩

/-- Everything is written. -/
def written : Outside := ⟨.ok (), true⟩

/-- An owner without a card confirms one. -/
def soloConfirm (owner now : Nat) : Event :=
  let check : Recheck := ⟨.ok (soloAccess owner), now, now⟩
  .confirm ⟨.ok (soloAccess owner), now, .live, check, none, check, written⟩
    ⟨owner, .personal owner, 0, "ship it", ∅, now + 100⟩ 1 owner 1

/-- An owner clears a card. -/
def soloClear (owner : Nat) : Event :=
  let access := .ok (soloAccess owner)
  let forget : ForgetEnv := ⟨.live, access, true, access, written⟩
  .clear ⟨access, written, fun _ => forget, access, fun _ => forget⟩ (.personal owner) owner 1

theorem toOption_eq_some {ε α : Type} {r : Except ε α} {a : α} (h : r.toOption = some a) :
    r = .ok a := by
  cases r with
  | error failure => cases h
  | ok value => exact congrArg Except.ok (Option.some.inj h)

theorem cards_never_stop_saves_sample : ∃ s t : AppState,
    load (soloCards 1) (soloWork 2) 95200 = .ok s ∧
      Steps (next soloHost) (fun s event => roomy s event = true) s t ∧
      t.continuity.scopes = {.personal 2} ∧ Saves t := by
  have hruns : (load (soloCards 1) (soloWork 2) 95200).toOption.any (fun s =>
      (run (fun s event => if roomy s event then next soloHost s event else none) s
        [soloConfirm 2 700000, .persist, soloClear 1]).any
        (fun t => t.continuity.scopes = {.personal 2})) = true := by
    decide +kernel
  obtain ⟨s, hload, hruns⟩ := (Option.any_eq_true _ _).mp hruns
  obtain ⟨t, hrun, hscopes⟩ := (Option.any_eq_true _ _).mp hruns
  have hload := toOption_eq_some hload
  have hsteps : Steps (next soloHost) (fun s event => roomy s event = true) s t :=
    steps_of_checked_run (fun _ _ h => h) hrun
  exact ⟨s, t, hload, hsteps, of_decide_eq_true hscopes,
    cards_never_stop_saves soloHost (soloCards 1) (soloWork 2) 95200 hload hsteps⟩

/-- The cards of the first owners. -/
def soloTable (count : Nat) : Table ContinuityCard.scope where
  rows := soloCards count
  nodup := by
    have hscopes : (soloCards count).map ContinuityCard.scope =
        (List.range' 1 count).map WorkScope.personal := by
      simp [soloCards, Function.comp_def, soloCard]
    rw [hscopes]
    exact List.Nodup.map (fun a b h => WorkScope.personal.inj h) List.nodup_range'

theorem validateCard_solo (h : owner ≠ 0) : validateCard (soloCard owner) = .ok () := by
  have hcontent : validateContent "ship it" ∅ = .ok () := by decide
  simp [validateCard, soloCard, hcontent, h, validScope, cardLifetime, ContinuityCard.ownedBy]

/-- Cards of owners with projects are all loaded. -/
theorem load_solo (hcount : count ≤ maxCards) :
    load (soloCards count) (soloWork (count + 1)) 95200 =
      .ok ⟨⟨soloTable count⟩, soloWork (count + 1), .new⟩ := by
  have howner : ∀ card ∈ soloCards count, ∃ owner, owner ≠ 0 ∧
      owner ∈ List.range' 1 (count + 1) ∧ soloCard owner = card := by
    intro card hcard
    obtain ⟨owner, howner, rfl⟩ := List.mem_map.mp hcard
    rw [List.mem_range'_1] at howner
    exact ⟨owner, by omega, List.mem_range'_1.mpr (by omega), rfl⟩
  have hread : deserialize (soloCards count) = .ok ⟨soloTable count⟩ := by
    have hvalid : ContinuityStore.Valid ⟨soloTable count⟩ := by
      intro scope card hcard
      obtain ⟨owner, hne, -, rfl⟩ := howner card (Table.mem_rows_of_find hcard)
      exact validateCard_solo hne
    refine (deserialize_serialize hvalid).trans (if_pos ?_)
    simpa [soloTable, soloCards] using hcount
  have hkept : pruneCurrent ⟨soloTable count⟩ (soloWork (count + 1)) 95200 = ⟨soloTable count⟩ := by
    refine congrArg mk (Table.ext ?_)
    refine List.filter_eq_self.mpr fun card hcard => ?_
    obtain ⟨owner, hne, hmem, rfl⟩ := howner card hcard
    have hproject : soloProject owner ∈ (soloWork (count + 1)).projects.rows :=
      List.mem_map_of_mem hmem
    have hlife : withinLifetime 700000 cardLifetime 95200 := by decide
    have hsources : (validateSources (.personal owner) ∅ (soloWork (count + 1))).isOk := by
      simp [validateSources, Except.isOk, Except.toBool]
    have hany : ∀ p : Nat × WorkProject → Bool, p (soloProject owner) →
        (soloWork (count + 1)).projects.rows.any p :=
      fun p hp => List.any_eq_true.mpr ⟨_, hproject, hp⟩
    simp only [soloCard, hlife, hsources, Bool.and_self]
    rw [hany _ (decide_eq_true rfl)]
    rfl
  rw [load, hread, ok_bind, hkept]

/-- A full store is loaded, its cards expire, and one more owner confirms a
card: the live store has one card too many, and nothing is saved any more. -/
theorem expired_cards_stop_saves : ∃ s t : AppState,
    load (soloCards 256) (soloWork 257) 95200 = .ok s ∧
      run (next soloHost) s [soloConfirm 257 700000] = some t ∧
      maxCards < t.continuity.cards.rows.length ∧
      persistCanonicalOwned (.ok ()) (takeSnapshot t).2 = .error .snapshotEncode := by
  have hruns : (run (next soloHost) ⟨⟨soloTable 256⟩, soloWork 257, .new⟩
      [soloConfirm 257 700000]).any (fun t =>
        maxCards < t.continuity.cards.rows.length ∧
          persistCanonicalOwned (.ok ()) (takeSnapshot t).2 = .error .snapshotEncode) = true := by
    decide +kernel
  obtain ⟨t, hrun, hfull⟩ := (Option.any_eq_true _ _).mp hruns
  exact ⟨_, t, load_solo (le_refl maxCards), hrun, of_decide_eq_true hfull⟩

end Abbey.Continuity
