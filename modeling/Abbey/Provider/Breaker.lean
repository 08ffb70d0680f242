import Abbey.Provider.Soundness

/-!
# The circuit breaker is sound

What holds in every run of the adaptive router, for any providers,
outcomes, retry metadata, durations and clock.

* `ProbesExclusive`: the shape of the circuits, and at most one probe.
* `CountsOnce`: an attempt counts at most once, and not after its provider
  was requalified, restored as blocked or blocked.
* `BlockedStays`: a blocked provider is selected after a requalification
  only.
* `PhaseMoves`: how a circuit closes, and how far a delay reaches.
-/

namespace Abbey.Provider

open Abbey.Lib AdaptiveRouter Option List

section Breaker

variable {F : Type}
variable {id : String} {e : RouterEvent F} {c c' : Circuit}

structure ProbesExclusive (router : AdaptiveRouter F) (log : List (RouterEvent F)) : Prop where
  openUntil : ∀ id g c, router.current id = some (g, c) →
    (c.snapshot.openUntilMs.isSome = true ↔ c.snapshot.phase = .opened)
  probeReserved : ∀ id g c, router.current id = some (g, c) →
    (c.snapshot.probeReserved = true ↔ ∃ e ∈ log, ∃ a, e.probes = some a ∧ a.providerId = id ∧
      a.generation = g ∧ Outstanding router a)
  recent : ∀ id g c, router.current id = some (g, c) → c.snapshot.phase = .closed →
    c.recent.length < 3
  atMostOne : ∀ pre e mid f post a b, log = pre ++ e :: mid ++ f :: post → e.probes = some a →
    f.probes = some b → a.providerId = b.providerId → a.generation = b.generation →
      ¬ (Outstanding router a ∧ Outstanding router b)
  noneAdmitted : ∀ pre f post e a b, log = pre ++ f :: post → e ∈ pre → e.probes = some a →
    f.issued = some b → a.providerId = b.providerId → a.generation = b.generation →
      ¬ Outstanding f.before a

def CountsOnce (log : List (RouterEvent F)) : Prop :=
  ∀ pre e mid f post a, log = pre ++ e :: mid ++ f :: post → (∃ d ∈ pre, d.issued = some a) →
    (e.Completes a ∧ e.after ≠ e.before ∨ e.Requalifies a.providerId ∨ e.Restores a.providerId ∨
      e.Blocks a.providerId) →
    f.Completes a → f.after = f.before

def BlockedStays (log : List (RouterEvent F)) : Prop :=
  ∀ pre e mid f post a, log = pre ++ e :: mid ++ f :: post → e.Blocks a.providerId →
    f.issued = some a → ∃ d ∈ mid, d.Requalifies a.providerId

/-- The completion of the circuit's own probe with a success: no retry
metadata, and a duration in bounds. -/
def ProbeSucceeds (e : RouterEvent F) (id : String) (g : Nat) (c : Circuit) : Prop :=
  ∃ a d nowMs, e.call = .complete a .success .absent (some d) nowMs ∧ d ≤ 900000 ∧
    a.providerId = id ∧ a.generation = g ∧ c.snapshot.phase = .halfOpen ∧ c.probe = some a.permit

structure PhaseMoves (e : RouterEvent F) : Prop where
  closes : ∀ id g c g' c', e.before.current id = some (g, c) → e.after.current id = some (g', c') →
    (c.snapshot.phase = .opened ∨ c.snapshot.phase = .halfOpen) → c'.snapshot.phase = .closed →
      e.Requalifies id ∨ ProbeSucceeds e id g c
  grows : ∀ id g c g' c', e.before.current id = some (g, c) → e.after.current id = some (g', c') →
    c.snapshot.phase = .opened → c'.snapshot.phase = .opened →
      ∃ t t', c.snapshot.openUntilMs = some t ∧ c'.snapshot.openUntilMs = some t' ∧ t ≤ t'
  bounded : ∀ id g' c' t, e.after.current id = some (g', c') → c'.snapshot.openUntilMs = some t →
    (∃ g c, e.before.current id = some (g, c) ∧ c.snapshot.openUntilMs = some t) ∨
      ∃ a kind retry durationMs nowMs, e.call = .complete a kind retry durationMs nowMs ∧
        a.providerId = id ∧ t ≤ nowMs + 900000

/-! ## The phases -/

/-- A success that counts came without retry metadata and in time. -/
theorem classify_eq_success {retry : RetryAfter}
    (h : retry.classify (outcomeOf kind durationMs) = .success) :
    retry = .absent ∧ kind = .success ∧ ∃ d, durationMs = some d ∧ d ≤ 900000 := by
  have houtcome : outcomeOf kind durationMs = .success →
      kind = .success ∧ ∃ d, durationMs = some d ∧ d ≤ 900000 := by
    intro houtcome
    unfold outcomeOf at houtcome
    split_ifs at houtcome with hbounds
    refine ⟨houtcome, ?_⟩
    cases durationMs with
    | none => exact absurd ⟨houtcome, rfl⟩ hbounds
    | some d =>
      refine ⟨d, rfl, Nat.le_of_not_lt fun hlong => hbounds ⟨houtcome, ?_⟩⟩
      simpa [outcomeOf.isOutOfBounds] using hlong
  cases retry with
  | absent => exact ⟨rfl, houtcome h⟩
  | valid nanos =>
    simp only [RetryAfter.classify] at h
    split_ifs at h with haccepted
    rw [h] at haccepted
    simp at haccepted
  | invalid => cases h

theorem Turns.closes {g : Nat} (h : Turns e id g c c')
    (hbefore : c.snapshot.phase = .opened ∨ c.snapshot.phase = .halfOpen)
    (hclosed : c'.snapshot.phase = .closed) : ProbeSucceeds e id g c := by
  have hmoved : c'.snapshot.phase ≠ c.snapshot.phase := by
    intro hsame
    rw [← hsame, hclosed] at hbefore
    simp at hbefore
  cases h with
  | kept => exact absurd rfl hmoved
  | restored _ _ => cases hclosed
  | reserved _ _ _ hreserves =>
    rcases hreserves.snapshot with hsame | ⟨hhalf, _⟩
    · exact absurd (congrArg CircuitSnapshot.phase hsame) hmoved
    · rw [hhalf] at hclosed
      cases hclosed
  | @completed nowMs _ _ a kind retry durationMs hcall hprovider hgeneration hcompletes =>
    generalize hkind : retry.classify (outcomeOf kind durationMs) = effective at hcompletes
    cases hcompletes with
    | blocks _ _ _ => cases hclosed
    | counts _ _ hcounts =>
      cases hcounts.moves with
      | stays hphase _ _ => exact absurd hphase hmoved
      | opens _ hphase | prolongs _ hphase => rw [hphase] at hclosed; cases hclosed
      | closes hhalf hprobe hsuccess _ _ _ =>
        rw [hsuccess] at hkind
        obtain ⟨rfl, rfl, d, rfl, hd⟩ := classify_eq_success hkind
        exact ⟨a, d, nowMs, hcall, hd, hprovider, hgeneration, hhalf, hprobe⟩

/-- How the end of a delay moves. -/
theorem Turns.openUntil (h : Turns e id g c c')
    (hc : c.Sound) (ht : c'.snapshot.openUntilMs = some t) : (c.snapshot.openUntilMs = some t ∨
      ∃ a kind retry durationMs nowMs, e.call = .complete a kind retry durationMs nowMs ∧
        a.providerId = id ∧ t ≤ nowMs + 900000) ∧
      ∀ u, c.snapshot.openUntilMs = some u → u ≤ t := by
  have hkept : c'.snapshot.openUntilMs = c.snapshot.openUntilMs → (c.snapshot.openUntilMs = some t ∨
        ∃ a kind retry durationMs nowMs, e.call = .complete a kind retry durationMs nowMs ∧
          a.providerId = id ∧ t ≤ nowMs + 900000) ∧
        ∀ u, c.snapshot.openUntilMs = some u → u ≤ t := by
    intro hsame
    rw [hsame] at ht
    refine ⟨.inl ht, fun u hu => ?_⟩
    rw [ht] at hu
    exact Nat.le_of_eq (some.inj hu).symm
  cases h with
  | kept => exact hkept rfl
  | restored _ _ => cases ht
  | reserved _ _ _ hreserves =>
    rcases hreserves.snapshot with hsame | ⟨_, hnone⟩
    · exact hkept (congrArg CircuitSnapshot.openUntilMs hsame)
    · rw [hnone] at ht
      cases ht
  | @completed nowMs _ _ a kind retry durationMs hcall hprovider _ hcompletes =>
    cases hcompletes with
    | blocks _ _ _ => cases ht
    | counts _ _ hcounts =>
      cases hcounts.moves with
      | stays _ hsame _ => exact hkept hsame
      | opens hbefore _ t' huntil hbound =>
        rw [huntil, some.injEq] at ht
        subst ht
        refine ⟨.inr ⟨a, kind, retry, durationMs, nowMs, hcall, hprovider, hbound⟩, fun u hu => ?_⟩
        have hopened := hc.openUntil.mp (isSome_iff_exists.mpr ⟨u, hu⟩)
        rcases hbefore with hclosed | ⟨hhalf, _⟩
        · rw [hclosed] at hopened; cases hopened
        · rw [hhalf] at hopened; cases hopened
      | prolongs hopened _ t' huntil hbound =>
        obtain ⟨u, hu⟩ := isSome_iff_exists.mp (hc.openUntil.mpr hopened)
        rw [huntil, hu, getD_some, some.injEq] at ht
        refine ⟨?_, fun v hv => ?_⟩
        · rcases Nat.le_total u t' with hle | hle
          · right
            exact ⟨a, kind, retry, durationMs, nowMs, hcall, hprovider, by omega⟩
          · left
            rw [hu, some.injEq]
            omega
        · rw [hu, some.injEq] at hv
          omega
      | closes _ _ _ _ huntil _ => rw [huntil] at ht; cases ht

variable [Floating F]

section Step

variable {router router' : AdaptiveRouter F} {log : List (RouterEvent F)} {e : RouterEvent F}

section

variable (h : Happens router log e router') (ht : Tracked router log)

include h ht

/-- The circuit of a provider that was there is replaced by a requalification
or turns within its generation. -/
theorem Happens.requalifies_or_turns (hbefore : router.current id = some (g, c))
    (hafter : router'.current id = some (g', c')) :
    (e.Requalifies id ∧ c' = .new) ∨ g' = g ∧ Turns e id g c c' := by
  have hchange := h.changes ht id
  rw [hbefore, hafter] at hchange
  cases hchange with
  | requalified _ hcall _ => exact .inl ⟨hcall, rfl⟩
  | turns hturns => exact .inr ⟨rfl, hturns⟩

theorem Happens.phaseMoves : PhaseMoves e where
  closes id g c g' c' hbefore hafter hphase hclosed := by
    rw [h.before] at hbefore
    rw [h.after] at hafter
    rcases h.requalifies_or_turns ht hbefore hafter with ⟨hcall, _⟩ | ⟨_, hturns⟩
    · exact .inl hcall
    · exact .inr (hturns.closes hphase hclosed)
  grows id g c g' c' hbefore hafter hphase hphase' := by
    rw [h.before] at hbefore
    rw [h.after] at hafter
    have hsound := ht.sound _ _ _ hbefore
    obtain ⟨t, hopenUntil⟩ := isSome_iff_exists.mp (hsound.openUntil.mpr hphase)
    obtain ⟨t', hopenUntil'⟩ :=
      isSome_iff_exists.mp (((ht.step h).sound _ _ _ hafter).openUntil.mpr hphase')
    rcases h.requalifies_or_turns ht hbefore hafter with ⟨_, rfl⟩ | ⟨_, hturns⟩
    · cases hphase'
    · exact ⟨t, t', hopenUntil, hopenUntil', (hturns.openUntil hsound hopenUntil').2 t hopenUntil⟩
  bounded id g' c' t hafter hopenUntil := by
    rw [h.before]
    rw [h.after] at hafter
    have hchange := h.changes ht id
    rw [hafter] at hchange
    generalize hbefore : router.current id = before at hchange
    cases hchange with
    | requalified _ _ _ => cases hopenUntil
    | turns hturns =>
      refine (hturns.openUntil (ht.sound _ _ _ hbefore) hopenUntil).1.imp_left (fun hold => ?_)
      exact ⟨g', _, rfl, hold⟩

/-- A blocked provider stays so unless it is requalified. -/
theorem Happens.blocked (hcall : ¬ e.Requalifies id)
    (hblocked : ∃ g c, router.current id = some (g, c) ∧ c.snapshot.phase = .blocked) :
    ∃ g c, router'.current id = some (g, c) ∧ c.snapshot.phase = .blocked := by
  obtain ⟨g, c, hbefore, hphase⟩ := hblocked
  have hchange := h.changes ht id
  rw [hbefore] at hchange
  generalize hafter : router'.current id = after at hchange
  cases hchange with
  | requalified _ hrequalifies _ => exact absurd hrequalifies hcall
  | turns hturns =>
    refine ⟨g, _, rfl, ?_⟩
    cases hturns with
    | kept => exact hphase
    | restored _ _ => rfl
    | reserved _ _ _ hreserves | completed _ _ _ hreserves => exact absurd hphase hreserves.phase

end

end Step

/-! ## The parts of the claim -/

section Parts

variable {configuredOrder : List String} {router : AdaptiveRouter F} {log : List (RouterEvent F)}

variable (h : RouterRun configuredOrder router log)

include h

/-- One event of a run, with what is known before it. -/
theorem event_of_run
    (hlog : log = pre ++ e :: post) : Tracked e.before pre ∧ Happens e.before pre e e.after := by
  subst hlog
  obtain ⟨s, u, hs, hnext⟩ := h.at_event
  rw [hnext.before, hnext.after]
  exact ⟨tracked hs, hnext⟩

theorem probesExclusive : ProbesExclusive router log where
  openUntil id g c hcurrent := ((tracked h).sound id g c hcurrent).openUntil
  probeReserved id g c hcurrent := by
    have ht := tracked h
    have hsound := ht.sound id g c hcurrent
    rw [hsound.reserved, isSome_iff_exists]
    constructor
    · rintro ⟨n, hprobe⟩
      obtain ⟨e, he, a, hprobes, hprovider, hgeneration, hpermit⟩ := ht.reserved id g c n hcurrent hprobe
      refine ⟨e, he, a, hprobes, hprovider, hgeneration, c, ?_, ?_⟩
      · rw [hprovider, hgeneration, hcurrent]
      · rw [hpermit]
        exact (hsound.probe n hprobe).1
    · rintro ⟨e, he, a, hprobes, hprovider, hgeneration, c', hcurrent', hmem⟩
      have hsame : c' = c := by
        rw [hprovider, hgeneration, hcurrent] at hcurrent'
        simpa using hcurrent'.symm
      have hprobe := ht.probe e he a hprobes c' hcurrent' hmem
      rw [hsame] at hprobe
      exact ⟨_, hprobe⟩
  recent id g c hcurrent hclosed := ((tracked h).sound id g c hcurrent).recent hclosed
  atMostOne pre e mid f post a b hlog ha hb hprovider hgeneration := by
    rintro ⟨⟨c, hcurrent, hmem⟩, ⟨c', hcurrent', hmem'⟩⟩
    have ht := tracked h
    have hsame : c' = c := by
      rw [← hprovider, ← hgeneration, hcurrent] at hcurrent'
      simpa using hcurrent'.symm
    subst hsame
    have he : e ∈ log := by simp [hlog]
    have hf : f ∈ log := by simp [hlog]
    -- both are the probe of one circuit, so they have one permit
    have hpermit : a.permit = b.permit := by
      have hprobe := ht.probe e he a ha c' hcurrent hmem
      rw [ht.probe f hf b hb c' hcurrent' hmem'] at hprobe
      exact (some.inj hprobe).symm
    -- but the later one was reserved above all permits of its time
    obtain ⟨htracked, hnext⟩ := event_of_run h hlog
    obtain ⟨_, d, _, hbefore, hreserves, _⟩ := hnext.issued_spec htracked (issued_of_probes hb)
    rw [← hprovider, ← hgeneration] at hbefore
    have hle := htracked.permit e (by simp) a (issued_of_probes ha) d hbefore
    have hfields := hreserves.fields
    have hlive := hreserves.phase
    have hbound := hle.resolve_left hlive
    omega
  noneAdmitted pre f post e a b hlog he ha hb hprovider hgeneration := by
    rintro ⟨c, hcurrent, hmem⟩
    obtain ⟨htracked, hnext⟩ := event_of_run h hlog
    obtain ⟨_, d, _, hbefore, hreserves, _⟩ := hnext.issued_spec htracked hb
    rw [← hprovider, ← hgeneration, hcurrent] at hbefore
    cases hbefore
    have hprobe := htracked.probe e he a ha c hcurrent hmem
    rw [hreserves.free (htracked.sound _ _ _ hcurrent)] at hprobe
    cases hprobe

theorem countsOnce : CountsOnce log := by
  intro pre e mid f post a hlog hissued hends hcall
  obtain ⟨htracked, hnext⟩ := event_of_run h hlog
  obtain ⟨s, u, hs, hlast⟩ := (hlog ▸ h).at_event
  have hdone : ¬ Outstanding f.before a := by
    rw [hlast.before]
    refine hs.since (fun router => ¬ Outstanding router a)
      (fun log e => (∃ d ∈ log, d.issued = some a) ∧
        (e.Completes a ∧ e.after ≠ e.before ∨ e.Requalifies a.providerId ∨
          e.Restores a.providerId ∨ e.Blocks a.providerId))
      (fun _ => True) ?_ ?_ ⟨hissued, hends⟩ (fun _ _ => trivial)
    · rintro s log e t hs hnext ⟨⟨d, hd, hissued⟩, ⟨hcall, hchanged⟩ | hcall⟩
      · rw [hnext.before, hnext.after] at hchanged
        exact ((completes_cases (tracked hs) hnext hcall).resolve_left hchanged).2
      · exact not_outstanding_of_replaced (tracked hs) hnext hd hissued hcall
    · rintro s log e t hs hnext ⟨pre, g, mid, rfl, ⟨d, hd, hissued⟩, _⟩ _ hdone
      exact not_outstanding_keeps (tracked hs) hnext (mem_append_left _ hd) hissued hdone
  exact (completes_cases htracked hnext hcall).resolve_right (fun h => hdone h.1)

theorem blockedStays : BlockedStays log := by
  intro pre e mid f post a hlog hblocks hissued
  by_contra hnone
  obtain ⟨htracked, hnext⟩ := event_of_run h hlog
  obtain ⟨s, u, hs, hlast⟩ := (hlog ▸ h).at_event
  obtain ⟨_, c, _, hbefore, hreserves, _⟩ := hnext.issued_spec htracked hissued
  have hblocked : ∃ g c, f.before.current a.providerId = some (g, c) ∧ c.snapshot.phase = .blocked := by
    rw [hlast.before]
    refine hs.since
      (fun router => ∃ g c, router.current a.providerId = some (g, c) ∧ c.snapshot.phase = .blocked)
      (fun _ e => e.Blocks a.providerId)
      (fun e => ¬ e.Requalifies a.providerId) ?_ ?_ hblocks ?_
    · intro s log e t _ hnext hblocks
      rw [RouterEvent.Blocks, hnext.after] at hblocks
      exact hblocks
    · intro s log e t hs hnext _ hallowed hblocked
      exact hnext.blocked (tracked hs) hallowed hblocked
    · intro d hd hcall
      exact hnone ⟨d, hd, hcall⟩
  obtain ⟨g, c', hcurrent, hphase⟩ := hblocked
  rw [hcurrent] at hbefore
  cases hbefore
  exact hreserves.phase hphase

omit h

theorem circuit_breaker_sound (h : RouterRun configuredOrder router log) :
    ProbesExclusive router log ∧ CountsOnce log ∧ BlockedStays log ∧ ∀ e ∈ log, PhaseMoves e := by
  refine ⟨probesExclusive h, countsOnce h, blockedStays h, fun e he => ?_⟩
  obtain ⟨pre, post, hlog⟩ := List.append_of_mem he
  obtain ⟨htracked, hnext⟩ := event_of_run h hlog
  exact hnext.phaseMoves htracked

end Parts

/-! ## A sample run -/

/-- An event as the router's own step makes it. -/
def eventOf (router : AdaptiveRouter F) (call : RouterCall F) : RouterEvent F :=
  ⟨router, call, (router.step call).2, (router.step call).1⟩

theorem happens_eventOf (call : RouterCall F)
    (howned : ∀ a, (eventOf router call).Completes a → ∃ f ∈ log, f.issued = some a) :
    Happens router log (eventOf router call) (router.step call).1 := ⟨rfl, rfl, rfl, howned⟩

end Breaker

def sampleProfile : ProviderScoreProfile Float :=
  ⟨.textReadOnly, ⟨⟨1⟩, ⟨1⟩, ⟨1⟩, ⟨1⟩⟩, ⟨none, 0⟩, ⟨none, 0⟩, ⟨none, 0⟩⟩

def sampleRequalify : RouterCall Float :=
  .requalify "local" ⟨"", none, none, none, "", none⟩ [sampleProfile]
    ⟨true, true, true, true, true, true⟩

def sampleReady : AdaptiveRouter Float := ((AdaptiveRouter.new ["local"]).step sampleRequalify).1

def sampleSelect : RouterCall Float := .select .textReadOnly 10 none []

def sampleAttempt : RouteAttempt := ⟨"local", 1, .textReadOnly, 1⟩

theorem issued_sampleSelect : (eventOf sampleReady sampleSelect).issued = some sampleAttempt := by
  have hassessed : (sampleReady.providers.rows.filter (considered none [])).map
      (sampleReady.candidate .textReadOnly 10) =
        [.ok ⟨"local", sampleProfile.components, sampleProfile.components.weighted, 0⟩] := by
    rfl
  have hreply : (sampleReady.select .textReadOnly 10 none []).2 =
      .ok (⟨"local", sampleProfile.components, sampleProfile.components.weighted, 0⟩,
        sampleAttempt) := by
    unfold select
    rw [hassessed]
    simp only [filterMap_cons, filterMap_nil, Except.toOption, mergeSort_singleton,
      head?_cons]
    rfl
  show RouterEvent.issued ⟨_, _, .selected (sampleReady.select .textReadOnly 10 none []).2, _⟩ = _
  rw [hreply]
  rfl

def sampleSelected : AdaptiveRouter Float := (sampleReady.step sampleSelect).1

def sampleComplete : RouterCall Float := .complete sampleAttempt .success .absent (some 20) 30

def sampleCompleted : AdaptiveRouter Float := (sampleSelected.step sampleComplete).1

def sampleLog : List (RouterEvent Float) :=
  [eventOf (.new ["local"]) sampleRequalify, eventOf sampleReady sampleSelect,
    eventOf sampleSelected sampleComplete, eventOf sampleCompleted sampleComplete]

theorem sampleLog_run : RouterRun ["local"] (sampleCompleted.step sampleComplete).1 sampleLog := by
  have howned : ∀ (router : AdaptiveRouter Float) (log : List (RouterEvent Float)),
      eventOf sampleReady sampleSelect ∈ log →
        ∀ a, (eventOf router sampleComplete).Completes a → ∃ f ∈ log, f.issued = some a := by
    rintro router log hmem a ⟨_, _, _, _, hcall⟩
    cases hcall
    exact ⟨_, hmem, issued_sampleSelect⟩
  have hnew : RouterRun ["local"] (AdaptiveRouter.new ["local"] : AdaptiveRouter Float) [] :=
    .nil rfl
  have hrequalify : RouterRun ["local"] sampleReady _ :=
    hnew.snoc (happens_eventOf sampleRequalify (by rintro a ⟨_, _, _, _, h⟩; cases h))
  have hselect : RouterRun ["local"] sampleSelected _ :=
    hrequalify.snoc (happens_eventOf sampleSelect (by rintro a ⟨_, _, _, _, h⟩; cases h))
  have hcomplete : RouterRun ["local"] sampleCompleted _ :=
    hselect.snoc (happens_eventOf sampleComplete (howned _ _ (by simp)))
  exact hcomplete.snoc (happens_eventOf sampleComplete (howned _ _ (by simp)))

/-- The second completion of the one attempt changes nothing. -/
theorem circuit_breaker_sound_sample :
    ProbesExclusive (sampleCompleted.step sampleComplete).1 sampleLog ∧ CountsOnce sampleLog ∧
      BlockedStays sampleLog ∧ ∀ e ∈ sampleLog, PhaseMoves e :=
  circuit_breaker_sound sampleLog_run

end Abbey.Provider
