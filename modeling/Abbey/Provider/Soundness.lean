import Abbey.Lib.Trace
import Abbey.Provider.Routing

/-!
# The circuit breaker over whole runs

The runs of one router: calls in any order, with any arguments and clock
readings.  An attempt is a value that `select` hands out, so a completion
is always of an attempt that an earlier `select` of the run issued.

* `Change` is what one event can do to one provider's circuit, and
  `changes` says that it does nothing else.
* `Tracked` ties the attempts of the log to the circuits, and `tracked` is
  the induction over the run.
* `not_outstanding_keeps` is why an attempt counts once: what is no longer
  outstanding stays so.
-/

namespace Abbey.Provider

open Abbey.Lib Finset Option

section Runs

variable {F : Type}
variable {c c' : Circuit} {g nowMs permit : Nat} {kind : ProviderFailureKind}
  {state : ProviderState F} {a : RouteAttempt} {id : String}
variable {n : Nat}

/-! ## Events -/

inductive RouterCall (F : Type) where
  | requalify (id : String) (identity : ProviderIdentityHashes)
      (profiles : List (ProviderScoreProfile F)) (admission : RouteAdmission)
  | restoreBlocked (id : String) (identity : ProviderIdentityHashes) (reason : ProviderFailureKind)
  | setAdmission (id : String) (admission : RouteAdmission)
  | setOrder (configuredOrder : List String)
  | select (requestClass : RequestClass) (nowMs : Nat) (pinned : Option String)
      (excluded : List String)
  | complete (attempt : RouteAttempt) (kind : ProviderFailureKind) (retry : RetryAfter)
      (durationMs : Option Nat) (nowMs : Nat)

inductive RouterReply (F : Type) where
  | unit
  | accepted (done : Bool)
  | selected (reply : Except RouteUnavailableReason (RouteDecision F × RouteAttempt))
  | completed (reply : Except String (Option ProviderFailureKind))

def AdaptiveRouter.step [Floating F] (router : AdaptiveRouter F) :
    RouterCall F → AdaptiveRouter F × RouterReply F
  | .requalify id identity profiles admission =>
    let result := router.requalify id identity profiles admission
    (result.1, .accepted result.2)
  | .restoreBlocked id identity reason =>
    let result := router.restoreBlocked id identity reason
    (result.1, .accepted result.2)
  | .setAdmission id admission => (router.setAdmission id admission, .unit)
  | .setOrder configuredOrder => (router.setOrder configuredOrder, .unit)
  | .select requestClass nowMs pinned excluded =>
    let result := router.select requestClass nowMs pinned excluded
    (result.1, .selected result.2)
  | .complete attempt kind retry durationMs nowMs =>
    let result := router.complete attempt kind retry durationMs nowMs
    (result.1, .completed result.2)

/-- The generation and the circuit of a provider. -/
def AdaptiveRouter.current (router : AdaptiveRouter F) (id : String) : Option (Nat × Circuit) :=
  (router.find id).map (fun state => (state.generation, state.circuit))

structure RouterEvent (F : Type) where
  before : AdaptiveRouter F
  call : RouterCall F
  reply : RouterReply F
  after : AdaptiveRouter F

namespace RouterEvent

/-- The attempt that a `select` has returned. -/
def issued (e : RouterEvent F) : Option RouteAttempt :=
  match e.reply with
  | .selected (.ok (_, attempt)) => some attempt
  | _ => none

/-- The attempt, where its permit is the probe of its circuit. -/
def probes (e : RouterEvent F) : Option RouteAttempt :=
  e.issued.filter (fun a =>
    (e.after.current a.providerId).any (fun current => current.2.probe = some a.permit))

def Completes (e : RouterEvent F) (a : RouteAttempt) : Prop :=
  ∃ kind retry durationMs nowMs, e.call = .complete a kind retry durationMs nowMs

def Requalifies (e : RouterEvent F) (id : String) : Prop :=
  (∃ identity profiles admission, e.call = .requalify id identity profiles admission) ∧
    e.reply = .accepted true

def Restores (e : RouterEvent F) (id : String) : Prop :=
  (∃ identity reason, e.call = .restoreBlocked id identity reason) ∧ e.reply = .accepted true

/-- The provider is blocked after the event. -/
def Blocks (e : RouterEvent F) (id : String) : Prop :=
  ∃ g c, e.after.current id = some (g, c) ∧ c.snapshot.phase = .blocked

end RouterEvent

structure Happens [Floating F] (router : AdaptiveRouter F) (log : List (RouterEvent F))
    (e : RouterEvent F) (router' : AdaptiveRouter F) : Prop where
  before : e.before = router
  after : e.after = router'
  step : router.step e.call = (router', e.reply)
  owned : ∀ a, e.Completes a → ∃ f ∈ log, f.issued = some a

abbrev RouterRun [Floating F] (configuredOrder : List String) :
    AdaptiveRouter F → List (RouterEvent F) → Prop :=
  Trace (fun router => router = .new configuredOrder) Happens

/-- The attempt's permit is one of those its provider waits for. -/
def Outstanding (router : AdaptiveRouter F) (a : RouteAttempt) : Prop :=
  ∃ c, router.current a.providerId = some (a.generation, c) ∧ a.permit ∈ c.outstanding

/-! ## What an event does to one provider -/

/-- What an event does to a circuit within a generation. -/
inductive Turns (e : RouterEvent F) (id : String) (g : Nat) : Circuit → Circuit → Prop where
  | kept (c : Circuit) : Turns e id g c c
  | restored {c : Circuit} (reason : ProviderFailureKind) (call : e.Restores id) :
    Turns e id g c (Circuit.new.block reason)
  | reserved {nowMs : Nat} {c c' : Circuit} {a : RouteAttempt} (issued : e.issued = some a)
      (provider : a.providerId = id) (generation : a.generation = g)
      (reserves : c.Reserves nowMs c' a.permit) : Turns e id g c c'
  | completed {nowMs : Nat} {c c' : Circuit} {a : RouteAttempt} {kind : ProviderFailureKind}
      {retry : RetryAfter} {durationMs : Option Nat}
      (call : e.call = .complete a kind retry durationMs nowMs) (provider : a.providerId = id)
      (generation : a.generation = g)
      (completes : c.Completes a.permit nowMs c'
        (some (retry.classify (AdaptiveRouter.outcomeOf kind durationMs)))) : Turns e id g c c'

inductive Change (e : RouterEvent F) (id : String) :
    Option (Nat × Circuit) → Option (Nat × Circuit) → Prop where
  | absent : Change e id none none
  | requalified (current : Option (Nat × Circuit)) (call : e.Requalifies id)
      (next : e.after.nextGeneration = e.before.nextGeneration + 1) :
    Change e id current (some (e.before.nextGeneration + 1, .new))
  | turns {g : Nat} {c c' : Circuit} (h : Turns e id g c c') :
    Change e id (some (g, c)) (some (g, c'))

variable {e : RouterEvent F}

theorem Change.kept (current : Option (Nat × Circuit)) :
    Change e id current current := by
  cases current with
  | none => exact .absent
  | some current => exact .turns (.kept current.2)

/-- A circuit of a generation that was there before. -/
theorem Change.within (h : Change e id before (some (g, c'))) (hg : g ≤ e.before.nextGeneration) :
    ∃ c, before = some (g, c) ∧ Turns e id g c c' := by
  cases h with
  | requalified _ _ _ => omega
  | turns h => exact ⟨_, rfl, h⟩

namespace AdaptiveRouter

variable {router : AdaptiveRouter F}

theorem current_eq_some : router.current id = some (g, c) ↔
      ∃ state, router.find id = some state ∧ state.generation = g ∧ state.circuit = c := by
  unfold AdaptiveRouter.current
  rw [map_eq_some_iff]
  simp only [Prod.mk.injEq]

theorem current_of_find (h : router.find id = some state) :
    router.current id = some (state.generation, state.circuit) :=
  current_eq_some.mpr ⟨state, h, rfl, rfl⟩

/-- The circuits after one provider has been written. -/
theorem current_update {router' : AdaptiveRouter F}
    (h : ∀ k, router'.find k = if k = id then some state else router.find k) (k : String) :
    router'.current k =
      if k = id then some (state.generation, state.circuit) else router.current k := by
  unfold AdaptiveRouter.current
  rw [h k]
  split_ifs <;> rfl

end AdaptiveRouter

variable [Floating F]

open AdaptiveRouter

theorem issued_eq_some (h : e.before.step e.call = (e.after, e.reply))
    (hissued : e.issued = some a) :
    ∃ requestClass nowMs pinned excluded decision,
      e.before.select requestClass nowMs pinned excluded = (e.after, .ok (decision, a)) := by
  obtain ⟨decision, hreply⟩ : ∃ decision, e.reply = .selected (.ok (decision, a)) := by
    unfold RouterEvent.issued at hissued
    split at hissued
    · rename_i decision attempt hreply
      cases hissued
      exact ⟨decision, hreply⟩
    · cases hissued
  rw [hreply] at h
  cases hcall : e.call with
  | select requestClass nowMs pinned excluded =>
    rw [hcall] at h
    simp only [step, Prod.mk.injEq, RouterReply.selected.injEq] at h
    exact ⟨requestClass, nowMs, pinned, excluded, decision, Prod.ext h.1 h.2⟩
  | _ =>
    rw [hcall] at h
    simp [step] at h

section

variable (h : e.before.step e.call = (e.after, e.reply))
  (hsound : ∀ id g c, e.before.current id = some (g, c) → c.Sound)

include h hsound

/-- An attempt is a reservation at its provider's circuit. -/
theorem issued_spec (hissued : e.issued = some a) :
    ∃ nowMs c c', e.before.current a.providerId = some (a.generation, c) ∧
      c.Reserves nowMs c' a.permit ∧ e.after.nextGeneration = e.before.nextGeneration ∧
      ∀ k, e.after.current k =
        if k = a.providerId then some (a.generation, c') else e.before.current k := by
  obtain ⟨requestClass, nowMs, pinned, excluded, decision, hselect⟩ := issued_eq_some h hissued
  rcases select_spec hselect with ⟨⟨reason, hreason⟩, _⟩ |
    ⟨decision', attempt, state, circuit, hreply, _, hfind, hgeneration, hreserve, hnext, hafter⟩
  · cases hreason
  · cases hreply
    have hcurrent := current_of_find hfind
    have hreserves := Circuit.reserve_spec (hsound _ _ _ hcurrent) hreserve
    rw [← hgeneration] at hcurrent
    refine ⟨nowMs, state.circuit, circuit, hcurrent, hreserves, hnext, fun k => ?_⟩
    rw [current_update hafter k, hgeneration]

/-- What an event does: the counter of generations never goes back, and
every provider's circuit changes as `Change` says. -/
theorem changes : e.before.nextGeneration ≤ e.after.nextGeneration ∧
      ∀ id, Change e id (e.before.current id) (e.after.current id) := by
  have hkept : e.after = e.before → e.before.nextGeneration ≤ e.after.nextGeneration ∧
      ∀ id, Change e id (e.before.current id) (e.after.current id) := by
    intro hsame
    rw [hsame]
    exact ⟨Nat.le_refl _, fun id => .kept _⟩
  cases hcall : e.call with
  | requalify p identity profiles admission =>
    obtain ⟨done, hrequalify, hreply⟩ : ∃ done,
        e.before.requalify p identity profiles admission = (e.after, done) ∧
          e.reply = .accepted done := by
      simp only [hcall, step, Prod.mk.injEq] at h
      exact ⟨_, Prod.ext h.1 rfl, h.2.symm⟩
    rcases requalify_spec hrequalify with ⟨_, hsame⟩ | ⟨rfl, hnext, found, hafter⟩
    · exact hkept hsame
    · refine ⟨by omega, fun id => ?_⟩
      rw [current_update hafter id]
      split_ifs with hid
      · subst hid
        exact .requalified _ ⟨⟨identity, profiles, admission, hcall⟩, hreply⟩ hnext
      · exact .kept _
  | restoreBlocked p identity reason =>
    obtain ⟨done, hrestore, hreply⟩ : ∃ done,
        e.before.restoreBlocked p identity reason = (e.after, done) ∧ e.reply = .accepted done := by
      simp only [hcall, step, Prod.mk.injEq] at h
      exact ⟨_, Prod.ext h.1 rfl, h.2.symm⟩
    rcases restoreBlocked_spec hrestore with ⟨_, hsame⟩ | ⟨rfl, hnext, state, hfind, hafter⟩
    · exact hkept hsame
    · refine ⟨by omega, fun id => ?_⟩
      rw [current_update hafter id]
      split_ifs with hid
      · subst hid
        rw [current_of_find hfind]
        exact .turns (.restored reason ⟨⟨identity, reason, hcall⟩, hreply⟩)
      · exact .kept _
  | setAdmission p admission =>
    simp only [hcall, step, Prod.mk.injEq] at h
    obtain ⟨hnext, hafter⟩ := setAdmission_spec e.before p admission
    rw [h.1] at hnext hafter
    refine ⟨by omega, fun id => ?_⟩
    have hsame : e.after.current id = e.before.current id := by
      unfold AdaptiveRouter.current
      rw [hafter id, Option.map_map]
      refine congrFun (congrArg Option.map (funext fun state => ?_)) _
      simp only [Function.comp_apply]
      split_ifs <;> rfl
    rw [hsame]
    exact .kept _
  | setOrder order =>
    simp only [hcall, step, Prod.mk.injEq] at h
    rw [← h.1]
    exact ⟨Nat.le_refl _, fun id => .kept _⟩
  | select requestClass nowMs pinned excluded =>
    obtain ⟨reply, hselect, hreply⟩ : ∃ reply,
        e.before.select requestClass nowMs pinned excluded = (e.after, reply) ∧
          e.reply = .selected reply := by
      simp only [hcall, step, Prod.mk.injEq] at h
      exact ⟨_, Prod.ext h.1 rfl, h.2.symm⟩
    rcases select_spec hselect with ⟨_, hsame⟩ | ⟨decision, a, _, _, rfl, _⟩
    · exact hkept hsame
    · have hissued : e.issued = some a := by rw [RouterEvent.issued, hreply]
      obtain ⟨_, c, c', hbefore, hreserves, hnext, hafter⟩ := issued_spec h hsound hissued
      refine ⟨by omega, fun id => ?_⟩
      rw [hafter id]
      split_ifs with hid
      · subst hid
        rw [hbefore]
        exact .turns (.reserved hissued rfl rfl hreserves)
      · exact .kept _
  | complete a kind retry durationMs nowMs =>
    simp only [hcall, step, Prod.mk.injEq] at h
    have hcircuits : ∀ id state, e.before.find id = some state → state.circuit.Sound :=
      fun id state hfind => hsound id _ _ (current_of_find hfind)
    have hcomplete : e.before.complete a kind retry durationMs nowMs = (e.after, _) :=
      Prod.ext h.1 rfl
    rcases complete_spec hcircuits hcomplete with hsame |
      ⟨state, circuit, effective, profiles, hfind, hgeneration, rfl, hcompletes, hnext, hafter⟩
    · exact hkept hsame
    · refine ⟨by omega, fun id => ?_⟩
      rw [current_update hafter id]
      split_ifs with hid
      · subst hid
        rw [current_of_find hfind]
        exact .turns (.completed hcall rfl hgeneration.symm hcompletes)
      · exact .kept _

end

/-! ## The attempts of a run -/

/-- What the log of a run says about the circuits. -/
structure Tracked (router : AdaptiveRouter F) (log : List (RouterEvent F)) : Prop where
  sound : ∀ id g c, router.current id = some (g, c) → c.Sound
  generation : ∀ id g c, router.current id = some (g, c) → g ≤ router.nextGeneration
  issuedGeneration : ∀ e ∈ log, ∀ a, e.issued = some a → a.generation ≤ router.nextGeneration
  permit : ∀ e ∈ log, ∀ a, e.issued = some a → ∀ c,
    router.current a.providerId = some (a.generation, c) →
      c.snapshot.phase = .blocked ∨ a.permit ≤ c.nextPermit
  probe : ∀ e ∈ log, ∀ a, e.probes = some a → ∀ c,
    router.current a.providerId = some (a.generation, c) → a.permit ∈ c.outstanding →
      c.probe = some a.permit
  reserved : ∀ id g c n, router.current id = some (g, c) → c.probe = some n →
    ∃ e ∈ log, ∃ a, e.probes = some a ∧ a.providerId = id ∧ a.generation = g ∧ a.permit = n

namespace Circuit

section

variable (h : c.Reserves nowMs c' permit)

include h

theorem Reserves.phase : c.snapshot.phase ≠ .blocked := by
  cases h with
  | plain hphase => simp [hphase]
  | probe hphase _ =>
    rcases hphase with hhalf | ⟨hopened, _⟩
    · simp [hhalf]
    · simp [hopened]

theorem Reserves.fields : permit = c.nextPermit + 1 ∧ c'.nextPermit = permit ∧
      c'.outstanding = insert permit c.outstanding ∧
      (c'.probe = c.probe ∨ c.probe = none ∧ c'.probe = some permit) := by
  cases h with
  | plain _ => exact ⟨rfl, rfl, rfl, .inl rfl⟩
  | probe _ hfree => exact ⟨rfl, rfl, rfl, .inr ⟨hfree, rfl⟩⟩

theorem Reserves.snapshot :
    c'.snapshot = c.snapshot ∨ c'.snapshot.phase = .halfOpen ∧ c'.snapshot.openUntilMs = none := by
  cases h with
  | plain _ => exact .inl rfl
  | probe _ _ => exact .inr ⟨rfl, rfl⟩

/-- A circuit that reserves has no probe. -/
theorem Reserves.free (hc : c.Sound) : c.probe = none := by
  cases h with
  | plain hphase => exact hc.probe_eq_none (by simp [hphase])
  | probe _ hfree => exact hfree

end

section

variable (h : c.Completes permit nowMs c' (some kind))

include h

/-- An outcome that counts takes its permit from those that are waited for. -/
theorem Completes.outstanding :
    permit ∈ c.outstanding ∧ permit ∉ c'.outstanding ∧ c'.outstanding ⊆ c.outstanding := by
  cases h with
  | blocks hmem _ _ =>
    exact ⟨hmem, notMem_empty _, empty_subset _⟩
  | counts hmem _ hcounts =>
    rw [hcounts.outstanding]
    exact ⟨hmem, notMem_erase _ _, erase_subset _ _⟩

/-- Another attempt's probe stays the probe for as long as it is waited for. -/
theorem Completes.probe (hn : n ∈ c'.outstanding)
    (hprobe : c.probe = some n) : c'.probe = some n := by
  cases h with
  | blocks _ _ _ => exact absurd hn (notMem_empty n)
  | counts _ _ hcounts =>
    rw [hcounts.outstanding] at hn
    have hne : n ≠ permit := ne_of_mem_erase hn
    rw [hcounts.probe, hprobe, if_neg (by simpa using hne)]

theorem Completes.probe_before (hprobe : c'.probe = some n) : c.probe = some n := by
  cases h with
  | blocks _ _ _ => cases hprobe
  | counts _ _ hcounts =>
    rw [hcounts.probe] at hprobe
    split_ifs at hprobe
    exact hprobe

theorem Completes.permits (hn : n ≤ c.nextPermit) :
    c'.snapshot.phase = .blocked ∨ n ≤ c'.nextPermit := by
  cases h with
  | blocks _ _ _ => exact .inl rfl
  | counts _ _ hcounts =>
    rw [hcounts.nextPermit]
    exact .inr hn

theorem Completes.phase : c.snapshot.phase ≠ .blocked := by
  cases h with
  | blocks _ hphase _ => exact hphase
  | counts _ hphase _ => exact hphase

end

end Circuit

theorem issued_of_probes (h : e.probes = some a) :
    e.issued = some a := (filter_eq_some_iff.mp h).1

section Step

variable {router router' : AdaptiveRouter F} {log : List (RouterEvent F)} {e : RouterEvent F}
variable {f : RouterEvent F}

theorem Happens.step_eq (h : Happens router log e router') :
    e.before.step e.call = (e.after, e.reply) := by
  rw [h.before, h.after]
  exact h.step

section

variable (h : Happens router log e router') (ht : Tracked router log)

include h ht

theorem Happens.changes (id : String) : Change e id (router.current id) (router'.current id) := by
  have hchanges := (Provider.changes h.step_eq (by rw [h.before]; exact ht.sound)).2 id
  rwa [h.before, h.after] at hchanges

theorem Happens.nextGeneration_le : router.nextGeneration ≤ router'.nextGeneration := by
  have hle := (Provider.changes h.step_eq (by rw [h.before]; exact ht.sound)).1
  rwa [h.before, h.after] at hle

theorem Happens.issued_spec (hissued : e.issued = some a) :
    ∃ nowMs c c', router.current a.providerId = some (a.generation, c) ∧
      c.Reserves nowMs c' a.permit ∧ router'.nextGeneration = router.nextGeneration ∧
      ∀ k, router'.current k =
        if k = a.providerId then some (a.generation, c') else router.current k := by
  have hspec := Provider.issued_spec h.step_eq (by rw [h.before]; exact ht.sound) hissued
  rwa [h.before, h.after] at hspec

/-- A circuit of a generation that was there before. -/
theorem Happens.within
    (hafter : router'.current id = some (g, c')) (hg : g ≤ router.nextGeneration) :
    ∃ c, router.current id = some (g, c) ∧ Turns e id g c c' := by
  have hchange := h.changes ht id
  rw [hafter] at hchange
  exact hchange.within (by rw [h.before]; exact hg)

end

variable (ht : Tracked router log)

include ht

variable (h : Happens router log e router')

include h

theorem Tracked.permit_step (hf : f ∈ log) (ha : f.issued = some a)
    (hafter : router'.current a.providerId = some (a.generation, c')) :
    c'.snapshot.phase = .blocked ∨ a.permit ≤ c'.nextPermit := by
  obtain ⟨c, hbefore, hturns⟩ := h.within ht hafter (ht.issuedGeneration f hf a ha)
  have hold := ht.permit f hf a ha c hbefore
  cases hturns with
  | kept => exact hold
  | restored reason _ => exact .inl rfl
  | reserved _ _ _ hreserves =>
    obtain ⟨hpermit, hnext, _, _⟩ := hreserves.fields
    have hle := hold.resolve_left hreserves.phase
    exact .inr (by omega)
  | completed _ _ _ hcompletes => exact hcompletes.permits (hold.resolve_left hcompletes.phase)

theorem Tracked.probe_step (hf : f ∈ log) (ha : f.probes = some a)
    (hafter : router'.current a.providerId = some (a.generation, c'))
    (hmem : a.permit ∈ c'.outstanding) : c'.probe = some a.permit := by
  have hissued := issued_of_probes ha
  obtain ⟨c, hbefore, hturns⟩ := h.within ht hafter (ht.issuedGeneration f hf a hissued)
  have hold := ht.probe f hf a ha c hbefore
  cases hturns with
  | kept => exact hold hmem
  | restored reason _ => exact absurd hmem (notMem_empty _)
  | reserved _ _ _ hreserves =>
    obtain ⟨hpermit, _, houtstanding, _⟩ := hreserves.fields
    have hle := (ht.permit f hf a hissued c hbefore).resolve_left hreserves.phase
    rw [houtstanding, mem_insert] at hmem
    have hprobe := hold (hmem.resolve_left (by omega))
    rw [hreserves.free (ht.sound _ _ _ hbefore)] at hprobe
    cases hprobe
  | completed _ _ _ hcompletes =>
    exact hcompletes.probe hmem (hold (hcompletes.outstanding.2.2 hmem))

/-- A probe was reserved by an attempt of the log. -/
theorem Tracked.reserved_step (hafter : router'.current id = some (g, c'))
    (hprobe : c'.probe = some n) :
    ∃ f ∈ log ++ [e], ∃ a, f.probes = some a ∧ a.providerId = id ∧
      a.generation = g ∧ a.permit = n := by
  have hold : ∀ c, router.current id = some (g, c) → c.probe = some n → ∃ f ∈ log ++ [e], ∃ a,
      f.probes = some a ∧ a.providerId = id ∧ a.generation = g ∧ a.permit = n := by
    intro c hbefore hprobe
    obtain ⟨f, hf, hattempt⟩ := ht.reserved id g c n hbefore hprobe
    exact ⟨f, List.mem_append_left _ hf, hattempt⟩
  have hchange := h.changes ht id
  rw [hafter] at hchange
  generalize hbefore : router.current id = before at hchange
  cases hchange with
  | requalified _ _ _ => cases hprobe
  | turns hturns =>
    cases hturns with
    | kept => exact hold c' hbefore hprobe
    | restored _ _ => cases hprobe
    | @reserved _ _ _ a hissued hprovider hgeneration hreserves =>
      rcases hreserves.fields.2.2.2 with hsame | ⟨_, hown⟩
      · exact hold _ hbefore (hsame ▸ hprobe)
      · refine ⟨e, by simp, a, ?_, hprovider, hgeneration, some.inj (hown.symm.trans hprobe)⟩
        simp [RouterEvent.probes, hissued, h.after, hprovider, hafter, hown]
    | completed _ _ _ hcompletes => exact hold _ hbefore (hcompletes.probe_before hprobe)

theorem Tracked.sound_step (hafter : router'.current id = some (g, c')) :
    c'.Sound ∧ g ≤ router'.nextGeneration := by
  have hle := h.nextGeneration_le ht
  have hchange := h.changes ht id
  rw [hafter] at hchange
  generalize hbefore : router.current id = before at hchange
  cases hchange with
  | requalified _ _ hnext =>
    rw [h.before, h.after] at hnext
    exact ⟨Circuit.sound_new, by rw [h.before, hnext]⟩
  | @turns _ c _ hturns =>
    have hsound := ht.sound id g c hbefore
    refine ⟨?_, Nat.le_trans (ht.generation id g c hbefore) hle⟩
    cases hturns with
    | kept => exact hsound
    | restored reason _ => exact Circuit.sound_block _ reason
    | reserved _ _ _ hreserves => exact hsound.reserves hreserves
    | completed _ _ _ hcompletes => exact hsound.completes hcompletes

theorem Tracked.step : Tracked router' (log ++ [e]) where
  sound _ _ _ hafter := (ht.sound_step h hafter).1
  generation _ _ _ hafter := (ht.sound_step h hafter).2
  issuedGeneration f hf a ha := by
    rcases List.mem_append.mp hf with hold | hlast
    · exact Nat.le_trans (ht.issuedGeneration f hold a ha) (h.nextGeneration_le ht)
    · rw [List.mem_singleton.mp hlast] at ha
      obtain ⟨_, c, _, hbefore, _, hnext, _⟩ := h.issued_spec ht ha
      rw [hnext]
      exact ht.generation _ _ _ hbefore
  permit f hf a ha c' hafter := by
    rcases List.mem_append.mp hf with hold | hlast
    · exact ht.permit_step h hold ha hafter
    · rw [List.mem_singleton.mp hlast] at ha
      obtain ⟨_, _, _, _, hreserves, _, hcurrent⟩ := h.issued_spec ht ha
      rw [hcurrent, if_pos rfl] at hafter
      cases hafter
      exact .inr (Nat.le_of_eq hreserves.fields.2.1.symm)
  probe f hf a ha c' hafter hmem := by
    rcases List.mem_append.mp hf with hold | hlast
    · exact ht.probe_step h hold ha hafter hmem
    · rw [List.mem_singleton.mp hlast] at ha
      have hown := (filter_eq_some_iff.mp ha).2
      rw [h.after, hafter] at hown
      simpa using hown
  reserved _ _ _ _ hafter hprobe := ht.reserved_step h hafter hprobe

omit h

omit ht

theorem tracked {configuredOrder : List String} (h : RouterRun configuredOrder router log) :
    Tracked router log := by
  refine h.invariant (fun router hstart => ?_) (fun _ _ _ _ ht hnext => ht.step hnext)
  have hnone : ∀ id, router.current id = none := by
    intro id
    rw [hstart]
    rfl
  constructor
  · intro id g c hcurrent
    rw [hnone id] at hcurrent
    cases hcurrent
  · intro id g c hcurrent
    rw [hnone id] at hcurrent
    cases hcurrent
  · intro e he
    cases he
  · intro e he
    cases he
  · intro e he
    cases he
  · intro id g c n hcurrent
    rw [hnone id] at hcurrent
    cases hcurrent

section

variable (ht : Tracked router log) (h : Happens router log e router')

include ht h

/-- What is no longer outstanding stays so. -/
theorem not_outstanding_keeps
    (hf : f ∈ log) (ha : f.issued = some a) (hdone : ¬ Outstanding router a) :
    ¬ Outstanding router' a := by
  rintro ⟨c', hafter, hmem⟩
  obtain ⟨c, hbefore, hturns⟩ := h.within ht hafter (ht.issuedGeneration f hf a ha)
  have hnotMem : a.permit ∉ c.outstanding := fun hmem => hdone ⟨c, hbefore, hmem⟩
  cases hturns with
  | kept => exact hnotMem hmem
  | restored _ _ => exact notMem_empty _ hmem
  | reserved _ _ _ hreserves =>
    obtain ⟨hpermit, _, houtstanding, _⟩ := hreserves.fields
    have hle := (ht.permit f hf a ha c hbefore).resolve_left hreserves.phase
    rw [houtstanding, mem_insert] at hmem
    exact hnotMem (hmem.resolve_left (by omega))
  | completed _ _ _ hcompletes => exact hnotMem (hcompletes.outstanding.2.2 hmem)

/-! ## Completions -/

/-- A completion changes nothing, or it takes the permit of its attempt. -/
theorem completes_cases
    (hcall : e.Completes a) : router' = router ∨ Outstanding router a ∧ ¬ Outstanding router' a := by
  obtain ⟨kind, retry, durationMs, nowMs, hcall⟩ := hcall
  have hstep := h.step
  rw [hcall] at hstep
  simp only [step, Prod.mk.injEq] at hstep
  have hcomplete : router.complete a kind retry durationMs nowMs = (router', _) :=
    Prod.ext hstep.1 rfl
  have hcircuits : ∀ id state, router.find id = some state → state.circuit.Sound :=
    fun id state hfind => ht.sound id _ _ (current_of_find hfind)
  rcases complete_spec hcircuits hcomplete with hsame |
    ⟨state, circuit, effective, profiles, hfind, hgeneration, _, hcompletes, _, hafter⟩
  · exact .inl hsame
  · have hcurrent := current_of_find hfind
    rw [hgeneration] at hcurrent
    refine .inr ⟨⟨state.circuit, hcurrent, hcompletes.outstanding.1⟩, ?_⟩
    rintro ⟨c', hcurrent, hmem⟩
    rw [current_update hafter, if_pos rfl, some.injEq, Prod.mk.injEq] at hcurrent
    rw [← hcurrent.2] at hmem
    exact hcompletes.outstanding.2.1 hmem

/-- A new generation, and a circuit that is blocked, wait for no attempt
of before. -/
theorem not_outstanding_of_replaced (hf : f ∈ log) (ha : f.issued = some a)
    (hcall : e.Requalifies a.providerId ∨ e.Restores a.providerId ∨ e.Blocks a.providerId) :
    ¬ Outstanding router' a := by
  rintro ⟨c', hafter, hmem⟩
  have hlive : c'.snapshot.phase ≠ .blocked := by
    intro hblocked
    rw [(ht.step h).sound _ _ _ hafter |>.blocked hblocked] at hmem
    exact notMem_empty _ hmem
  have hle := ht.issuedGeneration f hf a ha
  rcases hcall with hrequalifies | hrestores | ⟨g, c, hcurrent, hblocked⟩
  · obtain ⟨⟨identity, profiles, admission, hcall⟩, hreply⟩ := hrequalifies
    have hstep := h.step
    simp only [hcall, hreply, step, Prod.mk.injEq, RouterReply.accepted.injEq] at hstep
    rcases requalify_spec (Prod.ext hstep.1 hstep.2) with ⟨hdone, _⟩ | ⟨_, hnext, found, hfind⟩
    · cases hdone
    · rw [current_update hfind, if_pos rfl, some.injEq, Prod.mk.injEq] at hafter
      have hnew : router.nextGeneration + 1 = a.generation := hafter.1
      omega
  · obtain ⟨⟨identity, reason, hcall⟩, hreply⟩ := hrestores
    have hstep := h.step
    simp only [hcall, hreply, step, Prod.mk.injEq, RouterReply.accepted.injEq] at hstep
    rcases restoreBlocked_spec (Prod.ext hstep.1 hstep.2) with ⟨hdone, _⟩ | ⟨_, _, state, _, hfind⟩
    · cases hdone
    · rw [current_update hfind, if_pos rfl, some.injEq, Prod.mk.injEq] at hafter
      rw [← hafter.2] at hlive
      exact hlive rfl
  · rw [h.after, hafter] at hcurrent
    cases hcurrent
    exact hlive hblocked

end

end Step

end Runs

end Abbey.Provider
