import Mathlib.Data.Finset.Basic
import Mathlib.Order.Defs.LinearOrder
import Abbey.Lib.Checked

/-!
# The circuit of one provider

`extensions/bot/src/provider/circuit.rs`: the outcomes of an attempt, the
retry metadata that may come with them, and the circuit breaker.  Instants
are milliseconds of a clock that the caller reads, which may go backwards.

* `Sound` is the invariant of a circuit.
* `Reserves` and `Completes` are what `reserve` and `complete` can do to a
  sound circuit, with `reserve_spec` and `complete_spec`.
-/

namespace Abbey.Provider

open Abbey.Lib Option Except

variable {nowMs permit : Nat}

inductive ProviderFailureKind where
  | success
  | transportUnavailable
  | timeout
  | http5xx
  | rateLimited
  | authentication
  | authorization
  | configuration
  | executableIdentity
  | modelIdentity
  | sandboxIdentity
  | toolSchema
  | responseSchema
  | protocolDrift
  | cancelled
  | invalidRequest
  | busy
deriving DecidableEq

variable {kind : ProviderFailureKind}

namespace ProviderFailureKind

def isTransient (kind : ProviderFailureKind) : Bool :=
  kind ∈ [transportUnavailable, timeout, http5xx, rateLimited]

def isBlocked (kind : ProviderFailureKind) : Bool :=
  kind ∈ [authentication, authorization, configuration, executableIdentity, modelIdentity,
    sandboxIdentity, toolSchema, responseSchema, protocolDrift]

def isNeutral (kind : ProviderFailureKind) : Bool := kind ∈ [cancelled, invalidRequest, busy]

end ProviderFailureKind

/-- The largest `u64`. -/
def u64Max : Nat := 2 ^ 64 - 1

/-- `u64::saturating_add`. -/
def saturatingAdd (a b : Nat) : Nat := min (a + b) u64Max

/-- The metadata of a `Retry-After` header, a duration in nanoseconds. -/
inductive RetryAfter where
  | absent
  | valid (nanos : Nat)
  | invalid
deriving DecidableEq

variable {retry : RetryAfter}

namespace RetryAfter

def fromDuration (nanos : Nat) : RetryAfter :=
  if 1000000000 ≤ nanos ∧ nanos ≤ 900000000000 then valid nanos else invalid

def classify (retry : RetryAfter) (kind : ProviderFailureKind) : ProviderFailureKind :=
  match retry with
  | absent => kind
  | valid delay =>
    if (kind = .http5xx ∨ kind = .rateLimited) ∧ fromDuration delay = valid delay then kind
    else .protocolDrift
  | invalid => .protocolDrift

def millis : RetryAfter → Option Nat
  | valid nanos =>
    let ms := (nanos + 999999) / 1000000
    if ms ≤ u64Max then some ms else none
  | _ => none

/-- A delay that is accepted is at most fifteen minutes. -/
theorem millis_le (hkind : (retry.classify kind).isBlocked = false)
    (hms : retry.millis = some ms) : ms ≤ 900000 := by
  cases retry with
  | absent => cases hms
  | invalid => cases hms
  | valid nanos =>
    simp only [classify] at hkind
    split_ifs at hkind with haccepted
    · have hrange : nanos ≤ 900000000000 := by
        have hvalid := haccepted.2
        unfold fromDuration at hvalid
        split_ifs at hvalid with hbounds
        exact hbounds.2
      simp only [millis] at hms
      split_ifs at hms
      cases hms
      omega
    · cases hkind

end RetryAfter

inductive CircuitPhase where
  | closed
  | opened
  | halfOpen
  | blocked
deriving DecidableEq

structure CircuitSnapshot where
  phase : CircuitPhase
  reason : Option ProviderFailureKind
  openingLevel : Nat
  openUntilMs : Option Nat
  probeReserved : Bool

inductive CircuitUnavailable where
  | opened
  | blocked
  | busy

structure Circuit where
  snapshot : CircuitSnapshot
  recent : List Nat
  outstanding : Finset Nat
  probe : Option Nat
  nextPermit : Nat

variable {c c' : Circuit}

namespace Circuit

def new : Circuit := ⟨⟨.closed, none, 0, none, false⟩, [], ∅, none, 0⟩

def block (c : Circuit) (reason : ProviderFailureKind) : Circuit :=
  { c with
    recent := []
    probe := none
    outstanding := ∅
    snapshot :=
      { c.snapshot with
        phase := .blocked
        reason := some reason
        openUntilMs := none
        probeReserved := false } }

/-- A persisted identity block, restored without treating a restart as qualification. -/
def restoreBlocked (reason : ProviderFailureKind) : Option Circuit :=
  if !reason.isBlocked then none else some (new.block reason)

def availability (c : Circuit) (nowMs : Nat) : Except CircuitUnavailable Unit :=
  if c.snapshot.phase = .blocked then .error .blocked
  else if c.snapshot.phase = .opened ∧ nowMs < c.snapshot.openUntilMs.getD u64Max then .error .opened
  else if c.snapshot.phase = .halfOpen ∧ c.probe.isSome then .error .busy
  else if c.nextPermit = u64Max then .error .busy
  else .ok ()

def reserve (c : Circuit) (nowMs : Nat) : Except CircuitUnavailable (Circuit × Nat) := do
  c.availability nowMs
  let permit := c.nextPermit + 1
  let c := { c with nextPermit := permit }
  let c := if c.snapshot.phase = .opened then
      { c with snapshot := { c.snapshot with phase := .halfOpen, openUntilMs := none } }
    else c
  let c := if c.snapshot.phase = .halfOpen then
      { c with probe := some permit, snapshot := { c.snapshot with probeReserved := true } }
    else c
  .ok ({ c with outstanding := insert permit c.outstanding }, permit)

/-- `open`, for a delay from now on. -/
def openFor (c : Circuit) (nowMs delayMs level : Nat) (reason : ProviderFailureKind) : Circuit :=
  { c with
    recent := []
    probe := none
    snapshot := ⟨.opened, some reason, level, some (saturatingAdd nowMs delayMs), false⟩ }

/-- The part of `complete` that depends on the phase: an outcome that is
neither blocked nor neutral, of an attempt that was outstanding. -/
def settle (c : Circuit) (ownsProbe : Bool) (kind : ProviderFailureKind) (retry : RetryAfter)
    (nowMs : Nat) : Circuit :=
  match c.snapshot.phase with
  | .closed =>
    let c := { c with recent := c.recent.filter (fun time => nowMs - time ≤ 300000) }
    if kind.isTransient then
      let c := { c with recent := c.recent ++ [nowMs] }
      let normal := if 3 ≤ c.recent.length then 60000 else 0
      if normal ≠ 0 ∨ retry.millis.isSome then
        c.openFor nowMs (max normal (retry.millis.getD 0)) 0 kind
      else c
    else c
  | .opened =>
    match kind.isTransient, retry.millis with
    | true, some delay =>
      { c with
        snapshot :=
          { c.snapshot with
            openUntilMs := some (max (c.snapshot.openUntilMs.getD 0) (saturatingAdd nowMs delay)) } }
    | _, _ => c
  | .halfOpen =>
    if ownsProbe then
      if kind = .success then { c with snapshot := new.snapshot, recent := [] }
      else if kind.isTransient then
        let normal := if c.snapshot.openingLevel = 0 then 300000 else 900000
        c.openFor nowMs (min (max normal (retry.millis.getD 0)) 900000)
          (min (c.snapshot.openingLevel + 1) 2) kind
      else c
    else c
  | .blocked => c

/-- The circuit after an attempt's outcome, and the outcome that counts, if any. -/
def complete (c : Circuit) (permit : Nat) (kind : ProviderFailureKind) (retry : RetryAfter)
    (nowMs : Nat) : Circuit × Option ProviderFailureKind :=
  let removed := { c with outstanding := c.outstanding.erase permit }
  if permit ∉ c.outstanding ∨ c.snapshot.phase = .blocked then (removed, none)
  else
    let kind := retry.classify kind
    if kind.isBlocked then (removed.block kind, some kind)
    else
      let ownsProbe : Bool := removed.probe = some permit
      let freed := if ownsProbe then
          { removed with
            probe := none
            snapshot := { removed.snapshot with probeReserved := false } }
        else removed
      if kind.isNeutral then (freed, some kind)
      else (freed.settle ownsProbe kind retry nowMs, some kind)

/-! ## The invariant -/

structure Sound (c : Circuit) : Prop where
  probe : ∀ n, c.probe = some n → n ∈ c.outstanding ∧ c.snapshot.phase = .halfOpen
  reserved : c.snapshot.probeReserved = c.probe.isSome
  openUntil : c.snapshot.openUntilMs.isSome = true ↔ c.snapshot.phase = .opened
  recent : c.snapshot.phase = .closed → c.recent.length < 3
  issued : ∀ n ∈ c.outstanding, n ≤ c.nextPermit
  blocked : c.snapshot.phase = .blocked → c.outstanding = ∅

theorem sound_new : new.Sound where
  probe _ h := by cases h
  reserved := rfl
  openUntil := by simp [new]
  recent _ := by simp [new]
  issued _ h := absurd h (Finset.notMem_empty _)
  blocked _ := rfl

theorem sound_block (c : Circuit) (reason : ProviderFailureKind) : (c.block reason).Sound where
  probe _ h := by cases h
  reserved := rfl
  openUntil := by simp [block]
  recent h := by cases h
  issued _ h := absurd h (Finset.notMem_empty _)
  blocked _ := rfl

/-! ## What a reservation does -/

/-- A permit of a closed circuit, or the probe of one whose delay is over. -/
inductive Reserves (c : Circuit) (nowMs : Nat) : Circuit → Nat → Prop where
  | plain (phase : c.snapshot.phase = .closed) :
    Reserves c nowMs
      { c with
        nextPermit := c.nextPermit + 1
        outstanding := insert (c.nextPermit + 1) c.outstanding }
      (c.nextPermit + 1)
  | probe (phase : c.snapshot.phase = .halfOpen ∨
        c.snapshot.phase = .opened ∧ c.snapshot.openUntilMs.getD u64Max ≤ nowMs)
      (free : c.probe = none) :
    Reserves c nowMs
      { c with
        nextPermit := c.nextPermit + 1
        outstanding := insert (c.nextPermit + 1) c.outstanding
        probe := some (c.nextPermit + 1)
        snapshot :=
          { c.snapshot with phase := .halfOpen, openUntilMs := none, probeReserved := true } }
      (c.nextPermit + 1)

theorem availability_eq_ok (h : c.availability nowMs = .ok ()) : c.snapshot.phase ≠ .blocked ∧
      (c.snapshot.phase = .opened → c.snapshot.openUntilMs.getD u64Max ≤ nowMs) ∧
      (c.snapshot.phase = .halfOpen → c.probe = none) := by
  unfold availability at h
  split_ifs at h with hblocked hopened hhalf hlast
  refine ⟨hblocked, fun hphase => ?_, fun hphase => ?_⟩
  · by_contra hlt
    exact hopened ⟨hphase, by omega⟩
  · by_contra hprobe
    exact hhalf ⟨hphase, isSome_iff_ne_none.mpr hprobe⟩

theorem Sound.openUntil_eq_none (hc : c.Sound) (h : c.snapshot.phase ≠ .opened) :
    c.snapshot.openUntilMs = none := by
  by_contra hsome
  exact h (hc.openUntil.mp (isSome_iff_ne_none.mpr hsome))

theorem Sound.probe_eq_none (hc : c.Sound) (h : c.snapshot.phase ≠ .halfOpen) : c.probe = none := by
  cases hprobe : c.probe with
  | none => rfl
  | some n => exact absurd (hc.probe n hprobe).2 h

theorem reserve_spec (hc : c.Sound) (h : c.reserve nowMs = .ok (c', permit)) :
    Reserves c nowMs c' permit := by
  simp only [reserve, bind_ok_iff] at h
  obtain ⟨_, havailable, h⟩ := h
  obtain ⟨hblocked, hdue, hfree⟩ := availability_eq_ok havailable
  cases hphase : c.snapshot.phase with
  | blocked => exact absurd hphase hblocked
  | closed =>
    simp only [hphase, reduceCtorEq, if_false, ok.injEq, Prod.mk.injEq] at h
    obtain ⟨rfl, rfl⟩ := h
    exact .plain hphase
  | opened =>
    simp only [hphase, if_true, ok.injEq, Prod.mk.injEq] at h
    obtain ⟨rfl, rfl⟩ := h
    exact .probe (.inr ⟨hphase, hdue hphase⟩) (hc.probe_eq_none (by simp [hphase]))
  | halfOpen =>
    simp only [hphase, reduceCtorEq, if_false, if_true, ok.injEq, Prod.mk.injEq] at h
    obtain ⟨rfl, rfl⟩ := h
    have hprobes : Reserves c nowMs _ _ := .probe (.inl hphase) (hfree hphase)
    rw [← hc.openUntil_eq_none (by simp [hphase])] at hprobes
    exact hprobes

theorem Sound.reserves (hc : c.Sound) (h : Reserves c nowMs c' permit) : c'.Sound := by
  have hissued : ∀ n ∈ insert (c.nextPermit + 1) c.outstanding, n ≤ c.nextPermit + 1 := by
    intro n hn
    rcases Finset.mem_insert.mp hn with rfl | hold
    · exact Nat.le_refl _
    · exact Nat.le_succ_of_le (hc.issued n hold)
  cases h with
  | plain hphase =>
    refine ⟨fun n hn => ?_, hc.reserved, hc.openUntil, hc.recent, hissued, fun hblocked => ?_⟩
    · exact ⟨Finset.mem_insert_of_mem (hc.probe n hn).1, (hc.probe n hn).2⟩
    · rw [show c.snapshot.phase = .blocked from hblocked] at hphase
      cases hphase
  | probe hphase hfree =>
    constructor
    · intro n hn
      cases hn
      exact ⟨Finset.mem_insert_self _ _, rfl⟩
    · rfl
    · simp
    · intro hclosed
      cases hclosed
    · exact hissued
    · intro hblocked
      cases hblocked

/-! ## What a completion does -/

/-- Where the phase goes with an outcome that counts. -/
inductive Moves (c : Circuit) (permit nowMs : Nat) (kind : ProviderFailureKind) (c' : Circuit) :
    Prop where
  | stays (phase : c'.snapshot.phase = c.snapshot.phase)
      (openUntil : c'.snapshot.openUntilMs = c.snapshot.openUntilMs)
      (recent : c.snapshot.phase = .closed → c'.recent.length < 3)
  | opens (before : c.snapshot.phase = .closed ∨
        c.snapshot.phase = .halfOpen ∧ c.probe = some permit)
      (phase : c'.snapshot.phase = .opened) (t : Nat) (openUntil : c'.snapshot.openUntilMs = some t)
      (bound : t ≤ nowMs + 900000)
  | prolongs (before : c.snapshot.phase = .opened) (phase : c'.snapshot.phase = .opened) (t : Nat)
      (openUntil : c'.snapshot.openUntilMs = some (max (c.snapshot.openUntilMs.getD 0) t))
      (bound : t ≤ nowMs + 900000)
  | closes (before : c.snapshot.phase = .halfOpen) (probe : c.probe = some permit)
      (success : kind = .success) (phase : c'.snapshot.phase = .closed)
      (openUntil : c'.snapshot.openUntilMs = none) (recent : c'.recent = [])

structure Counts (c : Circuit) (permit nowMs : Nat) (kind : ProviderFailureKind) (c' : Circuit) :
    Prop where
  outstanding : c'.outstanding = c.outstanding.erase permit
  nextPermit : c'.nextPermit = c.nextPermit
  probe : c'.probe = if c.probe = some permit then none else c.probe
  reserved : c'.snapshot.probeReserved = c'.probe.isSome
  moves : Moves c permit nowMs kind c'

/-- A completion is stale, blocks the circuit, or counts. -/
inductive Completes (c : Circuit) (permit nowMs : Nat) : Circuit → Option ProviderFailureKind → Prop
  | stale (absent : permit ∉ c.outstanding) : Completes c permit nowMs c none
  | blocks (mem : permit ∈ c.outstanding) (phase : c.snapshot.phase ≠ .blocked)
      (reason : ProviderFailureKind) :
    Completes c permit nowMs
      ({ c with outstanding := c.outstanding.erase permit }.block reason) (some reason)
  | counts {c' : Circuit} {kind : ProviderFailureKind} (mem : permit ∈ c.outstanding)
      (phase : c.snapshot.phase ≠ .blocked) (counts : Counts c permit nowMs kind c') :
    Completes c permit nowMs c' (some kind)

theorem saturatingAdd_le (h : b ≤ d) : saturatingAdd a b ≤ a + d := by
  unfold saturatingAdd
  omega

/-- The phase after an outcome that is neither blocked nor neutral. -/
theorem settle_spec {freed : Circuit} {ownsProbe : Bool} (kind : ProviderFailureKind) (nowMs : Nat)
    (hc : c.Sound) (hphase : c.snapshot.phase ≠ .blocked)
    (hdelay : ∀ ms, retry.millis = some ms → ms ≤ 900000)
    (howns : ownsProbe ↔ c.probe = some permit)
    (hfreed : freed.snapshot = { c.snapshot with probeReserved := freed.probe.isSome })
    (hrecent : freed.recent = c.recent)
    (hprobe : freed.probe = if c.probe = some permit then none else c.probe) :
    Moves c permit nowMs kind (freed.settle ownsProbe kind retry nowMs) ∧
      (freed.settle ownsProbe kind retry nowMs).outstanding = freed.outstanding ∧
      (freed.settle ownsProbe kind retry nowMs).nextPermit = freed.nextPermit ∧
      (freed.settle ownsProbe kind retry nowMs).probe = freed.probe ∧
      (freed.settle ownsProbe kind retry nowMs).snapshot.probeReserved = freed.probe.isSome := by
  have hretry : retry.millis.getD 0 ≤ 900000 := by
    cases hms : retry.millis with
    | none => simp
    | some ms => exact hdelay ms hms
  have hfreedPhase : freed.snapshot.phase = c.snapshot.phase := by rw [hfreed]
  have hfreedUntil : freed.snapshot.openUntilMs = c.snapshot.openUntilMs := by rw [hfreed]
  have hfreedReserved : freed.snapshot.probeReserved = freed.probe.isSome := by rw [hfreed]
  have hopens : freed.probe = none → (c.snapshot.phase = .closed ∨
      c.snapshot.phase = .halfOpen ∧ c.probe = some permit) → ∀ recent delay level, delay ≤ 900000 →
      let opened := { freed with recent := recent }.openFor nowMs delay level kind
      Moves c permit nowMs kind opened ∧ opened.outstanding = freed.outstanding ∧
        opened.nextPermit = freed.nextPermit ∧ opened.probe = freed.probe ∧
        opened.snapshot.probeReserved = freed.probe.isSome := by
    intro hnone hbefore recent delay level hle
    rw [hnone]
    exact ⟨.opens hbefore rfl _ rfl (saturatingAdd_le hle), rfl, rfl, rfl, rfl⟩
  unfold settle
  rw [hfreedPhase]
  cases hcase : c.snapshot.phase with
  | blocked => exact absurd hcase hphase
  | closed =>
    have hnone : freed.probe = none := by
      rw [hprobe, hc.probe_eq_none (by simp [hcase])]
      simp
    have hkept : (freed.recent.filter (fun time => decide (nowMs - time ≤ 300000))).length < 3 := by
      have hlength := List.length_filter_le (fun time => decide (nowMs - time ≤ 300000)) freed.recent
      have hold := hc.recent hcase
      rw [hrecent] at hlength ⊢
      omega
    dsimp only
    split_ifs with htransient hfull hopen hopen
    · exact hopens hnone (.inl hcase) _ _ _ (by omega)
    · exact absurd (.inl (by simp)) hopen
    · exact hopens hnone (.inl hcase) _ _ _ (by omega)
    · exact ⟨.stays hfreedPhase hfreedUntil (fun _ => Nat.lt_of_not_le hfull), rfl, rfl, rfl,
        hfreedReserved⟩
    · exact ⟨.stays hfreedPhase hfreedUntil (fun _ => hkept), rfl, rfl, rfl, hfreedReserved⟩
  | opened =>
    have hstays : Moves c permit nowMs kind freed :=
      .stays hfreedPhase hfreedUntil (fun hclosed => by rw [hcase] at hclosed; cases hclosed)
    cases htransient : kind.isTransient with
    | false => exact ⟨hstays, rfl, rfl, rfl, hfreedReserved⟩
    | true =>
      cases hms : retry.millis with
      | none => exact ⟨hstays, rfl, rfl, rfl, hfreedReserved⟩
      | some delay =>
        refine ⟨.prolongs hcase (hfreedPhase.trans hcase) (saturatingAdd nowMs delay) ?_
          (saturatingAdd_le (hdelay delay hms)), rfl, rfl, rfl, hfreedReserved⟩
        simp only
        rw [hfreedUntil]
  | halfOpen =>
    have hstays : Moves c permit nowMs kind freed :=
      .stays hfreedPhase hfreedUntil (fun hclosed => by rw [hcase] at hclosed; cases hclosed)
    dsimp only
    by_cases hprobe' : ownsProbe
    · have hnone : freed.probe = none := by rw [hprobe, if_pos (howns.mp hprobe')]
      rw [if_pos hprobe']
      by_cases hsuccess : kind = .success
      · rw [if_pos hsuccess]
        refine ⟨.closes hcase (howns.mp hprobe') hsuccess rfl rfl rfl, rfl, rfl, rfl, ?_⟩
        rw [hnone]
        rfl
      · rw [if_neg hsuccess]
        by_cases htransient : kind.isTransient
        · rw [if_pos htransient]
          exact hopens hnone (.inr ⟨hcase, howns.mp hprobe'⟩) _ _ _ (min_le_right _ _)
        · rw [if_neg htransient]
          exact ⟨hstays, rfl, rfl, rfl, hfreedReserved⟩
    · rw [if_neg hprobe']
      exact ⟨hstays, rfl, rfl, rfl, hfreedReserved⟩

theorem complete_spec (hc : c.Sound) (permit nowMs : Nat) (kind : ProviderFailureKind)
    (retry : RetryAfter) : Completes c permit nowMs (c.complete permit kind retry nowMs).1
      (c.complete permit kind retry nowMs).2 := by
  simp only [complete]
  by_cases hstale : permit ∉ c.outstanding ∨ c.snapshot.phase = .blocked
  · have habsent : permit ∉ c.outstanding := by
      rcases hstale with habsent | hblocked
      · exact habsent
      · rw [hc.blocked hblocked]
        exact Finset.notMem_empty permit
    rw [if_pos hstale, Finset.erase_eq_of_notMem habsent]
    exact .stale habsent
  · rw [if_neg hstale]
    rw [not_or, not_not] at hstale
    obtain ⟨hmem, hphase⟩ := hstale
    cases hblocked : (retry.classify kind).isBlocked with
    | true => exact .blocks hmem hphase _
    | false =>
      have hdelay : ∀ ms, retry.millis = some ms → ms ≤ 900000 :=
        fun ms hms => RetryAfter.millis_le hblocked hms
      obtain ⟨freed, hfreed, hsnapshot, hrecent, hprobe, houtstanding, hpermit⟩ :
          ∃ freed, (if decide (c.probe = some permit) then
              ({ c with
                outstanding := c.outstanding.erase permit
                probe := none
                snapshot := { c.snapshot with probeReserved := false } } : Circuit)
            else { c with outstanding := c.outstanding.erase permit }) = freed ∧
            freed.snapshot = { c.snapshot with probeReserved := freed.probe.isSome } ∧
            freed.recent = c.recent ∧
            freed.probe = (if c.probe = some permit then none else c.probe) ∧
            freed.outstanding = c.outstanding.erase permit ∧ freed.nextPermit = c.nextPermit := by
        refine ⟨_, rfl, ?_⟩
        by_cases howns : c.probe = some permit
        · simp [howns]
        · simp [howns, ← hc.reserved]
      have hreserved : freed.snapshot.probeReserved = freed.probe.isSome := by rw [hsnapshot]
      simp only [Bool.false_eq_true, if_false]
      rw [hfreed]
      by_cases hneutral : (retry.classify kind).isNeutral
      · rw [if_pos hneutral]
        refine .counts hmem hphase ⟨houtstanding, hpermit, hprobe, hreserved, .stays ?_ ?_ ?_⟩
        · rw [hsnapshot]
        · rw [hsnapshot]
        · rw [hrecent]
          exact hc.recent
      · rw [if_neg hneutral]
        obtain ⟨hmoves, hout, hnext, hkept, hres⟩ := settle_spec (retry.classify kind) nowMs hc
          hphase hdelay (decide_eq_true_iff (p := c.probe = some permit)) hsnapshot hrecent hprobe
        exact .counts hmem hphase ⟨hout.trans houtstanding, hnext.trans hpermit, hkept.trans hprobe,
          by rw [hkept, hres], hmoves⟩

theorem complete_result (h : (c.complete permit kind retry nowMs).2 = some effective) :
    effective = retry.classify kind := by
  simp only [complete] at h
  split_ifs at h <;> exact (some.inj h).symm

theorem Sound.completes (hc : c.Sound) (h : Completes c permit nowMs c' result) : c'.Sound := by
  cases h with
  | stale _ => exact hc
  | blocks _ _ reason => exact sound_block _ reason
  | counts hmem hphase hcounts =>
    obtain ⟨houtstanding, hnext, hprobe, hreserved, hmoves⟩ := hcounts
    -- the phase stays while another attempt is the probe
    have hkept : ∀ n, c'.probe = some n → c.probe = some n ∧ n ≠ permit := by
      intro n hn
      rw [hprobe] at hn
      split_ifs at hn with howns
      refine ⟨hn, ?_⟩
      rintro rfl
      exact howns hn
    have hissued : ∀ n ∈ c'.outstanding, n ≤ c'.nextPermit := by
      intro n hn
      rw [houtstanding] at hn
      rw [hnext]
      exact hc.issued n (Finset.mem_of_mem_erase hn)
    have hmember : ∀ n, c'.probe = some n → n ∈ c'.outstanding := by
      intro n hn
      obtain ⟨hold, hne⟩ := hkept n hn
      rw [houtstanding]
      exact Finset.mem_erase_of_ne_of_mem hne (hc.probe n hold).1
    have hnone : c.snapshot.phase ≠ .halfOpen ∨ c.probe = some permit → ∀ n, c'.probe ≠ some n := by
      intro hcase n hn
      obtain ⟨hold, hne⟩ := hkept n hn
      rcases hcase with hother | howns
      · exact hother (hc.probe n hold).2
      · rw [howns] at hold
        exact hne (some.inj hold).symm
    cases hmoves with
    | stays hsame huntil hrecent =>
      refine ⟨fun n hn => ⟨hmember n hn, ?_⟩, hreserved, ?_, fun hclosed => ?_, hissued,
        fun hblocked => ?_⟩
      · rw [hsame]
        exact (hc.probe n (hkept n hn).1).2
      · rw [huntil, hsame]
        exact hc.openUntil
      · rw [hsame] at hclosed
        exact hrecent hclosed
      · rw [hsame] at hblocked
        exact absurd hblocked hphase
    | opens hbefore hopened t huntil _ =>
      have hfree : c.snapshot.phase ≠ .halfOpen ∨ c.probe = some permit := by
        rcases hbefore with hclosed | ⟨_, howns⟩
        · exact .inl (by simp [hclosed])
        · exact .inr howns
      refine ⟨fun n hn => absurd hn (hnone hfree n), hreserved, by simp [huntil, hopened], ?_, hissued, ?_⟩
      · intro hclosed
        rw [hopened] at hclosed
        cases hclosed
      · intro hblocked
        rw [hopened] at hblocked
        cases hblocked
    | prolongs hbefore hopened t huntil _ =>
      refine ⟨fun n hn => absurd hn (hnone (.inl (by simp [hbefore])) n), hreserved,
        by simp [huntil, hopened], ?_, hissued, ?_⟩
      · intro hclosed
        rw [hopened] at hclosed
        cases hclosed
      · intro hblocked
        rw [hopened] at hblocked
        cases hblocked
    | closes _ howns _ hclosed huntil hrecent =>
      refine ⟨fun n hn => absurd hn (hnone (.inr howns) n), hreserved, by simp [huntil, hclosed], ?_,
        hissued, ?_⟩
      · intro _
        rw [hrecent]
        exact Nat.zero_lt_succ 2
      · intro hblocked
        rw [hclosed] at hblocked
        cases hblocked

end Circuit

end Abbey.Provider
