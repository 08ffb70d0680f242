import Abbey.Lib.Table

/-!
# Voice choices

One server's voice choices, one member a row.  A member's events come in the
order of Discord's event numbers: a choice that is not newer than the last
one is refused, except a spoken withdrawal, which has no event number of its
own and is given one that is newer.

`Ledger.apply_spec` says all that a choice can do to the ledger.  From it
follow the two relations that every later choice keeps: `Remembers`, the
ledger has seen the member's event, and `Denies`, no agreement of the member
is as old as the event.
-/

namespace Abbey.Voice

open Abbey.Lib Option

inductive VoiceMode
  | disabled
  | local'
  | openAi
  deriving DecidableEq

inductive Choice
  | agree (mode : VoiceMode)
  | withdraw
  | withdrawSpoken
  deriving DecidableEq

def Choice.withdraws : Choice → Bool
  | .withdraw | .withdrawSpoken => true
  | .agree _ => false

def policyVersion : Nat := 1

def u64Max : Nat := 2 ^ 64 - 1

/-- `u64::saturating_add`. -/
def saturatingAdd (a b : Nat) : Nat := min (a + b) u64Max

structure Receipt where
  policy : Nat
  interaction : Nat
  acknowledgedAt : Nat
  deriving DecidableEq

structure MemberChoice where
  lastEvent : Nat := 0
  local' : Option Receipt := none
  openAi : Option Receipt := none
  deriving DecidableEq

variable {m : MemberChoice}

structure Ledger where
  version : Nat
  guild : Nat
  members : Table (Prod.fst : Nat × MemberChoice → Nat)
  deriving DecidableEq

namespace Ledger

/-- `Ledger::new`. -/
def new (guild : Nat) : Ledger := ⟨1, guild, .empty⟩

/-- `members.get(&user)`. -/
def member (l : Ledger) (user : Nat) : Option MemberChoice := (l.members.find user).map Prod.snd

def setMember (l : Ledger) (user : Nat) (m : MemberChoice) : Ledger :=
  { l with members := l.members.put (user, m) }

/-- `members.entry(user).or_default()`. -/
def entry (l : Ledger) (user : Nat) : Ledger × MemberChoice :=
  match l.member user with
  | some m => (l, m)
  | none => (l.setMember user {}, {})

def agrees (l : Ledger) (user : Nat) (mode : VoiceMode) : Bool :=
  if mode = .disabled then true
  else
    let receipt := (l.member user).bind fun m =>
      match mode with
      | .local' => m.local'
      | .openAi => m.openAi
      | .disabled => none
    receipt.any fun r => r.policy == policyVersion && r.interaction != 0

/-- The ledger after a choice, and whether the choice was taken. -/
def apply (l : Ledger) (user event : Nat) (choice : Choice) (now : Nat) : Ledger × Bool :=
  if user = 0 ∨ (event = 0 ∧ choice ≠ .withdrawSpoken) ∨ choice = .agree .disabled ∨
      choice = .agree .openAi then
    (l, false)
  else
    let (l, m) := l.entry user
    let event :=
      if choice = .withdrawSpoken then max event (saturatingAdd m.lastEvent 1) else event
    if event ≤ m.lastEvent ∧ choice ≠ .withdrawSpoken then (l, false)
    else
      match choice with
      | .withdraw | .withdrawSpoken =>
        (l.setMember user { lastEvent := event, local' := none, openAi := none }, true)
      | .agree _ =>
        let receipt : Receipt := ⟨policyVersion, event, now⟩
        (l.setMember user { m with lastEvent := event, local' := some receipt }, true)

theorem member_setMember (l : Ledger) (user other : Nat) (m : MemberChoice) :
    (l.setMember user m).member other = if user = other then some m else l.member other := by
  unfold member setMember
  rw [Table.find_put]
  split_ifs <;> rfl

/-- What is well formed in every ledger of the store. -/
structure Valid (guild : Nat) (l : Ledger) : Prop where
  version : l.version = 1
  guild : l.guild = guild
  bound : ∀ u m, l.member u = some m → m.lastEvent ≤ u64Max

@[simp] theorem member_new (guild user : Nat) : (new guild).member user = none := rfl

theorem valid_new (guild : Nat) : (new guild).Valid guild :=
  ⟨rfl, rfl, by simp⟩

/-- What the ledger has been told last about a member. -/
def lastEvent (l : Ledger) (user : Nat) : Nat := ((l.member user).getD {}).lastEvent

/-- A choice that was taken, under the event number it got. -/
structure Takes (l l' : Ledger) (user event : Nat) (choice : Choice) : Prop where
  version : l'.version = l.version
  guild : l'.guild = l.guild
  others : ∀ other, user ≠ other → l'.member other = l.member other
  newer : l.lastEvent user ≤ event
  bound : event ≤ u64Max
  member : ∃ m, l'.member user = some m ∧ m.lastEvent = event ∧
    (choice.withdraws = true → m.local' = none) ∧
    (choice.withdraws = false → choice = .agree .local' ∧ l.lastEvent user < event ∧
      ∃ r, m.local' = some r ∧ r.interaction = event)

variable {guild user event now : Nat} {choice : Choice} {l l' : Ledger}

/-- A member who is not there yet has had no event. -/
theorem entry_spec (h : l.entry user = (l', m)) : l'.version = l.version ∧ l'.guild = l.guild ∧
      (∀ other, user ≠ other → l'.member other = l.member other) ∧
      m.lastEvent = l.lastEvent user ∧ (l' = l ∨ m.lastEvent = 0) := by
  unfold entry at h
  unfold lastEvent
  cases hm : l.member user with
  | none =>
    rw [hm] at h
    obtain ⟨rfl, rfl⟩ := Prod.mk.inj h
    refine ⟨rfl, rfl, fun other hne => ?_, rfl, .inr rfl⟩
    rw [member_setMember, if_neg hne]
  | some m' =>
    rw [hm] at h
    obtain ⟨rfl, rfl⟩ := Prod.mk.inj h
    exact ⟨rfl, rfl, fun _ _ => rfl, rfl, .inl rfl⟩

/-- What `apply` writes for a choice that it takes. -/
theorem takes_setMember (base : Ledger) (hversion : base.version = l.version)
    (hguild : base.guild = l.guild)
    (hothers : ∀ other, user ≠ other → base.member other = l.member other)
    (hnewer : l.lastEvent user ≤ event) (hbound : event ≤ u64Max) (hevent : m.lastEvent = event)
    (hdenies : choice.withdraws → m.local' = none)
    (hgrants : choice.withdraws = false → choice = .agree .local' ∧ l.lastEvent user < event ∧ ∃ r,
      m.local' = some r ∧ r.interaction = event) :
    Takes l (base.setMember user m) user event choice where
  version := hversion
  guild := hguild
  others other hne := by rw [member_setMember, if_neg hne, hothers other hne]
  newer := hnewer
  bound := hbound
  member := ⟨m, by rw [member_setMember, if_pos rfl], hevent, hdenies, hgrants⟩

/-- A choice is refused and leaves the ledger as it is, or it is taken. -/
theorem apply_spec (hvalid : l.Valid guild) (hevent : event ≤ u64Max) :
    l.apply user event choice now = (l, false) ∨
      ∃ l' ev, l.apply user event choice now = (l', true) ∧ Takes l l' user ev choice := by
  unfold apply
  by_cases hrefused : user = 0 ∨ (event = 0 ∧ choice ≠ .withdrawSpoken) ∨
      choice = .agree .disabled ∨ choice = .agree .openAi
  · rw [if_pos hrefused]
    exact .inl rfl
  · rw [if_neg hrefused]
    simp only [not_or, not_and_or, not_not] at hrefused
    obtain ⟨_, hzero, hdisabled, hopen⟩ := hrefused
    generalize hentry : l.entry user = pair
    obtain ⟨base, m⟩ := pair
    obtain ⟨hversion, hguild, hothers, hlast, hbase⟩ := entry_spec hentry
    have hbound : l.lastEvent user ≤ u64Max := by
      unfold lastEvent
      cases hm : l.member user with
      | none => exact Nat.zero_le _
      | some m => exact hvalid.bound user m hm
    cases choice with
    | agree mode =>
      simp only [reduceCtorEq, ne_eq, not_false_eq_true, and_true, if_false, or_false] at hzero ⊢
      split_ifs with hold
      · left
        rcases hbase with rfl | hlast0
        · rfl
        · omega
      · right
        refine ⟨_, event, rfl, takes_setMember base hversion hguild hothers (by omega) hevent rfl
          nofun (fun _ => ⟨?_, by omega, _, rfl, rfl⟩)⟩
        cases mode with
        | disabled => exact absurd rfl hdisabled
        | local' => rfl
        | openAi => exact absurd rfl hopen
    | withdraw =>
      simp only [reduceCtorEq, ne_eq, not_false_eq_true, and_true, if_false, or_false] at hzero ⊢
      split_ifs with hold
      · left
        rcases hbase with rfl | hlast0
        · rfl
        · omega
      · right
        exact ⟨_, event, rfl, takes_setMember base hversion hguild hothers (by omega) hevent rfl
          (fun _ => rfl) nofun⟩
    | withdrawSpoken =>
      right
      simp only [ne_eq, not_true_eq_false, and_false, if_false, if_true]
      have hsat : saturatingAdd m.lastEvent 1 ≤ u64Max := Nat.min_le_right _ _
      have hge : m.lastEvent ≤ saturatingAdd m.lastEvent 1 := by
        unfold saturatingAdd
        omega
      have hnewer : l.lastEvent user ≤ max event (saturatingAdd m.lastEvent 1) := by omega
      exact ⟨_, _, rfl, takes_setMember base hversion hguild hothers hnewer
        (Nat.max_le.mpr ⟨hevent, hsat⟩) rfl (fun _ => rfl) nofun⟩

theorem Takes.valid (h : Takes l l' user event choice) (hl : l.Valid guild) : l'.Valid guild where
  version := h.version.trans hl.version
  guild := h.guild.trans hl.guild
  bound u m hm := by
    by_cases hu : user = u
    · subst hu
      obtain ⟨m', hm', hlast, _⟩ := h.member
      have heq : m' = m := some.inj (hm'.symm.trans hm)
      rw [← heq, hlast]
      exact h.bound
    · rw [h.others u hu] at hm
      exact hl.bound u m hm

theorem Takes.lastEvent_self (h : Takes l l' user event choice) : l'.lastEvent user = event := by
  obtain ⟨m, hm, hlast, _⟩ := h.member
  unfold lastEvent
  rw [hm]
  exact hlast

theorem Takes.lastEvent_other (h : Takes l l' user event choice) (hu : user ≠ u) :
    l'.lastEvent u = l.lastEvent u := by
  unfold lastEvent
  rw [h.others u hu]

/-- The member's last event is this one or a newer one. -/
def Remembers (l : Ledger) (user event : Nat) : Prop := event ≤ l.lastEvent user

/-- The member's agreement, if there is one, is newer than the event. -/
def Denies (l : Ledger) (user event : Nat) : Prop :=
  l.Remembers user event ∧
    ∀ m r, l.member user = some m → m.local' = some r → event < r.interaction

variable {u ev : Nat}

variable (h : Takes l l' user event choice)

include h

theorem Takes.remembers (hl : l.Remembers u ev) : l'.Remembers u ev := by
  unfold Remembers at *
  by_cases hu : user = u
  · subst hu
    rw [h.lastEvent_self]
    exact hl.trans h.newer
  · rw [h.lastEvent_other hu]
    exact hl

theorem Takes.remembers_self : l'.Remembers user event :=
  le_of_eq h.lastEvent_self.symm

theorem Takes.denies (hl : l.Denies u ev) : l'.Denies u ev := by
  refine ⟨h.remembers hl.1, fun m r hm hr => ?_⟩
  by_cases hu : user = u
  · subst hu
    obtain ⟨m', hm', _, hdenies, hgrants⟩ := h.member
    have heq : m' = m := some.inj (hm'.symm.trans hm)
    subst heq
    cases hchoice : choice.withdraws with
    | true =>
      rw [hdenies hchoice] at hr
      cases hr
    | false =>
      obtain ⟨_, hlt, r', hr', hinteraction⟩ := hgrants hchoice
      have heq : r' = r := some.inj (hr'.symm.trans hr)
      rw [← heq, hinteraction]
      exact lt_of_le_of_lt hl.1 hlt
  · rw [h.others u hu] at hm
    exact hl.2 m r hm hr

theorem Takes.denies_self (hchoice : choice.withdraws) : l'.Denies user event := by
  refine ⟨h.remembers_self, fun m r hm hr => ?_⟩
  obtain ⟨m', hm', _, hdenies, _⟩ := h.member
  have heq : m' = m := some.inj (hm'.symm.trans hm)
  subst heq
  rw [hdenies hchoice] at hr
  cases hr

omit h

theorem agrees_local (h : l.agrees user .local') :
    ∃ m r, l.member user = some m ∧ m.local' = some r := by
  unfold agrees at h
  simp only [reduceCtorEq, if_false] at h
  cases hm : l.member user with
  | none => simp [hm] at h
  | some m =>
    cases hr : m.local' with
    | none => simp [hm, hr] at h
    | some r => exact ⟨m, r, rfl, hr⟩

end Ledger

end Abbey.Voice
