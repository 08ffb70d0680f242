import Abbey.Lib.Trace
import Abbey.Reward.Recoverable
import Mathlib.Tactic.Linarith

/-!
# The reward ledger over whole runs

The runs of one collector with their events.  What a turn should be worth
is read from the events since it opened: `credited` counts the exact
replies, and `deleted` says whether its message was deleted.

* `TurnStep` is what one event does to one turn that stays.
* `Retired` ties the settled turns of the log to the markers and to the
  time through which they are retired.
-/

namespace Abbey.Reward

open Abbey.Lib RewardCollector RewardRecovery Option List

variable {id : String}

/-! ## Events -/

inductive RewardCall where
  | registerTurn (turn : ReplyTurn)
  | reaction (key : ReactionKey) (added : Bool) (now : Nat)
  | feedback (scope observer : String) (replyTo : Option String) (text : String) (now : Nat)
  | abbeyMessageDeleted (id : String)
  | settleExpired (now : Nat)
  | eraseLearning (scope : String) (member : Option String) (ledger : ErasureLedger)
  | restart

inductive RewardReply where
  | unit
  | attributed (attribution : FeedbackAttribution)
  | settled (experiences : List (String × Experience))
  | erased (pending reactions : Nat)
  | failed (error : String)

/-- What is asked of the arguments of a call. -/
def RewardCall.Ok : RewardCall → Prop
  | .registerTurn turn => turn.Ok
  | .eraseLearning _ _ ledger => ledger.validate = .ok ()
  | _ => True

def RewardCollector.step [Seams] (c : RewardCollector) : RewardCall → RewardCollector × RewardReply
  | .registerTurn turn => (c.registerTurn turn, .unit)
  | .reaction key added now =>
    let result := c.reaction key added now
    (result.1, .attributed result.2)
  | .feedback scope observer replyTo text now =>
    let result := c.feedback scope observer replyTo text now
    (result.1, .attributed result.2)
  | .abbeyMessageDeleted id => (c.abbeyMessageDeleted id, .unit)
  | .settleExpired now =>
    let result := c.settleExpired now
    (result.1, .settled result.2)
  | .eraseLearning scope member ledger =>
    let result := c.eraseLearning scope member ledger
    (result.1, .erased result.2.1 result.2.2)
  | .restart =>
    match c.restart with
    | .ok c' => (c', .unit)
    | .error error => (.new, .failed error)

structure RewardEvent where
  before : RewardCollector
  call : RewardCall
  reply : RewardReply
  after : RewardCollector

namespace RewardEvent

/-- The turn opens. -/
def opens (e : RewardEvent) (id : String) : Bool :=
  (e.before.get id).isNone && (e.after.get id).isSome

/-- An exact reply is credited to the turn. -/
def credits (e : RewardEvent) (id : String) : Bool :=
  match e.call, e.reply with
  | .feedback _ _ (some reply) _ _, .attributed .exactReply => reply = id
  | _, _ => false

def deletes (e : RewardEvent) (id : String) : Bool :=
  match e.call with
  | .abbeyMessageDeleted message => message = id
  | _ => false

/-- The turns that the event settles, with their registration times. -/
def settledTurns (e : RewardEvent) : List (String × Nat) :=
  match e.call with
  | .settleExpired now => (e.before.expired now).map (fun row => (row.1, row.2.createdAt))
  | _ => []

/-- The records that the event takes back from the turn by erasure. -/
def erasedRecords [Seams] (e : RewardEvent) (id : String) : List ReactionRecord :=
  match e.call with
  | .eraseLearning scope member _ =>
    (e.before.ownRecords scope member).filter (fun r => r.key.message = id)
  | _ => []

/-- An erasure that takes back from a deleted turn that stays as many
positive records as negative ones. -/
def Calm [Seams] (e : RewardEvent) : Prop :=
  ∀ scope member ledger, e.call = .eraseLearning scope member ledger → ∀ id p,
    e.before.get id = some p → p.settleImmediately = true → id ∉ e.before.removedTurns scope member →
      positives (e.before.ownRecords scope member) id = negatives (e.before.ownRecords scope member) id

end RewardEvent

structure Happens [Seams] (c : RewardCollector) (_log : List RewardEvent) (e : RewardEvent)
    (c' : RewardCollector) : Prop where
  before : e.before = c
  after : e.after = c'
  step : c.step e.call = (c', e.reply)
  ok : e.call.Ok

abbrev RewardRun [Seams] : RewardCollector → List RewardEvent → Prop :=
  Trace (fun c => c = .new) Happens

/-! ## What a turn should be worth -/

/-- The events since the turn has opened, newest first. -/
def sinceOpened (log : List RewardEvent) (id : String) : List RewardEvent :=
  log.reverse.takeWhile (fun e => !e.opens id)

def credited (log : List RewardEvent) (id : String) : Nat :=
  (sinceOpened log id).countP (fun e => e.credits id)

def deleted (log : List RewardEvent) (id : String) : Bool :=
  (sinceOpened log id).any (fun e => e.deletes id)

def worth (c : RewardCollector) (log : List RewardEvent) (id : String) : ℚ :=
  if deleted log id then -2
  else -1 / 5 + positives c.recovery.reactions id - negatives c.recovery.reactions id +
    1 / 2 * credited log id

/-- Every open turn is worth what its evidence says. -/
def Exact (c : RewardCollector) (log : List RewardEvent) : Prop :=
  ∀ id p, c.get id = some p → p.reward = worth c log id

theorem sinceOpened_append :
    sinceOpened (log ++ [e]) id = if e.opens id then [] else e :: sinceOpened log id := by
  unfold sinceOpened
  rw [reverse_append, reverse_singleton, singleton_append, takeWhile_cons]
  cases e.opens id <;> rfl

/-! ## The invariant of the collector -/

section Runs

variable [Seams] {c c' : RewardCollector} {log : List RewardEvent} {e : RewardEvent}
variable {now : Nat} {before : RewardCollector}

/-- The call of an event, and its step. -/
theorem Happens.call_eq (h : Happens c log e c') :
    ∃ call reply, e = ⟨c, call, reply, c'⟩ ∧ c.step call = (c', reply) ∧ call.Ok := by
  obtain ⟨rfl, rfl, hstep, hok⟩ := h
  exact ⟨e.call, e.reply, rfl, hstep, hok⟩

theorem Sound.happens (hc : Sound c) (h : Happens c log e c') : Sound c' := by
  obtain ⟨call, reply, rfl, hstep, hok⟩ := h.call_eq
  cases call with
  | registerTurn turn =>
    cases hstep
    exact hc.registerTurn hok
  | reaction key added now =>
    cases hstep
    exact hc.reaction key added now
  | feedback scope observer replyTo text now =>
    cases hstep
    exact hc.feedback scope observer replyTo text now
  | abbeyMessageDeleted id =>
    cases hstep
    exact hc.abbeyMessageDeleted id
  | settleExpired now =>
    cases hstep
    exact hc.settleExpired now
  | eraseLearning scope member ledger =>
    cases hstep
    exact hc.eraseLearning scope member hok
  | restart =>
    obtain ⟨d, hd, _⟩ := hc.restart
    simp only [step, hd] at hstep
    cases hstep
    exact hc.of_restart hd

theorem sound_of_run (h : RewardRun c log) : Sound c := by
  refine Trace.invariant (I := fun c _ => Sound c) (fun c hstart => ?_)
    (fun _ _ _ _ hc hnext => hc.happens hnext) h
  rw [hstart]
  exact sound_new

/-! ## What an event does to a turn -/

/-- What an event does to one turn that was there and stays. -/
structure TurnStep (e : RewardEvent) (id : String) (p q : Pending) : Prop where
  createdAt : q.createdAt = p.createdAt
  settles : q.settleImmediately = (p.settleImmediately || e.deletes id)
  reward : q.reward = if e.deletes id then -2
    else p.reward +
      ((positives e.after.recovery.reactions id : ℚ) - positives e.before.recovery.reactions id) -
      ((negatives e.after.recovery.reactions id : ℚ) - negatives e.before.recovery.reactions id) +
      if e.credits id then 1 / 2 else 0
  /-- Only an erasure touches a turn whose message was deleted. -/
  frozen : p.settleImmediately = true → e.credits id = false ∧
    (positives e.before.recovery.reactions id : ℚ) - positives e.after.recovery.reactions id =
        positives (e.erasedRecords id) id ∧
      (negatives e.before.recovery.reactions id : ℚ) - negatives e.after.recovery.reactions id =
        negatives (e.erasedRecords id) id

/-- A turn that the event does not touch. -/
theorem TurnStep.untouched (p : Pending) (hdeletes : e.deletes id = false)
    (hcredits : e.credits id = false) (herased : e.erasedRecords id = [])
    (hpositives : positives e.after.recovery.reactions id = positives e.before.recovery.reactions id)
    (hnegatives : negatives e.after.recovery.reactions id = negatives e.before.recovery.reactions id) :
    TurnStep e id p p where
  createdAt := rfl
  settles := by simp [hdeletes]
  reward := by simp [hdeletes, hcredits, hpositives, hnegatives]
  frozen _ := by
    rw [herased, hpositives, hnegatives]
    exact ⟨hcredits, by simp [positives], by simp [negatives]⟩

/-- An open turn is not one whose message was deleted. -/
theorem not_settles_of_open (h : isOpen p now) : p.settleImmediately = false := by
  simp only [isOpen, Bool.and_eq_true, Bool.not_eq_true'] at h
  exact h.1.1

theorem credit_turn (outcome : ReplyOutcome) (p : Pending) : (credit outcome p).reward = p.reward ∧
      (credit outcome p).settleImmediately = p.settleImmediately ∧
      (credit outcome p).createdAt = p.createdAt := by
  unfold credit
  split_ifs <;> exact ⟨rfl, rfl, rfl⟩

variable {p q : Pending}

theorem turnStep_feedback (hp : before.get id = some p)
    (hq : (before.feedback scope observer replyTo text now).1.get id = some q) :
    TurnStep ⟨before, .feedback scope observer replyTo text now,
      .attributed (before.feedback scope observer replyTo text now).2,
      (before.feedback scope observer replyTo text now).1⟩ id p q := by
  have hspec := feedback_spec before scope observer replyTo text now
  generalize before.feedback scope observer replyTo text now = result at hq hspec ⊢
  obtain ⟨after, attribution⟩ := result
  simp only at hspec hq ⊢
  rcases hspec with ⟨rfl, hexact⟩ | ⟨found, r, outcome, hr, hopen, ⟨rfl, rfl, rfl⟩ | ⟨rfl, rfl⟩⟩
  · rw [hp] at hq
    cases hq
    have hcredits : RewardEvent.credits ⟨after, .feedback scope observer replyTo text now,
        .attributed attribution, after⟩ id = false := by
      unfold RewardEvent.credits
      split
      · rename_i hreply
        cases hreply
        exact absurd rfl hexact
      · rfl
    exact .untouched p rfl hcredits rfl rfl rfl
  · have hfalse := not_settles_of_open hopen
    obtain ⟨hreward, hsettles, hcreated⟩ :=
      credit_turn outcome { r with reward := r.reward + 1 / 2 }
    by_cases hid : id = found
    · subst hid
      rw [hp] at hr
      cases hr
      rw [get_update_self, get_update_self, hp] at hq
      cases hq
      refine ⟨hcreated, hsettles.trans ?_, hreward.trans ?_, ?_⟩
      · simp [RewardEvent.deletes]
      · simp [RewardEvent.deletes, RewardEvent.credits]
      · intro htrue
        rw [hfalse] at htrue
        cases htrue
    · rw [get_update, get_update, hp] at hq
      simp only [hid, if_false, map_some, some.injEq] at hq
      subst hq
      have hne : ¬ found = id := fun heq => hid heq.symm
      exact .untouched p rfl (by simp [RewardEvent.credits, hne]) rfl rfl rfl
  · obtain ⟨hreward, hsettles, hcreated⟩ := credit_turn outcome r
    have hcredits : RewardEvent.credits ⟨before, .feedback scope observer replyTo text now,
        .attributed .uniqueScoped, before.update found (credit outcome)⟩ id = false := by
      unfold RewardEvent.credits
      split
      · rename_i hreply
        cases hreply
      · rfl
    by_cases hid : id = found
    · subst hid
      rw [hp] at hr
      cases hr
      rw [get_update_self, hp] at hq
      cases hq
      refine ⟨hcreated, ?_, ?_, ?_⟩
      · simp [hsettles, RewardEvent.deletes]
      · rw [hcredits]
        simp [hreward, RewardEvent.deletes]
      · intro htrue
        rw [not_settles_of_open hopen] at htrue
        cases htrue
    · rw [get_update, hp] at hq
      simp only [hid, if_false, map_some, some.injEq] at hq
      subst hq
      exact .untouched p rfl hcredits rfl rfl rfl

theorem turnStep_reaction
    (hp : before.get id = some p) (hq : (before.reaction key added now).1.get id = some q) :
    TurnStep ⟨before, .reaction key added now, .attributed (before.reaction key added now).2,
      (before.reaction key added now).1⟩ id p q := by
  have hspec := reaction_spec before key added now
  generalize before.reaction key added now = result at hq hspec ⊢
  obtain ⟨after, attribution⟩ := result
  simp only at hspec hq ⊢
  rcases hspec with rfl | ⟨r, hr, hopen, hscope, hempty, ⟨f, contribution, hrecovery, hpending, hadds,
    _⟩ | ⟨contribution, htakes⟩⟩
  · rw [hp] at hq
    cases hq
    exact .untouched p rfl rfl rfl rfl rfl
  · have hreactions : after.recovery.reactions = before.recovery.reactions ++ [⟨key, contribution⟩] := by
      rw [hrecovery]
    rw [get_of_pending_eq hpending, hp] at hq
    simp only [map_some, some.injEq] at hq
    by_cases hid : id = key.message
    · subst hid
      rw [hp] at hr
      cases hr
      rw [if_pos rfl] at hq
      subst hq
      have hreward := hadds.reward
      refine ⟨by rw [hadds.turn], by rw [hadds.turn]; simp [RewardEvent.deletes], ?_, ?_⟩
      · rw [hreward]
        simp only [hreactions, positives_append, negatives_append, positives_cons, negatives_cons,
          RewardEvent.deletes, RewardEvent.credits]
        simp [positives, negatives]
      · intro htrue
        rw [not_settles_of_open hopen] at htrue
        cases htrue
    · have hne : ¬ key.message = id := fun heq => hid heq.symm
      rw [if_neg hid] at hq
      subst hq
      refine .untouched p rfl rfl rfl ?_ ?_
      · simp only [hreactions, positives_append, positives_cons, hne, false_and, if_false]
        simp [positives]
      · simp only [hreactions, negatives_append, negatives_cons, hne, false_and, if_false]
        simp [negatives]
  · have hopenTurn : id = key.message → p.settleImmediately = false := by
      rintro rfl
      rw [hp] at hr
      cases hr
      exact not_settles_of_open hopen
    rw [htakes.get, hp] at hq
    cases hq
    have hpositives := positives_perm (k := id) htakes.reactions
    have hnegatives := negatives_perm (k := id) htakes.reactions
    rw [positives_append] at hpositives
    rw [negatives_append] at hnegatives
    refine ⟨rfl, by simp [Pending.without, RewardEvent.deletes], ?_, fun htrue => ?_⟩
    · simp only [RewardEvent.deletes, RewardEvent.credits, Pending.without, hpositives, hnegatives]
      simp
      ring
    · have hne : ¬ key.message = id := by
        rintro rfl
        rw [hopenTurn rfl] at htrue
        cases htrue
      have hnone : positives [(⟨key, contribution⟩ : ReactionRecord)] id = 0 ∧
          negatives [(⟨key, contribution⟩ : ReactionRecord)] id = 0 := by
        simp [positives, negatives, hne]
      refine ⟨rfl, ?_, ?_⟩
      · simp only [hpositives, hnone.1, RewardEvent.erasedRecords]
        simp [positives]
      · simp only [hnegatives, hnone.2, RewardEvent.erasedRecords]
        simp [negatives]

/-- The records of one turn are counted among its own. -/
theorem count_own (l : List ReactionRecord) (id : String) :
    positives (l.filter (fun r => decide (r.key.message = id))) id = positives l id ∧
      negatives (l.filter (fun r => decide (r.key.message = id))) id = negatives l id := by
  have howned : ∀ kind : ReactionContribution,
      (l.filter (fun r => decide (r.key.message = id))).countP
          (fun r => decide (r.key.message = id) && decide (r.contribution = kind)) =
        l.countP (fun r => decide (r.key.message = id) && decide (r.contribution = kind)) := by
    intro kind
    rw [countP_filter]
    refine countP_congr (fun r _ => ?_)
    simp
    tauto
  exact ⟨howned .positive, howned .negative⟩

theorem turnStep_erase (hc : Sound before) (hp : before.get id = some p)
    (hq : (before.eraseLearning scope member ledger).1.get id = some q) :
    TurnStep ⟨before, .eraseLearning scope member ledger, reply,
      (before.eraseLearning scope member ledger).1⟩ id p q := by
  obtain ⟨middle, htakes, hrecovery, _, hget⟩ := eraseLearning_spec scope member ledger hc.keys
  rw [hget] at hq
  split_ifs at hq with hgone
  have hcounts := countP_filter_message middle.recovery.reactions hgone
  have hreactions : (before.eraseLearning scope member ledger).1.recovery.reactions =
      middle.recovery.reactions.filter
        (fun r => r.key.message ∉ before.removedTurns scope member) := by rw [hrecovery]
  rw [htakes.get, hp] at hq
  cases hq
  have hpositives := positives_perm (k := id) htakes.reactions
  have hnegatives := negatives_perm (k := id) htakes.reactions
  rw [positives_append] at hpositives
  rw [negatives_append] at hnegatives
  obtain ⟨hpositive, hnegative⟩ := count_own (before.ownRecords scope member) id
  refine ⟨rfl, by simp [Pending.without, RewardEvent.deletes], ?_, fun _ => ⟨rfl, ?_, ?_⟩⟩
  · simp only [RewardEvent.deletes, RewardEvent.credits, Pending.without, hreactions, hcounts.1,
      hcounts.2, hpositives, hnegatives]
    simp
    ring
  · simp only [hreactions, hcounts.1, hpositives, RewardEvent.erasedRecords, hpositive]
    simp
  · simp only [hreactions, hcounts.2, hnegatives, RewardEvent.erasedRecords, hnegative]
    simp

theorem Happens.turnStep (h : Happens c log e c') (hc : Sound c)
    (hp : c.get id = some p) (hq : c'.get id = some q) : TurnStep e id p q := by
  obtain ⟨call, reply, rfl, hstep, _⟩ := h.call_eq
  cases call with
  | registerTurn turn =>
    cases hstep
    rcases registerTurn_spec c turn with hsame | hsame | hopens
    · rw [hsame, hp] at hq
      cases hq
      exact .untouched p rfl rfl rfl (by rw [hsame]) (by rw [hsame])
    · have hget : (c.pruneRecovery turn.now).get id = c.get id := rfl
      rw [hsame, hget, hp] at hq
      cases hq
      exact .untouched p rfl rfl rfl (by rw [hsame]; rfl) (by rw [hsame]; rfl)
    · have hget : (c.pruneRecovery turn.now).get id = c.get id := rfl
      have hne : id ≠ turn.sentNativeMessageId := by
        rintro rfl
        have hfresh := hopens.fresh
        rw [hget, hp] at hfresh
        cases hfresh
      rw [hopens.get, if_neg hne, hget, hp] at hq
      cases hq
      exact .untouched p rfl rfl rfl (by simp only [hopens.recovery]; rfl)
        (by simp only [hopens.recovery]; rfl)
  | reaction key added now =>
    cases hstep
    exact turnStep_reaction hp hq
  | feedback scope observer replyTo text now =>
    cases hstep
    exact turnStep_feedback hp hq
  | abbeyMessageDeleted message =>
    cases hstep
    rw [abbeyMessageDeleted, get_update, hp] at hq
    simp only [map_some, some.injEq] at hq
    by_cases hid : id = message
    · subst hid
      rw [if_pos rfl] at hq
      subst hq
      refine ⟨rfl, by simp [RewardEvent.deletes], by simp [RewardEvent.deletes], fun _ => ⟨rfl, ?_, ?_⟩⟩
      · simp [RewardEvent.erasedRecords, abbeyMessageDeleted, positives]
      · simp [RewardEvent.erasedRecords, abbeyMessageDeleted, negatives]
    · have hne : ¬ message = id := fun heq => hid heq.symm
      rw [if_neg hid] at hq
      subst hq
      exact .untouched p (by simp [RewardEvent.deletes, hne]) rfl rfl rfl rfl
  | settleExpired now =>
    cases hstep
    obtain ⟨hcloses, _⟩ := settleExpired_spec now (fun id p hp => (hc.turns id p hp).tracking)
    rw [hcloses.get] at hq
    split_ifs at hq with hgone
    have hget : (c.pruneRecovery now).get id = c.get id := rfl
    rw [hget, hp] at hq
    cases hq
    have hcounts := countP_filter_message
      (c.pruneRecovery now).recovery.reactions hgone
    rw [← hcloses.reactions] at hcounts
    exact .untouched p rfl rfl rfl hcounts.1 hcounts.2
  | eraseLearning scope member ledger =>
    cases hstep
    exact turnStep_erase hc hp hq
  | restart =>
    obtain ⟨d, hd, hrecovery, _, hget⟩ := hc.restart
    simp only [RewardCollector.step, hd] at hstep
    cases hstep
    rw [hget, hp] at hq
    cases hq
    exact .untouched p rfl rfl rfl
      (by simp only [hrecovery]; exact positives_perm (perm_reactions c))
      (by simp only [hrecovery]; exact negatives_perm (perm_reactions c))

/-- A turn that opens. -/
theorem Happens.opened (h : Happens c log e c') (hc : Sound c) (hp : c.get id = none)
    (hq : c'.get id = some q) :
    ∃ turn, e.call = .registerTurn turn ∧ Opens (c.pruneRecovery turn.now) c' turn ∧
      id = turn.sentNativeMessageId ∧ q = turn.opened := by
  obtain ⟨call, reply, rfl, hstep, _⟩ := h.call_eq
  cases call with
  | registerTurn turn =>
    cases hstep
    have hget : (c.pruneRecovery turn.now).get id = c.get id := rfl
    rcases registerTurn_spec c turn with hsame | hsame | hopens
    · rw [hsame, hp] at hq
      cases hq
    · rw [hsame, hget, hp] at hq
      cases hq
    · have hnew := hq
      rw [hopens.get] at hnew
      split_ifs at hnew with hid
      · exact ⟨turn, rfl, hopens, hid, (some.inj hnew).symm⟩
      · rw [hget, hp] at hnew
        cases hnew
  | reaction key added now =>
    cases hstep
    rcases reaction_spec c key added now with hsame | ⟨_, _, _, _, _, ⟨_, _, _, hpending, _⟩ |
      ⟨_, htakes⟩⟩
    · rw [hsame, hp] at hq
      cases hq
    · rw [get_of_pending_eq hpending, hp] at hq
      cases hq
    · rw [htakes.get, hp] at hq
      cases hq
  | feedback scope observer replyTo text now =>
    cases hstep
    rcases feedback_spec c scope observer replyTo text now with
      ⟨hsame, _⟩ | ⟨_, _, _, _, _, ⟨_, _, hupdate⟩ | ⟨_, hupdate⟩⟩
    · rw [hsame, hp] at hq
      cases hq
    · rw [hupdate, get_update, get_update, hp] at hq
      cases hq
    · rw [hupdate, get_update, hp] at hq
      cases hq
  | abbeyMessageDeleted message =>
    cases hstep
    rw [abbeyMessageDeleted, get_update, hp] at hq
    cases hq
  | settleExpired now =>
    cases hstep
    obtain ⟨hcloses, _⟩ := settleExpired_spec now (fun id p hp => (hc.turns id p hp).tracking)
    have hget : (c.pruneRecovery now).get id = c.get id := rfl
    rw [hcloses.get, hget, hp] at hq
    split_ifs at hq
  | eraseLearning scope member ledger =>
    cases hstep
    obtain ⟨middle, htakes, _, _, hget⟩ := eraseLearning_spec scope member ledger hc.keys
    rw [hget, htakes.get, hp] at hq
    split_ifs at hq
    cases hq
  | restart =>
    obtain ⟨d, hd, _, _, hget⟩ := hc.restart
    simp only [RewardCollector.step, hd] at hstep
    cases hstep
    rw [hget, hp] at hq
    cases hq

/-- A calm event takes back nothing, all in all, from a deleted turn that
is still there after it. -/
theorem Happens.calm_iff (h : Happens c log e c') (hc : Sound c) : e.Calm ↔ ∀ id p,
    c.get id = some p → p.settleImmediately → (c'.get id).isSome →
      positives (e.erasedRecords id) id = negatives (e.erasedRecords id) id := by
  obtain ⟨call, reply, rfl, hstep, _⟩ := h.call_eq
  cases call with
  | eraseLearning scope member ledger =>
    cases hstep
    obtain ⟨middle, htakes, _, _, hget⟩ := eraseLearning_spec scope member ledger hc.keys
    have hstays : ∀ {id p}, c.get id = some p →
        (((c.eraseLearning scope member ledger).1.get id).isSome ↔
          id ∉ c.removedTurns scope member) := by
      intro id p hp
      rw [hget, htakes.get, hp]
      split_ifs with hgone
      · simp [hgone]
      · simp [hgone]
    constructor
    · intro hcalm id p hp hsettles hafter
      obtain ⟨hpositive, hnegative⟩ := count_own (c.ownRecords scope member) id
      have hequal := hcalm scope member ledger rfl id p hp hsettles ((hstays hp).mp hafter)
      rw [RewardEvent.erasedRecords, hpositive, hnegative]
      exact hequal
    · intro hequal _ _ _ hcall id p hp hsettles hgone
      cases hcall
      obtain ⟨hpositive, hnegative⟩ := count_own (c.ownRecords scope member) id
      have hthis := hequal id p hp hsettles ((hstays hp).mpr hgone)
      rw [RewardEvent.erasedRecords, hpositive, hnegative] at hthis
      exact hthis
  | _ =>
    constructor
    · intro _ id p _ _ _
      rfl
    · intro _ scope member ledger hcall
      cases hcall

end Runs

end Abbey.Reward
