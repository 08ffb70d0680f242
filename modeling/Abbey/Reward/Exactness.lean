import Abbey.Reward.Ledger

/-!
# The reward ledger is exact, but for the erasure of a deleted turn

In every run the exported state is accepted, the reactions are counted, and
a registered turn settles at most once.  The reward of every open turn is
what its evidence says exactly in the runs whose erasures are all calm: an
erasure takes back the reactions of the member also from a turn whose
message was deleted, although the deletion has overwritten the reward.
-/

namespace Abbey.Reward

open Abbey.Lib RewardCollector RewardRecovery RewardEvent

section Exactness

variable [Seams] {c c' : RewardCollector} {log : List RewardEvent} {e : RewardEvent}
variable {id : String}

/-! ## A turn settles once -/

/-- The markers, or the time through which they are retired, are kept. -/
structure Keeps (c c' : RewardCollector) : Prop where
  marked : ∀ row ∈ c.recovery.settled, row ∈ c'.recovery.settled ∨
    ∃ r, c'.recovery.retiredThrough = some r ∧ row.createdAt ≤ r
  retired : ∀ r, c.recovery.retiredThrough = some r →
    ∃ r', c'.recovery.retiredThrough = some r' ∧ r ≤ r'

theorem Keeps.of_eq (hsettled : c'.recovery.settled = c.recovery.settled)
    (hretired : c'.recovery.retiredThrough = c.recovery.retiredThrough) : Keeps c c' where
  marked row hrow := .inl (hsettled ▸ hrow)
  retired r hr := ⟨r, hretired ▸ hr, Nat.le_refl r⟩

/-- The bound after some markers have gone. -/
theorem foldl_retired (gone : List SettledTurn) (through : Option Nat) :
    (∀ r, through = some r → ∃ r', gone.foldl (fun through row =>
      some (through.elim row.createdAt (fun old => max old row.createdAt))) through = some r' ∧
        r ≤ r') ∧
    ∀ row ∈ gone, ∃ r', gone.foldl (fun through row =>
      some (through.elim row.createdAt (fun old => max old row.createdAt))) through = some r' ∧
        row.createdAt ≤ r' := by
  induction gone generalizing through with
  | nil => exact ⟨fun r hr => ⟨r, hr, Nat.le_refl r⟩, nofun⟩
  | cons first gone ih =>
    obtain ⟨hbound, hgone⟩ := ih (some (through.elim first.createdAt
      (fun old => max old first.createdAt)))
    refine ⟨fun r hr => ?_, fun row hrow => ?_⟩
    · obtain ⟨r', hr', hle⟩ := hbound _ rfl
      refine ⟨r', hr', Nat.le_trans ?_ hle⟩
      rw [hr]
      exact Nat.le_max_left _ _
    · rcases List.mem_cons.mp hrow with rfl | hrest
      · obtain ⟨r', hr', hle⟩ := hbound _ rfl
        refine ⟨r', hr', Nat.le_trans ?_ hle⟩
        cases through with
        | none => exact Nat.le_refl _
        | some old => exact Nat.le_max_right _ _
      · exact hgone row hrest

theorem keeps_prune (c : RewardCollector) (now : Nat) : Keeps c (c.pruneRecovery now) where
  marked row hrow := by
    by_cases hgone : closedRetentionSecs ≤ now - row.closedAt
    · right
      refine (foldl_retired _ c.recovery.retiredThrough).2 row (List.mem_filter.mpr ⟨hrow, ?_⟩)
      exact decide_eq_true hgone
    · left
      exact List.mem_filter.mpr ⟨hrow, by simpa using hgone⟩
  retired := (foldl_retired _ c.recovery.retiredThrough).1

theorem Keeps.trans (h : Keeps c₁ c₂) (h' : Keeps c₂ c₃) : Keeps c₁ c₃ where
  marked row hrow := by
    rcases h.marked row hrow with hmarked | ⟨r, hr, hle⟩
    · exact h'.marked row hmarked
    · obtain ⟨r', hr', hle'⟩ := h'.retired r hr
      exact .inr ⟨r', hr', Nat.le_trans hle hle'⟩
  retired r hr := by
    obtain ⟨r', hr', hle⟩ := h.retired r hr
    obtain ⟨r'', hr'', hle'⟩ := h'.retired r' hr'
    exact ⟨r'', hr'', Nat.le_trans hle hle'⟩

theorem Happens.keeps (h : Happens c log e c') (hc : Sound c) : Keeps c c' := by
  obtain ⟨call, reply, rfl, hstep, _⟩ := h.call_eq
  cases call with
  | registerTurn turn =>
    cases hstep
    rcases registerTurn_spec c turn with hsame | hsame | hopens
    · rw [hsame]
      exact .of_eq rfl rfl
    · rw [hsame]
      exact keeps_prune c turn.now
    · exact (keeps_prune c turn.now).trans
        (.of_eq (by rw [hopens.recovery]) (by rw [hopens.recovery]))
  | reaction key added now =>
    cases hstep
    rcases reaction_spec c key added now with hsame | ⟨_, _, _, _, _, ⟨_, _, hrecovery, _⟩ |
      ⟨_, htakes⟩⟩
    · rw [hsame]
      exact .of_eq rfl rfl
    · exact .of_eq (by rw [hrecovery]) (by rw [hrecovery])
    · exact .of_eq (by rw [htakes.recovery]) (by rw [htakes.recovery])
  | feedback scope observer replyTo text now =>
    cases hstep
    rcases feedback_spec c scope observer replyTo text now with
      ⟨hsame, _⟩ | ⟨_, _, _, _, _, ⟨_, _, hupdate⟩ | ⟨_, hupdate⟩⟩
    · rw [hsame]
      exact .of_eq rfl rfl
    · rw [hupdate]
      exact .of_eq rfl rfl
    · rw [hupdate]
      exact .of_eq rfl rfl
  | abbeyMessageDeleted message =>
    cases hstep
    exact .of_eq rfl rfl
  | settleExpired now =>
    cases hstep
    obtain ⟨hcloses, _⟩ := settleExpired_spec now (fun id p hp => (hc.turns id p hp).tracking)
    refine (keeps_prune c now).trans ⟨fun row hrow => .inl ?_, fun r hr => ⟨r, ?_, Nat.le_refl r⟩⟩
    · rw [hcloses.settled]
      exact List.mem_append_left _ hrow
    · rw [hcloses.retired]
      exact hr
  | eraseLearning scope member ledger =>
    cases hstep
    obtain ⟨middle, htakes, hrecovery, _⟩ := eraseLearning_spec scope member ledger hc.keys
    exact .of_eq (by rw [hrecovery, htakes.recovery]) (by rw [hrecovery, htakes.recovery])
  | restart =>
    obtain ⟨d, hd, hrecovery, _⟩ := hc.restart
    simp only [RewardCollector.step, hd] at hstep
    cases hstep
    refine ⟨fun row hrow => .inl ?_, fun r hr => ⟨r, ?_, Nat.le_refl r⟩⟩
    · rw [hrecovery]
      exact (perm_settled c).mem_iff.mpr hrow
    · rw [hrecovery]
      exact hr

/-- The settled turns of the log cannot come back. -/
structure Retired (c : RewardCollector) (log : List RewardEvent) : Prop where
  marked : ∀ id t, (id, t) ∈ log.flatMap RewardEvent.settledTurns →
    (∃ row ∈ c.recovery.settled, row.message = id ∧ row.createdAt = t) ∨
      ∃ r, c.recovery.retiredThrough = some r ∧ t ≤ r
  gone : ∀ id t p, (id, t) ∈ log.flatMap RewardEvent.settledTurns → c.get id = some p →
    p.createdAt ≠ t
  once : (log.flatMap RewardEvent.settledTurns).Nodup

/-- What an event settles, and what becomes of it. -/
theorem Happens.settled (h : Happens c log e c') (hc : Sound c) :
    e.settledTurns.Nodup ∧ ∀ id t, (id, t) ∈ e.settledTurns →
      (∃ p, c.get id = some p ∧ p.createdAt = t) ∧ c'.get id = none ∧
        ∃ row ∈ c'.recovery.settled, row.message = id ∧ row.createdAt = t := by
  obtain ⟨call, reply, rfl, hstep, _⟩ := h.call_eq
  cases call with
  | settleExpired now =>
    cases hstep
    obtain ⟨hcloses, _⟩ := settleExpired_spec now (fun id p hp => (hc.turns id p hp).tracking)
    have hnodup : ((c.expired now).map Prod.fst).Nodup :=
      c.pending.nodup.sublist (List.filter_sublist.map _)
    refine ⟨?_, fun id t hmem => ?_⟩
    · refine List.Nodup.of_map Prod.fst ?_
      simp only [settledTurns, List.map_map]
      exact hnodup
    · obtain ⟨row, hrow, heq⟩ := List.mem_map.mp hmem
      cases heq
      have hget := get_of_mem (List.mem_filter.mp hrow).1
      refine ⟨⟨row.2, hget, rfl⟩, ?_, marker now row, ?_, rfl, rfl⟩
      · rw [hcloses.get, if_pos (List.mem_map_of_mem hrow)]
      · rw [hcloses.settled]
        exact List.mem_append_right _ (List.mem_map_of_mem hrow)
  | _ => exact ⟨List.nodup_nil, nofun⟩

theorem Retired.step (hr : Retired c log) (hc : Sound c) (h : Happens c log e c') :
    Retired c' (log ++ [e]) := by
  have hkeeps := h.keeps hc
  obtain ⟨hnodup, hsettled⟩ := h.settled hc
  have hsplit : ∀ {x}, x ∈ (log ++ [e]).flatMap settledTurns →
      x ∈ log.flatMap settledTurns ∨ x ∈ e.settledTurns := by
    intro x hx
    rw [List.flatMap_append, List.mem_append] at hx
    simpa using hx
  have hold : ∀ {d}, Keeps c d → ∀ id t, (id, t) ∈ log.flatMap settledTurns →
      (∃ row ∈ d.recovery.settled, row.message = id ∧ row.createdAt = t) ∨
        ∃ r, d.recovery.retiredThrough = some r ∧ t ≤ r := by
    intro d hd id t hmem
    rcases hr.marked id t hmem with ⟨row, hrow, hid, htime⟩ | ⟨r, hretired, hle⟩
    · rcases hd.marked row hrow with hmarked | ⟨r, hretired, hle⟩
      · exact .inl ⟨row, hmarked, hid, htime⟩
      · exact .inr ⟨r, hretired, by rwa [htime] at hle⟩
    · obtain ⟨r', hr', hle'⟩ := hd.retired r hretired
      exact .inr ⟨r', hr', Nat.le_trans hle hle'⟩
  refine ⟨fun id t hmem => ?_, fun id t q hmem hq => ?_, ?_⟩
  · rcases hsplit hmem with hbefore | hnew
    · exact hold hkeeps id t hbefore
    · exact .inl (hsettled id t hnew).2.2
  · rcases hsplit hmem with hbefore | hnew
    · cases hp : c.get id with
      | some p =>
        rw [(h.turnStep hc hp hq).createdAt]
        exact hr.gone id t p hbefore hp
      | none =>
        -- the turn registers anew, later than everything that is retired
        obtain ⟨turn, _, hopens, rfl, rfl⟩ := h.opened hc hp hq
        rintro rfl
        rcases hold (keeps_prune c turn.now) _ _ hbefore with ⟨row, hrow, hid, _⟩ | ⟨r, hretired, hle⟩
        · exact hopens.unmarked row hrow hid
        · exact absurd (hopens.later r hretired) (Nat.not_lt.mpr hle)
    · rw [(hsettled id t hnew).2.1] at hq
      cases hq
  · rw [List.flatMap_append, List.flatMap_singleton, List.nodup_append]
    refine ⟨hr.once, hnodup, ?_⟩
    rintro ⟨id, t⟩ hbefore _ hnew rfl
    obtain ⟨p, hp, htime⟩ := (hsettled id t hnew).1
    exact hr.gone id t p hbefore hp htime

theorem retired_of_run (h : RewardRun c log) : Retired c log := by
  have hboth : Sound c ∧ Retired c log := by
    refine Trace.invariant (I := fun c log => Sound c ∧ Retired c log) (fun c hstart => ?_)
      (fun _ _ _ _ hc hnext => ⟨hc.1.happens hnext, hc.2.step hc.1 hnext⟩) h
    rw [hstart]
    exact ⟨sound_new, nofun, nofun,
      List.nodup_nil⟩
  exact hboth.2

/-! ## The rewards -/

/-- What the log says about the turns whose message was not deleted, and
which turns these are. -/
def Tracks (c : RewardCollector) (log : List RewardEvent) : Prop :=
  ∀ id p, c.get id = some p → p.settleImmediately = deleted log id ∧
    (deleted log id = false → p.reward = worth c log id)

theorem deleted_append (hopens : e.opens id = false) :
    deleted (log ++ [e]) id = (e.deletes id || deleted log id) := by
  unfold deleted
  rw [sinceOpened_append, hopens]
  rfl

theorem credited_append (hopens : e.opens id = false) :
    credited (log ++ [e]) id = credited log id + if e.credits id then 1 else 0 := by
  unfold credited
  rw [sinceOpened_append, hopens]
  exact List.countP_cons ..

theorem not_opens (h : Happens c log e c') (hp : c.get id = some p) : e.opens id = false := by
  unfold opens
  rw [h.before, hp]
  rfl

/-- A turn that opens is worth the baseline. -/
theorem worth_opened (h : Happens c log e c') (hc : Sound c) (hp : c.get id = none)
    (hq : c'.get id = some q) : deleted (log ++ [e]) id = false ∧ q.settleImmediately = false ∧
      q.reward = worth c' (log ++ [e]) id := by
  have hopens : e.opens id := by
    unfold opens
    rw [h.before, h.after, hp, hq]
    rfl
  obtain ⟨turn, _, hopened, rfl, rfl⟩ := h.opened hc hp hq
  have hnone : ∀ r ∈ c'.recovery.reactions, r.key.message ≠ turn.sentNativeMessageId := by
    intro r hr heq
    rw [hopened.recovery] at hr
    obtain ⟨_, _, p, hget, _⟩ := hc.reactions r hr
    rw [heq, hp] at hget
    cases hget
  have hpositives : positives c'.recovery.reactions turn.sentNativeMessageId = 0 :=
    List.countP_eq_zero.mpr (fun r hr => by simp [hnone r hr])
  have hnegatives : negatives c'.recovery.reactions turn.sentNativeMessageId = 0 :=
    List.countP_eq_zero.mpr (fun r hr => by simp [hnone r hr])
  have hdeleted : deleted (log ++ [e]) turn.sentNativeMessageId = false := by
    unfold deleted
    rw [sinceOpened_append, hopens]
    rfl
  have hcredited : credited (log ++ [e]) turn.sentNativeMessageId = 0 := by
    unfold credited
    rw [sinceOpened_append, hopens]
    rfl
  refine ⟨hdeleted, rfl, ?_⟩
  unfold worth
  rw [hdeleted, hpositives, hnegatives, hcredited]
  simp [ReplyTurn.opened, replyBaseline]

theorem Tracks.step (ht : Tracks c log) (hc : Sound c) (h : Happens c log e c') :
    Tracks c' (log ++ [e]) := by
  intro id q hq
  cases hp : c.get id with
  | none =>
    obtain ⟨hdeleted, hsettles, hreward⟩ := worth_opened h hc hp hq
    exact ⟨hsettles.trans hdeleted.symm, fun _ => hreward⟩
  | some p =>
    obtain ⟨hflag, hworth⟩ := ht id p hp
    have hopens := not_opens h hp
    have hturn := h.turnStep hc hp hq
    refine ⟨?_, fun hnot => ?_⟩
    · rw [hturn.settles, deleted_append hopens, hflag, Bool.or_comm]
    · have hboth := hnot
      rw [deleted_append hopens, Bool.or_eq_false_iff] at hboth
      have hbefore := hworth hboth.2
      have hreward := hturn.reward
      rw [h.before, h.after, hboth.1] at hreward
      unfold worth at hbefore ⊢
      rw [hboth.2] at hbefore
      rw [hnot, credited_append hopens]
      rw [hreward, hbefore]
      cases e.credits id with
      | true | false =>
        simp
        ring

theorem tracks_of_run (h : RewardRun c log) : Sound c ∧ Tracks c log := by
  refine Trace.invariant (I := fun c log => Sound c ∧ Tracks c log) (fun c hstart => ?_)
    (fun _ _ _ _ hc hnext => ⟨hc.1.happens hnext, hc.2.step hc.1 hnext⟩) h
  rw [hstart]
  exact ⟨sound_new, nofun⟩

/-- A calm event keeps the rewards exact. -/
theorem Exact.step (hexact : Exact c log) (ht : Tracks c log) (hc : Sound c)
    (h : Happens c log e c') (hcalm : e.Calm) : Exact c' (log ++ [e]) := by
  intro id q hq
  have hafter := ht.step hc h id q hq
  cases hdeleted : deleted (log ++ [e]) id with
  | false => exact hafter.2 hdeleted
  | true =>
    cases hp : c.get id with
    | none =>
      rw [(worth_opened h hc hp hq).1] at hdeleted
      cases hdeleted
    | some p =>
      have hturn := h.turnStep hc hp hq
      have hreward := hturn.reward
      unfold worth
      rw [hdeleted, if_pos rfl]
      cases hdeletes : e.deletes id with
      | true =>
        rw [hreward, hdeletes, if_pos rfl]
      | false =>
        rw [deleted_append (not_opens h hp), hdeletes, Bool.false_or] at hdeleted
        have hsettles : p.settleImmediately := (ht id p hp).1.trans hdeleted
        obtain ⟨hcredits, hpositives, hnegatives⟩ := hturn.frozen hsettles
        have hbefore := hexact id p hp
        unfold worth at hbefore
        rw [hdeleted, if_pos rfl] at hbefore
        have hequal : (positives (e.erasedRecords id) id : ℚ) =
            negatives (e.erasedRecords id) id := by
          rw [(h.calm_iff hc).mp hcalm id p hp hsettles (by rw [hq]; rfl)]
        rw [hdeletes, hcredits, hbefore] at hreward
        simp only [Bool.false_eq_true, if_false] at hreward
        linarith

/-- An event between two exact states is calm. -/
theorem calm_of_exact (hexact : Exact c log) (ht : Tracks c log) (hc : Sound c)
    (h : Happens c log e c') (hafter : Exact c' (log ++ [e])) : e.Calm := by
  refine (h.calm_iff hc).mpr (fun id p hp hsettles hstays => ?_)
  obtain ⟨q, hq⟩ := Option.isSome_iff_exists.mp hstays
  have hdeleted : deleted log id := (ht id p hp).1.symm.trans hsettles
  have hturn := h.turnStep hc hp hq
  obtain ⟨hcredits, hpositives, hnegatives⟩ := hturn.frozen hsettles
  cases hdeletes : e.deletes id with
  | true =>
    have hnone : e.erasedRecords id = [] := by
      unfold deletes at hdeletes
      unfold erasedRecords
      split at hdeletes
      · rename_i hcall
        rw [hcall]
      · cases hdeletes
    rw [hnone]
    rfl
  | false =>
    have hbefore := hexact id p hp
    have hworth := hafter id q hq
    unfold worth at hbefore hworth
    rw [hdeleted, if_pos rfl] at hbefore
    rw [deleted_append (not_opens h hp), hdeletes, hdeleted, Bool.false_or, if_pos rfl] at hworth
    have hreward := hturn.reward
    rw [hdeletes, hcredits, hbefore, hworth] at hreward
    simp only [Bool.false_eq_true, if_false] at hreward
    have hequal : (positives (e.erasedRecords id) id : ℚ) = negatives (e.erasedRecords id) id := by
      linarith
    exact_mod_cast hequal

theorem exact_of_calm (h : RewardRun c log) (hcalm : ∀ e ∈ log, e.Calm) : Exact c log := by
  have hrun : Trace (fun c => c = .new) Happens c log := h
  induction hrun with
  | nil hstart =>
    intro id p hp
    rw [hstart] at hp
    cases hp
  | snoc hbefore hnext ih =>
    have hrest := ih hbefore (fun e he => hcalm e (List.mem_append_left _ he))
    obtain ⟨hsound, htracks⟩ := tracks_of_run hbefore
    exact hrest.step htracks hsound hnext (hcalm _ (by simp))

/-! ## The parts of the claim -/

/-- The reactions of a turn are counted, so that none of its records can
be taken back twice. -/
structure Counted (c : RewardCollector) : Prop where
  positives : ∀ id p, c.get id = some p → p.positiveReactions = positives c.recovery.reactions id
  bounded : ∀ id p, c.get id = some p → p.positiveReactions ≤ 3
  reversible : ∀ r ∈ c.recovery.reactions, r.contribution = .positive →
    ∃ p, c.get r.key.message = some p ∧ 0 < p.positiveReactions

theorem Sound.counted (hc : Sound c) : Counted c where
  positives := hc.positives
  bounded := hc.bounded
  reversible r hr hpositive := by
    obtain ⟨_, _, p, hp, _⟩ := hc.reactions r hr
    refine ⟨p, hp, ?_⟩
    rw [hc.positives _ _ hp]
    exact List.countP_pos_iff.mpr ⟨r, hr, by simp [hpositive]⟩

theorem reward_ledger_exact_iff (h : RewardRun c log) :
    c.exportRecovery.validate c.exportPending = .ok () ∧ (∃ c', c.restart = .ok c') ∧ Counted c ∧
      (log.flatMap RewardEvent.settledTurns).Nodup ∧
      ((∀ pre e post, log = pre ++ e :: post → Exact e.after (pre ++ [e])) ↔ ∀ e ∈ log, e.Calm) := by
  have hsound := sound_of_run h
  obtain ⟨c', hrestart, _⟩ := hsound.restart
  refine ⟨hsound.validate, ⟨c', hrestart⟩, hsound.counted, (retired_of_run h).once,
    fun hexact e he => ?_, fun hcalm pre e post hlog => ?_⟩
  · obtain ⟨pre, post, hlog⟩ := List.append_of_mem he
    have hwhole : Trace (fun c => c = .new) Happens c (pre ++ e :: post) := hlog ▸ h
    obtain ⟨s, u, hs, hnext⟩ := hwhole.at_event
    obtain ⟨hsound, htracks⟩ := tracks_of_run hs
    -- the state before is exact: it is empty, or the state after an earlier event
    have hbefore : Exact s pre := by
      cases hs with
      | nil hstart =>
        intro id p hp
        rw [hstart] at hp
        cases hp
      | snoc hrun hlast =>
        rename_i r log' e'
        have hearlier := hexact log' e' (e :: post) (by rw [hlog]; simp)
        rwa [hlast.after] at hearlier
    have hafter := hexact pre e post hlog
    rw [hnext.after] at hafter
    exact calm_of_exact hbefore htracks hsound hnext hafter
  · have hwhole : Trace (fun c => c = .new) Happens c ((pre ++ [e]) ++ post) := by
      rw [List.append_assoc, List.singleton_append, ← hlog]
      exact h
    obtain ⟨u, hu⟩ := hwhole.of_append
    obtain ⟨s, hs, hnext⟩ := hu.last
    rw [hnext.after]
    refine exact_of_calm hu (fun d hd => hcalm d ?_)
    rw [hlog]
    rcases List.mem_append.mp hd with hpre | hlast
    · exact List.mem_append_left _ hpre
    · rw [List.mem_singleton.mp hlast]
      simp

/-! ## A deleted turn and the erasure of its reactor -/

/-- The events of a list of calls. -/
def eventsOf (c : RewardCollector) : List RewardCall → List RewardEvent
  | [] => []
  | call :: calls => ⟨c, call, (c.step call).2, (c.step call).1⟩ :: eventsOf (c.step call).1 calls

def stateAfter (c : RewardCollector) (calls : List RewardCall) : RewardCollector :=
  calls.foldl (fun c call => (c.step call).1) c

theorem run_eventsOf (calls : List RewardCall) (h : RewardRun c log) (hok : ∀ call ∈ calls, call.Ok) :
    RewardRun (stateAfter c calls) (log ++ eventsOf c calls) := by
  induction calls generalizing c log with
  | nil =>
    rw [eventsOf, List.append_nil]
    exact h
  | cons call calls ih =>
    have hnext : RewardRun (c.step call).1 (log ++ [⟨c, call, (c.step call).2, (c.step call).1⟩]) :=
      h.snoc ⟨rfl, rfl, rfl, hok call (List.mem_cons_self ..)⟩
    have hrest := ih hnext (fun call hcall => hok call (List.mem_cons_of_mem _ hcall))
    rwa [List.append_assoc, List.singleton_append] at hrest

end Exactness

def sampleSeams : Seams where
  lower := id
  isAlphanumeric := Char.isAlphanum
  wyhash _ _ := 9
  sha256 _ := "0000000000000000000000000000000000000000000000000000000000000000"

def sampleTurn : ReplyTurn := ⟨[], 1, "m", "discord:5", "discord:1", "", "discord:7", 100⟩

def sampleTombstone : Tombstone :=
  ⟨"0000000000000000000000000000000000000000000000000000000000000000",
    some "0000000000000000000000000000000000000000000000000000000000000000", 103, 403⟩

/-- A reply, a reaction to it, its deletion, and the erasure of the reactor. -/
def sampleCalls : List RewardCall :=
  [.registerTurn sampleTurn, .reaction ⟨"discord:5", "m", 9, "👍"⟩ true 101,
    .abbeyMessageDeleted "m", .eraseLearning "discord:1" (some "discord:9") ⟨[sampleTombstone]⟩]

theorem sampleCalls_ok : ∀ call ∈ sampleCalls, call.Ok := by
  have hturn : sampleTurn.Ok := ⟨by decide +kernel, .inr (by decide +kernel), by decide⟩
  have hledger : ErasureLedger.validate ⟨[sampleTombstone]⟩ = .ok () := by decide +kernel
  intro call hcall
  simp only [sampleCalls, List.mem_cons, List.not_mem_nil, or_false] at hcall
  rcases hcall with rfl | rfl | rfl | rfl
  · exact hturn
  · trivial
  · trivial
  · exact hledger

theorem reward_ledger_exact_iff_sample :
    (∃ c', (@stateAfter sampleSeams .new sampleCalls).restart = .ok c') ∧
      Counted (@stateAfter sampleSeams .new sampleCalls) ∧
      ((∀ pre e post, @eventsOf sampleSeams .new sampleCalls = pre ++ e :: post →
          Exact e.after (pre ++ [e])) ↔
        ∀ e ∈ @eventsOf sampleSeams .new sampleCalls, @RewardEvent.Calm sampleSeams e) := by
  have hrun := @run_eventsOf sampleSeams .new [] sampleCalls (.nil rfl) sampleCalls_ok
  obtain ⟨_, hrestart, hcounted, _, hexact⟩ := @reward_ledger_exact_iff sampleSeams _ _ hrun
  exact ⟨hrestart, hcounted, hexact⟩

/-- The erasure takes the reaction back from the reward of the deletion. -/
theorem deleted_turn_drops_further : ∃ c log, @RewardRun sampleSeams c log ∧ ¬ Exact c log := by
  have hrun := @run_eventsOf sampleSeams .new [] sampleCalls (.nil rfl) sampleCalls_ok
  refine ⟨_, _, hrun, fun hexact => ?_⟩
  have hreward : ((@stateAfter sampleSeams .new sampleCalls).get "m").map Pending.reward =
      some (-3) := by decide +kernel
  have hdeleted : deleted (@eventsOf sampleSeams .new sampleCalls) "m" = true := by decide +kernel
  obtain ⟨p, hp, hminus⟩ := Option.map_eq_some_iff.mp hreward
  have hworth := hexact "m" p hp
  unfold worth at hworth
  rw [List.nil_append, hdeleted, if_pos rfl, hminus] at hworth
  norm_num at hworth

end Abbey.Reward
