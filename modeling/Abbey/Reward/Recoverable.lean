import Abbey.Reward.Records

/-!
# The exported state is accepted

`Sound` is the invariant behind `validate`.  `Sound.revise` is the rule for
the operations that rewrite turns in place; each operation has its lemma,
and `Sound.validate` says that the check of the restart accepts.
-/

namespace Abbey.Reward

open Abbey.Lib RewardCollector RewardRecovery List RewardRecovery

variable {gone : List String} {id : String}

/-- What `validate` asks of one turn. -/
structure Pending.Ok (id : String) (p : Pending) : Prop where
  id : identity id = true
  action : p.action < actionCount
  signature : p.askSignature.valid = true
  scope : p.scope = "" ∨ identity p.scope = true
  tracking : p.reactionTracking = true

structure Sound (c : RewardCollector) : Prop where
  erasure : c.recovery.erasure.validate = .ok ()
  length : c.recovery.reactions.length ≤ maxRecoveryEntries
  capacity : c.recovery.settled.length + c.pending.rows.length ≤ maxRecoveryEntries
  turns : ∀ id p, c.get id = some p → p.Ok id
  settled : ∀ row ∈ c.recovery.settled, identity row.message = true ∧
    (row.scope = "" ∨ identity row.scope = true) ∧ row.createdAt ≤ row.closedAt
  messages : (c.recovery.settled.map SettledTurn.message).Nodup
  closed : ∀ row ∈ c.recovery.settled, c.get row.message = none
  keys : (c.recovery.reactions.map ReactionRecord.key).Nodup
  reactions : ∀ r ∈ c.recovery.reactions, identity r.key.scope = true ∧
    Matches r.key r.contribution = true ∧
      ∃ p, c.get r.key.message = some p ∧ p.scope = r.key.scope
  positives : ∀ id p, c.get id = some p → p.positiveReactions = positives c.recovery.reactions id
  bounded : ∀ id p, c.get id = some p → p.positiveReactions ≤ maxPositiveReactions

theorem sound_new : Sound new where
  erasure := by decide
  length := by decide
  capacity := by decide
  turns _ _ h := by cases h
  settled _ h := by cases h
  messages := nodup_nil
  closed _ h := by cases h
  keys := nodup_nil
  reactions _ h := by cases h
  positives _ _ h := by cases h
  bounded _ _ h := by cases h

/-- A turn after a rewrite that keeps what it is. -/
structure Pending.Same (p q : Pending) : Prop where
  action : q.action = p.action
  signature : q.askSignature = p.askSignature
  scope : q.scope = p.scope
  tracking : q.reactionTracking = p.reactionTracking

theorem Pending.Ok.same {p q : Pending} (hp : p.Ok id) (h : p.Same q) : q.Ok id where
  id := hp.id
  action := by rw [h.action]; exact hp.action
  signature := by rw [h.signature]; exact hp.signature
  scope := by rw [h.scope]; exact hp.scope
  tracking := by rw [h.tracking]; exact hp.tracking

variable {c c' : RewardCollector}

/-- Turns are rewritten in place, and the records with them. -/
theorem Sound.revise (hc : Sound c) (g : String → Pending → Pending)
    (hget : ∀ k, c'.get k = (c.get k).map (g k)) (hsame : ∀ k (p : Pending), p.Same (g k p))
    (hrows : c'.pending.rows.length = c.pending.rows.length)
    (hrecovery : c'.recovery = { c.recovery with reactions := c'.recovery.reactions })
    (hlength : c'.recovery.reactions.length ≤ maxRecoveryEntries)
    (hkeys : (c'.recovery.reactions.map ReactionRecord.key).Nodup)
    (hreactions : ∀ r ∈ c'.recovery.reactions, r ∈ c.recovery.reactions ∨
      identity r.key.scope ∧ Matches r.key r.contribution ∧
        ∃ p, c.get r.key.message = some p ∧ p.scope = r.key.scope)
    (hpositives : ∀ k p, c.get k = some p →
      (g k p).positiveReactions = RewardRecovery.positives c'.recovery.reactions k ∧
        (g k p).positiveReactions ≤ maxPositiveReactions) : Sound c' := by
  have hturn : ∀ {k q}, c'.get k = some q → ∃ p, c.get k = some p ∧ g k p = q := by
    intro k q hq
    rw [hget] at hq
    exact Option.map_eq_some_iff.mp hq
  have hsettled : c'.recovery.settled = c.recovery.settled := by rw [hrecovery]
  refine
    { erasure := by rw [hrecovery]; exact hc.erasure
      length := hlength
      capacity := by rw [hsettled, hrows]; exact hc.capacity
      turns := ?_
      settled := by rw [hsettled]; exact hc.settled
      messages := by rw [hsettled]; exact hc.messages
      closed := ?_
      keys := hkeys
      reactions := ?_
      positives := ?_
      bounded := ?_ }
  · intro k q hq
    obtain ⟨p, hp, rfl⟩ := hturn hq
    exact (hc.turns k p hp).same (hsame k p)
  · intro row hrow
    rw [hsettled] at hrow
    rw [hget, hc.closed row hrow]
    rfl
  · intro r hr
    obtain ⟨hscope, hmatches, p, hp, hpscope⟩ : identity r.key.scope ∧
        Matches r.key r.contribution ∧
          ∃ p, c.get r.key.message = some p ∧ p.scope = r.key.scope := by
      rcases hreactions r hr with hold | hnew
      · exact hc.reactions r hold
      · exact hnew
    refine ⟨hscope, hmatches, g r.key.message p, ?_, ?_⟩
    · rw [hget, hp]
      rfl
    · rw [(hsame _ p).scope]
      exact hpscope
  · intro k q hq
    obtain ⟨p, hp, rfl⟩ := hturn hq
    exact (hpositives k p hp).1
  · intro k q hq
    obtain ⟨p, hp, rfl⟩ := hturn hq
    exact (hpositives k p hp).2

/-- A rewrite of one turn that leaves its reactions alone. -/
theorem Sound.update (hc : Sound c) (id : String) (f : Pending → Pending)
    (hf : ∀ p, p.Same (f p) ∧ (f p).positiveReactions = p.positiveReactions) :
    Sound (c.update id f) := by
  refine hc.revise (fun k p => if k = id then f p else p) (fun k => get_update f k) ?_
    (length_update f) rfl hc.length hc.keys (fun r hr => .inl hr) ?_
  · intro k p
    split_ifs
    · exact (hf p).1
    · exact ⟨rfl, rfl, rfl, rfl⟩
  · intro k p hp
    have hcount := hc.positives k p hp
    have hbound := hc.bounded k p hp
    split_ifs
    · rw [(hf p).2]
      exact ⟨hcount, hbound⟩
    · exact ⟨hcount, hbound⟩

theorem Sound.takes (hc : Sound c) (h : Takes c c' taken) : Sound c' := by
  have hsub : c'.recovery.reactions ⊆ c.recovery.reactions := fun r hr =>
    h.reactions.mem_iff.mpr (mem_append_right _ hr)
  refine hc.revise (fun k p => p.without taken k) h.get (fun k p => ⟨rfl, rfl, rfl, rfl⟩) h.length
    h.recovery ?_ ?_ (fun r hr => .inl (hsub hr)) ?_
  · have hlength := h.reactions.length_eq
    have hold := hc.length
    rw [length_append] at hlength
    omega
  · have hall := (h.reactions.map ReactionRecord.key).nodup_iff.mp hc.keys
    rw [map_append] at hall
    exact (nodup_append.mp hall).2.1
  · intro k p hp
    have hcount := hc.positives k p hp
    have hbound := hc.bounded k p hp
    rw [positives_perm h.reactions, positives_append] at hcount
    simp only [Pending.without]
    omega

/-! ## The operations -/

theorem Sound.abbeyMessageDeleted (hc : Sound c) (id : String) : Sound (c.abbeyMessageDeleted id) :=
  hc.update id _ (fun _ => ⟨⟨rfl, rfl, rfl, rfl⟩, rfl⟩)

theorem credit_same (outcome : ReplyOutcome) (p : Pending) :
    p.Same (credit outcome p) ∧ (credit outcome p).positiveReactions = p.positiveReactions := by
  unfold credit
  split_ifs <;> exact ⟨⟨rfl, rfl, rfl, rfl⟩, rfl⟩

theorem Sound.feedback [Seams] (hc : Sound c) (scope observer : String) (replyTo : Option String)
    (text : String) (now : Nat) : Sound (c.feedback scope observer replyTo text now).1 := by
  rcases feedback_spec c scope observer replyTo text now with
    ⟨hsame, _⟩ | ⟨id, _, outcome, _, _, ⟨_, _, hupdate⟩ | ⟨_, hupdate⟩⟩
  · rw [hsame]
    exact hc
  · rw [hupdate]
    exact (hc.update id (fun p => { p with reward := p.reward + 1 / 2 })
      (fun _ => ⟨⟨rfl, rfl, rfl, rfl⟩, rfl⟩)).update id _ (credit_same outcome)
  · rw [hupdate]
    exact hc.update id _ (credit_same outcome)

theorem Sound.pruneRecovery (hc : Sound c) (now : Nat) : Sound (c.pruneRecovery now) := by
  have hsub : (c.pruneRecovery now).recovery.settled.Sublist c.recovery.settled :=
    filter_sublist
  exact
    { erasure := hc.erasure
      length := hc.length
      capacity := Nat.le_trans (Nat.add_le_add_right hsub.length_le _) hc.capacity
      turns := hc.turns
      settled := fun row hrow => hc.settled row (hsub.subset hrow)
      messages := hc.messages.sublist (hsub.map _)
      closed := fun row hrow => hc.closed row (hsub.subset hrow)
      keys := hc.keys
      reactions := hc.reactions
      positives := hc.positives
      bounded := hc.bounded }

theorem get_of_pending_eq (h : c'.pending = (c.update id f).pending) (k : String) :
    c'.get k = (c.get k).map (fun p => if k = id then f p else p) := by
  rw [← get_update]
  unfold RewardCollector.get
  rw [h]

theorem Sound.reaction [Seams] (hc : Sound c) (key : ReactionKey) (added : Bool) (now : Nat) :
    Sound (c.reaction key added now).1 := by
  rcases reaction_spec c key added now with
    hsame | ⟨p, hget, _, hscope, hempty, ⟨f, contribution, hrecovery, hpending, hadds, hmatches,
      hroom, hfresh⟩ | ⟨contribution, htakes⟩⟩
  · rw [hsame]
    exact hc
  · have hreactions : (c.reaction key added now).1.recovery.reactions =
        c.recovery.reactions ++ [⟨key, contribution⟩] := by rw [hrecovery]
    -- only the turn of the message is rewritten, so the rewrite is by its value
    have hturn := get_of_pending_eq hpending
    refine hc.revise (fun k q => if k = key.message then
        { q with reward := (f p).reward, positiveReactions := (f p).positiveReactions } else q)
      (fun k => ?_) ?_ ?_ ?_ ?_ ?_ ?_ ?_
    · rw [hturn]
      by_cases hk : k = key.message
      · subst hk
        rw [hget, Option.map_some, Option.map_some, if_pos rfl, if_pos rfl, ← hadds.turn]
      · simp only [hk, if_false]
    · intro k q
      split_ifs <;> exact ⟨rfl, rfl, rfl, rfl⟩
    · rw [hpending]
      exact length_update f
    · rw [hreactions]
      exact hrecovery
    · rw [hreactions, length_append, length_singleton]
      omega
    · rw [hreactions, map_append, nodup_append]
      refine ⟨hc.keys, by simp, ?_⟩
      intro a ha b hb
      obtain ⟨r, hr, rfl⟩ := mem_map.mp ha
      rw [mem_singleton.mp hb]
      exact hfresh r hr
    · intro r hr
      rw [hreactions, mem_append, mem_singleton] at hr
      refine hr.imp_right (fun hnew => ?_)
      subst hnew
      have hok := (hc.turns _ _ hget).scope
      rw [hscope] at hok
      exact ⟨hok.resolve_left hempty, hmatches, p, hget, hscope⟩
    · intro k q hq
      have hcount := hc.positives k q hq
      have hbound := hc.bounded k q hq
      rw [hreactions, positives_append, positives_cons]
      by_cases hk : k = key.message
      · subst hk
        rw [hget] at hq
        cases hq
        have hpositives := hadds.positives
        have hstill := hadds.bounded hbound
        simp only [if_true, true_and]
        refine ⟨?_, hstill⟩
        rw [hpositives, hcount]
        simp [RewardRecovery.positives]
      · have hne : ¬ key.message = k := fun heq => hk heq.symm
        simp only [hk, hne, if_false, false_and]
        exact ⟨by simpa [RewardRecovery.positives] using hcount, hbound⟩
  · exact hc.takes htakes

/-- What is asked of a turn that registers. -/
structure ReplyTurn.Ok (turn : ReplyTurn) : Prop where
  id : identity turn.sentNativeMessageId = true
  scope : turn.scope = "" ∨ identity turn.scope = true
  action : turn.action < actionCount

theorem Sound.registerTurn [Seams] (hc : Sound c) (hturn : turn.Ok) :
    Sound (c.registerTurn turn) := by
  rcases registerTurn_spec c turn with hsame | hsame | hopens
  · rw [hsame]
    exact hc
  · rw [hsame]
    exact hc.pruneRecovery turn.now
  · have hpruned := hc.pruneRecovery turn.now
    generalize c.pruneRecovery turn.now = pruned at hopens hpruned
    have hnoRecord : ∀ r ∈ pruned.recovery.reactions, r.key.message ≠ turn.sentNativeMessageId := by
      intro r hr heq
      obtain ⟨_, _, p, hget, _⟩ := hpruned.reactions r hr
      rw [heq, hopens.fresh] at hget
      cases hget
    have hcases : ∀ k p, (c.registerTurn turn).get k = some p →
        k = turn.sentNativeMessageId ∧ p = turn.opened ∨ pruned.get k = some p := by
      intro k p hp
      rw [hopens.get] at hp
      split_ifs at hp with hk
      · exact .inl ⟨hk, (Option.some.inj hp).symm⟩
      · exact .inr hp
    refine
      { erasure := by rw [hopens.recovery]; exact hpruned.erasure
        length := by rw [hopens.recovery]; exact hpruned.length
        capacity := ?_
        turns := ?_
        settled := by rw [hopens.recovery]; exact hpruned.settled
        messages := by rw [hopens.recovery]; exact hpruned.messages
        closed := ?_
        keys := by rw [hopens.recovery]; exact hpruned.keys
        reactions := ?_
        positives := ?_
        bounded := ?_ }
    · have hroom := hopens.room
      rw [hopens.recovery, hopens.length]
      omega
    · intro k p hp
      rcases hcases k p hp with ⟨rfl, rfl⟩ | hold
      · exact ⟨hturn.id, hturn.action, AskSignature.valid_fromText _, hturn.scope, rfl⟩
      · exact hpruned.turns k p hold
    · intro row hrow
      rw [hopens.recovery] at hrow
      rw [hopens.get, if_neg (hopens.unmarked row hrow)]
      exact hpruned.closed row hrow
    · intro r hr
      rw [hopens.recovery] at hr
      rw [hopens.get, if_neg (hnoRecord r hr)]
      exact hpruned.reactions r hr
    · intro k p hp
      rw [hopens.recovery]
      rcases hcases k p hp with ⟨rfl, rfl⟩ | hold
      · symm
        refine countP_eq_zero.mpr (fun r hr => ?_)
        simp [hnoRecord r hr]
      · exact hpruned.positives k p hold
    · intro k p hp
      rcases hcases k p hp with ⟨_, rfl⟩ | hold
      · exact Nat.zero_le _
      · exact hpruned.bounded k p hold

/-- The records of the turns that are left. -/
theorem countP_filter_message (reactions : List ReactionRecord) (hk : k ∉ gone) :
    positives (reactions.filter (fun r => r.key.message ∉ gone)) k = positives reactions k ∧
      negatives (reactions.filter (fun r => r.key.message ∉ gone)) k = negatives reactions k := by
  have hall : ∀ kind : ReactionContribution,
      (reactions.filter (fun r => r.key.message ∉ gone)).countP
          (fun r => decide (r.key.message = k) && decide (r.contribution = kind)) =
        reactions.countP (fun r => decide (r.key.message = k) && decide (r.contribution = kind)) := by
    intro kind
    rw [countP_filter]
    refine countP_congr (fun r _ => ?_)
    simp only [Bool.and_eq_true, decide_eq_true_eq, and_iff_left_iff_imp]
    rintro ⟨rfl, _⟩
    exact hk
  exact ⟨hall .positive, hall .negative⟩

/-- Turns leave with their records. -/
theorem Sound.leave (hc : Sound c) (added : List SettledTurn)
    (herasure : c'.recovery.erasure.validate = .ok ()) (hreactions : c'.recovery.reactions =
      c.recovery.reactions.filter (fun r => r.key.message ∉ gone))
    (hget : ∀ k, c'.get k = if k ∈ gone then none else c.get k)
    (hsettled : c'.recovery.settled = c.recovery.settled ++ added)
    (hadded : ∀ row ∈ added, identity row.message ∧
      (row.scope = "" ∨ identity row.scope) ∧ row.createdAt ≤ row.closedAt ∧
      row.message ∈ gone ∧ (c.get row.message).isSome)
    (hnodup : (added.map SettledTurn.message).Nodup)
    (hlength : c'.pending.rows.length + added.length ≤ c.pending.rows.length) : Sound c' := by
  have hturn : ∀ {k p}, c'.get k = some p → k ∉ gone ∧ c.get k = some p := by
    intro k p hp
    rw [hget] at hp
    split_ifs at hp with hk
    exact ⟨hk, hp⟩
  refine
    { erasure := herasure
      length := ?_
      capacity := ?_
      turns := fun k p hp => hc.turns k p (hturn hp).2
      settled := ?_
      messages := ?_
      closed := ?_
      keys := ?_
      reactions := ?_
      positives := ?_
      bounded := fun k p hp => hc.bounded k p (hturn hp).2 }
  · rw [hreactions]
    exact Nat.le_trans (length_filter_le _ _) hc.length
  · have hold := hc.capacity
    rw [hsettled, length_append]
    omega
  · intro row hrow
    rw [hsettled, mem_append] at hrow
    rcases hrow with hold | hnew
    · exact hc.settled row hold
    · obtain ⟨hid, hscope, htime, _⟩ := hadded row hnew
      exact ⟨hid, hscope, htime⟩
  · rw [hsettled, map_append, nodup_append]
    refine ⟨hc.messages, hnodup, ?_⟩
    intro a ha b hb heq
    obtain ⟨row, hrow, rfl⟩ := mem_map.mp ha
    obtain ⟨row', hrow', rfl⟩ := mem_map.mp hb
    have hopen := (hadded row' hrow').2.2.2.2
    rw [← heq, hc.closed row hrow] at hopen
    cases hopen
  · intro row hrow
    rw [hsettled, mem_append] at hrow
    rw [hget]
    rcases hrow with hold | hnew
    · rw [hc.closed row hold]
      split_ifs <;> rfl
    · rw [if_pos (hadded row hnew).2.2.2.1]
  · rw [hreactions]
    exact hc.keys.sublist (filter_sublist.map _)
  · intro r hr
    rw [hreactions] at hr
    obtain ⟨hmem, hkept⟩ := mem_filter.mp hr
    rw [hget, if_neg (of_decide_eq_true hkept)]
    exact hc.reactions r hmem
  · intro k p hp
    obtain ⟨hk, hold⟩ := hturn hp
    rw [hreactions, (countP_filter_message c.recovery.reactions hk).1]
    exact hc.positives k p hold

theorem Sound.settleExpired (hc : Sound c) (now : Nat) : Sound (c.settleExpired now).1 := by
  have htracking : ∀ id p, c.get id = some p → p.reactionTracking :=
    fun id p hp => (hc.turns id p hp).tracking
  obtain ⟨hcloses, _⟩ := settleExpired_spec now htracking
  have hpruned := hc.pruneRecovery now
  have hexpired : ∀ row ∈ c.expired now, c.get row.1 = some row.2 :=
    fun row hrow => get_of_mem (mem_filter.mp hrow).1
  refine hpruned.leave _ (by rw [hcloses.erasure]; exact hpruned.erasure) hcloses.reactions
    hcloses.get hcloses.settled ?_ ?_ ?_
  · intro row hrow
    obtain ⟨⟨id, p⟩, hmem, rfl⟩ := mem_map.mp hrow
    have hget := hexpired _ hmem
    have hok := hc.turns id p hget
    refine ⟨hok.id, hok.scope, Nat.le_max_right _ _, mem_map_of_mem hmem, ?_⟩
    show (c.get id).isSome
    rw [hget]
    rfl
  · rw [map_map]
    exact c.pending.nodup.sublist (filter_sublist.map _)
  · rw [length_map]
    exact Nat.le_of_eq hcloses.length

theorem Sound.eraseLearning [Seams] (hc : Sound c) (scope : String) (member : Option String)
    (hledger : ledger.validate = .ok ()) : Sound (c.eraseLearning scope member ledger).1 := by
  obtain ⟨middle, htakes, hrecovery, hlength, hget⟩ := eraseLearning_spec scope member ledger hc.keys
  refine (hc.takes htakes).leave [] ?_ ?_ hget ?_ ?_ nodup_nil hlength
  · rw [hrecovery]
    exact hledger
  · rw [hrecovery]
  · rw [hrecovery, append_nil]
  · intro row hrow
    cases hrow

/-! ## The restart -/

theorem perm_exportPending (c : RewardCollector) : c.exportPending.Perm c.pending.rows :=
  mergeSort_perm _ _

theorem perm_reactions (c : RewardCollector) :
    c.exportRecovery.reactions.Perm c.recovery.reactions := mergeSort_perm _ _

theorem perm_settled (c : RewardCollector) :
    c.exportRecovery.settled.Perm c.recovery.settled := mergeSort_perm _ _

theorem Sound.tracked (hc : Sound c) :
    c.exportPending.filter (fun row => row.2.reactionTracking) = c.exportPending := by
  refine filter_eq_self.mpr (fun row hrow => ?_)
  exact (hc.turns _ _ (get_of_mem ((perm_exportPending c).mem_iff.mp hrow))).tracking

/-- The exported state passes the check. -/
theorem Sound.validate (hc : Sound c) : c.exportRecovery.validate c.exportPending = .ok () := by
  have hturn : ∀ row ∈ c.exportPending, c.get row.1 = some row.2 :=
    fun row hrow => get_of_mem ((perm_exportPending c).mem_iff.mp hrow)
  have hkeys : (c.exportPending.map Prod.fst).Nodup :=
    ((perm_exportPending c).map Prod.fst).nodup_iff.mpr c.pending.nodup
  have hlength := (perm_reactions c).length_eq
  have hsettledLength := (perm_settled c).length_eq
  have hpendingLength := (perm_exportPending c).length_eq
  simp only [RewardRecovery.validate, hc.tracked, bind_ok_iff, ensure_eq_ok, Bool.and_eq_true,
    decide_eq_true_eq, all_eq_true, Bool.or_eq_true]
  refine ⟨(), hc.erasure, (), ⟨?_, ?_⟩, (), ⟨fun row hrow => ?_, hkeys⟩, (), ⟨fun row hrow => ?_, ?_⟩,
    (), ?_, ?_⟩
  · have hbound := hc.length
    omega
  · have hbound := hc.capacity
    omega
  · have hok := hc.turns _ _ (hturn row hrow)
    exact ⟨⟨⟨⟨hok.id, hok.action⟩, hok.signature⟩, hc.bounded _ _ (hturn row hrow)⟩, hok.scope⟩
  · obtain ⟨hid, hscope, htime⟩ := hc.settled row ((perm_settled c).mem_iff.mp hrow)
    exact ⟨⟨hid, hscope⟩, htime⟩
  · rw [nodup_append]
    refine ⟨hkeys, ((perm_settled c).map _).nodup_iff.mpr hc.messages, ?_⟩
    rintro id hid _ hmessage rfl
    obtain ⟨row, hrow, rfl⟩ := mem_map.mp hid
    obtain ⟨settled, hsettled, heq⟩ := mem_map.mp hmessage
    have hnone := hc.closed settled ((perm_settled c).mem_iff.mp hsettled)
    rw [heq, hturn row hrow] at hnone
    cases hnone
  · rw [forM_eq_ok]
    rintro ⟨r, index⟩ hr
    have hget : c.exportRecovery.reactions[index]? = some r := mem_zipIdx_iff_getElem?.mp hr
    obtain ⟨hindex, hfound⟩ := List.getElem?_eq_some_iff.mp hget
    have hmem : r ∈ c.recovery.reactions := by
      refine (perm_reactions c).mem_iff.mp ?_
      rw [← hfound]
      exact getElem_mem hindex
    obtain ⟨hscope, hmatches, p, hp, hpscope⟩ := hc.reactions r hmem
    have hok := hc.turns _ _ hp
    simp only [bind_ok_iff, ensure_eq_ok, required_eq_ok, Bool.and_eq_true, decide_eq_true_eq]
    refine ⟨(), ⟨⟨hscope, hok.id⟩, ?_⟩, (r.key.message, p), ?_, ⟨hok.tracking, hpscope⟩, hmatches⟩
    · -- an earlier record with the same key would be the same record
      have hnodup : (c.exportRecovery.reactions.map ReactionRecord.key).Nodup :=
        ((perm_reactions c).map _).nodup_iff.mpr hc.keys
      have hdrop : r ∈ c.exportRecovery.reactions.drop index :=
        mem_drop_iff_getElem.mpr ⟨0, by omega, by simpa using hfound⟩
      rw [← take_append_drop index c.exportRecovery.reactions, map_append, nodup_append] at hnodup
      rw [Bool.not_eq_true', any_eq_false]
      intro earlier hearlier heq
      exact hnodup.2.2 _ (mem_map_of_mem hearlier) _ (mem_map_of_mem hdrop)
        (of_decide_eq_true heq)
    · exact find_of_nodup Prod.fst (a := (r.key.message, p)) hkeys
        ((perm_exportPending c).mem_iff.mpr (mem_rows_iff.mpr hp))
  · rw [forM_eq_ok]
    intro row hrow
    rw [ensure_eq_ok, decide_eq_true_eq, positives_perm (perm_reactions c)]
    exact (hc.positives _ _ (hturn row hrow)).symm

/-- Distinct rows, put one after the other. -/
theorem rows_collect (rows : List (String × Pending))
    (t : Table (fun row : String × Pending => row.1))
    (hnodup : ((t.rows ++ rows).map Prod.fst).Nodup) :
    (rows.foldl (fun t row => t.put row) t).rows = t.rows ++ rows := by
  induction rows generalizing t with
  | nil => simp
  | cons row rows ih =>
    have hput : (t.put row).rows = t.rows ++ [row] := by
      have hkept : t.rows.filter (fun s => decide (s.1 ≠ row.1)) = t.rows := by
        refine filter_eq_self.mpr (fun s hs => decide_eq_true fun heq => ?_)
        rw [map_append, map_cons, nodup_append] at hnodup
        exact hnodup.2.2 _ (mem_map_of_mem hs) _ (mem_cons_self ..) heq
      show t.rows.filter (fun s => decide (s.1 ≠ row.1)) ++ [row] = _
      rw [hkept]
    rw [foldl_cons, ih, hput, append_assoc]
    · rfl
    · rw [hput, append_assoc]
      exact hnodup

/-- The restart succeeds, and keeps everything up to the order. -/
theorem Sound.restart (hc : Sound c) : ∃ c', c.restart = .ok c' ∧ c'.recovery = c.exportRecovery ∧
    c'.pending.rows = c.exportPending ∧ ∀ k, c'.get k = c.get k := by
  have hkeys : (c.exportPending.map Prod.fst).Nodup :=
    ((perm_exportPending c).map Prod.fst).nodup_iff.mpr c.pending.nodup
  have hrows : (c.exportPending.foldl (fun t row => t.put row)
      (Table.empty : Table (fun row : String × Pending => row.1))).rows = c.exportPending :=
    rows_collect c.exportPending .empty hkeys
  refine ⟨⟨_, c.exportRecovery⟩, ?_, rfl, hrows, fun k => Option.ext fun p => ?_⟩
  · simp only [RewardCollector.restart, restoreRecovered, hc.validate, bind_ok_iff, ensure_eq_ok]
    exact ⟨(), trivial, (), by decide, trivial⟩
  · rw [← mem_rows_iff, ← mem_rows_iff, hrows]
    exact (perm_exportPending c).mem_iff

theorem Sound.of_restart (hc : Sound c) (h : c.restart = .ok c') : Sound c' := by
  obtain ⟨d, hd, hrecovery, hrows, hget⟩ := hc.restart
  rw [h] at hd
  cases hd
  have hreactions : c'.recovery.reactions.Perm c.recovery.reactions := by
    rw [hrecovery]
    exact perm_reactions c
  have hsettled : c'.recovery.settled.Perm c.recovery.settled := by
    rw [hrecovery]
    exact perm_settled c
  exact
    { erasure := by rw [hrecovery]; exact hc.erasure
      length := by rw [hreactions.length_eq]; exact hc.length
      capacity := by
        rw [hsettled.length_eq, hrows, (perm_exportPending c).length_eq]
        exact hc.capacity
      turns := fun k p hp => hc.turns k p (by rwa [hget] at hp)
      settled := fun row hrow => hc.settled row (hsettled.mem_iff.mp hrow)
      messages := (hsettled.map _).nodup_iff.mpr hc.messages
      closed := fun row hrow => by
        rw [hget]
        exact hc.closed row (hsettled.mem_iff.mp hrow)
      keys := (hreactions.map _).nodup_iff.mpr hc.keys
      reactions := fun r hr => by
        rw [hget]
        exact hc.reactions r (hreactions.mem_iff.mp hr)
      positives := fun k p hp => by
        rw [positives_perm hreactions]
        exact hc.positives k p (by rwa [hget] at hp)
      bounded := fun k p hp => hc.bounded k p (by rwa [hget] at hp) }

end Abbey.Reward
