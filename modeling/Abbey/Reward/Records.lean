import Abbey.Reward.Collector
import Mathlib.Tactic.Ring

/-!
# Turns and records

* The lookups of a turn after each kind of write.
* `Takes` is the removal of records with the reversal of what they
  contributed.  The removal of a reaction (`takes_one`) and the erasure of
  a member (`takes_forget`) are cases of it.
-/

namespace Abbey.Reward

open Abbey.Lib List RewardCollector Table

variable {key : ReactionKey} {row : ReactionRecord} {c : RewardCollector}

namespace RewardCollector

variable {c c' : RewardCollector} {id : String} {p : Pending}

/-! ## Lookups -/

theorem mem_rows_iff : (id, p) ∈ c.pending.rows ↔ c.get id = some p := by
  unfold get
  rw [mem_rows_iff_find, Option.map_eq_some_iff]
  constructor
  · intro h
    exact ⟨(id, p), h, rfl⟩
  · rintro ⟨⟨k, q⟩, hfind, rfl⟩
    have hk : k = id := pk_of_find hfind
    subst hk
    exact hfind

theorem get_of_mem {row : String × Pending} (h : row ∈ c.pending.rows) :
    c.get row.1 = some row.2 := mem_rows_iff.mp h

theorem get_eq_none_iff : c.get id = none ↔ id ∉ c.pending.rows.map Prod.fst := by
  unfold get
  rw [Option.map_eq_none_iff, find_eq_none_iff, mem_map]
  push Not
  rfl

variable (f : Pending → Pending)

@[simp] theorem recovery_update : (c.update id f).recovery = c.recovery := rfl

@[simp] theorem length_update : (c.update id f).pending.rows.length = c.pending.rows.length := by
  simp [update]

theorem get_update (k : String) :
    (c.update id f).get k = (c.get k).map (fun p => if k = id then f p else p) := by
  unfold get update
  rw [find_modify]
  cases hfind : c.pending.find k with
  | none => rfl
  | some row =>
    have hk : row.1 = k := pk_of_find hfind
    simp only [Option.map_some, hk, decide_eq_true_eq]
    split_ifs <;> rfl

theorem get_update_self : (c.update id f).get id = (c.get id).map f := by
  rw [get_update]
  simp

end RewardCollector

/-! ## Records that are taken away -/

/-- Taking the last element to a place is a removal, up to the order. -/
theorem swapRemove_perm {α : Type} {l : List α} (h : index < l.length) :
    (swapRemove l index).Perm (l.eraseIdx index) := by
  obtain ⟨init, last, rfl⟩ := eq_nil_or_concat l |>.resolve_left
    (ne_nil_of_length_pos (by omega))
  rw [concat_eq_append, length_append, length_singleton] at h
  have hswap : swapRemove (init.concat last) index = ((init ++ [last]).set index last).dropLast := by
    simp [swapRemove]
  rw [hswap, concat_eq_append]
  by_cases hlast : index < init.length
  · rw [set_append_left _ _ hlast, dropLast_concat, eraseIdx_append_of_lt_length hlast]
    exact (set_perm_cons_eraseIdx hlast last).trans (perm_append_singleton _ _).symm
  · have hindex : index = init.length := by omega
    subst hindex
    rw [set_append_right _ _ (Nat.le_refl _), eraseIdx_append_of_length_le (Nat.le_refl _)]
    simp

namespace RewardRecovery

variable {r s : List ReactionRecord} {k : String}

theorem positives_perm (h : r.Perm s) : positives r k = positives s k := h.countP_eq _

theorem negatives_perm (h : r.Perm s) : negatives r k = negatives s k := h.countP_eq _

theorem positives_append : positives (r ++ s) k = positives r k + positives s k :=
  countP_append

theorem negatives_append : negatives (r ++ s) k = negatives r k + negatives s k :=
  countP_append

theorem positives_cons (row : ReactionRecord) : positives (row :: r) k = positives r k +
    if row.key.message = k ∧ row.contribution = .positive then 1 else 0 := by
  simp [positives, countP_cons]

theorem negatives_cons (row : ReactionRecord) : negatives (row :: r) k = negatives r k +
    if row.key.message = k ∧ row.contribution = .negative then 1 else 0 := by
  simp [negatives, countP_cons]

end RewardRecovery

open RewardRecovery

/-- The contributions of the records are taken back from turn `k`. -/
def Pending.without (p : Pending) (taken : List ReactionRecord) (k : String) : Pending :=
  { p with
    reward := p.reward - positives taken k + negatives taken k
    positiveReactions := p.positiveReactions - positives taken k }

/-- What is left once the records have been taken away. -/
structure Takes (c c' : RewardCollector) (taken : List ReactionRecord) : Prop where
  reactions : c.recovery.reactions.Perm (taken ++ c'.recovery.reactions)
  get : ∀ k, c'.get k = (c.get k).map (fun p => p.without taken k)
  length : c'.pending.rows.length = c.pending.rows.length
  recovery : c'.recovery = { c.recovery with reactions := c'.recovery.reactions }

theorem Takes.refl (c : RewardCollector) : Takes c c [] where
  reactions := .refl _
  get k := by
    cases c.get k with
    | none => rfl
    | some p => simp [Pending.without, positives, negatives]
  length := rfl
  recovery := rfl

theorem Takes.trans {c₁ c₂ c₃ : RewardCollector} (h : Takes c₁ c₂ r) (h' : Takes c₂ c₃ s) :
    Takes c₁ c₃ (r ++ s) where
  reactions := by
    rw [append_assoc]
    exact h.reactions.trans (List.Perm.append_left r h'.reactions)
  get k := by
    rw [h'.get, h.get, Option.map_map]
    refine congrFun (congrArg Option.map (funext fun p => ?_)) _
    simp only [Function.comp_apply, Pending.without, positives_append, negatives_append,
      Nat.cast_add, Pending.mk.injEq, true_and, and_true, Nat.sub_sub]
    ring
  length := h'.length.trans h.length
  recovery := by
    rw [h'.recovery, h.recovery]

/-- One record goes, and its turn gets back what it was worth. -/
theorem takes_one
    (h : c.recovery.reactions.Perm (row :: c'.recovery.reactions)) (hpending : c'.pending =
      (c.update row.key.message (fun p => p.reverse row.contribution)).pending)
    (hrecovery : c'.recovery = { c.recovery with reactions := c'.recovery.reactions }) :
    Takes c c' [row] where
  reactions := h
  get k := by
    have hget : c'.get k = (c.update row.key.message (fun p => p.reverse row.contribution)).get k := by
      unfold RewardCollector.get
      rw [hpending]
    rw [hget, get_update]
    refine congrFun (congrArg Option.map (funext fun p => ?_)) _
    by_cases hk : k = row.key.message
    · subst hk
      cases hcontribution : row.contribution with
      | positive | negative | capped =>
        simp [Pending.without, Pending.reverse, positives, negatives, hcontribution]
    · have hne : ¬ row.key.message = k := fun heq => hk heq.symm
      simp [Pending.without, positives, negatives, hk, hne]
  length := by
    rw [hpending]
    exact length_update _
  recovery := hrecovery

/-- The element with the key of a member is that member. -/
theorem find_of_nodup {α κ : Type} [DecidableEq κ] (key : α → κ) {l : List α} {a : α}
    (hkeys : (l.map key).Nodup) (hmem : a ∈ l) :
    l.find? (fun x => decide (key x = key a)) = some a := by
  cases hsome : l.find? (fun x => decide (key x = key a)) with
  | none =>
    have hno := find?_eq_none.mp hsome a hmem
    simp at hno
  | some found =>
    have hkey : decide (key found = key a) := by
      simpa using find?_some hsome
    rw [inj_on_of_nodup_map hkeys (mem_of_find?_eq_some hsome) hmem (of_decide_eq_true hkey)]

/-- The first record of a key, and the others. -/
theorem perm_eraseP {reactions : List ReactionRecord}
    (hkeys : (reactions.map ReactionRecord.key).Nodup) (hmem : row ∈ reactions) :
    reactions.find? (fun r => decide (r.key = row.key)) = some row ∧
      reactions.Perm (row :: reactions.eraseP (fun r => decide (r.key = row.key))) := by
  refine ⟨find_of_nodup ReactionRecord.key hkeys hmem, ?_⟩
  obtain ⟨found, front, back, _, hkey, hlist, herase⟩ :=
    exists_of_eraseP hmem (p := fun r => decide (r.key = row.key)) (by simp)
  have hfound : found = row :=
    inj_on_of_nodup_map hkeys (by simp [hlist]) hmem (of_decide_eq_true hkey)
  rw [herase, ← hfound]
  conv_lhs => rw [hlist]
  exact perm_middle

/-- Forgetting the keys of some of the records takes these records away. -/
theorem takes_forget (own : List ReactionRecord) (hperm : c.recovery.reactions.Perm (own ++ rest))
    (hkeys : (c.recovery.reactions.map ReactionRecord.key).Nodup) [Seams] :
    Takes c ((own.map ReactionRecord.key).foldl forgetReaction c) own := by
  induction own generalizing c with
  | nil => exact Takes.refl c
  | cons row own ih =>
    obtain ⟨hfind, hone⟩ := perm_eraseP hkeys (hperm.mem_iff.mpr (mem_cons_self ..))
    have htakes : Takes c (c.forgetReaction row.key) [row] := by
      rw [forgetReaction, hfind]
      exact takes_one hone rfl rfl
    have hafter : (c.forgetReaction row.key).recovery.reactions.Perm (own ++ rest) :=
      ((htakes.reactions.symm.trans hperm)).cons_inv
    have hnodup : ((c.forgetReaction row.key).recovery.reactions.map ReactionRecord.key).Nodup := by
      have hall := (htakes.reactions.map ReactionRecord.key).nodup_iff.mp hkeys
      exact (nodup_cons.mp hall).2
    exact htakes.trans (ih hafter hnodup)

/-- A new record contributes. -/
structure Adds (p q : Pending) (contribution : ReactionContribution) : Prop where
  turn : q = { p with reward := q.reward, positiveReactions := q.positiveReactions }
  reward : q.reward = p.reward + (if contribution = .positive then 1 else 0) -
    (if contribution = .negative then 1 else 0)
  positives : q.positiveReactions = p.positiveReactions +
    (if contribution = .positive then 1 else 0)
  bounded : p.positiveReactions ≤ maxPositiveReactions → q.positiveReactions ≤ maxPositiveReactions

/-! ## What the observations do -/

namespace RewardCollector

variable {c : RewardCollector} {scope id : String} {replyTo : Option String} {now : Nat}
  {source : FeedbackAttribution}

/-- An observation is attributed to a turn that is open. -/
theorem attribution_spec (h : c.attribution scope replyTo now = .ok (source, id)) :
    scope ≠ "" ∧ (∃ p, c.get id = some p ∧ isOpen p now ∧ p.scope = scope) ∧
      (source = .exactReply ∧ replyTo = some id ∨ source = .uniqueScoped ∧ replyTo = none) := by
  unfold attribution at h
  split_ifs at h with hscope
  refine ⟨hscope, ?_⟩
  cases replyTo with
  | some reply =>
    cases hget : c.get reply with
    | none => simp [hget] at h
    | some p =>
      simp only [hget] at h
      split_ifs at h with hother hopen
      cases h
      exact ⟨⟨p, hget, hopen, not_not.mp hother⟩, .inl ⟨rfl, rfl⟩⟩
  | none =>
    simp only at h
    split at h
    · cases h
    · rename_i row hrows
      cases h
      have hrow : row ∈ c.pending.rows.filter (fun row =>
          row.2.scope = scope && row.2.action ≠ reactIndex && isOpen row.2 now) := by
        rw [hrows]
        exact mem_singleton_self row
      obtain ⟨hmem, hkept⟩ := mem_filter.mp hrow
      simp only [Bool.and_eq_true, decide_eq_true_eq] at hkept
      exact ⟨⟨row.2, get_of_mem hmem, hkept.2, hkept.1.1⟩, .inr ⟨rfl, rfl⟩⟩
    · cases h

theorem attribution_error
    (h : c.attribution scope replyTo now = .error reason) : reason ≠ .exactReply := by
  unfold attribution at h
  split_ifs at h
  · cases h
    simp
  · split at h
    · split at h
      · cases h
        simp
      · split_ifs at h
        · cases h
          simp
        · cases h
          simp
    · split at h
      · cases h
        simp
      · cases h
      · cases h
        simp

/-- A reference to a turn that is open. -/
theorem attribution_of_open (hscope : scope ≠ "") (hget : c.get id = some p)
    (hopen : isOpen p now) (hsame : p.scope = scope) :
    c.attribution scope (some id) now = .ok (.exactReply, id) := by
  simp [attribution, hscope, hget, hopen, hsame]

/-- What a feedback does: nothing, the credit of an exact reply with its
outcome, or the credit of an outcome alone. -/
theorem feedback_spec [Seams] (c : RewardCollector) (scope observer : String)
    (replyTo : Option String) (text : String) (now : Nat) :
    let result := c.feedback scope observer replyTo text now
    result.1 = c ∧ result.2 ≠ .exactReply ∨
      ∃ id p outcome, c.get id = some p ∧ isOpen p now ∧
        (result.2 = .exactReply ∧ replyTo = some id ∧
            result.1 = (c.update id (fun p => { p with reward := p.reward + 1 / 2 })).update id
              (credit outcome) ∨
          result.2 = .uniqueScoped ∧ result.1 = c.update id (credit outcome)) := by
  unfold feedback
  split_ifs with hobserver
  · exact .inl ⟨rfl, by simp⟩
  cases hattribution : c.attribution scope replyTo now with
  | error reason =>
    exact .inl ⟨rfl, attribution_error hattribution⟩
  | ok found =>
    obtain ⟨source, id⟩ := found
    obtain ⟨hscope, ⟨p, hget, hopen, hsame⟩, hsource⟩ := attribution_spec hattribution
    simp only
    split_ifs with hblocked hexact
    · exact .inl ⟨rfl, by simp⟩
    · subst hexact
      obtain ⟨_, rfl⟩ := hsource.resolve_right (by simp)
      have hreply : c.humanReplied scope id now =
          c.update id (fun p => { p with reward := p.reward + 1 / 2 }) := by
        unfold humanReplied
        rw [attribution_of_open hscope hget hopen hsame]
      have hstill : (c.humanReplied scope id now).attribution scope (some id) now =
          .ok (.exactReply, id) := by
        rw [hreply]
        refine attribution_of_open (p := { p with reward := p.reward + 1 / 2 }) hscope ?_ hopen hsame
        rw [get_update_self, hget]
        rfl
      right
      refine ⟨id, p, (classifySignature text (c.openAsk id)).getD .noEngagement, hget, hopen,
        .inl ⟨rfl, rfl, ?_⟩⟩
      rw [observeReplyTo, hstill, hreply]
    · have hunique := hsource.resolve_left (fun h => hexact h.1)
      obtain ⟨rfl, rfl⟩ := hunique
      unfold observeInScope
      rw [hattribution]
      simp only [hget]
      split_ifs
      · exact .inl ⟨rfl, by simp⟩
      · exact .inr ⟨id, p, _, hget, hopen, .inr ⟨rfl, rfl⟩⟩

theorem addReaction_spec
    (hemoji : positiveEmoji.contains key.emoji ∨ negativeEmoji.contains key.emoji)
    (hroom : c.recovery.reactions.length < maxRecoveryEntries) :
    ∃ f contribution, (c.addReaction key p).1.recovery = { c.recovery with
        reactions := c.recovery.reactions ++ [⟨key, contribution⟩] } ∧
      (c.addReaction key p).1.pending = (c.update key.message f).pending ∧
      Adds p (f p) contribution ∧ RewardRecovery.Matches key contribution := by
  unfold addReaction
  rw [if_neg (by omega)]
  by_cases hpositive : positiveEmoji.contains key.emoji
  · by_cases hcap : p.positiveReactions < maxPositiveReactions
    · simp only [hpositive, hcap, decide_true, Bool.and_self, if_true]
      exact ⟨_, .positive, rfl, rfl, ⟨rfl, by simp, by simp, fun _ => hcap⟩, hpositive⟩
    · simp only [hpositive, hcap, decide_false, Bool.and_false, Bool.false_eq_true, if_false, if_true]
      exact ⟨_, .capped, rfl, rfl, ⟨rfl, by simp, by simp, fun h => h⟩, hpositive⟩
  · rw [Bool.not_eq_true] at hpositive
    simp only [hpositive, Bool.false_and, Bool.false_eq_true, if_false]
    exact ⟨_, .negative, rfl, rfl, ⟨rfl, by simp, by simp, fun h => h⟩,
      hemoji.resolve_left (by rw [hpositive]; simp)⟩

theorem removeReaction_spec {index : Nat} (hrow : c.recovery.reactions[index]? = some row)
    (hkey : row.key = key) :
    Takes c (c.removeReaction key index row.contribution).1 [⟨key, row.contribution⟩] := by
  subst hkey
  obtain ⟨hlength, hget⟩ := List.getElem?_eq_some_iff.mp hrow
  refine takes_one ?_ rfl rfl
  have hperm := (getElem_cons_eraseIdx_perm hlength).symm
  rw [hget] at hperm
  exact hperm.trans ((swapRemove_perm hlength).symm.cons _)

/-- What a reaction does: nothing, a new record with its contribution, or
the removal of the record of its key. -/
theorem reaction_spec [Seams] (c : RewardCollector) (key : ReactionKey) (added : Bool) (now : Nat) :
    let after := (c.reaction key added now).1
    after = c ∨ ∃ p, c.get key.message = some p ∧ isOpen p now ∧ p.scope = key.scope ∧
      key.scope ≠ "" ∧ ((∃ f contribution, after.recovery = { c.recovery with
            reactions := c.recovery.reactions ++ [⟨key, contribution⟩] } ∧
            after.pending = (c.update key.message f).pending ∧ Adds p (f p) contribution ∧
            RewardRecovery.Matches key contribution ∧
            c.recovery.reactions.length < maxRecoveryEntries ∧
            ∀ r ∈ c.recovery.reactions, r.key ≠ key) ∨
          ∃ contribution, Takes c after [⟨key, contribution⟩]) := by
  unfold reaction
  split_ifs with hemoji
  · exact .inl rfl
  have hknown : positiveEmoji.contains key.emoji ∨ negativeEmoji.contains key.emoji := by
    simpa [or_iff_not_imp_left] using hemoji
  cases hattribution : c.attribution key.scope (some key.message) now with
  | error reason => exact .inl rfl
  | ok found =>
    obtain ⟨source, id⟩ := found
    obtain ⟨hscope, ⟨p, hget, hopen, hsame⟩, hsource⟩ := attribution_spec hattribution
    have hid : key.message = id := by
      rcases hsource with ⟨_, hreply⟩ | ⟨_, hreply⟩
      · exact Option.some.inj hreply
      · cases hreply
    subst hid
    simp only [hget]
    split_ifs with hblocked htracking
    · exact .inl rfl
    · exact .inl rfl
    cases hindex : c.recovery.reactions.findIdx? (fun r => decide (r.key = key)) with
    | none =>
      cases added with
      | false => exact .inl rfl
      | true =>
        by_cases hroom : c.recovery.reactions.length < maxRecoveryEntries
        · obtain ⟨f, contribution, hrecovery, hpending, hadds, hmatches⟩ :=
            addReaction_spec (p := p) hknown hroom
          refine .inr ⟨p, rfl, hopen, hsame, hscope, .inl ⟨f, contribution, hrecovery, hpending,
            hadds, hmatches, hroom, fun r hr => ?_⟩⟩
          simpa using findIdx?_eq_none_iff.mp hindex r hr
        · left
          simp only [addReaction]
          rw [if_pos (Nat.le_of_not_lt hroom)]
    | some index =>
      cases added with
      | true => exact .inl rfl
      | false =>
        cases hrow : c.recovery.reactions[index]? with
        | none =>
          left
          simp only [hrow]
        | some row =>
          have hkey : row.key = key := by
            obtain ⟨hlength, hfound, _⟩ := findIdx?_eq_some_iff_getElem.mp hindex
            obtain ⟨_, hrow⟩ := List.getElem?_eq_some_iff.mp hrow
            rw [hrow] at hfound
            exact of_decide_eq_true hfound
          simp only [hrow]
          exact .inr ⟨p, rfl, hopen, hsame, hscope, .inr ⟨_, removeReaction_spec hrow hkey⟩⟩

/-! ## What a registration and the sweep do -/

theorem get_put (t : Table (fun row : String × Pending => row.1)) (id : String) (p : Pending)
    (recovery : RewardRecovery) (k : String) :
    get ⟨t.put (id, p), recovery⟩ k = if k = id then some p else get ⟨t, recovery⟩ k := by
  unfold get
  rw [find_put]
  simp only [eq_comm (a := id)]
  split_ifs <;> rfl

theorem length_put {t : Table (fun row : String × Pending => row.1)} (p : Pending)
    (h : id ∉ t.rows.map Prod.fst) : (t.put (id, p)).rows.length = t.rows.length + 1 := by
  have hkept : t.rows.filter (fun row => decide (row.1 ≠ id)) = t.rows := by
    refine filter_eq_self.mpr (fun row hrow => decide_eq_true fun heq => ?_)
    exact h (heq ▸ mem_map_of_mem hrow)
  show (t.rows.filter (fun row => decide (row.1 ≠ id)) ++ [(id, p)]).length = _
  rw [hkept, length_append, length_singleton]

/-- What a registration needs, and what it does. -/
structure Opens [Seams] (pruned c' : RewardCollector) (turn : ReplyTurn) : Prop where
  fresh : pruned.get turn.sentNativeMessageId = none
  unmarked : ∀ row ∈ pruned.recovery.settled, row.message ≠ turn.sentNativeMessageId
  later : ∀ t, pruned.recovery.retiredThrough = some t → t < turn.now
  room : pruned.pending.rows.length + pruned.recovery.settled.length < maxRecoveryEntries
  recovery : c'.recovery = pruned.recovery
  length : c'.pending.rows.length = pruned.pending.rows.length + 1
  get : ∀ k, c'.get k =
    if k = turn.sentNativeMessageId then some turn.opened else pruned.get k

theorem registerTurn_spec [Seams] (c : RewardCollector) (turn : ReplyTurn) :
    c.registerTurn turn = c ∨ c.registerTurn turn = c.pruneRecovery turn.now ∨
      Opens (c.pruneRecovery turn.now) (c.registerTurn turn) turn := by
  unfold registerTurn
  split_ifs with hblocked
  · exact .inl rfl
  right
  dsimp only
  split_ifs with hrefused
  · exact .inl rfl
  right
  simp only [Bool.or_eq_true, not_or, Bool.not_eq_true] at hrefused
  obtain ⟨⟨⟨⟨_, hnone⟩, hmarked⟩, hretired⟩, hroom⟩ := hrefused
  have hfresh : (c.pruneRecovery turn.now).get turn.sentNativeMessageId = none := by
    simpa using hnone
  refine ⟨hfresh, ?_, ?_, by simpa using hroom, rfl, length_put _ (get_eq_none_iff.mp hfresh),
    fun k => get_put _ _ _ _ k⟩
  · simpa using hmarked
  · intro t ht
    rw [ht] at hretired
    simpa using hretired

theorem get_delete (t : Table (fun row : String × Pending => row.1)) (gone : List String)
    (recovery : RewardRecovery) (k : String) :
    get ⟨t.delete (fun row => gone.contains row.1), recovery⟩ k =
      if k ∈ gone then none else get ⟨t, recovery⟩ k := by
  unfold get
  rw [find_delete]
  cases hfind : t.find k with
  | none => simp
  | some row =>
    have hk : row.1 = k := pk_of_find hfind
    subst hk
    by_cases hgone : row.1 ∈ gone
    · simp [Option.filter, hgone]
    · simp [Option.filter, hgone]

/-- The marker of a turn that closes. -/
def marker (now : Nat) (row : String × Pending) : SettledTurn :=
  ⟨row.2.scope, row.1, row.2.createdAt, max now row.2.createdAt⟩

/-- Turns leave, their reactions with them, and their markers come. -/
structure Closes (c c' : RewardCollector) (now : Nat) (closed : List (String × Pending)) : Prop where
  erasure : c'.recovery.erasure = c.recovery.erasure
  reactions : c'.recovery.reactions =
    c.recovery.reactions.filter (fun r => r.key.message ∉ closed.map Prod.fst)
  settled : c'.recovery.settled = c.recovery.settled ++ closed.map (marker now)
  retired : c'.recovery.retiredThrough = c.recovery.retiredThrough
  get : ∀ k, c'.get k = if k ∈ closed.map Prod.fst then none else c.get k
  length : c'.pending.rows.length + closed.length = c.pending.rows.length

theorem closeTurn_spec (hget : c.get id = some p) (htracking : p.reactionTracking)
    (now : Nat) : Closes c (c.closeTurn now id) now [(id, p)] := by
  have hclose : c.closeTurn now id =
      ⟨c.pending.delete (fun row => [id].contains row.1), { c.recovery with
        reactions := c.recovery.reactions.filter (fun row => row.key.message ≠ id)
        settled := c.recovery.settled ++ [⟨p.scope, id, p.createdAt, max now p.createdAt⟩] }⟩ := by
    unfold closeTurn
    rw [hget]
    simp [htracking]
  rw [hclose]
  refine ⟨rfl, by simp, rfl, rfl, fun k => ?_, ?_⟩
  · rw [get_delete]
    simp
    rfl
  · obtain ⟨row, hfind, _⟩ := Option.map_eq_some_iff.mp hget
    have hone := congrArg length (filter_pk_eq hfind)
    have hsplit := length_eq_length_filter_add (l := c.pending.rows)
      (fun row => decide (row.1 = id))
    have hkept : (c.pending.delete (fun row => [id].contains row.1)).rows =
        c.pending.rows.filter (fun row => !decide (row.1 = id)) := by
      simp [delete]
    rw [hkept]
    simp only [length_singleton] at hone ⊢
    omega

theorem Closes.refl (c : RewardCollector) (now : Nat) : Closes c c now [] where
  erasure := rfl
  reactions := by simp
  settled := by simp
  retired := rfl
  get k := by simp
  length := rfl

theorem Closes.trans {c₁ c₂ c₃ : RewardCollector}
    (h : Closes c₁ c₂ now r) (h' : Closes c₂ c₃ now s) : Closes c₁ c₃ now (r ++ s) where
  erasure := h'.erasure.trans h.erasure
  reactions := by
    rw [h'.reactions, h.reactions, filter_filter]
    refine filter_congr (fun row _ => ?_)
    simp only [map_append, mem_append, not_or, Bool.decide_and]
    exact Bool.and_comm _ _
  settled := by rw [h'.settled, h.settled, map_append, append_assoc]
  retired := h'.retired.trans h.retired
  get k := by
    rw [h'.get, h.get]
    simp only [map_append, mem_append]
    by_cases hs : k ∈ s.map Prod.fst
    · rw [if_pos hs, if_pos (.inr hs)]
    · simp only [hs, or_false, if_false]
  length := by
    have hfirst := h.length
    have hsecond := h'.length
    rw [length_append]
    omega

/-- The sweep closes the turns it is given. -/
theorem closes_foldl (now : Nat) (closed : List (String × Pending))
    (hget : ∀ row ∈ closed, c.get row.1 = some row.2 ∧ row.2.reactionTracking)
    (hnodup : (closed.map Prod.fst).Nodup) :
    Closes c ((closed.map Prod.fst).foldl (closeTurn now) c) now closed := by
  induction closed generalizing c with
  | nil => exact Closes.refl c now
  | cons row closed ih =>
    obtain ⟨id, p⟩ := row
    obtain ⟨hfound, htracking⟩ := hget (id, p) (mem_cons_self ..)
    have hone := closeTurn_spec hfound htracking now
    obtain ⟨hnew, hrest⟩ := nodup_cons.mp hnodup
    refine hone.trans (ih (fun row hrow => ?_) hrest)
    obtain ⟨hrow1, hrow2⟩ := hget row (mem_cons_of_mem _ hrow)
    have hne : row.1 ∉ [(id, p)].map Prod.fst := by
      simp only [map_cons, map_nil, mem_singleton]
      rintro heq
      exact hnew (mem_map.mpr ⟨row, hrow, heq⟩)
    rw [hone.get, if_neg hne]
    exact ⟨hrow1, hrow2⟩

/-- The turns that the sweep closes. -/
def expired (c : RewardCollector) (now : Nat) : List (String × Pending) :=
  c.pending.rows.filter (fun row => isExpired now row.2)

theorem settleExpired_spec (now : Nat)
    (htracking : ∀ id p, c.get id = some p → p.reactionTracking) :
    Closes (c.pruneRecovery now) (c.settleExpired now).1 now (c.expired now) ∧
      (c.settleExpired now).2 = (c.expired now).map (fun row => experience row.2) := by
  refine ⟨closes_foldl now (c.expired now) (fun row hrow => ?_) ?_, rfl⟩
  · have hget := get_of_mem (mem_filter.mp hrow).1
    exact ⟨hget, htracking _ _ hget⟩
  · exact c.pending.nodup.sublist (filter_sublist.map _)

/-! ## What an erasure does -/

section Erasure

variable [Seams]

/-- The records that an erasure takes back. -/
def ownRecords (c : RewardCollector) (scope : String) (member : Option String) : List ReactionRecord :=
  c.recovery.reactions.filter (fun r =>
    (c.get r.key.message).any (fun p => p.scopedGuildId = scope) &&
      member.all (fun m => memberHash m = r.key.reactorHash))

/-- The turns that an erasure removes. -/
def removedTurns (c : RewardCollector) (scope : String) (member : Option String) : List String :=
  (c.pending.rows.filter (fun row =>
    row.2.scopedGuildId = scope && member.all (fun m => m = row.2.asker))).map Prod.fst

theorem eraseLearning_spec (scope : String) (member : Option String) (ledger : ErasureLedger)
    (hkeys : (c.recovery.reactions.map ReactionRecord.key).Nodup) :
    ∃ middle, Takes c middle (c.ownRecords scope member) ∧
      (c.eraseLearning scope member ledger).1.recovery = { middle.recovery with
        reactions := middle.recovery.reactions.filter
          (fun r => r.key.message ∉ c.removedTurns scope member)
        erasure := ledger } ∧
      (c.eraseLearning scope member ledger).1.pending.rows.length ≤ middle.pending.rows.length ∧
      ∀ k, (c.eraseLearning scope member ledger).1.get k =
        if k ∈ c.removedTurns scope member then none else middle.get k := by
  have hperm : c.recovery.reactions.Perm (c.ownRecords scope member ++
      c.recovery.reactions.filter (fun r => !((c.get r.key.message).any
        (fun p => p.scopedGuildId = scope) &&
          member.all (fun m => memberHash m = r.key.reactorHash)))) :=
    (filter_append_perm _ _).symm
  refine ⟨_, takes_forget (c.ownRecords scope member) hperm hkeys, ?_, ?_, fun k => ?_⟩
  · show RewardRecovery.mk _ _ _ _ = _
    congr 1
    refine filter_congr (fun r _ => ?_)
    show (!(c.removedTurns scope member).contains r.key.message) =
      decide (r.key.message ∉ c.removedTurns scope member)
    by_cases hgone : r.key.message ∈ c.removedTurns scope member
    · simp [hgone]
    · simp [hgone]
  · exact length_filter_le _ _
  · exact get_delete _ _ _ k

end Erasure

end RewardCollector

end Abbey.Reward
