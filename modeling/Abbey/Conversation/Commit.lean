import Abbey.Conversation.Refinement

/-!
# What the two mutations commit

A save or a clear that passes its check for a replay appends one mutation
to the history: `commitSave_applied` and `commitClear_applied`.
-/

namespace Abbey.Conversation

open Abbey.Lib ConversationIdentityScope Mutation Table Option List Except
open Abbey.Run (ConversationId Instant StoreError maxRfc3339Ms)

variable {sha : Sha256}
variable {conversationId : ConversationId} {marker : IdentityOperation × String × String}
  {scopes : Option (List ConversationIdentityScope)} {aliasSha : String}
variable {commit : IdentityCommit} {db : IdentityDb} {now : Instant} {edition : String}

theorem nextRevision_eq_ok (h : nextRevision db = .ok revision) :
    revision = (db.commit.map IdentityCommit.revision).getD 0 + 1 := by
  unfold nextRevision at h
  simp only [bind_ok_iff, ensure_eq_ok, ok.injEq] at h
  obtain ⟨_, _, hrevision⟩ := h
  exact hrevision.symm

/-- The insert of a conversation keeps the others. -/
theorem conversations_insert (t : Table ConversationRow.id) (id : ConversationId) :
    (∀ k, (t.find k).isSome → (((t.insert? ⟨id⟩).getD t).find k).isSome) ∧
      (((t.insert? ⟨id⟩).getD t).find id).isSome ∧
      ∀ row ∈ ((t.insert? ⟨id⟩).getD t).rows, row ∈ t.rows ∨ row.id = id := by
  cases hinsert : t.insert? ⟨id⟩ with
  | none =>
    refine ⟨fun _ h => h, ?_, fun _ h => .inl h⟩
    show (t.find id).isSome
    exact isSome_iff_exists.mpr (insert?_eq_none_iff.mp hinsert)
  | some u =>
    refine ⟨?_, ?_, ?_⟩
    · intro k hk
      show (u.find k).isSome
      rw [find_insert hinsert]
      split_ifs
      · rfl
      · exact hk
    · show (u.find id).isSome
      rw [find_insert hinsert]
      simp
    · intro row hrow
      have hrows : row ∈ t.rows ++ [⟨id⟩] := rows_insert hinsert ▸ hrow
      rcases mem_append.mp hrows with hold | hnew
      · exact .inl hold
      · exact .inr (by rw [mem_singleton.mp hnew])

theorem validateAliasProvenance_eq_ok
    (h : validateAliasProvenance db aliasSha conversationId = .ok ()) :
    (∀ row, db.aliases.find aliasSha = some row → row.conversationId = conversationId) ∧
      ∀ row, db.aliases.rows.find? (fun row => row.conversationId = conversationId) = some row →
        row.aliasSha256 = aliasSha := by
  unfold validateAliasProvenance at h
  simp only [bind_ok_iff, ensure_eq_ok] at h
  obtain ⟨_, halias, _, hconversation, _⟩ := h
  refine ⟨?_, ?_⟩
  · intro row hrow
    rw [hrow] at halias
    simpa using halias
  · intro row hrow
    rw [hrow] at hconversation
    simpa using hconversation

/-- The insert of an alias keeps the others, and the alias then names its
conversation. -/
theorem insertAlias_spec (origin : AliasOrigin)
    (h : validateAliasProvenance db aliasSha conversationId = .ok ()) :
    (∀ k row, db.aliases.find k = some row →
      (insertAlias db ⟨aliasSha, conversationId, origin⟩).find k = some row) ∧
      ((insertAlias db ⟨aliasSha, conversationId, origin⟩).find aliasSha).map
        AliasRow.conversationId = some conversationId ∧
      ∀ row ∈ (insertAlias db ⟨aliasSha, conversationId, origin⟩).rows, row ∈ db.aliases.rows ∨
        (row.aliasSha256 = aliasSha ∧ row.conversationId = conversationId) ∧
          ∀ other ∈ db.aliases.rows, other.conversationId ≠ conversationId := by
  obtain ⟨hbyAlias, hbyConversation⟩ := validateAliasProvenance_eq_ok h
  unfold insertAlias
  split_ifs with hany
  · -- the conversation has its alias
    refine ⟨fun _ _ hk => hk, ?_, fun _ hrow => .inl hrow⟩
    cases hfind : db.aliases.rows.find? (fun row => row.conversationId = conversationId) with
    | none =>
      have hnone := find?_eq_none.mp hfind
      obtain ⟨row, hrow, hsame⟩ := any_eq_true.mp hany
      exact absurd hsame (hnone row hrow)
    | some row =>
      have hkey := hbyConversation row hfind
      have hsame : row.conversationId = conversationId := by simpa using find?_some hfind
      have hrow : db.aliases.find aliasSha = some row :=
        find_eq_some_iff.mpr ⟨mem_of_find?_eq_some hfind, hkey⟩
      rw [hrow, map_some, hsame]
  · have hfresh : ∀ other ∈ db.aliases.rows, other.conversationId ≠ conversationId := by
      simpa using hany
    cases hinsert : db.aliases.insert? ⟨aliasSha, conversationId, origin⟩ with
    | none =>
      obtain ⟨row, hrow⟩ := insert?_eq_none_iff.mp hinsert
      exact absurd (hbyAlias row hrow) (hfresh row (mem_rows_of_find hrow))
    | some u =>
      refine ⟨fun k row hk => find_insert_of_some hinsert hk, ?_, ?_⟩
      · have hself : u.find aliasSha = some ⟨aliasSha, conversationId, origin⟩ :=
          find_insert_self hinsert
        show (u.find aliasSha).map AliasRow.conversationId = some conversationId
        rw [hself, map_some]
      · intro row hrow
        have hrows : row ∈ db.aliases.rows ++ [⟨aliasSha, conversationId, origin⟩] :=
          rows_insert hinsert ▸ hrow
        rcases mem_append.mp hrows with hold | hnew
        · exact .inl hold
        · rw [mem_singleton.mp hnew]
          exact .inr ⟨⟨rfl, rfl⟩, hfresh⟩

/-! ## Save -/

theorem covers_save {editionSha256 scopeSha256 token : String}
    {scopes : List ConversationIdentityScope} {id : String} :
    covers editionSha256 scopeSha256 ⟨edition, .save scopes id, token, commit⟩ ↔
      editionSha256 = commit.editionSha256 ∧ scopeSha256 ∈ scopes.map sha256 := by
  simp only [covers, Change.covers, Change.scopes, Bool.and_eq_true, decide_eq_true_eq,
    List.any_eq_true, List.mem_map]
  constructor
  · rintro ⟨hedition, hscope⟩
    exact ⟨hedition.symm, hscope⟩
  · rintro ⟨hedition, hscope⟩
    exact ⟨hedition.symm, hscope⟩

variable {editionSha token mutationSha : String} {db' : IdentityDb}

theorem commitSave_applied {scopes : List ConversationIdentityScope} {scopeSetSha id : String}
    (hedition : editionSha256 sha edition = .ok editionSha)
    (htoken : mutationSha256 sha token = .ok mutationSha)
    (hset : scopeSetSha256 sha scopes = .ok scopeSetSha) (hid : validateExternalId id = .ok id)
    (h : commitSave sha db editionSha scopes ⟨aliasSha256 sha id,
      conversationOf sha id⟩ mutationSha scopeSetSha now = .ok (db', commit)) :
    db.mutations.find mutationSha = none ∧ Sealed sha ⟨edition, .save scopes id, token, commit⟩ ∧
      Applied sha db db' ⟨edition, .save scopes id, token, commit⟩ := by
  unfold commitSave rejectReplayedMutation sqlRevision at h
  simp only [bind_ok_iff, ensure_eq_ok, decide_eq_true_eq, isNone_iff_eq_none,
    ok.injEq, Prod.mk.injEq, required_eq_ok] at h
  obtain ⟨_, hfree, _, hprovenance, _, _, revision, hrevision, _, hroom, found, hfound, committed,
    rfl, stored, hreceipt, rfl, rfl⟩ := h
  have hnext := nextRevision_eq_ok hrevision
  obtain ⟨hkeptConversations, hnewConversation, hconversations⟩ :=
    conversations_insert db.conversations (conversationOf sha id)
  obtain ⟨hkeptAliases, hnewAlias, haliases⟩ := insertAlias_spec .runtimeV3 hprovenance
  obtain ⟨tombstones, table, hfold, htable, htombstones⟩ := foldl_selectScope editionSha
    ⟨aliasSha256 sha id, conversationOf sha id⟩ revision now scopes
    { db with
      conversations := (db.conversations.insert? ⟨conversationOf sha id⟩).getD db.conversations
      aliases := insertAlias db ⟨aliasSha256 sha id, conversationOf sha id, .runtimeV3⟩ }
  rw [hfold] at hfound hreceipt
  obtain ⟨rfl, hpositive, htime⟩ := commitOn_eq_ok hfound
  obtain ⟨_, mutations, mutationScopes, rfl, hmutations, hmutationScopes⟩ :=
    insertMutationReceipt_eq_ok hreceipt
  have hhead : some ((scopes.head?.map sha256).getD "") = scopes.head?.map sha256 := by
    cases scopes with
    | nil => exact absurd rfl (scopeSetSha256_eq_ok hset).2.1
    | cons scope scopes => rfl
  refine ⟨hfree, ⟨hedition, htoken, ⟨rfl, hhead, hset, hid, rfl, rfl⟩, hpositive, hroom, htime⟩, ?_⟩
  refine ⟨hnext, rfl, hmutations, hmutationScopes, rfl, ?_, ?_, ?_, hkeptAliases,
    hkeptConversations, ?_, ?_, ?_⟩
  · intro e s
    show table.find (e, s) = _
    rw [htable]
    by_cases hcovers : e = editionSha ∧ s ∈ scopes.map sha256
    · rw [if_pos hcovers, if_pos (covers_save.mpr hcovers), hcovers.1]
      rfl
    · rw [if_neg hcovers, if_neg (fun h => hcovers (covers_save.mp h))]
  · intro e s
    show tombstones.find (e, s) = _
    rw [htombstones]
    by_cases hcovers : e = editionSha ∧ s ∈ scopes.map sha256
    · rw [if_pos hcovers, if_pos (covers_save.mpr hcovers)]
      rfl
    · rw [if_neg hcovers, if_neg (fun h => hcovers (covers_save.mp h))]
  · intro e
    simp [clearsAll]
  · rintro _ _ ⟨scopes', id', hchange, rfl, rfl⟩
    cases hchange
    exact ⟨hnewAlias, hnewConversation⟩
  · intro row hrow
    rcases haliases row hrow with hold | ⟨⟨halias, hconversation⟩, hfresh⟩
    · exact .inl hold
    · refine .inr ⟨⟨scopes, id, rfl, halias, hconversation⟩, ?_⟩
      rw [hconversation]
      exact hfresh
  · intro row hrow
    rcases hconversations row hrow with hold | hnew
    · exact .inl hold
    · exact .inr ⟨aliasSha256 sha id, scopes, id, rfl, rfl, hnew⟩

/-! ## Clear -/

theorem clearMarker_eq_ok (h : clearMarker sha scopes = .ok marker) :
    (∃ scope scopeSetSha, scopes = some [scope] ∧
      marker = (.clearScope, scope.sha256, scopeSetSha) ∧
      scopeSetSha256 sha [scope] = .ok scopeSetSha) ∨
    scopes = none ∧ marker = (.clearAll, clearAllSha256 sha, clearAllSha256 sha) := by
  cases scopes with
  | none =>
    cases h
    exact .inr ⟨rfl, rfl⟩
  | some scopes =>
    unfold clearMarker identityInput at h
    simp only [bind_ok_iff, ensure_eq_ok, decide_eq_true_eq, orElse_eq_ok, ok.injEq] at h
    obtain ⟨_, hone, scopeSetSha, hset, hmarker⟩ := h
    obtain ⟨scope, rfl⟩ := length_eq_one_iff.mp hone
    exact .inl ⟨scope, scopeSetSha, rfl, hmarker.symm, hset⟩

/-- The marker of a clear. -/
def clearCommit (revision : Nat) (marker : IdentityOperation × String × String)
    (editionSha mutationSha : String) (now : Instant) : IdentityCommit :=
  ⟨revision, marker.1, editionSha, marker.2.1, marker.2.2, none, none, mutationSha, now⟩

theorem commitClear_eq_ok
    (h : commitClear sha db editionSha scopes marker mutationSha now = .ok (db', commit)) :
    db.mutations.find mutationSha = none ∧ ∃ revision mutations mutationScopes,
      revision = (db.commit.map IdentityCommit.revision).getD 0 + 1 ∧ revision ≤ sqliteMax ∧
      now.ms ≤ maxRfc3339Ms ∧ commit = clearCommit revision marker editionSha mutationSha now ∧
      db' = { applyClear db editionSha scopes revision now with
        commit := some commit, mutations := mutations, mutationScopes := mutationScopes } ∧
      mutations.rows = (applyClear db editionSha scopes revision now).mutations.rows ++ [commit] ∧
      mutationScopes.rows = (applyClear db editionSha scopes revision now).mutationScopes.rows ++
        (scopes.getD []).map (fun scope => ⟨mutationSha, scope.sha256⟩) := by
  unfold commitClear rejectReplayedMutation sqlRevision at h
  simp only [bind_ok_iff, ensure_eq_ok, decide_eq_true_eq, isNone_iff_eq_none,
    ok.injEq, Prod.mk.injEq, required_eq_ok] at h
  obtain ⟨_, hfree, revision, hrevision, _, hroom, found, hfound, committed, rfl, stored,
    hreceipt, rfl, rfl⟩ := h
  obtain ⟨rfl, _, htime⟩ := commitOn_eq_ok hfound
  obtain ⟨_, mutations, mutationScopes, rfl, hmutations, hmutationScopes⟩ :=
    insertMutationReceipt_eq_ok hreceipt
  exact ⟨hfree, revision, mutations, mutationScopes, nextRevision_eq_ok hrevision, hroom, htime,
    rfl, rfl, hmutations, hmutationScopes⟩

/-- What a clear changes. -/
def clearChange (scopes : Option (List ConversationIdentityScope)) : Change :=
  match scopes.bind List.head? with
  | some scope => .clearScope scope
  | none => .clearAll

theorem covers_clearScope {editionSha256 scopeSha256 token : String} :
    covers editionSha256 scopeSha256 ⟨edition, .clearScope scope, token, commit⟩ ↔
      (commit.editionSha256, scope.sha256) = (editionSha256, scopeSha256) := by
  simp [covers, Change.covers, Change.scopes]

theorem covers_clearAll {editionSha256 scopeSha256 token : String} :
    covers editionSha256 scopeSha256 ⟨edition, .clearAll, token, commit⟩ ↔
      commit.editionSha256 = editionSha256 := by
  simp [covers, Change.covers]

/-- The lookup after a delete of the rows whose key has one part. -/
theorem find_delete_part {ρ κ γ : Type} [DecidableEq κ] [DecidableEq γ] {pk : ρ → κ}
    (t : Table pk) (part : ρ → γ) (ofKey : κ → γ) (hpart : ∀ row, part row = ofKey (pk row))
    (key : γ) (k : κ) :
    (t.delete (fun row => part row = key)).find k = if key = ofKey k then none else t.find k := by
  rw [find_delete]
  cases hfind : t.find k with
  | none => simp
  | some row =>
    have hkey := pk_of_find hfind
    rw [filter_some, hpart, hkey]
    by_cases heq : key = ofKey k
    · simp [heq]
    · simp [heq, Ne.symm heq]

theorem commitClear_applied (hedition : editionSha256 sha edition = .ok editionSha)
    (htoken : mutationSha256 sha token = .ok mutationSha)
    (hmarker : clearMarker sha scopes = .ok marker)
    (h : commitClear sha db editionSha scopes marker mutationSha now = .ok (db', commit)) :
    db.mutations.find mutationSha = none ∧ Sealed sha ⟨edition, clearChange scopes, token, commit⟩ ∧
      Applied sha db db' ⟨edition, clearChange scopes, token, commit⟩ := by
  obtain ⟨hfree, revision, mutations, mutationScopes, hrevision, hroom, htime, rfl, rfl,
    hmutations, hmutationScopes⟩ := commitClear_eq_ok h
  have hpositive : 0 < revision := by omega
  refine ⟨hfree, ?_⟩
  rcases clearMarker_eq_ok hmarker with ⟨scope, scopeSetSha, rfl, rfl, hset⟩ | ⟨rfl, rfl⟩
  · refine ⟨⟨hedition, htoken, ⟨rfl, rfl, hset, rfl, rfl⟩, hpositive, hroom, htime⟩, ?_⟩
    refine ⟨hrevision, rfl, hmutations, hmutationScopes, rfl, ?_, ?_, ?_, fun _ _ h => h,
      fun _ h => h, ?_, fun _ h => .inl h, fun _ h => .inl h⟩
    · intro e s
      show (db.scopes.delete (fun row => row.key = (editionSha, scope.sha256))).find (e, s) = _
      rw [find_delete_part db.scopes ScopeRow.key id (fun _ => rfl)]
      simp only [clearChange, bind_some, head?_cons, covers_clearScope, clearCommit,
        id_eq]
      split_ifs
      · rfl
      · rfl
    · intro e s
      show (db.tombstones.put ⟨editionSha, scope.sha256, revision, now⟩).find (e, s) = _
      rw [find_put]
      simp only [clearChange, bind_some, head?_cons, covers_clearScope, clearCommit,
        TombstoneRow.key]
      by_cases hkey : (editionSha, scope.sha256) = (e, s)
      · cases hkey
        simp [tombstone]
      · simp [hkey]
    · intro e
      simp [clearsAll, clearChange, applyClear]
    · rintro _ _ ⟨_, _, hchange, _⟩
      cases hchange
  · refine ⟨⟨hedition, htoken, ⟨rfl, rfl, rfl, rfl, rfl⟩, hpositive, hroom, htime⟩, ?_⟩
    refine ⟨hrevision, rfl, hmutations, hmutationScopes, rfl, ?_, ?_, ?_, fun _ _ h => h,
      fun _ h => h, ?_, fun _ h => .inl h, fun _ h => .inl h⟩
    · intro e s
      show (db.scopes.delete (fun row => row.editionSha256 = editionSha)).find (e, s) = _
      simp only [clearChange, bind_none, covers_clearAll, clearCommit]
      split_ifs with hedition
      · rw [find_delete_part db.scopes ScopeRow.editionSha256 Prod.fst (fun _ => rfl), if_pos hedition]
        rfl
      · rw [find_delete_part db.scopes ScopeRow.editionSha256 Prod.fst (fun _ => rfl), if_neg hedition]
    · intro e s
      show (db.tombstones.delete (fun row => row.editionSha256 = editionSha)).find (e, s) = _
      simp only [clearChange, bind_none, covers_clearAll, clearCommit]
      split_ifs with hedition
      · rw [find_delete_part db.tombstones TombstoneRow.editionSha256 Prod.fst (fun _ => rfl),
          if_pos hedition]
        rfl
      · rw [find_delete_part db.tombstones TombstoneRow.editionSha256 Prod.fst (fun _ => rfl),
          if_neg hedition]
    · intro e
      show (db.clearAll.put ⟨editionSha, revision, now⟩).find e = _
      rw [find_put]
      simp only [clearChange, bind_none, clearsAll, clearCommit]
      by_cases hkey : editionSha = e
      · simp [hkey, clearAllRow]
      · simp [hkey]
    · rintro _ _ ⟨_, _, hchange, _⟩
      cases hchange

end Abbey.Conversation
