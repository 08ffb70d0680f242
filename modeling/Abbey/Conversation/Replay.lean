import Abbey.Conversation.Calls

/-!
# Replayed and fresh calls

A call with the material of the last entry returns its commit and writes
nothing (`run_of_describes`).  A call under a token that the history does
not have commits, as long as its material is valid, the clock is in range
and a revision is left (`run_of_fresh`).
-/

namespace Abbey.Conversation

open Abbey.Lib IdentityCommit ConversationIdentityScope List Mutation Table Except
open Abbey.Run (ConversationId Instant StoreError maxRfc3339Ms)

variable {sha : Sha256} {names : Names} {s : IdentityLedger} {call : IdentityCall} {m : Mutation}
variable {edition token : String}
variable {commit : IdentityCommit} {db : IdentityDb} {now : Instant}
  {scopes : List ConversationIdentityScope} {externalId id mutationSha : String}

/-! ## Replays -/

theorem Reflects.validateCurrentReceipt (h : Reflects sha s) (hm : m ∈ s.log) :
    validateCurrentReceipt s.db m.commit m.change.scopes = .ok () := by
  have hrow : m.commit ∈ s.db.mutations.rows := by
    rw [h.mutations]
    exact mem_map.mpr ⟨m, hm, rfl⟩
  have hone : (s.db.mutations.rows.filter (fun row => row = m.commit)).length = 1 := by
    refine length_filter_eq_one (mem_rows_iff_find.mp hrow) (by simp) ?_
    intro row hsame
    rw [decide_eq_true_eq] at hsame
    rw [hsame]
  have hcount : (s.db.mutationScopes.rows.filter
      (fun row => row.mutationSha256 = m.commit.mutationSha256)).length =
        m.change.scopes.length := by
    rw [h.mutationScopes, filter_flatMap_scopeRows h.digests_nodup hm, scopeRows, length_map]
  unfold Conversation.validateCurrentReceipt sqlRevision
  simp only [(h.sealed m hm).room, hone, hcount, decide_true, ensure_true, ok_bind, forM_eq_ok,
    ensure_eq_ok]
  intro scope hscope
  show Conversation.hasScope s.db m.commit.mutationSha256 scope.sha256
  rw [h.hasScope hm, any_eq_true]
  exact ⟨scope, hscope, by simp⟩

theorem latest_last (hlast : s.log.getLast? = some m) (scopeSha : String)
    (hcovers : m.change.covers scopeSha) :
    latest (covers m.commit.editionSha256 scopeSha) s.log = some m := by
  obtain ⟨rest, hrest⟩ := getLast?_eq_some_iff.mp hlast
  rw [hrest, latest_append, if_pos]
  simp [covers, hcovers]

theorem Reflects.validateAliasProvenance (h : Reflects sha s) (hm : m ∈ s.log)
    (hchange : m.change = .save scopes id) :
    validateAliasProvenance s.db (aliasSha256 sha id) (conversationOf sha id) = .ok () := by
  obtain ⟨halias, _⟩ := h.saved m hm _ _ ⟨scopes, id, hchange, rfl, rfl⟩
  obtain ⟨row, hrow, hsame⟩ := Option.map_eq_some_iff.mp halias
  have hbyConversation : (s.db.aliases.rows.find? (fun row =>
      row.conversationId = conversationOf sha id)).all (fun row =>
        row.aliasSha256 = aliasSha256 sha id) := by
    cases hfind : s.db.aliases.rows.find?
        (fun row => row.conversationId = conversationOf sha id) with
    | none => rfl
    | some other =>
      have hother : other.conversationId = conversationOf sha id := by
        simpa using find?_some hfind
      have heq := h.unique other (mem_of_find?_eq_some hfind) row
        (mem_rows_of_find hrow) (hother.trans hsame.symm)
      rw [heq]
      simpa using pk_of_find hrow
  unfold Conversation.validateAliasProvenance
  simp [hrow, hsame, hbyConversation]

theorem Reflects.validateScopeSet (h : Reflects sha s) (hlast : s.log.getLast? = some m)
    (hchange : m.change = .save scopes id) :
    validateScopeSet s.db m.commit.editionSha256 scopes
      ⟨aliasSha256 sha id, conversationOf sha id⟩ = .ok () := by
  unfold Conversation.validateScopeSet
  rw [forM_eq_ok]
  intro scope hscope
  have hcovers : m.change.covers scope.sha256 := by
    rw [hchange, Change.covers, Change.scopes, any_eq_true]
    · exact ⟨scope, hscope, by simp⟩
    · simp
  rw [ensure_eq_ok, h.scopes, latest_last hlast _ hcovers, Option.bind_some, scopeRow, hchange]
  simp

/-- The effect of a clear is read from the lookups that it covers. -/
theorem validateClearEffect_of_lookups (hsealed : Sealed sha m)
    {scopes : Option (List ConversationIdentityScope)} (hchange : m.change = clearChange scopes)
    (hproper : ∀ list, scopes = some list → list.length = 1)
    (hscopes : ∀ scopeSha, m.change.covers scopeSha →
      db.scopes.find (m.commit.editionSha256, scopeSha) =
      m.scopeRow sha m.commit.editionSha256 scopeSha)
    (htombstones : ∀ scopeSha, m.change.covers scopeSha →
      db.tombstones.find (m.commit.editionSha256, scopeSha) =
      m.tombstone m.commit.editionSha256 scopeSha)
    (hclearAll : m.change = .clearAll → db.clearAll.find m.commit.editionSha256 =
      some (m.clearAllRow m.commit.editionSha256)) :
    validateClearEffect db m.commit.editionSha256 scopes m.commit = .ok () := by
  have hmarks := hsealed.marks
  unfold Conversation.validateClearEffect sqlRevision
  simp only [hsealed.room, decide_true, ensure_true, ok_bind]
  cases scopes with
  | none =>
    have hall : m.change = .clearAll := hchange
    have hcovers : ∀ scopeSha, m.change.covers scopeSha := by
      intro scopeSha
      rw [hall]
      rfl
    rw [hall] at hmarks
    have hnoScopes : db.scopes.rows.all
        (fun row => row.editionSha256 ≠ m.commit.editionSha256) := by
      rw [all_eq_true]
      intro row hrow
      have hfind : db.scopes.find (row.editionSha256, row.scopeSha256) = some row :=
        mem_rows_iff_find.mp hrow
      rw [decide_eq_true_eq]
      intro hsame
      rw [hsame, hscopes _ (hcovers _), scopeRow, hall] at hfind
      cases hfind
    have hnoTombstones : db.tombstones.rows.all
        (fun row => row.editionSha256 ≠ m.commit.editionSha256) := by
      rw [all_eq_true]
      intro row hrow
      have hfind : db.tombstones.find (row.editionSha256, row.scopeSha256) = some row :=
        mem_rows_iff_find.mp hrow
      rw [decide_eq_true_eq]
      intro hsame
      rw [hsame, htombstones _ (hcovers _), tombstone, hall] at hfind
      cases hfind
    simp only [hmarks.1, hnoScopes, hnoTombstones, hclearAll hall, Option.map_some,
      clearAllRow, decide_true, Bool.and_self, ensure_true]
  | some list =>
    obtain ⟨scope, rfl⟩ := length_eq_one_iff.mp (hproper list rfl)
    have hclear : m.change = .clearScope scope := hchange
    have hcovers : m.change.covers scope.sha256 := by
      rw [hclear]
      simp [Change.covers, Change.scopes]
    rw [hclear] at hmarks
    simp only [hmarks.1, forM_eq_ok, mem_singleton, forall_eq, hscopes _ hcovers,
      htombstones _ hcovers, scopeRow, tombstone, hclear, Option.isNone_none,
      Option.map_some, decide_true, Bool.and_self, ensure_true]

theorem Reflects.validateClearEffect (h : Reflects sha s) (hlast : s.log.getLast? = some m)
    {scopes : Option (List ConversationIdentityScope)} (hchange : m.change = clearChange scopes)
    (hproper : ∀ list, scopes = some list → list.length = 1) :
    validateClearEffect s.db m.commit.editionSha256 scopes m.commit = .ok () := by
  refine validateClearEffect_of_lookups (h.sealed m (mem_of_getLast? hlast)) hchange hproper
    ?_ ?_ ?_
  · intro scopeSha hcovers
    rw [h.scopes, latest_last hlast scopeSha hcovers, Option.bind_some]
  · intro scopeSha hcovers
    rw [h.tombstones, latest_last hlast scopeSha hcovers, Option.bind_some]
  · intro hall
    have hlatest := latest_last hlast "" (by rw [hall]; rfl)
    rw [h.clearAll, latest_of_imp (fun n _ => covers_of_clearsAll "") hlatest
      (by simp [clearsAll, hall]), Option.map_some]

variable {db' : IdentityDb}

theorem Applied.validateClearEffect (h : Applied sha db db' m)
    (hsealed : Sealed sha m) {scopes : Option (List ConversationIdentityScope)}
    (hchange : m.change = clearChange scopes)
    (hproper : ∀ list, scopes = some list → list.length = 1) :
    validateClearEffect db' m.commit.editionSha256 scopes m.commit = .ok () := by
  refine validateClearEffect_of_lookups hsealed hchange hproper ?_ ?_ ?_
  · intro scopeSha hcovers
    rw [h.scopes, if_pos (by simp [covers, hcovers])]
  · intro scopeSha hcovers
    rw [h.tombstones, if_pos (by simp [covers, hcovers])]
  · intro hall
    rw [h.clearAll, if_pos (by simp [clearsAll, hall])]

theorem externalIdentity_of_trim (h : validateExternalId (trim value) = .ok (trim value)) :
    externalIdentity sha value =
      .ok ⟨aliasSha256 sha (trim value), conversationOf sha (trim value)⟩ := by
  unfold validateExternalId at h
  rw [trim_trim] at h
  split_ifs at h with hplain
  unfold externalIdentity validateExternalId
  rw [if_pos hplain]
  rfl

theorem replayed_of_last (h : Reflects sha s) (hlast : s.log.getLast? = some m) :
    replayed s.db.commit m.commit.mutationSha256 = some m.commit := by
  unfold replayed
  rw [h.commit, hlast]
  simp

/-- A replay of the last entry returns its commit and writes nothing. -/
theorem run_of_describes (h : Reflects sha s) (hlast : s.log.getLast? = some m)
    (hcall : call.Describes m) : call.run sha s.db = .ok (s.db, m.commit) := by
  obtain ⟨edition, request, token, now⟩ := call
  obtain ⟨rfl, hchange, hproper, rfl⟩ := hcall
  have hmem := mem_of_getLast? hlast
  have hsealed := h.sealed m hmem
  have hmarks := hsealed.marks
  cases request with
  | save scopes externalId =>
    have hsave : m.change = .save scopes (trim externalId) := hchange.symm
    rw [hsave] at hmarks
    obtain ⟨_, hhead, hset, hid, halias, hconversation⟩ := hmarks
    have hcurrent : validateCurrentReceipt s.db m.commit scopes = .ok () := by
      have hvalid := h.validateCurrentReceipt hmem
      rw [hsave] at hvalid
      exact hvalid
    show saveConversationIdentity sha s.db m.edition scopes externalId m.token now = _
    unfold saveConversationIdentity identityInput replaySave
    simp only [hsealed.edition, externalIdentity_of_trim hid, hsealed.token, hset, orElse, ok_bind,
      h.commitOn, replayed_of_last h hlast, hhead, halias, hconversation, decide_true,
      Bool.and_self, ensure_true, h.validateAliasProvenance hmem hsave,
      h.validateScopeSet hlast hsave, hcurrent]
  | clear scopes =>
    have hclear : m.change = clearChange scopes := hchange.symm
    have heffect := h.validateClearEffect hlast hclear hproper
    show clearConversationIdentity sha s.db m.edition scopes m.token now = _
    cases scopes with
    | none =>
      have hall : m.change = .clearAll := hclear
      have hcurrent : validateCurrentReceipt s.db m.commit [] = .ok () := by
        have hvalid := h.validateCurrentReceipt hmem
        rw [hall] at hvalid
        exact hvalid
      rw [hall] at hmarks
      obtain ⟨hoperation, hscope, hset, halias, hconversation⟩ := hmarks
      unfold clearConversationIdentity identityInput replayClear clearMarker
        matchesClearAll
      simp only [hsealed.edition, hsealed.token, orElse, ok_bind, h.commitOn,
        replayed_of_last h hlast, hoperation, hscope, hset, halias, hconversation, heffect,
        Option.isNone_none, decide_true, Bool.and_self, ensure_true, Option.getD_none, hcurrent]
    | some list =>
      obtain ⟨scope, rfl⟩ := length_eq_one_iff.mp (hproper list rfl)
      have hone : m.change = .clearScope scope := hclear
      have hcurrent : validateCurrentReceipt s.db m.commit [scope] = .ok () := by
        have hvalid := h.validateCurrentReceipt hmem
        rw [hone] at hvalid
        exact hvalid
      rw [hone] at hmarks
      obtain ⟨hoperation, hscope, hset, halias, hconversation⟩ := hmarks
      unfold clearConversationIdentity replayClear clearMarker matchesClearScopes
      simp only [identityInput, hsealed.edition, hsealed.token, orElse, ok_bind, h.commitOn, hset,
        replayed_of_last h hlast, hoperation, hscope, halias, hconversation, heffect,
        length_singleton, head?_cons, Option.map_some, Option.isNone_none, decide_true,
        Bool.and_self, ensure_true, Option.getD_some, hcurrent]

/-! ## Calls under a token that the marker does not have -/

theorem replayed_eq_none
    (h : ∀ commit, existing = some commit → commit.mutationSha256 ≠ mutationSha) :
    replayed existing mutationSha = none := by
  cases hreplayed : replayed existing mutationSha with
  | none => rfl
  | some commit =>
    obtain ⟨hexisting, hsame⟩ := replayed_eq_some hreplayed
    exact absurd hsame (h commit hexisting)

variable {editionSha scopeSetSha : String}

theorem committedAt_commitSave
    (h : commitSave sha db editionSha scopes external mutationSha scopeSetSha now =
      .ok (db', commit)) : commit.committedAt = now := by
  unfold commitSave at h
  simp only [bind_ok_iff, required_eq_ok, ok.injEq, Prod.mk.injEq] at h
  obtain ⟨_, _, _, _, _, _, _, _, _, _, found, hfound, _, rfl, _, _, _, rfl⟩ := h
  obtain ⟨rfl, _, _⟩ := commitOn_eq_ok hfound
  rfl

section

variable (hmarker : commitOn sha db = .ok db.commit)
  (hfresh : ∀ commit, db.commit = some commit → mutationSha256 sha token ≠ .ok commit.mutationSha256)

include hmarker hfresh

theorem save_applied
    (h : saveConversationIdentity sha db edition scopes externalId token now = .ok (db', commit)) :
    commit.committedAt = now ∧ Sealed sha ⟨edition, .save scopes (trim externalId), token, commit⟩ ∧
      Applied sha db db' ⟨edition, .save scopes (trim externalId), token, commit⟩ := by
  unfold saveConversationIdentity identityInput at h
  simp only [bind_ok_iff, orElse_eq_ok, hmarker, ok.injEq] at h
  obtain ⟨editionSha, hedition, external, hexternal, mutationSha, htoken, scopeSetSha, hset, _, rfl,
    hmatch⟩ := h
  obtain ⟨rfl, hid⟩ := externalIdentity_eq_ok hexternal
  rw [replayed_eq_none (fun commit hcommit hsame => hfresh commit hcommit (hsame ▸ htoken))]
    at hmatch
  exact ⟨committedAt_commitSave hmatch, (commitSave_applied hedition htoken hset hid hmatch).2⟩

theorem clear_applied {scopes : Option (List ConversationIdentityScope)}
    (h : clearConversationIdentity sha db edition scopes token now = .ok (db', commit)) :
    Sealed sha ⟨edition, clearChange scopes, token, commit⟩ ∧
      Applied sha db db' ⟨edition, clearChange scopes, token, commit⟩ := by
  unfold clearConversationIdentity identityInput at h
  simp only [bind_ok_iff, orElse_eq_ok, hmarker, ok.injEq] at h
  obtain ⟨editionSha, hedition, mutationSha, htoken, marker, hmark, _, rfl, hmatch⟩ := h
  rw [replayed_eq_none (fun commit hcommit hsame => hfresh commit hcommit (hsame ▸ htoken))]
    at hmatch
  exact (commitClear_applied hedition htoken hmark hmatch).2

end

/-- The marker of a save is recognised. -/
theorem Sealed.matchesSaveScopes
    (h : Sealed sha ⟨edition, .save scopes (trim externalId), token, commit⟩) :
    commit.matchesSaveScopes sha edition scopes externalId token := by
  obtain ⟨hoperation, hhead, hset, hid, halias, hconversation⟩ := h.marks
  have hedition := h.edition
  have htoken := h.token
  simp only at hedition htoken hoperation hhead hset halias hconversation
  unfold IdentityCommit.matchesSaveScopes
  simp only [hedition, externalIdentity_of_trim hid, htoken, hset, hoperation, hhead, halias,
    hconversation, decide_true, Bool.and_self]

/-- The marker of a clear is recognised. -/
theorem Sealed.matchesClear {scopes : Option (List ConversationIdentityScope)}
    (hproper : ∀ list, scopes = some list → list.length = 1)
    (h : Sealed sha ⟨edition, clearChange scopes, token, commit⟩) :
    scopes.elim (commit.matchesClearAll sha edition token)
      (fun scopes => commit.matchesClearScopes sha edition scopes token) = true := by
  have hedition := h.edition
  have htoken := h.token
  simp only at hedition htoken
  cases scopes with
  | none =>
    obtain ⟨hoperation, hscope, hset, halias, hconversation⟩ := h.marks
    simp only at hoperation hscope hset halias hconversation
    show commit.matchesClearAll sha edition token
    unfold matchesClearAll
    simp only [hedition, htoken, hoperation, hscope, hset, halias, hconversation,
      Option.isNone_none, decide_true, Bool.and_self]
  | some list =>
    obtain ⟨scope, rfl⟩ := length_eq_one_iff.mp (hproper list rfl)
    obtain ⟨hoperation, hscope, hset, halias, hconversation⟩ := h.marks
    simp only at hoperation hscope hset halias hconversation
    show commit.matchesClearScopes sha edition [scope] token
    unfold matchesClearScopes
    simp only [hedition, htoken, hset, hoperation, hscope, halias, hconversation, head?_cons,
      Option.map_some, Option.isNone_none, decide_true, Bool.and_self]

/-! ## Fresh calls -/

/-- The material of a call passes its checks. -/
structure IdentityCall.Valid (call : IdentityCall) : Prop where
  edition : isPlain call.edition maxEditionSlugBytes = true
  token : isPlain call.token maxMutationTokenBytes = true
  request : match call.request with
    | .save scopes externalId => isPlain (trim externalId) maxExternalIdBytes = true ∧
      scopes ≠ [] ∧ scopes.length ≤ maxIdentityScopes ∧
      (scopes.map ConversationIdentityScope.sha256).Nodup
    | .clear scopes => ∀ list, scopes = some list → list.length = 1

theorem scopeSetSha256_of_valid (sha : Sha256) (hnonempty : scopes ≠ [])
    (hlength : scopes.length ≤ maxIdentityScopes) (hnodup : (scopes.map sha256).Nodup) :
    ∃ digest, scopeSetSha256 sha scopes = .ok digest := by
  have hdigests : (scopes.map sha256).all isLowerHexSha256 := by
    rw [all_eq_true]
    intro digest hdigest
    obtain ⟨scope, _, rfl⟩ := mem_map.mp hdigest
    exact scope.digest
  have hmap : scopes.map sha256 ≠ [] := by simpa using hnonempty
  unfold scopeSetSha256 scopeSetSha256FromHashes
  rw [if_pos ⟨hmap, by simpa using hlength, hdigests, hnodup⟩]
  exact ⟨_, rfl⟩

theorem foldlM_mutationScopes_of_free {t : Table MutationScopeRow.key}
    (hfree : ∀ scope ∈ scopes, t.find (mutation, scope.sha256) = none)
    (hnodup : (scopes.map sha256).Nodup) : ∃ u, scopes.foldlM (fun table scope =>
      required (table.insert? ⟨mutation, scope.sha256⟩) StoreError.database) t = .ok u := by
  induction scopes generalizing t with
  | nil => exact ⟨t, rfl⟩
  | cons scope scopes ih =>
    rw [map_cons, nodup_cons] at hnodup
    obtain ⟨mid, hmid⟩ := insert?_of_find_none
      (show t.find (MutationScopeRow.key ⟨mutation, scope.sha256⟩) = none from
        hfree scope mem_cons_self)
    have hrest : ∀ other ∈ scopes, mid.find (mutation, other.sha256) = none := by
      intro other hother
      have hne : scope.sha256 ≠ other.sha256 := by
        intro heq
        exact hnodup.1 (mem_map.mpr ⟨other, hother, heq.symm⟩)
      rw [find_insert hmid, if_neg]
      · exact hfree other (mem_cons_of_mem scope hother)
      · simp [MutationScopeRow.key, hne]
    obtain ⟨u, hu⟩ := ih hrest hnodup.2
    refine ⟨u, ?_⟩
    rw [foldlM_cons, hmid, required_some, ok_bind]
    exact hu

theorem insertMutationReceipt_of_fresh (hroom : commit.revision ≤ sqliteMax)
    (hrevision : ∀ row ∈ db.mutations.rows, row.revision ≠ commit.revision)
    (hmutation : db.mutations.find commit.mutationSha256 = none)
    (hscopes : ∀ scope ∈ scopes, db.mutationScopes.find (commit.mutationSha256, scope.sha256) =
      none)
    (hnodup : (scopes.map sha256).Nodup) :
    ∃ db' receipt, (insertMutationReceipt db commit scopes >>= fun db =>
      (.ok (db, commit) : Except StoreError (IdentityDb × IdentityCommit))) =
        .ok (db', receipt) := by
  obtain ⟨mutations, hmutations⟩ := insert?_of_find_none hmutation
  obtain ⟨mutationScopes, hmutationScopes⟩ := foldlM_mutationScopes_of_free hscopes hnodup
  have hall : db.mutations.rows.all (fun row => row.revision ≠ commit.revision) := by
    rw [all_eq_true]
    intro row hrow
    simpa using hrevision row hrow
  unfold insertMutationReceipt sqlRevision
  simp only [hroom, hall, hmutations, hmutationScopes, decide_true, ensure_true, required_some,
    ok_bind]
  exact ⟨_, _, rfl⟩

/-- The tables hold nothing of a fresh token. -/
theorem Reflects.fresh (hfree : CollisionFree sha names) (h : Reflects sha s)
    (hnames : ∀ m ∈ s.log, m.Within names) (htoken : token ∈ names.tokens)
    (hdigest : mutationSha256 sha token = .ok mutationSha) (hfresh : ∀ m ∈ s.log, m.token ≠ token) :
    (∀ m ∈ s.log, m.commit.mutationSha256 ≠ mutationSha) ∧ s.db.mutations.find mutationSha = none ∧
      ∀ scopeSha, s.db.mutationScopes.find (mutationSha, scopeSha) = none := by
  have hne : ∀ m ∈ s.log, m.commit.mutationSha256 ≠ mutationSha := by
    intro m hm hsame
    have hdigest' := (h.sealed m hm).token
    rw [hsame] at hdigest'
    exact hfresh m hm (token_eq_of_digest_eq hfree (hnames m hm).token htoken hdigest' hdigest)
  refine ⟨hne, ?_, ?_⟩
  · rw [find_eq_none_iff, h.mutations]
    intro row hrow
    obtain ⟨m, hm, rfl⟩ := mem_map.mp hrow
    exact hne m hm
  · intro scopeSha
    rw [find_eq_none_iff, h.mutationScopes]
    intro row hrow hkey
    obtain ⟨m, hm, hscopeRow⟩ := mem_flatMap.mp hrow
    obtain ⟨scope, _, rfl⟩ := mem_map.mp hscopeRow
    exact hne m hm (Prod.mk.inj hkey).1

/-- The next revision is not taken. -/
theorem Reflects.revision_fresh (h : Reflects sha s) : ∀ row ∈ s.db.mutations.rows,
    row.revision ≠ (s.db.commit.map revision).getD 0 + 1 := by
  intro row hrow
  rw [h.mutations] at hrow
  obtain ⟨m, hm, rfl⟩ := mem_map.mp hrow
  have hbound := h.bound m hm
  omega

/-- Aliases and conversations of named ids agree. -/
theorem validateAliasProvenance_of_names (hfree : CollisionFree sha names) (hid : id ∈ names.ids)
    (haliases : ∀ row ∈ db.aliases.rows, ∃ other ∈ names.ids, row.aliasSha256 =
      aliasSha256 sha other ∧ row.conversationId = conversationOf sha other)
    (hconversation : (db.conversations.find (conversationOf sha id)).isSome →
      (db.aliases.find (aliasSha256 sha id)).isSome) :
    validateAliasProvenance db (aliasSha256 sha id) (conversationOf sha id) = .ok () := by
  have hbyAlias : (db.aliases.find (aliasSha256 sha id)).all
      (fun row => row.conversationId = conversationOf sha id) := by
    cases hfind : db.aliases.find (aliasSha256 sha id) with
    | none => rfl
    | some row =>
      obtain ⟨other, hother, halias, hconv⟩ := haliases row (mem_rows_of_find hfind)
      have hkey := pk_of_find hfind
      rw [halias] at hkey
      rw [id_eq_of_alias_eq hfree hother hid hkey] at hconv
      simpa using hconv
  have hbyConversation : (db.aliases.rows.find? (fun row =>
      row.conversationId = conversationOf sha id)).all (fun row =>
        row.aliasSha256 = aliasSha256 sha id) := by
    cases hfind : db.aliases.rows.find?
        (fun row => row.conversationId = conversationOf sha id) with
    | none => rfl
    | some row =>
      obtain ⟨other, hother, halias, hconv⟩ := haliases row (mem_of_find?_eq_some hfind)
      have hsame : row.conversationId = conversationOf sha id := by
        simpa using find?_some hfind
      rw [hfree.conversations hother hid (hconv.symm.trans hsame)] at halias
      simpa using halias
  have hexists : (!((db.conversations.find (conversationOf sha id)).isSome &&
      (db.aliases.find (aliasSha256 sha id)).isNone)) = true := by
    cases hfind : (db.conversations.find (conversationOf sha id)).isSome with
    | false => rfl
    | true =>
      have hsome := hconversation hfind
      rw [Option.isSome_iff_exists] at hsome
      obtain ⟨row, hrow⟩ := hsome
      simp [hrow]
  unfold Conversation.validateAliasProvenance
  simp only [hbyAlias, hbyConversation, hexists, ensure_true, ok_bind]

theorem Reflects.saved_names (h : Reflects sha s) (hnames : ∀ m ∈ s.log, m.Within names)
    (hrow : row ∈ s.db.aliases.rows) : ∃ other ∈ names.ids,
      row.aliasSha256 = aliasSha256 sha other ∧ row.conversationId = conversationOf sha other := by
  obtain ⟨m, hm, scopes, other, hchange, halias, hconversation⟩ := h.aliases row hrow
  exact ⟨other, (hnames m hm).ids scopes other hchange, halias, hconversation⟩

section

variable (hfree : CollisionFree sha names) (h : Reflects sha s)
  (hnames : ∀ m ∈ s.log, m.Within names) (hid : id ∈ names.ids)

include hfree h hnames hid

theorem Reflects.saved_alias
    (hconversation : (s.db.conversations.find (conversationOf sha id)).isSome) :
    (s.db.aliases.find (aliasSha256 sha id)).isSome := by
  obtain ⟨row, hrow⟩ := Option.isSome_iff_exists.mp hconversation
  obtain ⟨hmem, hkey⟩ := find_eq_some_iff.mp hrow
  obtain ⟨m, hm, aliasSha, hsaves⟩ := h.conversations row hmem
  obtain ⟨scopes, other, hchange, halias, hconv⟩ := hsaves
  have hother := (hnames m hm).ids scopes other hchange
  have hsame : other = id := hfree.conversations hother hid (hconv.symm.trans hkey)
  obtain ⟨hsaved, _⟩ := h.saved m hm _ _ ⟨scopes, other, hchange, rfl, rfl⟩
  rw [hsame] at hsaved
  obtain ⟨found, hfound, _⟩ := Option.map_eq_some_iff.mp hsaved
  rw [hfound]
  rfl

theorem commitSave_of_fresh (hedition : editionSha256 sha edition = .ok editionSha)
    (htoken : mutationSha256 sha token = .ok mutationSha)
    (hset : scopeSetSha256 sha scopes = .ok scopeSetSha) (hvalid : validateExternalId id = .ok id)
    (hfind : s.db.mutations.find mutationSha = none)
    (hfindScopes : ∀ scopeSha, s.db.mutationScopes.find (mutationSha, scopeSha) = none)
    (hroom : (s.db.commit.map revision).getD 0 < sqliteMax) (htime : now.ms ≤ maxRfc3339Ms) :
    ∃ db commit, commitSave sha s.db editionSha scopes
      ⟨aliasSha256 sha id, conversationOf sha id⟩ mutationSha scopeSetSha now =
        .ok (db, commit) := by
  have hprovenance := validateAliasProvenance_of_names hfree hid
    (fun row hrow => h.saved_names hnames hrow) (h.saved_alias hfree hnames hid)
  obtain ⟨_, hnewAlias, haliases⟩ := insertAlias_spec .runtimeV3 hprovenance
  have hprovenance' : validateAliasProvenance { s.db with
      conversations :=
        (s.db.conversations.insert? ⟨conversationOf sha id⟩).getD s.db.conversations
      aliases := insertAlias s.db ⟨aliasSha256 sha id, conversationOf sha id, .runtimeV3⟩ }
      (aliasSha256 sha id) (conversationOf sha id) = .ok () := by
    refine validateAliasProvenance_of_names hfree hid ?_ ?_
    · intro row hrow
      rcases haliases row hrow with hold | ⟨⟨halias, hconversation⟩, _⟩
      · exact h.saved_names hnames hold
      · exact ⟨id, hid, halias, hconversation⟩
    · intro _
      obtain ⟨row, hrow, _⟩ := Option.map_eq_some_iff.mp hnewAlias
      exact Option.isSome_iff_exists.mpr ⟨row, hrow⟩
  have hhead : some ((scopes.head?.map sha256).getD "") = scopes.head?.map sha256 := by
    cases scopes with
    | nil => exact absurd rfl (scopeSetSha256_eq_ok hset).2.1
    | cons scope scopes => rfl
  obtain ⟨tombstones, table, hfold, _, _⟩ := foldl_selectScope editionSha
    ⟨aliasSha256 sha id, conversationOf sha id⟩
    ((s.db.commit.map revision).getD 0 + 1) now scopes
    { s.db with
      conversations :=
        (s.db.conversations.insert? ⟨conversationOf sha id⟩).getD s.db.conversations
      aliases := insertAlias s.db ⟨aliasSha256 sha id, conversationOf sha id, .runtimeV3⟩ }
  have hsqlite : (s.db.commit.map revision).getD 0 + 1 ≤ sqliteMax := by omega
  have hsealed : Sealed sha ⟨edition, .save scopes id, token,
      ⟨(s.db.commit.map revision).getD 0 + 1, .save, editionSha,
        (scopes.head?.map sha256).getD "", scopeSetSha,
        some (aliasSha256 sha id), some (conversationOf sha id), mutationSha, now⟩⟩ :=
    ⟨hedition, htoken, ⟨rfl, hhead, hset, hvalid, rfl, rfl⟩, Nat.succ_pos _, hsqlite, htime⟩
  have hcheck := hsealed.checkCommit
  have hu64 : (s.db.commit.map revision).getD 0 + 1 ≤ u64Max := by
    have hle : sqliteMax ≤ u64Max := by decide
    omega
  unfold commitSave rejectReplayedMutation nextRevision sqlRevision commitOn
  simp only [hfind, Option.isNone_none, hprovenance, hprovenance', hfold, hu64, hsqlite, hcheck,
    decide_true, ensure_true, ok_bind, required_some]
  exact insertMutationReceipt_of_fresh hsqlite h.revision_fresh hfind (fun scope _ => hfindScopes _)
    (scopeSetSha256_eq_ok hset).2.2

end

theorem applyClear_receipts (db : IdentityDb) (editionSha : String)
    (scopes : Option (List ConversationIdentityScope)) (revision : Nat) (now : Instant) :
    (applyClear db editionSha scopes revision now).mutations = db.mutations ∧
      (applyClear db editionSha scopes revision now).mutationScopes = db.mutationScopes := by
  cases scopes with
  | none => exact ⟨rfl, rfl⟩
  | some list =>
    induction list generalizing db with
    | nil => exact ⟨rfl, rfl⟩
    | cons scope list ih => exact ih _

theorem commitClear_of_fresh (h : Reflects sha s) {scopes : Option (List ConversationIdentityScope)}
    (hedition : editionSha256 sha edition = .ok editionSha)
    (htoken : mutationSha256 sha token = .ok mutationSha)
    (hmarker : clearMarker sha scopes = .ok marker) (hfind : s.db.mutations.find mutationSha = none)
    (hfindScopes : ∀ scopeSha, s.db.mutationScopes.find (mutationSha, scopeSha) = none)
    (hroom : (s.db.commit.map revision).getD 0 < sqliteMax) (htime : now.ms ≤ maxRfc3339Ms) :
    ∃ db commit, commitClear sha s.db editionSha scopes marker mutationSha now =
      .ok (db, commit) := by
  have hsqlite : (s.db.commit.map revision).getD 0 + 1 ≤ sqliteMax := by omega
  have hu64 : (s.db.commit.map revision).getD 0 + 1 ≤ u64Max := by
    have hle : sqliteMax ≤ u64Max := by decide
    omega
  have hsealed : Sealed sha ⟨edition, clearChange scopes, token,
      clearCommit ((s.db.commit.map revision).getD 0 + 1) marker editionSha
        mutationSha now⟩ := by
    rcases clearMarker_eq_ok hmarker with ⟨scope, scopeSetSha, rfl, rfl, hset⟩ | ⟨rfl, rfl⟩
    · exact ⟨hedition, htoken, ⟨rfl, rfl, hset, rfl, rfl⟩, Nat.succ_pos _, hsqlite, htime⟩
    · exact ⟨hedition, htoken, ⟨rfl, rfl, rfl, rfl, rfl⟩, Nat.succ_pos _, hsqlite, htime⟩
  have hcheck := hsealed.checkCommit
  unfold clearCommit at hcheck
  have hnodup : ((scopes.getD []).map sha256).Nodup := by
    rcases clearMarker_eq_ok hmarker with ⟨scope, _, rfl, _⟩ | ⟨rfl, _⟩
    · simp
    · simp
  obtain ⟨hmutations, hmutationScopes⟩ := applyClear_receipts s.db editionSha scopes
    ((s.db.commit.map revision).getD 0 + 1) now
  unfold commitClear rejectReplayedMutation nextRevision sqlRevision commitOn
  simp only [hfind, Option.isNone_none, hu64, hsqlite, hcheck, decide_true, ensure_true, ok_bind,
    required_some]
  refine insertMutationReceipt_of_fresh hsqlite ?_ ?_ ?_ hnodup
  · intro row hrow
    exact h.revision_fresh row (hmutations ▸ hrow)
  · exact hmutations ▸ hfind
  · intro scope _
    exact hmutationScopes ▸ hfindScopes _

/-- A call under a fresh token commits. -/
theorem run_of_fresh (hfree : CollisionFree sha names) (h : Reflects sha s)
    (hnames : ∀ m ∈ s.log, m.Within names) (hcall : call.Within names) (hvalid : call.Valid)
    (hfresh : ∀ m ∈ s.log, m.token ≠ call.token)
    (hroom : (s.db.commit.map revision).getD 0 < sqliteMax) (htime : call.now.ms ≤ maxRfc3339Ms) :
    ∃ db commit, call.run sha s.db = .ok (db, commit) := by
  obtain ⟨edition, request, token, now⟩ := call
  obtain ⟨editionSha, hedition⟩ : ∃ digest, editionSha256 sha edition = .ok digest := by
    unfold editionSha256
    rw [if_pos hvalid.edition]
    exact ⟨_, rfl⟩
  obtain ⟨mutationSha, htoken⟩ : ∃ digest, mutationSha256 sha token = .ok digest := by
    unfold mutationSha256
    rw [if_pos hvalid.token]
    exact ⟨_, rfl⟩
  obtain ⟨hne, hfind, hfindScopes⟩ := h.fresh hfree hnames hcall.token htoken hfresh
  have hreplayed : replayed s.db.commit mutationSha = none := by
    cases hreplayed : replayed s.db.commit mutationSha with
    | none => rfl
    | some commit =>
      obtain ⟨m, hlast, rfl, _, hsame⟩ := h.replayed hreplayed
      exact absurd hsame (hne m (mem_of_getLast? hlast))
  cases request with
  | save scopes externalId =>
    obtain ⟨hplain, hnonempty, hlength, hnodup⟩ := hvalid.request
    have hid : validateExternalId (trim externalId) = .ok (trim externalId) := by
      unfold validateExternalId
      rw [trim_trim, if_pos hplain]
    obtain ⟨scopeSetSha, hset⟩ := scopeSetSha256_of_valid sha hnonempty hlength hnodup
    show ∃ db commit, saveConversationIdentity sha s.db edition scopes externalId token now =
      .ok (db, commit)
    unfold saveConversationIdentity identityInput
    simp only [hedition, htoken, externalIdentity_of_trim hid, hset, orElse, ok_bind, h.commitOn,
      hreplayed]
    exact commitSave_of_fresh hfree h hnames (hcall.ids scopes externalId rfl) hedition htoken hset
      hid hfind hfindScopes hroom htime
  | clear scopes =>
    obtain ⟨marker, hmarker⟩ : ∃ marker, clearMarker sha scopes = .ok marker := by
      cases scopes with
      | none => exact ⟨_, rfl⟩
      | some list =>
        obtain ⟨scope, rfl⟩ := length_eq_one_iff.mp (hvalid.request list rfl)
        obtain ⟨scopeSetSha, hset⟩ := scopeSetSha256_of_valid sha (cons_ne_nil scope [])
          (show 1 ≤ maxIdentityScopes by decide) (by simp)
        unfold clearMarker identityInput
        simp only [hset, orElse, length_singleton, decide_true, ensure_true, ok_bind]
        exact ⟨_, rfl⟩
    show ∃ db commit, clearConversationIdentity sha s.db edition scopes token now = .ok (db, commit)
    unfold clearConversationIdentity identityInput
    simp only [hedition, htoken, hmarker, orElse, ok_bind, h.commitOn, hreplayed]
    exact commitClear_of_fresh h hedition htoken hmarker hfind hfindScopes hroom htime

end Abbey.Conversation
