import Abbey.Conversation.Commit
import Abbey.Conversation.Names
import Abbey.Conversation.Selection
import Mathlib.Data.List.DropRight

/-!
# Calls of the ledger

A call is a save or a clear with its material.  One that fails leaves the
database as it was, and a reopen reads the committed database again.  The
history records what the successful calls did; a call that repeats the
last entry adds nothing.  `run_cases` says what a successful call can do.
-/

namespace Abbey.Conversation

open Abbey.Lib Except List Option
open Abbey.Run (ConversationId Instant StoreError maxRfc3339Ms isWhitespace)

/-! ## Calls -/

inductive IdentityRequest where
  | save (scopes : List ConversationIdentityScope) (externalId : String)
  | clear (scopes : Option (List ConversationIdentityScope))

structure IdentityCall where
  edition : String
  request : IdentityRequest
  token : String
  now : Instant

def IdentityCall.run (sha : Sha256) (call : IdentityCall) (db : IdentityDb) :
    Except StoreError (IdentityDb × IdentityCommit) :=
  match call.request with
  | .save scopes externalId =>
    saveConversationIdentity sha db call.edition scopes externalId call.token call.now
  | .clear scopes => clearConversationIdentity sha db call.edition scopes call.token call.now

def IdentityRequest.change : IdentityRequest → Change
  | .save scopes externalId => .save scopes (trim externalId)
  | .clear scopes => clearChange scopes

def IdentityCall.mutation (call : IdentityCall) (commit : IdentityCommit) : Mutation :=
  ⟨call.edition, call.request.change, call.token, commit⟩

/-- The scope sets that a call may have. -/
def IdentityRequest.Proper : IdentityRequest → Prop
  | .save _ _ => True
  | .clear scopes => ∀ list, scopes = some list → list.length = 1

/-- The call has the material of a mutation. -/
def IdentityCall.Describes (call : IdentityCall) (m : Mutation) : Prop :=
  call.edition = m.edition ∧ call.request.change = m.change ∧ call.request.Proper ∧
    call.token = m.token

/-- Append an entry that does not repeat the last one. -/
def record (log : List Mutation) (m : Mutation) : List Mutation :=
  if log.getLast? = some m then log else log ++ [m]

inductive IdentityStep where
  | mutate (call : IdentityCall)
  | reopen

def IdentityLedger.step (sha : Sha256) (s : IdentityLedger) : IdentityStep → IdentityLedger
  | .mutate call => match call.run sha s.db with
    | .ok (db, commit) => ⟨db, record s.log (call.mutation commit)⟩
    | .error _ => s
  | .reopen => s

/-- The names of a call. -/
structure IdentityCall.Within (call : IdentityCall) (names : Names) : Prop where
  edition : call.edition ∈ names.editions
  token : call.token ∈ names.tokens
  ids : ∀ scopes externalId, call.request = .save scopes externalId → trim externalId ∈ names.ids
  scopeSets : ∀ scopes, call.request = .clear (some scopes) ∨
    (∃ externalId, call.request = .save scopes externalId) → scopes ∈ names.scopeSets

def IdentityStep.Within : IdentityStep → Names → Prop
  | .mutate call, names => call.Within names
  | .reopen, _ => True

/-- The names of an entry of the history. -/
structure Mutation.Within (m : Mutation) (names : Names) : Prop where
  edition : m.edition ∈ names.editions
  token : m.token ∈ names.tokens
  ids : ∀ scopes id, m.change = .save scopes id → id ∈ names.ids
  scopeSets : ∀ scopes, m.change.scopes = scopes → scopes ≠ [] → scopes ∈ names.scopeSets

/-! ## Trimmed ids -/

theorem validateExternalId_eq_ok {value id : String} (h : validateExternalId value = .ok id) :
    id = trim value ∧ validateExternalId id = .ok id := by
  unfold validateExternalId at h
  split_ifs at h with hplain
  cases h
  refine ⟨rfl, ?_⟩
  unfold validateExternalId
  rw [trim_trim, if_pos hplain]

/-! ## What a call does -/

section Calls

variable {sha : Sha256} {names : Names} {s : IdentityLedger} {call : IdentityCall} {m : Mutation}
variable {mutationSha : String}
variable {commit : IdentityCommit} {db db' : IdentityDb}

/-- The marker of the ledger is read back. -/
theorem Reflects.commitOn (h : Reflects sha s) : commitOn sha s.db = .ok s.db.commit := by
  unfold Conversation.commitOn
  rw [h.commit]
  cases hlast : s.log.getLast? with
  | none => rfl
  | some m =>
    have hsealed := h.sealed m (mem_of_getLast? hlast)
    simp [hsealed.checkCommit]

theorem replayed_eq_some (h : replayed existing mutationSha = some commit) :
    existing = some commit ∧ commit.mutationSha256 = mutationSha := by
  unfold replayed at h
  rw [filter_eq_some_iff] at h
  simpa using h

/-- A call under the token of the last entry finds it. -/
theorem Reflects.replayed (h : Reflects sha s)
    (hreplayed : replayed s.db.commit mutationSha = some commit) :
    ∃ m, s.log.getLast? = some m ∧ m.commit = commit ∧ Sealed sha m ∧
      commit.mutationSha256 = mutationSha := by
  obtain ⟨hcommit, hsame⟩ := replayed_eq_some hreplayed
  rw [h.commit] at hcommit
  obtain ⟨m, hlast, rfl⟩ := map_eq_some_iff.mp hcommit
  exact ⟨m, hlast, rfl, h.sealed m (mem_of_getLast? hlast), hsame⟩

theorem externalIdentity_eq_ok (h : externalIdentity sha value = .ok external) :
    external = ⟨aliasSha256 sha (trim value), conversationOf sha (trim value)⟩ ∧
      validateExternalId (trim value) = .ok (trim value) := by
  unfold externalIdentity at h
  obtain ⟨id, hid, hexternal⟩ := bind_ok_iff.mp h
  obtain ⟨rfl, hvalid⟩ := validateExternalId_eq_ok hid
  exact ⟨(ok.inj hexternal).symm, hvalid⟩

/-- A save that replays the last entry has its material. -/
theorem replaySave_eq_ok (hfree : CollisionFree sha names) (hsealed : Sealed sha m)
    (hm : m.Within names) {editionSha scopeSetSha id : String}
    (hset : scopeSetSha256 sha scopes = .ok scopeSetSha)
    (hscopes : scopes ∈ names.scopeSets) (hid : id ∈ names.ids)
    (h : replaySave db m.commit editionSha scopes ⟨aliasSha256 sha id,
      conversationOf sha id⟩ scopeSetSha = .ok (db', commit)) :
    db' = db ∧ commit = m.commit ∧ m.commit.editionSha256 = editionSha ∧
      m.change = .save scopes id := by
  unfold replaySave at h
  simp only [bind_ok_iff, ensure_eq_ok, Bool.and_eq_true, decide_eq_true_eq, ok.injEq,
    Prod.mk.injEq] at h
  obtain ⟨_, ⟨⟨⟨⟨hedition, _⟩, hsameSet⟩, halias⟩, _⟩, _, _, _, _, _, _, rfl, rfl⟩ := h
  refine ⟨rfl, rfl, hedition, ?_⟩
  have hmarks := hsealed.marks
  cases hchange : m.change with
  | save scopes' id' =>
    rw [hchange] at hmarks
    obtain ⟨_, _, hset', _, halias', _⟩ := hmarks
    rw [halias, some.injEq] at halias'
    rw [hsameSet] at hset'
    have hnonempty : scopes' ≠ [] := (scopeSetSha256_eq_ok hset').2.1
    have hscopes' : scopes' ∈ names.scopeSets := hm.scopeSets scopes' (by rw [hchange]; rfl) hnonempty
    rw [scopes_eq_of_digest_eq hfree hscopes' hscopes hset' hset,
      id_eq_of_alias_eq hfree hid (hm.ids scopes' id' hchange) halias']
  | clearScope scope | clearAll =>
    rw [hchange] at hmarks
    rw [hmarks.2.2.2.1] at halias
    cases halias

/-- A clear that replays the last entry has its material. -/
theorem replayClear_eq_ok (hfree : CollisionFree sha names) (hsealed : Sealed sha m)
    (hm : m.Within names) (hedition : editionSha256 sha edition = .ok editionSha)
    (hmarker : clearMarker sha scopes = .ok marker)
    (hscopes : ∀ list, scopes = some list → list ∈ names.scopeSets)
    (h : replayClear sha db m.commit edition editionSha scopes token = .ok (db', commit)) :
    db' = db ∧ commit = m.commit ∧ m.commit.editionSha256 = editionSha ∧
      m.change = clearChange scopes := by
  unfold replayClear at h
  simp only [bind_ok_iff, ensure_eq_ok, ok.injEq, Prod.mk.injEq] at h
  obtain ⟨_, hmatches, _, _, _, _, rfl, rfl⟩ := h
  refine ⟨rfl, rfl, ?_⟩
  have hmarks := hsealed.marks
  rcases clearMarker_eq_ok hmarker with ⟨scope, scopeSetSha, rfl, rfl, hset⟩ | ⟨rfl, rfl⟩
  · have hmatches' : m.commit.matchesClearScopes sha edition [scope] token := hmatches
    unfold IdentityCommit.matchesClearScopes at hmatches'
    rw [hedition, hset] at hmatches'
    split at hmatches'
    · rename_i hedition' _ hset'
      cases hedition'
      cases hset'
      simp only [Bool.and_eq_true, decide_eq_true_eq] at hmatches'
      obtain ⟨⟨⟨⟨⟨⟨hoperation, hsame⟩, _⟩, hsameSet⟩, _⟩, _⟩, _⟩ := hmatches'
      refine ⟨hsame, ?_⟩
      show m.change = .clearScope scope
      cases hchange : m.change with
      | save scopes' id' =>
        rw [hchange] at hmarks
        have hsave := hmarks.1
        rw [hoperation] at hsave
        cases hsave
      | clearScope scope' =>
        rw [hchange] at hmarks
        have hset' := hmarks.2.2.1
        rw [hsameSet] at hset'
        have hscope' : [scope'] ∈ names.scopeSets :=
          hm.scopeSets [scope'] (by rw [hchange]; rfl) (by simp)
        have heq := scopes_eq_of_digest_eq hfree hscope' (hscopes [scope] rfl) hset' hset
        cases heq
        rfl
      | clearAll =>
        rw [hchange] at hmarks
        have hall := hmarks.1
        rw [hoperation] at hall
        cases hall
    · cases hmatches'
  · have hmatches' : m.commit.matchesClearAll sha edition token := hmatches
    unfold IdentityCommit.matchesClearAll at hmatches'
    rw [hedition] at hmatches'
    split at hmatches'
    · rename_i hedition' _
      cases hedition'
      simp only [Bool.and_eq_true, decide_eq_true_eq] at hmatches'
      obtain ⟨⟨⟨⟨⟨⟨hoperation, hsame⟩, _⟩, _⟩, _⟩, _⟩, _⟩ := hmatches'
      refine ⟨hsame, ?_⟩
      show m.change = .clearAll
      cases hchange : m.change with
      | save scopes' id' =>
        rw [hchange] at hmarks
        have hsave := hmarks.1
        rw [hoperation] at hsave
        cases hsave
      | clearScope scope' =>
        rw [hchange] at hmarks
        have hscope := hmarks.1
        rw [hoperation] at hscope
        cases hscope
      | clearAll => rfl
    · cases hmatches'

/-- What a successful call does: it repeats the last entry, or it commits a
new one under a fresh token. -/
theorem run_cases (hfree : CollisionFree sha names) (h : Reflects sha s)
    (hnames : ∀ m ∈ s.log, m.Within names) (hcall : call.Within names)
    (hrun : call.run sha s.db = .ok (db', commit)) : call.request.Proper ∧
    ((db' = s.db ∧ s.log.getLast? = some (call.mutation commit)) ∨
      Sealed sha (call.mutation commit) ∧ Applied sha s.db db' (call.mutation commit) ∧
        ∀ m ∈ s.log, m.token ≠ call.token) := by
  obtain ⟨edition, request, token, now⟩ := call
  -- a free token is not one of the history
  have hfresh : ∀ mutationSha, mutationSha256 sha token = .ok mutationSha →
      s.db.mutations.find mutationSha = none → ∀ m ∈ s.log, m.token ≠ token := by
    intro mutationSha htoken hfind m hm hsame
    have hdigest := (h.sealed m hm).token
    rw [hsame, htoken, ok.injEq] at hdigest
    have hrow : m.commit ∈ s.db.mutations.rows := by
      rw [h.mutations]
      exact mem_map.mpr ⟨m, hm, rfl⟩
    exact Table.find_eq_none_iff.mp hfind m.commit hrow hdigest.symm
  -- the last entry under the token and the edition of the call
  have hlastEq : ∀ m change, s.log.getLast? = some m → m.change = change →
      ∀ editionSha mutationSha, editionSha256 sha edition = .ok editionSha →
        mutationSha256 sha token = .ok mutationSha → m.commit.editionSha256 = editionSha →
        m.commit.mutationSha256 = mutationSha → m = ⟨edition, change, token, m.commit⟩ := by
    intro m change hlast hchange editionSha mutationSha hedition htoken hsameEdition hsameToken
    have hmem := mem_of_getLast? hlast
    have hsealed := h.sealed m hmem
    have hname := hnames m hmem
    have hedition' := hsealed.edition
    have htoken' := hsealed.token
    rw [hsameEdition] at hedition'
    rw [hsameToken] at htoken'
    have heditions := edition_eq_of_digest_eq hfree hname.edition hcall.edition hedition' hedition
    have htokens := token_eq_of_digest_eq hfree hname.token hcall.token htoken' htoken
    cases m
    cases hchange
    cases heditions
    cases htokens
    rfl
  cases request with
  | save scopes externalId =>
    refine ⟨trivial, ?_⟩
    have hsave : saveConversationIdentity sha s.db edition scopes externalId token now =
      .ok (db', commit) := hrun
    unfold saveConversationIdentity identityInput at hsave
    simp only [bind_ok_iff, orElse_eq_ok, h.commitOn, ok.injEq] at hsave
    obtain ⟨editionSha, hedition, external, hexternal, mutationSha, htoken, scopeSetSha, hset, _, rfl,
      hmatch⟩ := hsave
    obtain ⟨rfl, hid⟩ := externalIdentity_eq_ok hexternal
    have hscopes := hcall.scopeSets scopes (.inr ⟨externalId, rfl⟩)
    have hidName := hcall.ids scopes externalId rfl
    cases hreplayed : replayed s.db.commit mutationSha with
    | some existing =>
      rw [hreplayed] at hmatch
      obtain ⟨m, hlast, rfl, hsealed, hsameToken⟩ := h.replayed hreplayed
      obtain ⟨rfl, rfl, hsameEdition, hchange⟩ := replaySave_eq_ok hfree hsealed
        (hnames m (mem_of_getLast? hlast)) hset hscopes hidName hmatch
      refine .inl ⟨rfl, ?_⟩
      rw [hlast]
      exact congrArg some
        (hlastEq m _ hlast hchange editionSha mutationSha hedition htoken hsameEdition hsameToken)
    | none =>
      rw [hreplayed] at hmatch
      obtain ⟨hfree', hsealed, happlied⟩ := commitSave_applied hedition htoken hset hid hmatch
      exact .inr ⟨hsealed, happlied, hfresh mutationSha htoken hfree'⟩
  | clear scopes =>
    have hclear : clearConversationIdentity sha s.db edition scopes token now =
      .ok (db', commit) := hrun
    unfold clearConversationIdentity identityInput at hclear
    simp only [bind_ok_iff, orElse_eq_ok, h.commitOn, ok.injEq] at hclear
    obtain ⟨editionSha, hedition, mutationSha, htoken, marker, hmarker, _, rfl, hmatch⟩ := hclear
    have hscopes : ∀ list, scopes = some list → list ∈ names.scopeSets := by
      rintro list rfl
      exact hcall.scopeSets list (.inl rfl)
    refine ⟨?_, ?_⟩
    · rcases clearMarker_eq_ok hmarker with ⟨scope, _, rfl, _⟩ | ⟨rfl, _⟩
      · rintro list hlist
        cases hlist
        rfl
      · rintro list hlist
        cases hlist
    cases hreplayed : replayed s.db.commit mutationSha with
    | some existing =>
      rw [hreplayed] at hmatch
      obtain ⟨m, hlast, rfl, hsealed, hsameToken⟩ := h.replayed hreplayed
      obtain ⟨rfl, rfl, hsameEdition, hchange⟩ := replayClear_eq_ok hfree hsealed
        (hnames m (mem_of_getLast? hlast)) hedition hmarker hscopes hmatch
      refine .inl ⟨rfl, ?_⟩
      rw [hlast]
      exact congrArg some
        (hlastEq m _ hlast hchange editionSha mutationSha hedition htoken hsameEdition hsameToken)
    | none =>
      rw [hreplayed] at hmatch
      obtain ⟨hfree', hsealed, happlied⟩ := commitClear_applied hedition htoken hmarker hmatch
      exact .inr ⟨hsealed, happlied, hfresh mutationSha htoken hfree'⟩

end Calls

end Abbey.Conversation
