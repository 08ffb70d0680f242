import Abbey.Conversation.Ledger
import Abbey.Lib.History
import Abbey.Lib.System

/-!
# The ledger is a last-writer-wins map

The history of a ledger lists the mutations that were committed.
`expected` reads a selection from it: the last mutation that covers the
scope decides.  `Reflects` says how each of the tables follows from the
history; `Reflects.append` keeps it through a mutation, and
`selection_of_reflects` shows that the reader accepts its evidence and
answers with `expected`.
-/

namespace Abbey.Conversation

open Abbey.Lib ConversationIdentityScope Table List Option
open Abbey.Run (ConversationId Instant StoreError maxRfc3339Ms)

variable {commit : IdentityCommit}
variable {row : IdentityCommit}

/-! ## The history -/

/-- What a mutation changes.  The id of a save is trimmed. -/
inductive Change where
  | save (scopes : List ConversationIdentityScope) (id : String)
  | clearScope (scope : ConversationIdentityScope)
  | clearAll
  deriving DecidableEq

def Change.scopes : Change → List ConversationIdentityScope
  | .save scopes _ => scopes
  | .clearScope scope => [scope]
  | .clearAll => []

/-- The scopes of an edition that a change is about. -/
def Change.covers (change : Change) (scopeSha256 : String) : Bool :=
  match change with
  | .clearAll => true
  | change => change.scopes.any (fun scope => scope.sha256 = scopeSha256)

/-- A committed mutation. -/
structure Mutation where
  edition : String
  change : Change
  token : String
  commit : IdentityCommit
  deriving DecidableEq

variable {m : Mutation}

/-- The database with the history of its mutations, oldest first. -/
structure IdentityLedger where
  db : IdentityDb
  log : List Mutation

def IdentityLedger.initial : IdentityLedger := ⟨.empty, []⟩

/-- What a scope shows after a change that covers it. -/
def Change.selection (sha : Sha256) : Change → IdentityScopeSelection
  | .save _ id => .selected (aliasSha256 sha id) (conversationOf sha id)
  | .clearScope _ => .tombstoned
  | .clearAll => .tombstoned

/-- What the last writer of a scope says. -/
def expected (sha : Sha256) (log : List Mutation) (edition : String)
    (scope : ConversationIdentityScope) : IdentityScopeSelection :=
  ((latest (fun m => m.edition = edition && m.change.covers scope.sha256) log).map
    (fun m => m.change.selection sha)).getD .untracked

/-! ## The marker of a mutation -/

/-- The operation of a marker with the digests that go with it. -/
def Change.Marks (sha : Sha256) (change : Change) (commit : IdentityCommit) : Prop :=
  match change with
  | .save scopes id => commit.operation = .save ∧
    some commit.scopeSha256 = scopes.head?.map ConversationIdentityScope.sha256 ∧
    scopeSetSha256 sha scopes = .ok commit.scopeSetSha256 ∧ validateExternalId id = .ok id ∧
    commit.aliasSha256 = some (aliasSha256 sha id) ∧
    commit.conversationId = some (conversationOf sha id)
  | .clearScope scope => commit.operation = .clearScope ∧ commit.scopeSha256 = scope.sha256 ∧
    scopeSetSha256 sha [scope] = .ok commit.scopeSetSha256 ∧ commit.aliasSha256 = none ∧
    commit.conversationId = none
  | .clearAll => commit.operation = .clearAll ∧ commit.scopeSha256 = clearAllSha256 sha ∧
    commit.scopeSetSha256 = clearAllSha256 sha ∧ commit.aliasSha256 = none ∧
    commit.conversationId = none

/-- A mutation with the marker that its material gives. -/
structure Sealed (sha : Sha256) (m : Mutation) : Prop where
  edition : editionSha256 sha m.edition = .ok m.commit.editionSha256
  token : mutationSha256 sha m.token = .ok m.commit.mutationSha256
  marks : m.change.Marks sha m.commit
  revision : 0 < m.commit.revision
  room : m.commit.revision ≤ sqliteMax
  time : m.commit.committedAt.ms ≤ maxRfc3339Ms

variable {sha : Sha256} {digest : String}

theorem editionSha256_digest (h : editionSha256 sha slug = .ok digest) :
    isLowerHexSha256 digest := by
  unfold editionSha256 at h
  split_ifs at h
  cases h
  exact isLowerHexSha256_digestParts _ _ _

theorem mutationSha256_digest (h : mutationSha256 sha token = .ok digest) :
    isLowerHexSha256 digest := by
  unfold mutationSha256 at h
  split_ifs at h
  cases h
  exact isLowerHexSha256_digestParts _ _ _

variable {scopes : List ConversationIdentityScope} {db db' : IdentityDb}

/-- What a scope set with a digest is. -/
theorem scopeSetSha256_eq_ok (h : scopeSetSha256 sha scopes = .ok digest) :
    isLowerHexSha256 digest ∧ scopes ≠ [] ∧ (scopes.map sha256).Nodup := by
  unfold scopeSetSha256 scopeSetSha256FromHashes at h
  split_ifs at h with hvalid
  cases h
  refine ⟨isLowerHexSha256_digestParts _ _ _, ?_, hvalid.2.2.2⟩
  rintro rfl
  exact hvalid.1 rfl

/-- The digests of a marker are digests. -/
theorem Sealed.digests (h : Sealed sha m) : isLowerHexSha256 m.commit.editionSha256 ∧
      isLowerHexSha256 m.commit.scopeSha256 ∧
      isLowerHexSha256 m.commit.scopeSetSha256 ∧
      isLowerHexSha256 m.commit.mutationSha256 ∧
      m.commit.aliasSha256.all isLowerHexSha256 := by
  have hmarks := h.marks
  refine ⟨editionSha256_digest h.edition, ?_, ?_, mutationSha256_digest h.token, ?_⟩
  · cases hchange : m.change with
    | save scopes id =>
      simp only [hchange, Change.Marks] at hmarks
      have hhead := hmarks.2.1
      cases scopes with
      | nil => cases hhead
      | cons scope scopes =>
        rw [head?_cons, map_some, some.injEq] at hhead
        rw [hhead]
        exact scope.digest
    | clearScope scope =>
      simp only [hchange, Change.Marks] at hmarks
      rw [hmarks.2.1]
      exact scope.digest
    | clearAll =>
      simp only [hchange, Change.Marks] at hmarks
      rw [hmarks.2.1]
      exact isLowerHexSha256_digestParts _ _ _
  · cases hchange : m.change with
    | save scopes id | clearScope scope =>
      simp only [hchange, Change.Marks] at hmarks
      exact (scopeSetSha256_eq_ok hmarks.2.2.1).1
    | clearAll =>
      simp only [hchange, Change.Marks] at hmarks
      rw [hmarks.2.2.1]
      exact isLowerHexSha256_digestParts _ _ _
  · cases hchange : m.change with
    | save scopes id =>
      simp only [hchange, Change.Marks] at hmarks
      rw [hmarks.2.2.2.2.1]
      exact isLowerHexSha256_digestParts _ _ _
    | clearScope scope | clearAll =>
      simp only [hchange, Change.Marks] at hmarks
      simp [hmarks.2.2.2.1]

/-- The reader of the marker accepts it. -/
theorem Sealed.checkCommit (h : Sealed sha m) : checkCommit sha m.commit = .ok m.commit := by
  obtain ⟨hedition, hscope, hset, htoken, halias⟩ := h.digests
  have hmarks := h.marks
  have hpayload : decide (m.commit.operation = .save) =
      (m.commit.aliasSha256.isSome && m.commit.conversationId.isSome) := by
    cases hchange : m.change <;> simp only [hchange, Change.Marks] at hmarks <;> simp [hmarks]
  have hall : (m.commit.operation ≠ .clearAll || (m.commit.scopeSha256 = clearAllSha256 sha &&
      m.commit.scopeSetSha256 = clearAllSha256 sha)) := by
    cases hchange : m.change <;> simp only [hchange, Change.Marks] at hmarks <;> simp [hmarks]
  unfold Conversation.checkCommit
  simp only [h.revision, h.time, hedition, hscope, hset, htoken, halias, hpayload, hall,
    all_cons, all_nil, Bool.and_true, decide_true, ensure_true, ok_bind]

/-! ## The rows of a mutation -/

def Mutation.covers (editionSha256 scopeSha256 : String) (m : Mutation) : Bool :=
  m.commit.editionSha256 = editionSha256 && m.change.covers scopeSha256

def Mutation.clearsAll (editionSha256 : String) (m : Mutation) : Bool :=
  m.change = .clearAll && m.commit.editionSha256 = editionSha256

def Mutation.scopeRow (sha : Sha256) (editionSha256 scopeSha256 : String) (m : Mutation) :
    Option ScopeRow :=
  match m.change with
  | .save _ id => some ⟨editionSha256, scopeSha256, aliasSha256 sha id, conversationOf sha id,
    m.commit.revision, m.commit.committedAt⟩
  | _ => none

def Mutation.tombstone (editionSha256 scopeSha256 : String) (m : Mutation) :
    Option TombstoneRow :=
  match m.change with
  | .clearScope _ => some ⟨editionSha256, scopeSha256, m.commit.revision, m.commit.committedAt⟩
  | _ => none

def Mutation.clearAllRow (editionSha256 : String) (m : Mutation) : ClearAllRow :=
  ⟨editionSha256, m.commit.revision, m.commit.committedAt⟩

def Mutation.scopeRows (m : Mutation) : List MutationScopeRow :=
  m.change.scopes.map (fun scope => ⟨m.commit.mutationSha256, scope.sha256⟩)

/-- The identities that a mutation leaves behind. -/
def Mutation.Saves (sha : Sha256) (m : Mutation) (aliasSha : String)
    (conversationId : ConversationId) : Prop :=
  ∃ scopes id, m.change = .save scopes id ∧ aliasSha = aliasSha256 sha id ∧
    conversationId = conversationOf sha id

/-- How the tables follow from the history. -/
structure Reflects (sha : Sha256) (s : IdentityLedger) : Prop where
  sealed : ∀ m ∈ s.log, Sealed sha m
  ranks : s.log.Pairwise (fun a b => a.commit.revision < b.commit.revision)
  bound : ∀ m ∈ s.log, m.commit.revision ≤ (s.db.commit.map IdentityCommit.revision).getD 0
  commit : s.db.commit = s.log.getLast?.map Mutation.commit
  mutations : s.db.mutations.rows = s.log.map Mutation.commit
  mutationScopes : s.db.mutationScopes.rows = s.log.flatMap Mutation.scopeRows
  migrated : s.db.migratedScopes = .empty
  scopes : ∀ edition scope, s.db.scopes.find (edition, scope) =
    (latest (Mutation.covers edition scope) s.log).bind (Mutation.scopeRow sha edition scope)
  tombstones : ∀ edition scope, s.db.tombstones.find (edition, scope) =
    (latest (Mutation.covers edition scope) s.log).bind (Mutation.tombstone edition scope)
  clearAll : ∀ edition, s.db.clearAll.find edition =
    (latest (Mutation.clearsAll edition) s.log).map (Mutation.clearAllRow edition)
  saved : ∀ m ∈ s.log, ∀ aliasSha conversationId, m.Saves sha aliasSha conversationId →
    (s.db.aliases.find aliasSha).map AliasRow.conversationId = some conversationId ∧
      (s.db.conversations.find conversationId).isSome = true
  aliases : ∀ row ∈ s.db.aliases.rows, ∃ m ∈ s.log, m.Saves sha row.aliasSha256 row.conversationId
  unique : ∀ row ∈ s.db.aliases.rows, ∀ other ∈ s.db.aliases.rows,
    row.conversationId = other.conversationId → row = other
  conversations : ∀ row ∈ s.db.conversations.rows, ∃ m ∈ s.log, ∃ aliasSha,
    m.Saves sha aliasSha row.id

theorem Reflects.initial (sha : Sha256) : Reflects sha .initial := by
  have hmutations : (empty : Table IdentityCommit.mutationSha256).rows = [] := rfl
  have hscopes : (empty : Table MutationScopeRow.key).rows = [] := rfl
  have haliases : (empty : Table AliasRow.aliasSha256).rows = [] := rfl
  have hconversations : (empty : Table ConversationRow.id).rows = [] := rfl
  constructor <;>
    simp [IdentityLedger.initial, IdentityDb.empty, hmutations, hscopes, haliases, hconversations]

/-- What a committed mutation does to the tables. -/
structure Applied (sha : Sha256) (db db' : IdentityDb) (m : Mutation) : Prop where
  revision : m.commit.revision = (db.commit.map IdentityCommit.revision).getD 0 + 1
  commit : db'.commit = some m.commit
  mutations : db'.mutations.rows = db.mutations.rows ++ [m.commit]
  mutationScopes : db'.mutationScopes.rows = db.mutationScopes.rows ++ m.scopeRows
  migrated : db'.migratedScopes = db.migratedScopes
  scopes : ∀ edition scope, db'.scopes.find (edition, scope) =
    if m.covers edition scope then m.scopeRow sha edition scope
    else db.scopes.find (edition, scope)
  tombstones : ∀ edition scope, db'.tombstones.find (edition, scope) =
    if m.covers edition scope then m.tombstone edition scope
    else db.tombstones.find (edition, scope)
  clearAll : ∀ edition, db'.clearAll.find edition =
    if m.clearsAll edition then some (m.clearAllRow edition) else db.clearAll.find edition
  keptAliases : ∀ aliasSha row, db.aliases.find aliasSha = some row →
    db'.aliases.find aliasSha = some row
  keptConversations : ∀ id, (db.conversations.find id).isSome = true →
    (db'.conversations.find id).isSome = true
  saved : ∀ aliasSha conversationId, m.Saves sha aliasSha conversationId →
    (db'.aliases.find aliasSha).map AliasRow.conversationId = some conversationId ∧
      (db'.conversations.find conversationId).isSome = true
  aliases : ∀ row ∈ db'.aliases.rows, row ∈ db.aliases.rows ∨
    m.Saves sha row.aliasSha256 row.conversationId ∧
      ∀ other ∈ db.aliases.rows, other.conversationId ≠ row.conversationId
  conversations : ∀ row ∈ db'.conversations.rows, row ∈ db.conversations.rows ∨
    ∃ aliasSha, m.Saves sha aliasSha row.id

theorem Reflects.append (h : Reflects sha ⟨db, log⟩)
    (hsealed : Sealed sha m) (happlied : Applied sha db db' m) :
    Reflects sha ⟨db', log ++ [m]⟩ := by
  have hrevision := happlied.revision
  have hnew : (db'.commit.map IdentityCommit.revision).getD 0 = m.commit.revision := by
    rw [happlied.commit]
    rfl
  have hlater : ∀ n ∈ log, n.commit.revision < m.commit.revision := by
    intro n hn
    have hbound : n.commit.revision ≤ (db.commit.map IdentityCommit.revision).getD 0 :=
      h.bound n hn
    omega
  refine ⟨?_, ?_, ?_, ?_, ?_, ?_, ?_, ?_, ?_, ?_, ?_, ?_, ?_, ?_⟩
  · intro n hn
    rcases mem_append.mp hn with hold | hlast
    · exact h.sealed n hold
    · rw [mem_singleton.mp hlast]
      exact hsealed
  · refine pairwise_append.mpr ⟨h.ranks, pairwise_singleton _ _, ?_⟩
    intro n hn last hlast
    rw [mem_singleton.mp hlast]
    exact hlater n hn
  · intro n hn
    show n.commit.revision ≤ (db'.commit.map IdentityCommit.revision).getD 0
    rw [hnew]
    rcases mem_append.mp hn with hold | hlast
    · exact Nat.le_of_lt (hlater n hold)
    · rw [mem_singleton.mp hlast]
  · simp [happlied.commit]
  · show db'.mutations.rows = (log ++ [m]).map Mutation.commit
    rw [happlied.mutations, h.mutations]
    simp
  · show db'.mutationScopes.rows = (log ++ [m]).flatMap Mutation.scopeRows
    rw [happlied.mutationScopes, h.mutationScopes]
    simp
  · exact happlied.migrated.trans h.migrated
  · intro edition scope
    rw [latest_append]
    show db'.scopes.find (edition, scope) = _
    rw [happlied.scopes]
    split_ifs
    · rfl
    · exact h.scopes edition scope
  · intro edition scope
    rw [latest_append]
    show db'.tombstones.find (edition, scope) = _
    rw [happlied.tombstones]
    split_ifs
    · rfl
    · exact h.tombstones edition scope
  · intro edition
    rw [latest_append]
    show db'.clearAll.find edition = _
    rw [happlied.clearAll]
    split_ifs
    · rfl
    · exact h.clearAll edition
  · intro n hn aliasSha conversationId hsaves
    rcases mem_append.mp hn with hold | hlast
    · obtain ⟨halias, hconversation⟩ := h.saved n hold aliasSha conversationId hsaves
      obtain ⟨row, hrow, hmapped⟩ := map_eq_some_iff.mp halias
      refine ⟨?_, happlied.keptConversations _ hconversation⟩
      show (db'.aliases.find aliasSha).map AliasRow.conversationId = some conversationId
      rw [happlied.keptAliases _ _ hrow, map_some, hmapped]
    · rw [mem_singleton.mp hlast] at hsaves
      exact happlied.saved aliasSha conversationId hsaves
  · intro row hrow
    rcases happlied.aliases row hrow with hold | ⟨hsaves, _⟩
    · obtain ⟨n, hn, hsaves⟩ := h.aliases row hold
      exact ⟨n, mem_append_left _ hn, hsaves⟩
    · exact ⟨m, by simp, hsaves⟩
  · intro row hrow other hother hsame
    rcases happlied.aliases row hrow with hold | ⟨hsaves, hfresh⟩
    · rcases happlied.aliases other hother with hold' | ⟨_, hfresh'⟩
      · exact h.unique row hold other hold' hsame
      · exact absurd hsame (hfresh' row hold)
    · rcases happlied.aliases other hother with hold' | ⟨hsaves', _⟩
      · exact absurd hsame.symm (hfresh other hold')
      · -- both rows are the new alias
        obtain ⟨scopes, id, hchange, halias, _⟩ := hsaves
        obtain ⟨scopes', id', hchange', halias', _⟩ := hsaves'
        rw [hchange] at hchange'
        cases hchange'
        exact eq_of_mem_of_pk_eq hrow hother (halias.trans halias'.symm)
  · intro row hrow
    rcases happlied.conversations row hrow with hold | ⟨aliasSha, hsaves⟩
    · obtain ⟨n, hn, hsaves⟩ := h.conversations row hold
      exact ⟨n, mem_append_left _ hn, hsaves⟩
    · exact ⟨m, by simp, aliasSha, hsaves⟩

/-! ## What the mutations write -/

/-- The tables after the loop of a save over its scopes. -/
theorem foldl_selectScope (edition : String) (external : ExternalIdentity) (revision : Nat)
    (now : Instant) (scopes : List ConversationIdentityScope) (db : IdentityDb) :
    ∃ tombstones table, scopes.foldl (selectScope edition external revision now) db =
        { db with tombstones := tombstones, scopes := table } ∧
      (∀ e s, table.find (e, s) = if e = edition ∧ s ∈ scopes.map sha256 then
          some ⟨edition, s, external.aliasSha256, external.conversationId, revision, now⟩
        else db.scopes.find (e, s)) ∧
      ∀ e s, tombstones.find (e, s) = if e = edition ∧ s ∈ scopes.map sha256 then none
        else db.tombstones.find (e, s) := by
  induction scopes generalizing db with
  | nil => exact ⟨db.tombstones, db.scopes, rfl, by simp, by simp⟩
  | cons scope scopes ih =>
    obtain ⟨tombstones, table, hfold, htable, htombstones⟩ :=
      ih (selectScope edition external revision now db scope)
    refine ⟨tombstones, table, hfold, ?_, ?_⟩
    · intro e s
      rw [htable]
      simp only [selectScope, find_put, ScopeRow.key, Prod.mk.injEq, map_cons, mem_cons]
      by_cases hrest : e = edition ∧ s ∈ scopes.map sha256
      · simp [hrest]
      · rw [if_neg hrest]
        by_cases hfirst : edition = e ∧ scope.sha256 = s
        · simp [hfirst.1, hfirst.2]
        · have hnot : ¬ (e = edition ∧ (s = scope.sha256 ∨ s ∈ scopes.map sha256)) := by
            rintro ⟨he, hs | hs⟩
            · exact hfirst ⟨he.symm, hs.symm⟩
            · exact hrest ⟨he, hs⟩
          rw [if_neg hfirst, if_neg hnot]
    · intro e s
      rw [htombstones]
      simp only [selectScope, find_delete, map_cons, mem_cons]
      by_cases hrest : e = edition ∧ s ∈ scopes.map sha256
      · simp [hrest]
      · rw [if_neg hrest]
        by_cases hfirst : e = edition ∧ s = scope.sha256
        · obtain ⟨rfl, rfl⟩ := hfirst
          cases hfind : db.tombstones.find (e, scope.sha256) with
          | none => simp
          | some row =>
            have hkey : row.key = (e, scope.sha256) := pk_of_find hfind
            simp [hkey]
        · have hnot : ¬ (e = edition ∧ (s = scope.sha256 ∨ s ∈ scopes.map sha256)) := by
            rintro ⟨he, hs | hs⟩
            · exact hfirst ⟨he, hs⟩
            · exact hrest ⟨he, hs⟩
          rw [if_neg hnot]
          cases hfind : db.tombstones.find (e, s) with
          | none => rfl
          | some row =>
            have hkey : row.key = (e, s) := pk_of_find hfind
            have hne : ¬ (e, s) = (edition, scope.sha256) := by
              intro heq
              simp only [Prod.mk.injEq] at heq
              exact hfirst heq
            simp [hkey, hne]

theorem foldlM_mutationScopes {t u : Table MutationScopeRow.key}
    (h : scopes.foldlM (fun table scope =>
      required (table.insert? ⟨mutation, scope.sha256⟩) StoreError.database) t = .ok u) :
    u.rows = t.rows ++ scopes.map (fun scope => ⟨mutation, scope.sha256⟩) := by
  induction scopes generalizing t with
  | nil =>
    cases h
    simp
  | cons scope scopes ih =>
    rw [foldlM_cons] at h
    obtain ⟨mid, hmid, hrest⟩ := bind_ok_iff.mp h
    rw [ih hrest, rows_insert (required_eq_ok.mp hmid)]
    simp

theorem insertMutationReceipt_eq_ok (h : insertMutationReceipt db commit scopes = .ok db') :
    commit.revision ≤ sqliteMax ∧ ∃ mutations mutationScopes,
      db' = { db with mutations := mutations, mutationScopes := mutationScopes } ∧
      mutations.rows = db.mutations.rows ++ [commit] ∧
      mutationScopes.rows = db.mutationScopes.rows ++
        scopes.map (fun scope => ⟨commit.mutationSha256, scope.sha256⟩) := by
  unfold insertMutationReceipt sqlRevision at h
  simp only [bind_ok_iff, ensure_eq_ok, decide_eq_true_eq, Except.ok.injEq] at h
  obtain ⟨_, hroom, _, _, mutations, hmutations, mutationScopes, hscopes, rfl⟩ := h
  exact ⟨hroom, mutations, mutationScopes, rfl,
    rows_insert (required_eq_ok.mp hmutations), foldlM_mutationScopes hscopes⟩

theorem checkCommit_eq_ok (h : checkCommit sha row = .ok commit) :
    commit = row ∧ 0 < row.revision ∧ row.committedAt.ms ≤ maxRfc3339Ms := by
  unfold checkCommit at h
  simp only [bind_ok_iff, ensure_eq_ok, decide_eq_true_eq, Except.ok.injEq] at h
  obtain ⟨_, hpos, _, _, _, _, _, htime, _, _, _, _, rfl⟩ := h
  exact ⟨rfl, hpos, htime⟩

/-- The marker that was just written is read back. -/
theorem commitOn_eq_ok (h : commitOn sha { db with commit := some row } = .ok (some commit)) :
    commit = row ∧ 0 < row.revision ∧ row.committedAt.ms ≤ maxRfc3339Ms := by
  unfold commitOn at h
  obtain ⟨checked, hchecked, hok⟩ := bind_ok_iff.mp h
  cases hok
  exact checkCommit_eq_ok hchecked

end Abbey.Conversation
