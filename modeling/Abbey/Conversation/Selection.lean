import Abbey.Conversation.Refinement

/-!
# The reader accepts the evidence

`identity_scope_selection` reads the selection, the two kinds of clear
effect and the latest receipt of each operation, and checks them against
each other.  Over a ledger that reflects its history each of these values
is the latest mutation of a kind, and the checks compare their revisions.
-/

namespace Abbey.Conversation

open Abbey.Lib Mutation List ConversationIdentityScope
open Abbey.Run (ConversationId Instant StoreError maxRfc3339Ms)

variable {sha : Sha256}
variable {p : IdentityCommit → Bool} {scopes : List ConversationIdentityScope} {id : String}
  {s : IdentityLedger} {a b : Option Nat}

/-! ## Receipts -/

section Receipts

variable {s : IdentityLedger} {m : Mutation}

theorem Reflects.digests_nodup (h : Reflects sha s) :
    (s.log.map (fun m => m.commit.mutationSha256)).Nodup := by
  have hnodup := s.db.mutations.nodup
  rw [h.mutations, map_map] at hnodup
  exact hnodup

theorem filter_flatMap_scopeRows {log : List Mutation}
    (hnodup : (log.map (fun m => m.commit.mutationSha256)).Nodup) (hm : m ∈ log) :
    (log.flatMap scopeRows).filter
      (fun row => row.mutationSha256 = m.commit.mutationSha256) = m.scopeRows := by
  have hown : ∀ n : Mutation, n.commit.mutationSha256 = m.commit.mutationSha256 →
      n.scopeRows.filter (fun row => row.mutationSha256 = m.commit.mutationSha256) =
        n.scopeRows := by
    intro n hn
    rw [filter_eq_self]
    intro row hrow
    obtain ⟨scope, _, rfl⟩ := mem_map.mp hrow
    simpa using hn
  have hother : ∀ n : Mutation, n.commit.mutationSha256 ≠ m.commit.mutationSha256 →
      n.scopeRows.filter (fun row => row.mutationSha256 = m.commit.mutationSha256) = [] := by
    intro n hn
    rw [filter_eq_nil_iff]
    intro row hrow
    obtain ⟨scope, _, rfl⟩ := mem_map.mp hrow
    simpa using hn
  induction log with
  | nil => exact absurd hm not_mem_nil
  | cons n log ih =>
    rw [map_cons, nodup_cons] at hnodup
    rw [flatMap_cons, filter_append]
    rcases mem_cons.mp hm with rfl | hrest
    · have hnil : (log.flatMap scopeRows).filter
          (fun row => row.mutationSha256 = m.commit.mutationSha256) = [] := by
        rw [filter_flatMap, flatMap_eq_nil_iff]
        intro n hn
        refine hother n (fun heq => hnodup.1 ?_)
        exact mem_map.mpr ⟨n, hn, heq⟩
      rw [hown m rfl, hnil, append_nil]
    · have hne : n.commit.mutationSha256 ≠ m.commit.mutationSha256 := by
        intro heq
        exact hnodup.1 (mem_map.mpr ⟨m, hrest, heq.symm⟩)
      rw [hother n hne, nil_append, ih hnodup.2 hrest]

section

variable (h : Reflects sha s) (hm : m ∈ s.log)

include h hm

/-- The stored scopes of a receipt are those of its mutation. -/
theorem Reflects.receiptScopes : receiptScopes s.db m.commit.mutationSha256 =
      m.change.scopes.map sha256 := by
  unfold Conversation.receiptScopes
  rw [h.mutationScopes, filter_flatMap_scopeRows h.digests_nodup hm, scopeRows, map_map]
  rfl

theorem Reflects.hasScope (scopeSha : String) : hasScope s.db m.commit.mutationSha256 scopeSha =
      m.change.scopes.any (fun scope => scope.sha256 = scopeSha) := by
  have hrows : Conversation.hasScope s.db m.commit.mutationSha256 scopeSha ↔
      scopeSha ∈ Conversation.receiptScopes s.db m.commit.mutationSha256 := by
    unfold Conversation.hasScope Conversation.receiptScopes
    simp only [Option.isSome_iff_exists, mem_map, mem_filter, decide_eq_true_eq]
    constructor
    · rintro ⟨row, hrow⟩
      obtain ⟨hmem, hkey⟩ := Table.find_eq_some_iff.mp hrow
      rw [MutationScopeRow.key, Prod.mk.injEq] at hkey
      exact ⟨row, ⟨hmem, hkey.1⟩, hkey.2⟩
    · rintro ⟨row, ⟨hmem, hmutation⟩, hscope⟩
      refine ⟨row, Table.find_eq_some_iff.mpr ⟨hmem, ?_⟩⟩
      rw [MutationScopeRow.key, hmutation, hscope]
  rw [Bool.eq_iff_iff, hrows, h.receiptScopes hm]
  simp

theorem Reflects.alias_mapping (hchange : m.change = .save scopes id) :
    validateAliasMapping s.db (aliasSha256 sha id) (conversationOf sha id) = .ok () := by
  obtain ⟨halias, hconversation⟩ := h.saved m hm _ _ ⟨scopes, id, hchange, rfl, rfl⟩
  obtain ⟨row, hrow, hsame⟩ := Option.map_eq_some_iff.mp halias
  unfold validateAliasMapping
  simp [hrow, hsame, hconversation]

/-- The checks of the receipt of a save pass. -/
theorem Reflects.validateSaveReceipt (hchange : m.change = .save scopes id) :
    validateSaveReceipt sha s.db m.commit (scopes.map sha256) =
      .ok () := by
  have hmarks := (h.sealed m hm).marks
  rw [hchange] at hmarks
  obtain ⟨_, hhead, hset, _, halias, hconversation⟩ := hmarks
  have hmigrated : s.db.migratedScopes.rows = [] := by
    rw [h.migrated]
    rfl
  have hdigest : isLowerHexSha256 (aliasSha256 sha id) :=
    isLowerHexSha256_digestParts _ _ _
  have hset' : scopeSetSha256FromHashes sha (scopes.map sha256) =
    .ok m.commit.scopeSetSha256 := hset
  unfold Conversation.validateSaveReceipt validateMigratedSaveReceipt validateScopeDigest
  simp only [halias, hconversation, hdigest, h.alias_mapping hm hchange, hmigrated,
    filter_nil, if_true, head?_map, ← hhead, hset', orElse, decide_true, ensure_true,
    ok_bind, Bool.false_eq_true, if_false]

/-- The checks of a receipt pass. -/
theorem Reflects.validateMutationReceipt (hedition : m.commit.editionSha256 = editionSha) :
    validateMutationReceipt sha s.db editionSha m.commit = .ok () := by
  have hsealed := h.sealed m hm
  have hmarks := hsealed.marks
  obtain ⟨hdigest, hscope, hset, htoken, _⟩ := hsealed.digests
  rw [hedition] at hdigest
  unfold Conversation.validateMutationReceipt validateRevision validateCanonicalTimestamp
  simp only [hsealed.revision, hdigest, hscope, hset, htoken, hedition, hsealed.time,
    h.receiptScopes hm, all_cons, all_nil, Bool.and_true, decide_true, ensure_true, ok_bind]
  cases hchange : m.change with
  | save scopes id =>
    rw [hchange] at hmarks
    rw [hmarks.1]
    exact h.validateSaveReceipt hm hchange
  | clearScope scope =>
    rw [hchange] at hmarks
    obtain ⟨hoperation, hscope, hset, halias, hconversation⟩ := hmarks
    have hset' : scopeSetSha256FromHashes sha [scope.sha256] = .ok m.commit.scopeSetSha256 := hset
    simp only [hoperation, hscope, halias, hconversation, Change.scopes, validateScopeDigest,
      map_cons, map_nil, hset', orElse, Option.isNone_none, Bool.and_self, decide_true,
      ensure_true, ok_bind]
  | clearAll =>
    rw [hchange] at hmarks
    obtain ⟨hoperation, hscope, hset, halias, hconversation⟩ := hmarks
    simp only [hoperation, hscope, hset, halias, hconversation, Change.scopes, map_nil,
      Option.isNone_none, Bool.and_self, decide_true, ensure_true]

end

/-! ## The latest receipts -/

/-- The saves to a scope. -/
def Mutation.saves (editionSha scopeSha : String) (m : Mutation) : Bool :=
  m.commit.operation = .save && m.covers editionSha scopeSha

/-- The clears of one scope. -/
def Mutation.clearsScope (editionSha scopeSha : String) (m : Mutation) : Bool :=
  m.commit.operation = .clearScope && m.covers editionSha scopeSha

theorem Reflects.latestReceipt (h : Reflects sha s) (hpq : ∀ m ∈ s.log, p m.commit = q m) :
    latestReceipt s.db p = (latest q s.log).map Mutation.commit := by
  unfold Conversation.latestReceipt
  rw [h.mutations]
  exact argmax_map_eq_latest h.ranks hpq

theorem Reflects.isScopeClearReceipt (h : Reflects sha s) (hm : m ∈ s.log)
    (editionSha scopeSha : String) :
    isScopeClearReceipt s.db editionSha scopeSha m.commit = m.clearsScope editionSha scopeSha := by
  have hmarks := (h.sealed m hm).marks
  unfold Conversation.isScopeClearReceipt clearsScope covers
  rw [h.hasScope hm]
  cases hchange : m.change with
  | save scopes id | clearAll =>
    rw [hchange] at hmarks
    simp [hmarks.1]
  | clearScope scope =>
    rw [hchange] at hmarks
    simp [hmarks.1, hmarks.2.1, Change.covers, Change.scopes]

theorem Reflects.isAllClearReceipt (h : Reflects sha s) (hm : m ∈ s.log) (editionSha : String) :
    isAllClearReceipt editionSha m.commit = m.clearsAll editionSha := by
  have hmarks := (h.sealed m hm).marks
  unfold Conversation.isAllClearReceipt clearsAll
  cases hchange : m.change with
  | save scopes id | clearScope scope | clearAll =>
    rw [hchange] at hmarks
    simp [hmarks.1]

theorem Reflects.isSaveReceipt (h : Reflects sha s) (hm : m ∈ s.log)
    (editionSha scopeSha : String) :
    isSaveReceipt s.db editionSha scopeSha m.commit = m.saves editionSha scopeSha := by
  have hmarks := (h.sealed m hm).marks
  unfold Conversation.isSaveReceipt saves covers
  rw [h.hasScope hm, h.migrated]
  cases hchange : m.change with
  | save scopes id =>
    rw [hchange] at hmarks
    simp [hmarks.1, Change.covers, Change.scopes]
  | clearScope scope | clearAll =>
    rw [hchange] at hmarks
    simp [hmarks.1]

end Receipts

/-! ## The selection -/

theorem toList_forM {α : Type} {o : Option α} {f : α → Except StoreError Unit}
    (h : ∀ a, o = some a → f a = .ok ()) : o.toList.forM f = .ok () := by
  rw [forM_eq_ok]
  intro a ha
  exact h a (Option.mem_toList.mp ha)

theorem latestRevision_none_left (b : Option Nat) : latestRevision none b = b := rfl

theorem latestRevision_none_right (a : Option Nat) : latestRevision a none = a := by
  cases a <;> rfl

theorem latestRevision_lt (ha : ∀ x, a = some x → x < n)
    (hb : ∀ x, b = some x → x < n) (h : latestRevision a b = some x) : x < n := by
  cases a with
  | none => exact hb x h
  | some y =>
    cases b with
    | none =>
      cases h
      exact ha _ rfl
    | some z =>
      cases h
      have hy := ha y rfl
      have hz := hb z rfl
      omega

theorem any_eq_false {α : Type} {o : Option α} {p : α → Bool}
    (h : ∀ a, o = some a → p a = false) : o.any p = false := by
  cases o with
  | none => rfl
  | some a => exact h a rfl

section Selection

variable {s : IdentityLedger} {m : Mutation} {editionSha scopeSha : String} {q : Mutation → Bool}
  {revision : Nat}

theorem covers_of_saves (h : m.saves editionSha scopeSha) :
    m.covers editionSha scopeSha := by
  unfold saves at h
  rw [Bool.and_eq_true] at h
  exact h.2

theorem covers_of_clearsScope (h : m.clearsScope editionSha scopeSha) :
    m.covers editionSha scopeSha := by
  unfold clearsScope at h
  rw [Bool.and_eq_true] at h
  exact h.2

theorem covers_of_clearsAll (scopeSha : String) (h : m.clearsAll editionSha) :
    m.covers editionSha scopeSha := by
  unfold clearsAll at h
  simp only [Bool.and_eq_true, decide_eq_true_eq] at h
  simp [covers, h.1, h.2, Change.covers]

theorem edition_of_covers (h : m.covers editionSha scopeSha) :
    m.commit.editionSha256 = editionSha := by
  simp only [covers, Bool.and_eq_true, decide_eq_true_eq] at h
  exact h.1

/-- A receipt of a kind that the last writer is not comes before it. -/
theorem Reflects.before (h : Reflects sha s) (hq : ∀ n, q n → n.covers editionSha scopeSha)
    (hlast : latest (covers editionSha scopeSha) s.log = some m) (hm : q m = false)
    (hx : (latest q s.log).map (fun n => n.commit.revision) = some x) : x < m.commit.revision := by
  obtain ⟨n, hn, rfl⟩ := Option.map_eq_some_iff.mp hx
  obtain ⟨hmem, hqn⟩ := mem_of_latest hn
  refine lt_of_latest (fun n => n.commit.revision) h.ranks hlast hmem (hq n hqn) ?_
  rintro rfl
  rw [hm] at hqn
  cases hqn

theorem Reflects.validateEffect (h : Reflects sha s)
    (ho : ∀ m, o = some m → m ∈ s.log ∧ p m.commit) :
    validateEffect s.db p (o.map (fun m => (m.commit.revision, m.commit.committedAt))) = .ok () := by
  cases o with
  | none => rfl
  | some m =>
    obtain ⟨hm, hp⟩ := ho m rfl
    have hsealed := h.sealed m hm
    have hany : s.db.mutations.rows.any (fun row => p row && row.revision = m.commit.revision &&
        row.committedAt = m.commit.committedAt) := by
      rw [h.mutations, any_eq_true]
      exact ⟨m.commit, mem_map.mpr ⟨m, hm, rfl⟩, by simp [hp]⟩
    unfold Conversation.validateEffect validateRevision validateCanonicalTimestamp
    simp only [Option.map_some, hsealed.revision, hsealed.time, hany, decide_true, ensure_true,
      ok_bind]

/-- The latest receipts pass their checks. -/
theorem Reflects.receipt_valid (h : Reflects sha s)
    (hq : ∀ n, q n → n.commit.editionSha256 = editionSha) :
    ((latest q s.log).map Mutation.commit).toList.forM
      (Conversation.validateMutationReceipt sha s.db editionSha) = .ok () := by
  refine toList_forM (fun commit hcommit => ?_)
  obtain ⟨n, hn, rfl⟩ := Option.map_eq_some_iff.mp hcommit
  obtain ⟨hmem, hqn⟩ := mem_of_latest hn
  exact h.validateMutationReceipt hmem (hq n hqn)

theorem Reflects.receipts_valid (h : Reflects sha s) (editionSha scopeSha : String) :
    [(latest (Mutation.clearsScope editionSha scopeSha) s.log).map Mutation.commit,
      (latest (Mutation.clearsAll editionSha) s.log).map Mutation.commit,
      (latest (Mutation.saves editionSha scopeSha) s.log).map Mutation.commit].forM
        (fun receipt => receipt.toList.forM
          (Conversation.validateMutationReceipt sha s.db editionSha)) = .ok () := by
  rw [forM_eq_ok]
  intro receipt hmem
  simp only [mem_cons, not_mem_nil, or_false] at hmem
  rcases hmem with rfl | rfl | rfl
  · exact h.receipt_valid (fun n hn => edition_of_covers (covers_of_clearsScope hn))
  · exact h.receipt_valid (fun n hn => edition_of_covers (covers_of_clearsAll scopeSha hn))
  · exact h.receipt_valid (fun n hn => edition_of_covers (covers_of_saves hn))

theorem validateRevision_of_pos {o : Option Nat} (ho : ∀ revision, o = some revision → 0 < revision) :
    o.toList.forM validateRevision = .ok () := by
  refine toList_forM (fun revision hrevision => ?_)
  unfold validateRevision
  simp [ho revision hrevision]

/-- The revisions that are read are positive. -/
theorem Reflects.revision_pos (h : Reflects sha s)
    (hrevision : (latest q s.log).map (fun m => m.commit.revision) = some revision) :
    0 < revision := by
  obtain ⟨n, hn, rfl⟩ := Option.map_eq_some_iff.mp hrevision
  exact (h.sealed n (mem_of_latest hn).1).revision

theorem Reflects.tombstone_pos (h : Reflects sha s)
    (hrevision : ((latest q s.log).bind (tombstone editionSha scopeSha)).map
      TombstoneRow.revision = some revision) : 0 < revision := by
  obtain ⟨row, hrow, rfl⟩ := Option.map_eq_some_iff.mp hrevision
  obtain ⟨n, hn, htombstone⟩ := Option.bind_eq_some_iff.mp hrow
  unfold tombstone at htombstone
  split at htombstone
  · cases htombstone
    exact (h.sealed n (mem_of_latest hn).1).revision
  · cases htombstone

theorem Reflects.revisions_valid (h : Reflects sha s) (editionSha scopeSha : String) :
    [((latest (covers editionSha scopeSha) s.log).bind
        (tombstone editionSha scopeSha)).map (fun row => row.revision),
      (latest (clearsAll editionSha) s.log).map (fun m => m.commit.revision),
      (latest (clearsScope editionSha scopeSha) s.log).map (fun m => m.commit.revision),
      (latest (clearsAll editionSha) s.log).map (fun m => m.commit.revision),
      (latest (saves editionSha scopeSha) s.log).map (fun m => m.commit.revision),
      none].forM (fun revision => revision.toList.forM validateRevision) = .ok () := by
  rw [forM_eq_ok]
  intro revision hmem
  simp only [mem_cons, not_mem_nil, or_false] at hmem
  rcases hmem with rfl | rfl | rfl | rfl | rfl | rfl
  · exact validateRevision_of_pos (fun _ => h.tombstone_pos)
  · exact validateRevision_of_pos (fun _ => h.revision_pos)
  · exact validateRevision_of_pos (fun _ => h.revision_pos)
  · exact validateRevision_of_pos (fun _ => h.revision_pos)
  · exact validateRevision_of_pos (fun _ => h.revision_pos)
  · rfl

/-- The row of a save has its receipt. -/
theorem Reflects.validateSelectionReceipt (h : Reflects sha s) (hm : m ∈ s.log)
    (hcovers : m.covers editionSha scopeSha) (hchange : m.change = .save scopes id) :
    validateSelectionReceipt s.db ⟨editionSha, scopeSha, aliasSha256 sha id, conversationOf sha id,
      m.commit.revision, m.commit.committedAt⟩ = .ok () := by
  have hsealed := h.sealed m hm
  have hmarks := hsealed.marks
  rw [hchange] at hmarks
  obtain ⟨hoperation, _, _, _, halias, hconversation⟩ := hmarks
  have hscope : Conversation.hasScope s.db m.commit.mutationSha256 scopeSha := by
    rw [h.hasScope hm, hchange]
    simp only [covers, hchange, Change.covers, Bool.and_eq_true] at hcovers
    exact hcovers.2
  have hreceipt : s.db.mutations.rows.any (fun receipt => receipt.operation = .save &&
      receipt.editionSha256 = editionSha &&
      Conversation.hasScope s.db receipt.mutationSha256 scopeSha &&
      receipt.aliasSha256 = some (aliasSha256 sha id) &&
      receipt.conversationId = some (conversationOf sha id) &&
      receipt.revision = m.commit.revision &&
      receipt.committedAt = m.commit.committedAt) := by
    rw [h.mutations, any_eq_true]
    refine ⟨m.commit, mem_map.mpr ⟨m, hm, rfl⟩, ?_⟩
    simp [hoperation, edition_of_covers hcovers, hscope, halias, hconversation]
  unfold Conversation.validateSelectionReceipt validateCanonicalTimestamp
  simp only [hsealed.time, h.alias_mapping hm hchange, hreceipt, Bool.true_or, decide_true,
    ensure_true, ok_bind]

/-- What the reader does after it has checked the receipts: `last` is the
last writer of the scope, the others the latest receipt of each kind. -/
def judge (sha : Sha256) (db : IdentityDb) (editionSha scopeSha : String)
    (last scopeCleared allCleared saved : Option Mutation) :
    Except StoreError IdentityScopeSelection := do
  let selection := last.bind (Mutation.scopeRow sha editionSha scopeSha)
  let scopeClear := (last.bind (Mutation.tombstone editionSha scopeSha)).map
    (fun row => (row.revision, row.clearedAt))
  let allClear := allCleared.map (fun m => (m.commit.revision, m.commit.committedAt))
  let clearedAfter := latestRevision (scopeClear.map Prod.fst) (allClear.map Prod.fst)
  let receiptClear := latestRevision (scopeCleared.map (fun m => m.commit.revision))
    (allCleared.map (fun m => m.commit.revision))
  let selected := selection.map ScopeRow.revision
  ensure (!receiptClear.any (fun receipt => selected.all (fun revision => revision ≤ receipt) &&
    clearedAfter.all (fun effect => effect < receipt)))
    (.corruptData "identity clear receipt is missing its canonical effect")
  let saved := latestRevision (saved.map (fun m => m.commit.revision)) none
  ensure (!saved.any (fun saved => receiptClear.all (fun cleared => cleared < saved) &&
    selected.all (fun revision => revision < saved)))
    (.corruptData "identity save receipt is missing its canonical selection")
  validateEffectReceipt db editionSha scopeSha scopeClear allClear
  selectionOf db selection clearedAfter

theorem Reflects.identityScopeSelection (h : Reflects sha s) {edition : String}
    (hedition : editionSha256 sha edition = .ok editionSha) (scope : ConversationIdentityScope) :
    identityScopeSelection sha s.db edition scope = judge sha s.db editionSha scope.sha256
      (latest (Mutation.covers editionSha scope.sha256) s.log)
      (latest (Mutation.clearsScope editionSha scope.sha256) s.log)
      (latest (Mutation.clearsAll editionSha) s.log)
      (latest (Mutation.saves editionSha scope.sha256) s.log) := by
  have hscope := h.latestReceipt (fun m hm => h.isScopeClearReceipt hm editionSha scope.sha256)
  have hall := h.latestReceipt (fun m hm => h.isAllClearReceipt hm editionSha)
  have hsave := h.latestReceipt (fun m hm => h.isSaveReceipt hm editionSha scope.sha256)
  have hreceipts := h.receipts_valid editionSha scope.sha256
  have hrevisions := h.revisions_valid editionSha scope.sha256
  unfold Conversation.identityScopeSelection identityInput judge
  simp only [hedition, orElse, ok_bind, hscope, hall, hsave, h.scopes, h.tombstones, h.clearAll,
    h.migrated, Table.find_empty, Option.map_none, Option.map_map, hreceipts, Function.comp_def,
    Mutation.clearAllRow, hrevisions]

end Selection

/-! ## The three kinds of last writer -/

section Judge

variable {db : IdentityDb} {m : Mutation} {editionSha scopeSha : String}
  {scopeCleared allCleared saved : Option Mutation}

theorem judge_none : judge sha db editionSha scopeSha none none none none = .ok .untracked := rfl

theorem validateEffect_none (p : IdentityCommit → Bool) : validateEffect db p none = .ok () := rfl

theorem judge_save {row : ScopeRow} (hchange : m.change = .save scopes id)
    (hrow : m.scopeRow sha editionSha scopeSha = some row) (hpositive : 0 < m.commit.revision)
    (hscope : ∀ x, scopeCleared.map (fun m => m.commit.revision) = some x → x < m.commit.revision)
    (hall : ∀ x, allCleared.map (fun m => m.commit.revision) = some x → x < m.commit.revision)
    (heffect : validateEffect db (isAllClearReceipt editionSha)
      (allCleared.map (fun m => (m.commit.revision, m.commit.committedAt))) = .ok ())
    (hreceipt : validateSelectionReceipt db row = .ok ()) :
    judge sha db editionSha scopeSha (some m) scopeCleared allCleared (some m) =
      .ok (.selected (aliasSha256 sha id) (conversationOf sha id)) := by
  have htombstone : m.tombstone editionSha scopeSha = none := by
    unfold tombstone
    rw [hchange]
  have hclear : (latestRevision (scopeCleared.map (fun m => m.commit.revision))
      (allCleared.map (fun m => m.commit.revision))).any (fun receipt =>
        decide (m.commit.revision ≤ receipt) && (allCleared.map (fun m => m.commit.revision)).all
            (fun effect => decide (effect < receipt))) = false := by
    refine any_eq_false (fun x hx => ?_)
    have hlt := latestRevision_lt hscope hall hx
    have hnot : ¬ m.commit.revision ≤ x := by omega
    simp [hnot]
  have hafter : (allCleared.map (fun m => m.commit.revision)).any
      (fun cleared => decide (m.commit.revision ≤ cleared)) = false := by
    refine any_eq_false (fun x hx => ?_)
    have hlt := hall x hx
    have hnot : ¬ m.commit.revision ≤ x := by omega
    simp [hnot]
  have hdigest : isLowerHexSha256 (aliasSha256 sha id) :=
    isLowerHexSha256_digestParts _ _ _
  unfold scopeRow at hrow
  rw [hchange] at hrow
  cases hrow
  unfold judge validateEffectReceipt selectionOf validateRevision
  simp only [Option.bind_some, scopeRow, hchange, htombstone, Option.map_none,
    Option.map_some, Option.map_map, Function.comp_def, Option.all_some, hclear, hafter, hpositive,
    hdigest, latestRevision_none_left, latestRevision_none_right, Option.any_some, validateEffect_none,
    heffect, hreceipt, Nat.lt_irrefl, decide_false, decide_true, Bool.and_false, Bool.not_false,
    ensure_true, ok_bind, Bool.false_eq_true, if_false]

/-- A scope that was cleared last: no effect is older than the receipt, and
no save is later. -/
theorem judge_cleared {scopeClear : Option TombstoneRow}
    (hselection : m.scopeRow sha editionSha scopeSha = none)
    (htombstone : m.tombstone editionSha scopeSha = scopeClear)
    (hreceipt : latestRevision (scopeCleared.map (fun m => m.commit.revision))
      (allCleared.map (fun m => m.commit.revision)) = some cleared)
    (heffect : latestRevision (scopeClear.map (fun row => row.revision))
      (allCleared.map (fun m => m.commit.revision)) = some cleared)
    (hsaved : ∀ x, saved.map (fun m => m.commit.revision) = some x → x < cleared)
    (heffects : validateEffectReceipt db editionSha scopeSha
      (scopeClear.map (fun row => (row.revision, row.clearedAt)))
      (allCleared.map (fun m => (m.commit.revision, m.commit.committedAt))) = .ok ()) :
    judge sha db editionSha scopeSha (some m) scopeCleared allCleared saved = .ok .tombstoned := by
  have hnewer : (saved.map (fun m => m.commit.revision)).any
      (fun saved => decide (cleared < saved)) = false := by
    refine any_eq_false (fun x hx => ?_)
    have hlt := hsaved x hx
    have hnot : ¬ cleared < x := by omega
    simp [hnot]
  unfold judge selectionOf
  simp only [Option.bind_some, hselection, htombstone, Option.map_none, Option.map_map,
    Function.comp_def, hreceipt, heffect, hnewer, latestRevision_none_right, heffects,
    Option.any_some, Option.all_some, Option.all_none, Nat.lt_irrefl, decide_false, Bool.and_true,
    Bool.and_false, Bool.not_false, ensure_true, ok_bind, Option.isSome_some, if_true]

end Judge

theorem latestRevision_of_lt (ha : a = some n)
    (hb : ∀ x, b = some x → x < n) : latestRevision a b = some n ∧ latestRevision b a = some n := by
  cases b with
  | none => simp [ha, latestRevision]
  | some y =>
    have hlt := hb y rfl
    have hmax : max n y = n := by omega
    have hmax' : max y n = n := by omega
    simp [ha, latestRevision, hmax, hmax']

/-- The last writer decides. -/
theorem judge_of_reflects (h : Reflects sha s) (editionSha scopeSha : String) :
    judge sha s.db editionSha scopeSha (latest (covers editionSha scopeSha) s.log)
      (latest (clearsScope editionSha scopeSha) s.log) (latest (clearsAll editionSha) s.log)
      (latest (saves editionSha scopeSha) s.log) =
    .ok (((latest (covers editionSha scopeSha) s.log).map
      (fun m => m.change.selection sha)).getD .untracked) := by
  have hallEffect : validateEffect s.db (isAllClearReceipt editionSha)
      ((latest (clearsAll editionSha) s.log).map
        (fun m => (m.commit.revision, m.commit.committedAt))) = .ok () := by
    refine h.validateEffect (fun m hm => ?_)
    obtain ⟨hmem, hall⟩ := mem_of_latest hm
    exact ⟨hmem, (h.isAllClearReceipt hmem editionSha).trans hall⟩
  cases hlast : latest (covers editionSha scopeSha) s.log with
  | none =>
    have hnone := latest_eq_none_iff.mp hlast
    have hkind : ∀ q : Mutation → Bool, (∀ m, q m → m.covers editionSha scopeSha) →
        latest q s.log = none := by
      intro q hq
      rw [latest_eq_none_iff]
      intro m hm
      cases hqm : q m with
      | false => rfl
      | true => exact absurd (hq m hqm) (by simp [hnone m hm])
    rw [hkind _ (fun _ => covers_of_clearsScope), hkind _ (fun _ => covers_of_clearsAll scopeSha),
      hkind _ (fun _ => covers_of_saves)]
    rfl
  | some m =>
    obtain ⟨hm, hcovers⟩ := mem_of_latest hlast
    have hsealed := h.sealed m hm
    have hmarks := hsealed.marks
    -- the other kinds of receipt are older
    have hbefore : ∀ q : Mutation → Bool, (∀ m, q m → m.covers editionSha scopeSha) →
        q m = false → ∀ x, (latest q s.log).map (fun n => n.commit.revision) = some x →
          x < m.commit.revision := fun q hq hqm x hx => h.before hq hlast hqm hx
    have hown : ∀ q : Mutation → Bool, (∀ m, q m → m.covers editionSha scopeSha) →
        q m → latest q s.log = some m := fun q hq hqm =>
      latest_of_imp (fun n _ => hq n) hlast hqm
    rw [Option.map_some, Option.getD_some]
    cases hchange : m.change with
    | save scopes id =>
      rw [hchange] at hmarks
      have hoperation : m.commit.operation = .save := hmarks.1
      have hrow : m.scopeRow sha editionSha scopeSha = some ⟨editionSha, scopeSha, aliasSha256 sha id,
          conversationOf sha id, m.commit.revision, m.commit.committedAt⟩ := by
        rw [scopeRow, hchange]
      have hscopeBefore := hbefore (clearsScope editionSha scopeSha)
        (fun _ => covers_of_clearsScope) (by simp [clearsScope, hoperation])
      have hallBefore := hbefore (clearsAll editionSha)
        (fun _ => covers_of_clearsAll scopeSha) (by simp [clearsAll, hchange])
      rw [hown (saves editionSha scopeSha) (fun _ => covers_of_saves)
        (by simp [saves, hoperation, hcovers])]
      exact judge_save hchange hrow hsealed.revision hscopeBefore hallBefore hallEffect
        (h.validateSelectionReceipt hm hcovers hchange)
    | clearScope scope =>
      rw [hchange] at hmarks
      have hoperation : m.commit.operation = .clearScope := hmarks.1
      have hsame : scope.sha256 = scopeSha := by
        simp only [covers, hchange, Change.covers, Change.scopes, Bool.and_eq_true]
          at hcovers
        simpa using hcovers.2
      have htombstone : m.tombstone editionSha scopeSha =
          some ⟨editionSha, scopeSha, m.commit.revision, m.commit.committedAt⟩ := by
        rw [tombstone, hchange]
      have hallBefore := hbefore (clearsAll editionSha)
        (fun _ => covers_of_clearsAll scopeSha) (by simp [clearsAll, hchange])
      have hsaveBefore := hbefore (saves editionSha scopeSha)
        (fun _ => covers_of_saves) (by simp [saves, hoperation])
      have hscopeEffect : validateEffect s.db (fun row => row.operation = .clearScope &&
          row.editionSha256 = editionSha && row.scopeSha256 = scopeSha)
          ((some m).map (fun m => (m.commit.revision, m.commit.committedAt))) = .ok () := by
        refine h.validateEffect (fun n hn => ?_)
        cases hn
        exact ⟨hm, by simp [hoperation, edition_of_covers hcovers, hmarks.2.1, hsame]⟩
      rw [hown (clearsScope editionSha scopeSha) (fun _ => covers_of_clearsScope)
        (by simp [clearsScope, hoperation, hcovers])]
      refine judge_cleared (by rw [scopeRow, hchange]) htombstone
        (latestRevision_of_lt (Option.map_some _ _) hallBefore).1
        (latestRevision_of_lt (Option.map_some _ _) hallBefore).1 hsaveBefore ?_
      unfold validateEffectReceipt
      rw [Option.map_some] at hscopeEffect ⊢
      rw [hscopeEffect, ok_bind, hallEffect]
    | clearAll =>
      rw [hchange] at hmarks
      have hoperation : m.commit.operation = .clearAll := hmarks.1
      have htombstone : m.tombstone editionSha scopeSha = none := by
        rw [tombstone, hchange]
      have hscopeBefore := hbefore (clearsScope editionSha scopeSha)
        (fun _ => covers_of_clearsScope) (by simp [clearsScope, hoperation])
      have hsaveBefore := hbefore (saves editionSha scopeSha)
        (fun _ => covers_of_saves) (by simp [saves, hoperation])
      rw [hown (clearsAll editionSha) (fun _ => covers_of_clearsAll scopeSha)
        (by simp [clearsAll, hchange, edition_of_covers hcovers])] at hallEffect ⊢
      refine judge_cleared (by rw [scopeRow, hchange]) htombstone
        (latestRevision_of_lt (Option.map_some _ _) hscopeBefore).2 rfl hsaveBefore ?_
      unfold validateEffectReceipt
      rw [Option.map_none, validateEffect_none, ok_bind, hallEffect]

theorem selection_of_reflects (h : Reflects sha s) {edition editionSha : String}
    (hedition : editionSha256 sha edition = .ok editionSha)
    (hnames : ∀ m ∈ s.log, m.commit.editionSha256 = editionSha → m.edition = edition)
    (scope : ConversationIdentityScope) :
    identityScopeSelection sha s.db edition scope = .ok (expected sha s.log edition scope) := by
  have hlatest : latest (fun m => m.edition = edition && m.change.covers scope.sha256) s.log =
      latest (covers editionSha scope.sha256) s.log := by
    refine latest_congr (fun m hm => ?_)
    unfold covers
    congr 1
    rw [Bool.eq_iff_iff, decide_eq_true_iff, decide_eq_true_iff]
    constructor
    · rintro rfl
      have hsealed := (h.sealed m hm).edition
      rw [hedition] at hsealed
      exact (Except.ok.inj hsealed).symm
    · exact hnames m hm
  rw [h.identityScopeSelection hedition, judge_of_reflects h, expected, hlatest]

end Abbey.Conversation
