import Abbey.Consent.Rebase

/-!
# What a rebase keeps

`Reconciled` says, for each of the merged parts, what the result holds of the
live stores and of the disk.  It is read from what the loops leave at one key
(`users_rebased`, `personalMemory_rebased`) and from what the merge of one
record does.
-/

namespace Abbey.Consent

open Abbey.Lib Stores MemoryBank PersonalMemorySubject Option Except
open Abbey.Conversation (Sha256 digest32)
open Std (ExtTreeMap)

variable {sha : Sha256} {encodedLen : EncodedLen} {base live disk result : Stores}
variable {key : String}
variable {users : BTreeMap UserMemory} {factKeys : List String}

/-! ## Rows of facts -/

theorem rebaseUser_changesAt (h : rebaseUser base disk users key = .ok users') :
    ChangesAt key (fun row => if (base.user key).SameRows (disk.user key) then row
      else some (mergeUser (base.user key) (disk.user key) (row.getD default))) users users' := by
  unfold rebaseUser at h
  by_cases hsame : (base.user key).SameRows (disk.user key)
  · rw [if_pos hsame] at h
    rw [← ok.inj h]
    exact changesAt_self (if_pos hsame)
  · rw [if_neg hsame] at h
    dsimp only at h
    split_ifs at h with hmany
    rw [← ok.inj h]
    exact changesAt_insert (if_neg hsame)

section

variable
  (h : (keysOf base.memory.users disk.memory.users).foldlM (rebaseUser base disk) live.memory.users = .ok users)

include h

/-- What the loop over the members leaves at one of them. -/
theorem users_rebased (key : String) :
    (users[key]?).getD default = if (base.user key).SameRows (disk.user key) then live.user key
      else mergeUser (base.user key) (disk.user key) (live.user key) := by
  have hnodup : ((keysOf base.memory.users disk.memory.users).map id).Nodup := by
    simpa using nodup_keysOf base.memory.users disk.memory.users
  have hstep : ∀ (m : BTreeMap UserMemory) (key : String) (m' : BTreeMap UserMemory),
      rebaseUser base disk m key = .ok m' →
        ChangesAt (id key) (fun row => if (base.user key).SameRows (disk.user key) then row
          else some (mergeUser (base.user key) (disk.user key) (row.getD default))) m m' :=
    fun m key m' => rebaseUser_changesAt
  obtain ⟨hat, hother⟩ := foldlM_at hstep hnodup h
  by_cases hmem : key ∈ keysOf base.memory.users disk.memory.users
  · rw [show users[key]? = _ from hat key hmem]
    split_ifs with hsame
    · rfl
    · rfl
  · rw [mem_keysOf, not_or] at hmem
    have hsame : (base.user key).SameRows (disk.user key) := by
      unfold user
      rw [ExtTreeMap.getElem?_eq_none hmem.1, ExtTreeMap.getElem?_eq_none hmem.2]
      exact ⟨rfl, rfl⟩
    rw [if_pos hsame, hother key (by simpa [mem_keysOf] using hmem)]
    rfl

theorem mem_facts_rebased (key fact : String) :
    fact ∈ ((users[key]?).getD default).facts ↔ fact ∈ (live.user key).facts ∧
          ¬(fact ∈ (base.user key).facts ∧ fact ∉ (disk.user key).facts) ∨
        fact ∈ (disk.user key).facts ∧ fact ∉ (base.user key).facts := by
  rw [users_rebased h key]
  split_ifs with hsame
  · rw [hsame.1]
    tauto
  · exact mem_mergeRows

end

/-! ## Records of subjects -/

theorem retainProofs_eq_self {s : PersonalMemorySubject}
    (h : ∀ digest ∈ s.proofs, digest ∈ factKeys) : s.retainProofs factKeys = s := by
  have hproofs : s.proofs.filter (fun key _ => key ∈ factKeys) = s.proofs := by
    apply ExtTreeMap.ext_getElem?
    intro digest
    rw [ExtTreeMap.getElem?_filter']
    cases hproof : s.proofs[digest]? with
    | none => rfl
    | some proof =>
      have hmem : digest ∈ s.proofs := by
        rw [ExtTreeMap.mem_iff_isSome_getElem?, hproof]
        rfl
      simp [h digest hmem]
  rw [retainProofs, hproofs]

theorem retainProofs_retainProofs (s : PersonalMemorySubject) (factKeys : List String) :
    (s.retainProofs factKeys).retainProofs factKeys = s.retainProofs factKeys := by
  simp only [retainProofs, filter_filter_self]

section MergeSubject

variable {before published target : PersonalMemorySubject}

theorem mergeSubject_self : mergeSubject target published target = published := if_pos rfl

theorem published_le_mergeSubject (before published target : PersonalMemorySubject) :
    published.schema ≤ (mergeSubject before published target).schema ∧
      published.revision ≤ (mergeSubject before published target).revision ∧
        published.consentEpoch ≤ (mergeSubject before published target).consentEpoch ∧
          published.policyVersion ≤ (mergeSubject before published target).policyVersion := by
  unfold mergeSubject
  split_ifs with hsame
  · exact ⟨le_rfl, le_rfl, le_rfl, le_rfl⟩
  · exact ⟨le_max_right _ _, le_max_right _ _, le_max_right _ _, le_max_right _ _⟩

theorem target_le_mergeSubject (target : PersonalMemorySubject)
    (hrevision : before.revision ≤ published.revision)
    (hconsent : before.consentEpoch ≤ published.consentEpoch) :
    target.revision ≤ (mergeSubject before published target).revision ∧
      target.consentEpoch ≤ (mergeSubject before published target).consentEpoch := by
  unfold mergeSubject
  split_ifs with hsame
  · rw [hsame]
    exact ⟨hrevision, hconsent⟩
  · exact ⟨le_max_left _ _, le_max_left _ _⟩

/-- A grant needs both sides, or a live side that did not change. -/
theorem choice_mergeSubject (h : (mergeSubject before published target).choice = .on) :
    published.choice = .on ∧ (target.choice = .on ∨ target = before) := by
  unfold mergeSubject at h
  by_cases hsame : target = before
  · rw [if_pos hsame] at h
    exact ⟨h, Or.inr hsame⟩
  · rw [if_neg hsame] at h
    cases htarget : target.choice <;> cases hpublished : published.choice <;> simp_all

theorem pending_mergeSubject_of_off (hchanged : target ≠ before)
    (h : (mergeSubject before published target).choice = .off) :
    (mergeSubject before published target).activationPending = false := by
  unfold mergeSubject at h ⊢
  rw [if_neg hchanged] at h ⊢
  cases htarget : target.choice <;> cases hpublished : published.choice <;> simp_all

theorem pending_mergeSubject_of_on (h : (mergeSubject before published target).choice = .on)
    (hpending : published.activationPending) :
    (mergeSubject before published target).activationPending := by
  unfold mergeSubject at h ⊢
  by_cases hsame : target = before
  · rw [if_pos hsame]
    exact hpending
  · rw [if_neg hsame] at h ⊢
    cases htarget : target.choice <;> cases hpublished : published.choice <;> simp_all

/-- A live change of a proof stays. -/
theorem proofs_mergeSubject {digest : String}
    (h : target.proofs[digest]? ≠ before.proofs[digest]?) :
    (mergeSubject before published target).proofs[digest]? = target.proofs[digest]? := by
  have hchanged : target ≠ before := fun heq => h (by rw [heq])
  unfold mergeSubject
  rw [if_neg hchanged]
  exact (getElem?_mergeMap _ _ _ digest).trans (pick_of_ne h)

/-- A live change of an outcome stays. -/
theorem outcomes_mergeSubject {id : String} (h : target.outcomes[id]? ≠ before.outcomes[id]?) :
    (mergeSubject before published target).outcomes[id]? = target.outcomes[id]? := by
  have hchanged : target ≠ before := fun heq => h (by rw [heq])
  unfold mergeSubject
  rw [if_neg hchanged]
  exact (getElem?_mergeMap _ _ _ id).trans (pick_of_ne h)

/-- A second merge with the same record changes nothing, unless the record denies
with its activation pending and lost a proof. -/
theorem mergeSubject_again
    (hsettled : published.choice = .off → published.activationPending →
      ∀ digest ∈ published.proofs, digest ∈ factKeys) :
    mergeSubject published published
        ((mergeSubject before published target).retainProofs factKeys) =
      (mergeSubject before published target).retainProofs factKeys := by
  obtain ⟨s, hs⟩ : ∃ s, (mergeSubject before published target).retainProofs factKeys = s := ⟨_, rfl⟩
  rw [hs]
  by_cases hsame : s = published
  · rw [hsame, mergeSubject_self]
  obtain ⟨hschema, hrevision, hconsent, hpolicy⟩ :=
    published_le_mergeSubject before published target
  have hon := @choice_mergeSubject before published target
  have hpendingOn := @pending_mergeSubject_of_on before published target
  have hpendingOff : s.choice = .off → s.activationPending = false := by
    intro hoff
    by_cases htarget : target = before
    · -- The record was taken over, so it lost a proof and has nothing pending.
      subst htarget
      rw [mergeSubject_self] at hs
      rw [← hs] at hoff ⊢
      by_contra hpending
      rw [Bool.not_eq_false] at hpending
      exact hsame (hs ▸ retainProofs_eq_self (hsettled hoff hpending))
    · rw [← hs] at hoff ⊢
      exact pending_mergeSubject_of_off htarget hoff
  have hfields : s.schema = (mergeSubject before published target).schema ∧
      s.revision = (mergeSubject before published target).revision ∧
      s.consentEpoch = (mergeSubject before published target).consentEpoch ∧
      s.policyVersion = (mergeSubject before published target).policyVersion ∧
      s.choice = (mergeSubject before published target).choice ∧
      s.activationPending = (mergeSubject before published target).activationPending := by
    rw [← hs]
    exact ⟨rfl, rfl, rfl, rfl, rfl, rfl⟩
  obtain ⟨h1, h2, h3, h4, h5, h6⟩ := hfields
  rw [← h1] at hschema
  rw [← h2] at hrevision
  rw [← h3] at hconsent
  rw [← h4] at hpolicy
  rw [← h5] at hon hpendingOn
  rw [← h6] at hpendingOn
  rw [mergeSubject, if_neg hsame]
  simp only [mergeMap_self, max_eq_left hschema, max_eq_left hrevision, max_eq_left hconsent,
    max_eq_left hpolicy]
  cases hchoice : s.choice with
  | off =>
    have hpending := hpendingOff hchoice
    cases s
    simp_all
  | on =>
    have hpublished := (hon hchoice).1
    have hpending := hpendingOn hchoice
    cases s
    cases hlate : published.activationPending <;> simp_all

end MergeSubject

/-- What the loops over the subjects leave at one of them. -/
theorem personalMemory_rebased (sha : Sha256) (base live disk : Stores) (memory : MemoryBank)
    (key : String) :
    (rebaseRest sha base live disk memory).personalMemory[key]? =
      ((disk.personalMemory[key]?).elim live.personalMemory[key]? (fun published =>
        some (mergeSubject (base.subject key) published (live.subject key)))).map
          (fun s => s.retainProofs (memory.factKeys sha)) := by
  have hstep : ∀ (m : BTreeMap PersonalMemorySubject) (entry : String × PersonalMemorySubject),
      ChangesAt entry.1 (fun row => some (mergeSubject (base.subject entry.1) entry.2
        (row.getD default))) m (rebaseSubject base m entry) :=
    fun m entry => changesAt_insert rfl
  have hloop := foldl_toList_at hstep disk.personalMemory live.personalMemory key
  exact (ExtTreeMap.getElem?_map).trans (congrArg _ hloop)

theorem subject_of_published (sha : Sha256) (base live : Stores) (memory : MemoryBank)
    (h : disk.personalMemory[key]? = some published) :
    (rebaseRest sha base live disk memory).personalMemory[key]? =
      some ((mergeSubject (base.subject key) published (live.subject key)).retainProofs
        (memory.factKeys sha)) := by
  rw [personalMemory_rebased, h]
  rfl

theorem subject_of_unpublished (sha : Sha256) (base live : Stores) (memory : MemoryBank)
    (h : disk.personalMemory[key]? = none) :
    (rebaseRest sha base live disk memory).personalMemory[key]? =
      (live.personalMemory[key]?).map (fun s => s.retainProofs (memory.factKeys sha)) := by
  rw [personalMemory_rebased, h]
  rfl

/-! ## Exposure -/

instance : Std.Total ExposureReceipt.NotAfter where
  total a b := by
    unfold ExposureReceipt.NotAfter
    omega

instance : IsTrans ExposureReceipt ExposureReceipt.NotAfter where
  trans a b c := by
    unfold ExposureReceipt.NotAfter
    omega

theorem scopeEpochs_merged (exposure published : ExposureState) (key : String) :
    (mergeExposure exposure published).scopeEpochs[key]? =
      (published.scopeEpochs[key]?).elim exposure.scopeEpochs[key]? (fun epoch =>
        some (max ((exposure.scopeEpochs[key]?).getD 0) epoch)) := by
  have hstep : ∀ (m : BTreeMap Nat) (entry : String × Nat),
      ChangesAt entry.1 (fun row => some (max (row.getD 0) entry.2)) m (raiseEpoch m entry) :=
    fun m entry => changesAt_insert rfl
  have hloop := foldl_toList_at hstep published.scopeEpochs exposure.scopeEpochs key
  rw [mergeExposure]
  exact hloop

/-- The receipts are few, or no two of them have one epoch and one cutoff. -/
def ReceiptsApart (exposure published : ExposureState) : Prop :=
  exposure.receipts.length + published.receipts.length ≤ 128 ∨
    ∀ a ∈ exposure.receipts ++ published.receipts, ∀ b ∈ exposure.receipts ++ published.receipts,
      a.epoch = b.epoch → a.cutoff = b.cutoff → a = b

theorem mergeExposure_again (h : ReceiptsApart exposure published) :
    mergeExposure (mergeExposure exposure published) published =
      mergeExposure exposure published := by
  have hepochs : (mergeExposure (mergeExposure exposure published) published).scopeEpochs =
      (mergeExposure exposure published).scopeEpochs := by
    apply ExtTreeMap.ext_getElem?
    intro key
    rw [scopeEpochs_merged (mergeExposure exposure published), scopeEpochs_merged exposure]
    cases published.scopeEpochs[key]? with
    | none => rfl
    | some epoch => simp
  have hreceipts : (mergeExposure (mergeExposure exposure published) published).receipts =
      (mergeExposure exposure published).receipts := by
    have hapart : exposure.receipts.length + published.receipts.length ≤ 128 ∨
        ∀ a ∈ exposure.receipts ++ published.receipts,
          ∀ b ∈ exposure.receipts ++ published.receipts, a.NotAfter b → b.NotAfter a → a = b := by
      rcases h with hfew | hdistinct
      · exact Or.inl hfew
      · right
        intro a ha b hb hab hba
        unfold ExposureReceipt.NotAfter at hab hba
        exact hdistinct a ha b hb (by omega) (by omega)
    have hagain := lastRows_addMissing_lastRows ExposureReceipt.NotAfter hapart
    simp only [mergeExposure]
    exact hagain
  have hnumbers : ∀ a b : Nat, max (max a b) b = max a b := by
    intro a b
    omega
  have hsplit : ∀ x y : ExposureState, x.schema = y.schema → x.epoch = y.epoch →
      x.cutoff = y.cutoff → x.scopeEpochs = y.scopeEpochs → x.receipts = y.receipts → x = y := by
    rintro ⟨⟩ ⟨⟩ rfl rfl rfl rfl rfl
    rfl
  exact hsplit _ _ (hnumbers _ _) (hnumbers _ _) (hnumbers _ _) hepochs hreceipts

/-! ## The whole -/

/-- Nothing is lost and nothing comes back. -/
structure Reconciled (sha : Sha256) (base live disk result : Stores) : Prop where
  facts : ∀ key fact, fact ∈ (result.user key).facts ↔
    fact ∈ (live.user key).facts ∧
        ¬(fact ∈ (base.user key).facts ∧ fact ∉ (disk.user key).facts) ∨
      fact ∈ (disk.user key).facts ∧ fact ∉ (base.user key).facts
  choice : ∀ key published, disk.personalMemory[key]? = some published →
    (result.subject key).choice = .on →
      published.choice = .on ∧
        ((live.subject key).choice = .on ∨ live.subject key = base.subject key)
  revision : ∀ key, (live.subject key).revision ≤ (result.subject key).revision ∧
    (disk.subject key).revision ≤ (result.subject key).revision
  consentEpoch : ∀ key, (live.subject key).consentEpoch ≤ (result.subject key).consentEpoch ∧
    (disk.subject key).consentEpoch ≤ (result.subject key).consentEpoch
  epoch : live.personalMemoryExposure.epoch ≤ result.personalMemoryExposure.epoch ∧
    disk.personalMemoryExposure.epoch ≤ result.personalMemoryExposure.epoch
  cutoff : live.personalMemoryExposure.cutoff ≤ result.personalMemoryExposure.cutoff ∧
    disk.personalMemoryExposure.cutoff ≤ result.personalMemoryExposure.cutoff
  scopeEpochs : ∀ (key : String) (epoch : Nat),
    live.personalMemoryExposure.scopeEpochs[key]? = some epoch ∨
        disk.personalMemoryExposure.scopeEpochs[key]? = some epoch →
      ∃ raised, result.personalMemoryExposure.scopeEpochs[key]? = some raised ∧ epoch ≤ raised
  proofs : ∀ (key digest : String), digest ∈ (result.subject key).proofs →
    digest ∈ result.memory.factKeys sha
  receipts : ∀ key ∈ result.memoryReceipts, key ∈ result.memory.receiptKeys
  liveReceipts : ∀ key : String, live.memoryReceipts[key]? ≠ base.memoryReceipts[key]? →
    result.memoryReceipts[key]? =
      if key ∈ result.memory.receiptKeys then live.memoryReceipts[key]? else none
  liveProofs : ∀ key digest : String,
    (live.subject key).proofs[digest]? ≠ (base.subject key).proofs[digest]? →
      (result.subject key).proofs[digest]? =
        if digest ∈ result.memory.factKeys sha then (live.subject key).proofs[digest]? else none
  liveOutcomes : ∀ key id : String,
    (live.subject key).outcomes[id]? ≠ (base.subject key).outcomes[id]? →
      (result.subject key).outcomes[id]? = (live.subject key).outcomes[id]?

/-- The published counters of a subject are not behind the ones they started from. -/
def Advanced (base disk : Stores) : Prop :=
  ∀ (key : String) (published : PersonalMemorySubject),
    disk.personalMemory[key]? = some published →
      (base.subject key).revision ≤ published.revision ∧
        (base.subject key).consentEpoch ≤ published.consentEpoch

/-- No subject that was published off with its activation pending lost a proof. -/
def KeepsPending (sha : Sha256) (disk result : Stores) : Prop :=
  ∀ (key : String) (published : PersonalMemorySubject),
    disk.personalMemory[key]? = some published → published.choice = .off →
      published.activationPending = true →
        ∀ digest ∈ published.proofs, digest ∈ result.memory.factKeys sha

theorem rebase_eq_ok : rebase sha encodedLen base live disk = .ok result ↔
    ∃ users, (keysOf base.memory.users disk.memory.users).foldlM (rebaseUser base disk)
        live.memory.users = .ok users ∧
      validateMetadata encodedLen (rebaseRest sha base live disk ⟨users⟩).personalMemory
        (rebaseRest sha base live disk ⟨users⟩).personalMemoryExposure = .ok () ∧
      result = rebaseRest sha base live disk ⟨users⟩ := by
  simp only [rebase, bind_ok_iff]
  constructor
  · rintro ⟨users, husers, ⟨⟩, hvalid, hresult⟩
    exact ⟨users, husers, hvalid, (ok.inj hresult).symm⟩
  · rintro ⟨users, husers, hvalid, rfl⟩
    exact ⟨users, husers, (), hvalid, rfl⟩

/-- The parts of a subject, read from what the loop left. -/
theorem subject_rebased (sha : Sha256) (base live disk : Stores) (memory : MemoryBank)
    (key : String) :
    (∃ published, disk.personalMemory[key]? = some published ∧
      (rebaseRest sha base live disk memory).subject key =
        (mergeSubject (base.subject key) published (live.subject key)).retainProofs
          (memory.factKeys sha)) ∨
    disk.personalMemory[key]? = none ∧ (rebaseRest sha base live disk memory).subject key =
        (live.subject key).retainProofs (memory.factKeys sha) := by
  cases hdisk : disk.personalMemory[key]? with
  | some published =>
    refine Or.inl ⟨published, rfl, ?_⟩
    rw [subject, subject_of_published sha base live memory hdisk]
    rfl
  | none =>
    refine Or.inr ⟨rfl, ?_⟩
    rw [subject, subject_of_unpublished sha base live memory hdisk]
    cases hlive : live.personalMemory[key]? with
    | some s => simp [subject, hlive]
    | none =>
      have hdefault : (live.subject key) = default := by simp [subject, hlive]
      rw [hdefault]
      refine (retainProofs_eq_self fun digest hdigest => ?_).symm
      exact absurd hdigest ExtTreeMap.not_mem_empty

theorem reconciled_rebaseRest (hadvanced : Advanced base disk)
    (husers : (keysOf base.memory.users disk.memory.users).foldlM (rebaseUser base disk)
      live.memory.users = .ok users) :
    Reconciled sha base live disk (rebaseRest sha base live disk ⟨users⟩) where
  facts key fact := mem_facts_rebased husers key fact
  choice key published hpublished hon := by
    have hsubject := subject_of_published sha base live ⟨users⟩ hpublished
    rw [subject, hsubject] at hon
    exact choice_mergeSubject hon
  revision key := by
    rcases subject_rebased sha base live disk ⟨users⟩ key with ⟨published, hdisk, hs⟩ | ⟨hdisk, hs⟩
    · have hbefore := hadvanced key published hdisk
      have htarget := target_le_mergeSubject (live.subject key) hbefore.1 hbefore.2
      have hpublished := published_le_mergeSubject (base.subject key) published (live.subject key)
      rw [hs, show disk.subject key = published by simp [subject, hdisk]]
      exact ⟨htarget.1, hpublished.2.1⟩
    · rw [hs, show disk.subject key = default by simp [subject, hdisk]]
      exact ⟨le_rfl, Nat.zero_le _⟩
  consentEpoch key := by
    rcases subject_rebased sha base live disk ⟨users⟩ key with ⟨published, hdisk, hs⟩ | ⟨hdisk, hs⟩
    · have hbefore := hadvanced key published hdisk
      have htarget := target_le_mergeSubject (live.subject key) hbefore.1 hbefore.2
      have hpublished := published_le_mergeSubject (base.subject key) published (live.subject key)
      rw [hs, show disk.subject key = published by simp [subject, hdisk]]
      exact ⟨htarget.2, hpublished.2.2.1⟩
    · rw [hs, show disk.subject key = default by simp [subject, hdisk]]
      exact ⟨le_rfl, Nat.zero_le _⟩
  epoch := ⟨le_max_left _ _, le_max_right _ _⟩
  cutoff := ⟨le_max_left _ _, le_max_right _ _⟩
  scopeEpochs key epoch h := by
    have hmerged := scopeEpochs_merged live.personalMemoryExposure disk.personalMemoryExposure key
    rw [show (rebaseRest sha base live disk ⟨users⟩).personalMemoryExposure.scopeEpochs[key]? = _
      from hmerged]
    cases hdisk : disk.personalMemoryExposure.scopeEpochs[key]? with
    | none =>
      rw [hdisk] at h
      exact ⟨epoch, h.resolve_right (by simp), le_rfl⟩
    | some published =>
      refine ⟨_, rfl, ?_⟩
      rcases h with hlive | hpublished
      · simp [hlive]
      · rw [hdisk] at hpublished
        exact some.inj hpublished ▸ le_max_right _ _
  proofs key digest h := by
    have hkept : ∀ s : PersonalMemorySubject,
        digest ∈ (s.retainProofs (factKeys sha ⟨users⟩)).proofs →
          digest ∈ factKeys sha ⟨users⟩ := by
      intro s hmem
      rw [ExtTreeMap.mem_iff_isSome_getElem?, retainProofs, ExtTreeMap.getElem?_filter'] at hmem
      by_contra hnot
      simp [hnot] at hmem
    rcases subject_rebased sha base live disk ⟨users⟩ key with ⟨published, -, hs⟩ | ⟨-, hs⟩
    · exact hkept _ (hs ▸ h)
    · exact hkept _ (hs ▸ h)
  receipts key h := by
    rw [ExtTreeMap.mem_iff_isSome_getElem?, rebaseRest, ExtTreeMap.getElem?_filter'] at h
    by_contra hnot
    have hnone : key ∉ receiptKeys ⟨users⟩ := hnot
    simp [hnone] at h
  liveReceipts key h := by
    have hmerged : (mergeMap live.memoryReceipts base.memoryReceipts disk.memoryReceipts)[key]? =
        live.memoryReceipts[key]? := by
      rw [getElem?_mergeMap, pick_of_ne h]
    rw [show (rebaseRest sha base live disk ⟨users⟩).memoryReceipts[key]? = _ from
      ExtTreeMap.getElem?_filter', hmerged]
    show _ = if key ∈ receiptKeys ⟨users⟩ then live.memoryReceipts[key]? else none
    by_cases hmem : key ∈ receiptKeys ⟨users⟩
    · rw [if_pos hmem]
      cases live.memoryReceipts[key]? <;> simp [hmem]
    · rw [if_neg hmem]
      cases live.memoryReceipts[key]? <;> simp [hmem]
  liveProofs key digest h := by
    have hkept : ∀ s : PersonalMemorySubject, s.proofs[digest]? = (live.subject key).proofs[digest]? →
        (s.retainProofs (factKeys sha ⟨users⟩)).proofs[digest]? =
          if digest ∈ factKeys sha ⟨users⟩ then (live.subject key).proofs[digest]?
          else none := by
      intro s hs
      rw [retainProofs, ExtTreeMap.getElem?_filter', hs]
      split_ifs with hmem
      · cases (live.subject key).proofs[digest]? <;> simp [hmem]
      · cases (live.subject key).proofs[digest]? <;> simp [hmem]
    rcases subject_rebased sha base live disk ⟨users⟩ key with ⟨published, -, hs⟩ | ⟨-, hs⟩
    · rw [hs]
      exact hkept _ (proofs_mergeSubject h)
    · rw [hs]
      exact hkept _ rfl
  liveOutcomes key id h := by
    rcases subject_rebased sha base live disk ⟨users⟩ key with ⟨published, -, hs⟩ | ⟨-, hs⟩
    · rw [hs]
      exact outcomes_mergeSubject h
    · rw [hs]
      rfl

theorem foldlM_rebaseUser_self (disk : Stores) (keys : List String)
    (users : BTreeMap UserMemory) : keys.foldlM (rebaseUser disk disk) users = .ok users := by
  induction keys with
  | nil => rfl
  | cons key keys ih =>
    rw [List.foldlM_cons, rebaseUser, if_pos ⟨rfl, rfl⟩]
    exact ih

theorem rebaseRest_again
    (hreceipts : ReceiptsApart live.personalMemoryExposure disk.personalMemoryExposure)
    (hpending : KeepsPending sha disk (rebaseRest sha base live disk ⟨users⟩)) :
    rebaseRest sha disk (rebaseRest sha base live disk ⟨users⟩) disk ⟨users⟩ =
      rebaseRest sha base live disk ⟨users⟩ := by
  obtain ⟨once, honce⟩ : ∃ once, rebaseRest sha base live disk ⟨users⟩ = once := ⟨_, rfl⟩
  have hpersonal : (rebaseRest sha disk once disk ⟨users⟩).personalMemory =
      once.personalMemory := by
    apply ExtTreeMap.ext_getElem?
    intro key
    cases hdisk : disk.personalMemory[key]? with
    | some published =>
      have hfirst := subject_of_published sha base live ⟨users⟩ hdisk
      rw [honce] at hfirst
      rw [subject_of_published sha disk once ⟨users⟩ hdisk, subject, subject, hfirst, hdisk]
      have hsettled : published.choice = .off → published.activationPending →
          ∀ digest ∈ published.proofs, digest ∈ factKeys sha ⟨users⟩ :=
        hpending key published hdisk
      simp only [getD_some]
      rw [mergeSubject_again hsettled, retainProofs_retainProofs]
    | none =>
      have hfirst := subject_of_unpublished sha base live ⟨users⟩ hdisk
      rw [honce] at hfirst
      rw [subject_of_unpublished sha disk once ⟨users⟩ hdisk, hfirst, map_map]
      congr 1
      funext s
      exact retainProofs_retainProofs s _
  have hexposure : (rebaseRest sha disk once disk ⟨users⟩).personalMemoryExposure =
      once.personalMemoryExposure := by
    rw [← honce]
    exact mergeExposure_again hreceipts
  have hmemory : (rebaseRest sha disk once disk ⟨users⟩).memoryReceipts = once.memoryReceipts := by
    rw [← honce]
    simp only [rebaseRest, mergeMap_self, filter_filter_self]
  have hbase : (rebaseRest sha disk once disk ⟨users⟩).canonicalBase = once.canonicalBase := by
    rw [← honce]
    rfl
  have husers : (rebaseRest sha disk once disk ⟨users⟩).memory = once.memory := by
    rw [← honce]
    rfl
  have hsplit : ∀ x y : Stores, x.canonicalBase = y.canonicalBase →
      x.personalMemory = y.personalMemory →
      x.personalMemoryExposure = y.personalMemoryExposure → x.memory = y.memory →
      x.memoryReceipts = y.memoryReceipts → x = y := by
    rintro ⟨⟩ ⟨⟩ rfl rfl rfl rfl rfl
    rfl
  rw [honce]
  exact hsplit _ _ hbase hpersonal hexposure husers hmemory

/-- Stores with one row of facts and no exposure. -/
def storesOf (facts : List String) (receipts : BTreeMap String)
    (personalMemory : BTreeMap PersonalMemorySubject) : Stores :=
  ⟨none, personalMemory, ⟨1, 0, 0, ∅, []⟩, ⟨ExtTreeMap.ofList [("g\x1fu", (⟨facts, 7, []⟩ : UserMemory))]⟩, receipts⟩

def teaDigest : Sha256 := fun _ =>
  digest32 0xd3adb07408c71f8fe62756626db3122418bb8e2794c2c991264a17a43cb924df

/-- A record that was published off, with a fact and its activation pending. -/
def offRecord : PersonalMemorySubject :=
  ⟨1, 3, 2, .off, 1, ExtTreeMap.ofList
    [("d3adb07408c71f8fe62756626db3122418bb8e2794c2c991264a17a43cb924df",
      (⟨.selfAuthored, ⟨"u", "u", "g", "i", "discord", 1, 1⟩,
        "d3adb07408c71f8fe62756626db3122418bb8e2794c2c991264a17a43cb924df", 0⟩ : FactProof))],
    ∅, true⟩

def offRecords : BTreeMap PersonalMemorySubject := ExtTreeMap.ofList [("g\x1fu", offRecord)]

def encodedLenOff : EncodedLen := fun subjects _ =>
  some (if subjects.toList.any (fun entry => entry.2.activationPending) then 210 else 211)

end Abbey.Consent
