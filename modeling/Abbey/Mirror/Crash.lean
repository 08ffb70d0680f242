import Abbey.Conversation.Replay
import Abbey.Mirror.Recovery

/-!
# Crashes of a save or a clear

A save and a clear have the same shape: they recover the pending journal,
prepare a plan, write it to the journal, commit it to the database, and
finish it.  `runPlan` is this shape.  Until the commit, recovery drops the
plan; after the commit, recovery finishes it, and an interrupted finish is
an interrupted recovery.
-/

namespace Abbey.Mirror

open Abbey.Lib List Except String Option
open Abbey.Conversation
open Abbey.Run (ConversationId Instant StoreError isControl)

variable {platform : Platform} {home settled t u v : Home} {edition : Edition} {state : AbbeyState}
variable {check : Home → Except ChatError Unit} {scopes : List ConversationIdentityScope}
  {m : Mutation} {context : String}
variable {isCommitted : IdentityCommit → Bool} {sha : Sha256}

/-! ## The common shape -/

section Shape

variable {π : Type} {prepare : Home → Except ChatError π} {journal : π → Journal}
  {transact : π → IdentityDb → Except ChatError (IdentityDb × IdentityCommit)}
  {finish : π → IdentityCommit → ChatM Unit} {plan : π} {db : IdentityDb} {commit : IdentityCommit}

/-- What `save_chat` and `clear_chat` have in common. -/
def runPlan (platform : Platform) (edition : Edition) (prepare : Home → Except ChatError π)
    (journal : π → Journal)
    (transact : π → IdentityDb → Except ChatError (IdentityDb × IdentityCommit))
    (finish : π → IdentityCommit → ChatM Unit) : ChatM Unit := do
  recoverPending platform edition
  let plan ← .read prepare
  writePending platform (journal plan)
  let commit ← .commit (fun home => do
    let (db, commit) ← transact plan home.db
    .ok ({ home with db }, commit))
  finish plan commit

/-- The home after the commit of a plan. -/
def committedHome (settled : Home) (journal : Journal) (db : IdentityDb) : Home :=
  { settled with db := db, journal := some journal }

theorem crash_runPlan
    (h : Crash (runPlan platform edition prepare journal transact finish) home u) :
    Crash (recoverPending platform edition) home u ∨ ∃ settled plan,
      Ends (recoverPending platform edition) home () settled ∧ prepare settled = .ok plan ∧
      platform.journalSize (journal plan) ≤ maxJournalBytes ∧
      (u = { settled with journal := some (journal plan) } ∨ ∃ db commit,
        transact plan settled.db = .ok (db, commit) ∧
        Crash (finish plan commit) (committedHome settled (journal plan) db) u) := by
  unfold runPlan at h
  rcases crash_bind h with hrecover | ⟨_, settled, hsettled, hrest⟩
  · exact .inl hrecover
  rcases crash_read_bind hrest with hstart | ⟨plan, hplan, hwriting⟩
  · rw [hstart]
    exact .inl hsettled.crash
  rcases crash_commit_bind hwriting with hstart | ⟨_, written, hwritten, hcommitting⟩
  · rw [hstart]
    exact .inl hsettled.crash
  simp only [bind_ok_iff, ensure_eq_ok, decide_eq_true_eq, ok.injEq, Prod.mk.injEq,
    and_true] at hwritten
  obtain ⟨_, hsize, rfl⟩ := hwritten
  refine .inr ⟨settled, plan, hsettled, hplan, hsize, ?_⟩
  rcases crash_commit_bind hcommitting with hstart | ⟨commit, committed, hcommitted, hfinish⟩
  · exact .inl hstart
  simp only [bind_ok_iff, ok.injEq, Prod.mk.injEq] at hcommitted
  obtain ⟨⟨db, commit'⟩, htransact, rfl, rfl⟩ := hcommitted
  exact .inr ⟨db, commit', htransact, hfinish⟩

theorem ends_runPlan (hsettled : Ends (recoverPending platform edition) home () settled)
    (hplan : prepare settled = .ok plan)
    (hsize : platform.journalSize (journal plan) ≤ maxJournalBytes)
    (htransact : transact plan settled.db = .ok (db, commit))
    (hfinish : Ends (finish plan commit) (committedHome settled (journal plan) db) () t) :
    Ends (runPlan platform edition prepare journal transact finish) home () t := by
  unfold runPlan
  refine ends_bind_iff.mpr ⟨(), settled, hsettled, ends_read_bind.mpr ⟨plan, hplan, ?_⟩⟩
  refine ends_commit_bind.mpr ⟨(), { settled with journal := some (journal plan) }, ?_, ?_⟩
  · simp [hsize]
  · refine ends_commit_bind.mpr ⟨commit, committedHome settled (journal plan) db, ?_, hfinish⟩
    simp only [htransact, ok_bind]
    rfl

end Shape

/-! ## What recovery leaves alone -/

variable {finish : IdentityCommit → ChatM Unit}

theorem crash_recoverWith_invariant {P : Home → Prop}
    (hstart : P home) (hdropped : P { home with journal := none })
    (hfinish : ∀ commit w, Crash (finish commit) home w → P w)
    (h : Crash (recoverWith platform check context isCommitted finish) home u) : P u := by
  rcases crash_recoverWith h with rfl | hdone | ⟨_, commit, _, _, hfinishing⟩
  · exact hstart
  · obtain ⟨_, _, _, ⟨commit, _, hends⟩ | ⟨_, rfl⟩⟩ := recoverWith_cases hdone
    · exact hfinish commit u hends.crash
    · exact hdropped
  · exact hfinish commit u hfinishing

theorem db_of_crash_recoverPending (h : Crash (recoverPending platform edition) home u) :
    u.db = home.db := by
  rcases crash_recoverPending h with rfl | ⟨journal, _, hinside⟩
  · rfl
  cases journal with
  | save plan =>
    refine crash_recoverWith_invariant (P := fun w => w.db = home.db) rfl rfl ?_ hinside
    intro commit w hw
    rcases crash_finishSave hw with hloop | hdone
    · exact (applyTargets_frame hloop).1
    · obtain ⟨_, mid, hloop, rfl⟩ := finishSave_ends hdone
      exact (applyTargets_frame hloop.crash).1
  | clear plan =>
    refine crash_recoverWith_invariant (P := fun w => w.db = home.db) rfl rfl ?_ hinside
    intro commit w hw
    rcases crash_finishClear hw with hloop | hdone
    · exact (removeTargets_frame hloop).db
    · obtain ⟨_, mid, hloop, rfl⟩ := finishClear_ends hdone
      exact (removeTargets_frame hloop.crash).db

theorem journal_of_ends_recoverPending (h : Ends (recoverPending platform edition) home () t) :
    t.journal = none := by
  cases hjournal : home.journal with
  | none =>
    rw [(ends_recoverPending_none hjournal).mp h]
    exact hjournal
  | some journal =>
    obtain ⟨_, hrecover⟩ := (ends_recoverPending_some hjournal).mp h
    cases journal with
    | save plan =>
      obtain ⟨_, _, _, ⟨_, _, hfinish⟩ | ⟨_, rfl⟩⟩ := recoverWith_cases hrecover
      · obtain ⟨_, _, _, rfl⟩ := finishSave_ends hfinish
        rfl
      · rfl
    | clear plan =>
      obtain ⟨_, _, _, ⟨_, _, hfinish⟩ | ⟨_, rfl⟩⟩ := recoverWith_cases hrecover
      · obtain ⟨_, _, _, rfl⟩ := finishClear_ends hfinish
        rfl
      · rfl

/-! ## The two journals of a plan -/

/-- A plan that was not committed is dropped. -/
theorem ends_recoverPending_of_uncommitted
    (hnone : settled.journal = none) (hsize : platform.journalSize journal ≤ maxJournalBytes)
    (hshape : recoverJournal platform edition journal =
      recoverWith platform check context isCommitted finish)
    (hcheck : check { settled with journal := some journal } = .ok ())
    (hmarker : commitOn platform.sha settled.db = .ok committed)
    (hnot : committed.filter isCommitted = none) :
    Ends (recoverPending platform edition) { settled with journal := some journal } () settled := by
  rw [ends_recoverPending_some rfl, hshape]
  refine ⟨hsize, ?_⟩
  have hends : Ends (recoverWith platform check context isCommitted finish)
      { settled with journal := some journal } ()
      { settled with journal := none } := ends_recoverWith_none hcheck hmarker hnot
  rw [← hnone] at hends
  exact hends

variable {commit : IdentityCommit} {db db' : IdentityDb}

/-- A plan that was committed is finished, and an interrupted finish is an
interrupted recovery. -/
theorem recoverPending_of_committed (hsize : platform.journalSize journal ≤ maxJournalBytes)
    (hshape : recoverJournal platform edition journal =
      recoverWith platform check context isCommitted finish)
    (hcheck : check (committedHome settled journal db) = .ok ())
    (hmarker : commitOn platform.sha db = .ok (some commit)) (hours : isCommitted commit)
    (hends : Ends (finish commit) (committedHome settled journal db) () t)
    (hcrash : Crash (finish commit) (committedHome settled journal db) u) :
    Ends (recoverPending platform edition) (committedHome settled journal db) () t ∧
      Crash (recoverPending platform edition) (committedHome settled journal db) u := by
  have hfilter : (some commit).filter isCommitted = some commit := by
    rw [filter_some, if_pos hours]
  have hrecover : Ends (recoverJournal platform edition journal)
      (committedHome settled journal db) () t := by
    rw [hshape]
    exact ends_recoverWith_some hcheck hmarker hfilter hends
  refine ⟨(ends_recoverPending_some rfl).mpr ⟨hsize, hrecover⟩, ?_⟩
  have hinside : Crash (recoverJournal platform edition journal)
      (committedHome settled journal db) u := by
    rw [hshape]
    unfold recoverWith
    refine crash_bind_of_ends (ends_read.mpr ⟨hcheck, rfl⟩) ?_
    refine crash_bind_of_ends (ends_read.mpr ⟨mapErr_eq_ok.mpr hmarker, rfl⟩) ?_
    rw [hfilter]
    exact hcrash
  unfold recoverPending
  refine crash_bind_of_ends (a := some journal) (ends_read.mpr ⟨rfl, rfl⟩) ?_
  refine crash_bind_of_ends (a := ()) (ends_lift.mpr ⟨by simp [hsize], rfl⟩) ?_
  cases journal <;> exact hinside

/-! ## A prepared save -/

section Saves

variable {id : String} {token : Uuid} {plan : JournalPlan} {commit : IdentityCommit}
  {snapshot : MirrorSnapshot}

/-- What `prepare_plan` makes sure of. -/
structure JournalPlan.Prepared (plan : JournalPlan) (state : AbbeyState) (id : String)
    (token : Uuid) (home : Home) : Prop where
  valid : validatePlan state.edition plan = .ok ()
  externalId : plan.externalId = id
  mutationToken : plan.mutationToken = token
  cwdDisplay : plan.cwdDisplay = toStringLossy state.cwd
  before : ∀ snapshot ∈ plan.targets, snapshot.before = contents home.files snapshot.path
  bound : ∀ snapshot ∈ plan.targets, ∀ content, snapshot.before = some content →
    content.length ≤ targetLimit snapshot.role
  room : ∀ snapshot ∈ plan.targets, snapshot.role = .history →
    (snapshot.before.getD []).length + id.utf8ByteSize + plan.cwdDisplay.utf8ByteSize + 96 ≤
      maxHistoryBytes
  history : ⟨.history, .history, contents home.files .history⟩ ∈ plan.targets

theorem find?_of_nodup {targets : List MirrorSnapshot} (h : (targets.map MirrorSnapshot.role).Nodup)
    (hmem : snapshot ∈ targets) :
    targets.find? (fun target => target.role = snapshot.role) = some snapshot := by
  induction targets with
  | nil => cases hmem
  | cons target targets ih =>
    rw [map_cons, nodup_cons] at h
    rcases mem_cons.mp hmem with rfl | hrest
    · simp
    · have hne : target.role ≠ snapshot.role := by
        intro hsame
        exact h.1 (hsame ▸ mem_map_of_mem hrest)
      rw [find?_cons_of_neg (by simpa using hne)]
      exact ih h.2 hrest

theorem validatePlan_roles (h : validatePlan edition plan = .ok ()) :
    (plan.targets.map MirrorSnapshot.role).Nodup := by
  unfold validatePlan at h
  simp only [bind_ok_iff, ensure_eq_ok, decide_eq_true_eq] at h
  obtain ⟨_, _, _, _, _, _, _, _, _, _, _, hroles, _⟩ := h
  exact hroles

theorem preparePlan_eq_ok (h : preparePlan state id token home = .ok plan) :
    plan.Prepared state id token home := by
  unfold preparePlan at h
  simp only [bind_ok_iff, ensure_eq_ok, decide_eq_true_eq, mapM_eq_ok, readOptionalBounded_eq_ok,
    ok.injEq] at h
  obtain ⟨_, _, targets, htargets, _, hroom, _, hvalid, rfl⟩ := h
  have hsnapshot : ∀ snapshot ∈ targets, snapshot.before = contents home.files snapshot.path ∧
      ∀ content, snapshot.before = some content → content.length ≤ targetLimit snapshot.role := by
    intro snapshot hmem
    obtain ⟨target, _, before, ⟨rfl, hbound⟩, rfl⟩ := exists_left_of_mem htargets hmem
    exact ⟨rfl, hbound⟩
  refine ⟨hvalid, rfl, rfl, rfl, fun s hs => (hsnapshot s hs).1, fun s hs => (hsnapshot s hs).2, ?_, ?_⟩
  · intro snapshot hmem hrole
    have hfind := find?_of_nodup (validatePlan_roles hvalid) hmem
    rw [hrole] at hfind
    simp only at hfind
    rw [hfind, bind_some] at hroom
    exact hroom
  · have hmem : ((.history, .history) : TargetRole × MirrorPath) ∈
        configuredTargetsFor state.cwd state.perCwd := by
      simp [configuredTargetsFor]
    obtain ⟨snapshot, hsnap, before, ⟨rfl, _⟩, rfl⟩ := exists_right_of_mem htargets hmem
    exact hsnap

/-- The room of 96 bytes is enough for a line of the history. -/
theorem exists_desiredBytes (platform : Platform) (commit : IdentityCommit)
    (h : plan.Prepared state id token home) (hmem : snapshot ∈ plan.targets) :
    ∃ desired, desiredBytes platform snapshot.role plan commit snapshot.before = .ok desired := by
  cases hrole : snapshot.role with
  | active | global | exported => exact ⟨_, rfl⟩
  | history =>
    have hroom := h.room snapshot hmem hrole
    have hstamp := platform.stamp_short commit.committedAt
    have htab : "\t".utf8ByteSize = 1 := rfl
    have hline : "\n".utf8ByteSize = 1 := rfl
    unfold desiredBytes
    simp only [bind_ok_iff, ensure_eq_ok, decide_eq_true_eq, Except.ok.injEq]
    refine ⟨_, (), ?_, rfl⟩
    rw [List.length_append, length_utf8, String.utf8ByteSize_append, String.utf8ByteSize_append,
      String.utf8ByteSize_append, String.utf8ByteSize_append, String.utf8ByteSize_append, htab, hline,
      h.externalId]
    split_ifs
    · rw [List.length_append, List.length_singleton]
      omega
    · omega

theorem length_before_le (h : desiredBytes platform .history plan commit before = .ok desired) :
    (before.getD []).length ≤ desired.length := by
  unfold desiredBytes at h
  simp only [bind_ok_iff, ensure_eq_ok, decide_eq_true_eq, Except.ok.injEq] at h
  obtain ⟨_, _, rfl⟩ := h
  rw [List.length_append]
  split_ifs
  · rw [List.length_append]
    omega
  · omega

theorem exists_ends_applyTarget (h : plan.Prepared state id token home)
    (hmem : snapshot ∈ plan.targets) (hbefore : snapshot.before = contents u.files snapshot.path) :
    ∃ t, Ends (applyTarget platform plan commit snapshot) u () t := by
  obtain ⟨desired, hdesired⟩ := exists_desiredBytes platform commit h hmem
  have hread : readOptionalBounded u.files snapshot.path (targetLimit snapshot.role) =
      .ok snapshot.before := by
    refine readOptionalBounded_eq_ok.mpr ⟨hbefore, ?_⟩
    rw [← hbefore]
    exact h.bound snapshot hmem
  have hreplace : ∀ content, contents u.files snapshot.path = some content →
      content.length ≤ max desired.length maxIdFileBytes := by
    rw [← hbefore]
    intro content hcontent
    have hbound := h.bound snapshot hmem content hcontent
    cases hrole : snapshot.role with
    | history =>
      rw [hrole] at hdesired
      have hlength := length_before_le hdesired
      rw [hcontent] at hlength
      exact le_max_of_le_left hlength
    | active | global | exported =>
      rw [hrole] at hbound
      exact le_max_of_le_right hbound
  by_cases hsame : snapshot.before = some desired
  · refine ⟨u, ?_⟩
    unfold applyTarget
    refine ends_lift_bind.mpr ⟨desired, hdesired, ends_read_bind.mpr ⟨_, hread, ?_⟩⟩
    rw [if_pos hsame]
    exact ends_pure.mpr ⟨rfl, rfl⟩
  · refine ⟨{ u with files := u.files.put ⟨snapshot.path, desired⟩ }, ?_⟩
    unfold applyTarget
    refine ends_lift_bind.mpr ⟨desired, hdesired, ends_read_bind.mpr ⟨_, hread, ?_⟩⟩
    rw [if_neg hsame]
    refine ends_lift_bind.mpr ⟨(), by simp, ends_commit.mpr ?_⟩
    rw [atomicReplace_eq_ok.mpr ⟨hreplace, rfl⟩]
    rfl

/-- The mirrors of a prepared save can be written. -/
theorem exists_ends_finishSave (platform : Platform) (commit : IdentityCommit)
    (h : plan.Prepared state id token home) (hfiles : u.files = home.files) :
    ∃ t, Ends (finishSave platform state.edition plan commit) u () t := by
  have hpaths := (validatePlan_paths h.valid).1
  have hloop : ∃ t, Ends (plan.targets.forM (applyTarget platform plan commit)) u () t := by
    refine exists_ends_forM
      (fun snapshot w => snapshot.before = contents w.files snapshot.path) ?_ ?_ ?_
    · intro snapshot hmem w hbefore
      exact exists_ends_applyTarget h hmem hbefore
    · refine List.Pairwise.imp ?_ (pairwise_map.mp hpaths)
      intro a b hne w w' hready hends
      obtain ⟨_, _, ⟨_, rfl⟩ | rfl⟩ := applyTarget_cases hends
      · exact hready
      · rw [contents_put, if_neg hne]
        exact hready
    · intro snapshot hmem
      rw [hfiles]
      exact h.before snapshot hmem
  obtain ⟨mid, hmid⟩ := hloop
  exact ⟨_, ends_finishSave h.valid hmid⟩

end Saves

/-! ## A prepared clear -/

section Clears

variable {all : Bool} {nonce : Uuid} {plan : ClearPlan} {commit : IdentityCommit}

/-- What `prepare_plan` of a clear makes sure of. -/
structure ClearPlan.Prepared (plan : ClearPlan) (platform : Platform) (edition : Edition)
    (home : Home) : Prop where
  valid : validateClearPlan platform.sha platform.root edition home.files plan = .ok ()
  before : ∀ target ∈ plan.targets, target.before = contents home.files target.path
  bound : ∀ target ∈ plan.targets, ∀ content, target.before = some content →
    content.length ≤ maxIdFileBytes

theorem prepared_of_targets {paths : List (ClearTargetRole × MirrorPath)}
    (htargets : List.Forall₂ (fun target snapshot => ∃ before,
      (before = contents home.files target.2 ∧ ∀ content, contents home.files target.2 = some content →
        content.length ≤ maxIdFileBytes) ∧ ClearTarget.mk target.1 target.2 before = snapshot)
      paths targets) (hplan : plan.targets = targets)
    (hvalid : validateClearPlan platform.sha platform.root edition home.files plan = .ok ()) :
    plan.Prepared platform edition home := by
  have htarget : ∀ target ∈ plan.targets, target.before = contents home.files target.path ∧
      ∀ content, target.before = some content → content.length ≤ maxIdFileBytes := by
    rw [hplan]
    intro target hmem
    obtain ⟨path, _, before, ⟨rfl, hbound⟩, rfl⟩ := exists_left_of_mem htargets hmem
    exact ⟨rfl, hbound⟩
  exact ⟨hvalid, fun target hmem => (htarget target hmem).1,
    fun target hmem => (htarget target hmem).2⟩

theorem prepareClearPlan_eq_ok (h : prepareClearPlan platform state all nonce home = .ok plan) :
    plan.Prepared platform state.edition home := by
  unfold prepareClearPlan at h
  cases all with
  | true =>
    simp only [if_true, bind_ok_iff, mapM_eq_ok, readOptionalBounded_eq_ok, ok.injEq,
      ok_bind] at h
    obtain ⟨paths, _, targets, htargets, _, hvalid, rfl⟩ := h
    exact prepared_of_targets htargets rfl hvalid
  | false =>
    simp only [Bool.false_eq_true, if_false, bind_ok_iff, mapM_eq_ok, readOptionalBounded_eq_ok,
      ok.injEq, ok_bind] at h
    obtain ⟨_, _, _, _, targets, htargets, _, hvalid, rfl⟩ := h
    exact prepared_of_targets htargets rfl hvalid

theorem ClearPlan.scopes_proper (sha : Sha256) (plan : ClearPlan) :
    ∀ list, plan.scopes sha = some list → list.length = 1 := by
  intro list hlist
  unfold ClearPlan.scopes at hlist
  cases hoperation : plan.operation with
  | clearScope =>
    rw [hoperation] at hlist
    rw [← some.inj hlist]
    rfl
  | clearAll =>
    rw [hoperation] at hlist
    cases hlist

theorem exists_ends_removeTarget
    (hbound : ∀ content, target.before = some content → content.length ≤ maxIdFileBytes)
    (hbefore : contents u.files target.path = none ∨ contents u.files target.path = target.before) :
    ∃ t, Ends (removeTarget target) u () t := by
  rcases hbefore with hnone | hsame
  · exact ⟨u, ends_of_removed hnone⟩
  · by_cases hsome : (contents u.files target.path).isSome
    · refine ⟨{ u with files := removeMirror u.files target.path }, ?_⟩
      unfold removeTarget
      refine ends_read_bind.mpr ⟨_, readOptionalBounded_eq_ok.mpr ⟨rfl, ?_⟩, ?_⟩
      · rw [hsame]
        exact hbound
      · refine ends_lift_bind.mpr ⟨(), by simp [hsame], ?_⟩
        rw [if_pos hsome]
        exact ends_commit.mpr rfl
    · rw [not_isSome_iff_eq_none] at hsome
      exact ⟨u, ends_of_removed hsome⟩

/-- The mirrors of a prepared clear can be removed. -/
theorem exists_ends_finishClear (h : plan.Prepared platform edition home)
    (hfiles : u.files = home.files)
    (heffect : verifyClearConversationIdentity platform.sha u.db plan.editionSlug
      (plan.scopes platform.sha) commit = .ok ()) :
    ∃ t, Ends (finishClear platform edition plan commit) u () t := by
  have hloop : ∃ t, Ends (plan.targets.forM removeTarget) u () t := by
    refine exists_ends_forM (fun target w => contents w.files target.path = none ∨
      contents w.files target.path = target.before) ?_ ?_ ?_
    · intro target hmem w hready
      exact exists_ends_removeTarget (h.bound target hmem) hready
    · refine pairwise_of_forall ?_
      intro a b w w' hready hends
      rcases removeTarget_cases hends with ⟨_, rfl⟩ | rfl
      · exact hready
      · rw [contents_remove]
        split_ifs
        · exact .inl rfl
        · exact hready
    · intro target hmem
      rw [hfiles]
      exact .inr (h.before target hmem).symm
  obtain ⟨mid, hmid⟩ := hloop
  refine ⟨_, ends_finishClear ⟨heffect, ?_⟩ hmid⟩
  rw [hfiles]
  exact h.valid

end Clears

/-! ## Fresh tokens -/

/-- The token is not that of the marker. -/
def FreshToken (sha : Sha256) (db : IdentityDb) (token : String) : Prop :=
  ∀ commit, db.commit = some commit → mutationSha256 sha token ≠ .ok commit.mutationSha256

theorem FreshToken.filter_eq_none (h : FreshToken sha db token)
    (htoken : ∀ commit, isCommitted commit → mutationSha256 sha token =
      .ok commit.mutationSha256) : db.commit.filter isCommitted = none := by
  rw [filter_eq_none_iff]
  intro commit hcommit hours
  exact h commit hcommit (htoken commit hours)

theorem FreshToken.db_ne (h : FreshToken sha db m.token)
    (hsealed : Sealed sha m) (happlied : Applied sha db db' m) : db' ≠ db := by
  intro hsame
  have hcommit := happlied.commit
  rw [hsame] at hcommit
  exact h m.commit hcommit hsealed.token

theorem token_of_matchesSaveScopes {edition externalId token : String}
    (h : commit.matchesSaveScopes sha edition scopes externalId token) :
    mutationSha256 sha token = .ok commit.mutationSha256 := by
  unfold IdentityCommit.matchesSaveScopes at h
  split at h
  · rename_i htoken _
    simp only [Bool.and_eq_true, decide_eq_true_eq] at h
    rw [h.2, htoken]
  · cases h

theorem token_of_matchesClearScopes {edition token : String}
    (h : commit.matchesClearScopes sha edition scopes token) :
    mutationSha256 sha token = .ok commit.mutationSha256 := by
  unfold IdentityCommit.matchesClearScopes at h
  split at h
  · rename_i htoken _
    simp only [Bool.and_eq_true, decide_eq_true_eq] at h
    rw [h.2, htoken]
  · cases h

theorem token_of_matchesClearAll {edition token : String}
    (h : commit.matchesClearAll sha edition token) :
    mutationSha256 sha token = .ok commit.mutationSha256 := by
  unfold IdentityCommit.matchesClearAll at h
  split at h
  · rename_i htoken
    simp only [Bool.and_eq_true, decide_eq_true_eq] at h
    rw [h.2, htoken]
  · cases h

theorem isCommitted_eq (sha : Sha256) (plan : ClearPlan) (commit : IdentityCommit) :
    plan.isCommitted sha commit =
      (plan.scopes sha).elim (commit.matchesClearAll sha plan.editionSlug plan.mutationToken)
        (fun scopes => commit.matchesClearScopes sha plan.editionSlug scopes plan.mutationToken) := by
  unfold ClearPlan.isCommitted
  cases plan.scopes sha with
  | none => rfl
  | some scopes => rfl

theorem token_of_isCommitted {plan : ClearPlan} (h : plan.isCommitted sha commit) :
    mutationSha256 sha plan.mutationToken = .ok commit.mutationSha256 := by
  rw [isCommitted_eq] at h
  cases hscopes : plan.scopes sha with
  | none =>
    rw [hscopes] at h
    exact token_of_matchesClearAll h
  | some scopes =>
    rw [hscopes] at h
    exact token_of_matchesClearScopes h

/-- The marker that a mutation leaves behind is read back. -/
theorem commitOn_of_applied (hsealed : Sealed sha m)
    (happlied : Applied sha db db' m) : commitOn sha db' = .ok (some m.commit) := by
  unfold commitOn
  rw [happlied.commit]
  simp only [hsealed.checkCommit, ok_bind]

/-! ## Homes that the program wrote -/

/-- The journal was written by `prepare_plan`, and the marker is readable. -/
structure Home.Sound (platform : Platform) (home : Home) : Prop where
  written : home.Written
  marker : commitOn platform.sha home.db = .ok home.db.commit

end Abbey.Mirror
