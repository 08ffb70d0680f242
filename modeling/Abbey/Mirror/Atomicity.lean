import Abbey.Conversation.LastWriter
import Abbey.Mirror.Crash

/-!
# A save or a clear happens or does not

`chat_call_atomic`: whatever a crash of `save_chat` or `clear_chat` and any
number of crashes of the recoveries after it leave behind, the first
recovery that completes ends as if the call had not been made, when it had
not committed, and as if it had not been interrupted, when it had.
-/

namespace Abbey.Mirror

open Abbey.Lib
open Abbey.Conversation
open Abbey.Run (ConversationId Instant StoreError isControl)
open Relation (ReflTransGen)

variable {platform : Platform} {home settled t u v : Home} {edition : Edition} {state : AbbeyState}

theorem Home.Sound.empty (platform : Platform) : Home.Sound platform ⟨.empty, .empty, none⟩ := by
  refine ⟨?_, rfl⟩
  intro plan hplan
  cases hplan

/-! ## Any plan -/

section Shape

variable {π : Type} {prepare : Home → Except ChatError π} {journal : π → Journal}
  {transact : π → IdentityDb → Except ChatError (IdentityDb × IdentityCommit)}
  {finish : π → IdentityCommit → ChatM Unit}

/-- What the argument needs of a plan: recovery drops it before the commit
and finishes it after the commit. -/
structure Recoverable (platform : Platform) (edition : Edition) (settled : Home) (journal : Journal)
    (transact : IdentityDb → Except ChatError (IdentityDb × IdentityCommit))
    (finish : IdentityCommit → ChatM Unit) : Prop where
  written : ∀ w : Home, w.journal = some journal → w.Written
  dropped : Ends (recoverPending platform edition) { settled with journal := some journal } ()
    settled
  fresh : ∀ db commit, transact settled.db = .ok (db, commit) → db ≠ settled.db
  finished : ∀ db commit, transact settled.db = .ok (db, commit) → ∃ after,
    Ends (finish commit) (committedHome settled journal db) () after ∧
    ∀ w, Crash (finish commit) (committedHome settled journal db) w →
      Ends (recoverPending platform edition) (committedHome settled journal db) () after ∧
        Crash (recoverPending platform edition) (committedHome settled journal db) w

theorem runPlan_atomic (hwritten : home.Written)
    (hsettled : Ends (recoverPending platform edition) home () settled)
    (hplan : ∀ plan, prepare settled = .ok plan →
      platform.journalSize (journal plan) ≤ maxJournalBytes →
      Recoverable platform edition settled (journal plan) (transact plan) (finish plan))
    (hcrash : Crash (runPlan platform edition prepare journal transact finish) home u)
    (hagain : ReflTransGen (Crash (recoverPending platform edition)) u v) :
    ∃ after, Ends (recoverPending platform edition) v () after ∧
      (u.db = home.db → after = settled) ∧
      (u.db ≠ home.db →
        Ends (runPlan platform edition prepare journal transact finish) home () after) := by
  have hsame : settled.db = home.db := db_of_crash_recoverPending hsettled.crash
  rcases crash_runPlan hcrash with hrecover | ⟨settled', plan, hsettled', hprepare, hsize, hcases⟩
  · refine ⟨settled, recoverPending_resumes_all hwritten hsettled (.head hrecover hagain),
      fun _ => rfl, ?_⟩
    intro hne
    exact absurd (db_of_crash_recoverPending hrecover) hne
  · rw [(hsettled'.unique hsettled).2] at hprepare hcases
    have hrecoverable := hplan plan hprepare hsize
    rcases hcases with rfl | ⟨db, commit, htransact, hfinishing⟩
    · refine ⟨settled, recoverPending_resumes_all (hrecoverable.written _ rfl) hrecoverable.dropped
        hagain, fun _ => rfl, ?_⟩
      intro hne
      exact absurd hsame hne
    · obtain ⟨after, hends, hresume⟩ := hrecoverable.finished db commit htransact
      obtain ⟨hrecovered, hinside⟩ := hresume u hfinishing
      refine ⟨after, recoverPending_resumes_all (hrecoverable.written _ rfl) hrecovered
        (.head hinside hagain), ?_, ?_⟩
      · intro hdb
        have hcommitted : u.db = db := db_of_crash_recoverPending hinside
        exact absurd (hcommitted.symm.trans (hdb.trans hsame.symm))
          (hrecoverable.fresh db commit htransact)
      · intro _
        exact ends_runPlan hsettled hprepare hsize htransact hends

end Shape

/-! ## Saves and clears -/

section Calls

variable {id : String} {token nonce : Uuid} {all : Bool} {now : Instant}
variable {commit : IdentityCommit} {plan : JournalPlan}

/-- The transaction of a save. -/
def transactSave (platform : Platform) (now : Instant) (plan : JournalPlan) (db : IdentityDb) :
    Except ChatError (IdentityDb × IdentityCommit) :=
  fromStore "canonical conversation identity save failed"
    (saveConversationIdentity platform.sha db plan.editionSlug (plan.scopes platform.sha)
      plan.externalId plan.mutationToken.text now)

/-- The transaction of a clear. -/
def transactClear (platform : Platform) (now : Instant) (plan : ClearPlan) (db : IdentityDb) :
    Except ChatError (IdentityDb × IdentityCommit) :=
  fromStore "canonical conversation identity clear failed"
    (clearConversationIdentity platform.sha db plan.editionSlug (plan.scopes platform.sha)
      plan.mutationToken now)

theorem saveChat_eq (platform : Platform) (state : AbbeyState) (id : String) (token : Uuid)
    (now : Instant) : saveChat platform state id token now =
      (Durable.lift (validateExternalId id) >>= fun id =>
        runPlan platform state.edition (preparePlan state id token) .save
          (transactSave platform now) (finishSave platform state.edition)) := rfl

theorem clearChat_eq (platform : Platform) (state : AbbeyState) (all : Bool) (nonce : Uuid)
    (now : Instant) : clearChat platform state all nonce now =
      runPlan platform state.edition (prepareClearPlan platform state all nonce) .clear
        (transactClear platform now) (finishClear platform state.edition) := rfl

theorem recoverable_save (hnone : settled.journal = none)
    (hmarker : commitOn platform.sha settled.db = .ok settled.db.commit)
    (hprepared : plan.Prepared state id token settled) (htrim : trim id = id)
    (hfresh : FreshToken platform.sha settled.db token.text)
    (hsize : platform.journalSize (.save plan) ≤ maxJournalBytes) :
    Recoverable platform state.edition settled (.save plan) (transactSave platform now plan)
      (finishSave platform state.edition plan) := by
  have htoken : FreshToken platform.sha settled.db plan.mutationToken.text := by
    rw [hprepared.mutationToken]
    exact hfresh
  have hcommitted : ∀ db commit, transactSave platform now plan settled.db = .ok (db, commit) →
      Sealed platform.sha ⟨plan.editionSlug, .save (plan.scopes platform.sha) (trim plan.externalId),
        plan.mutationToken.text, commit⟩ ∧ Applied platform.sha settled.db db ⟨plan.editionSlug,
          .save (plan.scopes platform.sha) (trim plan.externalId), plan.mutationToken.text,
          commit⟩ := by
    intro db commit htransact
    exact (save_applied hmarker htoken (mapErr_eq_ok.mp htransact)).2
  refine ⟨?_, ?_, ?_, ?_⟩
  · intro w hjournal other hother
    rw [hjournal] at hother
    cases hother
    rw [hprepared.externalId, htrim]
  · exact ends_recoverPending_of_uncommitted hnone hsize rfl hprepared.valid hmarker
      (htoken.filter_eq_none (fun commit => token_of_matchesSaveScopes))
  · intro db commit htransact
    obtain ⟨hsealed, happlied⟩ := hcommitted db commit htransact
    exact htoken.db_ne hsealed happlied
  · intro db commit htransact
    obtain ⟨hsealed, happlied⟩ := hcommitted db commit htransact
    obtain ⟨after, hends⟩ := exists_ends_finishSave platform commit
      (u := committedHome settled (.save plan) db) hprepared rfl
    refine ⟨after, hends, ?_⟩
    intro w hcrash
    exact recoverPending_of_committed hsize rfl hprepared.valid
      (commitOn_of_applied hsealed happlied) hsealed.matchesSaveScopes hends hcrash

theorem recoverable_clear {plan : ClearPlan} (hnone : settled.journal = none)
    (hmarker : commitOn platform.sha settled.db = .ok settled.db.commit)
    (hprepared : plan.Prepared platform state.edition settled)
    (hfresh : FreshToken platform.sha settled.db plan.mutationToken)
    (hsize : platform.journalSize (.clear plan) ≤ maxJournalBytes) :
    Recoverable platform state.edition settled (.clear plan) (transactClear platform now plan)
      (finishClear platform state.edition plan) := by
  have hproper := plan.scopes_proper platform.sha
  have hcommitted : ∀ db commit, transactClear platform now plan settled.db = .ok (db, commit) →
      Sealed platform.sha ⟨plan.editionSlug, clearChange (plan.scopes platform.sha),
        plan.mutationToken, commit⟩ ∧ Applied platform.sha settled.db db ⟨plan.editionSlug,
          clearChange (plan.scopes platform.sha), plan.mutationToken, commit⟩ := by
    intro db commit htransact
    exact clear_applied hmarker hfresh (mapErr_eq_ok.mp htransact)
  refine ⟨?_, ?_, ?_, ?_⟩
  · intro w hjournal other hother
    rw [hjournal] at hother
    cases hother
  · exact ends_recoverPending_of_uncommitted hnone hsize rfl hprepared.valid hmarker
      (hfresh.filter_eq_none (fun commit => token_of_isCommitted))
  · intro db commit htransact
    obtain ⟨hsealed, happlied⟩ := hcommitted db commit htransact
    exact hfresh.db_ne hsealed happlied
  · intro db commit htransact
    obtain ⟨hsealed, happlied⟩ := hcommitted db commit htransact
    have heffect : verifyClearConversationIdentity platform.sha db plan.editionSlug
        (plan.scopes platform.sha) commit = .ok () := by
      unfold verifyClearConversationIdentity identityInput
      rw [hsealed.edition]
      exact happlied.validateClearEffect hsealed rfl hproper
    obtain ⟨after, hends⟩ := exists_ends_finishClear
      (u := committedHome settled (.clear plan) db) hprepared rfl heffect
    refine ⟨after, hends, ?_⟩
    intro w hcrash
    exact recoverPending_of_committed hsize rfl hprepared.valid
      (commitOn_of_applied hsealed happlied)
      ((isCommitted_eq platform.sha plan commit).trans (hsealed.matchesClear hproper)) hends hcrash

/-- A call of a process. -/
inductive ChatCall where
  | save (id : String) (token : Uuid) (now : Instant)
  | clear (all : Bool) (nonce : Uuid) (now : Instant)

def ChatCall.run (platform : Platform) (state : AbbeyState) : ChatCall → ChatM Unit
  | .save id token now => saveChat platform state id token now
  | .clear all nonce now => clearChat platform state all nonce now

/-- The token that the call commits under is not that of the marker. -/
def ChatCall.Fresh (platform : Platform) (state : AbbeyState) (home : Home) : ChatCall → Prop
  | .save _ token _ => FreshToken platform.sha home.db token.text
  | .clear all nonce _ => ∀ settled plan,
    Ends (recoverPending platform state.edition) home () settled →
    prepareClearPlan platform state all nonce settled = .ok plan →
      FreshToken platform.sha home.db plan.mutationToken

/-- The line that a save adds to the history, after a line break where the
last line has none. -/
def appendedHistory (before : Option Bytes) (line : String) : Bytes :=
  let bytes := before.getD []
  (if bytes ≠ [] ∧ bytes.getLast? ≠ some 0x0a then bytes ++ [0x0a] else bytes) ++ utf8 line

theorem desiredBytes_history (h : desiredBytes platform .history plan commit before = .ok desired) :
    desired = appendedHistory before (platform.stamp commit.committedAt ++ "\t" ++
      plan.externalId ++ "\t" ++ plan.cwdDisplay ++ "\n") := by
  unfold desiredBytes at h
  simp only [bind_ok_iff, ensure_eq_ok, Except.ok.injEq] at h
  obtain ⟨_, _, rfl⟩ := h
  rfl

theorem finishSave_applied (h : Ends (finishSave platform edition plan commit) home () t) :
    ∀ snapshot ∈ plan.targets, IsApplied platform plan commit snapshot t := by
  obtain ⟨hvalid, mid, hloop, rfl⟩ := finishSave_ends h
  have hmid : ∀ snapshot ∈ plan.targets, IsApplied platform plan commit snapshot mid := by
    refine done_of_ends_forM (IsApplied platform plan commit) ?_ ?_ hloop
    · intro snapshot _ s t hends
      exact isApplied_of_ends hends
    · refine List.Pairwise.imp ?_ (List.pairwise_map.mp (validatePlan_paths hvalid).1)
      intro a b hne s t happlied hcrash
      exact isApplied_of_crash hne happlied hcrash
  exact hmid

/-- A save that ends has added its line to the history once. -/
theorem history_of_ends_saveChat (hsound : home.Sound platform)
    (hfresh : FreshToken platform.sha home.db token.text)
    (hsettled : Ends (recoverPending platform state.edition) home () settled)
    (h : Ends (saveChat platform state id token now) home () t) :
    contents t.files .history = some (appendedHistory (contents settled.files .history)
      (platform.stamp now ++ "\t" ++ trim id ++ "\t" ++ toStringLossy state.cwd ++ "\n")) := by
  rw [saveChat_eq] at h
  obtain ⟨id', hid, hrun⟩ := ends_lift_bind.mp h
  obtain ⟨rfl, _⟩ := trim_eq_of_validate hid
  unfold runPlan at hrun
  obtain ⟨_, settled', hsettled', hrest⟩ := ends_bind_iff.mp hrun
  rw [(hsettled'.unique hsettled).2] at hrest
  obtain ⟨plan, hplan, hwriting⟩ := ends_read_bind.mp hrest
  obtain ⟨_, written, hwritten, hcommitting⟩ := ends_commit_bind.mp hwriting
  obtain ⟨commit, committed, hcommitted, hfinish⟩ := ends_commit_bind.mp hcommitting
  simp only [bind_ok_iff, Except.ok.injEq, Prod.mk.injEq, and_true] at hwritten hcommitted
  obtain ⟨_, _, rfl⟩ := hwritten
  obtain ⟨⟨db, commit'⟩, htransact, rfl, rfl⟩ := hcommitted
  have hprepared := preparePlan_eq_ok hplan
  have hsame : settled.db = home.db := db_of_crash_recoverPending hsettled.crash
  have htime : commit'.committedAt = now := by
    refine (save_applied ?_ ?_ (mapErr_eq_ok.mp htransact)).1
    · show commitOn platform.sha settled.db = .ok settled.db.commit
      rw [hsame]
      exact hsound.marker
    · rw [hprepared.mutationToken]
      show FreshToken platform.sha settled.db token.text
      rw [hsame]
      exact hfresh
  obtain ⟨desired, hdesired, hcontents⟩ := finishSave_applied hfinish _ hprepared.history
  rw [desiredBytes_history hdesired, htime, hprepared.externalId, hprepared.cwdDisplay] at hcontents
  exact hcontents

theorem recoverPending_of_readChat (h : Ends (readChat platform state) home answer t) :
    Ends (recoverPending platform state.edition) home () t := by
  unfold readChat at h
  obtain ⟨_, settled, hsettled, hread⟩ := ends_bind_iff.mp h
  rw [(ends_read.mp hread).2]
  exact hsettled

theorem chatCall_atomic {call : ChatCall} (hsound : home.Sound platform)
    (hfresh : call.Fresh platform state home)
    (hsettled : Ends (recoverPending platform state.edition) home () settled)
    (hcrash : Crash (call.run platform state) home u)
    (hagain : ReflTransGen (Crash (recoverPending platform state.edition)) u v) :
    ∃ after, Ends (recoverPending platform state.edition) v () after ∧
      (u.db = home.db → after = settled) ∧
      (u.db ≠ home.db → Ends (call.run platform state) home () after) := by
  have hsame : settled.db = home.db := db_of_crash_recoverPending hsettled.crash
  have hnone := journal_of_ends_recoverPending hsettled
  have hmarker : commitOn platform.sha settled.db = .ok settled.db.commit := by
    rw [hsame]
    exact hsound.marker
  cases call with
  | save id token now =>
    have htoken : FreshToken platform.sha settled.db token.text := by
      rw [hsame]
      exact hfresh
    change Crash (saveChat platform state id token now) home u at hcrash
    rw [saveChat_eq] at hcrash
    rcases crash_lift_bind hcrash with rfl | ⟨id', hid, hrunning⟩
    · refine ⟨settled, recoverPending_resumes_all hsound.written hsettled hagain, fun _ => rfl, ?_⟩
      intro hne
      exact absurd rfl hne
    · obtain ⟨rfl, _⟩ := trim_eq_of_validate hid
      have hatomic := runPlan_atomic hsound.written hsettled (fun plan hplan hsize =>
        recoverable_save hnone hmarker (preparePlan_eq_ok hplan) (trim_trim id) htoken hsize)
        hrunning hagain
      obtain ⟨after, hends, hbefore, hafter⟩ := hatomic
      refine ⟨after, hends, hbefore, ?_⟩
      intro hne
      exact ends_lift_bind.mpr ⟨trim id, hid, hafter hne⟩
  | clear all nonce now =>
    change Crash (clearChat platform state all nonce now) home u at hcrash
    rw [clearChat_eq] at hcrash
    have hplans : ∀ plan, prepareClearPlan platform state all nonce settled = .ok plan →
        platform.journalSize (.clear plan) ≤ maxJournalBytes →
        Recoverable platform state.edition settled (.clear plan) (transactClear platform now plan)
          (finishClear platform state.edition plan) := by
      intro plan hplan hsize
      refine recoverable_clear hnone hmarker (prepareClearPlan_eq_ok hplan) ?_ hsize
      rw [hsame]
      exact hfresh settled plan hsettled hplan
    obtain ⟨after, hends, hbefore, hafter⟩ :=
      runPlan_atomic hsound.written hsettled hplans hcrash hagain
    refine ⟨after, hends, hbefore, ?_⟩
    intro hne
    show Ends (clearChat platform state all nonce now) home () after
    rw [clearChat_eq]
    exact hafter hne

def sampleUuid : Uuid := ⟨"0b5c3f2e-7d1a-4c9e-8f60-2a1b3c4d5e6f", by decide, by decide⟩

/-- The digests of `sampleDigests` and that of the token. -/
def samplePlatform : Platform where
  sha := fun message => digest32 ((((utf8 "abbey:conversation-identity-mutation:v1\x00" ++
    utf8 sampleUuid.text, 0xd43aee71b7b6bf45237dee0cf97337ed1f30451e833a9a9640f8954a6acaf4f3) ::
      sampleDigests).lookup message).getD 0)
  root := utf8 "/home/u/.abbey"
  stamp := fun _ => "2025-10-09T08:53:20.000Z"
  stamp_short := fun _ => by decide
  journalSize := fun _ => 491

def sampleState : AbbeyState := ⟨.safe, false, utf8 "/w"⟩

def sampleSave : ChatCall := .save "chat-1\n" sampleUuid sampleCall.now

end Calls

/-! ## What the program leaves is sound -/

section Soundness

end Soundness

end Abbey.Mirror
