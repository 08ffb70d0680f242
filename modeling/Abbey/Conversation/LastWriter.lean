import Abbey.Conversation.Replay

/-!
# The last writer wins

The runs of the ledger: any sequence of saves, clears and reopens of a
fresh store.  `Named` is the invariant, and `identity_ledger_refines` what
it gives for every reader and for the next call.
-/

namespace Abbey.Conversation

open Abbey.Lib
open Abbey.Run (ConversationId Instant StoreError maxRfc3339Ms)

/-- The ledger as a system. -/
def IdentityLedger.next (sha : Sha256) (s : IdentityLedger) (step : IdentityStep) :
    Option IdentityLedger :=
  some (s.step sha step)

/-- A ledger that reflects its history, whose names come from the run. -/
structure Named (sha : Sha256) (names : Names) (s : IdentityLedger) : Prop where
  reflects : Reflects sha s
  within : ∀ m ∈ s.log, m.Within names

section Runs

variable {sha : Sha256} {names : Names} {s t : IdentityLedger} {call : IdentityCall} {m : Mutation}
variable {log : List Mutation} {edition : String}

theorem Named.initial (sha : Sha256) (names : Names) : Named sha names .initial :=
  ⟨Reflects.initial sha, fun _ hm => absurd hm List.not_mem_nil⟩

theorem mutation_within (hcall : call.Within names) (hproper : call.request.Proper)
    (commit : IdentityCommit) : (call.mutation commit).Within names := by
  obtain ⟨edition, request, token, now⟩ := call
  refine ⟨hcall.edition, hcall.token, ?_, ?_⟩
  · intro scopes id hchange
    cases request with
    | save scopes' externalId =>
      cases hchange
      exact hcall.ids scopes externalId rfl
    | clear scopes' =>
      have hclear : clearChange scopes' = .save scopes id := hchange
      unfold clearChange at hclear
      split at hclear
      · cases hclear
      · cases hclear
  · intro scopes hscopes hnonempty
    cases request with
    | save scopes' externalId =>
      cases hscopes
      exact hcall.scopeSets _ (.inr ⟨externalId, rfl⟩)
    | clear scopes' =>
      have hclear : (clearChange scopes').scopes = scopes := hscopes
      cases scopes' with
      | none =>
        cases hclear
        exact absurd rfl hnonempty
      | some list =>
        obtain ⟨scope, rfl⟩ := List.length_eq_one_iff.mp (hproper list rfl)
        cases hclear
        exact hcall.scopeSets [scope] (.inl rfl)

theorem record_last (h : log.getLast? = some m) : record log m = log := by
  unfold record
  rw [if_pos h]

theorem record_fresh (h : ∀ n ∈ log, n.token ≠ m.token) : record log m = log ++ [m] := by
  unfold record
  rw [if_neg]
  intro hlast
  exact h m (List.mem_of_getLast? hlast) rfl

theorem step_of_ok {db : IdentityDb} {commit : IdentityCommit}
    (h : call.run sha s.db = .ok (db, commit)) :
    s.step sha (.mutate call) = ⟨db, record s.log (call.mutation commit)⟩ := by
  simp only [IdentityLedger.step, h]

theorem step_of_error {error : StoreError} (h : call.run sha s.db = .error error) :
    s.step sha (.mutate call) = s := by
  simp only [IdentityLedger.step, h]

section

variable (hfree : CollisionFree sha names)

include hfree

/-- What a call does to the ledger: nothing, or it appends one entry under
a fresh token. -/
theorem step_cases (h : Named sha names s) (hcall : call.Within names) :
    s.step sha (.mutate call) = s ∨ ∃ db commit, call.run sha s.db = .ok (db, commit) ∧
      s.step sha (.mutate call) = ⟨db, s.log ++ [call.mutation commit]⟩ ∧
      Named sha names ⟨db, s.log ++ [call.mutation commit]⟩ := by
  cases hrun : call.run sha s.db with
  | error error => exact .inl (step_of_error hrun)
  | ok result =>
    obtain ⟨db, commit⟩ := result
    obtain ⟨hproper, hcases⟩ := run_cases hfree h.reflects h.within hcall hrun
    rcases hcases with ⟨rfl, hlast⟩ | ⟨hsealed, happlied, hfresh⟩
    · left
      rw [step_of_ok hrun, record_last hlast]
    · right
      refine ⟨db, commit, rfl, ?_, h.reflects.append hsealed happlied, ?_⟩
      · rw [step_of_ok hrun, record_fresh hfresh]
      · intro m hm
        rcases List.mem_append.mp hm with hold | hnew
        · exact h.within m hold
        · rw [List.mem_singleton.mp hnew]
          exact mutation_within hcall hproper commit

theorem Named.step (h : Named sha names s) {step : IdentityStep}
    (hstep : step.Within names) : Named sha names (s.step sha step) := by
  cases step with
  | reopen => exact h
  | mutate call =>
    rcases step_cases hfree h hstep with hsame | ⟨db, commit, _, happend, hnamed⟩
    · rw [hsame]
      exact h
    · rw [happend]
      exact hnamed

theorem Named.run
    (hrun : Steps (IdentityLedger.next sha) (fun _ step => step.Within names) .initial s) :
    Named sha names s := by
  refine hrun.invariant ?_ (Named.initial sha names)
  intro s step t hs hstep hnext
  cases hnext
  exact hs.step hfree hstep

/-! ## Reading -/

theorem Named.selection (h : Named sha names s) (hedition : edition ∈ names.editions)
    (hplain : isPlain edition maxEditionSlugBytes) (scope : ConversationIdentityScope) :
    identityScopeSelection sha s.db edition scope = .ok (expected sha s.log edition scope) := by
  have hdigest : editionSha256 sha edition = .ok (digestParts sha
      "abbey:conversation-identity-edition:v1\x00" (utf8 edition)) := by
    unfold editionSha256
    rw [if_pos hplain]
  refine selection_of_reflects h.reflects hdigest ?_ scope
  intro m hm hsame
  have hdigest' := (h.reflects.sealed m hm).edition
  rw [hsame] at hdigest'
  exact edition_eq_of_digest_eq hfree (h.within m hm).edition hedition hdigest' hdigest

end

theorem selection_of_invalid (db : IdentityDb)
    (hplain : isPlain edition maxEditionSlugBytes = false) (scope : ConversationIdentityScope) :
    identityScopeSelection sha db edition scope =
      .error (.invalidInput "conversation identity material is invalid") := by
  unfold identityScopeSelection editionSha256
  rw [hplain]
  rfl

/-- A mutation of another edition is not read. -/
theorem expected_append (hne : m.edition ≠ edition) (scope : ConversationIdentityScope) :
    expected sha (log ++ [m]) edition scope = expected sha log edition scope := by
  unfold expected
  rw [latest_append, if_neg]
  simp [hne]

/-- A token of the history with other material. -/
theorem run_of_reused_token (hfree : CollisionFree sha names) (h : Named sha names s)
    (hm : m ∈ s.log) (hcall : call.Within names) (htoken : call.token = m.token)
    (hother : ¬ call.Describes m) : ∃ error, call.run sha s.db = .error error := by
  cases hrun : call.run sha s.db with
  | error error => exact ⟨error, rfl⟩
  | ok result =>
    obtain ⟨db, commit⟩ := result
    obtain ⟨hproper, hcases⟩ := run_cases hfree h.reflects h.within hcall hrun
    rcases hcases with ⟨rfl, hlast⟩ | ⟨_, _, hfresh⟩
    · have hmem := List.mem_of_getLast? hlast
      have hdigest := (h.reflects.sealed m hm).token
      have hdigest' : mutationSha256 sha call.token = .ok commit.mutationSha256 :=
        (h.reflects.sealed _ hmem).token
      rw [← htoken, hdigest'] at hdigest
      have hsame : m = call.mutation commit := by
        refine List.inj_on_of_nodup_map h.reflects.digests_nodup hm hmem ?_
        exact (Except.ok.inj hdigest).symm
      refine absurd ?_ hother
      rw [hsame]
      exact ⟨rfl, rfl, hproper, rfl⟩
    · exact absurd htoken.symm (hfresh m hm)

/-- The ledger is a last-writer-wins map: every reader sees the last writer
of its scope, the revisions increase, a mutation of one edition is not seen
in another, a replay of the last mutation answers its commit, a token that
was used answers no other material, and a fresh call commits. -/
theorem identity_ledger_refines (hfree : CollisionFree sha names)
    (hrun : Steps (IdentityLedger.next sha) (fun _ step => step.Within names) .initial s) :
    (∀ edition ∈ names.editions, ∀ scope, identityScopeSelection sha s.db edition scope =
      if isPlain edition maxEditionSlugBytes then .ok (expected sha s.log edition scope)
      else .error (.invalidInput "conversation identity material is invalid")) ∧
    s.log.Pairwise (fun a b => a.commit.revision < b.commit.revision) ∧
    ∀ call : IdentityCall, call.Within names →
      (∀ edition ∈ names.editions, edition ≠ call.edition → ∀ scope,
        identityScopeSelection sha (s.step sha (.mutate call)).db edition scope =
          identityScopeSelection sha s.db edition scope) ∧
      (∀ m, s.log.getLast? = some m → call.Describes m →
        call.run sha s.db = .ok (s.db, m.commit) ∧ s.step sha (.mutate call) = s) ∧
      (∀ m ∈ s.log, call.token = m.token → ¬ call.Describes m →
        (∃ error, call.run sha s.db = .error error) ∧ s.step sha (.mutate call) = s) ∧
      (call.Valid → (∀ m ∈ s.log, m.token ≠ call.token) →
        (s.db.commit.map IdentityCommit.revision).getD 0 < sqliteMax →
        call.now.ms ≤ maxRfc3339Ms → ∃ db commit, call.run sha s.db = .ok (db, commit) ∧
          s.step sha (.mutate call) = ⟨db, s.log ++ [call.mutation commit]⟩) := by
  have hnamed := Named.run hfree hrun
  have hread : ∀ {s}, Named sha names s → ∀ edition ∈ names.editions, ∀ scope,
      identityScopeSelection sha s.db edition scope =
        if isPlain edition maxEditionSlugBytes then .ok (expected sha s.log edition scope)
        else .error (.invalidInput "conversation identity material is invalid") := by
    intro s hs edition hedition scope
    split_ifs with hplain
    · exact hs.selection hfree hedition hplain scope
    · exact selection_of_invalid s.db (by simpa using hplain) scope
  refine ⟨hread hnamed, hnamed.reflects.ranks, ?_⟩
  intro call hcall
  refine ⟨?_, ?_, ?_, ?_⟩
  · intro edition hedition hne scope
    rcases step_cases hfree hnamed hcall with hsame | ⟨db, commit, _, happend, hnext⟩
    · rw [hsame]
    · rw [happend, hread hnext edition hedition scope, hread hnamed edition hedition scope,
        expected_append (show (call.mutation commit).edition ≠ edition from hne.symm)]
  · intro m hlast hdescribes
    have hreplay := run_of_describes hnamed.reflects hlast hdescribes
    have hmutation : call.mutation m.commit = m := by
      obtain ⟨hedition, hchange, _, htoken⟩ := hdescribes
      unfold IdentityCall.mutation
      rw [hedition, hchange, htoken]
    refine ⟨hreplay, ?_⟩
    rw [step_of_ok hreplay, hmutation, record_last hlast]
  · intro m hm htoken hother
    obtain ⟨error, herror⟩ := run_of_reused_token hfree hnamed hm hcall htoken hother
    exact ⟨⟨error, herror⟩, step_of_error herror⟩
  · intro hvalid hfresh hroom htime
    obtain ⟨db, commit, hok⟩ :=
      run_of_fresh hfree hnamed.reflects hnamed.within hcall hvalid hfresh hroom htime
    refine ⟨db, commit, hok, ?_⟩
    rw [step_of_ok hok, record_fresh hfresh]

end Runs

/-! ## A run -/

/-- The SHA-256 digests of the messages that one save of `chat-1` under the
token `t1` hashes. -/
def sampleDigests : List (List UInt8 × Nat) :=
  [(utf8 "abbey:conversation-identity-edition:v1\x00abbey",
      0xeaf4fae2badd02bdcf7273c98841adb8e48e68bc7002cf88fcb5efade40d1062),
    (utf8 "abbey:conversation-identity-mutation:v1\x00t1",
      0x89026c9710fe8b63419dfa57f543da370780b66064938554047b9f1eb7116942),
    (utf8 "abbey:legacy-conversation-alias:v1\x00chat-1",
      0x9683844ba3f4250def48972bd5d839380a0fb69aeb233f775e705c0cd4a8aa0d),
    (utf8 "abbey:conversation-identity-scope-set:v1\x00" ++ beBytes 1 ++
      utf8 "f1bd9beccf2940c1bfd3ce0d274f6b96d41dd1dee3279650016cc9870c78ffba",
      0x7b4726c9623bcd2af384f84818fd9e375af49cd2e7155da9aecae8dbc55f33ad),
    (utf8 "abbey:legacy-conversation:v1\x00chat-1",
      0xfed1a9d37bb088d609275853e315162b34685c88a22204711ef88efaacf6759d),
    (utf8 "abbey:conversation-identity-scope:global:v1\x00",
      0xf1bd9beccf2940c1bfd3ce0d274f6b96d41dd1dee3279650016cc9870c78ffba)]

def sampleSha : Sha256 := fun message => digest32 ((sampleDigests.lookup message).getD 0)

def sampleNames : Names where
  editions := {"abbey"}
  tokens := {"t1"}
  ids := {"chat-1"}
  scopeSets := {[.global sampleSha]}

def sampleCall : IdentityCall :=
  ⟨"abbey", .save [.global sampleSha] "chat-1\n", "t1", ⟨1760000000000, by decide⟩⟩

theorem sampleNames_collisionFree : CollisionFree sampleSha sampleNames := by
  have hinjective : ∀ a ∈ sampleDigests.map Prod.fst, ∀ b ∈ sampleDigests.map Prod.fst,
      sampleSha a = sampleSha b → a = b := by
    decide +kernel
  have hhashed : ∀ message, sampleNames.Hashed message → message ∈ sampleDigests.map Prod.fst := by
    intro message hmessage
    cases hmessage with
    | edition h | token h | id h | scopeSet h =>
      cases h
      decide +kernel
  refine ⟨?_, Set.injOn_singleton _ _⟩
  intro a ha b hb h
  exact hinjective a (hhashed a ha) b (hhashed b hb) h

theorem sampleCall_within : sampleCall.Within sampleNames := by
  refine ⟨rfl, rfl, ?_, ?_⟩
  · intro scopes externalId h
    cases h
    show trim "chat-1\n" = "chat-1"
    decide +kernel
  · rintro scopes (h | ⟨externalId, h⟩)
    · cases h
    · cases h
      rfl

/-- A save on a fresh store is read back. -/
theorem identity_ledger_refines_saved : CollisionFree sampleSha sampleNames ∧
    identityScopeSelection sampleSha
      (IdentityLedger.initial.step sampleSha (.mutate sampleCall)).db "abbey" (.global sampleSha) =
        .ok (.selected (aliasSha256 sampleSha "chat-1") (conversationOf sampleSha "chat-1")) := by
  have hstart : Steps (IdentityLedger.next sampleSha) (fun _ step => step.Within sampleNames)
    .initial .initial := .refl _
  have hvalid : sampleCall.Valid := by
    refine ⟨by decide +kernel, by decide +kernel, ?_⟩
    show isPlain (trim "chat-1\n") maxExternalIdBytes = true ∧ _
    exact ⟨by decide +kernel, List.cons_ne_nil _ _, by decide, List.nodup_singleton _⟩
  have hcommits := (identity_ledger_refines sampleNames_collisionFree hstart).2.2 sampleCall
    sampleCall_within
  obtain ⟨db, commit, _, hstep⟩ := hcommits.2.2.2 hvalid
    (fun m hm => absurd hm List.not_mem_nil) (by decide) (by decide)
  have hread := (identity_ledger_refines sampleNames_collisionFree
    (hstart.tail (show (IdentityStep.mutate sampleCall).Within sampleNames from sampleCall_within)
      rfl)).1 "abbey" rfl (.global sampleSha)
  refine ⟨sampleNames_collisionFree, ?_⟩
  rw [hread, if_pos (by decide +kernel), hstep]
  show Except.ok (expected sampleSha ([] ++ [sampleCall.mutation commit]) "abbey" _) = _
  unfold expected
  rw [latest_append, if_pos]
  · show Except.ok (Change.selection sampleSha (.save [.global sampleSha] (trim "chat-1\n"))) = _
    rw [show trim "chat-1\n" = "chat-1" by decide +kernel]
    rfl
  · simp [sampleCall, IdentityCall.mutation, IdentityRequest.change, Change.covers, Change.scopes]

/-! ## What the tables keep -/

/-- The tables are the history: its receipts in order, the last one as the
commit, the row and the tombstone of the last writer of each scope, and one
conversation for each external id. -/
theorem tables_reflect_history (hfree : CollisionFree sha names)
    (hrun : Steps (IdentityLedger.next sha) (fun _ step => step.Within names) .initial s) :
    Reflects sha s :=
  (Named.run hfree hrun).reflects

theorem tables_reflect_history_saved :
    Reflects sampleSha (IdentityLedger.initial.step sampleSha (.mutate sampleCall)) :=
  tables_reflect_history sampleNames_collisionFree ((Steps.refl _).tail
    (show (IdentityStep.mutate sampleCall).Within sampleNames from sampleCall_within) rfl)

end Abbey.Conversation
