import Abbey.Conversation.Names
import Abbey.Mirror.Chat

/-!
# Recovery resumes

`recover_pending` may be interrupted itself.  `recoverPending_resumes`: a
recovery that runs to its end from a state ends in the same state from
every state that an interruption of it leaves behind.
-/

namespace Abbey.Mirror

open Abbey.Lib Except List
open Abbey.Conversation
open Abbey.Run (ConversationId Instant StoreError isControl)

variable {platform : Platform} {home t u : Home}

/-! ## One target of a save -/

section Targets

variable {plan : JournalPlan} {commit : IdentityCommit} {snapshot : MirrorSnapshot}

theorem applyTarget_cases (h : Ends (applyTarget platform plan commit snapshot) home () t) :
    ∃ desired, desiredBytes platform snapshot.role plan commit snapshot.before = .ok desired ∧
      (contents home.files snapshot.path = some desired ∧ t = home ∨
        t = { home with files := home.files.put ⟨snapshot.path, desired⟩ }) := by
  unfold applyTarget at h
  obtain ⟨desired, hdesired, hrest⟩ := ends_lift_bind.mp h
  obtain ⟨current, hcurrent, hwrite⟩ := ends_read_bind.mp hrest
  obtain ⟨rfl, _⟩ := readOptionalBounded_eq_ok.mp hcurrent
  refine ⟨desired, hdesired, ?_⟩
  split_ifs at hwrite with hsame
  · exact .inl ⟨hsame, (ends_pure.mp hwrite).2⟩
  · obtain ⟨_, _, hcommit⟩ := ends_lift_bind.mp hwrite
    have hok := ends_commit.mp hcommit
    simp only [bind_ok_iff, atomicReplace_eq_ok, ok.injEq, Prod.mk.injEq, and_true] at hok
    obtain ⟨_, ⟨_, rfl⟩, rfl⟩ := hok
    exact .inr rfl

theorem crash_applyTarget (h : Crash (applyTarget platform plan commit snapshot) home u) :
    u = home ∨ Ends (applyTarget platform plan commit snapshot) home () u := by
  unfold applyTarget at h
  rcases crash_lift_bind h with hstart | ⟨desired, hdesired, hrest⟩
  · exact .inl hstart
  rcases crash_read_bind hrest with hstart | ⟨current, hcurrent, hwrite⟩
  · exact .inl hstart
  by_cases hsame : current = some desired
  · rw [if_pos hsame] at hwrite
    exact .inl (crash_pure.mp hwrite)
  · rw [if_neg hsame] at hwrite
    rcases crash_lift_bind hwrite with hstart | ⟨_, hensure, hcommit⟩
    · exact .inl hstart
    rcases crash_commit.mp hcommit with hstart | ⟨_, hok⟩
    · exact .inl hstart
    · right
      unfold applyTarget
      refine ends_lift_bind.mpr ⟨desired, hdesired, ends_read_bind.mpr ⟨current, hcurrent, ?_⟩⟩
      rw [if_neg hsame]
      exact ends_lift_bind.mpr ⟨(), hensure, ends_commit.mpr hok⟩

/-- The mirror holds what the plan wants. -/
def IsApplied (platform : Platform) (plan : JournalPlan) (commit : IdentityCommit)
    (snapshot : MirrorSnapshot) (home : Home) : Prop :=
  ∃ desired, desiredBytes platform snapshot.role plan commit snapshot.before = .ok desired ∧
    contents home.files snapshot.path = some desired

theorem isApplied_of_ends (h : Ends (applyTarget platform plan commit snapshot) home () t) :
    IsApplied platform plan commit snapshot t := by
  obtain ⟨desired, hdesired, ⟨hsame, rfl⟩ | rfl⟩ := applyTarget_cases h
  · exact ⟨desired, hdesired, hsame⟩
  · refine ⟨desired, hdesired, ?_⟩
    rw [contents_put, if_pos rfl]

theorem ends_of_isApplied
    (hbound : ∀ desired, desiredBytes platform snapshot.role plan commit snapshot.before =
      .ok desired → desired.length ≤ targetLimit snapshot.role)
    (h : IsApplied platform plan commit snapshot home) :
    Ends (applyTarget platform plan commit snapshot) home () home := by
  obtain ⟨desired, hdesired, hsame⟩ := h
  unfold applyTarget
  refine ends_lift_bind.mpr ⟨desired, hdesired, ends_read_bind.mpr
    ⟨some desired, readOptionalBounded_eq_ok.mpr ⟨hsame.symm, ?_⟩, ?_⟩⟩
  · intro content hcontent
    rw [hsame] at hcontent
    cases hcontent
    exact hbound desired hdesired
  · rw [if_pos rfl]
    exact ends_pure.mpr ⟨rfl, rfl⟩

theorem isApplied_of_crash (hpath : snapshot.path ≠ other.path)
    (h : IsApplied platform plan commit snapshot home)
    (hcrash : Crash (applyTarget platform plan commit other) home u) :
    IsApplied platform plan commit snapshot u := by
  rcases crash_applyTarget hcrash with rfl | hends
  · exact h
  · obtain ⟨desired, hdesired, hsame⟩ := h
    obtain ⟨_, _, ⟨_, rfl⟩ | rfl⟩ := applyTarget_cases hends
    · exact ⟨desired, hdesired, hsame⟩
    · refine ⟨desired, hdesired, ?_⟩
      rw [contents_put, if_neg (Ne.symm hpath)]
      exact hsame

end Targets

/-! ## The bound of a mirror -/

theorem length_utf8_append (a b : String) :
    (utf8 (a ++ b)).length = (utf8 a).length + (utf8 b).length := by
  simp only [length_utf8, String.utf8ByteSize_append]

theorem bytes_quoted_le (cs : List Char) :
    bytes (cs.flatMap (fun c => if c = '\'' then ['\'', '\\', '\'', '\''] else [c])) ≤
      4 * bytes cs := by
  induction cs with
  | nil => simp
  | cons c cs ih =>
    rw [flatMap_cons, bytes_append, bytes_cons]
    have hquote : bytes (if c = '\'' then ['\'', '\\', '\'', '\''] else [c]) ≤ 4 * c.utf8Size := by
      split_ifs with hc
      · rw [hc]
        decide
      · have hpos := c.utf8Size_pos
        rw [bytes_cons, bytes_nil]
        omega
    omega

theorem length_posixSingleQuote_le (value : String) :
    (utf8 (posixSingleQuote value)).length ≤ 4 * value.utf8ByteSize + 2 := by
  have hquoted := bytes_quoted_le value.toList
  have hend : '\''.utf8Size = 1 := rfl
  rw [length_utf8, posixSingleQuote, utf8ByteSize_ofChars, cons_append, bytes_cons, bytes_append,
    bytes_cons, bytes_nil, hend, utf8ByteSize_eq value]
  omega

/-- The plans that `prepare_plan` writes have trimmed ids, and so their
mirrors stay in their bounds. -/
theorem length_desiredBytes_le (hid : isPlain plan.externalId maxExternalIdBytes)
    (h : desiredBytes platform role plan commit before = .ok desired) :
    desired.length ≤ targetLimit role := by
  have hsize : plan.externalId.utf8ByteSize ≤ 512 := by
    simp only [isPlain, Bool.and_eq_true, decide_eq_true_eq] at hid
    exact hid.1.2
  have hline : (utf8 "\n").length = 1 := rfl
  have hlimit : maxIdFileBytes = 4096 := rfl
  cases role with
  | active | global =>
    cases h
    rw [length_utf8_append, length_utf8, hline]
    show _ ≤ maxIdFileBytes
    omega
  | exported =>
    cases h
    have hquoted := length_posixSingleQuote_le plan.externalId
    have hname : (utf8 "ABBEY_CHAT_ID=").length = 14 := rfl
    rw [length_utf8_append, length_utf8_append, hline, hname]
    show _ ≤ maxIdFileBytes
    omega
  | history =>
    simp only [desiredBytes, bind_ok_iff, ensure_eq_ok, decide_eq_true_eq, ok.injEq] at h
    obtain ⟨_, hbound, rfl⟩ := h
    exact hbound

/-! ## The mirrors of a save -/

section Saves

variable {edition : Edition} {plan : JournalPlan} {commit : IdentityCommit}

theorem trim_eq_of_validate {value id : String} (h : validateExternalId value = .ok id) :
    id = trim value ∧ isPlain id maxExternalIdBytes := by
  unfold validateExternalId at h
  simp only [bind_ok_iff, ensure_eq_ok, ok.injEq] at h
  obtain ⟨_, hplain, rfl⟩ := h
  exact ⟨rfl, hplain⟩

theorem validatePlan_paths (h : validatePlan edition plan = .ok ()) :
    (plan.targets.map MirrorSnapshot.path).Nodup ∧
      isPlain (trim plan.externalId) maxExternalIdBytes := by
  unfold validatePlan at h
  simp only [bind_ok_iff, ensure_eq_ok, decide_eq_true_eq] at h
  obtain ⟨_, _, _, _, id, hid, _, _, _, _, _, _, _, hpaths, _⟩ := h
  obtain ⟨rfl, hplain⟩ := trim_eq_of_validate hid
  exact ⟨hpaths, hplain⟩

/-- The database and the journal are not touched by the mirrors. -/
theorem applyTargets_frame {targets : List MirrorSnapshot}
    (h : Crash (targets.forM (applyTarget platform plan commit)) home u) :
    u.db = home.db ∧ u.journal = home.journal := by
  refine crash_forM_invariant (P := fun h => h.db = home.db ∧ h.journal = home.journal) ?_
    ⟨rfl, rfl⟩ h
  intro snapshot _ s t hs hcrash
  rcases crash_applyTarget hcrash with rfl | hends
  · exact hs
  · obtain ⟨_, _, ⟨_, rfl⟩ | rfl⟩ := applyTarget_cases hends
    · exact hs
    · exact hs

theorem applyTargets_resumes (hvalid : validatePlan edition plan = .ok ())
    (htrim : trim plan.externalId = plan.externalId)
    (hends : Ends (plan.targets.forM (applyTarget platform plan commit)) home () t)
    (hcrash : Crash (plan.targets.forM (applyTarget platform plan commit)) home u) :
    Ends (plan.targets.forM (applyTarget platform plan commit)) u () t := by
  obtain ⟨hpaths, hplain⟩ := validatePlan_paths hvalid
  rw [htrim] at hplain
  refine ends_forM_of_crash (IsApplied platform plan commit) ?_ ?_ ?_ ?_ hends hcrash
  · intro snapshot _ s t h
    exact isApplied_of_ends h
  · intro snapshot _ s h
    exact ends_of_isApplied (fun _ hdesired => length_desiredBytes_le hplain hdesired) h
  · intro snapshot _ s t u h hc
    rcases crash_applyTarget hc with rfl | hends'
    · exact .inl rfl
    · exact .inr (hends'.unique h).2
  · refine List.Pairwise.imp ?_ (pairwise_map.mp hpaths)
    intro a b hne s t h hc
    exact isApplied_of_crash hne h hc

/-- The part of a save after its commit. -/
def finishSave (platform : Platform) (edition : Edition) (plan : JournalPlan)
    (commit : IdentityCommit) : ChatM Unit := do
  applyCommitted platform edition plan commit
  removePending

theorem finishSave_ends (h : Ends (finishSave platform edition plan commit) home () t) :
    validatePlan edition plan = .ok () ∧ ∃ mid,
      Ends (plan.targets.forM (applyTarget platform plan commit)) home () mid ∧
        t = { mid with journal := none } := by
  unfold finishSave applyCommitted at h
  obtain ⟨_, mid, happly, hremove⟩ := ends_bind_iff.mp h
  obtain ⟨_, hvalid, hloop⟩ := ends_lift_bind.mp happly
  have hjournal := ends_commit.mp hremove
  simp only [ok.injEq, Prod.mk.injEq, and_true] at hjournal
  exact ⟨hvalid, mid, hloop, hjournal.symm⟩

theorem ends_finishSave (hvalid : validatePlan edition plan = .ok ())
    (h : Ends (plan.targets.forM (applyTarget platform plan commit)) home () mid) :
    Ends (finishSave platform edition plan commit) home () { mid with journal := none } := by
  unfold finishSave applyCommitted
  refine ends_bind_iff.mpr ⟨(), mid, ends_lift_bind.mpr ⟨(), hvalid, h⟩, ?_⟩
  exact ends_commit.mpr rfl

theorem crash_finishSave (h : Crash (finishSave platform edition plan commit) home u) :
    Crash (plan.targets.forM (applyTarget platform plan commit)) home u ∨
      Ends (finishSave platform edition plan commit) home () u := by
  unfold finishSave applyCommitted at h
  rcases crash_bind h with hinside | ⟨_, mid, happly, hremove⟩
  · rcases crash_lift_bind hinside with hstart | ⟨_, _, hloop⟩
    · rw [hstart]
      exact .inl (.start _ _)
    · exact .inl hloop
  · obtain ⟨_, hvalid, hloop⟩ := ends_lift_bind.mp happly
    rcases crash_commit.mp hremove with hstart | ⟨_, hremoved⟩
    · rw [hstart]
      exact .inl hloop.crash
    · simp only [ok.injEq, Prod.mk.injEq, and_true] at hremoved
      rw [← hremoved]
      exact .inr (ends_finishSave hvalid hloop)

/-- An interrupted end of a save goes on. -/
theorem finishSave_resumes (htrim : trim plan.externalId = plan.externalId)
    (hends : Ends (finishSave platform edition plan commit) home () t)
    (hcrash : Crash (finishSave platform edition plan commit) home u) :
    u = t ∨ u.db = home.db ∧ u.journal = home.journal ∧
      Ends (finishSave platform edition plan commit) u () t := by
  obtain ⟨hvalid, mid, hloop, rfl⟩ := finishSave_ends hends
  rcases crash_finishSave hcrash with hinside | hdone
  · obtain ⟨hdb, hjournal⟩ := applyTargets_frame hinside
    have hresumed := applyTargets_resumes hvalid htrim hloop hinside
    exact .inr ⟨hdb, hjournal, ends_finishSave hvalid hresumed⟩
  · exact .inl (hdone.unique hends).2

end Saves

/-! ## The mirrors of a clear -/

section Clears

variable {edition : Edition} {plan : ClearPlan} {commit : IdentityCommit} {target : ClearTarget}
variable {targets : List ClearTarget}

theorem removeTarget_cases (h : Ends (removeTarget target) home () t) :
    (contents home.files target.path = none ∧ t = home) ∨
      t = { home with files := removeMirror home.files target.path } := by
  unfold removeTarget at h
  obtain ⟨current, hcurrent, hrest⟩ := ends_read_bind.mp h
  obtain ⟨rfl, _⟩ := readOptionalBounded_eq_ok.mp hcurrent
  obtain ⟨_, _, hremove⟩ := ends_lift_bind.mp hrest
  split_ifs at hremove with hsome
  · have hremoved := ends_commit.mp hremove
    simp only [ok.injEq, Prod.mk.injEq, and_true] at hremoved
    exact .inr hremoved.symm
  · rw [Option.not_isSome_iff_eq_none] at hsome
    exact .inl ⟨hsome, (ends_pure.mp hremove).2⟩

theorem crash_removeTarget (h : Crash (removeTarget target) home u) :
    u = home ∨ Ends (removeTarget target) home () u := by
  unfold removeTarget at h
  rcases crash_read_bind h with hstart | ⟨current, hcurrent, hrest⟩
  · exact .inl hstart
  rcases crash_lift_bind hrest with hstart | ⟨_, hensure, hremove⟩
  · exact .inl hstart
  by_cases hsome : current.isSome
  · rw [if_pos hsome] at hremove
    rcases crash_commit.mp hremove with hstart | ⟨_, hremoved⟩
    · exact .inl hstart
    · right
      unfold removeTarget
      refine ends_read_bind.mpr ⟨current, hcurrent, ends_lift_bind.mpr ⟨(), hensure, ?_⟩⟩
      rw [if_pos hsome]
      exact ends_commit.mpr hremoved
  · rw [if_neg hsome] at hremove
    exact .inl (crash_pure.mp hremove)

theorem removed_of_ends (h : Ends (removeTarget target) home () t) :
    contents t.files target.path = none := by
  rcases removeTarget_cases h with ⟨hnone, rfl⟩ | rfl
  · exact hnone
  · rw [contents_remove, if_pos rfl]

theorem ends_of_removed (h : contents home.files target.path = none) :
    Ends (removeTarget target) home () home := by
  unfold removeTarget
  refine ends_read_bind.mpr ⟨none, readOptionalBounded_eq_ok.mpr ⟨h.symm, ?_⟩, ?_⟩
  · intro content hcontent
    rw [h] at hcontent
    cases hcontent
  · exact ends_lift_bind.mpr ⟨(), rfl, ends_pure.mpr ⟨rfl, rfl⟩⟩

/-- A removal touches neither the database nor the journal, and adds no
file. -/
structure Removed (home u : Home) : Prop where
  db : u.db = home.db
  journal : u.journal = home.journal
  entries : ∀ path ∈ cwdEntries u.files, path ∈ cwdEntries home.files

theorem Removed.refl (home : Home) : Removed home home := ⟨rfl, rfl, fun _ h => h⟩

theorem Removed.remove (h : Removed home u) (path : MirrorPath) :
    Removed home { u with files := removeMirror u.files path } := by
  refine ⟨h.db, h.journal, ?_⟩
  intro other hother
  refine h.entries other ?_
  unfold cwdEntries removeMirror Table.delete at hother
  obtain ⟨hmem, hcwd⟩ := mem_filter.mp hother
  obtain ⟨row, hrow, rfl⟩ := mem_map.mp hmem
  exact mem_filter.mpr
    ⟨mem_map.mpr ⟨row, (mem_filter.mp hrow).1, rfl⟩, hcwd⟩

theorem removeTargets_frame (h : Crash (targets.forM removeTarget) home u) : Removed home u := by
  refine crash_forM_invariant (P := Removed home) ?_ (.refl home) h
  intro target _ s t hs hcrash
  rcases crash_removeTarget hcrash with rfl | hends
  · exact hs
  · rcases removeTarget_cases hends with ⟨_, rfl⟩ | rfl
    · exact hs
    · exact hs.remove target.path

theorem removeTargets_resumes (hends : Ends (targets.forM removeTarget) home () t)
    (hcrash : Crash (targets.forM removeTarget) home u) :
    Ends (targets.forM removeTarget) u () t := by
  refine ends_forM_of_crash (fun target home => contents home.files target.path = none)
    ?_ ?_ ?_ ?_ hends hcrash
  · intro target _ s t h
    exact removed_of_ends h
  · intro target _ s h
    exact ends_of_removed h
  · intro target _ s t u h hc
    rcases crash_removeTarget hc with rfl | hends'
    · exact .inl rfl
    · exact .inr (hends'.unique h).2
  · refine pairwise_of_forall ?_
    intro a b s t h hc
    rcases crash_removeTarget hc with rfl | hends'
    · exact h
    · rcases removeTarget_cases hends' with ⟨_, rfl⟩ | rfl
      · exact h
      · rw [contents_remove]
        split_ifs
        · rfl
        · exact h

/-- A plan that is valid stays valid while its mirrors are removed. -/
theorem validateClearPlan_of_subset (hsubset : ∀ path ∈ cwdEntries files', path ∈ cwdEntries files)
    (h : validateClearPlan sha root edition files plan = .ok ()) :
    validateClearPlan sha root edition files' plan = .ok () := by
  unfold validateClearPlan at h ⊢
  cases hoperation : plan.operation with
  | clearScope =>
    rw [hoperation] at h
    cases hperCwd : plan.perCwd with
    | true | false =>
      rw [hperCwd] at h
      exact h
  | clearAll =>
    rw [hoperation] at h
    simp only [bind_ok_iff, ensure_eq_ok] at h ⊢
    obtain ⟨_, hschema, _, hedition, _, hbinding, _, hcount, _, hpaths, _, hbound, _, hroles, _,
      hpair, _, hcwd, hentries⟩ := h
    refine ⟨(), hschema, (), hedition, (), hbinding, (), hcount, (), hpaths, (), hbound, (), hroles,
      (), hpair, (), hcwd, ?_⟩
    rw [all_eq_true] at hentries ⊢
    intro path hpath
    exact hentries path (hsubset path hpath)

/-- The part of a clear after its commit. -/
def finishClear (platform : Platform) (edition : Edition) (plan : ClearPlan)
    (commit : IdentityCommit) : ChatM Unit := do
  ensureCommitEffect platform plan commit
  applyClearCommitted platform edition plan
  removePending

/-- The checks that a clear makes before it removes mirrors. -/
def ClearReady (platform : Platform) (edition : Edition) (plan : ClearPlan)
    (commit : IdentityCommit) (home : Home) : Prop :=
  verifyClearConversationIdentity platform.sha home.db plan.editionSlug (plan.scopes platform.sha)
    commit = .ok () ∧
  validateClearPlan platform.sha platform.root edition home.files plan = .ok ()

theorem finishClear_ends (h : Ends (finishClear platform edition plan commit) home () t) :
    ClearReady platform edition plan commit home ∧ ∃ mid,
      Ends (plan.targets.forM removeTarget) home () mid ∧ t = { mid with journal := none } := by
  unfold finishClear ensureCommitEffect applyClearCommitted at h
  obtain ⟨_, heffect, hrest⟩ := ends_read_bind.mp h
  obtain ⟨_, mid, happly, hremove⟩ := ends_bind_iff.mp hrest
  obtain ⟨_, hvalid, hloop⟩ := ends_read_bind.mp happly
  have hjournal := ends_commit.mp hremove
  simp only [ok.injEq, Prod.mk.injEq, and_true] at hjournal
  exact ⟨⟨mapErr_eq_ok.mp heffect, hvalid⟩, mid, hloop, hjournal.symm⟩

theorem ends_finishClear (hready : ClearReady platform edition plan commit home)
    (h : Ends (plan.targets.forM removeTarget) home () mid) :
    Ends (finishClear platform edition plan commit) home () { mid with journal := none } := by
  unfold finishClear ensureCommitEffect applyClearCommitted
  refine ends_read_bind.mpr ⟨(), mapErr_eq_ok.mpr hready.1, ends_bind_iff.mpr ⟨(), mid, ?_, ?_⟩⟩
  · exact ends_read_bind.mpr ⟨(), hready.2, h⟩
  · exact ends_commit.mpr rfl

theorem crash_finishClear (h : Crash (finishClear platform edition plan commit) home u) :
    Crash (plan.targets.forM removeTarget) home u ∨
      Ends (finishClear platform edition plan commit) home () u := by
  unfold finishClear ensureCommitEffect applyClearCommitted at h
  rcases crash_read_bind h with hstart | ⟨_, heffect, hrest⟩
  · rw [hstart]
    exact .inl (.start _ _)
  rcases crash_bind hrest with hinside | ⟨_, mid, happly, hremove⟩
  · rcases crash_read_bind hinside with hstart | ⟨_, _, hloop⟩
    · rw [hstart]
      exact .inl (.start _ _)
    · exact .inl hloop
  · obtain ⟨_, hvalid, hloop⟩ := ends_read_bind.mp happly
    rcases crash_commit.mp hremove with hstart | ⟨_, hremoved⟩
    · rw [hstart]
      exact .inl hloop.crash
    · simp only [ok.injEq, Prod.mk.injEq, and_true] at hremoved
      rw [← hremoved]
      exact .inr (ends_finishClear ⟨mapErr_eq_ok.mp heffect, hvalid⟩ hloop)

/-- An interrupted end of a clear goes on. -/
theorem finishClear_resumes (hends : Ends (finishClear platform edition plan commit) home () t)
    (hcrash : Crash (finishClear platform edition plan commit) home u) :
    u = t ∨ Removed home u ∧ Ends (finishClear platform edition plan commit) u () t := by
  obtain ⟨⟨heffect, hvalid⟩, mid, hloop, rfl⟩ := finishClear_ends hends
  rcases crash_finishClear hcrash with hinside | hdone
  · have hframe := removeTargets_frame hinside
    have hready : ClearReady platform edition plan commit u := by
      refine ⟨?_, validateClearPlan_of_subset hframe.entries hvalid⟩
      rw [hframe.db]
      exact heffect
    exact .inr ⟨hframe, ends_finishClear hready (removeTargets_resumes hloop hinside)⟩
  · exact .inl (hdone.unique hends).2

end Clears

/-! ## Both kinds of plan -/

section Plans

variable {check : Home → Except ChatError Unit} {context : String}
  {isCommitted : IdentityCommit → Bool} {finish : IdentityCommit → ChatM Unit}
variable {committed : Option IdentityCommit}

/-- What the two recoveries have in common: the plan is checked, and it is
finished when the marker of the database is its own. -/
def recoverWith (platform : Platform) (check : Home → Except ChatError Unit) (context : String)
    (isCommitted : IdentityCommit → Bool) (finish : IdentityCommit → ChatM Unit) : ChatM Unit := do
  .read check
  let committed ← .read (fun home => fromStore context (commitOn platform.sha home.db))
  match committed.filter isCommitted with
  | some commit => finish commit
  | none => removePending

theorem recoverWith_cases (h : Ends (recoverWith platform check context isCommitted finish) home () t) :
    check home = .ok () ∧ ∃ committed, commitOn platform.sha home.db = .ok committed ∧
      ((∃ commit, committed.filter isCommitted = some commit ∧ Ends (finish commit) home () t) ∨
      committed.filter isCommitted = none ∧ t = { home with journal := none }) := by
  unfold recoverWith at h
  obtain ⟨_, hcheck, hrest⟩ := ends_read_bind.mp h
  obtain ⟨committed, hcommitted, hfinish⟩ := ends_read_bind.mp hrest
  refine ⟨hcheck, committed, mapErr_eq_ok.mp hcommitted, ?_⟩
  cases hfilter : committed.filter isCommitted with
  | some commit =>
    rw [hfilter] at hfinish
    exact .inl ⟨commit, rfl, hfinish⟩
  | none =>
    rw [hfilter] at hfinish
    have hremoved := ends_commit.mp hfinish
    simp only [ok.injEq, Prod.mk.injEq, and_true] at hremoved
    exact .inr ⟨rfl, hremoved.symm⟩

theorem ends_recoverWith_some (hcheck : check home = .ok ())
    (hcommitted : commitOn platform.sha home.db = .ok committed)
    (hfilter : committed.filter isCommitted = some commit)
    (hfinish : Ends (finish commit) home () t) :
    Ends (recoverWith platform check context isCommitted finish) home () t := by
  unfold recoverWith
  refine ends_read_bind.mpr ⟨(), hcheck, ends_read_bind.mpr
    ⟨committed, mapErr_eq_ok.mpr hcommitted, ?_⟩⟩
  rw [hfilter]
  exact hfinish

theorem ends_recoverWith_none (hcheck : check home = .ok ())
    (hcommitted : commitOn platform.sha home.db = .ok committed)
    (hfilter : committed.filter isCommitted = none) :
    Ends (recoverWith platform check context isCommitted finish) home ()
      { home with journal := none } := by
  unfold recoverWith
  refine ends_read_bind.mpr ⟨(), hcheck, ends_read_bind.mpr
    ⟨committed, mapErr_eq_ok.mpr hcommitted, ?_⟩⟩
  rw [hfilter]
  exact ends_commit.mpr rfl

theorem crash_recoverWith (h : Crash (recoverWith platform check context isCommitted finish) home u) :
    u = home ∨ Ends (recoverWith platform check context isCommitted finish) home () u ∨
      ∃ committed commit, commitOn platform.sha home.db = .ok committed ∧
        committed.filter isCommitted = some commit ∧ Crash (finish commit) home u := by
  unfold recoverWith at h
  rcases crash_read_bind h with hstart | ⟨_, hcheck, hrest⟩
  · exact .inl hstart
  rcases crash_read_bind hrest with hstart | ⟨committed, hcommitted, hfinish⟩
  · exact .inl hstart
  have hmarker := mapErr_eq_ok.mp hcommitted
  cases hfilter : committed.filter isCommitted with
  | some commit =>
    rw [hfilter] at hfinish
    exact .inr (.inr ⟨committed, commit, hmarker, hfilter, hfinish⟩)
  | none =>
    rw [hfilter] at hfinish
    rcases crash_commit.mp hfinish with hstart | ⟨_, hremoved⟩
    · exact .inl hstart
    · simp only [ok.injEq, Prod.mk.injEq, and_true] at hremoved
      rw [← hremoved]
      exact .inr (.inl (ends_recoverWith_none hcheck hmarker hfilter))

end Plans

/-! ## The journal -/

section Journals

variable {edition : Edition} {journal : Journal}

/-- The recovery of one journal. -/
def recoverJournal (platform : Platform) (edition : Edition) : Journal → ChatM Unit
  | .save plan => recoverWith platform (fun _ => validatePlan edition plan)
    "canonical conversation commit marker could not be read" (plan.isCommitted platform.sha)
    (finishSave platform edition plan)
  | .clear plan => recoverWith platform
    (fun home => validateClearPlan platform.sha platform.root edition home.files plan)
    "canonical conversation clear marker could not be read" (plan.isCommitted platform.sha)
    (finishClear platform edition plan)

theorem ends_recoverPending_none (hnone : home.journal = none) :
    Ends (recoverPending platform edition) home () t ↔ t = home := by
  unfold recoverPending
  rw [ends_read_bind]
  constructor
  · rintro ⟨journal, hjournal, h⟩
    rw [hnone] at hjournal
    cases hjournal
    exact (ends_pure.mp h).2
  · rintro rfl
    exact ⟨none, by rw [hnone], ends_pure.mpr ⟨rfl, rfl⟩⟩

theorem ends_recoverPending_some (hsome : home.journal = some journal) :
    Ends (recoverPending platform edition) home () t ↔
      platform.journalSize journal ≤ maxJournalBytes ∧
        Ends (recoverJournal platform edition journal) home () t := by
  unfold recoverPending
  rw [ends_read_bind]
  constructor
  · rintro ⟨found, hfound, h⟩
    rw [hsome] at hfound
    cases hfound
    obtain ⟨_, hsize, hrest⟩ := ends_lift_bind.mp h
    rw [ensure_eq_ok, decide_eq_true_eq] at hsize
    refine ⟨hsize, ?_⟩
    cases journal <;> exact hrest
  · rintro ⟨hsize, h⟩
    refine ⟨some journal, by rw [hsome], ends_lift_bind.mpr ⟨(), by simpa using hsize, ?_⟩⟩
    cases journal <;> exact h

theorem crash_recoverPending (h : Crash (recoverPending platform edition) home u) :
    u = home ∨ ∃ journal, home.journal = some journal ∧
      Crash (recoverJournal platform edition journal) home u := by
  unfold recoverPending at h
  rcases crash_read_bind h with hstart | ⟨found, hfound, hrest⟩
  · exact .inl hstart
  have hjournal : home.journal = found := ok.inj hfound
  cases found with
  | none => exact .inl (crash_pure.mp hrest)
  | some journal =>
    rcases crash_lift_bind hrest with hstart | ⟨_, _, hrecover⟩
    · exact .inl hstart
    · refine .inr ⟨journal, hjournal, ?_⟩
      cases journal <;> exact hrecover

/-- The plans that `prepare_plan` writes: their id is trimmed. -/
def Home.Written (home : Home) : Prop :=
  ∀ plan, home.journal = some (.save plan) → trim plan.externalId = plan.externalId

/-- A recovery that was interrupted can be run again: it ends where the
first one would have ended. -/
theorem recoverPending_resumes (hwritten : home.Written)
    (hends : Ends (recoverPending platform edition) home () t)
    (hcrash : Crash (recoverPending platform edition) home u) :
    u.Written ∧ Ends (recoverPending platform edition) u () t := by
  rcases crash_recoverPending hcrash with rfl | ⟨journal, hjournal, hinside⟩
  · exact ⟨hwritten, hends⟩
  obtain ⟨hsize, hrecover⟩ := (ends_recoverPending_some hjournal).mp hends
  have hkept : u.journal = home.journal → u.Written := by
    intro hsame plan hplan
    exact hwritten plan (hsame.symm.trans hplan)
  have hended : t.journal = none → u = t → u.Written ∧ Ends (recoverPending platform edition) u () t := by
    intro hnone hsame
    rw [hsame]
    refine ⟨?_, (ends_recoverPending_none hnone).mpr rfl⟩
    intro plan hplan
    rw [hnone] at hplan
    cases hplan
  cases journal with
  | save plan =>
    have htrim := hwritten plan hjournal
    obtain ⟨hcheck, committed, hmarker, hcases⟩ := recoverWith_cases hrecover
    have hnone : t.journal = none := by
      rcases hcases with ⟨_, _, hfinish⟩ | ⟨_, rfl⟩
      · obtain ⟨_, _, _, rfl⟩ := finishSave_ends hfinish
        rfl
      · rfl
    rcases crash_recoverWith hinside with rfl | hdone | ⟨committed', commit, hmarker', hfilter, hfinishing⟩
    · exact ⟨hwritten, hends⟩
    · exact hended hnone (hdone.unique hrecover).2
    · rw [hmarker, ok.injEq] at hmarker'
      rw [← hmarker'] at hfilter
      rw [hfilter] at hcases
      rcases hcases with ⟨_, hsame, hfinish⟩ | ⟨hnot, _⟩
      · cases hsame
        rcases finishSave_resumes htrim hfinish hfinishing with hend | ⟨hdb, hsame, hresumed⟩
        · exact hended hnone hend
        · refine ⟨hkept hsame, (ends_recoverPending_some (hsame.trans hjournal)).mpr ⟨hsize, ?_⟩⟩
          exact ends_recoverWith_some hcheck (by rw [hdb]; exact hmarker) hfilter hresumed
      · cases hnot
  | clear plan =>
    obtain ⟨hcheck, committed, hmarker, hcases⟩ := recoverWith_cases hrecover
    have hnone : t.journal = none := by
      rcases hcases with ⟨_, _, hfinish⟩ | ⟨_, rfl⟩
      · obtain ⟨_, _, _, rfl⟩ := finishClear_ends hfinish
        rfl
      · rfl
    rcases crash_recoverWith hinside with rfl | hdone | ⟨committed', commit, hmarker', hfilter, hfinishing⟩
    · exact ⟨hwritten, hends⟩
    · exact hended hnone (hdone.unique hrecover).2
    · rw [hmarker, ok.injEq] at hmarker'
      rw [← hmarker'] at hfilter
      rw [hfilter] at hcases
      rcases hcases with ⟨_, hsame, hfinish⟩ | ⟨hnot, _⟩
      · cases hsame
        rcases finishClear_resumes hfinish hfinishing with hend | ⟨hframe, hresumed⟩
        · exact hended hnone hend
        · refine ⟨hkept hframe.journal,
            (ends_recoverPending_some (hframe.journal.trans hjournal)).mpr ⟨hsize, ?_⟩⟩
          exact ends_recoverWith_some (validateClearPlan_of_subset hframe.entries hcheck)
            (by rw [hframe.db]; exact hmarker) hfilter hresumed
      · cases hnot

/-- The same for any number of interrupted recoveries. -/
theorem recoverPending_resumes_all (hwritten : home.Written)
    (hends : Ends (recoverPending platform edition) home () t)
    (hcrashes : Relation.ReflTransGen (Crash (recoverPending platform edition)) home u) :
    Ends (recoverPending platform edition) u () t := by
  have hboth : u.Written ∧ Ends (recoverPending platform edition) u () t := by
    induction hcrashes with
    | refl => exact ⟨hwritten, hends⟩
    | tail _ hstep ih => exact recoverPending_resumes ih.1 ih.2 hstep
  exact hboth.2

end Journals

end Abbey.Mirror
