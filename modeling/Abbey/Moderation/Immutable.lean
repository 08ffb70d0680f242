import Abbey.Moderation.Publication

/-!
# A case has one immutable life

The file changes by `apply` only (`transact_upholds`), and `apply` adds an
event or changes nothing.  So every store of a run passes its checks and can
be loaded again, and extends the stores before it (`case_has_one_life`).
-/

namespace Abbey.Moderation

open Abbey.Lib Abbey.Run CaseStore

variable {digests : Digests} {size : CaseStore → Nat}
variable {change : Change}

/-! ## Applying -/

section Apply

variable {mutation : Mutation} {store : CaseStore}

/-- A call of `apply` turned the store into another one, with this answer. -/
def Answers (digests : Digests) (mutation : Mutation) (store next : CaseStore) (id : String)
    (change : Change) : Prop :=
  ∃ policy policyDigest now,
    store.apply digests mutation policy policyDigest now = (next, .ok (id, change))

theorem apply_of_error
    (h : (store.apply digests mutation policy policyDigest now).2 = .error error) :
    (store.apply digests mutation policy policyDigest now).1 = store := by
  cases hcase : store.applyInner digests mutation policy policyDigest now with
  | error _ =>
    unfold apply
    rw [hcase]
  | ok _ =>
    unfold apply at h
    rw [hcase] at h
    cases h

theorem Answers.extends {next : CaseStore} {id : String}
    (h : Answers digests mutation store next id change) (hvalid : store.validate digests = .ok ()) :
    next.validate digests = .ok () ∧ store.Extends next ∧ Observed digests mutation next := by
  obtain ⟨policy, policyDigest, now, happly⟩ := h
  have hcases := apply_cases digests store mutation policy policyDigest now
  rw [happly] at hcases
  cases hcases with
  | observed _ hobserved => exact ⟨hvalid, .refl store, hobserved⟩
  | added _ hnext hextends _ hobserved => exact ⟨hnext, hextends, hobserved⟩

/-- Applying again what is there changes nothing. -/
theorem apply_of_observed (h : Observed digests mutation store) (policy : ShadowPolicy)
    (policyDigest : String) (now : Nat) :
    (store.apply digests mutation policy policyDigest now).1 = store ∧
      ∀ id change, (store.apply digests mutation policy policyDigest now).2 = .ok (id, change) →
        change = .alreadyObserved := by
  have hcases := apply_cases digests store mutation policy policyDigest now
  generalize store.apply digests mutation policy policyDigest now = result at hcases
  cases hcases with
  | refused error => exact ⟨rfl, nofun⟩
  | observed id _ => exact ⟨rfl, fun id change hok => by cases hok; rfl⟩
  | added id _ _ hnew _ _ => exact absurd h hnew

end Apply

/-! ## The transaction -/

/-- The store that the next process loads. -/
def Disk.stored (disk : Disk) : CaseStore := disk.store.getD .default

theorem loadAt_ok (h : loadAt digests reads disk = .ok store) : store = disk.stored := by
  unfold loadAt at h
  obtain ⟨_, _, h⟩ := bind_ok_iff.mp h
  unfold Disk.stored
  cases hstore : disk.store with
  | none =>
    rw [hstore] at h
    cases h
    rfl
  | some store' =>
    rw [hstore] at h
    obtain ⟨_, _, h⟩ := bind_ok_iff.mp h
    cases h
    rfl

section Transact

variable {α : Type} {I P : Option CaseStore → Prop} {Q : α → Option CaseStore → Prop}

theorem lease_upholds
    (h : Upholds (fun d => I d.store) (fun d => P d.store) body (fun a d => Q a d.store))
    (hI : ∀ store, P store → I store) (hmark : ∀ value d, (mark value d).store = d.store) :
    Upholds (fun d => I d.store) (fun d => P d.store) (lease file held mark body)
      (fun a d => Q a d.store) := by
  have hcreate : Upholds (fun d => I d.store) (fun d => P d.store)
      (.commit (fun disk => do
        ensure (file.opens && !held disk) "contextual lease held; owner review required after crash"
        .ok (mark true disk, ())) : Commit Unit) (fun _ d => P d.store) := by
    apply upholds_commit fun d hd => hI _ hd
    intro s t a hs ht
    obtain ⟨_, _, ht⟩ := bind_ok_iff.mp ht
    cases ht
    rw [hmark]
    exact ⟨hI _ hs, hs⟩
  refine hcreate.bind fun _ => Upholds.closing ?_ ?_ ?_
  · exact (upholds_lift (fun d hd => hI _ hd) fun _ _ hs _ => hs).bind fun _ => h
  · intro result d hd
    split_ifs
    · rw [hmark]
      exact hd
    · exact hd
  · intro a d hd
    split_ifs
    · rw [hmark]
      exact hd
    · exact hd

theorem publish_upholds (env : Env) (store : CaseStore) (beforeRename : Except String Unit)
    (hI : ∀ store, P store → I store) (hstore : I (some store)) :
    Upholds (fun d => I d.store) (fun d => P d.store)
      (publish digests size env store beforeRename) (fun _ d => d.store = some store) := by
  have hcreate : Upholds (fun d => I d.store) (fun d => P d.store)
      (.commit (fun disk => do
        ensure (env.pending.opens && !disk.pending) "contextual pending file requires owner review"
        .ok ({ disk with pending := true }, ())) : Commit Unit) (fun _ d => P d.store) := by
    apply upholds_commit fun d hd => hI _ hd
    intro s t a hs ht
    obtain ⟨_, _, ht⟩ := bind_ok_iff.mp ht
    cases ht
    exact ⟨hI _ hs, hs⟩
  have hrename : Upholds (fun d => I d.store) (fun d => P d.store)
      (.commit (fun disk => do
        ensure env.renames "contextual publication failed"
        .ok ({ disk with store := some store, pending := false }, ())) : Commit Unit)
      (fun _ d => d.store = some store) := by
    apply upholds_commit fun d hd => hI _ hd
    intro s t a hs ht
    obtain ⟨_, _, ht⟩ := bind_ok_iff.mp ht
    cases ht
    exact ⟨hstore, rfl⟩
  have hkeep : ∀ {r : Except String Unit}, Upholds (fun d => I d.store) (fun d => P d.store)
      (.lift r : Commit Unit) (fun _ d => P d.store) :=
    upholds_lift (fun d hd => hI _ hd) fun _ _ hs _ => hs
  have hafter : ∀ {r : Except String Unit}, Upholds (fun d : Disk => I d.store)
      (fun d => d.store = some store) (.lift r : Commit Unit) (fun _ d => d.store = some store) :=
    upholds_lift (fun d hd => hd ▸ hstore) fun _ _ hs _ => hs
  refine hkeep.bind fun _ => hkeep.bind fun _ => hcreate.bind fun _ => Upholds.bind ?_ fun _ =>
    hafter.bind fun _ => hafter.bind fun _ => hafter.bind fun _ =>
    (upholds_read (fun d hd => hd ▸ hstore) fun _ _ hs _ => hs).bind fun _ => hafter
  refine Upholds.closing (hkeep.bind fun _ => hkeep.bind fun _ => hkeep.bind fun _ => hrename) ?_ ?_
  · intro result d hd
    show I (if result.isOk then d else _ : Disk).store
    split_ifs
    · exact hd
    · exact hd
  · intro a d hd
    exact hd

end Transact

/-- The file holds what it held, or what `apply` made of it. -/
def Kept (digests : Digests) (mutation : Mutation) (before : Disk) (file : Option CaseStore) :
    Prop :=
  file = before.store ∨
    ∃ next id change, Answers digests mutation before.stored next id change ∧ file = some next

/-- The file holds what `apply` made of it, and the receipt says so. -/
def Written (digests : Digests) (mutation : Mutation) (before : Disk)
    (receipt : PublicationReceipt) (file : Option CaseStore) : Prop :=
  ∃ next, Answers digests mutation before.stored next receipt.caseId receipt.change ∧
    file = some next

theorem transact_upholds (env : Env) (expectedPolicyDigest : String) (mutation : Mutation)
    (before : Disk) :
    Upholds (fun d => Kept digests mutation before d.store) (fun d => d.store = before.store)
      (transact digests size env expectedPolicyDigest mutation)
      (fun receipt d => Written digests mutation before receipt d.store) := by
  have hI : ∀ file, file = before.store → Kept digests mutation before file := fun _ => .inl
  have hkeep : ∀ {β : Type} {r : Except String β},
      Upholds (fun d => Kept digests mutation before d.store) (fun d => d.store = before.store)
        (.lift r : Commit β) (fun _ d => d.store = before.store) :=
    upholds_lift (fun d hd => hI _ hd) fun _ _ hs _ => hs
  unfold transact leasePolicyControl
  refine lease_upholds (I := Kept digests mutation before) (P := (· = before.store)) ?_ hI
    fun _ _ => rfl
  refine hkeep.bind fun policy => hkeep.bind fun _ => hkeep.bind fun _ =>
    (upholds_read (fun d hd => hI _ hd) fun _ _ hs _ => hs).bind fun _ => hkeep.bind fun _ =>
    hkeep.bind fun _ => ?_
  unfold leaseShadowControl
  refine lease_upholds (I := Kept digests mutation before) (P := (· = before.store)) ?_ hI
    fun _ _ => rfl
  refine hkeep.bind fun _ => hkeep.bind fun _ => ?_
  have hread : Upholds (fun d => Kept digests mutation before d.store)
      (fun d => d.store = before.store) (.read (loadAt digests env.readCurrent) : Commit CaseStore)
      (fun current d => d.store = before.store ∧ current = before.stored) := by
    apply upholds_read fun d hd => hI _ hd
    intro d current hd hload
    refine ⟨hd, ?_⟩
    rw [loadAt_ok hload]
    unfold Disk.stored
    rw [hd]
  refine hread.bind fun current => upholds_of_states fun d ⟨hd, hcurrent⟩ =>
    Upholds.pre ?_ fun _ heq => heq ▸ hd
  have happly : Upholds (fun d => Kept digests mutation before d.store)
      (fun d => d.store = before.store)
      (.lift (current.apply digests mutation policy.1 policy.2 env.appliedAt).2 :
        Commit (String × Change))
      (fun answer d => d.store = before.store ∧ Answers digests mutation before.stored
        (current.apply digests mutation policy.1 policy.2 env.appliedAt).1 answer.1 answer.2) := by
    apply upholds_lift fun d hd => hI _ hd
    intro d answer hd hanswer
    exact ⟨hd, policy.1, policy.2, env.appliedAt, by rw [← hcurrent, ← hanswer]⟩
  refine happly.bind fun answer => upholds_of_states fun d ⟨hd, hanswers⟩ =>
    Upholds.pre ?_ fun _ heq => heq ▸ hd
  have hafter : Kept digests mutation before
      (some (current.apply digests mutation policy.1 policy.2 env.appliedAt).1) :=
    .inr ⟨_, _, _, hanswers, rfl⟩
  refine hkeep.bind fun _ => (publish_upholds (I := Kept digests mutation before)
    (P := (· = before.store)) env _ _ hI hafter).bind fun _ => ?_
  refine (upholds_read (fun d hd => hd ▸ hafter) fun _ _ hs _ => hs).bind fun observed =>
    (upholds_lift (fun d hd => hd ▸ hafter) fun _ _ hs _ => hs).bind fun c =>
    upholds_pure (fun d hd => hd ▸ hafter) fun d hd => ?_
  exact ⟨_, hanswers, hd⟩

variable {before d : Disk} {mutation : Mutation}

theorem stored_of_kept (h : Kept digests mutation before d.store) : d.stored = before.stored ∨
      ∃ id change, Answers digests mutation before.stored d.stored id change := by
  rcases h with hsame | ⟨next, id, change, hanswers, hnext⟩
  · left
    unfold Disk.stored
    rw [hsame]
  · right
    unfold Disk.stored at hanswers ⊢
    rw [hnext]
    exact ⟨id, change, hanswers⟩

/-! ## Runs -/

/-- The next process can load the file. -/
def Loads (digests : Digests) (disk : Disk) : Prop := disk.stored.validate digests = .ok ()

/-- One event: the file can still be loaded, and records what it recorded. -/
theorem step_extends {event : Event} (hbefore : Loads digests before)
    (hstep : next digests size before event = some d) :
    Loads digests d ∧ before.stored.Extends d.stored := by
  have hcrash : ∀ {env : Env} {expectedPolicyDigest : String} {mutation : Mutation},
      Crash (transact digests size env expectedPolicyDigest mutation) before d →
        Loads digests d ∧ before.stored.Extends d.stored := by
    intro env expectedPolicyDigest mutation hcrash
    have hkept := (transact_upholds env expectedPolicyDigest mutation before).crash _ _ rfl hcrash
    rcases stored_of_kept hkept with hsame | ⟨id, change, hanswers⟩
    · unfold Loads
      rw [hsame]
      exact ⟨hbefore, .refl _⟩
    · obtain ⟨hvalid, hextends, _⟩ := hanswers.extends hbefore
      exact ⟨hvalid, hextends⟩
  cases event with
  | transact env expectedPolicyDigest mutation =>
    cases hstep
    exact hcrash (crash_final _ before)
  | crash env expectedPolicyDigest mutation steps =>
    cases hstep
    exact hcrash (crash_cut steps _ before)
  | ownerReview =>
    cases hstep
    exact ⟨hbefore, .refl _⟩

theorem run_extends (hbefore : Loads digests before)
    (hrun : Steps (next digests size) anyStep before d) :
    Loads digests d ∧ before.stored.Extends d.stored := by
  induction hrun with
  | refl => exact ⟨hbefore, .refl _⟩
  | tail _ _ hstep ih =>
    obtain ⟨hloads, hextends⟩ := ih
    obtain ⟨hloads', hextends'⟩ := step_extends hloads hstep
    exact ⟨hloads', hextends.trans hextends'⟩

/-- What holds of a disk in every run. -/
structure OneLife (digests : Digests) (size : CaseStore → Nat) (disk : Disk) : Prop where
  /-- the store can be loaded again -/
  loads : Loads digests disk
  /-- revisions count events, and the actors are different -/
  lives : disk.stored.Lives
  /-- what is recorded stays -/
  keeps : ∀ later, Steps (next digests size) anyStep disk later →
    disk.stored.Extends later.stored
  /-- a call that fails changes nothing -/
  refused : ∀ mutation policy policyDigest now error,
    (disk.stored.apply digests mutation policy policyDigest now).2 = .error error →
      (disk.stored.apply digests mutation policy policyDigest now).1 = disk.stored
  /-- a call that succeeds keeps what is recorded -/
  applied : ∀ mutation store id change, Answers digests mutation disk.stored store id change →
    store.validate digests = .ok () ∧ disk.stored.Extends store
  /-- once a call succeeded, it adds nothing to any later store -/
  repeated : ∀ mutation store id change, Answers digests mutation disk.stored store id change →
    ∀ later, store.Extends later → ∀ policy policyDigest now,
      (later.apply digests mutation policy policyDigest now).1 = later ∧
        ∀ id change, (later.apply digests mutation policy policyDigest now).2 = .ok (id, change) →
          change = .alreadyObserved
  /-- once a transaction succeeded, its retries add nothing, wherever they are
  interrupted -/
  republished : ∀ mutation env expectedPolicyDigest receipt written,
    Ends (transact digests size env expectedPolicyDigest mutation) disk receipt written →
    ∀ later, Steps (next digests size) anyStep written later → ∀ env' expectedPolicyDigest',
      (∀ left, Crash (transact digests size env' expectedPolicyDigest' mutation) later left →
        left.stored = later.stored) ∧
      ∀ receipt' left,
        Ends (transact digests size env' expectedPolicyDigest' mutation) later receipt' left →
          receipt'.change = .alreadyObserved

theorem Answers.repeated {id : String} (h : Observed digests mutation store)
    (hagain : Answers digests mutation store later id change) :
    later = store ∧ change = .alreadyObserved := by
  obtain ⟨policy, policyDigest, now, happly⟩ := hagain
  obtain ⟨hsame, hchange⟩ := apply_of_observed h policy policyDigest now
  rw [happly] at hsame hchange
  exact ⟨hsame, hchange id change rfl⟩

/-- In every run from a disk that can be loaded, every case has one immutable
life. -/
theorem case_has_one_life {before d : Disk} (hbefore : Loads digests before)
    (hrun : Steps (next digests size) anyStep before d) : OneLife digests size d := by
  have hloads := (run_extends hbefore hrun).1
  refine ⟨hloads, lives_of_validate hloads, fun later hlater =>
    (run_extends hloads hlater).2, fun _ _ _ _ _ => apply_of_error, ?_, ?_, ?_⟩
  · intro mutation store id change hanswers
    obtain ⟨hvalid, hextends, _⟩ := hanswers.extends hloads
    exact ⟨hvalid, hextends⟩
  · intro mutation store id change hanswers later hlater
    exact apply_of_observed ((hanswers.extends hloads).2.2.extends hlater)
  · intro mutation env expectedPolicyDigest receipt written hends later hlater env' expected'
    obtain ⟨next, hanswers, hnext⟩ :=
      (transact_upholds env expectedPolicyDigest mutation d).ends _ _ _ rfl hends
    obtain ⟨hvalid, _, hobserved⟩ := hanswers.extends hloads
    have hwritten : written.stored = next := by
      unfold Disk.stored
      rw [hnext]
      rfl
    have hloadsWritten : Loads digests written := by
      unfold Loads
      rw [hwritten]
      exact hvalid
    have hlaterObserved : Observed digests mutation later.stored :=
      hobserved.extends (hwritten ▸ (run_extends hloadsWritten hlater).2)
    have hretry := @transact_upholds digests size env' expected' mutation later
    refine ⟨fun left hcrash => ?_, fun receipt' left hends' => ?_⟩
    · rcases stored_of_kept (hretry.crash _ _ rfl hcrash) with hsame | ⟨id, change, hagain⟩
      · exact hsame
      · exact (hagain.repeated hlaterObserved).1
    · obtain ⟨next', hagain, _⟩ := hretry.ends _ _ _ rfl hends'
      exact (hagain.repeated hlaterObserved).2

/-! ## An interrupted appeal -/

def sampleDigest : String := String.ofList (List.replicate 64 'a')

def sampleDigests : Digests := ⟨fun source => toString source.message, fun _ _ _ => sampleDigest⟩

def sampleSource : SourceVersion := ⟨1, 5, 9, 20, 100, none, sampleDigest⟩

def sampleFacts (actor now : Nat) : NativeAuthorityFacts :=
  ⟨1, 2, actor, 5, now, true, true, true, true, true, true, some sampleSource⟩

def sampleInput : Input :=
  ⟨1, 5, 9, 20, 20, true, true, false, false, true, true, true, .confirmedOffending, .serious⟩

def sampleCapture : Mutation :=
  let authority : FreshAuthority := ⟨sampleFacts 30 200, by decide +kernel⟩
  .capture ⟨sampleSource, sampleInput, authority, by decide +kernel⟩

def sampleAppeal : Mutation :=
  .appeal ⟨"9", 1⟩ ⟨sampleFacts 20 210, by decide +kernel⟩ .attributionWrong

def samplePolicy : ShadowPolicy := ⟨1, 2, false, ⟨true, {5}, none⟩⟩

/-- Everything answers, at a reading of the clock. -/
def answering (now : Nat) : Env :=
  let file : OwnedFile := ⟨true, true, true⟩
  let digest : Except String String := .ok sampleDigest
  ⟨.ok (samplePolicy, sampleDigest), digest, digest, digest, now, now, now, now, now, file, file,
    file, .ok (), .ok (), .ok (), .ok (), .ok (), true, true, true, .ok (), true⟩

/-- The appeal is interrupted after its rename, and made again. -/
def sampleEvents : List Event := [
  .transact (answering 200) sampleDigest sampleCapture,
  .crash (answering 210) sampleDigest sampleAppeal 4,
  .ownerReview,
  .transact (answering 211) sampleDigest sampleAppeal]

theorem case_has_one_life_sample : ∃ d : Disk,
    (d.stored.get "9").map (fun c => (c.revision, c.captured.actor, c.appeal.isSome)) =
      some (2, 30, true) ∧ d.stored.revision = 2 ∧ OneLife sampleDigests (fun _ => 0) d := by
  have hruns : (run (next sampleDigests (fun _ => 0)) .empty sampleEvents).any (fun d =>
      (d.stored.get "9").map (fun c => (c.revision, c.captured.actor, c.appeal.isSome)) =
        some (2, 30, true) ∧ d.stored.revision = 2) = true := by
    decide +kernel
  obtain ⟨d, hd, hcase⟩ := (Option.any_eq_true _ _).mp hruns
  obtain ⟨hcase, hrevision⟩ := of_decide_eq_true hcase
  have hempty : Loads sampleDigests .empty := validate_default
  exact ⟨d, hcase, hrevision, case_has_one_life hempty (steps_of_run hd)⟩

end Abbey.Moderation
