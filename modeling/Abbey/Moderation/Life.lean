import Abbey.Moderation.Cases

/-!
# The life of a case

`Lives` says what the checks of a stored case amount to: the revision counts
the events, and those who act on the case are different.  `Extends` compares
two versions of a case: what the first records, the second records too.
`apply_cases` is the only way a store changes, and `Observed` is what an
applied mutation leaves behind.
-/

namespace Abbey.Moderation

open Abbey.Lib Abbey.Run Option List

variable {digests : Digests}
variable {c : Case} {provenance : Provenance}
variable {expected : ExpectedCase} {authority : FreshAuthority} {mutation : Mutation}
  {changed : Option CaseStore} {actor : Nat}

/-! ## What the checks say -/

/-- The events of a case are counted, and nobody acts twice. -/
structure Case.Lives (c : Case) : Prop where
  revision : c.revision = 1 + (c.review.toList.length + c.appeal.toList.length +
    c.resolution.toList.length)
  actors : (c.source.author :: c.captured.actor :: (c.reviewer.toList ++ c.resolver.toList)).Nodup
  appellant : ∀ appeal, c.appeal = some appeal →
    appeal.provenance.actor = c.source.author ∧ appeal.provenance.origin = c.source.channel

theorem Case.length_events (c : Case) : c.events.length =
    c.review.toList.length + c.appeal.toList.length + c.resolution.toList.length := by
  unfold events
  rw [length_append, length_append]
  cases c.review <;> cases c.appeal <;> cases c.resolution <;> rfl

theorem Case.actor_of_validateReview (h : c.validateReview = .ok ())
    (hactor : c.reviewer = some actor) : actor ≠ c.source.author ∧ actor ≠ c.captured.actor := by
  unfold validateReview at h
  unfold reviewer at hactor
  cases hreview : c.review with
  | none =>
    rw [hreview] at hactor
    cases hactor
  | some review =>
    rw [hreview] at h hactor
    cases hactor
    simp only [bind_ok_iff, ensure_eq_ok, Bool.and_eq_true, decide_eq_true_eq] at h
    exact h.choose_spec.2

theorem Case.appellant_of_validateAppeal (h : c.validateAppeal = .ok ()) {appeal : Appeal}
    (happeal : c.appeal = some appeal) :
    appeal.provenance.actor = c.source.author ∧ appeal.provenance.origin = c.source.channel := by
  unfold validateAppeal at h
  rw [happeal] at h
  simp only [bind_ok_iff, ensure_eq_ok, Bool.and_eq_true, decide_eq_true_eq] at h
  obtain ⟨_, _, _, happellant, _⟩ := h
  exact happellant

theorem Case.resolver_of_validateAppeal (h : c.validateAppeal = .ok ())
    (hactor : c.resolver = some actor) :
    actor ≠ c.source.author ∧ actor ≠ c.captured.actor ∧ c.reviewer ≠ some actor := by
  unfold validateAppeal at h
  unfold resolver resolution at hactor
  cases happeal : c.appeal with
  | none =>
    rw [happeal] at hactor
    cases hactor
  | some appeal =>
    rw [happeal] at h hactor
    cases hresolution : appeal.resolution with
    | none =>
      rw [bind_some, hresolution] at hactor
      cases hactor
    | some resolution =>
      rw [bind_some, hresolution] at hactor
      cases hactor
      simp only [hresolution, bind_ok_iff, ensure_eq_ok, Bool.and_eq_true, decide_eq_true_eq] at h
      obtain ⟨_, _, _, _, _, _, ⟨⟨hauthor, hcaptor⟩, hreviewer⟩, _⟩ := h
      exact ⟨hauthor, hcaptor, hreviewer⟩

/-- A case that passes its checks lives. -/
theorem Case.lives_of_validate (h : c.validate digests = .ok ()) : c.Lives := by
  unfold Case.validate at h
  simp only [bind_ok_iff, ensure_eq_ok, Bool.and_eq_true, decide_eq_true_eq] at h
  obtain ⟨_, _, _, _, id, _, _, ⟨⟨⟨⟨_, hcaptor⟩, _⟩, _⟩, _⟩, _, hreview, _, happeal, _, _, hrevision⟩ := h
  refine ⟨by rw [hrevision, Case.length_events, Nat.add_comm], ?_,
    fun appeal => Case.appellant_of_validateAppeal happeal⟩
  have hreviewer : ∀ actor ∈ c.reviewer.toList,
      actor ≠ c.source.author ∧ actor ≠ c.captured.actor := fun actor hactor =>
    Case.actor_of_validateReview hreview (mem_toList.mp hactor)
  have hresolver : ∀ actor ∈ c.resolver.toList, actor ≠ c.source.author ∧
      actor ≠ c.captured.actor ∧ c.reviewer ≠ some actor := fun actor hactor =>
    Case.resolver_of_validateAppeal happeal (mem_toList.mp hactor)
  rw [nodup_cons, nodup_cons, mem_cons, mem_append, mem_append]
  refine ⟨?_, ?_, ?_⟩
  · rintro (heq | hmem | hmem)
    · exact hcaptor heq.symm
    · exact (hreviewer _ hmem).1 rfl
    · exact (hresolver _ hmem).1 rfl
  · rintro (hmem | hmem)
    · exact (hreviewer _ hmem).2 rfl
    · exact (hresolver _ hmem).2.1 rfl
  · rw [nodup_append]
    refine ⟨?_, ?_, ?_⟩
    · cases c.reviewer <;> simp
    · cases c.resolver <;> simp
    · intro actor hmem other hother heq
      rw [← heq] at hother
      exact (hresolver actor hother).2.2 (mem_toList.mp hmem)

/-! ## Stores -/

namespace CaseStore

/-- The revisions of the cases. -/
def revisions (store : CaseStore) : List Nat :=
  store.cases.rows.map (fun row => row.2.revision)

theorem validateCases_ok (h : validateCases digests rows events = .ok total) :
    (∀ row ∈ rows, row.2.validate digests = .ok () ∧ row.1 = row.2.id) ∧
      total = events + (rows.map (fun row => row.2.revision)).sum := by
  induction rows generalizing events with
  | nil =>
    cases h
    simp
  | cons row rows ih =>
    obtain ⟨key, c⟩ := row
    unfold validateCases at h
    simp only [bind_ok_iff, ensure_eq_ok, required_eq_ok, decide_eq_true_eq] at h
    obtain ⟨_, hvalid, _, hkey, next, hnext, hrest⟩ := h
    obtain ⟨hrows, htotal⟩ := ih hrest
    have hnext : events + c.revision = next := by
      unfold checkedAdd at hnext
      split_ifs at hnext
      exact some.inj hnext
    refine ⟨?_, ?_⟩
    · intro row hrow
      rcases mem_cons.mp hrow with rfl | hrow
      · exact ⟨hvalid, hkey⟩
      · exact hrows row hrow
    · rw [map_cons, sum_cons]
      show total = events + (c.revision + _)
      omega

/-- A store that passes its checks: every case lives under its id, and the
revision is the sum of theirs. -/
structure Lives (store : CaseStore) : Prop where
  cases : ∀ id c, store.get id = some c → c.Lives ∧ c.id = id
  revision : store.revision = store.revisions.sum

variable {store : CaseStore}

theorem get_eq_some {id : String} :
    store.get id = some c ↔ (id, c) ∈ store.cases.rows := by
  unfold get
  rw [map_eq_some_iff]
  constructor
  · rintro ⟨⟨key, c'⟩, hfind, rfl⟩
    obtain ⟨hmem, rfl⟩ := Table.find_eq_some_iff.mp hfind
    exact hmem
  · intro hmem
    exact ⟨(id, c), Table.find_eq_some_iff.mpr ⟨hmem, rfl⟩, rfl⟩

theorem lives_of_validate (h : store.validate digests = .ok ()) :
    store.Lives := by
  unfold validate at h
  simp only [bind_ok_iff, ensure_eq_ok, decide_eq_true_eq] at h
  obtain ⟨_, _, events, hcases, hrevision⟩ := h
  obtain ⟨hrows, htotal⟩ := validateCases_ok hcases
  refine ⟨fun id c hc => ?_, ?_⟩
  · obtain ⟨hvalid, hid⟩ := hrows _ (get_eq_some.mp hc)
    exact ⟨Case.lives_of_validate hvalid, hid.symm⟩
  · rw [← hrevision, htotal, Nat.zero_add]
    rfl

theorem validate_default : default.validate digests = .ok () := rfl

theorem get_put {revision : Nat} {id other : String} :
    (CaseStore.mk store.version revision (store.cases.put (id, c))).get other =
      if id = other then some c else store.get other := by
  unfold get
  rw [Table.find_put]
  split_ifs
  · rfl
  · rfl

end CaseStore

/-! ## Later versions -/

/-- Nothing of an appeal changes but that it is resolved. -/
def Appeal.Extends (old new : Appeal) : Prop :=
  new.expectedRevision = old.expectedRevision ∧ new.reason = old.reason ∧
    new.provenance = old.provenance ∧
    ∀ resolution, old.resolution = some resolution → new.resolution = some resolution

/-- What a case records, a later version of it records too. -/
structure Case.Extends (old new : Case) : Prop where
  id : new.id = old.id
  source : new.source = old.source
  assessment : new.assessment = old.assessment
  severity : new.severity = old.severity
  disposition : new.disposition = old.disposition
  captured : new.captured = old.captured
  review : ∀ review, old.review = some review → new.review = some review
  appeal : ∀ appeal, old.appeal = some appeal →
    ∃ later, new.appeal = some later ∧ appeal.Extends later

theorem Appeal.Extends.refl (a : Appeal) : a.Extends a := ⟨rfl, rfl, rfl, fun _ h => h⟩

theorem Appeal.Extends.trans {a b c : Appeal} (h : a.Extends b) (h' : b.Extends c) : a.Extends c :=
  ⟨h'.1.trans h.1, h'.2.1.trans h.2.1, h'.2.2.1.trans h.2.2.1,
    fun resolution hres => h'.2.2.2 resolution (h.2.2.2 resolution hres)⟩

theorem Case.Extends.refl (c : Case) : c.Extends c :=
  ⟨rfl, rfl, rfl, rfl, rfl, rfl, fun _ h => h, fun appeal h => ⟨appeal, h, .refl appeal⟩⟩

theorem Case.Extends.trans {a b : Case} (h : a.Extends b) (h' : b.Extends c) : a.Extends c where
  id := h'.id.trans h.id
  source := h'.source.trans h.source
  assessment := h'.assessment.trans h.assessment
  severity := h'.severity.trans h.severity
  disposition := h'.disposition.trans h.disposition
  captured := h'.captured.trans h.captured
  review review hreview := h'.review review (h.review review hreview)
  appeal appeal happeal := by
    obtain ⟨mid, hmid, hfirst⟩ := h.appeal appeal happeal
    obtain ⟨later, hlater, hsecond⟩ := h'.appeal mid hmid
    exact ⟨later, hlater, hfirst.trans hsecond⟩

theorem Case.Extends.resolution {old new : Case} (h : old.Extends new)
    (hold : old.resolution.isSome) : new.resolution = old.resolution := by
  unfold Case.resolution at hold ⊢
  cases happeal : old.appeal with
  | none =>
    rw [happeal] at hold
    cases hold
  | some appeal =>
    obtain ⟨later, hlater, _, _, _, hresolution⟩ := h.appeal appeal happeal
    rw [happeal, bind_some] at hold
    obtain ⟨resolution, hres⟩ := isSome_iff_exists.mp hold
    rw [hlater, bind_some, bind_some, hres]
    exact hresolution resolution hres

/-- Every case of the first store is in the second, in a later version. -/
def CaseStore.Extends (old new : CaseStore) : Prop :=
  ∀ id c, old.get id = some c → ∃ later, new.get id = some later ∧ c.Extends later

theorem CaseStore.Extends.refl (store : CaseStore) : store.Extends store :=
  fun _ c h => ⟨c, h, .refl c⟩

theorem CaseStore.Extends.trans {a b c : CaseStore} (h : a.Extends b) (h' : b.Extends c) :
    a.Extends c := by
  intro id first hfirst
  obtain ⟨mid, hmid, hext⟩ := h id first hfirst
  obtain ⟨later, hlater, hext'⟩ := h' id mid hmid
  exact ⟨later, hlater, hext.trans hext'⟩

/-! ## Mutations -/

/-- The event of a mutation is there. -/
def Observed (digests : Digests) : Mutation → CaseStore → Prop
  | .capture new, store => (store.get (digests.case new.source)).isSome
  | .review expected _ _, store => ∃ c, store.get expected.id = some c ∧ c.review.isSome
  | .appeal expected _ _, store => ∃ c, store.get expected.id = some c ∧ c.appeal.isSome
  | .resolveAppeal expected _ _, store =>
    ∃ c, store.get expected.id = some c ∧ c.resolution.isSome

theorem Observed.extends {old new : CaseStore} (h : Observed digests mutation old)
    (hext : old.Extends new) : Observed digests mutation new := by
  cases mutation with
  | capture new' =>
    obtain ⟨c, hc⟩ := isSome_iff_exists.mp h
    obtain ⟨later, hlater, _⟩ := hext _ c hc
    exact isSome_iff_exists.mpr ⟨later, hlater⟩
  | review expected authority decision =>
    obtain ⟨c, hc, hreview⟩ := h
    obtain ⟨later, hlater, hcase⟩ := hext _ c hc
    obtain ⟨review, hreview⟩ := isSome_iff_exists.mp hreview
    exact ⟨later, hlater, isSome_iff_exists.mpr ⟨review, hcase.review review hreview⟩⟩
  | appeal expected authority reason =>
    obtain ⟨c, hc, happeal⟩ := h
    obtain ⟨later, hlater, hcase⟩ := hext _ c hc
    obtain ⟨appeal, happeal⟩ := isSome_iff_exists.mp happeal
    obtain ⟨appeal', happeal', _⟩ := hcase.appeal appeal happeal
    exact ⟨later, hlater, isSome_iff_exists.mpr ⟨appeal', happeal'⟩⟩
  | resolveAppeal expected authority decision =>
    obtain ⟨c, hc, hresolution⟩ := h
    obtain ⟨later, hlater, hcase⟩ := hext _ c hc
    exact ⟨later, hlater, by rw [hcase.resolution hresolution]; exact hresolution⟩

/-- What a mutation that goes through does: it finds its event, or it adds
it. -/
inductive Mutated (digests : Digests) (mutation : Mutation) (store : CaseStore) :
    Option CaseStore → Prop where
  | observed (h : Observed digests mutation store) : Mutated digests mutation store none
  | added {next : CaseStore} (hversion : next.version = store.version)
    (hrevision : next.revision = store.revision) (hextends : store.Extends next)
    (hnew : ¬ Observed digests mutation store) (h : Observed digests mutation next) :
    Mutated digests mutation store (some next)

namespace CaseStore

variable {store : CaseStore} {policy : ShadowPolicy} {policyDigest id : String} {now origin : Nat}

theorem extends_put (h : ∀ old, store.get id = some old → old.Extends c) :
    store.Extends ⟨store.version, store.revision, store.cases.put (id, c)⟩ := by
  intro other old hold
  rw [get_put]
  by_cases hid : id = other
  · rw [if_pos hid]
    exact ⟨c, rfl, h old (hid ▸ hold)⟩
  · rw [if_neg hid]
    exact ⟨old, hold, .refl old⟩

theorem capture_ok (h : store.capture digests new policy policyDigest now = .ok (id, changed)) :
    Mutated digests (.capture new) store changed := by
  unfold capture SourceVersion.caseId at h
  obtain ⟨_, _, h⟩ := bind_ok_iff.mp h
  obtain ⟨key, hkey, h⟩ := bind_ok_iff.mp h
  obtain ⟨_, _, hkey⟩ := bind_ok_iff.mp hkey
  cases hkey
  cases hget : store.get (digests.case new.source) with
  | some old =>
    rw [hget] at h
    obtain ⟨_, _, h⟩ := bind_ok_iff.mp h
    cases h
    exact .observed (isSome_iff_exists.mpr ⟨old, hget⟩)
  | none =>
    rw [hget] at h
    obtain ⟨_, _, h⟩ := bind_ok_iff.mp h
    obtain ⟨_, _, h⟩ := bind_ok_iff.mp h
    obtain ⟨_, _, h⟩ := bind_ok_iff.mp h
    obtain ⟨_, _, h⟩ := bind_ok_iff.mp h
    cases h
    refine .added rfl rfl (extends_put fun old hold => ?_) ?_ ?_
    · rw [hget] at hold
      cases hold
    · intro hobserved
      have hsome : (store.get (digests.case new.source)).isSome := hobserved
      rw [hget] at hsome
      cases hsome
    · show (CaseStore.get _ (digests.case new.source)).isSome
      rw [get_put, if_pos rfl]
      rfl

/-- A change of a case finds its event or adds it. -/
inductive Recorded (event : Case → Bool) (c : Case) : Option Case → Prop where
  | found (h : event c = true) : Recorded event c none
  | added {next : Case} (hnew : event c = false) (hextends : c.Extends next)
    (h : event next = true) : Recorded event c (some next)

theorem review_ok {changed : Option Case}
    (h : review c expected authority decision origin provenance = .ok changed) :
    Recorded (fun c => c.review.isSome) c changed := by
  unfold review at h
  obtain ⟨_, _, h⟩ := bind_ok_iff.mp h
  obtain ⟨_, _, h⟩ := bind_ok_iff.mp h
  obtain ⟨_, _, h⟩ := bind_ok_iff.mp h
  cases hreview : c.review with
  | some old =>
    rw [hreview] at h
    obtain ⟨_, _, h⟩ := bind_ok_iff.mp h
    cases h
    exact .found (by rw [hreview]; rfl)
  | none =>
    rw [hreview] at h
    obtain ⟨_, _, h⟩ := bind_ok_iff.mp h
    obtain ⟨_, _, h⟩ := bind_ok_iff.mp h
    cases h
    refine .added (by rw [hreview]; rfl) ⟨rfl, rfl, rfl, rfl, rfl, rfl, ?_, ?_⟩ rfl
    · intro old hold
      rw [hreview] at hold
      cases hold
    · exact fun appeal happeal => ⟨appeal, happeal, .refl appeal⟩

theorem appeal_ok {changed : Option Case}
    (h : appeal c expected authority reason provenance = .ok changed) :
    Recorded (fun c => c.appeal.isSome) c changed := by
  unfold appeal at h
  obtain ⟨_, _, h⟩ := bind_ok_iff.mp h
  cases happeal : c.appeal with
  | some old =>
    rw [happeal] at h
    obtain ⟨_, _, h⟩ := bind_ok_iff.mp h
    cases h
    exact .found (by rw [happeal]; rfl)
  | none =>
    rw [happeal] at h
    obtain ⟨_, _, h⟩ := bind_ok_iff.mp h
    cases h
    refine .added (by rw [happeal]; rfl) ⟨rfl, rfl, rfl, rfl, rfl, rfl, fun _ h => h, ?_⟩ rfl
    intro old hold
    rw [happeal] at hold
    cases hold

theorem resolveAppeal_ok {changed : Option Case}
    (h : resolveAppeal c expected authority decision origin provenance = .ok changed) :
    Recorded (fun c => c.resolution.isSome) c changed := by
  unfold resolveAppeal at h
  obtain ⟨_, _, h⟩ := bind_ok_iff.mp h
  obtain ⟨_, _, h⟩ := bind_ok_iff.mp h
  obtain ⟨_, _, h⟩ := bind_ok_iff.mp h
  obtain ⟨_, _, h⟩ := bind_ok_iff.mp h
  obtain ⟨appeal, happeal, h⟩ := bind_ok_iff.mp h
  have happeal := required_eq_ok.mp happeal
  have hresolution : c.resolution = appeal.resolution := by
    unfold Case.resolution
    rw [happeal, bind_some]
  cases hcase : appeal.resolution with
  | some old =>
    rw [hcase] at h
    obtain ⟨_, _, h⟩ := bind_ok_iff.mp h
    cases h
    exact .found (by rw [hresolution, hcase]; rfl)
  | none =>
    rw [hcase] at h
    cases h
    refine .added (by rw [hresolution, hcase]; rfl)
      ⟨rfl, rfl, rfl, rfl, rfl, rfl, fun _ h => h, ?_⟩ rfl
    intro old hold
    cases happeal.symm.trans hold
    refine ⟨_, rfl, rfl, rfl, rfl, fun resolution hsome => ?_⟩
    rw [hcase] at hsome
    cases hsome

/-- One lemma for the mutations of a case: the change finds its event or adds
it. -/
theorem mutateCase_ok (event : Case → Bool)
    (hobserved : ∀ store, Observed digests mutation store ↔ ∃ c, store.get expected.id = some c ∧
      event c) (hrevision : ∀ c revision, event { c with revision } = event c)
    (hchange : ∀ c origin provenance changed, change c origin provenance = .ok changed →
      Recorded event c changed)
    (h : store.mutateCase digests expected authority policy policyDigest now change =
      .ok (id, changed)) : Mutated digests mutation store changed := by
  unfold mutateCase at h
  obtain ⟨_, _, h⟩ := bind_ok_iff.mp h
  obtain ⟨c, hc, h⟩ := bind_ok_iff.mp h
  obtain ⟨_, _, h⟩ := bind_ok_iff.mp h
  obtain ⟨provenance, _, h⟩ := bind_ok_iff.mp h
  obtain ⟨result, hresult, h⟩ := bind_ok_iff.mp h
  have hc := required_eq_ok.mp hc
  cases hchange c _ provenance result hresult with
  | found hevent =>
    cases h
    exact .observed ((hobserved store).mpr ⟨c, hc, hevent⟩)
  | @added next hnew hext hadded =>
    obtain ⟨revision, _, h⟩ := bind_ok_iff.mp h
    cases h
    refine .added rfl rfl (extends_put fun old hold => ?_) ?_ ?_
    · cases hc.symm.trans hold
      exact ⟨hext.id, hext.source, hext.assessment, hext.severity, hext.disposition,
        hext.captured, hext.review, hext.appeal⟩
    · intro hobs
      obtain ⟨old, hold, hevent⟩ := (hobserved store).mp hobs
      cases hc.symm.trans hold
      rw [hnew] at hevent
      cases hevent
    · refine (hobserved _).mpr ⟨{ next with revision }, ?_, ?_⟩
      · rw [get_put, if_pos rfl]
      · rw [hrevision]
        exact hadded

/-- A mutation that goes through finds its event or adds it. -/
theorem mutate_ok (h : store.mutate digests mutation policy policyDigest now = .ok (id, changed)) :
    Mutated digests mutation store changed := by
  cases mutation with
  | capture new => exact capture_ok h
  | review expected authority decision =>
    simp only [mutate] at h
    refine mutateCase_ok (fun c => c.review.isSome) (fun store => ?_) (fun _ _ => rfl)
      (fun _ _ _ _ hok => ?_) h
    · exact Iff.rfl
    · exact review_ok hok
  | appeal expected authority reason =>
    simp only [mutate] at h
    refine mutateCase_ok (fun c => c.appeal.isSome) (fun store => ?_) (fun _ _ => rfl)
      (fun _ _ _ _ hok => ?_) h
    · exact Iff.rfl
    · exact appeal_ok hok
  | resolveAppeal expected authority decision =>
    simp only [mutate] at h
    refine mutateCase_ok (fun c => c.resolution.isSome) (fun store => ?_) (fun _ _ => rfl)
      (fun _ _ _ _ hok => ?_) h
    · exact Iff.rfl
    · exact resolveAppeal_ok hok

/-! ## Applying -/

/-- What a call of `apply` does to a store that passes its checks. -/
inductive Applied (digests : Digests) (mutation : Mutation) (store : CaseStore) :
    CaseStore × Except String (String × Change) → Prop where
  | refused (error : String) : Applied digests mutation store (store, .error error)
  | observed (id : String) (h : Observed digests mutation store) :
    Applied digests mutation store (store, .ok (id, .alreadyObserved))
  | added (id : String) {next : CaseStore} (hvalid : next.validate digests = .ok ())
    (hextends : store.Extends next) (hnew : ¬ Observed digests mutation store)
    (h : Observed digests mutation next) (hrevision : next.revision = store.revision + 1) :
    Applied digests mutation store (next, .ok (id, .changed))

theorem apply_cases (digests : Digests) (store : CaseStore) (mutation : Mutation)
    (policy : ShadowPolicy) (policyDigest : String) (now : Nat) :
    Applied digests mutation store (store.apply digests mutation policy policyDigest now) := by
  unfold apply
  cases happly : store.applyInner digests mutation policy policyDigest now with
  | error error => exact .refused error
  | ok result =>
    unfold applyInner at happly
    obtain ⟨_, _, happly⟩ := bind_ok_iff.mp happly
    obtain ⟨_, _, happly⟩ := bind_ok_iff.mp happly
    obtain ⟨_, _, happly⟩ := bind_ok_iff.mp happly
    obtain ⟨⟨id, changed⟩, hmutate, happly⟩ := bind_ok_iff.mp happly
    cases mutate_ok hmutate with
    | observed h =>
      cases happly
      exact .observed id h
    | added hversion hrevision hextends hnew h =>
      obtain ⟨revision, hcount, happly⟩ := bind_ok_iff.mp happly
      obtain ⟨_, hvalid, happly⟩ := bind_ok_iff.mp happly
      cases happly
      refine .added id hvalid hextends hnew ?_ ?_
      · cases mutation <;> exact h
      · show revision = store.revision + 1
        have hcount := required_eq_ok.mp hcount
        unfold checkedAdd at hcount
        split_ifs at hcount
        rw [← hrevision]
        exact (some.inj hcount).symm

end CaseStore

end Abbey.Moderation
