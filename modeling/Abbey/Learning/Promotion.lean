import Abbey.Learning.Registry
import Abbey.Lib.System

/-!
# Runs of the registry

The record of a release is written in place and the pointer is renamed.  A
crash between the creation of a record and its write leaves an empty
record, and the run can never be promoted again
(`interrupted_promote_refused`).  Apart from this one crash point the
registry is sound after every sequence of calls and crashes
(`registry_stays_sound`).
-/

namespace Abbey.Learning

open Abbey.Lib Value Durable Except List Option
open Abbey.Conversation (Sha256 utf8 lowerHex isLowerHexSha256)

variable {crates : Crates} {runs : Runs} {s t u : Registry} {id run : String} {record v : Value}
  {grant : Bytes}
variable {previous : Option String} {release : String}

/-! ## The durable parts -/

/-- The file of a value that is in its bound. -/
def fileOf (value : Value) : Bytes := canonical value ++ [0x0a]

theorem jsonFile_eq_ok {bytes : Bytes} :
    jsonFile v = .ok bytes ↔ bytes = fileOf v ∧ (fileOf v).length ≤ maxJson := by
  unfold jsonFile fileOf
  simp only [bind_ok_iff, ensure_eq_ok, decide_eq_true_eq, ok.injEq]
  constructor
  · rintro ⟨_, hbound, rfl⟩
    exact ⟨rfl, hbound⟩
  · rintro ⟨rfl, hbound⟩
    exact ⟨(), hbound, rfl⟩

theorem ends_atomicPointer : Ends (atomicPointer v) s () t ↔
    (fileOf v).length ≤ maxJson ∧ t = { s with current := some (fileOf v) } := by
  unfold atomicPointer
  constructor
  · intro h
    obtain ⟨bytes, hfile, h1⟩ := ends_lift_bind.mp h
    obtain ⟨rfl, hbound⟩ := jsonFile_eq_ok.mp hfile
    obtain ⟨_, s1, hs1, h2⟩ := ends_commit_bind.mp h1
    obtain ⟨_, s2, hs2, h3⟩ := ends_commit_bind.mp h2
    have hs3 := ends_commit.mp h3
    simp only [ok.injEq, Prod.mk.injEq, and_true] at hs1 hs2 hs3
    refine ⟨hbound, ?_⟩
    rw [← hs3, ← hs2, ← hs1]
    rfl
  · rintro ⟨hbound, rfl⟩
    refine ends_lift_bind.mpr ⟨fileOf v, jsonFile_eq_ok.mpr ⟨rfl, hbound⟩, ?_⟩
    refine ends_commit_bind.mpr ⟨(), _, rfl, ends_commit_bind.mpr ⟨(), _, rfl, ?_⟩⟩
    exact ends_commit.mpr rfl

/-- The pointer changes in the last step. -/
theorem crash_atomicPointer (h : Crash (atomicPointer v) s t) :
    t.records = s.records ∧ (t.current = s.current ∨ Ends (atomicPointer v) s () t) := by
  have hsteps : t.records = s.records ∧ (t.current = s.current ∨
      (fileOf v).length ≤ maxJson ∧ t = { s with current := some (fileOf v) }) := by
    unfold atomicPointer at h
    rcases crash_lift_bind h with rfl | ⟨bytes, hfile, h1⟩
    · exact ⟨rfl, .inl rfl⟩
    obtain ⟨rfl, hbound⟩ := jsonFile_eq_ok.mp hfile
    rcases crash_commit_bind h1 with rfl | ⟨_, s1, hs1, h2⟩
    · exact ⟨rfl, .inl rfl⟩
    simp only [ok.injEq, Prod.mk.injEq, and_true] at hs1
    rcases crash_commit_bind h2 with rfl | ⟨_, s2, hs2, h3⟩
    · rw [← hs1]
      exact ⟨rfl, .inl rfl⟩
    simp only [ok.injEq, Prod.mk.injEq, and_true] at hs2
    rcases crash_commit.mp h3 with rfl | ⟨_, hs3⟩
    · rw [← hs2, ← hs1]
      exact ⟨rfl, .inl rfl⟩
    simp only [ok.injEq, Prod.mk.injEq, and_true] at hs3
    rw [← hs3, ← hs2, ← hs1]
    exact ⟨rfl, .inr ⟨hbound, rfl⟩⟩
  rw [ends_atomicPointer]
  exact hsteps

theorem putRecord_records (s : Registry) (id : String) (bytes : Bytes) :
    (putRecord s id bytes).records id = some bytes := if_pos rfl

theorem ends_writeRecord : Ends (writeRecord id record) s () t ↔
    (fileOf record).length ≤ maxJson ∧ t = putRecord s id (fileOf record) := by
  have hoverwrite : ∀ a b, putRecord (putRecord s id a) id b = putRecord s id b := by
    intro a b
    unfold putRecord
    congr 1
    funext name
    by_cases hname : name = id
    · simp [hname]
    · simp [hname]
  unfold writeRecord
  constructor
  · intro h
    obtain ⟨bytes, hfile, h1⟩ := ends_lift_bind.mp h
    obtain ⟨rfl, hbound⟩ := jsonFile_eq_ok.mp hfile
    obtain ⟨_, s1, hs1, h2⟩ := ends_commit_bind.mp h1
    have hs2 := ends_commit.mp h2
    simp only [ok.injEq, Prod.mk.injEq, and_true] at hs1 hs2
    rw [← hs2, ← hs1, hoverwrite]
    exact ⟨hbound, rfl⟩
  · rintro ⟨hbound, rfl⟩
    refine ends_lift_bind.mpr ⟨fileOf record, jsonFile_eq_ok.mpr ⟨rfl, hbound⟩, ?_⟩
    refine ends_commit_bind.mpr ⟨(), _, rfl, ends_commit.mpr ?_⟩
    rw [hoverwrite]

/-- A record is written in two steps. -/
theorem steps_writeRecord (id : String) (h : (fileOf record).length ≤ maxJson) :
    (writeRecord id record s).steps = [putRecord s id [], putRecord s id (fileOf record)] := by
  have hends := ends_writeRecord.mpr ⟨h, (rfl : putRecord s id (fileOf record) = _)⟩
  have hfile : jsonFile record = .ok (fileOf record) := jsonFile_eq_ok.mpr ⟨rfl, h⟩
  have hsteps : (writeRecord id record s).steps =
      [putRecord s id [], putRecord (putRecord s id []) id (fileOf record)] := by
    unfold writeRecord
    rw [hfile]
    rfl
  have hfinal := hends.2
  unfold final at hfinal
  rw [hsteps] at hfinal ⊢
  rw [show putRecord (putRecord s id []) id (fileOf record) = putRecord s id (fileOf record) from
    hfinal]

/-! ## Sound registries -/

/-- What is taken from outside: a canonical path is its own canonical path,
a record is in its bound (its fields are digests, one fixed text and a
path), the parser reads back the records and the pointers, and no two
records have one digest. -/
structure Faithful (crates : Crates) (runs : Runs) : Prop where
  canonicalize : ∀ run path, runs.canonicalize run = some path →
    runs.canonicalize path = some path
  bounded : ∀ run record, releaseRecord runs run = .ok record →
    (fileOf record).length ≤ maxJson
  reads : ∀ run record, releaseRecord runs run = .ok record →
    crates.parse (fileOf record) = some record
  points : ∀ run record, releaseRecord runs run = .ok record → ∀ previous : Value,
    previous = .null ∨ (∃ other otherRecord, releaseRecord runs other = .ok otherRecord ∧
      previous = .string (digestValue crates.sha otherRecord)) →
    crates.parse (fileOf (pointerValue (digestValue crates.sha record) previous)) =
      some (pointerValue (digestValue crates.sha record) previous)
  collisions : ∀ a b recordA recordB, releaseRecord runs a = .ok recordA →
    releaseRecord runs b = .ok recordB →
    digestValue crates.sha recordA = digestValue crates.sha recordB → recordA = recordB

/-- The record of an id is retained, whole. -/
def Retains (crates : Crates) (runs : Runs) (s : Registry) (id : String) : Prop :=
  ∃ run record, releaseRecord runs run = .ok record ∧ id = digestValue crates.sha record ∧
    s.records id = some (fileOf record) ∧ (fileOf record).length ≤ maxJson

def previousValue : Option String → Value
  | none => .null
  | some id => .string id

/-- The pointer names a release and perhaps a previous one. -/
def PointsTo (crates : Crates) (runs : Runs) (s : Registry) (release : String)
    (previous : Option String) : Prop :=
  s.current = some (fileOf (pointerValue release (previousValue previous))) ∧
    (fileOf (pointerValue release (previousValue previous))).length ≤ maxJson ∧
    Retains crates runs s release ∧ ∀ id, previous = some id → Retains crates runs s id

structure Sound (crates : Crates) (runs : Runs) (s : Registry) : Prop where
  records : ∀ id, s.records id ≠ none → Retains crates runs s id
  current : s.current ≠ none → ∃ release previous, PointsTo crates runs s release previous

theorem Sound.empty : Sound crates runs .empty :=
  ⟨fun _ h => absurd rfl h, fun h => absurd rfl h⟩

theorem Retains.congr (hrecords : t.records = s.records) (h : Retains crates runs s id) :
    Retains crates runs t id := by
  obtain ⟨run, record, hrecord, hid, hfile, hbound⟩ := h
  exact ⟨run, record, hrecord, hid, hrecords ▸ hfile, hbound⟩

theorem releaseRecord_run (hfaithful : Faithful crates runs) (h : releaseRecord runs run = .ok record) :
    ∃ path, (record.index "run").asStr = some path ∧ releaseRecord runs path = .ok record := by
  unfold releaseRecord at h
  simp only [bind_ok_iff, required_eq_ok, ensure_eq_ok, ok.injEq] at h
  obtain ⟨path, hpath, evidence, hevidence, _, hpassed, rfl⟩ := h
  refine ⟨path, rfl, ?_⟩
  unfold releaseRecord
  simp only [hfaithful.canonicalize run path hpath, required_some, ok_bind, hevidence, hpassed,
    ensure_true]

theorem isLowerHexSha256_digestValue (sha : Sha256) (v : Value) :
    isLowerHexSha256 (digestValue sha v) :=
  Conversation.isLowerHexSha256_lowerHex _

theorem readJson_fileOf (hbound : (fileOf v).length ≤ maxJson)
    (hparse : crates.parse (fileOf v) = some v) : readJson crates (some (fileOf v)) = .ok v := by
  unfold readJson boundedRead
  simp only [required_some, ok_bind, hbound, decide_true, ensure_true, hparse]

/-- A retained record is accepted. -/
theorem retained_of_retains (hfaithful : Faithful crates runs) (h : Retains crates runs s id) :
    ∃ run record, releaseRecord runs run = .ok record ∧ id = digestValue crates.sha record ∧
      s.records id = some (fileOf record) ∧ retained crates runs s id = .ok record ∧
      readJson crates (s.records id) = .ok record := by
  obtain ⟨run, record, hrecord, rfl, hfile, hbound⟩ := h
  obtain ⟨path, hpath, hagain⟩ := releaseRecord_run hfaithful hrecord
  have hread := readJson_fileOf hbound (hfaithful.reads run record hrecord)
  refine ⟨run, record, hrecord, rfl, hfile, ?_, by rw [hfile, hread]⟩
  unfold retained
  simp only [isLowerHexSha256_digestValue, ensure_true, ok_bind, hfile, hread, decide_true, hpath,
    required_some, hagain]

theorem pointer_of_pointsTo (hfaithful : Faithful crates runs)
    (h : PointsTo crates runs s release previous) :
    pointer crates s = .ok (some (pointerValue release (previousValue previous))) := by
  obtain ⟨hcurrent, hbound, ⟨run, record, hrecord, rfl, _, _⟩, hprevious⟩ := h
  have hvalid : previousValue previous = .null ∨
      ∃ other otherRecord, releaseRecord runs other = .ok otherRecord ∧
        previousValue previous = .string (digestValue crates.sha otherRecord) := by
    cases previous with
    | none => exact .inl rfl
    | some id =>
      obtain ⟨other, otherRecord, hother, rfl, _, _⟩ := hprevious id rfl
      exact .inr ⟨other, otherRecord, hother, rfl⟩
  have hread := readJson_fileOf hbound (hfaithful.points run record hrecord _ hvalid)
  have hrelease : ((pointerValue (digestValue crates.sha record) (previousValue previous)).index
      "release").asStr.any isLowerHexSha256 := isLowerHexSha256_digestValue _ _
  have hother : ((pointerValue (digestValue crates.sha record) (previousValue previous)).index
      "previous" = .null || ((pointerValue (digestValue crates.sha record)
        (previousValue previous)).index "previous").asStr.any isLowerHexSha256) = true := by
    show (previousValue previous = .null || (previousValue previous).asStr.any isLowerHexSha256)
    rcases hvalid with hnull | ⟨_, _, _, hstring⟩
    · rw [hnull]
      rfl
    · rw [hstring]
      simp [asStr, isLowerHexSha256_digestValue]
  unfold pointer
  rw [hcurrent]
  simp only [hread, ok_bind, hrelease, ensure_true, hother]

/-! ## The end of a promotion -/

theorem length_fileOf (v : Value) : (fileOf v).length = bytes v.print + 1 := by
  unfold fileOf canonical
  rw [length_append, Conversation.length_utf8, utf8ByteSize_ofChars]
  rfl

theorem utf8ByteSize_of_retains (h : Retains crates runs s id) : id.utf8ByteSize = 64 := by
  obtain ⟨_, record, _, rfl, _, _⟩ := h
  have hid := isLowerHexSha256_digestValue crates.sha record
  unfold isLowerHexSha256 at hid
  simp only [Bool.and_eq_true, decide_eq_true_eq] at hid
  exact hid.1

/-- A pointer is in the bound of a file. -/
theorem length_pointer_le (hrelease : Retains crates runs s release)
    (hprevious : ∀ id, previous = some id → Retains crates runs s id) :
    (fileOf (pointerValue release (previousValue previous))).length ≤ maxJson := by
  have hlimit : maxJson = 8388608 := rfl
  have hprint := bytes_print_le (pointerValue release (previousValue previous))
  have hweight : (pointerValue release (previousValue previous)).weight ≤ 1000 := by
    cases previous with
    | none =>
      simp only [pointerValue, previousValue, weight, weightFields,
        utf8ByteSize_of_retains hrelease]
      decide
    | some id =>
      simp only [pointerValue, previousValue, weight, weightFields,
        utf8ByteSize_of_retains hrelease, utf8ByteSize_of_retains (hprevious id rfl)]
      decide
  rw [length_fileOf]
  omega

theorem PointsTo.unique
    (hfaithful : Faithful crates runs) (h : PointsTo crates runs s release previous)
    (h' : PointsTo crates runs s release' previous') :
    release = release' ∧ previous = previous' := by
  have heq := (pointer_of_pointsTo hfaithful h).symm.trans (pointer_of_pointsTo hfaithful h')
  simp only [pointerValue, ok.injEq, some.injEq, object.injEq, cons.injEq,
    Prod.mk.injEq, true_and, and_true, string.injEq] at heq
  refine ⟨heq.2, ?_⟩
  cases previous <;> cases previous' <;> simp_all [previousValue]

/-- The pointer moves to retained releases, and an interruption leaves the
old or the new one. -/
theorem atomicPointer_spec (hrelease : Retains crates runs s release)
    (hprevious : ∀ id, previous = some id → Retains crates runs s id) :
    ∃ t, Ends (atomicPointer (pointerValue release (previousValue previous))) s () t ∧
      t.records = s.records ∧ PointsTo crates runs t release previous ∧
      ∀ u, Crash (atomicPointer (pointerValue release (previousValue previous))) s u →
        u.records = s.records ∧ (u.current = s.current ∨ u = t) := by
  have hbound := length_pointer_le hrelease hprevious
  have hends := ends_atomicPointer.mpr ⟨hbound, (rfl : { s with current := some (fileOf
    (pointerValue release (previousValue previous))) } = _)⟩
  refine ⟨_, hends, rfl, ⟨rfl, hbound, hrelease.congr rfl, fun id hid => (hprevious id hid).congr rfl⟩, ?_⟩
  intro u hcrash
  obtain ⟨hrecords, hold | hnew⟩ := crash_atomicPointer hcrash
  · exact ⟨hrecords, .inl hold⟩
  · exact ⟨hrecords, .inr (hnew.unique hends).2⟩

/-- The pointer moves, and the answer is the new value. -/
def movePointer (value : Value) : RegistryM Value := atomicPointer value >>= fun _ => pure value

theorem movePointer_spec (hrelease : Retains crates runs s release) (previous : Option String)
    (hprevious : ∀ id, previous = some id → Retains crates runs s id) :
    ∃ t, Ends (movePointer (pointerValue release (previousValue previous))) s
        (pointerValue release (previousValue previous)) t ∧
      t.records = s.records ∧ PointsTo crates runs t release previous ∧
      ∀ u, Crash (movePointer (pointerValue release (previousValue previous))) s u →
        u.records = s.records ∧ (u.current = s.current ∨ u = t) := by
  obtain ⟨t, hends, hrecords, hpoints, hcrash⟩ := atomicPointer_spec hrelease hprevious
  refine ⟨t, ends_bind_iff.mpr ⟨(), t, hends, ends_pure.mpr ⟨rfl, rfl⟩⟩, hrecords, hpoints, ?_⟩
  intro u hu
  exact hcrash u (crash_bind_pure.mp hu)

theorem promotePointer_none (crates : Crates) (runs : Runs) (id : String)
    (hcurrent : s.current = none) :
    promotePointer crates runs id s = movePointer (pointerValue id (previousValue none)) s := by
  have hpointer : pointer crates s = .ok none := by
    unfold pointer
    rw [hcurrent]
  unfold promotePointer
  rw [read_bind_of_ok hpointer]
  rfl

theorem promotePointer_some (hfaithful : Faithful crates runs) (id : String)
    (h : PointsTo crates runs s release previous) :
    promotePointer crates runs id s =
      if release = id then (pure (pointerValue release (previousValue previous)) : RegistryM Value) s
      else movePointer (pointerValue id (previousValue (some release))) s := by
  obtain ⟨_, kept, _, _, _, hretained, _⟩ := retained_of_retains hfaithful h.2.2.1
  unfold promotePointer
  rw [read_bind_of_ok (pointer_of_pointsTo hfaithful h)]
  show (lift (required (some release) _) >>= _) s = _
  rw [lift_bind_of_ok (required_some release _),
    read_bind_of_ok (g := fun registry => retained crates runs registry release) hretained]
  by_cases hsame : release = id
  · rw [if_pos hsame, if_pos hsame]
  · rw [if_neg hsame, if_neg hsame]
    rfl

/-- The end of a promotion succeeds, and it does nothing when the release
is current. -/
theorem promotePointer_spec (hfaithful : Faithful crates runs) (hs : Sound crates runs s)
    (hid : Retains crates runs s id) :
    ∃ t previous, Ends (promotePointer crates runs id) s (pointerValue id (previousValue previous)) t ∧
      t.records = s.records ∧ PointsTo crates runs t id previous ∧
      (∀ other, PointsTo crates runs s id other → t = s) ∧
      ∀ u, Crash (promotePointer crates runs id) s u →
        u.records = s.records ∧ (u.current = s.current ∨ u = t) := by
  by_cases hcurrent : s.current = none
  · obtain ⟨t, hends, hrecords, hpoints, hcrash⟩ := movePointer_spec hid none
      nofun
    have heq := promotePointer_none crates runs id hcurrent
    refine ⟨t, none, (ends_congr heq).mpr hends, hrecords, hpoints, ?_, ?_⟩
    · intro other hother
      exact nomatch hcurrent.symm.trans hother.1
    · intro u hu
      exact hcrash u ((crash_congr heq).mp hu)
  · obtain ⟨release, previous, hpoints⟩ := hs.current hcurrent
    have heq := promotePointer_some hfaithful id hpoints
    by_cases hsame : release = id
    · rw [if_pos hsame] at heq
      refine ⟨s, previous, (ends_congr heq).mpr (ends_pure.mpr ⟨hsame ▸ rfl, rfl⟩), rfl,
        hsame ▸ hpoints, fun _ _ => rfl, ?_⟩
      intro u hu
      rw [crash_pure.mp ((crash_congr heq).mp hu)]
      exact ⟨rfl, .inl rfl⟩
    · rw [if_neg hsame] at heq
      obtain ⟨t, hends, hrecords, hnew, hcrash⟩ := movePointer_spec hid
        (some release) (fun other hother => some.inj hother ▸ hpoints.2.2.1)
      refine ⟨t, some release, (ends_congr heq).mpr hends, hrecords, hnew, ?_, ?_⟩
      · intro other hother
        exact absurd (hpoints.unique hfaithful hother).1 hsame
      · intro u hu
        exact hcrash u ((crash_congr heq).mp hu)

/-! ## The record of a promotion -/

theorem Retains.put (hid : id = digestValue crates.sha record)
    (hrecord : releaseRecord runs run = .ok record) (hbound : (fileOf record).length ≤ maxJson)
    (h : other = id ∨ Retains crates runs s other) :
    Retains crates runs (putRecord s id (fileOf record)) other := by
  by_cases hother : other = id
  · subst hother
    exact ⟨run, record, hrecord, hid, if_pos rfl, hbound⟩
  · obtain ⟨run', record', hrecord', hid', hfile', hbound'⟩ := h.resolve_left hother
    exact ⟨run', record', hrecord', hid', (if_neg hother).trans hfile', hbound'⟩

theorem Sound.put (hs : Sound crates runs s) (hid : id = digestValue crates.sha record)
    (hrecord : releaseRecord runs run = .ok record) (hbound : (fileOf record).length ≤ maxJson) :
    Sound crates runs (putRecord s id (fileOf record)) := by
  refine ⟨?_, ?_⟩
  · intro other hother
    refine Retains.put hid hrecord hbound ?_
    by_cases hsame : other = id
    · exact .inl hsame
    · have hkept : s.records other ≠ none := by
        intro hnone
        exact hother ((if_neg hsame).trans hnone)
      exact .inr (hs.records other hkept)
  · intro hcurrent
    obtain ⟨release, previous, hfile, hsize, hrelease, hprevious⟩ := hs.current hcurrent
    exact ⟨release, previous, hfile, hsize, Retains.put hid hrecord hbound (.inr hrelease),
      fun other hother => Retains.put hid hrecord hbound (.inr (hprevious other hother))⟩

/-- In a sound registry the record of a run is there, whole, or it is
written. -/
theorem retainRecord_spec (hfaithful : Faithful crates runs) (hs : Sound crates runs s)
    (hid : id = digestValue crates.sha record) (hrecord : releaseRecord runs run = .ok record) :
    (s.records id ≠ none ∧ Retains crates runs s id ∧
        (retainRecord crates runs id record s) = ⟨[], .ok ()⟩) ∨
      (s.records id = none ∧ (retainRecord crates runs id record s) =
        ⟨[putRecord s id [], putRecord s id (fileOf record)], .ok ()⟩) := by
  have hbound := hfaithful.bounded run record hrecord
  by_cases hnone : s.records id = none
  · refine .inr ⟨hnone, ?_⟩
    have hsteps := steps_writeRecord (s := s) id hbound
    have hresult := (ends_writeRecord.mpr ⟨hbound, (rfl : putRecord s id (fileOf record) = _)⟩).1
    unfold retainRecord
    rw [read_bind_of_ok (g := fun registry : Registry => .ok (registry.records id))
      (congrArg ok hnone)]
    show writeRecord id record s = _
    rw [← hsteps, ← hresult]
  · have hretains := hs.records id hnone
    refine .inl ⟨hnone, hretains, ?_⟩
    obtain ⟨other, kept, hother, hkept, hfile, hretained, hstored⟩ :=
      retained_of_retains hfaithful hretains
    obtain rfl : kept = record := hfaithful.collisions other run kept record hother hrecord
      (hkept.symm.trans hid)
    rw [hfile] at hstored
    unfold retainRecord
    rw [read_bind_of_ok (g := fun registry : Registry => .ok (registry.records id))
      (congrArg ok hfile)]
    show (read _ : RegistryM Unit) s = _
    unfold Durable.read
    simp only [hstored, ok_bind, hretained, decide_true, ensure_true]

/-! ## The calls -/

theorem promote_eq (crates : Crates) (hconsent : consent grant false = .ok ())
    (hrecord : releaseRecord runs run = .ok record) :
    promote crates runs grant run s =
      (retainRecord crates runs (digestValue crates.sha record) record >>= fun _ =>
        promotePointer crates runs (digestValue crates.sha record)) s := by
  unfold promote
  rw [lift_bind_of_ok hconsent, lift_bind_of_ok hrecord]

theorem rollback_eq (hfaithful : Faithful crates runs) {previous : String}
    (hconsent : consent grant false = .ok ()) (h : PointsTo crates runs s release (some previous)) :
    rollback crates runs grant s = movePointer (pointerValue previous (.string release)) s := by
  obtain ⟨_, kept, _, _, _, hretained, _⟩ := retained_of_retains hfaithful (h.2.2.2 previous rfl)
  unfold rollback
  rw [lift_bind_of_ok hconsent, read_bind_of_ok (pointer_of_pointsTo hfaithful h),
    lift_bind_of_ok (required_some _ _)]
  show (lift (required (some previous) _) >>= _) s = _
  rw [lift_bind_of_ok (required_some previous _),
    read_bind_of_ok (g := fun registry => retained crates runs registry previous) hretained]
  rfl

section

variable (hfaithful : Faithful crates runs) (hs : Sound crates runs s)
  (hconsent : consent grant false = .ok ()) (hrecord : releaseRecord runs run = .ok record)

include hfaithful hs hconsent hrecord

/-- What a promotion in a sound registry does: its record is retained first,
in two steps or in none, and then the pointer moves. -/
theorem promote_spec : ∃ mid t previous, Sound crates runs mid ∧ mid.current = s.current ∧
      Ends (promote crates runs grant run) s
        (pointerValue (digestValue crates.sha record) (previousValue previous)) t ∧
      t.records = mid.records ∧
      PointsTo crates runs t (digestValue crates.sha record) previous ∧
      (∀ other, PointsTo crates runs s (digestValue crates.sha record) other → t = s) ∧
      (∀ k, ∃ u, (u = s ∨ u.records = mid.records ∧ (u.current = mid.current ∨ u = t)) ∧
        (cut k (promote crates runs grant run) s = u ∨
          s.records (digestValue crates.sha record) = none ∧ k = 1 ∧
            (cut k (promote crates runs grant run) s).current = s.current)) := by
  have hbound := hfaithful.bounded run record hrecord
  have heq := promote_eq crates (s := s) hconsent hrecord
  have hcut : ∀ k, cut k (promote crates runs grant run) s =
      cut k (retainRecord crates runs (digestValue crates.sha record) record >>= fun _ =>
        promotePointer crates runs (digestValue crates.sha record)) s := by
    intro k
    unfold cut
    rw [heq]
  rcases retainRecord_spec hfaithful hs rfl hrecord with ⟨_, hretains, hretain⟩ | ⟨hnone, hretain⟩
  · obtain ⟨t, previous, hends, hrecords, hpoints, hsame, hcrash⟩ :=
      promotePointer_spec hfaithful hs hretains
    have hfirst : Ends (retainRecord crates runs (digestValue crates.sha record) record) s () s := by
      unfold Ends final
      rw [hretain]
      exact ⟨rfl, rfl⟩
    refine ⟨s, t, previous, hs, rfl,
      (ends_congr heq).mpr (ends_bind_iff.mpr ⟨(), s, hfirst, hends⟩), hrecords, hpoints, hsame, ?_⟩
    intro k
    have hrest := cut_bind (f := fun _ => promotePointer crates runs (digestValue crates.sha record))
      hfirst k
    rw [hretain, length_nil, Nat.zero_add, ← hcut] at hrest
    refine ⟨_, ?_, .inl hrest⟩
    obtain ⟨hkept, hold | hnew⟩ := hcrash _ (crash_cut k _ s)
    · exact .inr ⟨hkept, .inl hold⟩
    · exact .inr ⟨hkept, .inr hnew⟩
  · obtain ⟨t, previous, hends, hrecords, hpoints, _, hcrash⟩ := promotePointer_spec hfaithful
      (hs.put rfl hrecord hbound) (Retains.put rfl hrecord hbound (.inl rfl))
    have hfirst : Ends (retainRecord crates runs (digestValue crates.sha record) record) s ()
        (putRecord s (digestValue crates.sha record) (fileOf record)) := by
      unfold Ends final
      rw [hretain]
      exact ⟨rfl, rfl⟩
    refine ⟨putRecord s (digestValue crates.sha record) (fileOf record), t, previous,
      hs.put rfl hrecord hbound, rfl,
      (ends_congr heq).mpr (ends_bind_iff.mpr ⟨(), _, hfirst, hends⟩), hrecords, hpoints, ?_, ?_⟩
    · rintro other ⟨_, _, ⟨_, _, _, _, hfile, _⟩, _⟩
      exact nomatch hnone.symm.trans hfile
    · intro k
      -- before the record is created, between its creation and its write, after its write
      rcases k with _ | _ | k
      · exact ⟨s, .inl rfl, .inl (cut_zero _ _)⟩
      · refine ⟨s, .inl rfl, .inr ⟨hnone, rfl, ?_⟩⟩
        rw [hcut]
        unfold cut
        rw [steps_bind_of_ok hfirst.1, hretain]
        rfl
      · have hrest := cut_bind
          (f := fun _ => promotePointer crates runs (digestValue crates.sha record)) hfirst k
        rw [hretain, ← hcut] at hrest
        simp only [length_cons, length_nil, Nat.zero_add] at hrest
        rw [show 1 + 1 + k = k + 1 + 1 by omega] at hrest
        refine ⟨_, .inr (hcrash _ (crash_cut k _ _)), .inl hrest⟩

/-- The interruption between the creation of a record and its write. -/
theorem cut_one_promote (hnone : s.records (digestValue crates.sha record) = none) :
    cut 1 (promote crates runs grant run) s = putRecord s (digestValue crates.sha record) [] := by
  obtain ⟨hsome, _⟩ | ⟨_, hretain⟩ := retainRecord_spec hfaithful hs rfl hrecord
  · exact absurd hnone hsome
  unfold cut
  rw [promote_eq crates hconsent hrecord, steps_bind_of_ok (a := ()) (by rw [hretain]), hretain]
  rfl

end

/-- An empty record is never accepted. -/
theorem promote_of_empty_record (hparse : crates.parse [] = none)
    (hconsent : consent grant false = .ok ()) (hrecord : releaseRecord runs run = .ok record)
    (hempty : s.records (digestValue crates.sha record) = some []) :
    (promote crates runs grant run s).result = .error .notJson := by
  rw [promote_eq crates hconsent hrecord]
  refine result_bind_of_error ?_
  unfold retainRecord
  rw [read_bind_of_ok (g := fun registry : Registry => .ok (registry.records
    (digestValue crates.sha record))) (congrArg ok hempty)]
  show (readJson crates (some []) >>= _) = _
  unfold readJson boundedRead
  rw [required_some, ok_bind, length_nil, decide_eq_true (Nat.zero_le maxJson), ensure_true,
    ok_bind, ok_bind, hparse]
  rfl

/-! ## Runs of the registry -/

inductive RegistryCall where
  | promote (grant : Bytes) (run : String)
  | rollback (grant : Bytes)

def RegistryCall.body (crates : Crates) (runs : Runs) : RegistryCall → RegistryM Value
  | .promote grant run => Learning.promote crates runs grant run
  | .rollback grant => Learning.rollback crates runs grant

/-- A call returns, or it is interrupted after some of its file-system
steps. -/
inductive RegistryStep where
  | finish (call : RegistryCall)
  | crash (call : RegistryCall) (k : Nat)

def Registry.next (crates : Crates) (runs : Runs) (s : Registry) : RegistryStep → Option Registry
  | .finish call => some ((call.body crates runs).final s)
  | .crash call k => some (cut k (call.body crates runs) s)

/-- No interruption between the creation of a record and its write. -/
def RegistryStep.Safe (crates : Crates) (runs : Runs) (s : Registry) : RegistryStep → Prop
  | .crash (.promote grant run) k => ∀ record, consent grant false = .ok () →
      releaseRecord runs run = .ok record → s.records (digestValue crates.sha record) = none → k ≠ 1
  | _ => True

theorem Sound.of_current (hs : Sound crates runs s) (hrecords : t.records = s.records)
    (hcurrent : t.current = s.current) : Sound crates runs t := by
  refine ⟨?_, ?_⟩
  · intro id hid
    exact (hs.records id (hrecords ▸ hid)).congr hrecords
  · intro hnone
    obtain ⟨release, previous, hfile, hsize, hrelease, hprevious⟩ := hs.current (hcurrent ▸ hnone)
    exact ⟨release, previous, hcurrent.trans hfile, hsize, hrelease.congr hrecords,
      fun id hid => (hprevious id hid).congr hrecords⟩

theorem Sound.of_pointsTo (hs : Sound crates runs s) (hrecords : t.records = s.records)
    (h : PointsTo crates runs t release previous) : Sound crates runs t :=
  ⟨fun id hid => (hs.records id (hrecords ▸ hid)).congr hrecords, fun _ => ⟨release, previous, h⟩⟩

/-- A call that stops at a check has no durable step. -/
theorem promote_refused (h : consent grant false ≠ .ok () ∨ ∀ record, releaseRecord runs run ≠ .ok record) :
    (promote crates runs grant run s).steps = [] ∧ ∀ v, (promote crates runs grant run s).result ≠ .ok v := by
  unfold promote
  cases hconsent : consent grant false with
  | error e => exact ⟨rfl, nofun⟩
  | ok a =>
    rw [lift_bind_of_ok rfl]
    cases hrecord : releaseRecord runs run with
    | error e => exact ⟨rfl, nofun⟩
    | ok record =>
      rcases h with hno | hno
      · exact absurd hconsent hno
      · exact absurd hrecord (hno record)

theorem rollback_refused (hfaithful : Faithful crates runs) (hs : Sound crates runs s)
    (h : consent grant false ≠ .ok () ∨
      ∀ release previous, ¬ PointsTo crates runs s release (some previous)) :
    (rollback crates runs grant s).steps = [] ∧ ∀ v, (rollback crates runs grant s).result ≠ .ok v := by
  unfold rollback
  cases hconsent : consent grant false with
  | error e => exact ⟨rfl, nofun⟩
  | ok a =>
    rw [lift_bind_of_ok rfl]
    by_cases hcurrent : s.current = none
    · have hpointer : pointer crates s = .ok none := by
        unfold pointer
        rw [hcurrent]
      rw [read_bind_of_ok hpointer]
      exact ⟨rfl, nofun⟩
    · obtain ⟨release, previous, hpoints⟩ := hs.current hcurrent
      rw [read_bind_of_ok (pointer_of_pointsTo hfaithful hpoints), lift_bind_of_ok (required_some _ _)]
      cases previous with
      | none => exact ⟨rfl, nofun⟩
      | some previous =>
        rcases h with hno | hno
        · exact absurd hconsent hno
        · exact absurd hpoints (hno release previous)

theorem final_of_steps_nil (h : (x s).steps = []) : x.final s = s ∧ ∀ k, cut k x s = s := by
  unfold final cut
  rw [h]
  exact ⟨rfl, fun k => by rw [take_nil]; rfl⟩

/-- A call keeps the registry sound, a failed call changes nothing, and an
interruption leaves the old or the new pointer. -/
structure Keeps (crates : Crates) (runs : Runs) (s : Registry) (call : RegistryCall) : Prop where
  sound : Sound crates runs ((call.body crates runs).final s)
  failed : ∀ e, (call.body crates runs s).result = .error e → (call.body crates runs).final s = s
  pointer : ∀ k, (cut k (call.body crates runs) s).current = s.current ∨
    (cut k (call.body crates runs) s).current = ((call.body crates runs).final s).current
  interrupted : ∀ k, RegistryStep.Safe crates runs s (.crash call k) →
    Sound crates runs (cut k (call.body crates runs) s)

theorem Keeps.of_refused (hs : Sound crates runs s)
    (h : ((call.body crates runs) s).steps = []) : Keeps crates runs s call := by
  obtain ⟨hfinal, hcut⟩ := final_of_steps_nil h
  refine ⟨hfinal.symm ▸ hs, fun _ _ => hfinal, fun k => .inl ?_, fun k _ => ?_⟩
  · rw [hcut k]
  · rw [hcut k]
    exact hs

variable (hfaithful : Faithful crates runs)

include hfaithful

theorem keeps_promote (hs : Sound crates runs s) (grant : Bytes) (run : String) :
    Keeps crates runs s (.promote grant run) := by
  by_cases hpass : consent grant false = .ok () ∧ ∃ record, releaseRecord runs run = .ok record
  · obtain ⟨hconsent, record, hrecord⟩ := hpass
    obtain ⟨mid, t, previous, hmid, hcurrent, hends, hrecords, hpoints, _, hcuts⟩ :=
      promote_spec hfaithful hs hconsent hrecord
    have hsound := hmid.of_pointsTo hrecords hpoints
    have hfinal : ((RegistryCall.promote grant run).body crates runs).final s = t := hends.2
    refine ⟨hfinal.symm ▸ hsound, ?_, ?_, ?_⟩
    · intro e he
      exact nomatch he.symm.trans hends.1
    · intro k
      rw [hfinal]
      obtain ⟨u, hu, hcut | ⟨_, _, hkept⟩⟩ := hcuts k
      · rw [show cut k ((RegistryCall.promote grant run).body crates runs) s = u from hcut]
        rcases hu with rfl | ⟨_, hold | rfl⟩
        · exact .inl rfl
        · exact .inl (hold.trans hcurrent)
        · exact .inr rfl
      · exact .inl hkept
    · intro k hsafe
      obtain ⟨u, hu, hcut | ⟨hnone, hk, _⟩⟩ := hcuts k
      · rw [show cut k ((RegistryCall.promote grant run).body crates runs) s = u from hcut]
        rcases hu with rfl | ⟨hkept, hold | rfl⟩
        · exact hs
        · exact hmid.of_current hkept hold
        · exact hsound
      · exact absurd hk (hsafe record hconsent hrecord hnone)
  · refine Keeps.of_refused hs (promote_refused ?_).1
    by_cases hconsent : consent grant false = .ok ()
    · exact .inr (fun record hrecord => hpass ⟨hconsent, record, hrecord⟩)
    · exact .inl hconsent

/-- A rollback that has a previous release exchanges the two. -/
theorem rollback_spec (hconsent : consent grant false = .ok ()) {previous : String}
    (h : PointsTo crates runs s release (some previous)) :
    ∃ t, Ends (rollback crates runs grant) s (pointerValue previous (.string release)) t ∧
      t.records = s.records ∧ PointsTo crates runs t previous (some release) ∧
      ∀ k, (cut k (rollback crates runs grant) s).records = s.records ∧
        ((cut k (rollback crates runs grant) s).current = s.current ∨
          cut k (rollback crates runs grant) s = t) := by
  have heq := rollback_eq hfaithful hconsent h
  obtain ⟨t, hends, hrecords, hnew, hcrash⟩ := movePointer_spec
    (h.2.2.2 previous rfl) (some release) (fun id hid => some.inj hid ▸ h.2.2.1)
  refine ⟨t, (ends_congr heq).mpr hends, hrecords, hnew, ?_⟩
  intro k
  exact hcrash _ ((crash_congr heq).mp (crash_cut k _ s))

theorem keeps_rollback (hs : Sound crates runs s) (grant : Bytes) :
    Keeps crates runs s (.rollback grant) := by
  by_cases hpass : consent grant false = .ok () ∧
      ∃ release previous, PointsTo crates runs s release (some previous)
  · obtain ⟨hconsent, release, previous, hpoints⟩ := hpass
    obtain ⟨t, hends, hrecords, hnew, hcuts⟩ := rollback_spec hfaithful hconsent hpoints
    have hsound := hs.of_pointsTo hrecords hnew
    have hfinal : ((RegistryCall.rollback grant).body crates runs).final s = t := hends.2
    refine ⟨hfinal.symm ▸ hsound, ?_, ?_, ?_⟩
    · intro e he
      exact nomatch he.symm.trans hends.1
    · intro k
      rw [hfinal]
      rcases (hcuts k).2 with hold | heq
      · exact .inl hold
      · exact .inr (congrArg Registry.current heq)
    · intro k _
      obtain ⟨hkept, hold | heq⟩ := hcuts k
      · exact hs.of_current hkept hold
      · rw [show cut k ((RegistryCall.rollback grant).body crates runs) s = t from heq]
        exact hsound
  · refine Keeps.of_refused hs (rollback_refused hfaithful hs ?_).1
    by_cases hconsent : consent grant false = .ok ()
    · exact .inr (fun release previous hpoints => hpass ⟨hconsent, release, previous, hpoints⟩)
    · exact .inl hconsent

theorem keeps (hs : Sound crates runs s) (call : RegistryCall) : Keeps crates runs s call := by
  cases call with
  | promote grant run => exact keeps_promote hfaithful hs grant run
  | rollback grant => exact keeps_rollback hfaithful hs grant

omit hfaithful

theorem Sound.step (hfaithful : Faithful crates runs) (hs : Sound crates runs s) {step : RegistryStep}
    (hsafe : step.Safe crates runs s) (h : s.next crates runs step = some t) :
    Sound crates runs t := by
  cases step with
  | finish call =>
    rw [← some.inj h]
    exact (keeps hfaithful hs call).sound
  | crash call k =>
    rw [← some.inj h]
    exact (keeps hfaithful hs call).interrupted k hsafe

/-- A successful rollback had a previous release. -/
theorem rollback_ends (hfaithful : Faithful crates runs) (hs : Sound crates runs s)
    (h : Ends (rollback crates runs grant) s v t) :
    consent grant false = .ok () ∧
      ∃ release previous, PointsTo crates runs s release (some previous) ∧
        PointsTo crates runs t previous (some release) ∧ t.records = s.records := by
  by_cases hpass : consent grant false = .ok () ∧
      ∃ release previous, PointsTo crates runs s release (some previous)
  · obtain ⟨hconsent, release, previous, hpoints⟩ := hpass
    obtain ⟨u, hends, hrecords, hnew, _⟩ := rollback_spec hfaithful hconsent hpoints
    obtain ⟨_, rfl⟩ := h.unique hends
    exact ⟨hconsent, release, previous, hpoints, hnew, hrecords⟩
  · refine absurd h.1 ((rollback_refused hfaithful hs ?_).2 v)
    by_cases hconsent : consent grant false = .ok ()
    · exact .inr (fun release previous hpoints => hpass ⟨hconsent, release, previous, hpoints⟩)
    · exact .inl hconsent

/-- In every run of calls and interruptions that never stops between the
creation of a record and its write: the pointer parses and names a retained
record, a failed call changes nothing and an interrupted one leaves the old
or the new pointer, every promotion of a passing run succeeds, a promotion
of the current release changes nothing, and two rollbacks restore the
pointer. -/
theorem registry_stays_sound (hfaithful : Faithful crates runs)
    (h : Steps (Registry.next crates runs) (RegistryStep.Safe crates runs ) .empty s) :
    (s.current ≠ none → ∃ value id record, pointer crates s = .ok (some value) ∧
      (value.index "release").asStr = some id ∧ retained crates runs s id = .ok record ∧
      digestValue crates.sha record = id) ∧
    (∀ call : RegistryCall,
      (∀ e, (call.body crates runs s).result = .error e → (call.body crates runs).final s = s) ∧
      ∀ k, (cut k (call.body crates runs) s).current = s.current ∨
        (cut k (call.body crates runs) s).current = ((call.body crates runs).final s).current) ∧
    (∀ grant run record, consent grant false = .ok () → releaseRecord runs run = .ok record →
      ∃ v t, Ends (promote crates runs grant run) s v t ∧
        (v.index "release").asStr = some (digestValue crates.sha record) ∧
        pointer crates t = .ok (some v)) ∧
    (∀ grant run record v, consent grant false = .ok () → releaseRecord runs run = .ok record →
      pointer crates s = .ok (some v) →
      (v.index "release").asStr = some (digestValue crates.sha record) →
      Ends (promote crates runs grant run) s v s) ∧
    (∀ grant grant' v v' t u, Ends (rollback crates runs grant) s v t →
      Ends (rollback crates runs grant') t v' u → u.current = s.current) := by
  have hs : Sound crates runs s :=
    h.invariant (fun s l t hs hsafe hstep => hs.step hfaithful hsafe hstep) Sound.empty
  refine ⟨?_, ?_, ?_, ?_, ?_⟩
  · intro hcurrent
    obtain ⟨release, previous, hpoints⟩ := hs.current hcurrent
    obtain ⟨_, record, _, hid, _, hretained, _⟩ := retained_of_retains hfaithful hpoints.2.2.1
    exact ⟨_, release, record, pointer_of_pointsTo hfaithful hpoints, rfl, hretained, hid.symm⟩
  · intro call
    exact ⟨(keeps hfaithful hs call).failed, (keeps hfaithful hs call).pointer⟩
  · intro grant run record hconsent hrecord
    obtain ⟨mid, t, previous, _, _, hends, _, hpoints, _, _⟩ :=
      promote_spec hfaithful hs hconsent hrecord
    exact ⟨_, t, hends, rfl, pointer_of_pointsTo hfaithful hpoints⟩
  · intro grant run record v hconsent hrecord hpointer hname
    have hcurrent : s.current ≠ none := by
      intro hnone
      unfold pointer at hpointer
      rw [hnone] at hpointer
      exact nomatch hpointer
    obtain ⟨release, other, hpoints⟩ := hs.current hcurrent
    obtain rfl := Option.some.inj (Except.ok.inj (hpointer.symm.trans
      (pointer_of_pointsTo hfaithful hpoints)))
    obtain rfl : release = digestValue crates.sha record := Option.some.inj hname
    obtain ⟨_, t, previous, _, _, hends, _, hnew, hsame, _⟩ :=
      promote_spec hfaithful hs hconsent hrecord
    obtain rfl := hsame other hpoints
    obtain ⟨_, rfl⟩ := hnew.unique hfaithful hpoints
    exact hends
  · intro grant grant' v v' t u hfirst hsecond
    obtain ⟨_, release, previous, hpoints, hnew, hrecords⟩ := rollback_ends hfaithful hs hfirst
    have ht := hs.of_pointsTo hrecords hnew
    obtain ⟨_, release', previous', hpoints', hlast, _⟩ := rollback_ends hfaithful ht hsecond
    obtain ⟨rfl, heq⟩ := hnew.unique hfaithful hpoints'
    obtain rfl := Option.some.inj heq
    rw [hlast.1, hpoints.1]

/-! ## A run with an interruption -/

def releaseRuns : Runs where
  canonicalize run := if run = "/a" ∨ run = "/bb" then some run else none
  evidence run := .ok ⟨"t" ++ run, "e" ++ run, .string "base", .string "adapter", .string "gate", true⟩

def releaseSample (run : String) : Value :=
  recordOf run ⟨"t" ++ run, "e" ++ run, .string "base", .string "adapter", .string "gate", true⟩

/-- The digest of a message is chosen by its length. -/
def releaseSha : Sha256 := fun message =>
  if message.length = (canonical (releaseSample "/a")).length then .replicate 32 1 else .replicate 32 2

def releaseId (run : String) : String := digestValue releaseSha (releaseSample run)

def releaseValues : List Value :=
  [releaseSample "/a", releaseSample "/bb",
    pointerValue (releaseId "/a") .null, pointerValue (releaseId "/bb") .null,
    pointerValue (releaseId "/a") (.string (releaseId "/a")),
    pointerValue (releaseId "/a") (.string (releaseId "/bb")),
    pointerValue (releaseId "/bb") (.string (releaseId "/a")),
    pointerValue (releaseId "/bb") (.string (releaseId "/bb"))]

/-- A parser that knows some values. -/
def parseAmong (values : List Value) (file : Bytes) : Option Value :=
  values.find? (fun value => fileOf value = file)

def releaseCrates : Crates where
  sha := releaseSha
  parse := parseAmong releaseValues
  secrets := fun text => text

theorem releaseCrates_parse : ∀ value ∈ releaseValues,
    releaseCrates.parse (fileOf value) = some value := by
  decide +kernel

theorem parseAmong_nil (values : List Value) : parseAmong values [] = none := by
  refine find?_eq_none.mpr ?_
  intro value _
  simp [fileOf]

theorem releaseRecord_sample (h : releaseRecord releaseRuns run = .ok record) :
    (run = "/a" ∨ run = "/bb") ∧ record = releaseSample run := by
  unfold releaseRecord at h
  simp only [bind_ok_iff, required_eq_ok, ensure_eq_ok, ok.injEq] at h
  obtain ⟨path, hpath, evidence, hevidence, _, _, rfl⟩ := h
  by_cases hrun : run = "/a" ∨ run = "/bb"
  · obtain rfl : run = path := by simpa [releaseRuns, hrun] using hpath
    obtain rfl := ok.inj hevidence
    exact ⟨hrun, rfl⟩
  · simp [releaseRuns, hrun] at hpath

theorem releaseRuns_faithful : Faithful releaseCrates releaseRuns where
  canonicalize run path h := by
    by_cases hrun : run = "/a" ∨ run = "/bb"
    · obtain rfl : run = path := by simpa [releaseRuns, hrun] using h
      exact h
    · simp [releaseRuns, hrun] at h
  bounded run record h := by
    obtain ⟨hrun, rfl⟩ := releaseRecord_sample h
    rcases hrun with rfl | rfl <;> decide +kernel
  reads run record h := by
    obtain ⟨hrun, rfl⟩ := releaseRecord_sample h
    refine releaseCrates_parse _ ?_
    rcases hrun with rfl | rfl <;> simp [releaseValues]
  points run record h previous hprevious := by
    obtain ⟨hrun, rfl⟩ := releaseRecord_sample h
    refine releaseCrates_parse _ ?_
    show pointerValue (releaseId run) previous ∈ releaseValues
    rcases hprevious with rfl | ⟨other, otherRecord, hother, rfl⟩
    · rcases hrun with rfl | rfl <;> simp [releaseValues]
    · obtain ⟨hpath, rfl⟩ := releaseRecord_sample hother
      show pointerValue (releaseId run) (.string (releaseId other)) ∈ releaseValues
      rcases hrun with rfl | rfl <;> rcases hpath with rfl | rfl <;> simp [releaseValues]
  collisions a b recordA recordB ha hb hdigest := by
    obtain ⟨hrunA, rfl⟩ := releaseRecord_sample ha
    obtain ⟨hrunB, rfl⟩ := releaseRecord_sample hb
    have hdistinct : releaseId "/a" ≠ releaseId "/bb" := by decide +kernel
    rcases hrunA with rfl | rfl <;> rcases hrunB with rfl | rfl
    · rfl
    · exact absurd hdigest hdistinct
    · exact absurd hdigest.symm hdistinct
    · rfl

def releaseGrant : Bytes := utf8 "abbey-train-consent: v1\n"

/-- The first run is promoted, the promotion of the second is interrupted
when its record is written, and the promotion is repeated. -/
def afterInterruption : Registry :=
  cut 2 (promote releaseCrates releaseRuns releaseGrant "/bb")
    ((promote releaseCrates releaseRuns releaseGrant "/a").final .empty)

theorem interrupted_promote_repeated :
    ∃ v t, Ends (promote releaseCrates releaseRuns releaseGrant "/bb") afterInterruption v t ∧
      (v.index "release").asStr = some (releaseId "/bb") ∧ pointer releaseCrates t = .ok (some v) := by
  have hfirst : Steps (Registry.next releaseCrates releaseRuns)
      (RegistryStep.Safe releaseCrates releaseRuns) .empty
      ((promote releaseCrates releaseRuns releaseGrant "/a").final .empty) :=
    (Steps.refl _).tail (l := .finish (.promote releaseGrant "/a")) trivial rfl
  have hsecond : Steps (Registry.next releaseCrates releaseRuns)
      (RegistryStep.Safe releaseCrates releaseRuns) .empty afterInterruption :=
    hfirst.tail (l := .crash (.promote releaseGrant "/bb") 2) (fun _ _ _ _ => by decide) rfl
  exact (registry_stays_sound releaseRuns_faithful hsecond).2.2.1 releaseGrant "/bb"
    (releaseSample "/bb") (by decide +kernel) rfl

/-- A promotion interrupted between the creation of its record and the
write of the bytes. -/
def afterCreation : Registry :=
  cut 1 (promote releaseCrates releaseRuns releaseGrant "/a") .empty

/-- The repeated promotion is refused: the empty record does not parse. -/
theorem interrupted_promote_refused :
    consent releaseGrant false = .ok () ∧
      releaseRecord releaseRuns "/a" = .ok (releaseSample "/a") ∧
      Registry.empty.next releaseCrates releaseRuns (.crash (.promote releaseGrant "/a") 1) =
        some afterCreation ∧
      (promote releaseCrates releaseRuns releaseGrant "/a" afterCreation).result =
        .error .notJson := by
  have hconsent : consent releaseGrant false = .ok () := by decide +kernel
  have hrecord : releaseRecord releaseRuns "/a" = .ok (releaseSample "/a") := rfl
  have hcreated := cut_one_promote releaseRuns_faithful Sound.empty hconsent hrecord rfl
  refine ⟨hconsent, hrecord, rfl, promote_of_empty_record ?_ hconsent hrecord ?_⟩
  · simp only [releaseCrates, parseAmong_nil]
  · unfold afterCreation
    rw [hcreated, putRecord_records]

end Abbey.Learning
