import Abbey.Voice.Store

/-!
# Nobody is granted before a change is durable

`World.Sound` holds in every state of every run, whatever fails: a snapshot
that a writer holds is older than the state it was taken from or equal to
it, and an available store whose revisions agree has exactly its ledger on
the disk, with the marker gone.
-/

namespace Abbey.Voice

open Abbey.Lib World List

variable {ok : Bool} {ledger : Ledger} {log : List Event} {revision : Nat} {s : State}

namespace World

/-- What a saving writer holds. -/
structure Snapshot (guild : Nat) (s : State) (ledger : Ledger) (revision : Nat) : Prop where
  unsaved : s.savedRevision < revision
  le : revision ≤ s.revision
  latest : revision = s.revision → ledger = s.ledger
  valid : ledger.Valid guild

def PhaseSound (guild : Nat) (w : World) : Phase → Prop
  | .top => True
  | .saving op ledger revision =>
    Snapshot guild w.state ledger revision ∧
      (op = .syncRename → w.file.now = some ledger) ∧
      (op = .unlinkMarker ∨ op = .syncUnlinked → w.file.All (· = some ledger)) ∧
      (op = .syncUnlinked → w.marker.now = false)
  | .settle ledger revision =>
    Snapshot guild w.state ledger revision ∧ w.file.All (· = some ledger) ∧ w.marker.All (· = false)
  | .poison | .giveUp => w.state.savedRevision < w.state.revision
  | .removeFile | .syncRemoved => w.state.available = false

/-- The ledger has what an admitted call asked for. -/
structure Has (s : State) (work : Work) : Prop where
  revision : ∃ n, work.revision = some (n + 1) ∧ n + 1 ≤ s.revision
  remembers : s.ledger.Remembers work.user work.event
  denies : work.choice.withdraws = true → s.ledger.Denies work.user work.event

/-- The invariant of all runs, with the events of the running process. -/
structure Sound (guild : Nat) (w : World) (done : List Event) : Prop where
  saved_le : w.state.savedRevision ≤ w.state.revision
  valid : w.state.ledger.Valid guild
  file_valid : w.file.All (fun f => ∀ ledger, f = some ledger → ledger.Valid guild)
  admitted : ∀ work, Admitted done work → Has w.state work
  waiting : ∀ work, work ∈ w.called ∨ work ∈ w.queued → Reserved done work
  returned : ∀ work, (work, true) ∈ w.returned → Admitted done work
  working : ∀ work phase, w.writer = some (work, phase) → Admitted done work
  phase : ∀ work phase, w.writer = some (work, phase) → w.PhaseSound guild phase
  settled : w.state.available = true → w.state.revision = w.state.savedRevision →
    0 < w.state.revision → w.file.All (· = some w.state.ledger) ∧ w.marker.All (· = false)

variable {guild : Nat} {w w' : World} {done : List Event} {e : Event} {work : Work} {phase : Phase}
  {user event now : Nat} {choice : Choice}

/-- A snapshot is no longer the latest once a change is admitted. -/
theorem Snapshot.of_admitted {ledger' : Ledger} (h : Snapshot guild s ledger revision) :
    Snapshot guild { s with ledger := ledger', revision := s.revision + 1 } ledger revision where
  unsaved := h.unsaved
  le := Nat.le_succ_of_le h.le
  latest heq := by
    have hle := h.le
    exact absurd heq (by simp only; omega)
  valid := h.valid

theorem Snapshot.ne (h : Snapshot guild s ledger revision) : s.revision ≠ s.savedRevision := by
  have hunsaved := h.unsaved
  have hle := h.le
  omega

theorem PhaseSound.of_admitted {called : List Work} (h : w.PhaseSound guild phase)
    (hsaved : w.state.savedRevision ≤ w.state.revision) : PhaseSound guild
      { w with state := { w.state with ledger, revision := w.state.revision + 1 }, called }
      phase := by
  cases phase with
  | top => trivial
  | saving op ledger revision | settle ledger revision => exact ⟨h.1.of_admitted, h.2⟩
  | poison | giveUp => exact Nat.lt_succ_of_le hsaved
  | removeFile => exact h
  | syncRemoved => exact h

theorem Has.of_takes {ev : Nat} (h : Has s work) (htakes : s.ledger.Takes ledger user ev choice) :
    Has { s with ledger, revision := s.revision + 1 } work := by
  obtain ⟨n, hn, hle⟩ := h.revision
  refine ⟨⟨n, hn, ?_⟩, htakes.remembers h.remembers, fun hc => htakes.denies (h.denies hc)⟩
  show n + 1 ≤ s.revision + 1
  omega

namespace Sound

section

variable (h : w.Sound guild done)

include h

/-- A step of the writer that leaves the ledger and the wanted revision as
they are. -/
theorem of_writer (he : e.reserved = none)
    (hledger : w'.state.ledger = w.state.ledger) (hrevision : w'.state.revision = w.state.revision)
    (hsaved : w'.state.savedRevision ≤ w'.state.revision)
    (hfile : w'.file.All (fun f => ∀ ledger, f = some ledger → ledger.Valid guild))
    (hcalled : w'.called = w.called) (hqueued : w'.queued = w.queued)
    (hreturned : ∀ other, (other, true) ∈ w'.returned → (other, true) ∈ w.returned ∨ other = work)
    (hwork : Admitted done work) (hwriter : ∀ other phase, w'.writer = some (other, phase) →
      other = work ∧ w'.PhaseSound guild phase)
    (hsettled : w'.state.available → w'.state.revision = w'.state.savedRevision →
      0 < w'.state.revision →
      w'.file.All (· = some w'.state.ledger) ∧ w'.marker.All (· = false)) :
    w'.Sound guild (done ++ [e]) where
  saved_le := hsaved
  valid := hledger ▸ h.valid
  file_valid := hfile
  admitted other hother := by
    have hold := h.admitted other (hother.of_append he)
    refine ⟨hrevision ▸ hold.revision, ?_, ?_⟩
    · rw [hledger]
      exact hold.remembers
    · rw [hledger]
      exact hold.denies
  waiting other hother := by
    rw [hcalled, hqueued] at hother
    exact reserved_append.mpr (.inl (h.waiting other hother))
  returned other hother := by
    rcases hreturned other hother with hold | rfl
    · exact (h.returned other hold).append
    · exact hwork.append
  working other phase hphase := by
    rw [(hwriter other phase hphase).1]
    exact hwork.append
  phase other phase hphase := (hwriter other phase hphase).2
  settled := hsettled

theorem reserve (hstep : w.step guild (.reserve user event choice now work) = some w') :
    w'.Sound guild (done ++ [.reserve user event choice now work]) := by
  simp only [step] at hstep
  split_ifs at hstep with hguard
  obtain ⟨hevent, hwork⟩ := hguard
  have hwaiting : ∀ other, other ∈ w.called ++ [work] ∨ other ∈ w.queued →
      Reserved (done ++ [.reserve user event choice now work]) other := by
    intro other hother
    rw [mem_append] at hother
    rcases hother with (hold | hnew) | hold
    · exact reserved_append.mpr (.inl (h.waiting other (.inl hold)))
    · rw [mem_singleton.mp hnew]
      exact reserved_append.mpr (.inr rfl)
    · exact reserved_append.mpr (.inl (h.waiting other (.inr hold)))
  rcases State.reserve_spec h.valid hevent with ⟨revision, hrevision, hreserve⟩ |
    ⟨ledger, ev, havailable, htakes, hreserve⟩
  · -- the state is as it was, and the work is none of the admitted ones
    rw [hreserve] at hstep hwork
    cases hstep
    have hadmitted : ∀ other, Admitted (done ++ [.reserve user event choice now work]) other →
        Admitted done other := by
      intro other hother
      refine ⟨?_, hother.revision⟩
      rcases reserved_append.mp hother.reserved with hold | hnew
      · exact hold
      · obtain ⟨n, hn⟩ := hother.revision
        have hsame : work = other := Option.some.inj hnew
        rw [← hsame, hwork] at hn
        rcases hrevision with ⟨rfl, _⟩ | rfl <;> cases hn
    exact
      { h with
        admitted := fun other hother => h.admitted other (hadmitted other hother)
        waiting := hwaiting
        returned := fun other hother => (h.returned other hother).append
        working := fun other phase hphase => (h.working other phase hphase).append
        phase := h.phase
        settled := h.settled }
  · rw [hreserve] at hstep hwork
    cases hstep
    exact
      { saved_le := Nat.le_succ_of_le h.saved_le
        valid := htakes.valid h.valid
        file_valid := h.file_valid
        admitted := by
          intro other hother
          rcases reserved_append.mp hother.reserved with hold | hnew
          · exact (h.admitted other ⟨hold, hother.revision⟩).of_takes htakes
          · have hsame : work = other := Option.some.inj hnew
            rw [← hsame, hwork]
            exact ⟨⟨w.state.revision, rfl, le_refl _⟩, htakes.remembers_self, htakes.denies_self⟩
        waiting := hwaiting
        returned := fun other hother => (h.returned other hother).append
        working := fun other phase hphase => (h.working other phase hphase).append
        phase := fun other phase hphase =>
          (h.phase other phase hphase).of_admitted h.saved_le
        settled := by
          intro _ hsaved
          have hlt := h.saved_le
          exact absurd hsaved (by simp only; omega) }

section

variable (he : e.reserved = none) (hwork : Admitted done work)

include he hwork

/-- A step of the writer that only moves it to another phase. -/
theorem goto {next : Phase} (hnext : w.PhaseSound guild next) :
    (w.goto work next).Sound guild (done ++ [e]) := by
  refine h.of_writer he rfl rfl h.saved_le h.file_valid rfl rfl (fun _ hr => .inl hr) hwork ?_
    h.settled
  intro other phase hphase
  cases hphase
  exact ⟨rfl, hnext⟩

theorem give : (w.give work ok).Sound guild (done ++ [e]) := by
  refine h.of_writer he rfl rfl h.saved_le h.file_valid rfl rfl ?_ hwork ?_ h.settled
  · intro other hother
    rcases mem_append.mp hother with hold | hnew
    · exact .inl hold
    · cases mem_singleton.mp hnew
      exact .inr rfl
  · intro other phase hphase
    cases hphase

/-- The invariant does not speak about an unavailable store. -/
theorem poisoned : (w.poisoned.goto work .removeFile).Sound guild (done ++ [e]) ∧
      (w.poisoned.give work false).Sound guild (done ++ [e]) := by
  constructor
  · refine h.of_writer he rfl rfl h.saved_le h.file_valid rfl rfl (fun _ hr => .inl hr) hwork ?_
      nofun
    intro other phase hphase
    cases hphase
    exact ⟨rfl, rfl⟩
  · refine h.of_writer he rfl rfl h.saved_le h.file_valid rfl rfl ?_ hwork ?_
      nofun
    · intro other hother
      rcases mem_append.mp hother with hold | hnew
      · exact .inl hold
      · cases mem_singleton.mp hnew
    · intro other phase hphase
      cases hphase

end

theorem proceed (hwriter : w.writer = some (work, phase))
    (hstep : w.proceed work phase = some w') : w'.Sound guild (done ++ [.proceed]) := by
  have hwork := h.working work phase hwriter
  have hphase := h.phase work phase hwriter
  cases phase with
  | top =>
    simp only [proceed] at hstep
    split_ifs at hstep with havailable hsaved
    · cases hstep
      exact h.give rfl hwork
    · cases hstep
      exact h.give rfl hwork
    · cases hstep
      have hlt : w.state.savedRevision < w.state.revision := by
        have hle := h.saved_le
        omega
      exact h.goto rfl hwork ⟨⟨hlt, le_refl _, fun _ => rfl, h.valid⟩, by simp, by simp, by simp⟩
  | saving op ledger revision =>
    cases op with
    | unlinkMarker =>
      simp only [proceed] at hstep
      split_ifs at hstep
      cases hstep
      exact h.goto rfl hwork trivial
    | _ => cases hstep
  | settle ledger revision =>
    simp only [proceed] at hstep
    obtain ⟨hsnapshot, hfile, hmarker⟩ := hphase
    split_ifs at hstep with hlatest
    · cases hstep
      have hledger : ledger = w.state.ledger := hsnapshot.latest hlatest.symm
      have hsound : World.Sound guild
          { w with state := { w.state with savedRevision := revision }, writer := none } done :=
        { h with
          saved_le := le_of_eq hlatest.symm
          admitted := fun other hother => ⟨(h.admitted other hother).revision,
            (h.admitted other hother).remembers, (h.admitted other hother).denies⟩
          working := nofun
          phase := nofun
          settled := fun _ _ _ => ⟨hledger ▸ hfile, hmarker⟩ }
      exact hsound.give rfl hwork
    · cases hstep
      exact h.goto rfl hwork trivial
  | poison =>
    cases hstep
    exact (h.poisoned rfl hwork).1
  | giveUp =>
    cases hstep
    exact (h.poisoned rfl hwork).2
  | removeFile => cases hstep
  | syncRemoved => cases hstep

/-- The directory changes while the store is not settled. -/
theorem rewritten (marker : Entry Bool) (file : Entry (Option Ledger))
    (hunsettled : w.state.available → w.state.revision ≠ w.state.savedRevision)
    (hfile : file.All (fun f => ∀ ledger, f = some ledger → ledger.Valid guild)) :
    World.Sound guild { w with marker, file, writer := none } done :=
  { h with
    file_valid := hfile
    working := nofun
    phase := nofun
    settled := fun havailable hsaved _ => absurd hsaved (hunsettled havailable) }

/-- A sync leaves what is read now. -/
theorem syncDir (hunsettled : w.state.available → w.state.revision ≠ w.state.savedRevision) :
    World.Sound guild { w with marker := w.marker.sync, file := w.file.sync, writer := none } done :=
  h.rewritten w.marker.sync w.file.sync hunsettled (Entry.all_sync.mpr h.file_valid.now)

theorem save {op : SaveOp}
    (hwriter : w.writer = some (work, .saving op ledger revision)) (he : e.reserved = none)
    (hstep : w.save work ledger revision ok op = some w') : w'.Sound guild (done ++ [e]) := by
  have hwork := h.working work _ hwriter
  obtain ⟨hsnapshot, hrenamed, hfile, hmarker⟩ := h.phase work _ hwriter
  have hpoison : (w.goto work .poison).Sound guild (done ++ [e]) :=
    h.goto he hwork (lt_of_lt_of_le hsnapshot.unsaved hsnapshot.le)
  have hunsettled : w.state.available → w.state.revision ≠ w.state.savedRevision :=
    fun _ => hsnapshot.ne
  cases op with
  | createMarker =>
    simp only [World.save] at hstep
    split_ifs at hstep
    · cases hstep
      exact hpoison
    · cases hstep
      exact h.goto he hwork ⟨hsnapshot, by simp, by simp, by simp⟩
    · cases hstep
      have hcreated := h.rewritten (w.marker.write true) w.file hunsettled h.file_valid
      exact hcreated.goto he hwork ⟨hsnapshot, by simp, by simp, by simp⟩
  | syncMarker =>
    simp only [World.save] at hstep
    split_ifs at hstep
    · cases hstep
      exact hpoison
    · cases hstep
      exact (h.syncDir hunsettled).goto he hwork ⟨hsnapshot, by simp, by simp, by simp⟩
  | writeTemp =>
    simp only [World.save] at hstep
    split_ifs at hstep
    · cases hstep
      exact hpoison
    · cases hstep
      exact h.goto he hwork ⟨hsnapshot, by simp, by simp, by simp⟩
  | rename =>
    simp only [World.save] at hstep
    split_ifs at hstep
    · cases hstep
      exact hpoison
    · cases hstep
      have hvalid : (w.file.write (some ledger)).All
          (fun f => ∀ l, f = some l → l.Valid guild) := by
        refine Entry.all_write.mpr ⟨fun l hl => ?_, h.file_valid⟩
        cases hl
        exact hsnapshot.valid
      have hwritten := h.rewritten w.marker (w.file.write (some ledger)) hunsettled hvalid
      exact hwritten.goto he hwork ⟨hsnapshot, fun _ => rfl, by simp, by simp⟩
  | syncRename =>
    simp only [World.save] at hstep
    split_ifs at hstep
    · cases hstep
      exact hpoison
    · cases hstep
      refine (h.syncDir hunsettled).goto he hwork ⟨hsnapshot, by simp, fun _ => ?_, by simp⟩
      exact Entry.all_sync.mpr (hrenamed rfl)
  | unlinkMarker =>
    simp only [World.save] at hstep
    split_ifs at hstep
    · cases hstep
      exact (h.poisoned he hwork).2
    · cases hstep
      have hunlinked := h.rewritten (w.marker.write false) w.file hunsettled h.file_valid
      exact hunlinked.goto he hwork ⟨hsnapshot, by simp, fun _ => hfile (.inl rfl), fun _ => rfl⟩
  | syncUnlinked =>
    simp only [World.save] at hstep
    split_ifs at hstep
    · cases hstep
      exact h.goto he hwork (lt_of_lt_of_le hsnapshot.unsaved hsnapshot.le)
    · cases hstep
      exact (h.syncDir hunsettled).goto he hwork ⟨hsnapshot,
        Entry.all_sync.mpr (hfile (.inr rfl)).now, Entry.all_sync.mpr (hmarker rfl)⟩

theorem disk (hwriter : w.writer = some (work, phase)) (he : e.reserved = none)
    (hstep : w.disk work ok phase = some w') : w'.Sound guild (done ++ [e]) := by
  have hwork := h.working work phase hwriter
  have hphase := h.phase work phase hwriter
  cases phase with
  | saving op ledger revision => exact h.save hwriter he hstep
  | removeFile =>
    have hunavailable : w.state.available = false := hphase
    simp only [disk] at hstep
    split_ifs at hstep
    · cases hstep
      exact h.goto he hwork hphase
    · cases hstep
      have hremoved := h.rewritten w.marker (w.file.write none)
        (fun havailable => by simp [hunavailable] at havailable)
        (Entry.all_write.mpr ⟨by simp, h.file_valid⟩)
      exact hremoved.goto he hwork hphase
  | syncRemoved =>
    have hunavailable : w.state.available = false := hphase
    simp only [disk] at hstep
    split_ifs at hstep
    · cases hstep
      exact (h.syncDir (fun havailable => by simp [hunavailable] at havailable)).give he hwork
    · cases hstep
      exact h.give he hwork
  | top | settle | poison | giveUp => cases hstep

/-- Any part of the work that is waiting may go. -/
theorem waits (he : e.reserved = none) (called queued : List Work) (returned : List (Work × Bool))
    (hwaiting : ∀ other, other ∈ called ∨ other ∈ queued → other ∈ w.called ∨ other ∈ w.queued)
    (hreturned : ∀ other, (other, true) ∈ returned → (other, true) ∈ w.returned) :
    World.Sound guild { w with called, queued, returned } (done ++ [e]) :=
  { h with
    admitted := fun other hother => h.admitted other (hother.of_append he)
    waiting := fun other hother =>
      reserved_append.mpr (.inl (h.waiting other (hwaiting other hother)))
    returned := fun other hother => (h.returned other (hreturned other hother)).append
    working := fun other phase hphase => (h.working other phase hphase).append
    phase := h.phase
    settled := h.settled }

theorem accept (hstep : w.step guild (.accept work) = some w') :
    w'.Sound guild (done ++ [.accept work]) := by
  simp only [step] at hstep
  split_ifs at hstep with hcalled
  cases hstep
  refine h.waits rfl _ _ _ (fun other hother => ?_) (fun _ hr => hr)
  rw [mem_append] at hother
  rcases hother with hother | hold | hnew
  · exact .inl (mem_of_mem_erase hother)
  · exact .inr hold
  · rw [mem_singleton.mp hnew]
    exact .inl hcalled

theorem refuse (hstep : w.step guild (.refuse work) = some w') :
    w'.Sound guild (done ++ [.refuse work]) := by
  simp only [step] at hstep
  split_ifs at hstep with hcalled
  cases hstep
  have hpoisoned : w.poisoned.Sound guild done :=
    { h with
      admitted := fun other hother => ⟨(h.admitted other hother).revision,
        (h.admitted other hother).remembers, (h.admitted other hother).denies⟩
      phase := fun other phase hphase => by
        have hold := h.phase other phase hphase
        cases phase with
        | top => trivial
        | saving op ledger revision | settle ledger revision =>
          exact ⟨⟨hold.1.unsaved, hold.1.le, hold.1.latest, hold.1.valid⟩, hold.2⟩
        | poison => exact hold
        | giveUp => exact hold
        | removeFile => rfl
        | syncRemoved => rfl
      settled := fun havailable => by cases havailable }
  refine hpoisoned.waits rfl _ _ _ (fun other hother => ?_) (fun other hother => ?_)
  · exact hother.imp mem_of_mem_erase id
  · rcases mem_append.mp hother with hold | hnew
    · exact hold
    · cases mem_singleton.mp hnew

theorem start (hstep : w.step guild (.start work) = some w') :
    w'.Sound guild (done ++ [.start work]) := by
  simp only [step] at hstep
  split_ifs at hstep with hguard
  obtain ⟨hqueued, _, hnone, hzero⟩ := hguard
  cases hstep
  have hadmitted : Admitted done work := by
    refine ⟨h.waiting work (.inr hqueued), ?_⟩
    cases hrevision : work.revision with
    | none => exact absurd hrevision hnone
    | some n =>
      cases n with
      | zero => exact absurd hrevision hzero
      | succ n => exact ⟨n, rfl⟩
  have htaken := h.waits (e := .start work) rfl w.called (w.queued.erase work) w.returned
    (fun other hother => hother.imp id mem_of_mem_erase) (fun _ hr => hr)
  exact
    { htaken with
      working := by
        intro other phase hphase
        cases hphase
        exact hadmitted.append
      phase := by
        intro other phase hphase
        cases hphase
        trivial
      settled := htaken.settled }

theorem answer {result : Except String Bool}
    (hstep : w.step guild (.answer work result) = some w') :
    w'.Sound guild (done ++ [.answer work result]) := by
  simp only [step] at hstep
  split_ifs at hstep
  all_goals cases hstep
  · exact h.waits rfl _ _ _ (fun other hother => hother.imp id mem_of_mem_erase)
      (fun _ hr => hr)
  · exact h.waits rfl _ _ _ (fun other hother => hother.imp id mem_of_mem_erase)
      (fun _ hr => hr)
  · exact h.waits rfl _ _ _ (fun other hother => hother) (fun _ hr => mem_of_mem_erase hr)
  · exact h.waits rfl _ _ _ (fun other hother => hother) (fun _ hr => mem_of_mem_erase hr)

end

end Sound

/-- What `load` answers is well formed. -/
theorem valid_load {marker found readable : Bool} {file : Option Ledger}
    (hfile : ∀ ledger, file = some ledger → ledger.Valid guild) :
    (State.load guild marker file found readable).ledger.Valid guild := by
  unfold State.load
  cases file with
  | none =>
    simp only
    split_ifs
    · exact Ledger.valid_new guild
    · exact Ledger.valid_new guild
    · exact Ledger.valid_new guild
  | some ledger =>
    simp only
    split_ifs
    · exact Ledger.valid_new guild
    · exact Ledger.valid_new guild
    · exact hfile ledger rfl
    · exact Ledger.valid_new guild

/-- A process that has done nothing yet. -/
theorem Sound.loaded {marker : Entry Bool} {file : Entry (Option Ledger)} {found readable : Bool}
    (hfile : file.All (fun f => ∀ ledger, f = some ledger → ledger.Valid guild)) :
    Sound guild ⟨State.load guild marker.now file.now found readable, [], [], [], none, marker, file⟩
      [] where
  saved_le := le_refl _
  valid := valid_load hfile.now
  file_valid := hfile
  admitted _ hother := by cases hother.reserved
  waiting _ hother := by simp at hother
  returned _ hother := by cases hother
  working _ _ hnone := by cases hnone
  phase _ _ hnone := by cases hnone
  settled _ _ hpos := absurd hpos (lt_irrefl 0)

/-- Every step keeps the invariant. -/
theorem Sound.step {w : World} (h : w.Sound guild (process log))
    (hstep : w.step guild e = some w') : w'.Sound guild (process (log ++ [e])) := by
  cases e with
  | restart marker file found readable =>
    rw [process, current_begins rfl]
    simp only [step] at hstep
    split_ifs at hstep with hsurvives
    cases hstep
    exact Sound.loaded (h.file_valid.survives hsurvives.2)
  | reserve user event choice now work =>
    rw [process, current_append rfl]
    exact h.reserve hstep
  | accept work =>
    rw [process, current_append rfl]
    exact h.accept hstep
  | refuse work =>
    rw [process, current_append rfl]
    exact h.refuse hstep
  | start work =>
    rw [process, current_append rfl]
    exact h.start hstep
  | proceed =>
    rw [process, current_append rfl]
    obtain ⟨⟨work, phase⟩, hwriter, hproceed⟩ := Option.bind_eq_some_iff.mp hstep
    exact h.proceed hwriter hproceed
  | disk op ok =>
    rw [process, current_append rfl]
    obtain ⟨⟨work, phase⟩, hwriter, hdisk⟩ := Option.bind_eq_some_iff.mp hstep
    simp only at hdisk
    split_ifs at hdisk
    exact h.disk hwriter rfl hdisk
  | answer work result =>
    rw [process, current_append rfl]
    exact h.answer hstep

end World

/-- The invariant of all runs. -/
theorem Run.sound {w : World} (h : Run guild w log) : w.Sound guild (process log) := by
  refine Trace.invariant (I := fun w log => w.Sound guild (process log)) ?_ ?_ h
  · rintro w rfl
    have hnone : (Entry.settled (none : Option Ledger)).All
        (fun f => ∀ ledger, f = some ledger → ledger.Valid guild) :=
      Entry.all_settled.mpr (by simp)
    exact @World.Sound.loaded guild (.settled false) _ true true hnone
  · intro w log e w' hsound hstep
    exact hsound.step hstep

/-- Whatever a loss of power leaves, the marker is gone and the file's ledger
has seen the change. -/
def World.Durable (w : World) (work : Work) : Prop :=
  w.marker.All (· = false) ∧
    w.file.All (fun f => ∃ ledger, f = some ledger ∧ ledger.Remembers work.user work.event)

/-- Neither question is answered in anybody's favour. -/
def State.GrantsNobody (s : State) : Prop :=
  ∀ tryLock mode, mode ≠ .disabled →
    (∀ user, s.agrees tryLock user mode = false) ∧
      ∀ users, s.coverage tryLock users mode = .error unavailable

theorem State.grantsNobody (h : s.available = false ∨ s.revision ≠ s.savedRevision) :
    s.GrantsNobody := by
  have hcheck : (!s.available || s.revision != s.savedRevision) := by
    rcases h with hunavailable | hunsaved
    · simp [hunavailable]
    · simp [hunsaved]
  intro tryLock mode hmode
  constructor
  · intro user
    unfold State.agrees
    rcases h with hunavailable | hunsaved
    · simp [hunavailable]
    · simp [hunsaved]
  · intro users
    unfold State.coverage
    rw [if_neg hmode]
    split_ifs
    · rfl
    · rfl

/-- While an admitted change is not durable, nobody is granted. -/
theorem World.Sound.grantsNobody {w : World} (h : w.Sound guild done)
    (hadmitted : Admitted done work) (hdurable : ¬ w.Durable work) : w.state.GrantsNobody := by
  apply State.grantsNobody
  by_contra hopen
  obtain ⟨havailable, hsaved⟩ := not_or.mp hopen
  rw [Bool.not_eq_false] at havailable
  rw [not_ne_iff] at hsaved
  have hhas := h.admitted work hadmitted
  obtain ⟨n, _, hle⟩ := hhas.revision
  obtain ⟨hfile, hmarker⟩ := h.settled havailable hsaved (by omega)
  refine hdurable ⟨hmarker, hfile.mono (fun f hf => ⟨w.state.ledger, hf, hhas.remembers⟩)⟩

end Abbey.Voice
