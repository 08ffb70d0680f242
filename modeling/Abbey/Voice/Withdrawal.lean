import Abbey.Voice.Durable

/-!
# Withdrawn consent does not come back

A withdrawal binds the running process when it was admitted there, or when a
process before it answered that it is saved, or that it failed.  A failed
withdrawal is kept by the pending marker, and by the removal of the ledger
file where the marker could not be made.

`World.Calm` leaves out the steps after which neither of the two holds what a
failed withdrawal asked for, and `World.Kept` is the invariant of the runs
that make only calm steps.
-/

namespace Abbey.Voice

open Abbey.Lib List World Option

variable {result : Except String Bool} {ledger : Ledger} {events : List Event}

/-- The pending marker could not be made durable. -/
def MarkerFailed (log : List Event) : Prop :=
  .disk (.save .createMarker) false ∈ log ∨ .disk (.save .syncMarker) false ∈ log

/-- Neither the marker could be made nor the ledger file removed. -/
def BothFailed (log : List Event) : Prop := MarkerFailed log ∧ .disk .removeFile false ∈ log

/-- What a process has told about the withdrawals that later ones must keep. -/
def Told (log : List Event) (work : Work) : Prop :=
  .answer work (.ok true) ∈ log ∨
    ((∃ message, .answer work (.error message) ∈ log) ∧ ¬ BothFailed log)

/-- A withdrawal that holds in the running process. -/
def Binds (log : List Event) (work : Work) : Prop :=
  work.choice.withdraws = true ∧
    (Admitted (process log) work ∨ ∃ past ∈ pastProcesses log, Told past work)

/-- Whoever is granted has agreed, and has not withdrawn later. -/
def ConsentKept (w : World) (log : List Event) : Prop :=
  ∀ tryLock user, w.state.agrees tryLock user .local' = true →
    ∃ agreement, Reserved log agreement ∧ agreement.user = user ∧
      agreement.choice = .agree .local' ∧
      ∀ work, Binds log work → work.user = user → work.event ≤ agreement.event

/-- While an admitted change is not durable, nobody is granted. -/
def WaitsForDisk (w : World) (log : List Event) : Prop :=
  ∀ work, Admitted (process log) work → ¬ w.Durable work → w.state.GrantsNobody

namespace World

/-- The steps after which a failed withdrawal is still kept: the registry
refuses nothing while the store is available, the sync after the removal of
the marker succeeds, the ledger file is removed only under a durable marker,
and no process ends between a failed marker and that removal.  A `load` sees
a marker that is there, and it is durable; without one it can read the file. -/
def Calm (w : World) : Event → Prop
  | .refuse _ => w.state.available = false
  | .disk op ok =>
    (op = .save .syncUnlinked → ok = true) ∧
      (op = .removeFile → ok = true → w.marker.All (· = true))
  | .restart marker _ found readable =>
    (marker.now = true → found = true ∧ marker.All (· = true)) ∧
      (marker.now = false → readable = true) ∧
      ∀ work, w.writer = some (work, .removeFile) → w.marker.All (· = true)
  | _ => True

/-- The withdrawals that what is on the disk must keep. -/
def Promised (w : World) (log : List Event) (work : Work) : Prop :=
  work.choice.withdraws = true ∧
    ((∃ past ∈ pastProcesses log, Told past work) ∨ .answer work (.ok true) ∈ process log ∨
      (work, true) ∈ w.returned)

end World

/-- Every agreement in the ledger was submitted. -/
def Ledger.Known (l : Ledger) (log : List Event) : Prop :=
  ∀ user m r, l.member user = some m → m.local' = some r →
    ∃ agreement, Reserved log agreement ∧ agreement.user = user ∧
      agreement.choice = .agree .local' ∧ agreement.event = r.interaction

/-- A ledger that keeps what was promised. -/
structure Ledger.Honest (l : Ledger) (log : List Event) (promised : Work → Prop) : Prop where
  known : l.Known log
  denies : ∀ work, promised work → l.Denies work.user work.event

/-- No file is a ledger without members. -/
def HonestFile (log : List Event) (promised : Work → Prop) : Option Ledger → Prop
  | some l => l.Honest log promised
  | none => ∀ work, ¬ promised work

namespace World

/-- What holds of the marker, and of the ledger that the writer holds. -/
def PhaseKept (w : World) (log : List Event) : Phase → Prop
  | .top => True
  | .saving op ledger _ =>
    w.state.available = true ∧ ledger.Honest log (w.Promised log) ∧
      match op with
      | .createMarker => w.marker.now = true → w.marker.All (· = true)
      | .syncMarker => w.marker.now = true
      | .syncUnlinked => True
      | _ => w.marker.All (· = true)
  | .settle ledger _ => w.state.available = true ∧ ledger.Honest log (w.Promised log)
  | .poison => w.state.available = true ∧ (w.marker.All (· = true) ∨ MarkerFailed (process log))
  | .removeFile => w.marker.All (· = true) ∨ MarkerFailed (process log)
  | .syncRemoved => w.marker.All (· = true) ∨ BothFailed (process log)
  | .giveUp => False

/-- The invariant of the calm runs. -/
structure Kept (w : World) (log : List Event) : Prop where
  memory : w.state.available = true → w.state.ledger.Honest log (w.Promised log)
  disk : w.marker.All (· = true) ∨ w.file.All (HonestFile log (w.Promised log))
  phase : ∀ work phase, w.writer = some (work, phase) → w.PhaseKept log phase
  idle : w.state.available = true → (∀ work phase, w.writer = some (work, phase) → phase = .top) →
    w.marker.now = true → w.marker.All (· = true)
  refused : w.state.available = false →
    w.marker.All (· = true) ∨ BothFailed (process log) ∨
      (∃ work, w.writer = some (work, .removeFile)) ∧ MarkerFailed (process log)
  silent : w.state.available = true →
    (∀ work message, .answer work (.error message) ∉ process log) ∧
      (∀ work, work ∈ w.called ∨ work ∈ w.queued → work.revision ≠ none) ∧
      ∀ work, (work, false) ∉ w.returned

end World

section Honest

variable {log : List Event} {e : Event} {promised promised' : Work → Prop} {l l' : Ledger}
  {f : Option Ledger} {user event : Nat} {choice : Choice}

theorem Ledger.Known.append (h : l.Known log) : l.Known (log ++ [e]) := by
  intro user m r hm hr
  obtain ⟨agreement, hreserved, hrest⟩ := h user m r hm hr
  exact ⟨agreement, reserved_append.mpr (.inl hreserved), hrest⟩

theorem Ledger.Honest.append (h : l.Honest log promised)
    (hpromised : ∀ work, promised' work → promised work ∨ l.Denies work.user work.event) :
    l.Honest (log ++ [e]) promised' where
  known := h.known.append
  denies work hwork := (hpromised work hwork).elim (h.denies work) id

theorem HonestFile.append (h : HonestFile log promised f)
    (hpromised : ∀ work, promised' work → promised work) : HonestFile (log ++ [e]) promised' f := by
  cases f with
  | none => exact fun work hwork => h work (hpromised work hwork)
  | some l => exact Ledger.Honest.append h (fun work hwork => .inl (hpromised work hwork))

/-- What a choice adds to the ledger was submitted with it. -/
theorem Ledger.Known.takes {work : Work} (h : l.Known log) (htakes : l.Takes l' user event choice)
    (he : e.reserved = some work) (huser : work.user = user) (hevent : work.event = event)
    (hchoice : work.choice = choice) : l'.Known (log ++ [e]) := by
  intro u m r hm hr
  by_cases hu : user = u
  · subst hu
    obtain ⟨m', hm', _, hdenies, hgrants⟩ := htakes.member
    have heq : m' = m := some.inj (hm'.symm.trans hm)
    subst heq
    cases hwithdraws : choice.withdraws with
    | true =>
      rw [hdenies hwithdraws] at hr
      cases hr
    | false =>
      obtain ⟨hlocal, _, r', hr', hinteraction⟩ := hgrants hwithdraws
      have heq : r' = r := some.inj (hr'.symm.trans hr)
      subst heq
      exact ⟨work, reserved_append.mpr (.inr he), huser, hchoice.trans hlocal,
        hevent.trans hinteraction.symm⟩
  · rw [htakes.others u hu] at hm
    exact h.append u m r hm hr

end Honest

section Append

variable {log : List Event} {e : Event}

theorem MarkerFailed.append (h : MarkerFailed log) : MarkerFailed (log ++ [e]) :=
  h.imp (mem_append_left _) (mem_append_left _)

theorem BothFailed.append (h : BothFailed log) : BothFailed (log ++ [e]) :=
  ⟨h.1.append, mem_append_left _ h.2⟩

end Append

namespace World

variable {guild : Nat} {w w' : World} {log : List Event} {e : Event} {work : Work} {phase : Phase}
  {found readable : Bool}

theorem Promised.of_append (h : w'.Promised (log ++ [e]) work) (he : e.restarts = false)
    (hanswer : e = .answer work (.ok true) → (work, true) ∈ w.returned)
    (hreturned : (work, true) ∈ w'.returned → (work, true) ∈ w.returned) : w.Promised log work := by
  refine ⟨h.1, ?_⟩
  rcases h.2 with hpast | hsaved | hflushed
  · rw [pastProcesses, earlier_append he] at hpast
    exact .inl hpast
  · rw [process, current_append he] at hsaved
    rcases mem_append.mp hsaved with hold | hnew
    · exact .inr (.inl hold)
    · exact .inr (.inr (hanswer (mem_singleton.mp hnew).symm))
  · exact .inr (.inr (hreturned hflushed))

/-- A step beside the writer, which leaves its phase as it is. -/
theorem PhaseKept.append (h : w.PhaseKept log phase) (he : e.restarts = false)
    (havailable : w'.state.available = w.state.available) (hmarker : w'.marker = w.marker)
    (hpromised : ∀ other, w'.Promised (log ++ [e]) other → w.Promised log other) :
    w'.PhaseKept (log ++ [e]) phase := by
  have hhonest : ∀ {ledger : Ledger}, ledger.Honest log (w.Promised log) →
      ledger.Honest (log ++ [e]) (w'.Promised (log ++ [e])) :=
    fun hledger => hledger.append (fun other hother => .inl (hpromised other hother))
  have hprocess : process (log ++ [e]) = process log ++ [e] := current_append he
  cases phase with
  | top => trivial
  | saving op ledger revision =>
    refine ⟨havailable.trans h.1, hhonest h.2.1, ?_⟩
    rw [hmarker]
    exact h.2.2
  | settle ledger revision => exact ⟨havailable.trans h.1, hhonest h.2⟩
  | poison =>
    unfold PhaseKept
    rw [hmarker, hprocess]
    exact ⟨havailable.trans h.1, h.2.imp id MarkerFailed.append⟩
  | removeFile =>
    unfold PhaseKept
    rw [hmarker, hprocess]
    exact Or.imp id MarkerFailed.append h
  | syncRemoved =>
    unfold PhaseKept
    rw [hmarker, hprocess]
    exact Or.imp id BothFailed.append h
  | giveUp => exact h

namespace Kept

/-- A step that answers nobody and leaves the ledger as it is. -/
theorem of_quiet (h : w.Kept log) (he : e.restarts = false)
    (hquiet : ∀ other result, e ≠ .answer other result) (hledger : w'.state.ledger = w.state.ledger)
    (havailable : w'.state.available → w.state.available)
    (hreturned : ∀ other, (other, true) ∈ w'.returned → (other, true) ∈ w.returned)
    (hdisk : w'.marker.All (· = true) ∨ w'.file.All (HonestFile log (w.Promised log)))
    (hphase : ∀ other phase, w'.writer = some (other, phase) → w'.PhaseKept (log ++ [e]) phase)
    (hidle : w'.state.available →
      (∀ other phase, w'.writer = some (other, phase) → phase = .top) →
      w'.marker.now → w'.marker.All (· = true))
    (hrefused : w'.state.available = false →
      w'.marker.All (· = true) ∨ BothFailed (process (log ++ [e])) ∨
        (∃ other, w'.writer = some (other, .removeFile)) ∧ MarkerFailed (process (log ++ [e])))
    (hwaiting : ∀ other, other ∈ w'.called ∨ other ∈ w'.queued →
      other ∈ w.called ∨ other ∈ w.queued)
    (hfailed : w'.state.available → ∀ other, (other, false) ∉ w'.returned) :
    w'.Kept (log ++ [e]) := by
  have hpromised : ∀ other, w'.Promised (log ++ [e]) other → w.Promised log other :=
    fun other hother => hother.of_append he (fun heq => absurd heq (hquiet _ _)) (hreturned other)
  exact
    { memory := by
        intro hnow
        rw [hledger]
        exact (h.memory (havailable hnow)).append (fun other hother => .inl (hpromised other hother))
      disk := hdisk.imp id (fun hfile => hfile.mono (fun f hf => hf.append hpromised))
      phase := hphase
      idle := hidle
      refused := hrefused
      silent := by
        intro hnow
        obtain ⟨herrors, hrevisions, _⟩ := h.silent (havailable hnow)
        refine ⟨fun other message hmem => ?_, fun other hother =>
          hrevisions other (hwaiting other hother), hfailed hnow⟩
        rw [process, current_append he] at hmem
        rcases mem_append.mp hmem with hold | hnew
        · exact herrors other message hold
        · exact hquiet other (.error message) (mem_singleton.mp hnew).symm }

/-- A step of the writer of an available store to its next phase. -/
theorem moves (h : w.Kept log) (he : e.restarts = false)
    (hquiet : ∀ other result, e ≠ .answer other result)
    (havailable : w.state.available) (marker : Entry Bool) (file : Entry (Option Ledger))
    {next : Phase} (hdisk : marker.All (· = true) ∨ file.All (HonestFile log (w.Promised log)))
    (hphase : PhaseKept ({ w with marker, file }.goto work next) (log ++ [e]) next)
    (hidle : next = .top → marker.now → marker.All (· = true)) :
    ({ w with marker, file }.goto work next).Kept (log ++ [e]) := by
  refine h.of_quiet he hquiet rfl id (fun _ hr => hr) hdisk ?_ ?_ ?_ (fun _ hw => hw)
    (fun hnow => (h.silent hnow).2.2)
  · intro other phase hwriter
    cases hwriter
    exact hphase
  · intro _ htop
    exact hidle (htop work next rfl)
  · intro hno
    have hno' : w.state.available = false := hno
    simp [havailable] at hno'

/-- What the writer holds is honest after the step, too. -/
theorem honest (he : e.restarts = false) (hquiet : ∀ other result, e ≠ .answer other result)
    (hledger : ledger.Honest log (w.Promised log)) (marker : Entry Bool)
    (file : Entry (Option Ledger)) (writer : Option (Work × Phase)) :
    ledger.Honest (log ++ [e]) (Promised { w with marker, file, writer } (log ++ [e])) :=
  hledger.append (fun _ hother =>
    .inl (hother.of_append he (fun heq => absurd heq (hquiet _ _)) id))

/-- A save that fails under a marker, or that fails to make it. -/
theorem fails (h : w.Kept log) (he : e.restarts = false)
    (hquiet : ∀ other result, e ≠ .answer other result) (havailable : w.state.available)
    (hmarker : w.marker.All (· = true) ∨ MarkerFailed (process (log ++ [e]))) :
    (w.goto work .poison).Kept (log ++ [e]) :=
  h.moves he hquiet havailable w.marker w.file h.disk ⟨havailable, hmarker⟩
    nofun

theorem mem_process (he : e.restarts = false) : e ∈ process (log ++ [e]) := by
  rw [process, current_append he]
  exact mem_append_right _ (mem_singleton_self e)

section

variable (h : w.Kept log)

include h

theorem save {op : SaveOp} {revision : Nat} {ok : Bool} (hsound : w.Sound guild (process log))
    (hwriter : w.writer = some (work, .saving op ledger revision))
    (hcalm : op = .syncUnlinked → ok) (hstep : w.save work ledger revision ok op = some w') :
    w'.Kept (log ++ [.disk (.save op) ok]) := by
  obtain ⟨_, _, hfile, _⟩ := hsound.phase work _ hwriter
  obtain ⟨havailable, hledger, hmarker⟩ := h.phase work _ hwriter
  have hquiet : ∀ other result, Event.disk (.save op) ok ≠ .answer other result := by
    rintro _ _ ⟨⟩
  have hhonest := honest rfl hquiet hledger
  cases op with
  | createMarker =>
    simp only [World.save] at hstep
    split_ifs at hstep with hok hnow
    · cases hstep
      refine h.fails rfl hquiet havailable (.inr (.inl ?_))
      rw [Bool.not_eq_true'] at hok
      subst hok
      exact mem_process rfl
    · cases hstep
      exact h.moves rfl hquiet havailable w.marker w.file h.disk
        ⟨havailable, hhonest _ _ _, hmarker hnow⟩ (by rintro ⟨⟩)
    · cases hstep
      have hfiles : w.file.All (HonestFile log (w.Promised log)) :=
        h.disk.resolve_left (fun hall => hnow hall.now)
      exact h.moves rfl hquiet havailable (w.marker.write true) w.file (.inr hfiles)
        ⟨havailable, hhonest _ _ _, rfl⟩ (by rintro ⟨⟩)
  | syncMarker =>
    simp only [World.save] at hstep
    split_ifs at hstep with hok
    · cases hstep
      refine h.fails rfl hquiet havailable (.inr (.inr ?_))
      rw [Bool.not_eq_true'] at hok
      subst hok
      exact mem_process rfl
    · cases hstep
      have hall : w.marker.sync.All (· = true) := Entry.all_sync.mpr hmarker
      exact h.moves rfl hquiet havailable w.marker.sync w.file.sync (.inl hall)
        ⟨havailable, hhonest _ _ _, hall⟩ (by rintro ⟨⟩)
  | writeTemp =>
    simp only [World.save] at hstep
    split_ifs at hstep with hok
    · cases hstep
      exact h.fails rfl hquiet havailable (.inl hmarker)
    · cases hstep
      exact h.moves rfl hquiet havailable w.marker w.file (.inl hmarker)
        ⟨havailable, hhonest _ _ _, hmarker⟩ (by rintro ⟨⟩)
  | rename =>
    simp only [World.save] at hstep
    split_ifs at hstep with hok
    · cases hstep
      exact h.fails rfl hquiet havailable (.inl hmarker)
    · cases hstep
      exact h.moves rfl hquiet havailable w.marker (w.file.write (some ledger)) (.inl hmarker)
        ⟨havailable, hhonest _ _ _, hmarker⟩ (by rintro ⟨⟩)
  | syncRename =>
    simp only [World.save] at hstep
    split_ifs at hstep with hok
    · cases hstep
      exact h.fails rfl hquiet havailable (.inl hmarker)
    · cases hstep
      have hall : w.marker.sync.All (· = true) := Entry.all_sync.mpr (Entry.All.now hmarker)
      exact h.moves rfl hquiet havailable w.marker.sync w.file.sync (.inl hall)
        ⟨havailable, hhonest _ _ _, hall⟩ (by rintro ⟨⟩)
  | unlinkMarker =>
    simp only [World.save] at hstep
    split_ifs at hstep with hok
    · -- the marker stays
      cases hstep
      refine h.of_quiet rfl hquiet rfl (by rintro ⟨⟩) ?_ (.inl hmarker)
        (by rintro _ _ ⟨⟩) (by rintro ⟨⟩) (fun _ => .inl hmarker)
        (fun _ hw => hw) (by rintro ⟨⟩)
      intro other hother
      rcases mem_append.mp hother with hold | hnew
      · exact hold
      · cases mem_singleton.mp hnew
    · -- the marker goes when the file holds what it stood for
      cases hstep
      have hfiles : w.file.All (HonestFile log (w.Promised log)) :=
        (hfile (.inl rfl)).mono (fun f hf => by
          subst hf
          exact hledger)
      exact h.moves rfl hquiet havailable (w.marker.write false) w.file (.inr hfiles)
        ⟨havailable, hhonest _ _ _, trivial⟩ (by rintro ⟨⟩)
  | syncUnlinked =>
    simp only [World.save] at hstep
    split_ifs at hstep with hok
    · cases hstep
      simp [hcalm rfl] at hok
    · cases hstep
      have hdisk : w.marker.sync.All (· = true) ∨
          w.file.sync.All (HonestFile log (w.Promised log)) :=
        h.disk.imp (fun hall => Entry.all_sync.mpr hall.now)
          (fun hall => Entry.all_sync.mpr hall.now)
      exact h.moves rfl hquiet havailable w.marker.sync w.file.sync hdisk
        ⟨havailable, hhonest _ _ _⟩ (by rintro ⟨⟩)

/-- What holds of an unavailable store goes on to hold. -/
theorem refused_append (he : e.restarts = false) (hno : w.state.available = false) :
    w.marker.All (· = true) ∨ BothFailed (process (log ++ [e])) ∨
      (∃ other, w.writer = some (other, .removeFile)) ∧ MarkerFailed (process (log ++ [e])) := by
  rw [process, current_append he]
  exact (h.refused hno).imp id (Or.imp BothFailed.append (And.imp id MarkerFailed.append))

/-- `flush` succeeds, and its caller's withdrawal is on the disk. -/
theorem returns (hsound : w.Sound guild (process log)) (hwork : Admitted (process log) work)
    (havailable : w.state.available) (hfile : w.file.All (· = some w.state.ledger))
    (hmarker : w.marker.All (· = false)) (saved : Nat) :
    ({ w with state := { w.state with savedRevision := saved } }.give work true).Kept
      (log ++ [Event.proceed]) := by
  have hold : ∀ other, Promised (w.give work true) (log ++ [Event.proceed]) other →
      w.Promised log other ∨ w.state.ledger.Denies other.user other.event := by
    intro other hother
    by_cases hsame : other = work
    · subst hsame
      exact .inr ((hsound.admitted other hwork).denies hother.1)
    · refine .inl (hother.of_append rfl nofun (fun hmem => ?_))
      rcases mem_append.mp hmem with hmem | hnew
      · exact hmem
      · exact absurd (Prod.mk.inj (mem_singleton.mp hnew)).1 hsame
  have hhonest := (h.memory havailable).append (e := Event.proceed) hold
  exact
    { memory := fun _ => hhonest
      disk := .inr (hfile.mono (fun f hf => by
        subst hf
        exact hhonest))
      phase := nofun
      idle := fun _ _ hnow => by
        have hfalse : w.marker.now = false := hmarker.now
        exact absurd (hfalse.symm.trans hnow) (by simp)
      refused := fun hno => by
        have hno' : w.state.available = false := hno
        simp [havailable] at hno'
      silent := by
        intro _
        obtain ⟨herrors, hrevisions, hfailed⟩ := h.silent havailable
        refine ⟨fun other message hmem => ?_, hrevisions, fun other hother => ?_⟩
        · rw [process, current_append rfl] at hmem
          rcases mem_append.mp hmem with hmem | hnew
          · exact herrors other message hmem
          · cases mem_singleton.mp hnew
        · rcases mem_append.mp hother with hmem | hnew
          · exact hfailed other hmem
          · cases mem_singleton.mp hnew }

/-- `flush` fails, and the store is unavailable. -/
theorem gives (he : e.restarts = false) (hquiet : ∀ other result, e ≠ .answer other result)
    (hno : w.state.available = false) (marker : Entry Bool) (file : Entry (Option Ledger))
    (hdisk : marker.All (· = true) ∨ file.All (HonestFile log (w.Promised log)))
    (hrefused : marker.All (· = true) ∨ BothFailed (process log)) :
    ({ w with marker, file }.give work false).Kept (log ++ [e]) := by
  have hnever : ∀ {P : Prop}, w.state.available → P := fun hnow => by simp [hno] at hnow
  refine h.of_quiet he hquiet rfl id ?_ hdisk nofun
    (fun hnow => hnever hnow) (fun _ => ?_) (fun _ hw => hw) (fun hnow => hnever hnow)
  · intro other hother
    rcases mem_append.mp hother with hold | hnew
    · exact hold
    · cases mem_singleton.mp hnew
  · rw [process, current_append he]
    exact hrefused.imp id (fun hboth => .inl hboth.append)

theorem proceed (hsound : w.Sound guild (process log)) (hwriter : w.writer = some (work, phase))
    (hstep : w.proceed work phase = some w') : w'.Kept (log ++ [.proceed]) := by
  have hquiet : ∀ other result, Event.proceed ≠ .answer other result := by
    rintro _ _ ⟨⟩
  have hwork := hsound.working work phase hwriter
  have hphase := h.phase work phase hwriter
  cases phase with
  | top =>
    simp only [proceed] at hstep
    split_ifs at hstep with hno hsaved
    · cases hstep
      rw [Bool.not_eq_true'] at hno
      refine h.gives rfl hquiet hno w.marker w.file h.disk ?_
      rcases h.refused hno with hall | hboth | ⟨⟨other, hother⟩, _⟩
      · exact .inl hall
      · exact .inr hboth
      · rw [hwriter] at hother
        cases hother
    · cases hstep
      rw [Bool.not_eq_true', Bool.not_eq_false] at hno
      obtain ⟨n, _, hle⟩ := (hsound.admitted work hwork).revision
      obtain ⟨hfile, hmarker⟩ := hsound.settled hno hsaved (by omega)
      exact h.returns hsound hwork hno hfile hmarker w.state.savedRevision
    · cases hstep
      rw [Bool.not_eq_true', Bool.not_eq_false] at hno
      refine h.moves rfl hquiet hno w.marker w.file h.disk
        ⟨hno, honest rfl hquiet (h.memory hno) _ _ _, ?_⟩ (by rintro ⟨⟩)
      refine h.idle hno (fun other phase hother => ?_)
      rw [hwriter] at hother
      cases hother
      rfl
  | saving op ledger revision =>
    cases op with
    | unlinkMarker =>
      simp only [proceed] at hstep
      split_ifs at hstep
      cases hstep
      exact h.moves rfl hquiet hphase.1 w.marker w.file h.disk trivial (fun _ _ => hphase.2.2)
    | _ => cases hstep
  | settle ledger revision =>
    obtain ⟨hsnapshot, hfile, hmarker⟩ := hsound.phase work _ hwriter
    simp only [proceed] at hstep
    split_ifs at hstep with hlatest
    · cases hstep
      have hledger : ledger = w.state.ledger := hsnapshot.latest hlatest.symm
      exact h.returns hsound hwork hphase.1 (hledger ▸ hfile) hmarker revision
    · cases hstep
      refine h.moves rfl hquiet hphase.1 w.marker w.file h.disk trivial (fun _ hnow => ?_)
      have hfalse : w.marker.now = false := hmarker.now
      simp [hfalse] at hnow
  | poison =>
    cases hstep
    have hpoisoned : w.marker.All (· = true) ∨ MarkerFailed (process (log ++ [.proceed])) := by
      rw [process, current_append rfl]
      exact hphase.2.imp id MarkerFailed.append
    refine h.of_quiet rfl hquiet rfl (by rintro ⟨⟩) (fun _ hr => hr) h.disk ?_
      (by rintro ⟨⟩) (fun _ => ?_) (fun _ hw => hw) (by rintro ⟨⟩)
    · intro other phase hother
      cases hother
      exact hpoisoned
    · exact hpoisoned.imp id (fun hfailed => .inr ⟨⟨work, rfl⟩, hfailed⟩)
  | giveUp => exact hphase.elim
  | removeFile => cases hstep
  | syncRemoved => cases hstep

theorem disk_step {op : DiskOp} {ok : Bool}
    (hsound : w.Sound guild (process log)) (hwriter : w.writer = some (work, phase))
    (hop : phase.op = some op) (hcalm : w.Calm (.disk op ok))
    (hstep : w.disk work ok phase = some w') : w'.Kept (log ++ [.disk op ok]) := by
  have hquiet : ∀ other result, Event.disk op ok ≠ .answer other result :=
    nofun
  have hphase := h.phase work phase hwriter
  have hsoundphase := hsound.phase work phase hwriter
  cases phase with
  | saving saveOp ledger revision =>
    cases hop
    exact h.save hsound hwriter (fun hlast => hcalm.1 (congrArg DiskOp.save hlast)) hstep
  | removeFile =>
    cases hop
    have hno : w.state.available = false := hsoundphase
    have hnever : ∀ {P : Prop}, w.state.available → P := fun hnow => by simp [hno] at hnow
    simp only [World.disk] at hstep
    split_ifs at hstep with hok
    · -- the file stays, and so does what it says
      cases hstep
      rw [Bool.not_eq_true'] at hok
      subst hok
      have hboth : w.marker.All (· = true) ∨
          BothFailed (process (log ++ [.disk .removeFile false])) := by
        refine Or.imp id (fun hfailed => ⟨?_, mem_process rfl⟩) hphase
        rw [process, current_append rfl]
        exact MarkerFailed.append hfailed
      refine h.of_quiet rfl hquiet rfl id (fun _ hr => hr) h.disk ?_ (fun hnow => hnever hnow)
        (fun _ => hboth.imp id .inl) (fun _ hw => hw) (fun hnow => hnever hnow)
      intro other phase hother
      cases hother
      exact hboth
    · -- the file goes, and the marker stands for it
      cases hstep
      rw [Bool.not_eq_true', Bool.not_eq_false] at hok
      have hall : w.marker.All (· = true) := hcalm.2 rfl hok
      refine h.of_quiet rfl hquiet rfl id (fun _ hr => hr) (.inl hall) ?_ (fun hnow => hnever hnow)
        (fun _ => .inl hall) (fun _ hw => hw) (fun hnow => hnever hnow)
      intro other phase hother
      cases hother
      exact .inl hall
  | syncRemoved =>
    have hno : w.state.available = false := hsoundphase
    simp only [World.disk] at hstep
    split_ifs at hstep
    · cases hstep
      exact h.gives rfl hquiet hno w.marker.sync w.file.sync
        (h.disk.imp (fun hall => Entry.all_sync.mpr hall.now)
          (fun hall => Entry.all_sync.mpr hall.now))
        (Or.imp (fun hall => Entry.all_sync.mpr (Entry.All.now hall)) id hphase)
    · cases hstep
      exact h.gives rfl hquiet hno w.marker w.file h.disk hphase
  | top | settle | poison | giveUp => cases hstep

/-- A step beside the writer that takes no reservation. -/
theorem beside (he : e.restarts = false)
    (hquiet : ∀ other result, e ≠ .answer other result) (called queued : List Work)
    (hwaiting : ∀ other, other ∈ called ∨ other ∈ queued → other ∈ w.called ∨ other ∈ w.queued) :
    World.Kept { w with called, queued } (log ++ [e]) := by
  have hpromised : ∀ other, Promised { w with called, queued } (log ++ [e]) other →
      w.Promised log other :=
    fun other hother => hother.of_append he (fun heq => absurd heq (hquiet _ _)) id
  exact h.of_quiet he hquiet rfl id (fun _ hr => hr) h.disk
    (fun other phase hother => (h.phase other phase hother).append he rfl rfl hpromised) h.idle
    (h.refused_append he) hwaiting (fun hnow => (h.silent hnow).2.2)

theorem accept (hstep : w.step guild (.accept work) = some w') :
    w'.Kept (log ++ [.accept work]) := by
  simp only [step] at hstep
  split_ifs at hstep with hcalled
  cases hstep
  refine h.beside rfl (fun _ _ heq => by cases heq) _ _ (fun other hother => ?_)
  rw [mem_append] at hother
  rcases hother with hother | hold | hnew
  · exact .inl (mem_of_mem_erase hother)
  · exact .inr hold
  · rw [mem_singleton.mp hnew]
    exact .inl hcalled

theorem refuse (hcalm : w.Calm (.refuse work))
    (hstep : w.step guild (.refuse work) = some w') : w'.Kept (log ++ [.refuse work]) := by
  simp only [step] at hstep
  split_ifs at hstep
  cases hstep
  have hno : w.state.available = false := hcalm
  have hquiet : ∀ other result, Event.refuse work ≠ .answer other result := by
    rintro _ _ ⟨⟩
  have hreturned : ∀ other, (other, true) ∈ w.returned ++ [(work, false)] →
      (other, true) ∈ w.returned := by
    intro other hother
    rcases mem_append.mp hother with hold | hnew
    · exact hold
    · cases mem_singleton.mp hnew
  refine h.of_quiet rfl hquiet rfl (by rintro ⟨⟩) hreturned h.disk ?_
    (by rintro ⟨⟩) (fun _ => h.refused_append rfl hno)
    (fun other hother => hother.imp mem_of_mem_erase id) (by rintro ⟨⟩)
  intro other phase hother
  exact (h.phase other phase hother).append rfl hno.symm rfl
    (fun other hother => hother.of_append rfl (by rintro ⟨⟩) (hreturned other))

theorem start (hstep : w.step guild (.start work) = some w') : w'.Kept (log ++ [.start work]) := by
  simp only [step] at hstep
  split_ifs at hstep with hguard
  obtain ⟨_, hfree, _⟩ := hguard
  rw [isNone_iff_eq_none] at hfree
  cases hstep
  have hquiet : ∀ other result, Event.start work ≠ .answer other result := by
    rintro _ _ ⟨⟩
  refine h.of_quiet rfl hquiet rfl id (fun _ hr => hr) h.disk ?_ ?_ ?_
    (fun other hother => hother.imp id mem_of_mem_erase) (fun hnow => (h.silent hnow).2.2)
  · intro other phase hother
    cases hother
    trivial
  · intro hnow _
    exact h.idle hnow (fun other phase hother => by
      rw [hfree] at hother
      cases hother)
  · intro hno
    rcases h.refused_append (e := .start work) rfl hno with hall | hboth | ⟨⟨other, hother⟩, _⟩
    · exact .inl hall
    · exact .inr (.inl hboth)
    · rw [hfree] at hother
      cases hother

/-- A reply takes its work away and promises nothing new. -/
theorem replies (queued : List Work) (returned : List (Work × Bool))
    (hqueued : ∀ other, other ∈ queued → other ∈ w.queued)
    (hreturned : ∀ other, other ∈ returned → other ∈ w.returned)
    (hok : result = .ok true → (work, true) ∈ w.returned)
    (herror : w.state.available → ∀ message, result ≠ .error message) :
    World.Kept { w with queued, returned } (log ++ [.answer work result]) := by
  have hpromised : ∀ other,
      Promised { w with queued, returned } (log ++ [.answer work result]) other →
      w.Promised log other := by
    intro other hother
    refine hother.of_append rfl (fun heq => ?_) (hreturned _)
    cases heq
    exact hok rfl
  exact
    { memory := fun hnow =>
        (h.memory hnow).append (fun other hother => .inl (hpromised other hother))
      disk := h.disk.imp id (fun hfile => hfile.mono (fun f hf => hf.append hpromised))
      phase := fun other phase hother => (h.phase other phase hother).append rfl rfl rfl hpromised
      idle := h.idle
      refused := h.refused_append rfl
      silent := by
        intro hnow
        obtain ⟨herrors, hrevisions, hfailed⟩ := h.silent hnow
        refine ⟨fun other message hmem => ?_,
          fun other hother => hrevisions other (hother.imp id (hqueued other)),
          fun other hother => hfailed other (hreturned _ hother)⟩
        rw [process, current_append rfl] at hmem
        rcases mem_append.mp hmem with hold | hnew
        · exact herrors other message hold
        · cases mem_singleton.mp hnew
          exact herror hnow message rfl }

theorem answer (hstep : w.step guild (.answer work result) = some w') :
    w'.Kept (log ++ [.answer work result]) := by
  simp only [step] at hstep
  split_ifs at hstep with hnone hzero htrue hfalse
  · obtain ⟨hqueued, hrevision, rfl⟩ := hnone
    cases hstep
    exact h.replies _ _ (fun _ => mem_of_mem_erase) (fun _ hr => hr) (by rintro ⟨⟩)
      (fun hnow _ => absurd hrevision ((h.silent hnow).2.1 work (.inr hqueued)))
  · obtain ⟨_, _, rfl⟩ := hzero
    cases hstep
    exact h.replies _ _ (fun _ => mem_of_mem_erase) (fun _ hr => hr) (by rintro ⟨⟩)
      (by rintro _ _ ⟨⟩)
  · obtain ⟨hmem, rfl⟩ := htrue
    cases hstep
    exact h.replies _ _ (fun _ hq => hq) (fun _ => mem_of_mem_erase) (fun _ => hmem)
      (by rintro _ _ ⟨⟩)
  · obtain ⟨hmem, rfl⟩ := hfalse
    cases hstep
    exact h.replies _ _ (fun _ hq => hq) (fun _ => mem_of_mem_erase) (by rintro ⟨⟩)
      (fun hnow => absurd hmem ((h.silent hnow).2.2 work))

/-- A reservation leaves the disk and the writer alone. -/
theorem reserves (he : e.restarts = false) (hquiet : ∀ other result, e ≠ .answer other result)
    (s : State) (havailable : s.available = w.state.available)
    (hmemory : w.state.available → s.ledger.Honest (log ++ [e]) (w.Promised log))
    (hrevision : w.state.available → work.revision ≠ none) :
    World.Kept { w with state := s, called := w.called ++ [work] } (log ++ [e]) := by
  have hpromised : ∀ other,
      Promised { w with state := s, called := w.called ++ [work] } (log ++ [e]) other →
      w.Promised log other :=
    fun other hother => hother.of_append he (fun heq => absurd heq (hquiet _ _)) id
  exact
    { memory := fun hnow =>
        ⟨(hmemory (havailable ▸ hnow)).known, fun other hother =>
          (hmemory (havailable ▸ hnow)).denies other (hpromised other hother)⟩
      disk := h.disk.imp id (fun hfile => hfile.mono (fun f hf => hf.append hpromised))
      phase := fun other phase hother =>
        (h.phase other phase hother).append he havailable rfl hpromised
      idle := fun hnow => h.idle (havailable ▸ hnow)
      refused := fun hno => h.refused_append he (havailable ▸ hno)
      silent := by
        intro hnow
        obtain ⟨herrors, hrevisions, hfailed⟩ := h.silent (havailable ▸ hnow)
        refine ⟨fun other message hmem => ?_, fun other hother => ?_, hfailed⟩
        · rw [process, current_append he] at hmem
          rcases mem_append.mp hmem with hold | hnew
          · exact herrors other message hold
          · exact hquiet other (.error message) (mem_singleton.mp hnew).symm
        · rw [mem_append] at hother
          rcases hother with (hold | hnew) | hold
          · exact hrevisions other (.inl hold)
          · rw [mem_singleton.mp hnew]
            exact hrevision (havailable ▸ hnow)
          · exact hrevisions other (.inr hold) }

theorem reserve {user event now : Nat} {choice : Choice} (hsound : w.Sound guild (process log))
    (hstep : w.step guild (.reserve user event choice now work) = some w') :
    w'.Kept (log ++ [.reserve user event choice now work]) := by
  simp only [step] at hstep
  split_ifs at hstep with hguard
  obtain ⟨hevent, hwork⟩ := hguard
  have hquiet : ∀ other result, Event.reserve user event choice now work ≠ .answer other result := by
    rintro _ _ ⟨⟩
  rcases State.reserve_spec hsound.valid hevent with ⟨revision, hrevision, hreserve⟩ |
    ⟨ledger, ev, havailable, htakes, hreserve⟩
  · rw [hreserve] at hstep hwork
    cases hstep
    refine h.reserves rfl hquiet w.state rfl
      (fun hnow => (h.memory hnow).append (fun _ hother => .inl hother)) (fun hnow hnone => ?_)
    rw [hwork] at hnone
    rcases hrevision with ⟨_, hno⟩ | rfl
    · simp [hno] at hnow
    · cases hnone
  · rw [hreserve] at hstep hwork
    cases hstep
    refine h.reserves rfl hquiet _ rfl (fun hnow => ?_) (fun _ hnone => ?_)
    · refine ⟨(h.memory hnow).known.takes htakes rfl ?_ ?_ ?_, fun other hother =>
        htakes.denies ((h.memory hnow).denies other hother)⟩
      · rw [hwork]
      · rw [hwork]
      · rw [hwork]
    · rw [hwork] at hnone
      cases hnone

end

end Kept

/-- What the next process loads. -/
theorem load_available {marker : Bool} {file : Option Ledger}
    (hfile : ∀ ledger, file = some ledger → ledger.Valid guild)
    (hfound : marker → found) (hreadable : marker = false → readable) :
    ((State.load guild marker file found readable).available = true ↔ marker = false) ∧
      (marker = false → (State.load guild marker file found readable).ledger =
        file.getD (Ledger.new guild)) := by
  unfold State.load
  cases marker with
  | true =>
    rw [hfound rfl]
    simp
  | false =>
    rw [hreadable rfl]
    cases file with
    | none => simp
    | some ledger =>
      have hvalid := hfile ledger rfl
      simp [hvalid.version, hvalid.guild]

/-- A calm end of the process: an unkept withdrawal was not told. -/
theorem Kept.restart {marker : Entry Bool} {file : Entry (Option Ledger)} (h : w.Kept log)
    (hsound : w.Sound guild (process log)) (hcalm : w.Calm (.restart marker file found readable))
    (hstep : w.step guild (.restart marker file found readable) = some w') :
    w'.Kept (log ++ [.restart marker file found readable]) := by
  simp only [World.step] at hstep
  split_ifs at hstep with hsurvives
  obtain ⟨hmarker, hfile⟩ := hsurvives
  obtain ⟨hfound, hreadable, hremoving⟩ := hcalm
  cases hstep
  obtain ⟨hload, hledger⟩ := load_available (hsound.file_valid.survives hfile).now
    (fun hnow => (hfound hnow).1) hreadable
  generalize he : Event.restart marker file found readable = e
  have hrestarts : e.restarts := by
    rw [← he]
    rfl
  generalize hw : (World.mk (State.load guild marker.now file.now found readable) [] [] [] none
    marker file) = w'
  have hpromised : ∀ other, w'.Promised (log ++ [e]) other →
      w.Promised log other ∨ w.marker.All (· = true) := by
    intro other hother
    obtain ⟨hwithdraws, hother⟩ := hother
    rw [pastProcesses, process, earlier_begins hrestarts, current_begins hrestarts, ← hw] at hother
    rcases hother with ⟨past, hpast, htold⟩ | hnow | hnow
    · rcases mem_append.mp hpast with hold | hlast
      · exact .inl ⟨hwithdraws, .inl ⟨past, hold, htold⟩⟩
      · rw [mem_singleton] at hlast
        subst hlast
        rcases htold with hsaved | ⟨⟨message, herror⟩, hnotboth⟩
        · exact .inl ⟨hwithdraws, .inr (.inl hsaved)⟩
        · right
          have hno : w.state.available = false := by
            by_contra hnow
            rw [Bool.not_eq_false] at hnow
            exact (h.silent hnow).1 other message herror
          rcases h.refused hno with hall | hboth | ⟨⟨writer, hwriter⟩, _⟩
          · exact hall
          · exact absurd hboth hnotboth
          · exact hremoving writer hwriter
    · cases hnow
    · cases hnow
  have hdisk : marker.All (· = true) ∨ file.All (HonestFile (log ++ [e]) (w'.Promised (log ++ [e]))) := by
    by_cases hall : w.marker.All (· = true)
    · exact .inl (hall.survives hmarker)
    · refine h.disk.imp (fun hnow => hnow.survives hmarker) (fun hnow => ?_)
      exact (hnow.survives hfile).mono (fun f hf =>
        hf.append (fun other hother => (hpromised other hother).resolve_right hall))
  have hmemory : marker.now = false →
      (file.now.getD (Ledger.new guild)).Honest (log ++ [e]) (w'.Promised (log ++ [e])) := by
    intro hgone
    have hhonest := (hdisk.resolve_left (fun hall => by simp [hall.now] at hgone)).now
    cases hread : file.now with
    | none =>
      rw [hread] at hhonest
      exact ⟨fun user m r hm => by simp at hm, fun other hother => absurd hother (hhonest other)⟩
    | some ledger =>
      rw [hread] at hhonest
      exact hhonest
  subst hw
  exact
    { memory := fun hnow => by
        have hgone := hload.mp hnow
        show Ledger.Honest (State.load guild marker.now file.now found readable).ledger _ _
        rw [hledger hgone]
        exact hmemory hgone
      disk := hdisk
      phase := by rintro _ _ ⟨⟩
      idle := fun hnow _ hthere => by
        have hgone := hload.mp hnow
        exact absurd (hgone.symm.trans hthere) (by simp)
      refused := fun hno => by
        refine .inl (hfound ?_).2
        by_contra hgone
        rw [Bool.not_eq_true] at hgone
        have hno' : (State.load guild marker.now file.now found readable).available = false := hno
        simp [hload.mpr hgone] at hno'
      silent := fun _ => by
        rw [process, current_begins hrestarts]
        refine ⟨fun _ _ => not_mem_nil, fun other hother => ?_, fun _ => not_mem_nil⟩
        exact absurd hother (by simp) }

/-- Every calm step keeps the invariant. -/
theorem Kept.step (h : w.Kept log) (hsound : w.Sound guild (process log)) (hcalm : w.Calm e)
    (hstep : w.step guild e = some w') : w'.Kept (log ++ [e]) := by
  cases e with
  | restart marker file found readable => exact h.restart hsound hcalm hstep
  | reserve user event choice now work => exact h.reserve hsound hstep
  | accept work => exact h.accept hstep
  | refuse work => exact h.refuse hcalm hstep
  | start work => exact h.start hstep
  | proceed =>
    obtain ⟨⟨work, phase⟩, hwriter, hproceed⟩ := bind_eq_some_iff.mp hstep
    exact h.proceed hsound hwriter hproceed
  | disk op ok =>
    obtain ⟨⟨work, phase⟩, hwriter, hdisk⟩ := bind_eq_some_iff.mp hstep
    simp only at hdisk
    split_ifs at hdisk with hop
    exact h.disk_step hsound hwriter hop hcalm hdisk
  | answer work result => exact h.answer hstep

/-- The empty directory has promised nothing. -/
theorem kept_initial (guild : Nat) : (initial guild).Kept [] := by
  have hnothing : ∀ work, ¬ (initial guild).Promised [] work := by
    rintro work ⟨_, ⟨past, hpast, _⟩ | hnow | hnow⟩
    · cases hpast
    · cases hnow
    · cases hnow
  exact
    { memory := fun _ =>
        ⟨fun user m r hm => absurd hm (by simp [initial, State.load]),
          fun work hwork => absurd hwork (hnothing work)⟩
      disk := .inr (Entry.all_settled.mpr hnothing)
      phase := nofun
      idle := nofun
      refused := nofun
      silent := by
        intro _
        refine ⟨fun _ _ => not_mem_nil, fun other hother => ?_, fun _ => not_mem_nil⟩
        exact absurd hother (by simp [initial]) }

/-- What the invariants say about an answer. -/
theorem Kept.consentKept (h : w.Kept log) (hsound : w.Sound guild (process log)) :
    ConsentKept w log := by
  intro tryLock user hagrees
  unfold State.agrees at hagrees
  simp only [Bool.and_eq_true, beq_iff_eq] at hagrees
  obtain ⟨⟨⟨_, havailable⟩, _⟩, hledger⟩ := hagrees
  obtain ⟨m, r, hm, hr⟩ := Ledger.agrees_local hledger
  have hhonest := h.memory havailable
  obtain ⟨agreement, hreserved, huser, hchoice, hevent⟩ := hhonest.known user m r hm hr
  refine ⟨agreement, hreserved, huser, hchoice, ?_⟩
  rintro work ⟨hwithdraws, hbinds⟩ rfl
  have hdenies : w.state.ledger.Denies work.user work.event := by
    rcases hbinds with hadmitted | hpast
    · exact (hsound.admitted work hadmitted).denies hwithdraws
    · exact hhonest.denies work ⟨hwithdraws, .inl hpast⟩
  rw [hevent]
  exact le_of_lt (hdenies.2 m r hm hr)

end World

/-- A run that makes only calm steps. -/
def CalmRun (guild : Nat) : World → List Event → Prop :=
  Trace (fun w => w = World.initial guild) (fun w _ e t => w.step guild e = some t ∧ w.Calm e)

variable {w : World} {log : List Event}

theorem CalmRun.run (h : CalmRun guild w log) : Run guild w log := by
  induction h with
  | nil hs => exact .nil hs
  | snoc _ hstep ih => exact .snoc ih hstep.1

theorem CalmRun.kept (h : CalmRun guild w log) : w.Kept log := by
  induction h with
  | nil hs => exact hs ▸ kept_initial guild
  | snoc hbefore hstep ih => exact ih.step (CalmRun.run hbefore).sound hstep.2 hstep.1

/-- A list of events, run from a world. -/
def World.runAll (guild : Nat) (w : World) (events : List Event) : Option World :=
  events.foldlM (fun w e => w.step guild e) w

theorem World.runAll_append {e : Event} (h : w.runAll guild (events ++ [e]) = some w') :
    ∃ before, w.runAll guild events = some before ∧ before.step guild e = some w' := by
  unfold runAll at h
  rw [foldlM_append] at h
  obtain ⟨before, hbefore, hlast⟩ := bind_eq_some_iff.mp h
  obtain ⟨after, hafter, hend⟩ := bind_eq_some_iff.mp hlast
  cases hend
  exact ⟨before, hbefore, hafter⟩

theorem Run.of_runAll (h : (initial guild).runAll guild events = some w) : Run guild w events := by
  induction events using reverseRecOn generalizing w with
  | nil =>
    cases h
    exact .nil rfl
  | append_singleton events e ih =>
    obtain ⟨before, hbefore, hlast⟩ := runAll_append h
    exact .snoc (ih hbefore) hlast

/-- Calm wherever it happens. -/
def Event.calm : Event → Bool
  | .refuse _ | .restart .. => false
  | .disk _ ok => ok
  | _ => true

theorem CalmRun.of_runAll (h : (initial guild).runAll guild events = some w)
    (hcalm : ∀ e ∈ events, e.calm ∧ e ≠ .disk .removeFile true) : CalmRun guild w events := by
  induction events using reverseRecOn generalizing w with
  | nil =>
    cases h
    exact .nil rfl
  | append_singleton events e ih =>
    obtain ⟨before, hbefore, hlast⟩ := runAll_append h
    refine .snoc (ih hbefore (fun f hf => hcalm f (mem_append_left _ hf))) ⟨hlast, ?_⟩
    obtain ⟨he, hremove⟩ := hcalm e (by simp)
    cases e with
    | refuse work => cases he
    | restart marker file found readable => cases he
    | disk op ok =>
      refine ⟨fun _ => he, fun hop hok => ?_⟩
      subst hop hok
      exact absurd rfl hremove
    | _ => trivial

/-- An agreement, reserved, admitted and saved. -/
def agreement : Work := ⟨20, 100, .agree .local', some 1⟩

def agreementSaved : List Event :=
  [.reserve 20 100 (.agree .local') 5 agreement, .accept agreement, .start agreement, .proceed,
    .disk (.save .createMarker) true, .disk (.save .syncMarker) true,
    .disk (.save .writeTemp) true, .disk (.save .rename) true, .disk (.save .syncRename) true,
    .disk (.save .unlinkMarker) true, .disk (.save .syncUnlinked) true, .proceed,
    .answer agreement (.ok true)]

/-- The ledger that the run has saved. -/
def savedLedger : Ledger :=
  ((Ledger.new 10).apply 20 100 (.agree .local') 5).1

/-- The registry refuses the withdrawal: nothing on the disk knows of it. -/
def withdrawal : Work := ⟨20, 101, .withdraw, some 2⟩

def withdrawalRefused : List Event :=
  agreementSaved ++
    [.reserve 20 101 .withdraw 6 withdrawal, .refuse withdrawal,
      .answer withdrawal (.error unavailable)]

/-- In every run, whatever the disk does, the saved revision is not ahead,
every file the disk can show is a valid ledger of the guild, an answered
change is in the ledger, and a store that is settled is what its file says. -/
theorem consent_store_stays_sound (h : Run guild w log) : w.Sound guild (process log) :=
  h.sound

theorem consent_store_stays_sound_sample : ∃ w : World,
    w.state.agrees true 20 .local' = true ∧ w.Sound 10 (process agreementSaved) := by
  have hruns : ((initial 10).runAll 10 agreementSaved).any
      (fun w => w.state.agrees true 20 .local') = true := by decide +kernel
  obtain ⟨w, hw, hagrees⟩ := (any_eq_true _ _).mp hruns
  exact ⟨w, hagrees, consent_store_stays_sound (Run.of_runAll hw)⟩

end Abbey.Voice
