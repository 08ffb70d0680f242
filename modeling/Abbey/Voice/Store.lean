import Abbey.Lib.Epochs
import Abbey.Lib.Trace
import Abbey.Lib.Volatile
import Abbey.Voice.Ledger
import Mathlib.Data.Finset.Sort

/-!
# The consent store

The store's state lies behind one lock, its files behind another.  `change`
reserves a choice under the state lock and hands the rest, a `Work`, to the
operation registry; `flush` takes the writer lock and saves the whole ledger,
step by step, until what is saved is what is wanted.

`World.step` makes one atomic step: a section under the state lock, the
registry's answer, one operation on the file system with its outcome, the
reply to a caller, or the end of the process and the next `load`.  The steps
of any number of callers come in any order.
-/

namespace Abbey.Voice

open Abbey.Lib

def unavailable : String :=
  "Saved voice choices are unavailable. Voice cannot start or resume; the operator must check " ++
    "the consent store before any restart or retry."

structure State where
  ledger : Ledger
  revision : Nat
  savedRevision : Nat
  available : Bool

/-- A call of `change` after its reservation. -/
structure Work where
  user : Nat
  event : Nat
  choice : Choice
  revision : Option Nat
  deriving DecidableEq

namespace State

/-- `ConsentStore::load`.  `found` says whether the marker's metadata could be
read, `readable` whether the ledger file could. -/
def load (guild : Nat) (marker : Bool) (file : Option Ledger) (found readable : Bool) : State :=
  let loaded :=
    if found && marker then none
    else if !readable then none
    else
      match file with
      | some ledger => if ledger.version = 1 ∧ ledger.guild = guild then some ledger else none
      | none => some (Ledger.new guild)
  { ledger := loaded.getD (Ledger.new guild)
    revision := 0
    savedRevision := 0
    available := loaded.isSome }

/-- `ConsentStore::agrees`, with the outcome of `try_lock`. -/
def agrees (s : State) (tryLock : Bool) (user : Nat) (mode : VoiceMode) : Bool :=
  tryLock && s.available && s.revision == s.savedRevision && s.ledger.agrees user mode

/-- `ConsentStore::coverage`: who among the users has not agreed. -/
def coverage (s : State) (tryLock : Bool) (users : Finset Nat) (mode : VoiceMode) :
    Except String (List Nat) :=
  if mode = .disabled then .ok []
  else if !tryLock then .error unavailable
  else if !s.available || s.revision != s.savedRevision then .error unavailable
  else .ok ((users.filter fun user => !s.ledger.agrees user mode).sort)

/-- The reservation at the head of `change`. -/
def reserve (s : State) (user event : Nat) (choice : Choice) (now : Nat) : State × Work :=
  if !s.available then (s, ⟨user, event, choice, none⟩)
  else
    let (ledger, taken) := s.ledger.apply user event choice now
    if !taken then ({ s with ledger }, ⟨user, event, choice, some 0⟩)
    else
      ({ s with ledger, revision := s.revision + 1 },
        ⟨user, ledger.lastEvent user, choice, some (s.revision + 1)⟩)

/-- A reservation leaves the state as it is, or the ledger takes the choice and
the revision is raised. -/
theorem reserve_spec {s : State} (hvalid : s.ledger.Valid guild) (hevent : event ≤ u64Max) :
    (∃ revision, (revision = none ∧ s.available = false ∨ revision = some 0) ∧
      s.reserve user event choice now = (s, ⟨user, event, choice, revision⟩)) ∨
    ∃ ledger ev, s.available ∧ s.ledger.Takes ledger user ev choice ∧
      s.reserve user event choice now = ({ s with ledger, revision := s.revision + 1 },
          ⟨user, ev, choice, some (s.revision + 1)⟩) := by
  obtain ⟨old, revision, saved, available⟩ := s
  unfold reserve
  cases available with
  | false => exact .inl ⟨none, .inl ⟨rfl, rfl⟩, rfl⟩
  | true =>
    rcases Ledger.apply_spec hvalid hevent with hrefused | ⟨ledger, ev, htaken, htakes⟩
    · left
      refine ⟨some 0, .inr rfl, ?_⟩
      rw [hrefused]
      rfl
    · right
      refine ⟨ledger, ev, rfl, htakes, ?_⟩
      rw [htaken, ← htakes.lastEvent_self]
      rfl

end State

/-- The operations of `save`, and the two that follow it. -/
inductive SaveOp
  | createMarker
  | syncMarker
  | writeTemp
  | rename
  | syncRename
  | unlinkMarker
  | syncUnlinked
  deriving DecidableEq

inductive DiskOp
  | save (op : SaveOp)
  | removeFile
  | syncRemoved
  deriving DecidableEq

/-- Where `flush` stands.  A saving writer holds the ledger and the revision
it took at the head of the loop. -/
inductive Phase
  | top
  | saving (op : SaveOp) (ledger : Ledger) (revision : Nat)
  | settle (ledger : Ledger) (revision : Nat)
  | poison
  | removeFile
  | syncRemoved
  | giveUp

/-- The operation a writer is about to make. -/
def Phase.op : Phase → Option DiskOp
  | .saving op _ _ => some (.save op)
  | .removeFile => some .removeFile
  | .syncRemoved => some .syncRemoved
  | _ => none

/-- The store of a running process, the calls that are under way, and the
directory.  `called` have not asked the registry yet, `queued` have been
admitted, and `returned` know whether their `flush` succeeded. -/
structure World where
  state : State
  called : List Work
  queued : List Work
  returned : List (Work × Bool)
  writer : Option (Work × Phase)
  marker : Entry Bool
  file : Entry (Option Ledger)

inductive Event
  /-- A call of `change` makes its reservation. -/
  | reserve (user event : Nat) (choice : Choice) (now : Nat) (work : Work)
  /-- The registry takes the work, or refuses it. -/
  | accept (work : Work)
  | refuse (work : Work)
  /-- A work enters `flush` and gets the writer lock. -/
  | start (work : Work)
  /-- The writer passes a section under the state lock. -/
  | proceed
  /-- The writer makes an operation, and it succeeds or fails. -/
  | disk (op : DiskOp) (ok : Bool)
  /-- The caller hears the result. -/
  | answer (work : Work) (result : Except String Bool)
  /-- The process ends, and the next one loads what is left. -/
  | restart (marker : Entry Bool) (file : Entry (Option Ledger)) (found readable : Bool)

def Event.restarts : Event → Bool
  | .restart .. => true
  | _ => false

namespace World

def goto (w : World) (work : Work) (phase : Phase) : World := { w with writer := some (work, phase) }

/-- `flush` returns and releases the writer lock. -/
def give (w : World) (work : Work) (ok : Bool) : World :=
  { w with writer := none, returned := w.returned ++ [(work, ok)] }

def poisoned (w : World) : World := { w with state := { w.state with available := false } }

/-- `sync_dir`. -/
def syncDir (w : World) : World := { w with marker := w.marker.sync, file := w.file.sync }

/-- The writer's next section under the state lock. -/
def proceed (w : World) (work : Work) : Phase → Option World
  | .top =>
    if !w.state.available then some (w.give work false)
    else if w.state.revision = w.state.savedRevision then some (w.give work true)
    else some (w.goto work (.saving .createMarker w.state.ledger w.state.revision))
  | .saving .unlinkMarker _ revision =>
    if w.state.revision = revision then none else some (w.goto work .top)
  | .settle _ revision =>
    if w.state.revision = revision then
      some ({ w with state := { w.state with savedRevision := revision } }.give work true)
    else some (w.goto work .top)
  | .poison => some (w.poisoned.goto work .removeFile)
  | .giveUp => some (w.poisoned.give work false)
  | _ => none

/-- An operation of a saving writer.  The comparison of the revisions and the
removal of the marker happen under one lock. -/
def save (w : World) (work : Work) (ledger : Ledger) (revision : Nat) (ok : Bool) :
    SaveOp → Option World
  | .createMarker =>
    if !ok then some (w.goto work .poison)
    else if w.marker.now then some (w.goto work (.saving .writeTemp ledger revision))
    else
      some ({ w with marker := w.marker.write true }.goto work (.saving .syncMarker ledger revision))
  | .syncMarker =>
    if !ok then some (w.goto work .poison)
    else some (w.syncDir.goto work (.saving .writeTemp ledger revision))
  | .writeTemp =>
    if !ok then some (w.goto work .poison)
    else some (w.goto work (.saving .rename ledger revision))
  | .rename =>
    if !ok then some (w.goto work .poison)
    else
      some ({ w with file := w.file.write (some ledger) }.goto work
        (.saving .syncRename ledger revision))
  | .syncRename =>
    if !ok then some (w.goto work .poison)
    else some (w.syncDir.goto work (.saving .unlinkMarker ledger revision))
  | .unlinkMarker =>
    if w.state.revision ≠ revision then none
    else if !ok then some (w.poisoned.give work false)
    else
      some ({ w with marker := w.marker.write false }.goto work
        (.saving .syncUnlinked ledger revision))
  | .syncUnlinked =>
    if !ok then some (w.goto work .giveUp)
    else some (w.syncDir.goto work (.settle ledger revision))

/-- The writer's operation on the directory. -/
def disk (w : World) (work : Work) (ok : Bool) : Phase → Option World
  | .saving op ledger revision => w.save work ledger revision ok op
  | .removeFile =>
    if !ok then some (w.goto work .syncRemoved)
    else if w.file.now = none then none
    else some ({ w with file := w.file.write none }.goto work .syncRemoved)
  | .syncRemoved => if ok then some (w.syncDir.give work false) else some (w.give work false)
  | _ => none

/-- What a work answers once its `flush` is over. -/
def result (w : World) (work : Work) (flushed : Bool) : Except String Bool :=
  if !flushed then .error unavailable
  else .ok ((w.state.ledger.member work.user).any fun m => m.lastEvent == work.event)

def step (guild : Nat) (w : World) : Event → Option World
  | .reserve user event choice now work =>
    let (state, reserved) := w.state.reserve user event choice now
    if event ≤ u64Max ∧ work = reserved then
      some { w with state, called := w.called ++ [work] }
    else none
  | .accept work =>
    if work ∈ w.called then
      some { w with called := w.called.erase work, queued := w.queued ++ [work] }
    else none
  | .refuse work =>
    if work ∈ w.called then
      some { w.poisoned with
        called := w.called.erase work, returned := w.returned ++ [(work, false)] }
    else none
  | .start work =>
    if work ∈ w.queued ∧ w.writer.isNone ∧ work.revision ≠ none ∧ work.revision ≠ some 0 then
      some { w with queued := w.queued.erase work, writer := some (work, .top) }
    else none
  | .proceed => w.writer.bind fun (work, phase) => w.proceed work phase
  | .disk op ok =>
    w.writer.bind fun (work, phase) => if phase.op = some op then w.disk work ok phase else none
  | .answer work result =>
    if work ∈ w.queued ∧ work.revision = none ∧ result = .error unavailable then
      some { w with queued := w.queued.erase work }
    else if work ∈ w.queued ∧ work.revision = some 0 ∧ result = .ok false then
      some { w with queued := w.queued.erase work }
    else if (work, true) ∈ w.returned ∧ result = w.result work true then
      some { w with returned := w.returned.erase (work, true) }
    else if (work, false) ∈ w.returned ∧ result = w.result work false then
      some { w with returned := w.returned.erase (work, false) }
    else none
  | .restart marker file found readable =>
    if Entry.Survives marker w.marker ∧ Entry.Survives file w.file then
      some
        { state := State.load guild marker.now file.now found readable
          called := []
          queued := []
          returned := []
          writer := none
          marker, file }
    else none

/-- The first process finds an empty directory. -/
def initial (guild : Nat) : World where
  state := State.load guild false none true true
  called := []
  queued := []
  returned := []
  writer := none
  marker := .settled false
  file := .settled none

end World

/-- A run of the store, over any number of processes. -/
def Run (guild : Nat) : World → List Event → Prop :=
  Trace (fun w => w = World.initial guild) (fun w _ e t => w.step guild e = some t)

/-- What has happened in the running process. -/
abbrev process (log : List Event) : List Event := current Event.restarts log

/-- What has happened in each of the processes before it. -/
abbrev pastProcesses (log : List Event) : List (List Event) := earlier Event.restarts log

/-- The work of a reservation. -/
def Event.reserved : Event → Option Work
  | .reserve _ _ _ _ work => some work
  | _ => none

/-- A call of `change` made this reservation. -/
def Reserved (log : List Event) (work : Work) : Prop := work ∈ log.filterMap Event.reserved

/-- A call of `change` whose choice the ledger took. -/
structure Admitted (log : List Event) (work : Work) : Prop where
  reserved : Reserved log work
  revision : ∃ n, work.revision = some (n + 1)

variable {log : List Event} {e : Event} {work : Work}

theorem reserved_append :
    Reserved (log ++ [e]) work ↔ Reserved log work ∨ e.reserved = some work := by
  unfold Reserved
  rw [List.filterMap_append, List.mem_append]
  cases he : e.reserved with
  | none => simp [he]
  | some other => simp [he, eq_comm]

theorem Admitted.append (h : Admitted log work) : Admitted (log ++ [e]) work :=
  ⟨reserved_append.mpr (.inl h.reserved), h.revision⟩

theorem Admitted.of_append (h : Admitted (log ++ [e]) work) (he : e.reserved = none) :
    Admitted log work := by
  refine ⟨?_, h.revision⟩
  rcases reserved_append.mp h.reserved with hold | hnew
  · exact hold
  · rw [he] at hnew
    cases hnew

end Abbey.Voice
