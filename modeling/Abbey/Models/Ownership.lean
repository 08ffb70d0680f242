import Abbey.Lib.Tasks
import Abbey.Models.Ledger

/-!
# Who ends an operation

The lifecycle without its points.  A task is seen as a `View`: the revision
that it holds, and the operation that it still has to end.  `Act` is what a
view may do to the shared state while the views of the other tasks stay.

* `Inv`: an unfinished operation has an owner, two owners have two
  operations, and two unfinished operations are of two revisions.
* `Loads`: the loaded models are those of the rows written so far, but for
  the owners that have changed them and not yet written it (`Phase.applied`).
-/

namespace Abbey.Models

open Abbey.Lib Abbey.Run Abbey.Recovery List ModelOperationRecord Option

variable {old record : ModelOperationRecord}

/-! ## Views -/

/-- How far the owner of an operation is.  A running one knows a bound of
the progress, and one that gives up knows the progress once it has read it. -/
inductive Phase where
  | queued
  | running (most : Nat)
  | applied
  | closing (progress : Option Nat)
  deriving DecidableEq

def Phase.Fits : Phase → ModelOperationRecord → Prop
  | .queued, record =>
    record.state.terminal = true ∨ (record.state = .queued ∧ record.progressBasisPoints = 0)
  | .running most, record =>
    record.state.terminal = true ∨ (record.state = .running ∧ record.progressBasisPoints ≤ most)
  | .applied, record => record.state = .running
  | .closing none, _ => True
  | .closing (some progress), record =>
    record.state.terminal = true ∨ record.progressBasisPoints ≤ progress

/-- A finished operation fits every phase but the one that must still write. -/
theorem Phase.fits_of_terminal {phase : Phase} (hphase : phase ≠ .applied)
    (h : record.state.terminal) : phase.Fits record := by
  cases phase with
  | applied => exact absurd rfl hphase
  | queued => exact .inl h
  | running most => exact .inl h
  | closing progress =>
    cases progress with
    | none => trivial
    | some progress => exact .inl h

structure Owner where
  action : V3ModelAction
  kind : ModelOperationKind
  phase : Phase

variable {o : Owner} {views views' : List View}

def Owner.id (owner : Owner) : String := owner.action.operationId

structure View where
  holds : Option ActiveKey
  owner : Option Owner

def View.owns (view : View) : Option String := view.owner.map Owner.id

theorem View.owns_of_owner {view : View} {owner : Owner} (h : view.owner = some owner) :
    view.owns = some owner.id := by
  simp [View.owns, h]

def recordKey (record : ModelOperationRecord) : ModelKey := ⟨record.modelId, record.revision⟩

/-- The operation of an owner is of its model and kind, and fits its phase. -/
def Owner.Fits (operations : Operations) (owner : Owner) : Prop :=
  ∃ record, operations.find owner.id = some record ∧ recordKey record = modelKey owner.action ∧
    record.kind = owner.kind ∧ owner.phase.Fits record

def Finished (operations : Operations) (id : String) : Prop :=
  ∀ record, operations.find id = some record → record.state.terminal = true

/-! ## Acts -/

/-- What a view may do, beside the views `rest` of the other tasks. -/
inductive Act (rest : List View) (s : Shared) (v : View) : Shared → View → Prop where
  | pass {v' : View} (holds : v'.holds = v.holds ∨ v'.holds = none) (owner : v'.owner = v.owner) :
    Act rest s v s v'
  | shift {o : Owner} {phase : Phase} (owner : v.owner = some o)
    (before : o.phase ≠ .applied) (after : phase ≠ .applied)
    (weaker : ∀ record, s.operations.find o.id = some record → o.phase.Fits record →
      phase.Fits record) :
    Act rest s v s { v with owner := some { o with phase } }
  | drop {o : Owner} {v' : View} (owner : v.owner = some o)
    (finished : Finished s.operations o.id) (holds : v'.holds = v.holds ∨ v'.holds = none)
    (none : v'.owner = none) : Act rest s v s v'
  | acquire (key : ActiveKey) (free : key ∉ s.active) (owner : v.owner = none) :
    Act rest s v { s with active := insert key s.active } { v with holds := some key }
  | release (key : ActiveKey) (holds : v.holds = some key) :
    Act rest s v { s with active := s.active.erase key } { v with holds := none }
  | create {s' : Shared} {action : V3ModelAction} {kind : ModelOperationKind} (now : Nat)
    (holds : v.holds = some (activeKey action)) (owner : v.owner = none)
    (insert : s.operations.insert? (queuedOperation
      ⟨action.operationId, action.modelId, action.revision, kind, now⟩) = some s'.operations)
    (frame : s' = { s with operations := s'.operations, writes := s.writes ++ [queuedOperation
      ⟨action.operationId, action.modelId, action.revision, kind, now⟩] })
    (closed : ∀ w ∈ rest, ∀ o, w.owner = some o → modelKey o.action = modelKey action →
      w.holds = none → Finished s.operations o.id) :
    Act rest s v s' { v with owner := some ⟨action, kind, .queued⟩ }
  | run {s' : Shared} {o : Owner} {old : ModelOperationRecord} {progress now : Nat} {phase : Phase}
    (owner : v.owner = some o) (before : o.phase ≠ .applied) (id : old.operationId = o.id)
    (changes : Table.Changes s.operations s'.operations old (old.move .running progress now))
    (permitted : permitted old.state .running = true) (after : phase ≠ .applied)
    (fits : phase.Fits (old.move .running progress now))
    (frame : s' = { s with
      operations := s'.operations
      writes := s.writes ++ [old.move .running progress now] }) :
    Act rest s v s' { v with owner := some { o with phase } }
  | close {s' : Shared} {o : Owner} {old : ModelOperationRecord} {state : ModelOperationState}
    {progress now : Nat} (owner : v.owner = some o) (id : old.operationId = o.id)
    (terminal : state.terminal = true)
    (applied : o.phase = .applied ↔ state = .succeeded ∧ o.kind ≠ .download)
    (changes : Table.Changes s.operations s'.operations old (old.move state progress now))
    (permitted : permitted old.state state = true)
    (frame : s' = { s with
      operations := s'.operations
      writes := s.writes ++ [old.move state progress now] }) :
    Act rest s v s' { v with owner := none }
  | cancel {s' : Shared} {old : ModelOperationRecord} {progress now : Nat} (owner : v.owner = none)
    (changes : Table.Changes s.operations s'.operations old (old.move .cancelled progress now))
    (permitted : permitted old.state .cancelled = true)
    (frame : s' = { s with
      operations := s'.operations
      writes := s.writes ++ [old.move .cancelled progress now] })
    (waiting : ∀ w ∈ rest, ∀ o, w.owner = some o → o.id = old.operationId → o.phase ≠ .applied) :
    Act rest s v s' v
  | load {o : Owner} {most : Nat} (owner : v.owner = some o) (kind : o.kind = .load)
    (phase : o.phase = .running most) (unfinished : ¬ Finished s.operations o.id) :
    Act rest s v { s with loaded := insert (modelKey o.action) s.loaded }
      { v with owner := some { o with phase := .applied } }
  | unload {o : Owner} {most : Nat} (owner : v.owner = some o) (kind : o.kind = .unload)
    (phase : o.phase = .running most) (unfinished : ¬ Finished s.operations o.id) :
    Act rest s v { s with loaded := s.loaded.erase (modelKey o.action) }
      { v with owner := some { o with phase := .applied } }

/-! ## Owners -/

structure Inv (s : Shared) (views : List View) : Prop where
  held : ∀ v ∈ views, ∀ key, v.holds = some key → key ∈ s.active
  holders : Exclusive View.holds views
  owners : Exclusive View.owns views
  key : ∀ v ∈ views, ∀ o, v.owner = some o → v.holds = none ∨ v.holds = some (activeKey o.action)
  fits : ∀ v ∈ views, ∀ o, v.owner = some o → o.Fits s.operations
  owned : ∀ id record, s.operations.find id = some record → record.state.terminal = false →
    ∃ v ∈ views, v.owns = some id
  single : ∀ id₁ id₂ r₁ r₂, s.operations.find id₁ = some r₁ → s.operations.find id₂ = some r₂ →
    r₁.state.terminal = false → r₂.state.terminal = false → recordKey r₁ = recordKey r₂ →
    id₁ = id₂

theorem Inv.perm (h : Inv s views) (hperm : views.Perm views') : Inv s views' where
  held v hv := h.held v (hperm.mem_iff.mpr hv)
  holders := h.holders.perm hperm
  owners := h.owners.perm hperm
  key v hv := h.key v (hperm.mem_iff.mpr hv)
  fits v hv := h.fits v (hperm.mem_iff.mpr hv)
  owned id record hrecord hopen := by
    obtain ⟨v, hv, howns⟩ := h.owned id record hrecord hopen
    exact ⟨v, hperm.mem_iff.mp hv, howns⟩
  single := h.single

section

variable {rest : List View} {s s' : Shared} {v v' : View}

variable (h : Inv s (v :: rest))

include h

/-- The record of an owner whose operation is unfinished. -/
theorem Inv.unfinished (howner : v.owner = some o) (hphase : o.phase = .running most)
    (hopen : ¬ Finished s.operations o.id) :
    ∃ record, s.operations.find o.id = some record ∧ recordKey record = modelKey o.action ∧
      record.kind = o.kind ∧ record.state = .running := by
  obtain ⟨record, hfind, hkey, hkind, hfits⟩ := h.fits v mem_cons_self o howner
  refine ⟨record, hfind, hkey, hkind, ?_⟩
  rw [hphase] at hfits
  rcases hfits with hterminal | hrunning
  · refine absurd (fun row hrow => ?_) hopen
    rw [hfind] at hrow
    cases hrow
    exact hterminal
  · exact hrunning.1

/-- An owner beside another has another operation. -/
theorem Inv.id_ne (howner : v.owner = some o) {w : View} (hw : w ∈ rest)
    (hp : w.owner = some p) : p.id ≠ o.id := by
  intro heq
  exact h.owners.ne_of_mem (View.owns_of_owner howner) hw (heq ▸ View.owns_of_owner hp)

/-- The parts that an act of the head view keeps when its operation stays. -/
theorem Inv.replace (hoperations : s'.operations = s.operations)
    (hactive : ∀ w ∈ rest, ∀ key, w.holds = some key → key ∈ s'.active)
    (hheld : ∀ key, v'.holds = some key → key ∈ s'.active)
    (hholders : Exclusive View.holds (v' :: rest))
    (hkey : ∀ o, v'.owner = some o → v'.holds = none ∨ v'.holds = some (activeKey o.action))
    (howner : ∀ o', v'.owner = some o' → o'.Fits s.operations)
    (howns : v'.owns = v.owns ∨ v'.owns = none ∧ ∀ id, v.owns = some id → Finished s.operations id) :
    
    Inv s' (v' :: rest) where
  held w hw key hholds := by
    rcases mem_cons.mp hw with rfl | hrest
    · exact hheld key hholds
    · exact hactive w hrest key hholds
  holders := hholders
  owners := h.owners.keep (howns.imp id And.left)
  key w hw o ho := by
    rcases mem_cons.mp hw with rfl | hrest
    · exact hkey o ho
    · exact h.key w (mem_cons_of_mem v hrest) o ho
  fits w hw o ho := by
    rw [hoperations]
    rcases mem_cons.mp hw with rfl | hrest
    · exact howner o ho
    · exact h.fits w (mem_cons_of_mem v hrest) o ho
  owned id record hrecord hopen := by
    rw [hoperations] at hrecord
    obtain ⟨w, hw, hid⟩ := h.owned id record hrecord hopen
    rcases mem_cons.mp hw with rfl | hrest
    · rcases howns with heq | ⟨_, hfinished⟩
      · exact ⟨v', mem_cons_self, heq.trans hid⟩
      · rw [hfinished id hid record hrecord] at hopen
        cases hopen
    · exact ⟨w, mem_cons_of_mem v' hrest, hid⟩
  single := by
    rw [hoperations]
    exact h.single

/-- The parts that a written row keeps. -/
theorem Inv.write {state : ModelOperationState} {progress now : Nat}
    (hchanges : Table.Changes s.operations s'.operations old (old.move state progress now))
    (hpermitted : permitted old.state state) (hactive : s'.active = s.active)
    (hholds : v'.holds = v.holds)
    (hkey : ∀ o, v'.owner = some o → v'.holds = none ∨ v'.holds = some (activeKey o.action))
    (howner : ∀ o', v'.owner = some o' → o'.Fits s'.operations)
    (howns : v'.owns = v.owns ∨ v'.owns = none ∧ v.owns = some old.operationId ∧ state.terminal)
    (hothers : ∀ w ∈ rest, ∀ o, w.owner = some o → o.id = old.operationId → state.terminal ∧ o.phase ≠ .applied) :
    
    Inv s' (v' :: rest) where
  held w hw key hw' := by
    rw [hactive]
    rcases mem_cons.mp hw with rfl | hrest
    · exact h.held v mem_cons_self key (hholds.symm.trans hw')
    · exact h.held w (mem_cons_of_mem v hrest) key hw'
  holders := h.holders.keep (.inl hholds)
  owners := h.owners.keep (howns.imp id And.left)
  key w hw o ho := by
    rcases mem_cons.mp hw with rfl | hrest
    · exact hkey o ho
    · exact h.key w (mem_cons_of_mem v hrest) o ho
  fits w hw o ho := by
    rcases mem_cons.mp hw with rfl | hrest
    · exact howner o ho
    · obtain ⟨record, hfind, hmodel, hkind, hfits⟩ := h.fits w (mem_cons_of_mem v hrest) o ho
      by_cases hid : o.id = old.operationId
      · obtain ⟨hterminal, hphase⟩ := hothers w hrest o ho hid
        have hold := hchanges.found
        rw [← hid, hfind] at hold
        cases hold
        have hnew : s'.operations.find o.id = some (old.move state progress now) := by
          rw [hid]
          exact hchanges.self
        exact ⟨old.move state progress now, hnew, hmodel, hkind,
          Phase.fits_of_terminal hphase hterminal⟩
      · exact ⟨record, (hchanges.other hid).trans hfind, hmodel, hkind, hfits⟩
  owned id record hrecord hopen := by
    rcases hchanges.cases hrecord with ⟨rfl, rfl⟩ | ⟨hne, hold⟩
    · obtain ⟨w, hw, hid⟩ := h.owned _ old hchanges.found (terminal_of_permitted hpermitted)
      rcases mem_cons.mp hw with rfl | hrest
      · rcases howns with heq | ⟨_, _, hterminal⟩
        · exact ⟨v', mem_cons_self, heq.trans hid⟩
        · exact absurd hopen (by simpa [move] using hterminal)
      · exact ⟨w, mem_cons_of_mem v' hrest, hid⟩
    · obtain ⟨w, hw, hid⟩ := h.owned id record hold hopen
      rcases mem_cons.mp hw with rfl | hrest
      · rcases howns with heq | ⟨_, hsame, _⟩
        · exact ⟨v', mem_cons_self, heq.trans hid⟩
        · exact absurd (some.inj (hid.symm.trans hsame)) hne
      · exact ⟨w, mem_cons_of_mem v' hrest, hid⟩
  single id₁ id₂ r₁ r₂ h₁ h₂ open₁ open₂ hsame := by
    -- the row before has the same key and was unfinished too
    have hback : ∀ id record, s'.operations.find id = some record →
        record.state.terminal = false → ∃ row, s.operations.find id = some row ∧
          row.state.terminal = false ∧ recordKey row = recordKey record := by
      intro id record hrecord hopen
      rcases hchanges.cases hrecord with ⟨rfl, rfl⟩ | ⟨_, hold⟩
      · exact ⟨old, hchanges.found, terminal_of_permitted hpermitted, rfl⟩
      · exact ⟨record, hold, hopen, rfl⟩
    obtain ⟨row₁, hrow₁, hopen₁, hkey₁⟩ := hback id₁ r₁ h₁ open₁
    obtain ⟨row₂, hrow₂, hopen₂, hkey₂⟩ := hback id₂ r₂ h₂ open₂
    exact h.single id₁ id₂ row₁ row₂ hrow₁ hrow₂ hopen₁ hopen₂ (by rw [hkey₁, hkey₂, hsame])

theorem Inv.create {kind : ModelOperationKind}
    (hholds : v.holds = some (activeKey action)) (howner : v.owner = none)
    (hrecord : record = queuedOperation ⟨action.operationId, action.modelId, action.revision, kind, now⟩)
    (hinsert : s.operations.insert? record = some s'.operations) (hactive : s'.active = s.active)
    (hclosed : ∀ w ∈ rest, ∀ o, w.owner = some o → modelKey o.action = modelKey action → w.holds = none → Finished s.operations o.id) :
    
    Inv s' ({ v with owner := some ⟨action, kind, .queued⟩ } :: rest) := by
  have hid : record.operationId = action.operationId := by rw [hrecord]; rfl
  have hmodel : recordKey record = modelKey action := by rw [hrecord]; rfl
  have hfree := (Table.insert?_eq_some_iff.mp hinsert).1
  -- the owner of an unfinished operation of this revision would hold it too
  have hnone : ∀ id row, s.operations.find id = some row → row.state.terminal = false →
      recordKey row ≠ modelKey action := by
    intro id row hrow hopen hsame
    obtain ⟨w, hw, howns⟩ := h.owned id row hrow hopen
    obtain ⟨o, ho, rfl⟩ := map_eq_some_iff.mp howns
    rcases mem_cons.mp hw with rfl | hrest
    · rw [howner] at ho
      cases ho
    · obtain ⟨own, hown, hkey, _⟩ := h.fits w hw o ho
      rw [hrow] at hown
      cases hown
      have haction : modelKey o.action = modelKey action := hkey.symm.trans hsame
      rcases h.key w hw o ho with hreleased | hsome
      · rw [hclosed w hrest o ho haction hreleased row hrow] at hopen
        cases hopen
      · have hactiveKey : activeKey o.action = activeKey action := by
          simp only [modelKey, ModelKey.mk.injEq] at haction
          simp only [activeKey, haction]
        exact h.holders.ne_of_mem hholds hrest (hactiveKey ▸ hsome)
  constructor
  · intro w hw key hkey
    rw [hactive]
    rcases mem_cons.mp hw with rfl | hrest
    · exact h.held v mem_cons_self key hkey
    · exact h.held w (mem_cons_of_mem v hrest) key hkey
  · exact h.holders.keep (.inl rfl)
  · refine h.owners.take (fun id hown w hw hsame => ?_)
    obtain rfl : action.operationId = id := by simpa [View.owns, Owner.id] using hown
    obtain ⟨o, ho, hoid⟩ := map_eq_some_iff.mp hsame
    obtain ⟨row, hrow, _⟩ := h.fits w (mem_cons_of_mem v hw) o ho
    rw [hoid, ← hid, hfree] at hrow
    cases hrow
  · intro w hw o ho
    rcases mem_cons.mp hw with rfl | hrest
    · obtain rfl : ⟨action, kind, .queued⟩ = o := some.inj ho
      exact .inr hholds
    · exact h.key w (mem_cons_of_mem v hrest) o ho
  · intro w hw o ho
    rcases mem_cons.mp hw with rfl | hrest
    · obtain rfl : ⟨action, kind, .queued⟩ = o := some.inj ho
      refine ⟨record, ?_, hmodel, by rw [hrecord]; rfl, .inr ?_⟩
      · rw [show Owner.id ⟨action, kind, .queued⟩ = record.operationId from hid.symm]
        exact Table.find_insert_self hinsert
      · rw [hrecord]
        exact ⟨rfl, rfl⟩
    · obtain ⟨row, hrow, hrest'⟩ := h.fits w (mem_cons_of_mem v hrest) o ho
      exact ⟨row, Table.find_insert_of_some hinsert hrow, hrest'⟩
  · intro id row hrow hopen
    rw [Table.find_insert hinsert] at hrow
    split_ifs at hrow with heq
    · refine ⟨_, mem_cons_self, ?_⟩
      simpa [View.owns, Owner.id] using hid.symm.trans heq
    · obtain ⟨w, hw, howns⟩ := h.owned id row hrow hopen
      rcases mem_cons.mp hw with rfl | hrest
      · simp [View.owns, howner] at howns
      · exact ⟨w, mem_cons_of_mem _ hrest, howns⟩
  · intro id₁ id₂ r₁ r₂ h₁ h₂ open₁ open₂ hsame
    rw [Table.find_insert hinsert] at h₁ h₂
    split_ifs at h₁ h₂ with heq₁ heq₂ heq₂
    · exact heq₁.symm.trans heq₂
    · cases h₁
      exact absurd (hsame.symm.trans hmodel) (hnone id₂ r₂ h₂ open₂)
    · cases h₂
      exact absurd (hsame.trans hmodel) (hnone id₁ r₁ h₁ open₁)
    · exact h.single id₁ id₂ r₁ r₂ h₁ h₂ open₁ open₂ hsame

/-- Every act keeps the owners. -/
theorem Inv.act (hact : Act rest s v s' v') : Inv s' (v' :: rest) := by
  have hheldRest : ∀ w ∈ rest, ∀ key, w.holds = some key → key ∈ s.active :=
    fun w hw => h.held w (mem_cons_of_mem v hw)
  have hkeyHead : ∀ o, v.owner = some o → v.holds = none ∨ v.holds = some (activeKey o.action) :=
    h.key v mem_cons_self
  have hfitsHead : ∀ o, v.owner = some o → o.Fits s.operations := h.fits v mem_cons_self
  -- what a view that keeps or loses its revision still holds
  have hless : v'.holds = v.holds ∨ v'.holds = none → ∀ key, v'.holds = some key →
      key ∈ s.active := by
    rintro (heq | hnone) key hkey
    · exact h.held v mem_cons_self key (heq.symm.trans hkey)
    · rw [hnone] at hkey
      cases hkey
  cases hact with
  | pass hholds howner =>
    refine h.replace rfl hheldRest (hless hholds) (h.holders.keep hholds) (fun o ho => ?_)
      (fun o ho => hfitsHead o (howner ▸ ho)) (.inl (by simp [View.owns, howner]))
    rcases hholds with heq | hnone
    · rw [heq]
      exact hkeyHead o (howner ▸ ho)
    · exact .inl hnone
  | @shift o phase howner _ _ hweaker =>
    refine h.replace rfl hheldRest (hless (.inl rfl)) (h.holders.keep (.inl rfl)) (fun p hp => ?_)
      (fun p hp => ?_) (.inl (by simp [View.owns, howner, Owner.id]))
    · obtain rfl := some.inj hp
      exact hkeyHead o howner
    · obtain rfl := some.inj hp
      obtain ⟨record, hfind, hmodel, hkind, hfits⟩ := hfitsHead o howner
      exact ⟨record, hfind, hmodel, hkind, hweaker record hfind hfits⟩
  | @drop o _ howner hfinished hholds hnone =>
    refine h.replace rfl hheldRest (hless hholds) (h.holders.keep hholds) (fun p hp => ?_)
      (fun p hp => ?_) (.inr ⟨by simp [View.owns, hnone], fun id hid => ?_⟩)
    · rw [hnone] at hp
      cases hp
    · rw [hnone] at hp
      cases hp
    · rw [View.owns_of_owner howner] at hid
      obtain rfl := some.inj hid
      exact hfinished
  | acquire key hfree howner =>
    refine h.replace rfl (fun w hw k hk => Finset.mem_insert_of_mem (hheldRest w hw k hk))
      (fun k hk => ?_) (h.holders.take (fun k hk w hw hsame => ?_)) (fun p hp => ?_)
      (fun p hp => ?_) (.inl rfl)
    · obtain rfl := some.inj hk
      exact Finset.mem_insert_self _ _
    · obtain rfl := some.inj hk
      exact hfree (hheldRest w hw _ hsame)
    · exact absurd (hp : v.owner = some p) (by simp [howner])
    · exact absurd (hp : v.owner = some p) (by simp [howner])
  | release key hholds =>
    refine h.replace rfl (fun w hw k hk => Finset.mem_erase.mpr ⟨?_, hheldRest w hw k hk⟩)
      nofun (h.holders.keep (.inr rfl)) (fun _ _ => .inl rfl) hfitsHead
      (.inl rfl)
    rintro rfl
    exact h.holders.ne_of_mem hholds hw hk
  | create now hholds howner hinsert hframe hclosed =>
    exact h.create hholds howner rfl hinsert (by rw [hframe]) hclosed
  | @run _ o old progress now phase howner hbefore hid hchanges hpermitted _ hfits hframe =>
    refine h.write hchanges hpermitted (by rw [hframe]) rfl (fun p hp => ?_) (fun p hp => ?_)
      (.inl (by simp [View.owns, howner, Owner.id])) (fun w hw p hp hsame => ?_)
    · obtain rfl := some.inj hp
      exact hkeyHead o howner
    · obtain rfl := some.inj hp
      obtain ⟨record, hfind, hmodel, hkind, _⟩ := hfitsHead o howner
      have hold := hchanges.found
      rw [hid, hfind] at hold
      cases hold
      refine ⟨old.move .running progress now, ?_, hmodel, hkind, hfits⟩
      rw [show Owner.id { o with phase } = old.operationId from hid.symm]
      exact hchanges.self
    · exact absurd (hsame.trans hid) (h.id_ne howner hw hp)
  | @close _ o old state progress now howner hid hterminal _ hchanges hpermitted hframe =>
    refine h.write hchanges hpermitted (by rw [hframe]) rfl nofun
      nofun (.inr ⟨rfl, ?_, hterminal⟩) (fun w hw p hp hsame => ?_)
    · rw [hid]
      exact View.owns_of_owner howner
    · exact absurd (hsame.trans hid) (h.id_ne howner hw hp)
  | cancel howner hchanges hpermitted hframe hwaiting =>
    exact h.write hchanges hpermitted (by rw [hframe]) rfl hkeyHead
      (fun p hp => absurd hp (by simp [howner])) (.inl rfl)
      (fun w hw p hp hsame => ⟨rfl, hwaiting w hw p hp hsame⟩)
  | @load o most howner _ hphase hopen | @unload o most howner _ hphase hopen =>
    refine h.replace rfl hheldRest (hless (.inl rfl)) (h.holders.keep (.inl rfl)) (fun p hp => ?_)
      (fun p hp => ?_) (.inl (by simp [View.owns, howner, Owner.id]))
    · obtain rfl := some.inj hp
      exact hkeyHead o howner
    · obtain rfl := some.inj hp
      exact h.unfinished (o := o) howner hphase hopen

omit h

end

/-! ## Loaded models -/

/-- The loaded models after one more row. -/
def replayWrite (loaded : Finset ModelKey) (record : ModelOperationRecord) : Finset ModelKey :=
  if record.state = .succeeded then
    match record.kind with
    | .load => insert (recordKey record) loaded
    | .unload => loaded.erase (recordKey record)
    | .download => loaded
  else loaded

/-- The loaded models that the written rows tell of. -/
def replay (writes : List ModelOperationRecord) : Finset ModelKey :=
  writes.foldl replayWrite ∅

theorem replay_append (writes : List ModelOperationRecord) (record : ModelOperationRecord) :
    replay (writes ++ [record]) = replayWrite (replay writes) record := by
  simp [replay]

theorem replay_of_not_succeeded (writes : List ModelOperationRecord)
    (h : record.state ≠ .succeeded) :
    replay (writes ++ [record]) = replay writes := by
  rw [replay_append, replayWrite, if_neg h]

/-- No owner has changed the loaded models at `key` without having written it. -/
def Settled (views : List View) (key : ModelKey) : Prop :=
  ∀ v ∈ views, ∀ o, v.owner = some o → o.phase = .applied → modelKey o.action ≠ key

structure Loads (s : Shared) (views : List View) : Prop where
  added : ∀ v ∈ views, ∀ o, v.owner = some o → o.phase = .applied → o.kind = .load →
    modelKey o.action ∈ s.loaded
  removed : ∀ v ∈ views, ∀ o, v.owner = some o → o.phase = .applied → o.kind = .unload →
    modelKey o.action ∉ s.loaded
  settled : ∀ key, Settled views key → (key ∈ s.loaded ↔ key ∈ replay s.writes)

theorem Loads.perm (h : Loads s views) (hperm : views.Perm views') : Loads s views' where
  added v hv := h.added v (hperm.mem_iff.mpr hv)
  removed v hv := h.removed v (hperm.mem_iff.mpr hv)
  settled key hkey := h.settled key (fun v hv => hkey v (hperm.mem_iff.mp hv))

section

variable {rest : List View} {s s' : Shared} {v v' : View}

/-- An act that changes neither the loaded models nor what the rows tell of them. -/
theorem Loads.keep (h : Loads s (v :: rest)) (hloaded : s'.loaded = s.loaded)
    (hreplay : replay s'.writes = replay s.writes)
    (howner : ∀ o, o.phase = .applied → (v'.owner = some o ↔ v.owner = some o)) :
    Loads s' (v' :: rest) := by
  have hback : ∀ w ∈ v' :: rest, ∀ o, w.owner = some o → o.phase = .applied →
      ∃ u ∈ v :: rest, u.owner = some o := by
    intro w hw o ho happlied
    rcases mem_cons.mp hw with rfl | hrest
    · exact ⟨v, mem_cons_self, (howner o happlied).mp ho⟩
    · exact ⟨w, mem_cons_of_mem v hrest, ho⟩
  constructor
  · intro w hw o ho happlied hkind
    obtain ⟨u, hu, huo⟩ := hback w hw o ho happlied
    rw [hloaded]
    exact h.added u hu o huo happlied hkind
  · intro w hw o ho happlied hkind
    obtain ⟨u, hu, huo⟩ := hback w hw o ho happlied
    rw [hloaded]
    exact h.removed u hu o huo happlied hkind
  · intro key hkey
    rw [hloaded, hreplay]
    refine h.settled key (fun w hw o ho happlied => ?_)
    rcases mem_cons.mp hw with rfl | hrest
    · exact hkey v' mem_cons_self o ((howner o happlied).mpr ho) happlied
    · exact hkey w (mem_cons_of_mem v' hrest) o ho happlied

/-- Only the head view has changed the loaded models at its key. -/
theorem Inv.applied_ne (h : Inv s (v :: rest)) (howner : v.owner = some o)
    (hfind : s.operations.find o.id = some record) (hkey : recordKey record = modelKey o.action)
    (hrunning : record.state = .running) (hw : w ∈ rest)
    (hp : w.owner = some p) (happlied : p.phase = .applied) :
    modelKey p.action ≠ modelKey o.action := by
  intro hsame
  obtain ⟨row, hrow, hrowKey, _, hfits⟩ := h.fits w (mem_cons_of_mem v hw) p hp
  rw [happlied] at hfits
  have hrowRunning : row.state = .running := hfits
  refine h.id_ne howner hw hp (h.single p.id o.id row record hrow hfind ?_ ?_ ?_)
  · rw [hrowRunning]
    rfl
  · rw [hrunning]
    rfl
  · rw [hrowKey, hkey, hsame]

/-- The head view changes the loaded models at its key. -/
theorem Loads.apply (h : Loads s (v :: rest))
    (hothers : ∀ w ∈ rest, ∀ p, w.owner = some p → p.phase = .applied →
      modelKey p.action ≠ modelKey o.action)
    (hwrites : s'.writes = s.writes)
    (hloaded : ∀ key, key ≠ modelKey o.action → (key ∈ s'.loaded ↔ key ∈ s.loaded))
    (hphase : ∀ p, v.owner = some p → p.phase ≠ .applied)
    (hadded : o.kind = .load → modelKey o.action ∈ s'.loaded)
    (hremoved : o.kind = .unload → modelKey o.action ∉ s'.loaded) :
    Loads s' ({ v with owner := some { o with phase := .applied } } :: rest) := by
  constructor
  · intro w hw p hp happlied hkind
    rcases mem_cons.mp hw with rfl | hrest
    · obtain rfl := some.inj hp
      exact hadded hkind
    · exact (hloaded _ (hothers w hrest p hp happlied)).mpr
        (h.added w (mem_cons_of_mem v hrest) p hp happlied hkind)
  · intro w hw p hp happlied hkind
    rcases mem_cons.mp hw with rfl | hrest
    · obtain rfl := some.inj hp
      exact hremoved hkind
    · exact fun hmem => h.removed w (mem_cons_of_mem v hrest) p hp happlied hkind
        ((hloaded _ (hothers w hrest p hp happlied)).mp hmem)
  · intro key hkey
    have hne : key ≠ modelKey o.action :=
      (hkey _ mem_cons_self { o with phase := .applied } rfl rfl).symm
    rw [hwrites, hloaded key hne]
    refine h.settled key (fun w hw p hp happlied => ?_)
    rcases mem_cons.mp hw with rfl | hrest
    · exact absurd happlied (hphase p hp)
    · exact hkey w (mem_cons_of_mem _ hrest) p hp happlied

/-- The head view writes the change that it made. -/
theorem Loads.settle (hinv : Inv s (v :: rest)) (h : Loads s (v :: rest)) {progress now : Nat}
    (howner : v.owner = some o) (happlied : o.phase = .applied) (hkind : o.kind ≠ .download)
    (hid : old.operationId = o.id) (hfound : s.operations.find old.operationId = some old)
    (hloaded : s'.loaded = s.loaded)
    (hwrites : s'.writes = s.writes ++ [old.move .succeeded progress now]) :
    Loads s' ({ v with owner := none } :: rest) := by
  obtain ⟨record, hfind, hkey, hrecordKind, hfits⟩ := hinv.fits v mem_cons_self o howner
  rw [hid, hfind] at hfound
  obtain rfl := some.inj hfound
  rw [happlied] at hfits
  have hothers : ∀ w ∈ rest, ∀ p, w.owner = some p → p.phase = .applied →
      modelKey p.action ≠ modelKey o.action :=
    fun w hw p hp hp' => hinv.applied_ne howner hfind hkey hfits hw hp hp'
  have hmoved : recordKey (record.move .succeeded progress now) = modelKey o.action := hkey
  have hmovedKind : (record.move .succeeded progress now).kind = o.kind := hrecordKind
  constructor
  · intro w hw p hp happlied' hkind'
    rw [hloaded]
    rcases mem_cons.mp hw with rfl | hrest
    · cases hp
    · exact h.added w (mem_cons_of_mem v hrest) p hp happlied' hkind'
  · intro w hw p hp happlied' hkind'
    rw [hloaded]
    rcases mem_cons.mp hw with rfl | hrest
    · cases hp
    · exact h.removed w (mem_cons_of_mem v hrest) p hp happlied' hkind'
  · intro key hsettled
    have hsucceeded : (record.move .succeeded progress now).state = .succeeded := rfl
    rw [hloaded, hwrites, replay_append, replayWrite, if_pos hsucceeded, hmovedKind, hmoved]
    by_cases hsame : key = modelKey o.action
    · subst hsame
      cases hcase : o.kind with
      | download => exact absurd hcase hkind
      | load =>
        simp only [Finset.mem_insert_self, iff_true]
        exact h.added v mem_cons_self o howner happlied hcase
      | unload =>
        simp only [Finset.notMem_erase, iff_false]
        exact h.removed v mem_cons_self o howner happlied hcase
    · have hbefore : key ∈ s.loaded ↔ key ∈ replay s.writes := by
        refine h.settled key (fun w hw p hp happlied' => ?_)
        rcases mem_cons.mp hw with rfl | hrest
        · rw [howner] at hp
          cases hp
          exact Ne.symm hsame
        · exact hsettled w (mem_cons_of_mem _ hrest) p hp happlied'
      cases hcase : o.kind with
      | download => exact absurd hcase hkind
      | load | unload => simp [hsame, hbefore]

/-- Every act keeps the loaded models. -/
theorem Loads.act (hinv : Inv s (v :: rest)) (h : Loads s (v :: rest))
    (hact : Act rest s v s' v') : Loads s' (v' :: rest) := by
  cases hact with
  | pass hholds howner => exact h.keep rfl rfl (fun o _ => by rw [howner])
  | @shift o phase howner hbefore hafter _ =>
    refine h.keep rfl rfl (fun p hp => ?_)
    constructor
    · rintro hsome
      obtain rfl := some.inj hsome
      exact absurd hp hafter
    · intro hsome
      rw [howner] at hsome
      cases hsome
      exact absurd hp hbefore
  | @drop o _ howner hfinished hholds hnone =>
    refine h.keep rfl rfl (fun p hp => ?_)
    constructor
    · intro hsome
      rw [hnone] at hsome
      cases hsome
    · intro hsome
      rw [howner] at hsome
      cases hsome
      obtain ⟨record, hfind, _, _, hfits⟩ := hinv.fits v mem_cons_self o howner
      rw [hp] at hfits
      have hrunning : record.state = .running := hfits
      have hterminal := hfinished record hfind
      rw [hrunning] at hterminal
      cases hterminal
  | acquire key hfree howner | release key hholds => exact h.keep rfl rfl (fun _ _ => Iff.rfl)
  | create now hholds howner hinsert hframe hclosed =>
    have hreplay : replay s'.writes = replay s.writes := by
      rw [hframe]
      exact replay_of_not_succeeded _ (by simp [queuedOperation])
    refine h.keep (by rw [hframe]) hreplay (fun p hp => ?_)
    constructor
    · intro hsome
      obtain rfl := some.inj hsome
      cases hp
    · intro hsome
      rw [howner] at hsome
      cases hsome
  | @run _ o old progress now phase howner hbefore hid hchanges hpermitted hafter _ hframe =>
    have hreplay : replay s'.writes = replay s.writes := by
      rw [hframe]
      exact replay_of_not_succeeded _ (by simp [move])
    refine h.keep (by rw [hframe]) hreplay (fun p hp => ?_)
    constructor
    · intro hsome
      obtain rfl := some.inj hsome
      exact absurd hp hafter
    · intro hsome
      rw [howner] at hsome
      cases hsome
      exact absurd hp hbefore
  | @close _ o old state progress now howner hid hterminal happlied hchanges hpermitted hframe =>
    by_cases hphase : o.phase = .applied
    · obtain ⟨rfl, hkind⟩ := happlied.mp hphase
      exact h.settle hinv howner hphase hkind hid hchanges.found (by rw [hframe]) (by rw [hframe])
    · have hreplay : replay s'.writes = replay s.writes := by
        rw [hframe]
        by_cases hstate : state = .succeeded
        · have hdownload : old.kind = .download := by
            obtain ⟨record, hfind, _, hkind, _⟩ := hinv.fits v mem_cons_self o howner
            have hfound := hchanges.found
            rw [hid, hfind] at hfound
            cases hfound
            rw [hkind]
            by_contra hne
            exact hphase (happlied.mpr ⟨hstate, hne⟩)
          rw [replay_append, replayWrite, hstate]
          simp [move, hdownload]
        · exact replay_of_not_succeeded _ hstate
      refine h.keep (by rw [hframe]) hreplay (fun p hp => ?_)
      constructor
      · intro hsome
        cases hsome
      · intro hsome
        rw [howner] at hsome
        cases hsome
        exact absurd hp hphase
  | cancel howner hchanges hpermitted hframe hwaiting =>
    have hreplay : replay s'.writes = replay s.writes := by
      rw [hframe]
      exact replay_of_not_succeeded _ (by simp [move])
    exact h.keep (by rw [hframe]) hreplay (fun _ _ => Iff.rfl)
  | @load o most howner hkind hphase hopen =>
    obtain ⟨record, hfind, hkey, _, hrunning⟩ := hinv.unfinished howner hphase hopen
    refine h.apply (fun w hw p hp happlied =>
        hinv.applied_ne howner hfind hkey hrunning hw hp happlied) rfl
      (fun key hne => by simp [hne]) (fun p hp => ?_) (fun _ => Finset.mem_insert_self _ _)
      (fun hunload => by rw [hkind] at hunload; cases hunload)
    rw [howner] at hp
    cases hp
    simp [hphase]
  | @unload o most howner hkind hphase hopen =>
    obtain ⟨record, hfind, hkey, _, hrunning⟩ := hinv.unfinished howner hphase hopen
    refine h.apply (fun w hw p hp happlied =>
        hinv.applied_ne howner hfind hkey hrunning hw hp happlied) rfl
      (fun key hne => by simp [hne]) (fun p hp => ?_)
      (fun hload => by rw [hkind] at hload; cases hload) (fun _ => Finset.notMem_erase _ _)
    rw [howner] at hp
    cases hp
    simp [hphase]

end

end Abbey.Models
