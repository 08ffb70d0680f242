import Abbey.Memory.Wdbx

/-!
# Memories that are lost

What a write may do to the records that exist, when the process may die
between any two durable steps.

* `WriteSpec` is what the two backends have in common: which records `store`
  accepts, what is read back of them, and that `supersede` is a `store` and
  an `invalidate`, one after the other.
* `neverLost_iff` says from it exactly which writes lose nothing.
-/

namespace Abbey.Memory

open Abbey.Lib List

namespace MemoryStore

variable {σ : Type}

section Guarantee

variable (backend : MemoryStore σ)
variable {P : σ → Op → Prop} {r : MemoryRecord} {id : String}

def SameRecords (db db' : σ) : Prop := ∀ id, backend.get db' id = backend.get db id

/-- The old record is obsolete, and a live one points at it. -/
def Superseded (oldId newId : String) (db : σ) : Prop :=
  ∃ old new, backend.get db oldId = .ok (some old) ∧ old.obsolete = true ∧
    backend.get db newId = .ok (some new) ∧ new.obsolete = false ∧ new.supersedes = some oldId

/-- The writes that may change a record, with what is read of it afterwards.
A supersede may only make the old record obsolete. -/
def MayChange (id : String) (r : MemoryRecord) (after : Except String (Option MemoryRecord)) :
    Op → Prop
  | .update rec => rec.id = id
  | .promote id' _ => id' = id
  | .invalidate id' => id' = id
  | .supersede oldId _ => oldId = id ∧ after = .ok (some { r with obsolete := true })
  | .store _ => False
  | .putEmbedding _ => False

/-- Wherever the write is interrupted, every other record is still there. -/
def KeepsRecords (op : Op) (db : σ) : Prop :=
  ∀ db', Crash (backend.perform op) db db' → ∀ id r, backend.get db id = .ok (some r) →
    backend.get db' id = .ok (some r) ∨ MayChange id r (backend.get db' id) op

structure Atomic (oldId : String) (newRec : MemoryRecord) (db : σ) : Prop where
  crash : ∀ db', Crash (backend.supersede oldId newRec) db db' →
    backend.SameRecords db db' ∨ backend.Superseded oldId newRec.id db'
  done : (backend.supersede oldId newRec db).result = .ok () →
    backend.Superseded oldId newRec.id ((backend.supersede oldId newRec).final db)
  failed : (backend.supersede oldId newRec db).result ≠ .ok () →
    backend.SameRecords db ((backend.supersede oldId newRec).final db)

structure NeverLost (op : Op) (db : σ) : Prop where
  keeps : backend.KeepsRecords op db
  atomic : ∀ oldId newRec, op = .supersede oldId newRec → backend.Atomic oldId newRec db

/-- The writes that name a record, other than as what they store. -/
def Names (id : String) : Op → Prop
  | .update rec => rec.id = id
  | .promote id' _ => id' = id
  | .invalidate id' => id' = id
  | .supersede oldId _ => oldId = id
  | .store _ => False
  | .putEmbedding _ => False

theorem names_of_mayChange
    {after : Except String (Option MemoryRecord)} (h : MayChange id r after op) : Names id op := by
  cases op with
  | supersede oldId newRec => exact h.1
  | _ => exact h

/-- What writes of a kind lead to, when any of them may be interrupted. -/
inductive Leads (P : σ → Op → Prop) : σ → σ → Prop
  | refl (db : σ) : Leads P db db
  | write {db db₁ db₂ : σ} {op : Op} (before : Leads P db db₁) (allowed : P db₁ op)
      (crash : Crash (backend.perform op) db₁ db₂) : Leads P db db₂

variable {backend} {db db' : σ}

theorem Reachable.leads (h : backend.Reachable db) (hrun : backend.Leads P db db') :
    backend.Reachable db' := by
  induction hrun with
  | refl => exact h
  | write _ _ hcrash ih => exact .write ih hcrash

/-- A record that no write of a run names stays as it is, when the writes
lose nothing. -/
theorem get_of_leads (hP : ∀ db op, backend.Reachable db → P db op → backend.NeverLost op db)
    (hdb : backend.Reachable db)
    (hrun : backend.Leads (fun db op => P db op ∧ ¬ Names id op) db db')
    (hr : backend.get db id = .ok (some r)) : backend.get db' id = .ok (some r) := by
  induction hrun with
  | refl => exact hr
  | write hbefore hallowed hcrash ih =>
    have hlost := hP _ _ (hdb.leads hbefore) hallowed.1
    rcases hlost.keeps _ hcrash id r ih with hkept | hchange
    · exact hkept
    · exact absurd (names_of_mayChange hchange) hallowed.2

end Guarantee

/-! ## What the backends have in common -/

/-- The writes on the stores of an invariant, by what they accept and what
is read back of it. -/
structure WriteSpec (backend : MemoryStore σ) (accepts : σ → MemoryRecord → Prop)
    (readBack : MemoryRecord → Except String (Option MemoryRecord)) (I : σ → Prop) : Prop where
  store_accepted : ∀ db rec, accepts db rec → ∃ db', backend.store rec db = ⟨[db'], .ok ()⟩ ∧
    ∀ id, backend.get db' id = if rec.id = id then readBack rec else backend.get db id
  store_refused : ∀ db rec, ¬ accepts db rec → Refuses (backend.store rec) db
  invalidate_found : ∀ db id r, I db → backend.get db id = .ok (some r) →
    ∃ db', backend.invalidate id db = ⟨[db'], .ok ()⟩ ∧ ∀ k, backend.get db' k =
      if id = k then .ok (some { r with obsolete := true }) else backend.get db k
  invalidate_missing : ∀ db id, (∀ r, backend.get db id ≠ .ok (some r)) →
    Refuses (backend.invalidate id) db
  supersede_eq : ∀ oldId newRec, backend.supersede oldId newRec =
    (backend.store { newRec with supersedes := some oldId } >>= fun _ => backend.invalidate oldId)
  update_other : ∀ db rec db', Crash (backend.update rec) db db' → ∀ id, rec.id ≠ id →
    backend.get db' id = backend.get db id
  promote_other : ∀ db id newRetention db', I db → Crash (backend.promote id newRetention) db db' →
    ∀ k, id ≠ k → backend.get db' k = backend.get db k
  putEmbedding_same : ∀ db embedding db', Crash (backend.putEmbedding embedding) db db' →
    backend.SameRecords db db'
  readBack_some : ∀ rec r, readBack rec = .ok (some r) → r = rec
  invariant : ∀ db op db', I db → Crash (backend.perform op) db db' → I db'

/-- The writes that lose nothing. -/
def Harmless (backend : MemoryStore σ) (accepts : σ → MemoryRecord → Prop)
    (readBack : MemoryRecord → Except String (Option MemoryRecord)) (db : σ) : Op → Prop
  | .store rec => accepts db rec → ∀ r, backend.get db rec.id = .ok (some r) →
      readBack rec = .ok (some r)
  | .supersede oldId newRec =>
    let new := { newRec with supersedes := some oldId }
    let live := readBack new = .ok (some new) ∧ new.obsolete = false
    accepts db new →
      (backend.get db new.id = readBack new ∧
        ∀ old, backend.get db oldId = .ok (some old) → oldId ≠ new.id ∧ live) ∨
      ((∀ r, backend.get db new.id ≠ .ok (some r)) ∧ live ∧
        ∃ old, backend.get db oldId = .ok (some old) ∧ old.obsolete = true)
  | _ => True

namespace WriteSpec

variable {backend : MemoryStore σ} {accepts : σ → MemoryRecord → Prop}
  {readBack : MemoryRecord → Except String (Option MemoryRecord)} {I : σ → Prop}
  (spec : WriteSpec backend accepts readBack I) {db db' : σ} {id oldId : String}
  {rec newRec r : MemoryRecord}

include spec

theorem store_keeps (h : accepts db rec →
    ∀ r, backend.get db rec.id = .ok (some r) → readBack rec = .ok (some r)) :
    backend.KeepsRecords (.store rec) db := by
  intro db' hcrash id r hr
  left
  by_cases haccepts : accepts db rec
  · obtain ⟨db₁, hstore, hget⟩ := spec.store_accepted db rec haccepts
    rcases hcrash with rfl | hmem
    · exact hr
    · have heq : db' = db₁ := by
        rw [show backend.perform (.store rec) = backend.store rec from rfl, hstore] at hmem
        exact mem_singleton.mp hmem
      rw [heq, hget]
      split_ifs with hid
      · subst hid
        exact h haccepts r hr
      · exact hr
  · rw [(spec.store_refused db rec haccepts).crash hcrash]
    exact hr

theorem store_of_keeps (h : backend.KeepsRecords (.store rec) db) (haccepts : accepts db rec)
    (hr : backend.get db rec.id = .ok (some r)) : readBack rec = .ok (some r) := by
  obtain ⟨db₁, hstore, hget⟩ := spec.store_accepted db rec haccepts
  have hcrash : Crash (backend.perform (.store rec)) db db₁ := by
    right
    rw [show backend.perform (.store rec) = backend.store rec from rfl, hstore]
    exact mem_singleton_self db₁
  rcases h db₁ hcrash rec.id r hr with hkept | hchange
  · rw [hget, if_pos rfl] at hkept
    exact hkept
  · exact hchange.elim

theorem invalidate_keeps (hI : I db) : backend.KeepsRecords (.invalidate id) db := by
  intro db' hcrash k r hr
  by_cases hk : id = k
  · exact .inr hk
  · left
    by_cases hfound : ∃ r, backend.get db id = .ok (some r)
    · obtain ⟨old, hold⟩ := hfound
      obtain ⟨db₁, hinvalidate, hget⟩ := spec.invalidate_found db id old hI hold
      rcases hcrash with rfl | hmem
      · exact hr
      · rw [show backend.perform (.invalidate id) = backend.invalidate id from rfl,
          hinvalidate] at hmem
        rw [mem_singleton.mp hmem, hget, if_neg hk]
        exact hr
    · have hmissing : ∀ r, backend.get db id ≠ .ok (some r) := fun r hget => hfound ⟨r, hget⟩
      rw [(spec.invalidate_missing db id hmissing).crash hcrash]
      exact hr

/-! ### Supersede -/

/-- The states of a supersede whose new record is accepted: after the first
write, and after the second when there is an old record to mark. -/
theorem supersede_cases (hI : I db) (haccepts : accepts db { newRec with supersedes := some oldId }) :
    ∃ db₁, (∀ id, backend.get db₁ id =
        if newRec.id = id then readBack { newRec with supersedes := some oldId }
        else backend.get db id) ∧
      ((∃ old db₂, backend.get db₁ oldId = .ok (some old) ∧
          backend.supersede oldId newRec db = ⟨[db₁, db₂], .ok ()⟩ ∧
          ∀ k, backend.get db₂ k =
            if oldId = k then .ok (some { old with obsolete := true }) else backend.get db₁ k) ∨
        ((∀ old, backend.get db₁ oldId ≠ .ok (some old)) ∧
          ∃ e, backend.supersede oldId newRec db = ⟨[db₁], .error e⟩)) := by
  obtain ⟨db₁, hstore, hget⟩ := spec.store_accepted db _ haccepts
  have hI₁ : I db₁ := spec.invariant db (.store { newRec with supersedes := some oldId }) db₁ hI
    (.inr (by
      show db₁ ∈ (backend.store _ db).steps
      rw [hstore]
      exact mem_singleton_self db₁))
  have hsupersede : backend.supersede oldId newRec db = ⟨[db₁] ++
      (backend.invalidate oldId db₁).steps, (backend.invalidate oldId db₁).result⟩ := by
    rw [spec.supersede_eq]
    exact bind_of_ok hstore
  refine ⟨db₁, hget, ?_⟩
  by_cases hfound : ∃ old, backend.get db₁ oldId = .ok (some old)
  · obtain ⟨old, hold⟩ := hfound
    obtain ⟨db₂, hinvalidate, hget₂⟩ := spec.invalidate_found db₁ oldId old hI₁ hold
    left
    exact ⟨old, db₂, hold, by rw [hsupersede, hinvalidate]; rfl, hget₂⟩
  · have hmissing : ∀ old, backend.get db₁ oldId ≠ .ok (some old) := fun old hget =>
      hfound ⟨old, hget⟩
    obtain ⟨e, he⟩ := spec.invalidate_missing db₁ oldId hmissing
    right
    exact ⟨hmissing, e, by rw [hsupersede, he]; rfl⟩

/-- A refused supersede leaves everything as it was. -/
theorem supersede_refused (h : ¬ accepts db { newRec with supersedes := some oldId }) :
    backend.NeverLost (.supersede oldId newRec) db := by
  obtain ⟨e, he⟩ := spec.store_refused db _ h
  have hrefused : backend.supersede oldId newRec db = ⟨[], .error e⟩ := by
    rw [spec.supersede_eq]
    exact bind_of_error he
  have hsame : ∀ db', Crash (backend.supersede oldId newRec) db db' → db' = db :=
    fun db' => Refuses.crash ⟨e, hrefused⟩
  constructor
  · intro db' hcrash id r hr
    rw [hsame db' hcrash]
    exact .inl hr
  · intro oldId' newRec' hop
    cases hop
    constructor
    · intro db' hcrash
      rw [hsame db' hcrash]
      exact .inl (fun _ => rfl)
    · intro hok
      rw [hrefused] at hok
      cases hok
    · intro _
      unfold Durable.final
      rw [hrefused]
      exact fun _ => rfl

/-- A supersede with an old record to mark, through the two states it makes. -/
theorem supersede_found (hrun : backend.supersede oldId newRec db = ⟨[db₁, db₂], .ok ()⟩)
    (hkeeps : ∀ db', db' = db₁ ∨ db' = db₂ → ∀ id r, backend.get db id = .ok (some r) →
      backend.get db' id = .ok (some r) ∨
        MayChange id r (backend.get db' id) (.supersede oldId newRec))
    (hfirst : backend.SameRecords db db₁ ∨ backend.Superseded oldId newRec.id db₁)
    (hlast : backend.Superseded oldId newRec.id db₂) :
    backend.NeverLost (.supersede oldId newRec) db := by
  have hstates : ∀ db', Crash (backend.supersede oldId newRec) db db' →
      db' = db ∨ db' = db₁ ∨ db' = db₂ := by
    intro db' hcrash
    unfold Crash at hcrash
    rw [hrun] at hcrash
    simpa using hcrash
  constructor
  · intro db' hcrash id r hr
    rcases hstates db' hcrash with rfl | hwritten
    · exact .inl hr
    · exact hkeeps db' hwritten id r hr
  · intro oldId' newRec' hop
    cases hop
    have hfinal : (backend.supersede oldId newRec).final db = db₂ := by
      unfold Durable.final
      rw [hrun]
      rfl
    constructor
    · intro db' hcrash
      rcases hstates db' hcrash with rfl | rfl | rfl
      · exact .inl (fun _ => rfl)
      · exact hfirst
      · exact .inr hlast
    · intro _
      rw [hfinal]
      exact hlast
    · intro hfailed
      rw [hrun] at hfailed
      exact absurd rfl hfailed

/-- A supersede without an old record to mark. -/
theorem supersede_missing (hrun : backend.supersede oldId newRec db = ⟨[db₁], .error e⟩)
    (hsame : backend.SameRecords db db₁) : backend.NeverLost (.supersede oldId newRec) db := by
  have hstates : ∀ db', Crash (backend.supersede oldId newRec) db db' →
      backend.SameRecords db db' := by
    intro db' hcrash
    unfold Crash at hcrash
    rw [hrun] at hcrash
    rcases hcrash with rfl | hmem
    · exact fun _ => rfl
    · rw [mem_singleton.mp hmem]
      exact hsame
  constructor
  · intro db' hcrash id r hr
    left
    rw [hstates db' hcrash id]
    exact hr
  · intro oldId' newRec' hop
    cases hop
    constructor
    · exact fun db' hcrash => .inl (hstates db' hcrash)
    · intro hok
      rw [hrun] at hok
      cases hok
    · intro _
      unfold Durable.final
      rw [hrun]
      exact hsame

theorem supersede_of_harmless (hI : I db)
    (h : Harmless backend accepts readBack db (.supersede oldId newRec)) :
    backend.NeverLost (.supersede oldId newRec) db := by
  by_cases haccepts : accepts db { newRec with supersedes := some oldId }
  swap
  · exact spec.supersede_refused haccepts
  obtain ⟨db₁, hget₁, hcases⟩ := spec.supersede_cases hI haccepts
  rcases h haccepts with ⟨hthere, hold⟩ | ⟨hfree, ⟨hread, hlive⟩, old, hold, hobsolete⟩
  · -- the new record is there already, as it is
    have hsame : backend.SameRecords db db₁ := by
      intro id
      rw [hget₁]
      split_ifs with hid
      · subst hid
        exact hthere.symm
      · rfl
    rcases hcases with ⟨old, db₂, hfound, hrun, hget₂⟩ | ⟨_, e, hrun⟩
    · obtain ⟨hne, hread, hlive⟩ := hold old ((hsame oldId).symm.trans hfound)
      refine spec.supersede_found hrun ?_ (.inl hsame) ?_
      · rintro db' (rfl | rfl) id r hr
        · left
          rw [hsame]
          exact hr
        · by_cases hid : oldId = id
          · subst hid
            have hr₁ := (hsame oldId).trans hr
            rw [hfound] at hr₁
            cases hr₁
            right
            exact ⟨rfl, by rw [hget₂, if_pos rfl]⟩
          · left
            rw [hget₂, if_neg hid, hsame]
            exact hr
      · refine ⟨{ old with obsolete := true }, { newRec with supersedes := some oldId }, ?_, rfl, ?_,
          hlive, rfl⟩
        · rw [hget₂, if_pos rfl]
        · rw [hget₂, if_neg hne, hget₁, if_pos rfl]
          exact hread
    · exact spec.supersede_missing hrun hsame
  · -- the old record is obsolete already, and the id of the new one is free
    have hne : newRec.id ≠ oldId := by
      rintro rfl
      exact hfree old hold
    have hold₁ : backend.get db₁ oldId = .ok (some old) := by
      rw [hget₁, if_neg hne]
      exact hold
    have hnew₁ : backend.get db₁ newRec.id = .ok (some { newRec with supersedes := some oldId }) := by
      rw [hget₁, if_pos rfl]
      exact hread
    have hsuperseded : backend.Superseded oldId newRec.id db₁ :=
      ⟨old, _, hold₁, hobsolete, hnew₁, hlive, rfl⟩
    rcases hcases with ⟨old', db₂, hfound, hrun, hget₂⟩ | ⟨hmissing, _⟩
    · have hmarked : { old' with obsolete := true } = old := by
        rw [hold₁] at hfound
        cases hfound
        rw [← hobsolete]
      have hsame₂ : ∀ k, backend.get db₂ k = backend.get db₁ k := by
        intro k
        rw [hget₂]
        split_ifs with hk
        · subst hk
          rw [hmarked, hold₁]
        · rfl
      have hkept : ∀ id r, backend.get db id = .ok (some r) → backend.get db₁ id = .ok (some r) := by
        intro id r hr
        rw [hget₁, if_neg (fun hid => hfree r (by rw [hid]; exact hr))]
        exact hr
      refine spec.supersede_found hrun ?_ (.inr hsuperseded) ?_
      · rintro db' (rfl | rfl) id r hr
        · exact .inl (hkept id r hr)
        · left
          rw [hsame₂]
          exact hkept id r hr
      · refine ⟨old, _, ?_, hobsolete, ?_, hlive, rfl⟩
        · rw [hsame₂]
          exact hold₁
        · rw [hsame₂]
          exact hnew₁
    · exact absurd hold₁ (hmissing old)

theorem harmless_of_supersede (hI : I db) (h : backend.NeverLost (.supersede oldId newRec) db) :
    Harmless backend accepts readBack db (.supersede oldId newRec) := by
  intro haccepts
  obtain ⟨db₁, hget₁, hcases⟩ := spec.supersede_cases hI haccepts
  set new : MemoryRecord := { newRec with supersedes := some oldId }
  have hatomic := h.atomic oldId newRec rfl
  have hcrash₁ : Crash (backend.supersede oldId newRec) db db₁ := by
    right
    rcases hcases with ⟨_, _, _, hrun, _⟩ | ⟨_, _, hrun⟩ <;> simp [hrun]
  by_cases hthere : backend.get db new.id = readBack new
  · left
    refine ⟨hthere, fun old hold => ?_⟩
    have hold₁ : backend.get db₁ oldId = .ok (some old) := by
      rw [hget₁]
      split_ifs with hid
      · rw [← hold, ← hid]
        exact hthere.symm
      · exact hold
    rcases hcases with ⟨old', db₂, _, hrun, hget₂⟩ | ⟨hmissing, _⟩
    · have hdone := hatomic.done (by rw [hrun])
      unfold Durable.final at hdone
      rw [hrun] at hdone
      obtain ⟨_, new', _, _, hnew, hlive, _⟩ := hdone
      change backend.get db₂ newRec.id = _ at hnew
      rw [hget₂] at hnew
      split_ifs at hnew with hid
      · cases hnew
        cases hlive
      · rw [hget₁, if_pos rfl] at hnew
        have heq := spec.readBack_some _ _ hnew
        subst heq
        exact ⟨hid, hnew, hlive⟩
    · exact absurd hold₁ (hmissing old)
  · right
    have hnew₁ : backend.get db₁ newRec.id = readBack new := by rw [hget₁, if_pos rfl]
    rcases hatomic.crash db₁ hcrash₁ with hsame | ⟨old, new', hold, hobsolete, hnew, hlive, _⟩
    · exact absurd ((hsame newRec.id).symm.trans hnew₁) hthere
    · have hne : newRec.id ≠ oldId := by
        intro heq
        rw [heq, hold] at hnew
        cases hnew
        rw [hobsolete] at hlive
        cases hlive
      rw [hnew₁] at hnew
      have heq := spec.readBack_some _ _ hnew
      subst heq
      refine ⟨fun r hr => ?_, ⟨hnew, hlive⟩, old, ?_, hobsolete⟩
      · rcases h.keeps db₁ hcrash₁ newRec.id r hr with hkept | ⟨hid, _⟩
        · exact hthere ((show backend.get db new.id = _ from hr).trans (hkept.symm.trans hnew₁))
        · exact hne hid.symm
      · rw [hget₁, if_neg hne] at hold
        exact hold

/-- Exactly the harmless writes lose nothing. -/
theorem neverLost_iff (hI : I db) (op : Op) :
    backend.NeverLost op db ↔ Harmless backend accepts readBack db op := by
  cases op with
  | store rec =>
    constructor
    · exact fun h haccepts r hr => spec.store_of_keeps h.keeps haccepts hr
    · exact fun h => ⟨spec.store_keeps h, nofun⟩
  | supersede oldId newRec =>
    exact ⟨spec.harmless_of_supersede hI, spec.supersede_of_harmless hI⟩
  | update rec =>
    refine ⟨fun _ => trivial, fun _ => ⟨fun db' hcrash id r hr => ?_, nofun⟩⟩
    by_cases hid : rec.id = id
    · exact .inr hid
    · left
      rw [spec.update_other db rec db' hcrash id hid]
      exact hr
  | invalidate id =>
    exact ⟨fun _ => trivial, fun _ => ⟨spec.invalidate_keeps hI, nofun⟩⟩
  | promote id newRetention =>
    refine ⟨fun _ => trivial, fun _ => ⟨fun db' hcrash k r hr => ?_, nofun⟩⟩
    by_cases hk : id = k
    · exact .inr hk
    · left
      rw [spec.promote_other db id newRetention db' hI hcrash k hk]
      exact hr
  | putEmbedding embedding =>
    refine ⟨fun _ => trivial, fun _ => ⟨fun db' hcrash k r hr => ?_, nofun⟩⟩
    left
    rw [spec.putEmbedding_same db embedding db' hcrash k]
    exact hr

end WriteSpec

end MemoryStore

end Abbey.Memory
