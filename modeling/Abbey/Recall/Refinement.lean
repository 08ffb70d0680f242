import Abbey.Lib.System
import Abbey.Recall.Projection

/-!
# A store refines its facts

The operations of `Recall` against the same operations on a list of facts.
A fact is added at the end, a forgotten one is filtered out, and a
reconciliation replaces the list.

* `Holds.remember`, `Holds.forget`, `Holds.reconcile` and `Holds.reload`:
  every operation keeps the projection.
* `untouched_reconcile` is about any store: what a reconciliation leaves
  alone.
* `recall_refines` reads the answers off the facts after any run.
-/

namespace Abbey.Recall

open Abbey.Lib List
open WdbxStore

variable {F : Type}
variable {wanted : List WantedFact} {guild : String} {store : WdbxStore F}

/-! ## Clearing the projection -/

/-- The id that a row of the projection names. -/
def named (key : String) : Option Nat :=
  (location (key.toList.drop memPrefix.length)).map Prod.fst

theorem kv_removeMemoryKey (store : WdbxStore F) (key other : String) :
    (removeMemoryKey store key).kv[other]? = if key = other then none else store.kv[other]? := by
  have herase : (removeMemoryKey store key).kv = store.kv.erase key := by
    unfold removeMemoryKey
    cases location (key.toList.drop memPrefix.length) with
    | none => rfl
    | some place => rfl
  rw [herase, Std.ExtTreeMap.getElem?_erase]
  simp only [compare_eq_iff_eq]

theorem vectors_removeMemoryKey (store : WdbxStore F) (key : String) :
    (removeMemoryKey store key).vectors =
      store.vectors.filter (fun row => named key ≠ some row.1) := by
  unfold removeMemoryKey named
  cases location (key.toList.drop memPrefix.length) with
  | none => simp [removeKv]
  | some place =>
    simp only [removeVector, removeKv, Option.map_some]
    apply filter_congr
    intro row _
    simp [eq_comm]

theorem nextId_removeMemoryKey (store : WdbxStore F) (key : String) :
    (removeMemoryKey store key).nextId = store.nextId := by
  unfold removeMemoryKey
  cases location (key.toList.drop memPrefix.length) with
  | none => rfl
  | some place => rfl

theorem unknown_removeMemoryKey (store : WdbxStore F) (key : String) :
    (removeMemoryKey store key).unknown = store.unknown := by
  unfold removeMemoryKey
  cases location (key.toList.drop memPrefix.length) with
  | none => rfl
  | some place => rfl

/-- What removing some rows of the projection leaves. -/
structure Removed (store store' : WdbxStore F) (keys : List String) : Prop where
  kv : ∀ key, store'.kv[key]? = if key ∈ keys then none else store.kv[key]?
  vectors : store'.vectors =
    store.vectors.filter (fun row => keys.all (fun key => named key ≠ some row.1))
  nextId : store'.nextId = store.nextId
  unknown : store'.unknown = store.unknown

theorem removed_foldl (store : WdbxStore F) (keys : List String) :
    Removed store (keys.foldl removeMemoryKey store) keys := by
  induction keys generalizing store with
  | nil => exact ⟨by simp, by simp, rfl, rfl⟩
  | cons key keys ih =>
    have hrest := ih (removeMemoryKey store key)
    refine ⟨?_, ?_, ?_, ?_⟩
    · intro other
      rw [foldl_cons, hrest.kv, kv_removeMemoryKey]
      by_cases hmem : other ∈ keys
      · rw [if_pos hmem, if_pos (mem_cons_of_mem key hmem)]
      · rw [if_neg hmem]
        simp only [mem_cons, hmem, or_false, eq_comm (a := key)]
    · rw [foldl_cons, hrest.vectors, vectors_removeMemoryKey, filter_filter]
      apply filter_congr
      intro row _
      rw [all_cons, Bool.and_comm]
    · rw [foldl_cons, hrest.nextId, nextId_removeMemoryKey]
    · rw [foldl_cons, hrest.unknown, unknown_removeMemoryKey]

def memoryKeys (store : WdbxStore F) : List String :=
  (store.kvWithPrefix memPrefix).map Prod.fst

theorem mem_memoryKeys : key ∈ memoryKeys store ↔
      memPrefix.toList.isPrefixOf key.toList ∧ ∃ value, store.kv[key]? = some value := by
  unfold memoryKeys
  rw [kvWithPrefix_eq_filter, mem_map]
  constructor
  · rintro ⟨row, hrow, rfl⟩
    obtain ⟨hmem, hstart⟩ := mem_filter.mp hrow
    exact ⟨hstart, row.2, Std.ExtTreeMap.mem_toList_iff_getElem?_eq_some.mp hmem⟩
  · rintro ⟨hstart, value, hvalue⟩
    refine ⟨(key, value), mem_filter.mpr ⟨?_, hstart⟩, rfl⟩
    exact Std.ExtTreeMap.mem_toList_iff_getElem?_eq_some.mpr hvalue

/-! ## Operations -/

/-- The facts that a reconciliation writes, with ids from a first one. -/
def numbered : Nat → List WantedFact → List Fact
  | _, [] => []
  | first, w :: rest => ⟨first, w.guild, w.user, w.text, w.at_⟩ :: numbered (first + 1) rest

theorem wanted_numbered (first : Nat) (wanted : List WantedFact) :
    (numbered first wanted).map Fact.wanted = wanted := by
  induction wanted generalizing first with
  | nil => rfl
  | cons w rest ih =>
    rw [numbered, map_cons, ih]
    rfl

namespace Holds

variable {embedder : Embedder F} {store : WdbxStore F} {facts : List Fact}

theorem new : Holds embedder (.new : WdbxStore F) [] := by
  have hnext : (1 : Nat) ≤ u64Max := by decide
  refine ⟨.nil, ?_, rfl, by simp, hnext, rfl, by simp⟩
  intro key value
  simp [WdbxStore.new]

theorem remember (h : Holds embedder store facts)
    (hreadable : Readable embedder ⟨user, text, at_⟩) (hfits : store.nextId < u64Max) :
    Holds embedder (remember embedder store guild user text at_).1
      (facts ++ [⟨store.nextId, guild, user, text, at_⟩]) := by
  have hnext : (Recall.remember embedder store guild user text at_).1.nextId =
      store.nextId + 1 := by
    show min (store.nextId + 1) u64Max = _
    omega
  refine ⟨?_, ?_, ?_, ?_, ?_, h.unknown, ?_⟩
  · rw [pairwise_append]
    refine ⟨h.ascending, pairwise_singleton _ _, ?_⟩
    intro f hf g hg
    rw [mem_singleton.mp hg]
    exact h.below f hf
  · intro key value
    show (store.kv.insert (factKey guild store.nextId)
      (embedder.factText ⟨user, text, at_⟩))[key]? = some value ↔ _
    rw [Std.ExtTreeMap.getElem?_insert]
    simp only [compare_eq_iff_eq, mem_append, mem_singleton]
    by_cases hkey : factKey guild store.nextId = key
    · rw [if_pos hkey, Option.some.injEq]
      constructor
      · intro hvalue
        exact ⟨_, .inr rfl, hkey.symm, hvalue.symm⟩
      · rintro ⟨f, hf | rfl, hf', hvalue⟩
        · have hid := (factKey_inj h.next (h.id_le hf) (hkey.trans hf')).2
          have hlt := h.below f hf
          omega
        · exact hvalue.symm
    · rw [if_neg hkey, h.rows]
      constructor
      · rintro ⟨f, hf, hrow⟩
        exact ⟨f, .inl hf, hrow⟩
      · rintro ⟨f, hf | rfl, hrow⟩
        · exact ⟨f, hf, hrow⟩
        · exact absurd hrow.1.symm hkey
  · show store.vectors ++ [(store.nextId, embedder.embed text)] = _
    rw [h.vectors, map_append]
    rfl
  · intro f hf
    rw [hnext]
    rcases mem_append.mp hf with hold | hnew
    · exact Nat.lt_succ_of_lt (h.below f hold)
    · rw [mem_singleton.mp hnew]
      exact Nat.lt_succ_self _
  · rw [hnext]
    exact hfits
  · intro f hf
    rcases mem_append.mp hf with hold | hnew
    · exact h.readable f hold
    · rw [mem_singleton.mp hnew]
      exact hreadable

/-- The answer of `forget`, and that nothing changes when it is false. -/
theorem forget_spec (h : Holds embedder store facts) {id : Nat} (hid : id ≤ u64Max) :
    ((Recall.forget store guild id).2 = true ↔ ∃ f ∈ facts, f.guild = guild ∧ f.id = id) ∧
      ((Recall.forget store guild id).2 = false → (Recall.forget store guild id).1 = store) := by
  unfold Recall.forget removeKv
  cases hvalue : store.kv[factKey guild id]? with
  | none =>
    refine ⟨⟨fun hfalse => by simp at hfalse, ?_⟩, fun _ => rfl⟩
    rintro ⟨f, hf, rfl, rfl⟩
    have hsome := h.getKv_key hf
    rw [getKv, hvalue] at hsome
    cases hsome
  | some value =>
    refine ⟨⟨fun _ => h.getKv_eq_some hid hvalue, fun _ => rfl⟩, ?_⟩
    intro hfalse
    cases hfalse

/-- The facts without the one of a guild under an id. -/
def without (facts : List Fact) (guild : String) (id : Nat) : List Fact :=
  facts.filter (fun f => ¬(f.guild = guild ∧ f.id = id))

theorem forget (h : Holds embedder store facts) {id : Nat} (hid : id ≤ u64Max) :
    Holds embedder (forget store guild id).1 (without facts guild id) := by
  have hsub : (without facts guild id).Sublist facts := filter_sublist
  cases hvalue : store.kv[factKey guild id]? with
  | none =>
    have hstore : (Recall.forget store guild id).1 = store := by
      unfold Recall.forget removeKv
      rw [hvalue]
    have hfacts : without facts guild id = facts := by
      unfold without
      rw [filter_eq_self]
      intro f hf
      rw [decide_eq_true_eq]
      rintro ⟨rfl, rfl⟩
      have hsome := h.getKv_key hf
      rw [getKv, hvalue] at hsome
      cases hsome
    rw [hstore, hfacts]
    exact h
  | some value =>
    obtain ⟨gone, hgone, hguild, hgoneId⟩ := h.getKv_eq_some hid hvalue
    have hmem : ∀ f, f ∈ without facts guild id ↔ f ∈ facts ∧ f.id ≠ id := by
      intro f
      unfold without
      rw [mem_filter, decide_eq_true_eq]
      constructor
      · rintro ⟨hf, hother⟩
        refine ⟨hf, fun heq => hother ⟨?_, heq⟩⟩
        rw [h.eq_of_id hf hgone (heq.trans hgoneId.symm), hguild]
      · rintro ⟨hf, hother⟩
        exact ⟨hf, fun hboth => hother hboth.2⟩
    have hstore : (Recall.forget store guild id).1 =
        ((store.removeKv (factKey guild id)).1.removeVector id).1 := by
      unfold Recall.forget
      unfold removeKv
      rw [hvalue]
    rw [hstore]
    refine ⟨h.ascending.sublist hsub, ?_, ?_, fun f hf => h.below f (hsub.subset hf), h.next,
      h.unknown, fun f hf => h.readable f (hsub.subset hf)⟩
    · intro key value
      show (store.kv.erase (factKey guild id))[key]? = some value ↔ _
      rw [Std.ExtTreeMap.getElem?_erase]
      simp only [compare_eq_iff_eq]
      by_cases hkey : factKey guild id = key
      · rw [if_pos hkey]
        refine ⟨nofun, ?_⟩
        rintro ⟨f, hf, hf', _⟩
        obtain ⟨hfacts, hother⟩ := (hmem f).mp hf
        exact absurd (factKey_inj hid (h.id_le hfacts) (hkey.trans hf')).2.symm hother
      · rw [if_neg hkey, h.rows]
        constructor
        · rintro ⟨f, hf, rfl, hrow⟩
          refine ⟨f, (hmem f).mpr ⟨hf, fun heq => hkey ?_⟩, rfl, hrow⟩
          rw [h.eq_of_id hf hgone (heq.trans hgoneId.symm), Fact.key, hguild, hgoneId]
        · rintro ⟨f, hf, hrow⟩
          exact ⟨f, ((hmem f).mp hf).1, hrow⟩
    · show store.vectors.filter (fun row => row.1 ≠ id) = _
      rw [h.vectors, filter_map]
      unfold without
      apply congrArg (map _)
      apply filter_congr
      intro f hf
      have hiff := hmem f
      unfold without at hiff
      rw [mem_filter] at hiff
      rw [Bool.eq_iff_iff]
      simp only [Function.comp_apply, decide_eq_true_eq]
      simp only [decide_eq_true_eq, hf, true_and] at hiff
      exact hiff.symm

theorem cleared (h : Holds embedder store facts) :
    Holds embedder ((memoryKeys store).foldl removeMemoryKey store) [] := by
  have hremoved := removed_foldl store (memoryKeys store)
  have hkeys : ∀ f ∈ facts, f.key ∈ memoryKeys store := by
    intro f hf
    exact mem_memoryKeys.mpr ⟨memPrefix_factKey f.guild f.id, _, (h.rows _ _).mpr ⟨f, hf, rfl, rfl⟩⟩
  refine ⟨.nil, ?_, ?_, by simp, ?_, ?_, by simp⟩
  · intro key value
    rw [hremoved.kv]
    split_ifs with hmem
    · simp
    · constructor
      · intro hsome
        obtain ⟨f, hf, rfl, _⟩ := (h.rows _ _).mp hsome
        exact absurd (hkeys f hf) hmem
      · rintro ⟨f, hf, _⟩
        cases hf
  · rw [hremoved.vectors, map_nil, filter_eq_nil_iff]
    intro row hrow hall
    rw [h.vectors] at hrow
    obtain ⟨f, hf, rfl⟩ := mem_map.mp hrow
    have hne := all_eq_true.mp hall f.key (hkeys f hf)
    have hnamed : named f.key = some f.id := by
      unfold named Fact.key
      rw [location_factKey (h.id_le hf)]
      rfl
    simp [hnamed] at hne
  · rw [hremoved.nextId]
    exact h.next
  · rw [hremoved.unknown]
    exact h.unknown

theorem rememberAll (h : Holds embedder store facts)
    (hreadable : ∀ w ∈ wanted, Readable embedder ⟨w.user, w.text, w.at_⟩)
    (hfits : store.nextId + wanted.length ≤ u64Max) :
    Holds embedder
        (wanted.foldl (fun store w => (Recall.remember embedder store w.guild w.user w.text w.at_).1)
          store)
        (facts ++ numbered store.nextId wanted) ∧
      (wanted.foldl (fun store w => (Recall.remember embedder store w.guild w.user w.text w.at_).1)
          store).nextId = store.nextId + wanted.length := by
  induction wanted generalizing store facts with
  | nil =>
    rw [numbered, append_nil]
    exact ⟨h, rfl⟩
  | cons w rest ih =>
    rw [length_cons] at hfits
    have hfirst : Holds embedder (Recall.remember embedder store w.guild w.user w.text w.at_).1
        (facts ++ [⟨store.nextId, w.guild, w.user, w.text, w.at_⟩]) :=
      h.remember (hreadable w mem_cons_self) (by omega)
    have hnext : (Recall.remember embedder store w.guild w.user w.text w.at_).1.nextId =
        store.nextId + 1 := by
      show min (store.nextId + 1) u64Max = _
      omega
    obtain ⟨hrest, hlast⟩ := ih hfirst
      (fun other hother => hreadable other (mem_cons_of_mem w hother))
      (by rw [hnext]; omega)
    rw [hnext] at hrest hlast
    rw [foldl_cons, numbered, length_cons]
    refine ⟨?_, by rw [hlast]; omega⟩
    rw [append_assoc, singleton_append] at hrest
    exact hrest

/-- A list of facts that is written gets ids from the next one on; the facts
that are there stay. -/
def reconciled (facts : List Fact) (first : Nat) (wanted : List WantedFact) : List Fact :=
  if facts.map Fact.wanted = wanted then facts else numbered first wanted

theorem wanted_reconciled (facts : List Fact) (first : Nat) (wanted : List WantedFact) :
    (reconciled facts first wanted).map Fact.wanted = wanted := by
  unfold reconciled
  split_ifs with hsame
  · exact hsame
  · exact wanted_numbered first wanted

theorem wantedOf_facts (h : Holds embedder store facts) :
    (allMemoryFacts embedder store).map wantedOf = facts.map Fact.wanted := by
  rw [h.allMemoryFacts_eq, map_map]
  rfl

theorem reconcile (h : Holds embedder store facts)
    (hreadable : ∀ w ∈ wanted, Readable embedder ⟨w.user, w.text, w.at_⟩)
    (hfits : store.nextId + wanted.length ≤ u64Max) :
    Holds embedder (reconcileMemoryFacts embedder store wanted)
        (reconciled facts store.nextId wanted) ∧
      (reconcileMemoryFacts embedder store wanted).nextId ≤ store.nextId + wanted.length := by
  unfold reconcileMemoryFacts reconciled
  rw [h.wantedOf_facts]
  by_cases hsame : facts.map Fact.wanted = wanted
  · rw [if_pos hsame, if_pos hsame]
    exact ⟨h, Nat.le_add_right _ _⟩
  · rw [if_neg hsame, if_neg hsame]
    have hnext : ((memoryKeys store).foldl removeMemoryKey store).nextId = store.nextId :=
      (removed_foldl store (memoryKeys store)).nextId
    obtain ⟨hwritten, hlast⟩ := h.cleared.rememberAll hreadable (by rw [hnext]; exact hfits)
    rw [hnext] at hwritten hlast
    exact ⟨hwritten, le_of_eq hlast⟩

/-- A second reconciliation with the same facts changes nothing. -/
theorem reconcile_again (h : Holds embedder store facts) (hsame : facts.map Fact.wanted = wanted) :
    reconcileMemoryFacts embedder store wanted = store := by
  unfold reconcileMemoryFacts
  rw [h.wantedOf_facts, if_pos hsame]

end Holds

/-! ## Saving and loading -/

/-- `save` and then `load`. -/
def reload (crates : Crates F) (store : WdbxStore F) : Option (WdbxStore F) :=
  match tryRender crates store with
  | .error _ => none
  | .ok text => (parse crates text).toOption

variable {embedder : Embedder F} {crates : Crates F}

theorem Holds.reload (h : Holds embedder store facts)
    (hfinite : ∀ text, (embedder.embed text).all crates.isFinite)
    (hreads : Reads crates store) :
    ∃ store', reload crates store = some store' ∧ Holds embedder store' facts ∧
      (facts = [] → store'.nextId = 1) ∧ (facts ≠ [] → store'.nextId ≤ store.nextId) := by
  have hids : store.ids = facts.map Fact.id := by
    unfold WdbxStore.ids
    rw [h.vectors, map_map]
    rfl
  have hvectors : ∀ row ∈ store.vectors, row.2.all crates.isFinite := by
    intro row hrow
    rw [h.vectors] at hrow
    obtain ⟨f, _, rfl⟩ := mem_map.mp hrow
    exact hfinite f.text
  obtain ⟨next, hparse⟩ := parse_storeLines
    (by rw [hids]; exact h.ids_nodup)
    (by
      rw [hids]
      intro id hid
      obtain ⟨f, hf, rfl⟩ := mem_map.mp hid
      exact h.id_le hf)
    (by rw [h.unknown]; simp) hvectors hreads
  have hrender := tryRender_eq_ok.mpr ⟨hvectors, rfl⟩
  have hsound := Sound.parse hparse
  have hlast : next = min (lastId { store with nextId := next } + 1) u64Max := hsound.next
  have hloadedIds : ({ store with nextId := next } : WdbxStore F).ids = facts.map Fact.id := hids
  have hbelow : ∀ f ∈ facts, f.id < next := by
    intro f hf
    have hle : f.id ≤ lastId { store with nextId := next } :=
      le_lastId (by rw [hloadedIds]; exact mem_map_of_mem hf)
    have hlt := h.below f hf
    have hnext := h.next
    omega
  refine ⟨{ store with nextId := next }, ?_,
    ⟨h.ascending, h.rows, h.vectors, hbelow, hsound.next_le, h.unknown, h.readable⟩, ?_, ?_⟩
  · unfold Recall.reload
    rw [hrender]
    simp only [hparse, Except.toOption]
  · rintro rfl
    have hzero : lastId ({ store with nextId := next } : WdbxStore F) = 0 := by
      unfold lastId
      rw [hloadedIds]
      rfl
    rw [hzero] at hlast
    exact hlast
  · intro hne
    rcases lastId_mem_or_zero ({ store with nextId := next } : WdbxStore F) with hmem | hzero
    · rw [hloadedIds] at hmem
      obtain ⟨f, hf, hid⟩ := mem_map.mp hmem
      have hlt := h.below f hf
      show next ≤ store.nextId
      omega
    · obtain ⟨f, hf⟩ := exists_mem_of_ne_nil facts hne
      have hlt := h.below f hf
      show next ≤ store.nextId
      omega

/-! ## Runs -/

/-- The operations of the claim on a recall. -/
inductive Op where
  | remember (guild user text : String) (at_ : Nat)
  | forget (guild : String) (id : Nat)
  | reconcile (wanted : List WantedFact)
  | reload

namespace Op

/-- The number of facts that an operation writes. -/
def adds : Op → Nat
  | .remember .. => 1
  | .reconcile wanted => wanted.length
  | _ => 0

/-- The store after an operation. -/
def onStore (crates : Crates F) (embedder : Embedder F) (store : WdbxStore F) :
    Op → Option (WdbxStore F)
  | .remember guild user text at_ => some (Recall.remember embedder store guild user text at_).1
  | .forget guild id => some (Recall.forget store guild id).1
  | .reconcile wanted => some (reconcileMemoryFacts embedder store wanted)
  | .reload => Recall.reload crates store

/-- The same operation on the facts, where the next fact gets the id
`next`. -/
def onFacts (next : Nat) (facts : List Fact) : Op → List Fact
  | .remember guild user text at_ => facts ++ [⟨next, guild, user, text, at_⟩]
  | .forget guild id => Holds.without facts guild id
  | .reconcile wanted => Holds.reconciled facts next wanted
  | .reload => facts

end Op

/-- A store beside the facts that were remembered and not forgotten, and the
number of facts ever written. -/
structure Recalled (F : Type) where
  store : WdbxStore F
  facts : List Fact
  added : Nat

def Recalled.new : Recalled F := ⟨.new, [], 0⟩

def recallStep (crates : Crates F) (embedder : Embedder F) (s : Recalled F) (op : Op) :
    Option (Recalled F) :=
  (op.onStore crates embedder s.store).map
    (fun store => ⟨store, op.onFacts s.store.nextId s.facts, s.added + op.adds⟩)

/-- The records that an operation writes and the file that it reads are read
back by `serde_json`, an id is a `u64`, and fewer than 2^63 facts are
written. -/
structure Exact (crates : Crates F) (embedder : Embedder F) (s : Recalled F) (op : Op) : Prop where
  records : match op with
    | .remember _ user text at_ => Readable embedder ⟨user, text, at_⟩
    | .reconcile wanted => ∀ w ∈ wanted, Readable embedder ⟨w.user, w.text, w.at_⟩
    | .forget _ id => id ≤ u64Max
    | .reload => Reads crates s.store
  few : s.added + op.adds < 2 ^ 63

/-- The store is the projection of the facts, and its next id is small. -/
structure Inv (embedder : Embedder F) (s : Recalled F) : Prop where
  holds : Holds embedder s.store s.facts
  next : s.store.nextId ≤ s.added + 1
  few : s.added < 2 ^ 63

section Runs

variable {crates : Crates F} {embedder : Embedder F} {s t : Recalled F}
  (hfinite : ∀ text, (embedder.embed text).all crates.isFinite = true)

theorem Inv.new : Inv embedder (Recalled.new : Recalled F) :=
  ⟨Holds.new, Nat.le_refl 1, Nat.two_pow_pos 63⟩

theorem Inv.fits (h : Inv embedder s) (hfew : s.added + n < 2 ^ 63) :
    s.store.nextId + n < u64Max := by
  have hnext := h.next
  have hmax : u64Max = 2 ^ 64 - 1 := rfl
  omega

include hfinite

/-- Every operation keeps the projection. -/
theorem Inv.step (h : Inv embedder s) {op : Op} (hexact : Exact crates embedder s op)
    (hstep : recallStep crates embedder s op = some t) : Inv embedder t := by
  obtain ⟨hrecords, hfew⟩ := hexact
  have hnext := h.next
  have hfits := h.fits hfew
  unfold recallStep at hstep
  rw [Option.map_eq_some_iff] at hstep
  obtain ⟨store, hstore, rfl⟩ := hstep
  refine ⟨?_, ?_, hfew⟩
  · cases op with
    | remember guild user text at_ =>
      cases hstore
      exact h.holds.remember hrecords (by omega)
    | forget guild id =>
      cases hstore
      exact h.holds.forget hrecords
    | reconcile wanted =>
      cases hstore
      exact (h.holds.reconcile hrecords (Nat.le_of_lt hfits)).1
    | reload =>
      obtain ⟨store', hreload, hloaded, _⟩ := h.holds.reload hfinite hrecords
      cases hreload.symm.trans hstore
      exact hloaded
  · cases op with
    | remember guild user text at_ =>
      cases hstore
      show min (s.store.nextId + 1) u64Max ≤ s.added + 1 + 1
      omega
    | forget guild id =>
      cases hstore
      have hsame : (forget s.store guild id).1.nextId = s.store.nextId := by
        unfold forget removeKv
        cases s.store.kv[factKey guild id]? with
        | none => rfl
        | some value => rfl
      show (forget s.store guild id).1.nextId ≤ s.added + 0 + 1
      omega
    | reconcile wanted =>
      cases hstore
      have hle := (h.holds.reconcile hrecords (Nat.le_of_lt hfits)).2
      show (reconcileMemoryFacts embedder s.store wanted).nextId ≤ s.added + wanted.length + 1
      omega
    | reload =>
      obtain ⟨store', hreload, _, hempty, hfull⟩ := h.holds.reload hfinite hrecords
      cases hreload.symm.trans hstore
      show store.nextId ≤ s.added + 0 + 1
      by_cases hfacts : s.facts = []
      · have hone := hempty hfacts
        omega
      · have hle := hfull hfacts
        omega

/-- What a recall answers, against the facts that were remembered and not
forgotten. -/
structure Answers (crates : Crates F) (embedder : Embedder F) (s : Recalled F) : Prop where
  ascending : s.facts.Pairwise (fun a b => a.id < b.id)
  listed : ∀ guild user, factsForUser embedder s.store guild user =
    (own s.facts guild user).map (fun f => f.recalled embedder.one)
  recalled : ∀ guild user query k,
    (recallForUser embedder s.store guild user query k).length =
        min k (own s.facts guild user).length ∧
      ((recallForUser embedder s.store guild user query k).map RecalledFact.id).Nodup ∧
      ∀ hit ∈ recallForUser embedder s.store guild user query k,
        ∃ f ∈ own s.facts guild user, hit = f.recalled hit.score
  forgotten : ∀ guild id, id ≤ u64Max →
    ((forget s.store guild id).2 = true ↔ ∃ f ∈ s.facts, f.guild = guild ∧ f.id = id) ∧
      ((forget s.store guild id).2 = false → (forget s.store guild id).1 = s.store) ∧
      ∀ other user, factsForUser embedder (forget s.store guild id).1 other user =
        (own (Holds.without s.facts guild id) other user).map (fun f => f.recalled embedder.one)
  reconciled : ∀ wanted : List WantedFact, s.added + wanted.length < 2 ^ 63 →
    (∀ w ∈ wanted, Readable embedder ⟨w.user, w.text, w.at_⟩) →
    (allMemoryFacts embedder (reconcileMemoryFacts embedder s.store wanted)).map wantedOf = wanted ∧
      reconcileMemoryFacts embedder (reconcileMemoryFacts embedder s.store wanted) wanted =
        reconcileMemoryFacts embedder s.store wanted
  oneVector : s.store.vectors = s.facts.map (fun f => (f.id, embedder.embed f.text))
  saved : Reads crates s.store → ∃ store, reload crates s.store = some store ∧
    store.kv = s.store.kv ∧ store.vectors = s.store.vectors

theorem Inv.answersExactly (h : Inv embedder s) : Answers crates embedder s where
  ascending := h.holds.ascending
  listed := h.holds.factsForUser_eq
  recalled := h.holds.recallForUser_spec
  forgotten guild id hid :=
    ⟨(h.holds.forget_spec hid).1, (h.holds.forget_spec hid).2, (h.holds.forget hid).factsForUser_eq⟩
  reconciled wanted hfew hreadable := by
    have hholds := (h.holds.reconcile hreadable (Nat.le_of_lt (h.fits hfew))).1
    have hsame := Holds.wanted_reconciled s.facts s.store.nextId wanted
    exact ⟨by rw [hholds.wantedOf_facts, hsame], hholds.reconcile_again hsame⟩
  oneVector := h.holds.vectors
  saved hreads := by
    obtain ⟨store, hreload, hloaded, _⟩ := h.holds.reload hfinite hreads
    refine ⟨store, hreload, ?_, by rw [hloaded.vectors, h.holds.vectors]⟩
    apply Std.ExtTreeMap.ext_getElem?
    intro key
    apply Option.ext
    intro value
    rw [hloaded.rows, h.holds.rows]

end Runs

/-! ## Any store -/

/-- What a reconciliation leaves alone in any store, also in a file of
another program: the rows without the prefix, the vectors that no row of the
projection names, and the unknown records. -/
structure Untouched (store store' : WdbxStore F) : Prop where
  kv : ∀ key : String, memPrefix.toList.isPrefixOf key.toList = false → store'.kv[key]? = store.kv[key]?
  vectors : (store.vectors.filter (fun row =>
    (memoryKeys store).all (fun key => named key ≠ some row.1))).Sublist store'.vectors
  unknown : store'.unknown = store.unknown

theorem Untouched.remember (h : Untouched store store') (guild user text : String) (at_ : Nat) :
    Untouched store (remember embedder store' guild user text at_).1 := by
  refine ⟨?_, h.vectors.trans (sublist_append_left _ _), h.unknown⟩
  intro key hkey
  show (store'.kv.insert (factKey guild store'.nextId)
    (embedder.factText ⟨user, text, at_⟩))[key]? = _
  rw [Std.ExtTreeMap.getElem?_insert]
  simp only [compare_eq_iff_eq]
  rw [if_neg, h.kv key hkey]
  rintro rfl
  rw [memPrefix_factKey] at hkey
  cases hkey

theorem untouched_reconcile (embedder : Embedder F) (store : WdbxStore F)
    (wanted : List WantedFact) :
    Untouched store (reconcileMemoryFacts embedder store wanted) := by
  unfold reconcileMemoryFacts
  split_ifs with hsame
  · exact ⟨fun _ _ => rfl, filter_sublist, rfl⟩
  · clear hsame
    have hremoved := removed_foldl store (memoryKeys store)
    have hcleared : Untouched store ((memoryKeys store).foldl removeMemoryKey store) := by
      refine ⟨?_, by rw [hremoved.vectors], hremoved.unknown⟩
      intro key hkey
      rw [hremoved.kv, if_neg]
      intro hmem
      rw [(mem_memoryKeys.mp hmem).1] at hkey
      cases hkey
    show Untouched store (wanted.foldl _ ((memoryKeys store).foldl removeMemoryKey store))
    generalize (memoryKeys store).foldl removeMemoryKey store = cleared at hcleared
    induction wanted generalizing cleared with
    | nil => exact hcleared
    | cons w rest ih => exact ih _ (hcleared.remember w.guild w.user w.text w.at_)

/-- After any run from an empty recall the store answers as the facts do,
and a reconciliation leaves alone what is not of the projection. -/
theorem recall_refines {crates : Crates F} {embedder : Embedder F} {s : Recalled F}
    (hfinite : ∀ text, (embedder.embed text).all crates.isFinite = true)
    (h : Steps (recallStep crates embedder) (Exact crates embedder) .new s) :
    Answers crates embedder s ∧ ∀ (store : WdbxStore F) (wanted : List WantedFact),
      Untouched store (reconcileMemoryFacts embedder store wanted) := by
  have hinv : Inv embedder s :=
    h.invariant (fun _ _ _ hs hexact hstep => hs.step hfinite hexact hstep) Inv.new
  exact ⟨hinv.answersExactly hfinite, untouched_reconcile embedder⟩

/-! ## Two guilds whose names share a colon -/

/-- The records of the sample run. -/
def sampleRecords : List FactRecord :=
  [⟨"ann", "likes tea", 1⟩, ⟨"ann", "likes rain", 2⟩, ⟨"bob:1", "likes rust", 3⟩]

def sampleFactText (r : FactRecord) : String :=
  String.ofList (Value.object [("user", .string r.user), ("text", .string r.text),
    ("at", .number (.posInt r.at_))]).print

/-- An embedding that tells two texts apart, and records that are looked up by
their text. -/
def sampleEmbedder : Embedder String where
  embed text := if text = "likes rust" then ["1.0", "0.0"] else ["0.0", "1.0"]
  cosine a b := if a = b then "1.0" else "0.0"
  greater a b := a = "1.0" ∧ b = "0.0"
  zero := "0.0"
  one := "1.0"
  factText := sampleFactText
  readFact text := sampleRecords.find? (fun r => sampleFactText r = text)

/-- The lines of the sample files. -/
def sampleLines : List (List Char × Value) :=
  [(kvLine "mem:g:1:2" (sampleFactText ⟨"ann", "likes rain", 2⟩),
      .object [("key", .string "mem:g:1:2"), ("type", .string "kv"),
        ("value", .string (sampleFactText ⟨"ann", "likes rain", 2⟩))]),
    (kvLine "mem:g:3" (sampleFactText ⟨"bob:1", "likes rust", 3⟩),
      .object [("key", .string "mem:g:3"), ("type", .string "kv"),
        ("value", .string (sampleFactText ⟨"bob:1", "likes rust", 3⟩))]),
    ("\x7b\"type\":\"vector\",\"id\":2,\"values\":[0.0,1.0]\x7d".toList,
      .object [("id", .number (.posInt 2)), ("type", .string "vector"),
        ("values", .array [.number (.other "0.0"), .number (.other "1.0")])]),
    ("\x7b\"type\":\"vector\",\"id\":3,\"values\":[1.0,0.0]\x7d".toList,
      .object [("id", .number (.posInt 3)), ("type", .string "vector"),
        ("values", .array [.number (.other "1.0"), .number (.other "0.0")])])]

def recallCrates : Crates String :=
  { sampleCrates with
    parse := fun line => match sampleLines.find? (fun entry => entry.1 = line) with
      | some entry => .ok entry.2
      | none => .error "expected value" }

instance [DecidableEq F] (crates : Crates F) (store : WdbxStore F) :
    Decidable (Reads crates store) :=
  decidable_of_iff (_ ∧ _ ∧ _) ⟨fun h => ⟨h.1, h.2.1, h.2.2⟩, fun h => ⟨h.kv, h.vector, h.number⟩⟩

instance (embedder : Embedder F) (r : FactRecord) : Decidable (Readable embedder r) :=
  inferInstanceAs (Decidable (_ = _))

def checkExact [DecidableEq F] (crates : Crates F) (embedder : Embedder F) (s : Recalled F)
    (op : Op) : Bool :=
  decide (s.added + op.adds < 2 ^ 63) && match op with
    | .remember _ user text at_ => decide (Readable embedder ⟨user, text, at_⟩)
    | .reconcile wanted => decide (∀ w ∈ wanted, Readable embedder ⟨w.user, w.text, w.at_⟩)
    | .forget _ id => decide (id ≤ u64Max)
    | .reload => decide (Reads crates s.store)

theorem exact_of_check [DecidableEq F]
    (s : Recalled F) (op : Op) (h : checkExact crates embedder s op) :
    Exact crates embedder s op := by
  unfold checkExact at h
  rw [Bool.and_eq_true, decide_eq_true_eq] at h
  obtain ⟨hfew, hrecords⟩ := h
  refine ⟨?_, hfew⟩
  cases op with
  | remember guild user text at_ | forget guild id | reconcile wanted | reload =>
    exact of_decide_eq_true hrecords

/-- Facts of the guilds `g` and `g:1`, one of them forgotten, and a file
between. -/
def sampleOps : List Op :=
  [.remember "g" "ann" "likes tea" 1, .remember "g:1" "ann" "likes rain" 2, .forget "g:1" 1,
    .forget "g" 1, .reload, .remember "g" "bob:1" "likes rust" 3, .reload]

theorem recall_refines_sample : ∃ s : Recalled String,
    s.facts = [⟨2, "g:1", "ann", "likes rain", 2⟩, ⟨3, "g", "bob:1", "likes rust", 3⟩] ∧
    Answers recallCrates sampleEmbedder s ∧ ∀ (store : WdbxStore String) (wanted : List WantedFact),
      Untouched store (reconcileMemoryFacts sampleEmbedder store wanted) := by
  have hruns : (run (fun s op => if checkExact recallCrates sampleEmbedder s op then
      recallStep recallCrates sampleEmbedder s op else none) .new sampleOps).any (fun s =>
        s.facts = [⟨2, "g:1", "ann", "likes rain", 2⟩, ⟨3, "g", "bob:1", "likes rust", 3⟩]) =
          true := by
    decide +kernel
  obtain ⟨s, hs, hfacts⟩ := (Option.any_eq_true _ _).mp hruns
  have hfinite : ∀ text, (sampleEmbedder.embed text).all recallCrates.isFinite = true := by
    intro text
    show (if text = "likes rust" then ["1.0", "0.0"] else ["0.0", "1.0"]).all _ = true
    split_ifs <;> decide
  exact ⟨s, of_decide_eq_true hfacts, recall_refines hfinite (steps_of_checked_run exact_of_check hs)⟩

end Abbey.Recall
