import Abbey.Recall.Keys
import Abbey.Recall.RoundTrip

/-!
# The facts that a store holds

`Holds store facts` says that a store is the projection of a list of facts:
a row of the map and a vector for each, and nothing else.  The facts are in
the order of their ids.  From it each query of the source is read off the
list: `guildIds_eq`, `factsForUser_eq`, `allMemoryFacts_eq` and
`recallForUser_spec`.
-/

namespace Abbey.Recall

open Abbey.Lib List
open WdbxStore

variable {F : Type}

/-- One remembered fact. -/
structure Fact where
  id : Nat
  guild : String
  user : String
  text : String
  at_ : Nat
  deriving DecidableEq

namespace Fact

def key (f : Fact) : String := factKey f.guild f.id

def record (f : Fact) : FactRecord := ⟨f.user, f.text, f.at_⟩

def wanted (f : Fact) : WantedFact := ⟨f.guild, f.user, f.text, f.at_⟩

def recalled (f : Fact) (score : F) : RecalledFact F := ⟨f.id, f.user, f.text, f.at_, score⟩

end Fact

/-- `serde_json` reads a record back from its text. -/
def Readable (embedder : Embedder F) (record : FactRecord) : Prop :=
  embedder.readFact (embedder.factText record) = some record

/-- A store of some facts and nothing else. -/
structure Holds (embedder : Embedder F) (store : WdbxStore F) (facts : List Fact) : Prop where
  ascending : facts.Pairwise (fun a b => a.id < b.id)
  rows : ∀ key value, store.kv[key]? = some value ↔
    ∃ f ∈ facts, key = f.key ∧ value = embedder.factText f.record
  vectors : store.vectors = facts.map (fun f => (f.id, embedder.embed f.text))
  below : ∀ f ∈ facts, f.id < store.nextId
  next : store.nextId ≤ u64Max
  unknown : store.unknown = []
  readable : ∀ f ∈ facts, Readable embedder f.record

namespace Holds

variable {embedder : Embedder F} {store : WdbxStore F} {facts : List Fact}

variable (h : Holds embedder store facts) {f : Fact}

include h

theorem id_le (hf : f ∈ facts) : f.id ≤ u64Max := by
  have hbelow := h.below f hf
  have hnext := h.next
  omega

theorem ids_nodup : (facts.map Fact.id).Nodup :=
  pairwise_map.mpr (h.ascending.imp (fun hlt => Nat.ne_of_lt hlt))

theorem eq_of_id (hf : f ∈ facts) (hg : g ∈ facts) (hid : f.id = g.id) : f = g :=
  inj_on_of_nodup_map h.ids_nodup hf hg hid

/-- The rows of the map are the facts, in another order. -/
theorem rows_perm :
    store.kv.toList.Perm (facts.map (fun f => (f.key, embedder.factText f.record))) := by
  have hnodup : (facts.map (fun f => (f.key, embedder.factText f.record))).Nodup := by
    apply List.Nodup.map_on _ h.ids_nodup.of_map
    intro f hf g hg heq
    rw [Prod.mk.injEq] at heq
    exact h.eq_of_id hf hg (factKey_inj (h.id_le hf) (h.id_le hg) heq.1).2
  rw [perm_ext_iff_of_nodup (toList_nodup store.kv) hnodup]
  rintro ⟨key, value⟩
  rw [Std.ExtTreeMap.mem_toList_iff_getElem?_eq_some, h.rows, mem_map]
  constructor
  · rintro ⟨f, hf, rfl, rfl⟩
    exact ⟨f, hf, rfl⟩
  · rintro ⟨f, hf, heq⟩
    rw [Prod.mk.injEq] at heq
    exact ⟨f, hf, heq.1.symm, heq.2.symm⟩

/-- What a scan with a prefix makes of the rows. -/
theorem scan_perm {β : Type} (start : String) (read : List Char → Option β) :
    ((store.kvWithPrefix start).filterMap (fun row => read row.1.toList)).Perm
      (facts.filterMap (fun f =>
        if start.toList.isPrefixOf f.key.toList then read f.key.toList else none)) := by
  rw [kvWithPrefix_eq_filter, filterMap_filter]
  have hperm := h.rows_perm.filterMap (fun row =>
    if start.toList.isPrefixOf row.1.toList then read row.1.toList else none)
  rw [filterMap_map] at hperm
  exact hperm

/-! ## Ids and places -/

/-- The facts of a guild. -/
theorem guildIds_eq (guild : String) :
    guildIds store guild = (facts.filter (fun f => f.guild = guild)).map Fact.id := by
  have hperm := h.scan_perm (factKeyPrefix guild)
    (fun key => parseU64 (key.drop (factKeyPrefix guild).length))
  have hread : facts.filterMap (fun f =>
      if (factKeyPrefix guild).toList.isPrefixOf f.key.toList then
        parseU64 (f.key.toList.drop (factKeyPrefix guild).length) else none) =
      (facts.filter (fun f => f.guild = guild)).map Fact.id := by
    rw [← filterMap_eq_map, filterMap_filter]
    apply filterMap_congr
    intro f hf
    rw [Fact.key, parse_suffix (h.id_le hf)]
    simp only [decide_eq_true_eq, Function.comp_apply]
  rw [hread] at hperm
  refine sorted_of_perm id hperm ?_
  rw [pairwise_map]
  exact h.ascending.sublist filter_sublist

theorem locations_eq : ((((store.kvWithPrefix memPrefix).filterMap
      (fun row => location (row.1.toList.drop memPrefix.length))).insertionSort
        (fun a b => a.1 ≤ b.1)).destutter (· ≠ ·)) = facts.map (fun f => (f.id, f.guild)) := by
  have hperm := h.scan_perm memPrefix (fun key => location (key.drop memPrefix.length))
  have hread : facts.filterMap (fun f =>
      if memPrefix.toList.isPrefixOf f.key.toList then
        location (f.key.toList.drop memPrefix.length) else none) =
      facts.map (fun f => (f.id, f.guild)) := by
    rw [← filterMap_eq_map]
    apply filterMap_congr
    intro f hf
    rw [Fact.key, if_pos (memPrefix_factKey _ _), location_factKey (h.id_le hf)]
    rfl
  rw [hread] at hperm
  refine sorted_of_perm Prod.fst hperm ?_
  rw [pairwise_map]
  exact h.ascending

/-! ## Single facts -/

theorem getKv_key (hf : f ∈ facts) :
    store.getKv (factKey f.guild f.id) = some (embedder.factText f.record) :=
  (h.rows _ _).mpr ⟨f, hf, rfl, rfl⟩

theorem fact_eq (hf : f ∈ facts) (score : F) :
    fact embedder store f.guild f.id score = some (f.recalled score) := by
  unfold fact
  rw [h.getKv_key hf]
  simp only [Option.bind_eq_bind, Option.bind_some]
  rw [h.readable f hf]
  rfl

/-- A row under the key of a guild and an id is a fact of that guild. -/
theorem getKv_eq_some {id : Nat} (hid : id ≤ u64Max)
    (hvalue : store.getKv (factKey guild id) = some value) :
    ∃ f ∈ facts, f.guild = guild ∧ f.id = id := by
  obtain ⟨f, hf, hkey, _⟩ := (h.rows _ _).mp hvalue
  obtain ⟨hguild, hid'⟩ := factKey_inj hid (h.id_le hf) hkey
  exact ⟨f, hf, hguild.symm, hid'.symm⟩

theorem allMemoryFacts_eq :
    allMemoryFacts embedder store = facts.map (fun f => (f.guild, f.recalled embedder.one)) := by
  unfold allMemoryFacts
  dsimp only
  rw [h.locations_eq, filterMap_map, ← filterMap_eq_map]
  apply filterMap_congr
  intro f hf
  simp only [Function.comp_apply]
  rw [h.fact_eq hf]
  rfl

omit h

/-! ## The facts of a member -/

end Holds

/-- The facts of a member of a guild. -/
def own (facts : List Fact) (guild user : String) : List Fact :=
  facts.filter (fun f => f.guild = guild ∧ f.user = user)

theorem mem_own : f ∈ own facts guild user ↔ f ∈ facts ∧ f.guild = guild ∧ f.user = user := by
  simp [own]

namespace Holds

variable {embedder : Embedder F} {store : WdbxStore F} {facts : List Fact}

section

variable (h : Holds embedder store facts)

include h

theorem filterMap_fact (guild : String) (score : F) :
    (guildIds store guild).filterMap (fun id => fact embedder store guild id score) =
      (facts.filter (fun f => f.guild = guild)).map (fun f => f.recalled score) := by
  rw [h.guildIds_eq, filterMap_map, ← filterMap_eq_map]
  apply filterMap_congr
  intro f hf
  obtain ⟨hmem, hguild⟩ := mem_filter.mp hf
  rw [decide_eq_true_eq] at hguild
  simp only [Function.comp_apply]
  rw [← hguild, h.fact_eq hmem]

theorem factsForUser_eq (guild user : String) : factsForUser embedder store guild user =
      (own facts guild user).map (fun f => f.recalled embedder.one) := by
  unfold factsForUser own
  rw [h.filterMap_fact, filter_map, filter_filter]
  apply congrArg (map _)
  apply filter_congr
  intro f _
  simp [Fact.recalled, Bool.and_comm]

theorem ownIds_eq (guild user : String) : (guildIds store guild).filter
      (fun id => (fact embedder store guild id embedder.zero).any (fun f => f.user = user)) =
      (own facts guild user).map Fact.id := by
  rw [h.guildIds_eq, filter_map, filter_filter]
  apply congrArg (map _)
  apply filter_congr
  intro f hf
  by_cases hguild : f.guild = guild
  · simp only [Function.comp_apply, ← hguild, h.fact_eq hf, Option.any_some, Fact.recalled]
    simp
  · simp [hguild]

/-- A search among the facts of a member scores each of them once. -/
theorem scored_eq (guild user : String) (query : List F) :
    (store.vectors.filter (fun row => decide (row.1 ∈ (own facts guild user).map Fact.id))).map
      (fun row => (row.1, embedder.cosine query row.2)) =
      (own facts guild user).map
        (fun f => (f.id, embedder.cosine query (embedder.embed f.text))) := by
  rw [h.vectors, filter_map, map_map]
  apply congrArg (map _)
  apply filter_congr
  intro f hf
  have hmem : f.id ∈ (own facts guild user).map Fact.id ↔ f.guild = guild ∧ f.user = user := by
    rw [mem_map]
    constructor
    · rintro ⟨g, hg, hid⟩
      have heq := h.eq_of_id (mem_own.mp hg).1 hf hid
      rw [← heq]
      exact (mem_own.mp hg).2
    · intro hown
      exact ⟨f, mem_own.mpr ⟨hf, hown⟩, rfl⟩
  simp only [Function.comp_apply]
  exact decide_eq_decide.mpr hmem

/-- What `recall_for_user` answers: as many facts of the member as there
are, at most `k`, each once. -/
theorem recallForUser_spec (guild user query : String) (k : Nat) :
    (recallForUser embedder store guild user query k).length = min k (own facts guild user).length ∧
      ((recallForUser embedder store guild user query k).map RecalledFact.id).Nodup ∧
      ∀ hit ∈ recallForUser embedder store guild user query k,
        ∃ f ∈ own facts guild user, hit = f.recalled hit.score := by
  unfold recallForUser search
  simp only
  rw [h.ownIds_eq, h.scored_eq]
  generalize hhits : take k _ = hits
  have hperm := perm_insertionSort (fun a b => ranks embedder a b = true)
    ((own facts guild user).map
      (fun f => (f.id, embedder.cosine (embedder.embed query) (embedder.embed f.text))))
  have hhit : ∀ hit ∈ hits, ∃ f ∈ own facts guild user, hit.1 = f.id ∧
      fact embedder store guild hit.1 hit.2 = some (f.recalled hit.2) := by
    intro hit hmem
    rw [← hhits] at hmem
    obtain ⟨f, hf, rfl⟩ := mem_map.mp (hperm.mem_iff.mp (mem_of_mem_take hmem))
    obtain ⟨hfacts, hguild, _⟩ := mem_own.mp hf
    refine ⟨f, hf, rfl, ?_⟩
    rw [← hguild]
    exact h.fact_eq hfacts _
  have hids : (hits.filterMap (fun hit => fact embedder store guild hit.1 hit.2)).map
      RecalledFact.id = hits.map Prod.fst := by
    rw [map_filterMap, ← filterMap_eq_map]
    apply filterMap_congr
    intro hit hmem
    obtain ⟨f, _, hid, hfact⟩ := hhit hit hmem
    rw [hfact, Option.map_some, Function.comp_apply, hid]
    rfl
  refine ⟨?_, ?_, ?_⟩
  · have hlength := congrArg length hids
    rw [length_map, length_map] at hlength
    rw [hlength, ← hhits, length_take, hperm.length_eq, length_map]
  · rw [hids, ← hhits]
    have hnodup : ((own facts guild user).map Fact.id).Nodup :=
      h.ids_nodup.sublist (filter_sublist.map Fact.id)
    have hsorted := (hperm.map Prod.fst).nodup_iff.mpr (by
      rw [map_map]
      exact hnodup)
    exact hsorted.sublist ((take_sublist k _).map Prod.fst)
  · intro hit hmem
    obtain ⟨row, hrow, hfact⟩ := mem_filterMap.mp hmem
    obtain ⟨f, hf, _, hsome⟩ := hhit row hrow
    rw [hsome, Option.some.injEq] at hfact
    refine ⟨f, hf, ?_⟩
    rw [← hfact]
    rfl

end

end Holds

end Abbey.Recall
