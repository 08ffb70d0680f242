import Abbey.Memory.Agreement
import Abbey.Memory.Search

/-!
# Interchangeable backends

After the same admitted writes the two backends answer every read alike,
but for keyword searches: those agree for exactly the queries without a
wildcard of `LIKE`.
-/

namespace Abbey.Memory

open Abbey.Lib SqliteMemory Conversation List Except

variable {query : String}

/-- The stores after the same sequence of admitted writes. -/
inductive Together (parseRfc3339 : String → Option Int) (space : EmbeddingSpace) :
    SqliteMemory → WdbxMemory → Prop
  | empty : Together parseRfc3339 space (sqlite parseRfc3339).empty (wdbx parseRfc3339).empty
  | write {s : SqliteMemory} {w : WdbxMemory} {op : Op} (before : Together parseRfc3339 space s w)
      (admitted : Admits space s op) :
      Together parseRfc3339 space ((sqlite parseRfc3339).after op s) ((wdbx parseRfc3339).after op w)

/-- Every read but the keyword searches. -/
structure SameReads (parseRfc3339 : String → Option Int) (spaceId : String) (s : SqliteMemory)
    (w : WdbxMemory) : Prop where
  get : ∀ id, (wdbx parseRfc3339).get w id = (sqlite parseRfc3339).get s id
  filterWith : ∀ filter limit, (wdbx parseRfc3339).filterWith w filter limit =
    (sqlite parseRfc3339).filterWith s filter limit
  allRecordsIncludingObsolete : (wdbx parseRfc3339).allRecordsIncludingObsolete w =
    (sqlite parseRfc3339).allRecordsIncludingObsolete s
  embeddingCandidates : ∀ limit, (wdbx parseRfc3339).embeddingCandidates w spaceId limit =
    (sqlite parseRfc3339).embeddingCandidates s spaceId limit
  embeddingStatus : (wdbx parseRfc3339).embeddingStatus w spaceId =
    (sqlite parseRfc3339).embeddingStatus s spaceId
  embeddingIsCurrent : ∀ id, (wdbx parseRfc3339).embeddingIsCurrent w id spaceId =
    (sqlite parseRfc3339).embeddingIsCurrent s id spaceId

structure SameSearches (parseRfc3339 : String → Option Int) (query : String) (s : SqliteMemory)
    (w : WdbxMemory) : Prop where
  searchKeyword : ∀ limit, (wdbx parseRfc3339).searchKeyword w query limit =
    (sqlite parseRfc3339).searchKeyword s query limit
  searchKeywordWith : ∀ filter limit, (wdbx parseRfc3339).searchKeywordWith w query filter limit =
    (sqlite parseRfc3339).searchKeywordWith s query filter limit

/-! ## The space -/

theorem hexByte_isAlphanum (hc : c ∈ hexByte byte) : c.isAlphanum := by
  have hdigit : ∀ n, n < 16 → (Nat.digitChar n).isAlphanum := by decide
  have hlt := byte.toNat_lt
  unfold hexByte at hc
  rcases mem_cons.mp hc with rfl | hc
  · exact hdigit _ (by omega)
  · rw [mem_singleton.mp hc]
    exact hdigit _ (by omega)

variable {space : EmbeddingSpace}

/-- The id of a valid space names a directory. -/
theorem spaceDir_of_new (h : EmbeddingSpace.new provider model revision dimension = .ok space) :
    WdbxMemory.spaceDir space.spaceId = .ok () := by
  have hhex : ∀ n, ∀ c ∈ hex16 n, c.isAlphanum := by
    intro n c hc
    obtain ⟨_, _, hbyte⟩ := mem_flatMap.mp hc
    exact hexByte_isAlphanum hbyte
  simp only [EmbeddingSpace.new, bind_ok_iff] at h
  obtain ⟨_, _, _, _, heq⟩ := h
  cases heq
  refine ensure_eq_ok.mpr ?_
  rw [Bool.and_eq_true]
  constructor
  · refine decide_eq_true (fun hempty => ?_)
    have hlist := congrArg String.toList hempty
    rw [String.toList_append] at hlist
    exact absurd (append_eq_nil_iff.mp hlist).1 (by decide)
  · rw [String.toList_append, all_append, Bool.and_eq_true]
    refine ⟨by decide, ?_⟩
    unfold stableDigest
    rw [String.toList_ofList, all_eq_true]
    intro c hc
    have halnum : c.isAlphanum := by
      rcases mem_append.mp hc with hc | hc <;> exact hhex _ c hc
    rw [halnum]
    rfl

/-! ## The reads -/

section Reads

variable {space : EmbeddingSpace} {s : SqliteMemory} {w : WdbxMemory}
  {parseRfc3339 : String → Option Int}

theorem Agree.distinctTimes (h : Agree space s w) : SqliteMemory.DistinctTimes s.memory.rows := by
  intro r hr r' hr' heq
  have hfind : s.find r.id = some r := Table.mem_rows_iff_find.mp hr
  have hfind' : s.find r'.id = some r' := Table.mem_rows_iff_find.mp hr'
  exact Table.eq_of_mem_of_pk_eq hr hr' (h.times _ _ _ _ hfind hfind' heq)

theorem Agree.scan (h : Agree space s w) : w.scan = newestFirst s.memory.rows := by
  have hperm : w.kv.rows.Perm s.memory.rows := Table.rows_perm_of_find_eq h.find
  have hread : (w.kv.rows.mergeSort (fun a b => decide (a.id ≤ b.id))).filterMap
      (fun raw => (fromJson raw).toOption) =
        w.kv.rows.mergeSort (fun a b => decide (a.id ≤ b.id)) := by
    refine (filterMap_congr (fun raw hraw => ?_)).trans filterMap_some
    have hmem := hperm.mem_iff.mp ((mergeSort_perm _ _).mem_iff.mp hraw)
    have hfinite := h.finite raw.id raw (Table.mem_rows_iff_find.mp hmem)
    simp [fromJson, hfinite, Except.toOption]
  have hscan : (newestFirst (w.kv.rows.mergeSort (fun a b => decide (a.id ≤ b.id)))).Perm
      s.memory.rows :=
    (newestFirst_perm _).trans ((mergeSort_perm _ _).trans hperm)
  unfold WdbxMemory.scan
  rw [hread]
  exact (newestFirst_eq h.distinctTimes hscan
    (newestFirst_pairwise _)).symm

theorem Agree.live (h : Agree space s w) : w.scan.filter (fun r => !r.obsolete) =
    newestFirst (s.memory.rows.filter (fun r => !r.obsolete)) := by
  rw [h.scan, newestFirst_filter h.distinctTimes]

theorem count_comm (status : EmbeddingStatus) (r r' : MemoryRecord) (stored stored' : Option String) :
    (status.count r stored).count r' stored' = (status.count r' stored').count r stored := by
  unfold EmbeddingStatus.count
  cases stored with
  | none =>
    cases stored' with
    | none => rfl
    | some hash' => dsimp only; split_ifs <;> rfl
  | some hash =>
    cases stored' with
    | none | some hash' => dsimp only; split_ifs <;> rfl

theorem Agree.openSpace (hdir : WdbxMemory.spaceDir space.spaceId = .ok ()) :
    w.openSpace space.spaceId = .ok (w.spaces.find space.spaceId) := by
  unfold WdbxMemory.openSpace
  rw [hdir, ok_bind]

theorem Agree.sameReads (h : Agree space s w) (hdir : WdbxMemory.spaceDir space.spaceId = .ok ()) :
    SameReads parseRfc3339 space.spaceId s w where
  get := h.get
  filterWith filter limit := by
    refine Eq.trans ?_ take_collect.symm
    show ok _ = _
    rw [h.live]
  allRecordsIncludingObsolete := by
    show ok _ = ok _
    rw [h.scan, oldestFirst_eq_of_perm h.distinctTimes (newestFirst_perm _)]
  embeddingCandidates limit := by
    refine Eq.trans ?_ take_collect.symm
    show WdbxMemory.embeddingCandidates w space.spaceId limit = _
    unfold WdbxMemory.embeddingCandidates
    split_ifs with hlimit
    · rw [hlimit, take_zero]
    · rw [Agree.openSpace hdir, ok_bind, h.live]
      congr 2
      refine filter_congr (fun r _ => ?_)
      rw [← h.hashes r.id]
      cases WdbxMemory.mapping (w.spaces.find space.spaceId) r.id <;> simp [isNoneOr]
  embeddingStatus := by
    show WdbxMemory.embeddingStatus w space.spaceId = embeddingStatus s space.spaceId
    unfold WdbxMemory.embeddingStatus embeddingStatus
    rw [Agree.openSpace hdir, ok_bind, h.live]
    simp only [h.hashes]
    refine congrArg ok ((newestFirst_perm _).foldl_eq' ?_ _)
    exact fun r _ r' _ status => count_comm status _ _ _ _
  embeddingIsCurrent id := by
    show WdbxMemory.embeddingIsCurrent w id space.spaceId = embeddingIsCurrent s id space.spaceId
    unfold WdbxMemory.embeddingIsCurrent embeddingIsCurrent
    rw [h.get, Agree.openSpace hdir, ← h.hashes id]
    show ((ok (s.memory.find id) : Except String _) >>= _) = _
    rw [ok_bind]
    cases hfind : s.memory.find id with
    | none => rfl
    | some r =>
      simp only [required_some, ok_bind]
      cases hobsolete : r.obsolete with
      | true => rfl
      | false =>
        cases WdbxMemory.mapping (w.spaces.find space.spaceId) id <;> simp

theorem Agree.sameSearches (h : Agree space s w) (hquery : query.toList.any isWildcard = false) :
    SameSearches parseRfc3339 query s w where
  searchKeyword limit := by
    show ok _ = ok _
    rw [h.scan, matchesKeyword_eq hquery, newestFirst_filter h.distinctTimes, filter_filter]
    congr 3
    funext r
    exact Bool.and_comm _ _
  searchKeywordWith filter limit := by
    refine Eq.trans ?_ take_collect.symm
    show ok _ = _
    rw [h.scan, matchesKeyword_eq hquery, newestFirst_filter h.distinctTimes,
      filter_filter, filter_filter]
    congr 3
    funext r
    cases r.obsolete <;> simp [Bool.and_comm]

theorem Together.agree (h : Together parseRfc3339 space s w)
    (hdir : WdbxMemory.spaceDir space.spaceId = .ok ()) : Agree space s w := by
  induction h with
  | empty =>
    constructor
    · exact fun _ => rfl
    · intro id r hr
      cases hr
    · intro id r hr
      cases hr
    · intro id id' r r' hr
      cases hr
    · exact fun _ => rfl
    · intro v hv
      cases hv
  | write _ hadmits ih => exact (sameStep_perform ih hdir hadmits).2

end Reads

/-! ## Searches -/

/-- A record with nothing to search in but its summary. -/
def summaryRecord (summary : String) : MemoryRecord :=
  { sampleRecord "a" "2026" summary with provenance := "" }

theorem fresh_summaryRecord (summary : String) : Fresh ⟨.empty, .empty⟩ (summaryRecord summary) := by
  have hid : trim "a" ≠ "" := by decide +kernel
  exact ⟨hid, rfl, rfl, nofun⟩

/-- SQLite finds the sample of a query with a wildcard, WDBX does not. -/
theorem search_sample (parseRfc3339 : String → Option Int) (hagree : Agree space s w)
    (hrows : s.memory.rows = [summaryRecord (String.ofList (sampleText query))])
    (hwild : query.toList.any isWildcard) : (sqlite parseRfc3339).searchKeyword s query 1 =
        .ok [summaryRecord (String.ofList (sampleText query))] ∧
      (wdbx parseRfc3339).searchKeyword w query 1 = .ok [] := by
  have hsummary : (summaryRecord (String.ofList (sampleText query))).summary.toList =
      sampleText query := String.toList_ofList
  have hblank : WdbxMemory.contains "" query = false := by
    refine decide_eq_false (fun hcontains => ?_)
    rw [map_eq_nil_iff.mp (infix_nil.mp hcontains)] at hwild
    cases hwild
  have hmissed : WdbxMemory.contains (String.ofList (sampleText query)) query = false := by
    refine decide_eq_false (fun hcontains => ?_)
    rw [String.toList_ofList] at hcontains
    rw [literal_of_contains_sampleText hcontains] at hwild
    cases hwild
  constructor
  · have hfound : matchesKeyword query
        (summaryRecord (String.ofList (sampleText query))) := by
      unfold matchesKeyword
      rw [hsummary, like_sampleText]
      rfl
    show ok ((newestFirst (s.memory.rows.filter _)).take 1) = _
    rw [hrows, filter_cons_of_pos (by rw [hfound]; rfl), filter_nil,
      newestFirst_singleton]
    rfl
  · have hnone : WdbxMemory.matchesKeyword query
        (summaryRecord (String.ofList (sampleText query))) = false := by
      show (WdbxMemory.contains (String.ofList (sampleText query)) query ||
        WdbxMemory.contains "" query || WdbxMemory.contains "" query) = false
      rw [hmissed, hblank]
      rfl
    show ok (((w.scan.filter _).filter (WdbxMemory.matchesKeyword query)).take 1) = _
    rw [hagree.scan, hrows, newestFirst_singleton, filter_cons_of_pos (by rfl),
      filter_nil, filter_cons_of_neg (by rw [hnone]; simp)]
    rfl

/-- The stores with the one record. -/
theorem together_summaryRecord (parseRfc3339 : String → Option Int) (space : EmbeddingSpace)
    (summary : String) : ∃ s w, Together parseRfc3339 space s w ∧
      s.memory.rows = [summaryRecord summary] :=
  ⟨_, _, @Together.write parseRfc3339 space _ _ (.store (summaryRecord summary)) .empty
    (fresh_summaryRecord summary), rfl⟩

theorem literal_of_sameSearches (hdir : WdbxMemory.spaceDir space.spaceId = .ok ())
    (h : ∀ s w, Together parseRfc3339 space s w → SameSearches parseRfc3339 query s w) :
    query.toList.any isWildcard = false := by
  by_contra hwild
  obtain ⟨s, w, htogether, hrows⟩ := together_summaryRecord parseRfc3339 space
    (String.ofList (sampleText query))
  obtain ⟨hsqlite, hwdbx⟩ := search_sample parseRfc3339 (htogether.agree hdir) hrows
    (Bool.not_eq_false _ ▸ hwild)
  have hsame := (h s w htogether).searchKeyword 1
  rw [hsqlite, hwdbx] at hsame
  cases hsame

/-! ## The two backends -/

/-- In every run of admitted writes each write succeeds on both backends or
on neither, and all reads but the searches agree; the searches for a query
agree in every such run exactly when it has no wildcard. -/
theorem backends_interchangeable_iff (parseRfc3339 : String → Option Int)
    {provider model revision : String} {dimension : Nat} {space : EmbeddingSpace}
    (hspace : EmbeddingSpace.new provider model revision dimension = .ok space) :
    (∀ s w, Together parseRfc3339 space s w →
      (∀ op, Admits space s op →
        ((sqlite parseRfc3339).Succeeds op s ↔ (wdbx parseRfc3339).Succeeds op w)) ∧
      SameReads parseRfc3339 space.spaceId s w) ∧
    ∀ query : String, (∀ s w, Together parseRfc3339 space s w →
      SameSearches parseRfc3339 query s w) ↔ query.toList.any isWildcard = false := by
  have hdir := spaceDir_of_new hspace
  refine ⟨fun s w htogether => ⟨fun op hadmits => ?_, (htogether.agree hdir).sameReads hdir⟩,
    fun query => ⟨literal_of_sameSearches hdir, fun hquery s w htogether => ?_⟩⟩
  · exact (sameStep_perform (htogether.agree hdir) hdir hadmits).1
  · exact (htogether.agree hdir).sameSearches hquery

theorem new_apple : ∃ space, EmbeddingSpace.new "apple" "sentence:en" "v1" 2 = .ok space := by
  have htrim : trim "apple" ≠ "" ∧ trim "sentence:en" ≠ "" ∧ trim "v1" ≠ "" := by decide +kernel
  exact ⟨_, by simp [EmbeddingSpace.new, htrim, maxEmbeddingDimension]; rfl⟩

theorem apple_backends_interchangeable : ∃ space,
    EmbeddingSpace.new "apple" "sentence:en" "v1" 2 = .ok space ∧
    ∀ query : String, (∀ s w, Together (fun _ => none) space s w →
      SameSearches (fun _ => none) query s w) ↔ query.toList.any isWildcard = false := by
  obtain ⟨space, hspace⟩ := new_apple
  exact ⟨space, hspace, (backends_interchangeable_iff (fun _ => none) hspace).2⟩

/-- The search for `_` finds the summary `x` in SQLite and nothing in WDBX. -/
theorem wildcard_search_differs : ∃ space s w,
    EmbeddingSpace.new "apple" "sentence:en" "v1" 2 = .ok space ∧
    Together (fun _ => none) space s w ∧ s.searchKeyword "_" 1 = .ok [summaryRecord "x"] ∧
    w.searchKeyword "_" 1 = .ok [] := by
  obtain ⟨space, hspace⟩ := new_apple
  obtain ⟨s, w, htogether, hrows⟩ := together_summaryRecord (fun _ => none) space "x"
  have hdir := spaceDir_of_new hspace
  exact ⟨space, s, w, hspace, htogether, search_sample (fun _ => none)
    (htogether.agree hdir) hrows rfl⟩

end Abbey.Memory
