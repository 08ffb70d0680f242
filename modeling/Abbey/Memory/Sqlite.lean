import Abbey.Lib.Like
import Abbey.Memory.Store

/-!
# The SQLite backend

`src/memory/sqlite.rs`.  Every statement is one durable step.  SQLite keeps
a NaN as NULL, which `confidence` does not allow.

Rows of equal timestamp come in the order of the table; a `LIMIT` from 2^63
on is negative as an `i64` and means no limit, and no table is that long.
-/

namespace Abbey.Memory

open Abbey.Lib Table List

structure SqliteMemory where
  memory : Table MemoryRecord.id
  embeddings : Table (fun embedding : StoredEmbedding => (embedding.memoryId, embedding.spaceId))

namespace SqliteMemory

/-! ## Writes -/

def store (rec : MemoryRecord) : Durable SqliteMemory String Unit := do
  Durable.lift (validateTrain rec)
  Durable.commit fun db => do
    ensure (rec.confidence ≠ .nan) "NOT NULL constraint failed: memory.confidence"
    let memory ← required (db.memory.insert? rec) "UNIQUE constraint failed: memory.id"
    .ok ({ db with memory := memory }, ())

def get (db : SqliteMemory) (id : String) : Except String (Option MemoryRecord) :=
  .ok (db.memory.find id)

def update (rec : MemoryRecord) : Durable SqliteMemory String Unit := do
  Durable.lift (validateTrain rec)
  Durable.commit fun db => do
    let memory ← required (db.memory.update? (fun row => row.id = rec.id)
      (fun row => { rec with id := row.id }) (fun _ => rfl) (fun row => row.confidence ≠ .nan))
      "NOT NULL constraint failed: memory.confidence"
    ensure (db.memory.rows.any (fun row => row.id = rec.id)) (notFound rec.id)
    .ok ({ db with memory := memory }, ())

def invalidate (id : String) : Durable SqliteMemory String Unit :=
  Durable.commit fun db => do
    ensure (db.memory.rows.any (fun row => row.id = id)) (notFound id)
    .ok ({ db with
      memory := db.memory.modify (fun row => row.id = id) (fun row => { row with obsolete := true })
        (fun _ => rfl) }, ())

def promote (id newRetention : String) : Durable SqliteMemory String Unit := do
  let found ← Durable.read (fun db => db.get id)
  let rec' ← Durable.lift (required found (notFound id))
  update (rec'.promoted newRetention)

def supersede (oldId : String) (newRec : MemoryRecord) : Durable SqliteMemory String Unit := do
  store { newRec with supersedes := some oldId }
  invalidate oldId

def putEmbedding (embedding : StoredEmbedding) : Durable SqliteMemory String Unit := do
  Durable.lift embedding.validate
  -- one transaction: the record is read and the vector written together
  Durable.commit fun db => do
    let record ← required (db.memory.find embedding.memoryId) (notFound embedding.memoryId)
    ensure (!record.obsolete) ("cannot attach an embedding to obsolete memory: " ++ record.id)
    ensure (contentHash record = embedding.contentHash)
      ("memory changed while it was being embedded: " ++ record.id)
    .ok ({ db with embeddings := db.embeddings.put embedding }, ())

/-! ## What a write does -/

section Writes

variable {db : SqliteMemory} {rec : MemoryRecord} {id : String}
variable {r : MemoryRecord} {newRetention : String}

def find (db : SqliteMemory) (id : String) : Option MemoryRecord := db.memory.find id

/-- The records a new row is made for. -/
def Accepts (db : SqliteMemory) (rec : MemoryRecord) : Prop :=
  validateTrain rec = .ok () ∧ rec.confidence ≠ .nan ∧ db.find rec.id = none

theorem store_puts (h : db.Accepts rec) : Puts find embeddings (store rec) rec db := by
  obtain ⟨hvalid, hnan, hfree⟩ := h
  obtain ⟨memory, hmemory⟩ := insert?_of_find_none hfree
  refine ⟨{ db with memory := memory }, ?_, rfl, fun id => find_insert hmemory id⟩
  unfold store
  rw [lift_bind_of_ok hvalid]
  exact commit_of_ok (by simp [hnan, hmemory])

theorem store_refuses (h : ¬ db.Accepts rec) : Refuses (store rec) db := by
  unfold store
  cases hvalid : validateTrain rec with
  | error e => exact ⟨e, lift_bind_of_error rfl⟩
  | ok _ =>
    rw [Refuses, lift_bind_of_ok rfl]
    by_cases hnan : rec.confidence = .nan
    · exact ⟨_, commit_of_error (by rw [hnan]; rfl)⟩
    · have htaken : db.memory.insert? rec = none := by
        rw [insert?_eq_none_iff]
        cases hfind : db.memory.find rec.id with
        | none => exact absurd ⟨hvalid, hnan, hfind⟩ h
        | some row => exact ⟨row, rfl⟩
      exact ⟨"UNIQUE constraint failed: memory.id", commit_of_error (by simp [hnan, htaken])⟩

theorem any_rows_id : db.memory.rows.any (fun row => row.id = id) ↔ ∃ r, db.find id = some r := by
  rw [any_eq_true]
  constructor
  · rintro ⟨r, hr, hid⟩
    exact ⟨r, find_eq_some_iff.mpr ⟨hr, of_decide_eq_true hid⟩⟩
  · rintro ⟨r, hr⟩
    obtain ⟨hmem, hid⟩ := find_eq_some_iff.mp hr
    exact ⟨r, hmem, decide_eq_true hid⟩

/-- The lookup after a statement on the row of an id. -/
theorem find_modify_id (hr : db.find id = some r) (k : String) :
    (db.memory.modify (fun row => row.id = id) f hf).find k =
      if id = k then some (f r) else db.find k := by
  rw [find_modify]
  split_ifs with hk
  · subst hk
    rw [show db.memory.find id = some r from hr]
    simp [pk_of_find hr]
  · show (db.memory.find k).map _ = db.memory.find k
    cases hother : db.memory.find k with
    | none => rfl
    | some s =>
      have hne : s.id ≠ id := fun heq => hk (heq.symm.trans (pk_of_find hother))
      simp [hne]

theorem update_puts (hvalid : validateTrain rec = .ok ()) (hnan : rec.confidence ≠ .nan)
    (hfind : ∃ r, db.find rec.id = some r) : Puts find embeddings (update rec) rec db := by
  have hany := any_rows_id.mpr hfind
  obtain ⟨r, hr⟩ := hfind
  have hupdate : db.memory.update? (fun row => row.id = rec.id)
      (fun row => { rec with id := row.id }) (fun _ => rfl) (fun row => row.confidence ≠ .nan) =
        some _ := Table.update?_eq_some_iff.mpr ⟨fun _ _ _ => decide_eq_true hnan, rfl⟩
  refine ⟨⟨db.memory.modify (fun row => row.id = rec.id) (fun row => { rec with id := row.id })
    (fun _ => rfl), db.embeddings⟩, ?_, rfl, fun id => ?_⟩
  · unfold update
    rw [lift_bind_of_ok hvalid]
    exact commit_of_ok (by rw [hupdate]; simp [hany])
  · show Table.find _ id = _
    have hkey : r.id = rec.id := Table.pk_of_find hr
    rw [find_modify_id hr, hkey]

theorem update_refuses (h : ¬ (validateTrain rec = .ok () ∧ rec.confidence ≠ .nan ∧
    ∃ r, db.find rec.id = some r)) : Refuses (update rec) db := by
  unfold update
  cases hvalid : validateTrain rec with
  | error e => exact ⟨e, lift_bind_of_error rfl⟩
  | ok _ =>
    rw [Refuses, lift_bind_of_ok rfl]
    cases hupdate : db.memory.update? (fun row => row.id = rec.id)
        (fun row => { rec with id := row.id }) (fun _ => rfl) (fun row => row.confidence ≠ .nan) with
    | none => exact ⟨_, commit_of_error (by rw [hupdate]; rfl)⟩
    | some memory =>
      have hany : ¬ db.memory.rows.any (fun row => row.id = rec.id) := by
        intro hany
        have hfind := any_rows_id.mp hany
        refine h ⟨hvalid, ?_, hfind⟩
        obtain ⟨r, hr⟩ := hfind
        obtain ⟨hmem, hid⟩ := find_eq_some_iff.mp hr
        exact of_decide_eq_true ((update?_eq_some_iff.mp hupdate).1 r hmem (decide_eq_true hid))
      exact ⟨notFound rec.id, commit_of_error (by rw [hupdate]; simp [hany])⟩

theorem invalidate_puts (hr : db.find id = some r) :
    Puts find embeddings (invalidate id) { r with obsolete := true } db := by
  have hkey : r.id = id := Table.pk_of_find hr
  refine ⟨⟨db.memory.modify (fun row => row.id = id) (fun row => { row with obsolete := true })
    (fun _ => rfl), db.embeddings⟩, ?_, rfl, fun k => ?_⟩
  · exact commit_of_ok (by simp [any_rows_id.mpr ⟨r, hr⟩])
  · show Table.find _ k = _
    rw [find_modify_id hr, hkey]

theorem invalidate_refuses (hnone : db.find id = none) : Refuses (invalidate id) db := by
  have hany : ¬ db.memory.rows.any (fun row => row.id = id) := by
    intro hany
    obtain ⟨r, hr⟩ := any_rows_id.mp hany
    rw [hnone] at hr
    cases hr
  exact ⟨notFound id, commit_of_error (by simp [hany])⟩

theorem promote_eq (hr : db.find id = some r) :
    promote id newRetention db = update (r.promoted newRetention) db := by
  unfold promote
  rw [read_bind_of_ok (g := fun db : SqliteMemory => db.get id) (congrArg Except.ok hr),
    lift_bind_of_ok (required_some r (notFound id))]

theorem promote_refuses (hnone : db.find id = none) : Refuses (promote id newRetention) db := by
  unfold promote
  rw [Refuses, read_bind_of_ok (g := fun db : SqliteMemory => db.get id) (congrArg Except.ok hnone)]
  exact ⟨_, lift_bind_of_error rfl⟩

/-- A vector is written beside the records. -/
theorem crash_putEmbedding
    (h : Crash (putEmbedding embedding) db db') : db'.memory = db.memory := by
  rcases crash_lift_bind h with rfl | ⟨_, _, hcommit⟩
  · rfl
  · rcases crash_commit.mp hcommit with rfl | ⟨_, hok⟩
    · rfl
    · simp only [bind_ok_iff, required_eq_ok, ensure_eq_ok] at hok
      obtain ⟨_, _, _, _, _, _, heq⟩ := hok
      cases heq
      rfl

end Writes

/-! ## Reads -/

/-- `ORDER BY timestamp DESC`. -/
def newestFirst (rows : List MemoryRecord) : List MemoryRecord :=
  rows.mergeSort (fun a b => decide (b.timestamp ≤ a.timestamp))

/-- `ORDER BY timestamp ASC`. -/
def oldestFirst (rows : List MemoryRecord) : List MemoryRecord :=
  rows.mergeSort (fun a b => decide (a.timestamp ≤ b.timestamp))

/-- The loop over the rows that stops when enough are kept. -/
def collect (keep : MemoryRecord → Bool) (limit : Nat) :
    List MemoryRecord → List MemoryRecord → List MemoryRecord
  | out, [] => out
  | out, rec :: rows =>
    if keep rec then
      if limit ≤ (out ++ [rec]).length then out ++ [rec] else collect keep limit (out ++ [rec]) rows
    else collect keep limit out rows

def likePattern (query : String) : List Char :=
  '%' :: (query.toList.filter (· ≠ '%') ++ ['%'])

def matchesKeyword (query : String) (rec : MemoryRecord) : Bool :=
  like (likePattern query) rec.summary.toList || like (likePattern query) rec.payload.toList ||
    like (likePattern query) rec.provenance.toList

def searchKeyword (db : SqliteMemory) (query : String) (limit : Nat) :
    Except String (List MemoryRecord) :=
  .ok ((newestFirst (db.memory.rows.filter (fun rec => !rec.obsolete && matchesKeyword query rec))).take
    limit)

section Filter

variable (parseRfc3339 : String → Option Int)

def searchKeywordWith (db : SqliteMemory) (query : String) (filter : MemoryFilter) (limit : Nat) :
    Except String (List MemoryRecord) :=
  if limit = 0 then .ok []
  else .ok (collect (filter.matches parseRfc3339) limit []
    (newestFirst (db.memory.rows.filter (fun rec => !rec.obsolete && matchesKeyword query rec))))

def filterWith (db : SqliteMemory) (filter : MemoryFilter) (limit : Nat) :
    Except String (List MemoryRecord) :=
  if limit = 0 then .ok []
  else .ok (collect (filter.matches parseRfc3339) limit []
    (newestFirst (db.memory.rows.filter (fun rec => !rec.obsolete))))

end Filter

def allRecordsIncludingObsolete (db : SqliteMemory) : Except String (List MemoryRecord) :=
  .ok (oldestFirst db.memory.rows)

/-- The hash stored for a record in a space. -/
def storedHash (db : SqliteMemory) (spaceId id : String) : Option String :=
  (db.embeddings.find (id, spaceId)).map (·.contentHash)

def embeddingCandidates (db : SqliteMemory) (spaceId : String) (limit : Nat) :
    Except String (List MemoryRecord) :=
  if limit = 0 then .ok []
  else .ok (collect (fun rec => db.storedHash spaceId rec.id ≠ some (contentHash rec)) limit []
    (newestFirst (db.memory.rows.filter (fun rec => !rec.obsolete))))

def embeddingStatus (db : SqliteMemory) (spaceId : String) : Except String EmbeddingStatus :=
  .ok ((db.memory.rows.filter (fun rec => !rec.obsolete)).foldl
    (fun status rec => status.count rec (db.storedHash spaceId rec.id)) ⟨0, 0, 0, 0⟩)

def embeddingIsCurrent (db : SqliteMemory) (memoryId spaceId : String) : Except String Bool := do
  let record ← required (db.memory.find memoryId) (notFound memoryId)
  .ok (!record.obsolete && db.storedHash spaceId memoryId = some (contentHash record))

/-! ## Orders and limits -/

section Reading

variable {rows sorted out : List MemoryRecord} {keep : MemoryRecord → Bool} {limit : Nat}

/-- No two rows share a timestamp. -/
def DistinctTimes (rows : List MemoryRecord) : Prop :=
  ∀ r ∈ rows, ∀ s ∈ rows, r.timestamp = s.timestamp → r = s

variable (rows)

theorem newestFirst_perm : (newestFirst rows).Perm rows :=
  mergeSort_perm rows _

theorem newestFirst_pairwise :
    (newestFirst rows).Pairwise (fun a b => b.timestamp ≤ a.timestamp) := by
  have hsorted := @pairwise_mergeSort MemoryRecord
    (fun a b => decide (b.timestamp ≤ a.timestamp))
    (fun a b c hab hbc => decide_eq_true ((of_decide_eq_true hbc).trans (of_decide_eq_true hab)))
    (fun a b => by simpa using le_total b.timestamp a.timestamp) rows
  exact hsorted.imp of_decide_eq_true

theorem oldestFirst_pairwise :
    (oldestFirst rows).Pairwise (fun a b => a.timestamp ≤ b.timestamp) := by
  have hsorted := @pairwise_mergeSort MemoryRecord
    (fun a b => decide (a.timestamp ≤ b.timestamp))
    (fun a b c hab hbc => decide_eq_true ((of_decide_eq_true hab).trans (of_decide_eq_true hbc)))
    (fun a b => by simpa using le_total a.timestamp b.timestamp) rows
  exact hsorted.imp of_decide_eq_true

variable {rows}

/-- Rows without two equal timestamps have one order. -/
theorem newestFirst_eq (hdistinct : DistinctTimes rows) (hperm : sorted.Perm rows)
    (hsorted : sorted.Pairwise (fun a b => b.timestamp ≤ a.timestamp)) : newestFirst rows = sorted := by
  refine List.Perm.eq_of_pairwise ?_ (newestFirst_pairwise rows) hsorted
    ((newestFirst_perm rows).trans hperm.symm)
  intro a b ha hb hab hba
  exact hdistinct a ((newestFirst_perm rows).mem_iff.mp ha) b (hperm.mem_iff.mp hb)
    (le_antisymm hba hab)

@[simp] theorem newestFirst_singleton (r : MemoryRecord) : newestFirst [r] = [r] :=
  mergeSort_singleton r

theorem newestFirst_filter (hdistinct : DistinctTimes rows) (p : MemoryRecord → Bool) :
    newestFirst (rows.filter p) = (newestFirst rows).filter p := by
  refine newestFirst_eq ?_ ((newestFirst_perm rows).filter p)
    ((newestFirst_pairwise rows).filter p)
  exact fun r hr s hs => hdistinct r (mem_filter.mp hr).1 s (mem_filter.mp hs).1

theorem oldestFirst_eq_of_perm (hdistinct : DistinctTimes rows) (hperm : sorted.Perm rows) :
    oldestFirst sorted = oldestFirst rows := by
  have hleft := mergeSort_perm sorted (fun a b => decide (a.timestamp ≤ b.timestamp))
  have hright := mergeSort_perm rows (fun a b => decide (a.timestamp ≤ b.timestamp))
  refine List.Perm.eq_of_pairwise ?_ (oldestFirst_pairwise sorted) (oldestFirst_pairwise rows)
    ((hleft.trans hperm).trans hright.symm)
  intro a b ha hb hab hba
  exact hdistinct a ((hleft.trans hperm).mem_iff.mp ha) b (hright.mem_iff.mp hb)
    (le_antisymm hab hba)

/-- The loop keeps the first rows that qualify. -/
theorem collect_eq (h : out.length < limit) :
    collect keep limit out rows = out ++ (rows.filter keep).take (limit - out.length) := by
  induction rows generalizing out with
  | nil => simp [collect]
  | cons rec rows ih =>
    rw [collect]
    by_cases hkeep : keep rec
    · obtain ⟨n, hn⟩ := Nat.exists_eq_add_of_lt h
      have hlimit : limit - out.length = n + 1 := by omega
      rw [if_pos hkeep, filter_cons_of_pos hkeep, hlimit, take_succ_cons]
      split_ifs with hfull
      · have hzero : n = 0 := by
          rw [length_append, length_singleton] at hfull
          omega
        simp [hzero]
      · have hroom : (out ++ [rec]).length < limit := by omega
        rw [ih hroom, length_append, length_singleton, append_assoc,
          singleton_append]
        have hrest : limit - (out.length + 1) = n := by omega
        rw [hrest]
    · rw [if_neg hkeep, filter_cons_of_neg hkeep, ih h]

/-- What a query with a limit answers, also for the limit 0. -/
theorem take_collect : (if limit = 0 then (.ok [] : Except String (List MemoryRecord))
    else .ok (collect keep limit [] rows)) = .ok ((rows.filter keep).take limit) := by
  split_ifs with hlimit
  · rw [hlimit, take_zero]
  · rw [collect_eq (Nat.pos_of_ne_zero hlimit)]
    rfl

end Reading

end SqliteMemory

/-- `impl MemoryStore for SqliteMemory`. -/
def sqlite (parseRfc3339 : String → Option Int) : MemoryStore SqliteMemory where
  empty := ⟨.empty, .empty⟩
  store := SqliteMemory.store
  get := SqliteMemory.get
  update := SqliteMemory.update
  invalidate := SqliteMemory.invalidate
  searchKeyword := SqliteMemory.searchKeyword
  searchKeywordWith := SqliteMemory.searchKeywordWith parseRfc3339
  filterWith := SqliteMemory.filterWith parseRfc3339
  allRecordsIncludingObsolete := SqliteMemory.allRecordsIncludingObsolete
  promote := SqliteMemory.promote
  supersede := SqliteMemory.supersede
  putEmbedding := SqliteMemory.putEmbedding
  embeddingCandidates := SqliteMemory.embeddingCandidates
  embeddingStatus := SqliteMemory.embeddingStatus
  embeddingIsCurrent := SqliteMemory.embeddingIsCurrent

end Abbey.Memory
