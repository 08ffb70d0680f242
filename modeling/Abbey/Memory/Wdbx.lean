import Abbey.Memory.Sqlite

/-!
# The WDBX backend

`src/memory/wdbx.rs`.  The records are JSON texts in a durable map, under
`mem/` and their id, and each embedding space is a store of its own with the
vectors ever put and, for each memory, the current one.  Every `put` of the
map is one durable step.

JSON has no number for a NaN or an infinity: such a confidence is written
as `null`, and no reader accepts it.
-/

namespace Abbey.Memory

open Abbey.Lib

/-- A record as JSON.  The confidence `nan` stands for `null`. -/
def toJson (rec : MemoryRecord) : MemoryRecord :=
  { rec with confidence := if rec.confidence.isFinite then rec.confidence else .nan }

def fromJson (raw : MemoryRecord) : Except String MemoryRecord := do
  ensure raw.confidence.isFinite "invalid type: null, expected f32"
  .ok raw

structure VectorMapping where
  vectorId : Nat
  embedding : StoredEmbedding

/-- `VersionedStore`: the vectors by their record ids, and the mappings
under `map/` and the memory's id. -/
structure VersionedStore where
  spaceId : String
  vectors : List (List F32)
  mappings : Table (fun mapping : VectorMapping => mapping.embedding.memoryId)

structure WdbxMemory where
  kv : Table MemoryRecord.id
  spaces : Table VersionedStore.spaceId

namespace WdbxMemory

/-! ## Writes -/

def write (rec : MemoryRecord) : Durable WdbxMemory String Unit := do
  Durable.lift (validateTrain rec)
  Durable.lift (ensure (Conversation.trim rec.id ≠ "") "memory record id must not be empty")
  Durable.commit fun db => .ok ({ db with kv := db.kv.put (toJson rec) }, ())

def store (rec : MemoryRecord) : Durable WdbxMemory String Unit := write rec

def get (db : WdbxMemory) (id : String) : Except String (Option MemoryRecord) :=
  match db.kv.find id with
  | none => .ok none
  | some raw => (fromJson raw).map some

/-- `self.get(id)?`, and the record it must find. -/
def getExisting (id : String) : Durable WdbxMemory String MemoryRecord := do
  let found ← Durable.read (fun db => db.get id)
  Durable.lift (required found (notFound id))

def update (rec : MemoryRecord) : Durable WdbxMemory String Unit := do
  let _ ← getExisting rec.id
  write rec

def invalidate (id : String) : Durable WdbxMemory String Unit := do
  let rec' ← getExisting id
  write { rec' with obsolete := true }

def promote (id newRetention : String) : Durable WdbxMemory String Unit := do
  let rec' ← getExisting id
  write (rec'.promoted newRetention)

def supersede (oldId : String) (newRec : MemoryRecord) : Durable WdbxMemory String Unit := do
  write { newRec with supersedes := some oldId }
  invalidate oldId

def spaceDir (spaceId : String) : Except String Unit :=
  ensure (spaceId ≠ "" &&
      spaceId.toList.all (fun byte => byte.isAlphanum || byte = '-' || byte = '_'))
    ("invalid embedding space id: " ++ spaceId.quote)

/-- `open_space` without `create`. -/
def openSpace (db : WdbxMemory) (spaceId : String) : Except String (Option VersionedStore) := do
  spaceDir spaceId
  .ok (db.spaces.find spaceId)

/-- `open_space` with `create`. -/
def createSpace (spaceId : String) : Durable WdbxMemory String VersionedStore := do
  Durable.lift (spaceDir spaceId)
  Durable.commit fun db =>
    let space := (db.spaces.find spaceId).getD ⟨spaceId, [], .empty⟩
    .ok ({ db with spaces := db.spaces.put space }, space)

def VersionedStore.vectorDimensions (space : VersionedStore) : Option Nat :=
  space.vectors.head?.map List.length

def putSpace (space : VersionedStore) : Durable WdbxMemory String Unit :=
  Durable.commit fun db => .ok ({ db with spaces := db.spaces.put space }, ())

def putEmbedding (embedding : StoredEmbedding) : Durable WdbxMemory String Unit := do
  Durable.lift embedding.validate
  let record ← getExisting embedding.memoryId
  Durable.lift (ensure (!record.obsolete)
    ("cannot attach an embedding to obsolete memory: " ++ record.id))
  Durable.lift (ensure (contentHash record = embedding.contentHash)
    ("memory changed while it was being embedded: " ++ record.id))
  let space ← createSpace embedding.spaceId
  Durable.lift (ensure (space.vectors.isEmpty ||
      VersionedStore.vectorDimensions space = some embedding.dimension)
    ("WDBX semantic space " ++ embedding.spaceId ++ " has another dimension"))
  let withVector := { space with vectors := space.vectors ++ [embedding.vector] }
  putSpace withVector
  putSpace { withVector with mappings := withVector.mappings.put ⟨space.vectors.length, embedding⟩ }

/-! ## What a write does -/

section Writes

variable {db db' : WdbxMemory} {rec r : MemoryRecord} {id : String}

def find (db : WdbxMemory) (id : String) : Option MemoryRecord := db.kv.find id

def Accepts (rec : MemoryRecord) : Prop :=
  validateTrain rec = .ok () ∧ Conversation.trim rec.id ≠ ""

theorem write_puts (h : Accepts rec) : Puts find spaces (write rec) (toJson rec) db := by
  refine ⟨⟨db.kv.put (toJson rec), db.spaces⟩, ?_, rfl, fun id => Table.find_put db.kv _ id⟩
  unfold write
  rw [lift_bind_of_ok h.1, lift_bind_of_ok ((ensure_eq_ok (u := ())).mpr (by simp [h.2]))]
  exact commit_of_ok rfl

theorem write_refuses (h : ¬ Accepts rec) : Refuses (write rec) db := by
  unfold write
  cases hvalid : validateTrain rec with
  | error e => exact ⟨e, lift_bind_of_error rfl⟩
  | ok _ =>
    have hid : Conversation.trim rec.id = "" := by
      by_contra hne
      exact h ⟨hvalid, hne⟩
    rw [Refuses, lift_bind_of_ok rfl]
    exact ⟨"memory record id must not be empty", lift_bind_of_error (by simp [ensure, hid])⟩

theorem get_eq_some : db.get id = .ok (some r) ↔
    db.find id = some r ∧ r.confidence.isFinite := by
  unfold get find fromJson
  cases hfind : db.kv.find id with
  | none => simp
  | some raw =>
    cases hfinite : raw.confidence.isFinite with
    | false =>
      simp only [hfinite, ensure_false, error_bind, Except.map, Option.some.injEq, reduceCtorEq,
        false_iff, not_and, Bool.not_eq_true]
      rintro rfl
      exact hfinite
    | true =>
      simp only [hfinite, ensure_true, ok_bind, Except.map, Except.ok.injEq, Option.some.injEq]
      exact ⟨fun heq => ⟨heq, heq ▸ hfinite⟩, fun h => h.1⟩

section GetExisting

variable {f : MemoryRecord → Durable WdbxMemory String Unit}

theorem getExisting_bind_of_get (h : db.get id = .ok (some r)) :
    (getExisting id >>= f) db = f r db := by
  have hfound : getExisting id db = ⟨[], .ok r⟩ := by
    unfold getExisting
    rw [read_bind_of_ok (g := fun db : WdbxMemory => db.get id) h]
    rfl
  rw [bind_of_ok hfound]
  rfl

theorem getExisting_bind_refuses (h : ∀ r, db.get id ≠ .ok (some r)) :
    Refuses (getExisting id >>= f) db := by
  have hmissing : ∃ e, getExisting id db = ⟨[], .error e⟩ := by
    unfold getExisting
    cases hget : db.get id with
    | error e => exact ⟨e, read_bind_of_error (g := fun db : WdbxMemory => db.get id) hget⟩
    | ok found =>
      cases found with
      | some r => exact absurd hget (h r)
      | none =>
        rw [read_bind_of_ok (g := fun db : WdbxMemory => db.get id) hget]
        exact ⟨notFound id, rfl⟩
  obtain ⟨e, he⟩ := hmissing
  exact ⟨e, bind_of_error he⟩

end GetExisting

/-- A vector is written beside the records. -/
theorem crash_putEmbedding (h : Crash (putEmbedding embedding) db db') : db'.kv = db.kv := by
  have hspace : ∀ space, Keeps (fun other : WdbxMemory => other.kv = db.kv) (putSpace space) :=
    fun space => keeps_commit (fun s t a hs hok => by cases hok; exact hs)
  have hcreate : Keeps (fun other : WdbxMemory => other.kv = db.kv)
      (createSpace embedding.spaceId) :=
    keeps_lift.bind (fun _ => keeps_commit (fun s t a hs hok => by cases hok; exact hs))
  exact (keeps_lift.bind fun _ => (keeps_read.bind fun _ => keeps_lift).bind fun _ =>
    keeps_lift.bind fun _ => keeps_lift.bind fun _ => hcreate.bind fun _ =>
    keeps_lift.bind fun _ => (hspace _).bind fun _ => hspace _) db db' rfl h

/-- Every stored record passed the checks of `write`, and is JSON. -/
def Sound (db : WdbxMemory) : Prop :=
  ∀ id r, db.find id = some r → Accepts r ∧ toJson r = r

end Writes

/-! ## Reads -/

/-- All live records, newest first.  The map iterates by key. -/
def scan (db : WdbxMemory) : List MemoryRecord :=
  SqliteMemory.newestFirst
    ((db.kv.rows.mergeSort (fun a b => decide (a.id ≤ b.id))).filterMap
      (fun raw => (fromJson raw).toOption))

/-- `to_ascii_lowercase` and `contains`. -/
def contains (text needle : String) : Bool :=
  decide (foldCase needle.toList <:+: foldCase text.toList)

def matchesKeyword (query : String) (rec : MemoryRecord) : Bool :=
  contains rec.summary query || contains rec.payload query || contains rec.provenance query

def searchKeyword (db : WdbxMemory) (query : String) (limit : Nat) :
    Except String (List MemoryRecord) :=
  .ok (((db.scan.filter (fun r => !r.obsolete)).filter (matchesKeyword query)).take limit)

section Filter

variable (parseRfc3339 : String → Option Int)

def searchKeywordWith (db : WdbxMemory) (query : String) (filter : MemoryFilter) (limit : Nat) :
    Except String (List MemoryRecord) :=
  .ok (((db.scan.filter (fun r => !r.obsolete && filter.matches parseRfc3339 r)).filter
    (matchesKeyword query)).take limit)

def filterWith (db : WdbxMemory) (filter : MemoryFilter) (limit : Nat) :
    Except String (List MemoryRecord) :=
  .ok (((db.scan.filter (fun r => !r.obsolete)).filter (filter.matches parseRfc3339)).take limit)

end Filter

def allRecordsIncludingObsolete (db : WdbxMemory) : Except String (List MemoryRecord) :=
  .ok (SqliteMemory.oldestFirst db.scan)

/-- `mappings.get(id)`, for the id of a record. -/
def mapping (space : Option VersionedStore) (id : String) : Option VectorMapping :=
  space.bind (·.mappings.find id)

def embeddingCandidates (db : WdbxMemory) (spaceId : String) (limit : Nat) :
    Except String (List MemoryRecord) :=
  if limit = 0 then .ok []
  else do
    let space ← db.openSpace spaceId
    .ok (((db.scan.filter (fun r => !r.obsolete)).filter (fun r =>
      isNoneOr (mapping space r.id) (fun m => m.embedding.contentHash ≠ contentHash r))).take limit)

def embeddingStatus (db : WdbxMemory) (spaceId : String) : Except String EmbeddingStatus := do
  let space ← db.openSpace spaceId
  .ok ((db.scan.filter (fun r => !r.obsolete)).foldl (fun status r =>
    status.count r ((mapping space r.id).map (·.embedding.contentHash))) ⟨0, 0, 0, 0⟩)

def embeddingIsCurrent (db : WdbxMemory) (memoryId spaceId : String) : Except String Bool := do
  let found ← db.get memoryId
  let record ← required found (notFound memoryId)
  if record.obsolete then .ok false
  else do
    let space ← db.openSpace spaceId
    .ok ((mapping space memoryId).any (fun m => m.embedding.contentHash = contentHash record))

end WdbxMemory

/-- `impl MemoryStore for WdbxMemory`. -/
def wdbx (parseRfc3339 : String → Option Int) : MemoryStore WdbxMemory where
  empty := ⟨.empty, .empty⟩
  store := WdbxMemory.store
  get := WdbxMemory.get
  update := WdbxMemory.update
  invalidate := WdbxMemory.invalidate
  searchKeyword := WdbxMemory.searchKeyword
  searchKeywordWith := WdbxMemory.searchKeywordWith parseRfc3339
  filterWith := WdbxMemory.filterWith parseRfc3339
  allRecordsIncludingObsolete := WdbxMemory.allRecordsIncludingObsolete
  promote := WdbxMemory.promote
  supersede := WdbxMemory.supersede
  putEmbedding := WdbxMemory.putEmbedding
  embeddingCandidates := WdbxMemory.embeddingCandidates
  embeddingStatus := WdbxMemory.embeddingStatus
  embeddingIsCurrent := WdbxMemory.embeddingIsCurrent

end Abbey.Memory
