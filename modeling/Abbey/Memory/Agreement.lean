import Abbey.Memory.NeverLost

/-!
# The two backends in step

`Agree` relates a SQLite store and a WDBX store that hold the same records
and, in one embedding space, the same content hashes.  Every write that
`Admits` allows succeeds on both or on neither, and keeps the two in
agreement: `sameStep_perform`.
-/

namespace Abbey.Memory

open Abbey.Lib WdbxMemory WdbxMemory.VersionedStore

/-- The same records, all of them valid, and the same hashes in a space. -/
structure Agree (space : EmbeddingSpace) (s : SqliteMemory) (w : WdbxMemory) : Prop where
  find : ∀ id, w.find id = s.find id
  accepted : ∀ id r, s.find id = some r → WdbxMemory.Accepts r
  finite : ∀ id r, s.find id = some r → r.confidence.isFinite = true
  times : ∀ id id' r r', s.find id = some r → s.find id' = some r' →
    r.timestamp = r'.timestamp → id = id'
  hashes : ∀ id, (WdbxMemory.mapping (w.spaces.find space.spaceId) id).map
    (fun m => m.embedding.contentHash) = s.storedHash space.spaceId id
  dimension : ∀ v, w.spaces.find space.spaceId = some v →
    v.vectors.isEmpty = true ∨ WdbxMemory.VersionedStore.vectorDimensions v = some space.dimension

/-- A record under a new id, at a time of its own. -/
def Fresh (s : SqliteMemory) (rec : MemoryRecord) : Prop :=
  Conversation.trim rec.id ≠ "" ∧ rec.confidence.isFinite = true ∧ s.find rec.id = none ∧
    ∀ id r, s.find id = some r → r.timestamp ≠ rec.timestamp

/-- What a write may ask for: an id is stored once and is not blank, records
have finite confidences and different ids different timestamps, and all
embeddings are of one space and dimension. -/
def Admits (space : EmbeddingSpace) (s : SqliteMemory) : Op → Prop
  | .store rec => Fresh s rec
  | .supersede _ newRec => Fresh s newRec
  | .update rec => rec.confidence.isFinite = true ∧
      ∀ id r, s.find id = some r → id ≠ rec.id → r.timestamp ≠ rec.timestamp
  | .putEmbedding embedding =>
      embedding.spaceId = space.spaceId ∧ embedding.dimension = space.dimension
  | .invalidate _ => True
  | .promote _ _ => True

/-! ## Steps of both -/

section Steps

variable {space : EmbeddingSpace} {s : SqliteMemory} {w : WdbxMemory}
  {x x' : Durable SqliteMemory String Unit} {y y' : Durable WdbxMemory String Unit}
  {rec : MemoryRecord} {id : String}
variable {r : MemoryRecord}

/-- Both succeed or neither does, and they end in agreement. -/
def SameStep (space : EmbeddingSpace) (x : Durable SqliteMemory String Unit)
    (y : Durable WdbxMemory String Unit) (s : SqliteMemory) (w : WdbxMemory) : Prop :=
  ((x s).result = .ok () ↔ (y w).result = .ok ()) ∧ Agree space (x.final s) (y.final w)

theorem Agree.get (h : Agree space s w) (id : String) : w.get id = s.get id := by
  unfold WdbxMemory.get SqliteMemory.get
  rw [show w.kv.find id = s.find id from h.find id]
  cases hfind : s.find id with
  | none => rw [show s.memory.find id = none from hfind]
  | some r =>
    rw [show s.memory.find id = some r from hfind]
    simp [fromJson, h.finite id r hfind, Except.map]

theorem SameStep.refuses (h : Agree space s w) (hx : Refuses x s) (hy : Refuses y w) :
    SameStep space x y s w := by
  obtain ⟨e, he⟩ := hx
  obtain ⟨e', he'⟩ := hy
  unfold SameStep Durable.final
  rw [he, he']
  exact ⟨by simp, h⟩

theorem SameStep.puts (h : Agree space s w)
    (hx : Puts SqliteMemory.find SqliteMemory.embeddings x rec s)
    (hy : Puts find spaces y rec w) (haccepts : WdbxMemory.Accepts rec)
    (hfinite : rec.confidence.isFinite)
    (htime : ∀ id r, s.find id = some r → id ≠ rec.id → r.timestamp ≠ rec.timestamp) :
    SameStep space x y s w := by
  obtain ⟨s', hx, hembeddings, hfind⟩ := hx
  obtain ⟨w', hy, hspaces, hfind'⟩ := hy
  have hrows : ∀ id r, s'.find id = some r → (rec.id = id ∧ r = rec) ∨
      (rec.id ≠ id ∧ s.find id = some r) := by
    intro id r hr
    rw [hfind] at hr
    split_ifs at hr with hid
    · cases hr
      exact .inl ⟨hid, rfl⟩
    · exact .inr ⟨hid, hr⟩
  unfold SameStep Durable.final
  rw [hx, hy]
  refine ⟨Iff.rfl, ⟨fun id => ?_, fun id r hr => ?_, fun id r hr => ?_, ?_, fun id => ?_, ?_⟩⟩
  · show w'.find id = s'.find id
    rw [hfind, hfind', h.find]
  · rcases hrows id r hr with ⟨_, rfl⟩ | ⟨_, hold⟩
    · exact haccepts
    · exact h.accepted id r hold
  · rcases hrows id r hr with ⟨_, rfl⟩ | ⟨_, hold⟩
    · exact hfinite
    · exact h.finite id r hold
  · intro id id' r r' hr hr' heq
    rcases hrows id r hr with ⟨hid, rfl⟩ | ⟨hne, hold⟩
    · rcases hrows id' r' hr' with ⟨hid', _⟩ | ⟨hne', hold'⟩
      · exact hid.symm.trans hid'
      · exact absurd heq.symm (htime id' r' hold' (Ne.symm hne'))
    · rcases hrows id' r' hr' with ⟨_, rfl⟩ | ⟨_, hold'⟩
      · exact absurd heq (htime id r hold (Ne.symm hne))
      · exact h.times id id' r r' hold hold' heq
  · show (mapping (w'.spaces.find space.spaceId) id).map _ =
      (s'.embeddings.find (id, space.spaceId)).map _
    rw [hspaces, hembeddings]
    exact h.hashes id
  · show ∀ v, w'.spaces.find space.spaceId = some v → _
    rw [hspaces]
    exact h.dimension

theorem SameStep.bind (h : SameStep space x y s w)
    (hrest : ∀ s' w', Agree space s' w' → SameStep space x' y' s' w') :
    SameStep space (x >>= fun _ => x') (y >>= fun _ => y') s w := by
  obtain ⟨hresult, hagree⟩ := h
  cases hx : (x s).result with
  | ok _ =>
    have hy := hresult.mp hx
    obtain ⟨hresult', hagree'⟩ := hrest _ _ hagree
    unfold SameStep
    rw [result_bind_of_ok hx, result_bind_of_ok hy, final_bind_of_ok hx, final_bind_of_ok hy]
    exact ⟨hresult', hagree'⟩
  | error e =>
    cases hy : (y w).result with
    | ok _ =>
      rw [hresult.mpr hy] at hx
      cases hx
    | error e' =>
      have hx' : (x >>= fun _ => x') s = ⟨(x s).steps, .error e⟩ :=
        bind_of_error (show x s = ⟨(x s).steps, .error e⟩ by rw [← hx])
      have hy' : (y >>= fun _ => y') w = ⟨(y w).steps, .error e'⟩ :=
        bind_of_error (show y w = ⟨(y w).steps, .error e'⟩ by rw [← hy])
      unfold SameStep Durable.final
      rw [hx', hy']
      exact ⟨by simp, hagree⟩

/-! ## The operations -/

theorem not_nan_of_isFinite {confidence : F32} (h : confidence.isFinite) :
    confidence ≠ .nan := by
  rintro rfl
  cases h

/-- A finite record is written as it is. -/
theorem write_puts_of_isFinite (haccepts : WdbxMemory.Accepts rec)
    (hfinite : rec.confidence.isFinite) :
    Puts find spaces (write rec) rec w := by
  have hjson := toJson_of_isFinite hfinite
  nth_rewrite 2 [← hjson]
  exact write_puts haccepts

theorem sameStep_store (h : Agree space s w) (hfresh : Fresh s rec) :
    SameStep space (SqliteMemory.store rec) (store rec) s w := by
  obtain ⟨hid, hfinite, hfree, htime⟩ := hfresh
  by_cases hvalid : validateTrain rec = .ok ()
  · refine .puts h (SqliteMemory.store_puts ⟨hvalid, not_nan_of_isFinite hfinite, hfree⟩) ?_
      ⟨hvalid, hid⟩ hfinite (fun id r hr _ => htime id r hr)
    exact write_puts_of_isFinite ⟨hvalid, hid⟩ hfinite
  · exact .refuses h (SqliteMemory.store_refuses (fun haccepts => hvalid haccepts.1))
      (write_refuses (fun haccepts => hvalid haccepts.1))

/-- A record that is there, rewritten. -/
theorem sameStep_rewrite (h : Agree space s w) (hr : s.find rec.id = some r)
    (hfinite : rec.confidence.isFinite)
    (htime : ∀ id r, s.find id = some r → id ≠ rec.id → r.timestamp ≠ rec.timestamp) :
    SameStep space (SqliteMemory.update rec) (write rec) s w := by
  by_cases hvalid : validateTrain rec = .ok ()
  · have hid : Conversation.trim rec.id ≠ "" := by
      have haccepts := (h.accepted rec.id r hr).2
      rwa [show r.id = rec.id from Table.pk_of_find hr] at haccepts
    refine .puts h (SqliteMemory.update_puts hvalid (not_nan_of_isFinite hfinite) ⟨r, hr⟩) ?_
      ⟨hvalid, hid⟩ hfinite htime
    exact write_puts_of_isFinite ⟨hvalid, hid⟩ hfinite
  · exact .refuses h (SqliteMemory.update_refuses (fun haccepts => hvalid haccepts.1))
      (write_refuses (fun haccepts => hvalid haccepts.1))

theorem Agree.get_eq_some (h : Agree space s w) : w.get id = .ok (some r) ↔ s.find id = some r := by
  rw [h.get, SqliteMemory.get_eq_some]

variable (h : Agree space s w)

include h

theorem Agree.get_ne (hnone : s.find id = none) (r : MemoryRecord) : w.get id ≠ .ok (some r) := by
  intro hr
  rw [h.get_eq_some, hnone] at hr
  cases hr

/-- The times of the others, for a record that keeps its own. -/
theorem Agree.other_times (hr : s.find id = some r) :
    ∀ k q, s.find k = some q → k ≠ id → q.timestamp ≠ r.timestamp :=
  fun k q hq hk heq => hk (h.times k id q r hq hr heq)

theorem sameStep_update (hfinite : rec.confidence.isFinite)
    (htime : ∀ id r, s.find id = some r → id ≠ rec.id → r.timestamp ≠ rec.timestamp) :
    SameStep space (SqliteMemory.update rec) (update rec) s w := by
  cases hfind : s.find rec.id with
  | none =>
    refine .refuses h (SqliteMemory.update_refuses ?_)
      (getExisting_bind_refuses (h.get_ne hfind))
    rintro ⟨_, _, r, hr⟩
    rw [hfind] at hr
    cases hr
  | some r =>
    have hrewrite := sameStep_rewrite h hfind hfinite htime
    have hupdate : update rec w = write rec w :=
      getExisting_bind_of_get (h.get_eq_some.mpr hfind)
    unfold SameStep Durable.final at hrewrite ⊢
    rw [hupdate]
    exact hrewrite

theorem sameStep_invalidate : SameStep space (SqliteMemory.invalidate id) (invalidate id) s w := by
  cases hfind : s.find id with
  | none =>
    exact .refuses h (SqliteMemory.invalidate_refuses hfind)
      (getExisting_bind_refuses (h.get_ne hfind))
  | some r =>
    have hid : r.id = id := Table.pk_of_find hfind
    have haccepts : WdbxMemory.Accepts { r with obsolete := true } := h.accepted id r hfind
    have hfinite : ({ r with obsolete := true } : MemoryRecord).confidence.isFinite :=
      h.finite id r hfind
    have hinvalidate : invalidate id w = write { r with obsolete := true } w :=
      getExisting_bind_of_get (h.get_eq_some.mpr hfind)
    refine .puts h (SqliteMemory.invalidate_puts hfind) ?_ haccepts hfinite ?_
    · unfold Puts
      rw [hinvalidate]
      exact write_puts_of_isFinite haccepts hfinite
    · show ∀ k q, s.find k = some q → k ≠ r.id → q.timestamp ≠ r.timestamp
      rw [hid]
      exact h.other_times hfind

theorem sameStep_promote :
    SameStep space (SqliteMemory.promote id newRetention) (promote id newRetention) s w := by
  cases hfind : s.find id with
  | none =>
    exact .refuses h (SqliteMemory.promote_refuses hfind)
      (getExisting_bind_refuses (h.get_ne hfind))
  | some r =>
    have hid : (r.promoted newRetention).id = id := by
      rw [MemoryRecord.id_promoted]
      exact Table.pk_of_find hfind
    have hfound : s.find (r.promoted newRetention).id = some r := by rw [hid, hfind]
    have htime : ∀ k q, s.find k = some q → k ≠ (r.promoted newRetention).id →
        q.timestamp ≠ (r.promoted newRetention).timestamp := by
      rw [hid]
      exact fun k q hq hk => h.other_times hfind k q hq hk
    have hrewrite := sameStep_rewrite h hfound (h.finite id r hfind) htime
    have hpromote : promote id newRetention w = write (r.promoted newRetention) w :=
      getExisting_bind_of_get (h.get_eq_some.mpr hfind)
    unfold SameStep Durable.final at hrewrite ⊢
    rw [hpromote, SqliteMemory.promote_eq hfind]
    exact hrewrite

theorem sameStep_supersede (hfresh : Fresh s rec) :
    SameStep space (SqliteMemory.supersede oldId rec) (supersede oldId rec) s w := by
  have hnew : Fresh s { rec with supersedes := some oldId } := hfresh
  exact (sameStep_store h hnew).bind (fun _ _ hagree => sameStep_invalidate hagree)

omit h

/-! ## Embeddings -/

/-- The checks of both backends before a vector is written. -/
def Ready (s : SqliteMemory) (embedding : StoredEmbedding) : Prop :=
  embedding.validate = .ok () ∧ ∃ r, s.find embedding.memoryId = some r ∧ r.obsolete = false ∧
    contentHash r = embedding.contentHash

variable {embedding : StoredEmbedding}

theorem sqlite_putEmbedding_of_ready (h : Ready s embedding) :
    SqliteMemory.putEmbedding embedding s = ⟨[⟨s.memory, s.embeddings.put embedding⟩], .ok ()⟩ := by
  obtain ⟨hvalid, r, hr, hlive, hhash⟩ := h
  unfold SqliteMemory.putEmbedding
  rw [lift_bind_of_ok hvalid]
  refine commit_of_ok ?_
  rw [show s.memory.find embedding.memoryId = some r from hr]
  simp [hlive, hhash]

theorem sqlite_putEmbedding_refuses (h : ¬ Ready s embedding) :
    Refuses (SqliteMemory.putEmbedding embedding) s := by
  unfold SqliteMemory.putEmbedding
  cases hvalid : embedding.validate with
  | error e => exact ⟨e, lift_bind_of_error rfl⟩
  | ok _ =>
    rw [Refuses, lift_bind_of_ok rfl]
    cases hfind : s.memory.find embedding.memoryId with
    | none => exact ⟨notFound embedding.memoryId, commit_of_error (by rw [hfind]; rfl)⟩
    | some r =>
      cases hlive : r.obsolete with
      | true =>
        exact ⟨"cannot attach an embedding to obsolete memory: " ++ r.id,
          commit_of_error (by rw [hfind]; simp [hlive, ensure])⟩
      | false =>
        have hhash : contentHash r ≠ embedding.contentHash :=
          fun hhash => h ⟨hvalid, r, hfind, hlive, hhash⟩
        exact ⟨"memory changed while it was being embedded: " ++ r.id,
          commit_of_error (by rw [hfind]; simp [hlive, hhash, ensure])⟩

theorem wdbx_putEmbedding_refuses (hagree : Agree space s w) (h : ¬ Ready s embedding) :
    Refuses (putEmbedding embedding) w := by
  unfold putEmbedding
  cases hvalid : embedding.validate with
  | error e => exact ⟨e, lift_bind_of_error rfl⟩
  | ok _ =>
    rw [Refuses, lift_bind_of_ok rfl]
    cases hfind : s.find embedding.memoryId with
    | none => exact getExisting_bind_refuses (hagree.get_ne hfind)
    | some r =>
      rw [getExisting_bind_of_get (hagree.get_eq_some.mpr hfind)]
      cases hlive : r.obsolete with
      | true => exact ⟨_, lift_bind_of_error rfl⟩
      | false =>
        have hhash : contentHash r ≠ embedding.contentHash :=
          fun hhash => h ⟨hvalid, r, hfind, hlive, hhash⟩
        rw [lift_bind_of_ok ((ensure_eq_ok (u := ())).mpr (by rfl))]
        exact ⟨"memory changed while it was being embedded: " ++ r.id,
          lift_bind_of_error (by simp [hhash, ensure])⟩

/-- The space after an embedding: one more vector, and the memory's mapping
moved to it. -/
def withEmbedding (space : VersionedStore) (embedding : StoredEmbedding) : VersionedStore :=
  { space with
    vectors := space.vectors ++ [embedding.vector]
    mappings := space.mappings.put ⟨space.vectors.length, embedding⟩ }

theorem wdbx_putEmbedding_of_ready (hagree : Agree space s w) (h : Ready s embedding)
    (hdir : spaceDir embedding.spaceId = .ok ())
    (hdimension : ∀ v, w.spaces.find embedding.spaceId = some v → v.vectors.isEmpty ∨
      vectorDimensions v = some embedding.dimension) :
    (putEmbedding embedding w).result = .ok () ∧ ((putEmbedding embedding).final w).kv = w.kv ∧
      ((putEmbedding embedding).final w).spaces.find embedding.spaceId =
        some (withEmbedding ((w.spaces.find embedding.spaceId).getD ⟨embedding.spaceId, [], .empty⟩)
          embedding) := by
  obtain ⟨hvalid, r, hr, hlive, hhash⟩ := h
  set opened := (w.spaces.find embedding.spaceId).getD ⟨embedding.spaceId, [], .empty⟩ with hopened
  have hcreate : createSpace embedding.spaceId w = ⟨[⟨w.kv, w.spaces.put opened⟩], .ok opened⟩ := by
    unfold createSpace
    rw [lift_bind_of_ok hdir]
    exact commit_of_ok rfl
  have hwidth : (opened.vectors.isEmpty ||
      decide (vectorDimensions opened = some embedding.dimension)) := by
    rw [hopened]
    cases hfind : w.spaces.find embedding.spaceId with
    | none => rfl
    | some v => simpa using hdimension v hfind
  have hid : opened.spaceId = embedding.spaceId := by
    rw [hopened]
    cases hfind : w.spaces.find embedding.spaceId with
    | none => rfl
    | some v => exact Table.pk_of_find hfind
  have hrun : ∃ steps, putEmbedding embedding w = ⟨steps, .ok ()⟩ ∧
      ∃ spaces, steps.getLastD w = ⟨w.kv, spaces⟩ ∧
        spaces.find embedding.spaceId = some (withEmbedding opened embedding) := by
    unfold putEmbedding
    rw [lift_bind_of_ok hvalid, getExisting_bind_of_get (hagree.get_eq_some.mpr hr),
      lift_bind_of_ok ((ensure_eq_ok (u := ())).mpr (by rw [hlive]; rfl)),
      lift_bind_of_ok ((ensure_eq_ok (u := ())).mpr (decide_eq_true hhash)), bind_of_ok hcreate,
      lift_bind_of_ok ((ensure_eq_ok (u := ())).mpr hwidth)]
    refine ⟨_, rfl, _, rfl, ?_⟩
    rw [Table.find_put, if_pos hid]
    rfl
  obtain ⟨steps, hrun, spaces, hlast, hfind⟩ := hrun
  unfold Durable.final
  rw [hrun]
  show _ ∧ (steps.getLastD w).kv = _ ∧ (steps.getLastD w).spaces.find _ = _
  rw [hlast]
  exact ⟨rfl, rfl, hfind⟩

theorem Agree.of_embedding (h : Agree space s w)
    (hmemory : s'.memory = s.memory) (hkv : w'.kv = w.kv)
    (hhashes : ∀ id, (mapping (w'.spaces.find space.spaceId) id).map
      (fun m => m.embedding.contentHash) = s'.storedHash space.spaceId id)
    (hdimension : ∀ v, w'.spaces.find space.spaceId = some v → v.vectors.isEmpty ∨
      vectorDimensions v = some space.dimension) : Agree space s' w' := by
  have hfind : ∀ id, s'.find id = s.find id := fun id => by
    unfold SqliteMemory.find
    rw [hmemory]
  refine ⟨fun id => ?_, fun id r hr => h.accepted id r ((hfind id).symm.trans hr),
    fun id r hr => h.finite id r ((hfind id).symm.trans hr), fun id id' r r' hr hr' =>
      h.times id id' r r' ((hfind id).symm.trans hr) ((hfind id').symm.trans hr'), hhashes, hdimension⟩
  rw [hfind, ← h.find]
  unfold WdbxMemory.find
  rw [hkv]

theorem sameStep_putEmbedding (h : Agree space s w)
    (hdir : spaceDir space.spaceId = .ok ()) (hspace : embedding.spaceId = space.spaceId)
    (hwidth : embedding.dimension = space.dimension) :
    SameStep space (SqliteMemory.putEmbedding embedding) (putEmbedding embedding) s w := by
  by_cases hready : Ready s embedding
  · have hsqlite := sqlite_putEmbedding_of_ready hready
    obtain ⟨hresult, hkv, hfind⟩ := wdbx_putEmbedding_of_ready h hready (by rw [hspace]; exact hdir)
      (by rw [hspace, hwidth]; exact h.dimension)
    rw [hspace] at hfind
    refine ⟨by rw [hsqlite, hresult], ?_⟩
    have hfinal : (SqliteMemory.putEmbedding embedding).final s =
        ⟨s.memory, s.embeddings.put embedding⟩ := by
      unfold Durable.final
      rw [hsqlite]
      rfl
    rw [hfinal]
    refine h.of_embedding rfl hkv (fun id => ?_) (fun v hv => ?_)
    · rw [hfind]
      have hold := h.hashes id
      unfold mapping at hold ⊢
      unfold SqliteMemory.storedHash at hold ⊢
      show (Table.find (Table.put _ _) id).map _ = (Table.find (Table.put _ _) _).map _
      rw [Table.find_put, Table.find_put]
      by_cases hid : embedding.memoryId = id
      · rw [if_pos hid, if_pos (by rw [hid, hspace])]
        rfl
      · rw [if_neg hid, if_neg (fun heq => hid (Prod.ext_iff.mp heq).1), ← hold]
        cases w.spaces.find space.spaceId <;> rfl
    · rw [hfind] at hv
      cases hv
      right
      unfold vectorDimensions withEmbedding
      have hlength : embedding.vector.length = space.dimension := by
        have hvalid := hready.1
        simp only [StoredEmbedding.validate, bind_ok_iff, ensure_eq_ok] at hvalid
        obtain ⟨_, hsize, _⟩ := hvalid
        simp only [Bool.and_eq_true, decide_eq_true_eq] at hsize
        rw [hsize.2, hwidth]
      cases hopened : w.spaces.find space.spaceId with
      | none => exact congrArg some hlength
      | some v =>
        have hold := h.dimension v hopened
        unfold vectorDimensions at hold
        show (v.vectors ++ [embedding.vector]).head?.map List.length = some space.dimension
        cases hvectors : v.vectors with
        | nil => exact congrArg some hlength
        | cons first rest => simpa [hvectors] using hold
  · exact .refuses h (sqlite_putEmbedding_refuses hready) (wdbx_putEmbedding_refuses h hready)

/-- Every admitted write keeps the two in step. -/
theorem sameStep_perform (h : Agree space s w)
    (hdir : spaceDir space.spaceId = .ok ()) (hadmits : Admits space s op) :
    SameStep space ((sqlite parseRfc3339).perform op) ((wdbx parseRfc3339).perform op) s w := by
  cases op with
  | store rec => exact sameStep_store h hadmits
  | update rec => exact sameStep_update h hadmits.1 hadmits.2
  | invalidate id => exact sameStep_invalidate h
  | promote id newRetention => exact sameStep_promote h
  | supersede oldId newRec => exact sameStep_supersede h hadmits
  | putEmbedding embedding => exact sameStep_putEmbedding h hdir hadmits.1 hadmits.2

end Steps

end Abbey.Memory
