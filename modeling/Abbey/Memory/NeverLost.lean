import Abbey.Memory.Lost

/-!
# Which writes of the two backends lose nothing

The two backends as instances of `WriteSpec`, and the writes that lose
nothing for each of them.  SQLite refuses a taken id and WDBX overwrites it;
a supersede is atomic in neither, since its two writes are committed one
after the other.
-/

namespace Abbey.Memory

open Abbey.Lib WdbxMemory Except

variable {x : Durable SqliteMemory String Unit} {r rec : MemoryRecord} {id : String}
  {parseRfc3339 : String → Option Int}

/-! ## SQLite -/

namespace SqliteMemory

/-- The writes that lose nothing: a supersede must find its old record
obsolete already. -/
def Harmless (db : SqliteMemory) : Op → Prop
  | .supersede oldId newRec => db.Accepts newRec → newRec.obsolete = false ∧
      ∃ old, db.get oldId = .ok (some old) ∧ old.obsolete = true
  | _ => True

variable {db : SqliteMemory}

theorem get_eq_some : db.get id = .ok (some r) ↔ db.find id = some r := by
  unfold get find
  rw [ok.injEq]

theorem get_of_puts (h : Puts find embeddings x rec db) :
    ∃ db', x db = ⟨[db'], .ok ()⟩ ∧
      ∀ id, db'.get id = if rec.id = id then .ok (some rec) else db.get id := by
  obtain ⟨db', hrun, _, hfind⟩ := h
  refine ⟨db', hrun, fun id => ?_⟩
  show ok (db'.find id) = _
  rw [hfind]
  split_ifs <;> rfl

variable {db db' : SqliteMemory}

theorem get_of_crash_puts (h : Puts find embeddings x rec db)
    (hcrash : Crash x db db') (hid : rec.id ≠ id) : db'.get id = db.get id := by
  obtain ⟨db₁, hrun, hget⟩ := get_of_puts h
  rcases hcrash with rfl | hmem
  · rfl
  · rw [hrun] at hmem
    rw [List.mem_singleton.mp hmem, hget, if_neg hid]

theorem update_other (hcrash : Crash (update rec) db db')
    (hid : rec.id ≠ id) : db'.get id = db.get id := by
  by_cases h : validateTrain rec = .ok () ∧ rec.confidence ≠ .nan ∧ ∃ r, db.find rec.id = some r
  · exact get_of_crash_puts (update_puts h.1 h.2.1 h.2.2) hcrash hid
  · rw [(update_refuses h).crash hcrash]

theorem promote_other
    (hcrash : Crash (promote id newRetention) db db') (hk : id ≠ k) : db'.get k = db.get k := by
  cases hfind : db.find id with
  | none => rw [(promote_refuses hfind).crash hcrash]
  | some r =>
    rw [crash_congr (promote_eq hfind)] at hcrash
    refine update_other hcrash ?_
    rw [MemoryRecord.id_promoted, show r.id = id from Table.pk_of_find hfind]
    exact hk

theorem writeSpec (parseRfc3339 : String → Option Int) :
    (sqlite parseRfc3339).WriteSpec Accepts (fun rec => .ok (some rec)) (fun _ => True) where
  store_accepted _ _ haccepts := get_of_puts (store_puts haccepts)
  store_refused _ _ h := store_refuses h
  invalidate_found db id r _ hr := by
    have hfind := get_eq_some.mp hr
    obtain ⟨db', hrun, hget⟩ := get_of_puts (invalidate_puts hfind)
    refine ⟨db', hrun, fun k => ?_⟩
    show db'.get k = _
    rw [hget, show r.id = id from Table.pk_of_find hfind]
    rfl
  invalidate_missing db id h := by
    refine invalidate_refuses ?_
    cases hfind : db.find id with
    | none => rfl
    | some r => exact absurd (get_eq_some.mpr hfind) (h r)
  supersede_eq _ _ := rfl
  update_other _ _ _ hcrash _ hid := update_other hcrash hid
  promote_other _ _ _ _ _ hcrash _ hk := promote_other hcrash hk
  putEmbedding_same db embedding db' hcrash id := by
    show ok (db'.memory.find id) = ok (db.memory.find id)
    rw [crash_putEmbedding hcrash]
  readBack_some _ _ h := by
    cases h
    rfl
  invariant _ _ _ _ _ := trivial

theorem harmless_iff :
    (sqlite parseRfc3339).Harmless Accepts (fun rec => .ok (some rec)) db op ↔ db.Harmless op := by
  cases op with
  | store rec =>
    refine ⟨fun _ => trivial, fun _ haccepts r hr => ?_⟩
    have hnone : db.find rec.id = none := haccepts.2.2
    have hsome : db.find rec.id = some r := get_eq_some.mp hr
    rw [hnone] at hsome
    cases hsome
  | supersede oldId newRec =>
    refine forall_congr' (fun haccepts => ⟨fun h => ?_, fun ⟨hlive, hold⟩ => .inr ?_⟩)
    · rcases h with ⟨hthere, _⟩ | ⟨_, hlive, hold⟩
      · have hnone : db.find newRec.id = none := haccepts.2.2
        have hsome : db.find newRec.id = some _ := get_eq_some.mp hthere
        rw [hnone] at hsome
        cases hsome
      · exact ⟨hlive.2, hold⟩
    · refine ⟨fun r hr => ?_, ⟨rfl, hlive⟩, hold⟩
      have hnone : db.find newRec.id = none := haccepts.2.2
      have hsome : db.find newRec.id = some r := get_eq_some.mp hr
      rw [hnone] at hsome
      cases hsome
  | _ => exact Iff.rfl

end SqliteMemory

/-! ## WDBX -/

namespace WdbxMemory

/-- What is read back of a record. -/
def readBack (rec : MemoryRecord) : Except String (Option MemoryRecord) :=
  (fromJson (toJson rec)).map some

/-- The writes that lose nothing.  A store must find its id free, or there
the same record; a supersede moreover its old record obsolete already,
unless the new record is there and the first write changes nothing. -/
def Harmless (db : WdbxMemory) : Op → Prop
  | .store rec => Accepts rec → ∀ r, db.get rec.id = .ok (some r) → r = rec
  | .supersede oldId newRec =>
    let new := { newRec with supersedes := some oldId }
    let live := newRec.confidence.isFinite = true ∧ newRec.obsolete = false
    Accepts newRec →
      (db.get newRec.id = readBack new ∧
        ∀ old, db.get oldId = .ok (some old) → oldId ≠ newRec.id ∧ live) ∨
      ((∀ r, db.get newRec.id ≠ .ok (some r)) ∧ live ∧
        ∃ old, db.get oldId = .ok (some old) ∧ old.obsolete = true)
  | _ => True

theorem readBack_eq_some :
    readBack rec = .ok (some r) ↔ rec.confidence.isFinite ∧ r = rec := by
  unfold readBack fromJson toJson
  cases hfinite : rec.confidence.isFinite with
  | false => simp [F32.isFinite, Except.map]
  | true =>
    simp only [hfinite, if_true, ensure_true, ok_bind, Except.map, Except.ok.injEq,
      Option.some.injEq, true_and]
    exact eq_comm

theorem toJson_of_isFinite (h : rec.confidence.isFinite) : toJson rec = rec := by
  unfold toJson
  rw [h, if_pos rfl]

variable {db : WdbxMemory} {x : Durable WdbxMemory String Unit}

theorem get_of_puts (h : Puts find spaces x (toJson rec) db) : ∃ db', x db = ⟨[db'], .ok ()⟩ ∧
      ∀ id, db'.get id = if rec.id = id then readBack rec else db.get id := by
  obtain ⟨db', hrun, _, hfind⟩ := h
  refine ⟨db', hrun, fun id => ?_⟩
  have hid : db'.kv.find id = if rec.id = id then some (toJson rec) else db.kv.find id := hfind id
  unfold get readBack
  rw [hid]
  split_ifs <;> rfl

theorem Sound.puts (hdb : db.Sound)
    (haccepts : Accepts rec) (h : Puts find spaces x (toJson rec) db) (hcrash : Crash x db db') :
    db'.Sound := by
  obtain ⟨db₁, hrun, _, hfind⟩ := h
  rcases hcrash with rfl | hmem
  · exact hdb
  · rw [hrun] at hmem
    rw [List.mem_singleton.mp hmem]
    intro id r hr
    rw [hfind] at hr
    split_ifs at hr
    · cases hr
      refine ⟨haccepts, ?_⟩
      unfold toJson
      cases rec.confidence <;> rfl
    · exact hdb id r hr

theorem Sound.write {db db' : WdbxMemory} (hdb : db.Sound) (hcrash : Crash (write rec) db db') :
    db'.Sound := by
  by_cases haccepts : Accepts rec
  · exact hdb.puts haccepts (write_puts haccepts) hcrash
  · rw [(write_refuses haccepts).crash hcrash]
    exact hdb

/-- A write that reads an existing record first. -/
theorem crash_getExisting {f : MemoryRecord → Durable WdbxMemory String Unit}
    (hcrash : Crash (getExisting id >>= f) db db') :
    db' = db ∨ ∃ r, db.get id = .ok (some r) ∧ Crash (f r) db db' := by
  by_cases hfound : ∃ r, db.get id = .ok (some r)
  · obtain ⟨r, hr⟩ := hfound
    right
    exact ⟨r, hr, (crash_congr (getExisting_bind_of_get hr)).mp hcrash⟩
  · left
    exact (getExisting_bind_refuses (fun r hr => hfound ⟨r, hr⟩)).crash hcrash

theorem write_other {db db' : WdbxMemory} (hcrash : Crash (write rec) db db') (hid : rec.id ≠ id) :
    db'.get id = db.get id := by
  by_cases haccepts : Accepts rec
  · obtain ⟨db₁, hrun, hget⟩ := get_of_puts (write_puts haccepts)
    rcases hcrash with rfl | hmem
    · rfl
    · rw [hrun] at hmem
      rw [List.mem_singleton.mp hmem, hget, if_neg hid]
  · rw [(write_refuses haccepts).crash hcrash]

theorem id_of_get (h : db.get id = .ok (some r)) :
    r.id = id := Table.pk_of_find (get_eq_some.mp h).1

theorem Sound.perform (hdb : db.Sound)
    (hcrash : Crash ((wdbx parseRfc3339).perform op) db db') : db'.Sound := by
  have hinvalidate : ∀ {id : String} {db db' : WdbxMemory}, db.Sound →
      Crash (invalidate id) db db' → db'.Sound := by
    intro id db db' hdb hcrash
    rcases crash_getExisting hcrash with rfl | ⟨_, _, hwrite⟩
    · exact hdb
    · exact hdb.write hwrite
  cases op with
  | store rec => exact hdb.write hcrash
  | update rec | promote id newRetention =>
    rcases crash_getExisting hcrash with rfl | ⟨_, _, hwrite⟩
    · exact hdb
    · exact hdb.write hwrite
  | invalidate id => exact hinvalidate hdb hcrash
  | supersede oldId newRec =>
    rcases crash_bind hcrash with hwrite | ⟨_, mid, hends, hrest⟩
    · exact hdb.write hwrite
    · exact hinvalidate (hdb.write hends.crash) hrest
  | putEmbedding embedding =>
    intro id r hr
    refine hdb id r ?_
    rw [← hr]
    show db.kv.find id = db'.kv.find id
    rw [crash_putEmbedding hcrash]

theorem Sound.accepts (hdb : db.Sound) (h : db.get id = .ok (some r)) :
    Accepts r := (hdb id r (get_eq_some.mp h).1).1

theorem writeSpec (parseRfc3339 : String → Option Int) :
    (wdbx parseRfc3339).WriteSpec (fun _ => Accepts) readBack Sound where
  store_accepted _ _ haccepts := get_of_puts (write_puts haccepts)
  store_refused _ _ h := write_refuses h
  invalidate_found db id r hdb hr := by
    have hid := id_of_get hr
    have haccepts : Accepts r := hdb.accepts hr
    have hobsolete : Accepts { r with obsolete := true } := haccepts
    obtain ⟨db', hrun, hget⟩ := get_of_puts (x := write { r with obsolete := true }) (write_puts hobsolete)
    refine ⟨db', (getExisting_bind_of_get hr).trans hrun, fun k => ?_⟩
    show db'.get k = _
    rw [hget, show ({ r with obsolete := true } : MemoryRecord).id = id from hid]
    split_ifs
    · exact readBack_eq_some.mpr ⟨(get_eq_some.mp hr).2, rfl⟩
    · rfl
  invalidate_missing _ _ h := getExisting_bind_refuses h
  supersede_eq _ _ := rfl
  update_other db rec db' hcrash id hid := by
    rcases crash_getExisting hcrash with rfl | ⟨_, _, hwrite⟩
    · rfl
    · exact write_other hwrite hid
  promote_other db id newRetention db' _ hcrash k hk := by
    rcases crash_getExisting hcrash with rfl | ⟨r, hr, hwrite⟩
    · rfl
    · refine write_other hwrite ?_
      rw [MemoryRecord.id_promoted, id_of_get hr]
      exact hk
  putEmbedding_same db embedding db' hcrash id := by
    show db'.get id = db.get id
    unfold get
    rw [crash_putEmbedding hcrash]
  readBack_some _ _ h := (readBack_eq_some.mp h).2
  invariant _ _ _ hdb hcrash := hdb.perform hcrash

theorem harmless_iff :
    (wdbx parseRfc3339).Harmless (fun _ => Accepts) readBack db op ↔ db.Harmless op := by
  cases op with
  | store rec =>
    refine forall_congr' (fun _ => forall_congr' (fun r => forall_congr' (fun hr => ?_)))
    rw [readBack_eq_some]
    refine ⟨fun h => h.2, ?_⟩
    rintro rfl
    exact ⟨(get_eq_some.mp hr).2, rfl⟩
  | supersede oldId newRec =>
    have hlive : readBack { newRec with supersedes := some oldId } =
        .ok (some { newRec with supersedes := some oldId }) ↔ newRec.confidence.isFinite := by
      rw [readBack_eq_some]
      exact and_iff_left rfl
    unfold MemoryStore.Harmless Harmless
    simp only [hlive]
    exact Iff.rfl
  | _ => exact Iff.rfl

theorem sound_of_reachable (h : (wdbx parseRfc3339).Reachable db) : db.Sound := by
  induction h with
  | empty =>
    intro id r hr
    cases hr
  | write _ hcrash ih => exact ih.perform hcrash

end WdbxMemory

/-! ## Both -/

theorem sqlite_neverLost_iff (parseRfc3339 : String → Option Int) (db : SqliteMemory) (op : Op) :
    (sqlite parseRfc3339).NeverLost op db ↔ db.Harmless op :=
  ((SqliteMemory.writeSpec parseRfc3339).neverLost_iff trivial op).trans SqliteMemory.harmless_iff

theorem wdbx_neverLost_iff (h : (wdbx parseRfc3339).Reachable db) (op : Op) :
    (wdbx parseRfc3339).NeverLost op db ↔ db.Harmless op :=
  ((writeSpec parseRfc3339).neverLost_iff (sound_of_reachable h) op).trans
    harmless_iff

/-- On every store that writes lead to, crashes included, exactly the
harmless writes lose nothing, and a run of harmless writes keeps every
record it does not name. -/
theorem neverLost_exactly (parseRfc3339 : String → Option Int) :
    (∀ db, (sqlite parseRfc3339).Reachable db → ∀ op,
      (sqlite parseRfc3339).NeverLost op db ↔ db.Harmless op) ∧
    (∀ db, (wdbx parseRfc3339).Reachable db → ∀ op,
      (wdbx parseRfc3339).NeverLost op db ↔ db.Harmless op) ∧
    (∀ db db' id r, (sqlite parseRfc3339).Reachable db →
      (sqlite parseRfc3339).Leads (fun db op => db.Harmless op ∧ ¬ MemoryStore.Names id op) db db' →
      db.get id = .ok (some r) → db'.get id = .ok (some r)) ∧
    ∀ db db' id r, (wdbx parseRfc3339).Reachable db →
      (wdbx parseRfc3339).Leads (fun db op => db.Harmless op ∧ ¬ MemoryStore.Names id op) db db' →
      db.get id = .ok (some r) → db'.get id = .ok (some r) :=
  ⟨fun db _ op => sqlite_neverLost_iff parseRfc3339 db op,
    fun _ hdb op => wdbx_neverLost_iff hdb op,
    fun _ _ _ _ hdb hrun hr => MemoryStore.get_of_leads
      (fun db op _ => (sqlite_neverLost_iff parseRfc3339 db op).mpr) hdb hrun hr,
    fun _ _ _ _ hdb hrun hr => MemoryStore.get_of_leads
      (fun _ op hdb => (wdbx_neverLost_iff hdb op).mpr) hdb hrun hr⟩

/-- A record of a session. -/
def sampleRecord (id timestamp summary : String) : MemoryRecord where
  id := id
  sourceType := "session"
  sourceRef := ""
  project := ""
  timestamp := timestamp
  origin := "system"
  payload := ""
  summary := summary
  tags := ["stm"]
  embeddingRef := none
  confidence := .finite (7 / 10)
  provenance := "abbey session"
  retention := "stm"
  supersedes := none
  classification := "internal"
  obsolete := false

theorem accepts_sampleRecord (timestamp summary : String) :
    WdbxMemory.Accepts (sampleRecord "a" timestamp summary) := by
  have hid : Conversation.trim "a" ≠ "" := by decide +kernel
  exact ⟨rfl, hid⟩

/-- A second store under an id replaces the first record in WDBX, and in
either backend a supersede of a missing record keeps the new one. -/
theorem records_are_lost :
    ¬ (∀ db, (wdbx (fun _ => none)).Reachable db → ∀ op, (wdbx (fun _ => none)).NeverLost op db) ∧
    ¬ ∀ db, (sqlite (fun _ => none)).Reachable db → ∀ op,
      (sqlite (fun _ => none)).NeverLost op db := by
  constructor
  · intro h
    obtain ⟨db₁, hrun, hget⟩ :
        ∃ db₁, write (sampleRecord "a" "2026" "first") ⟨.empty, .empty⟩ = ⟨[db₁], .ok ()⟩ ∧
          ∀ id, db₁.get id = if "a" = id then .ok (some (sampleRecord "a" "2026" "first"))
            else get ⟨.empty, .empty⟩ id :=
      get_of_puts (write_puts (accepts_sampleRecord "2026" "first"))
    have hreachable : (wdbx (fun _ => none)).Reachable db₁ := by
      have hcrash : Crash ((wdbx (fun _ => none)).perform (.store (sampleRecord "a" "2026" "first")))
          (wdbx (fun _ => none)).empty db₁ := .inr (by
        show db₁ ∈ Outcome.steps (write _ ⟨.empty, .empty⟩)
        rw [hrun]
        exact List.mem_singleton_self db₁)
      exact .write .empty hcrash
    have hfirst : db₁.get "a" = .ok (some (sampleRecord "a" "2026" "first")) := by
      rw [hget]
      rfl
    have heq := (wdbx_neverLost_iff hreachable _).mp
      (h db₁ hreachable (.store (sampleRecord "a" "2027" "second")))
      (accepts_sampleRecord "2027" "second") _ hfirst
    exact absurd (congrArg MemoryRecord.summary heq) (by decide)
  · intro h
    have hold := (sqlite_neverLost_iff _ _ _).mp
      (h _ .empty (.supersede "missing" (sampleRecord "a" "2026" "first")))
    obtain ⟨_, old, hget, _⟩ := hold ⟨rfl, by decide, rfl⟩
    cases hget

end Abbey.Memory
