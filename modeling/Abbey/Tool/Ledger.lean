import Abbey.Lib.Text
import Abbey.Tool.Consistency

/-!
# Runs of the governed ledger

`ledger_stays_consistent` carries the invariant of `Abbey.Tool.Consistency`
over whole runs.  The condition `Fitting` of a step names the two writes
that the invariant does not cover.

`ledger_breaks_at_capacity` is the run into the first of them.  A hundred
thousand governed approvals fill the table of the previews, and then a local
request, which counts another table, adds one more.  From then on every
governed call and every open is refused.
-/

namespace Abbey.Tool

open Abbey.Lib Abbey.Run Table List Except

variable {C : Capability} {db db' : ToolDb} {observed : List Observation}
variable {n : Nat} {callId : String} {call : ToolCall} {s : ToolSystem}

/-! ## Runs -/

/-- A local request for a call that is not there yet finds room in the table
of the previews, and an outcome that passes the check of the crate has
version 1. -/
structure Fitting (C : Capability) (s : ToolSystem) (call : ToolCall) : Prop where
  room : ∀ owner preview, call = .requestLocalApproval owner preview →
    owner.validate C preview = .ok () →
    (s.db.localApprovals.find preview.request.callId).isSome = true ∨
      s.db.previews.rows.length < capacity
  version : ∀ terminal, call.source = .ending terminal →
    C.isValidTerminal terminal = true → terminal.version = 1

/-- A local request writes nothing for a call that is there. -/
theorem requestLocalApproval_cases
    (h : requestLocalApproval C db owner preview = .ok (db', answer)) :
    owner.validate C preview = .ok () ∧
      ((db.localApprovals.find preview.request.callId).isSome = true → db' = db) := by
  unfold requestLocalApproval at h
  rw [bind_ok_iff] at h
  obtain ⟨_, hvalid, h⟩ := h
  refine ⟨hvalid, fun hfound => ?_⟩
  rw [if_pos hfound] at h
  simp only [bind_ok_iff, ok.injEq, Prod.mk.injEq] at h
  obtain ⟨_, _, _, _, hsame, _⟩ := h
  exact hsame.symm

theorem Consistent.commit (hc : Consistent C s.db) (hfit : Fitting C s call)
    (h : call.commit C s.db = .ok (db', observed)) : Consistent C db' := by
  have hplain : ∀ terminal, Source.plain = .ending terminal →
      C.isValidTerminal terminal → terminal.version = 1 := by
    intro terminal heq
    cases heq
  by_cases hlocal : ∃ owner preview, call = .requestLocalApproval owner preview
  · obtain ⟨owner, preview, rfl⟩ := hlocal
    rw [ToolCall.commit, reply_eq_ok] at h
    obtain ⟨answer, h, _⟩ := h
    obtain ⟨hvalid, hsame⟩ := requestLocalApproval_cases h
    refine hc.write (requestLocalApproval_writes h) (fun _ => ?_) hfit.version
    exact (hfit.room owner preview rfl hvalid).imp_left hsame
  · obtain ⟨mid, hfirst, hsecond, _⟩ := written_of_commit h
    have hsource : call.source ≠ .owned := by
      intro howned
      cases call with
      | requestLocalApproval owner preview => exact hlocal ⟨owner, preview, rfl⟩
      | _ => cases howned
    have hmid := hc.write hfirst (fun howned => absurd howned hsource) hfit.version
    exact hmid.write hsecond (by rintro ⟨⟩) hplain

/-- In every run whose local requests find room for their previews, the
validator accepts every state. -/
theorem ledger_stays_consistent (C : Capability) {s : ToolSystem}
    (h : Steps (toolStep C) (Fitting C) .initial s) : validateOn C s.db = .ok () := by
  have hconsistent : Consistent C s.db := by
    refine Steps.invariant (I := fun s => Consistent C s.db) ?_ h Consistent.empty
    intro s call t hs hfit hstep
    cases hstep
    unfold ToolSystem.after
    split
    · rename_i db' observed hcommit
      exact hs.commit hfit hcommit
    · exact hs
  exact validateOn_of_consistent hconsistent

/-! ## A run that fits -/

def sampleBinding : AuthorizationBinding where
  requestDigest := sampleDigest
  principalDigest := sampleDigest
  scopeDigest := sampleDigest
  packageDigest := sampleDigest
  grantDigest := sampleDigest
  policyDigest := sampleDigest
  schemaDigest := sampleDigest
  preconditionDigest := sampleDigest
  requiredApproval := .a1Actor
  compensationOrigin := none

def samplePrincipal : Principal := ⟨.humanSubject, "user-1"⟩

def sampleOwner : Owner := ⟨"tenant-1", "account-1", "node-1", "user-1", samplePrincipal⟩

/-- A local preview of one call. -/
def samplePreview (callId : String) : LocalApprovalPreview where
  version := 1
  tenantId := "tenant-1"
  accountId := "account-1"
  nodeId := "node-1"
  userId := "user-1"
  request := ⟨callId, samplePrincipal, ⟨"tenant-1", "local", ""⟩, sampleDigest, sampleDigest,
    sampleDigest, ""⟩
  binding := sampleBinding
  grantId := "grant-1"
  toolId := "tool-1"
  operation := "write"
  resource := "file"
  parameters := ""
  expectedEffects := ["file written"]
  createdAtMs := 1000
  expiresAtMs := 61000

def sampleExact : ExactApproval where
  binding := sampleBinding
  issuedAtMs := 1000
  approval := ⟨"decision-1", "call-1", sampleDigest, sampleDigest, "grant-1", samplePrincipal,
    none, .a1Actor, 61000, .approved⟩

/-- A governed call from its approval to its end, and a local request. -/
def sampleLifecycle : List ToolCall :=
  [.createGovernedToolApproval ⟨"call-1", "tool-1", sampleDigest.hex, 1000, 61000⟩ sampleBinding,
    .decideToolApproval "call-1" sampleDigest.hex "decision-1" .approve 2000,
    .prepare ⟨"call-1", "tool-1", sampleDigest, sampleBinding, some sampleExact, 3000⟩,
    .requestLocalApproval sampleOwner (samplePreview "call-2"),
    .finish sampleDigest sampleBinding ⟨1, .succeeded, some sampleDigest, .other "done"⟩ 4000]

/-- An executable form of `Fitting`. -/
def fits (s : ToolSystem) (call : ToolCall) : Bool :=
  s.db.previews.rows.length < capacity &&
    match call.source with
    | .ending terminal => terminal.version = 1
    | .plain | .owned => true

theorem fitting_of_fits (h : fits s call) : Fitting C s call := by
  unfold fits at h
  rw [Bool.and_eq_true] at h
  refine ⟨fun _ _ _ _ => .inr (by simpa using h.1), ?_⟩
  intro terminal hsource _
  rw [hsource] at h
  simpa using h.2

theorem ledger_stays_consistent_sample : ∃ s : ToolSystem,
    Steps (toolStep sampleCapability) (Fitting sampleCapability) .initial s ∧
      s.db.intents.rows.map GovernedIntent.state = [.succeeded] ∧
      s.db.previews.rows.length = 2 ∧ validateOn sampleCapability s.db = .ok () := by
  have hrun : run (fun s call => if fits s call then toolStep sampleCapability s call else none)
      .initial sampleLifecycle =
      some (sampleLifecycle.foldl (ToolSystem.after sampleCapability) .initial) := rfl
  have hsteps : Steps (toolStep sampleCapability) (Fitting sampleCapability) .initial
      (sampleLifecycle.foldl (ToolSystem.after sampleCapability) .initial) :=
    steps_of_checked_run (fun _ _ => fitting_of_fits) hrun
  exact ⟨_, hsteps, by decide +kernel, by decide +kernel,
    ledger_stays_consistent sampleCapability hsteps⟩

/-! ## A run that does not fit -/

/-- Seventeen binary digits of a number, the lowest first. -/
def digits (n : Nat) : List Char :=
  (List.range 17).map (fun i => if n.testBit i then '1' else '0')

/-- A call identifier for each number. -/
def callOf (n : Nat) : String := String.ofList (digits n)

theorem mem_digits (h : c ∈ digits n) : c = '0' ∨ c = '1' := by
  obtain ⟨i, _, rfl⟩ := mem_map.mp h
  split_ifs
  · exact .inr rfl
  · exact .inl rfl

theorem isIdentifier_callOf (n : Nat) : isIdentifier (callOf n) 128 := by
  have hsize : (callOf n).utf8ByteSize = 17 := by
    have hdigits : (digits n).map Char.utf8Size = replicate 17 1 := by
      refine eq_replicate_iff.mpr ⟨by simp [digits], ?_⟩
      intro size hsize
      obtain ⟨c, hc, rfl⟩ := mem_map.mp hsize
      rcases mem_digits hc with rfl | rfl <;> rfl
    rw [callOf, Lib.utf8ByteSize_ofChars, Lib.bytes, hdigits]
    rfl
  have hnonempty : (callOf n).isEmpty = false := by
    rw [Bool.eq_false_iff]
    intro hempty
    rw [String.isEmpty_iff_utf8ByteSize_eq_zero, hsize] at hempty
    cases hempty
  have hchars : (callOf n).toList.all isIdentifierChar := by
    rw [all_eq_true]
    intro c hc
    have hc' : c ∈ digits n := by simpa [callOf] using hc
    rcases mem_digits hc' with rfl | rfl <;> decide
  simp [isIdentifier, hsize, hnonempty, hchars]

theorem callOf_injective (hn : n < 2 ^ 17) (hm : m < 2 ^ 17) (h : callOf n = callOf m) : n = m := by
  have hdigits : digits n = digits m := String.ofList_injective h
  refine Nat.eq_of_testBit_eq (fun i => ?_)
  by_cases hi : i < 17
  · have hbit := congrArg (fun l => l[i]?) hdigits
    simp only [digits, getElem?_map, getElem?_range hi, Option.map_some,
      Option.some.injEq] at hbit
    cases hni : n.testBit i <;> cases hmi : m.testBit i <;> simp_all
  · have hpow : 2 ^ 17 ≤ 2 ^ i := Nat.pow_le_pow_right (by decide) (by omega)
    rw [Nat.testBit_lt_two_pow (by omega), Nat.testBit_lt_two_pow (by omega)]

/-- A request of an approval for a minute. -/
def minuteRequest (callId : String) : NewToolApproval :=
  ⟨callId, "tool-1", sampleDigest.hex, 1000, 61000⟩

/-- The store after a request is created. -/
def created (db : ToolDb) (approvals : Table ToolApprovalRecord.callId) (callId : String) :
    ToolDb :=
  { db with
    approvals
    approvalEvents := db.approvalEvents ++ [(minuteRequest callId).record.event 1000] }

/-- A request under a free call identifier is created. -/
theorem createOn_total (hcall : isIdentifier callId 128) (hintents : db.intents = .empty)
    (hfree : db.approvals.find callId = none) :
    ∃ approvals, db.approvals.insert? (minuteRequest callId).record = some approvals ∧
      createOn db (minuteRequest callId) =
        .ok (created db approvals callId, (minuteRequest callId).record) := by
  obtain ⟨approvals, hinsert⟩ := insert?_of_find_none
    (show db.approvals.find (minuteRequest callId).record.callId = none from hfree)
  have hself : (created db approvals callId).approvals.find callId =
      some (minuteRequest callId).record := find_insert_self hinsert
  have htool : isIdentifier "tool-1" 128 := by decide +kernel
  have hdigest : isDigest sampleDigest.hex := sampleDigest.valid
  have hintent : db.hasIntent callId = false := by simp [ToolDb.hasIntent, hintents, empty]
  have hbound : 61000 ≤ sqliteMax := by decide
  have hcreated : sqlU64 1000 = .ok 1000 := by simpa using by omega
  have hexpires : sqlU64 61000 = .ok 61000 := by simpa using hbound
  have hevent : insertEvent { db with approvals } ((minuteRequest callId).record.event 1000) =
      .ok (created db approvals callId) := by
    rw [insertEvent_eq_ok]
    refine ⟨?_, rfl⟩
    show ((created db approvals callId).approvals.find callId).isSome
    rw [hself]
    rfl
  refine ⟨approvals, hinsert, ?_⟩
  unfold createOn
  simp only [validateId, validateDigest, minuteRequest] at hinsert hevent hself ⊢
  simp [hcall, htool, hdigest, hintent, hcreated, hexpires, hinsert, hevent, hself,
    maxToolApprovalTtlMs]

theorem insertPreview_total
    (hinsert : db.approvals.insert? (minuteRequest callId).record = some approvals)
    (hpreviews : db.previews.insert? ⟨callId, sampleBinding⟩ = some previews) :
    insertPreview sampleCapability (created db approvals callId) ⟨callId, sampleBinding⟩ =
      .ok { created db approvals callId with previews } := by
  have hself : approvals.find callId = some (minuteRequest callId).record :=
    find_insert_self hinsert
  rw [insertPreview_eq_ok]
  refine ⟨⟨?_, rfl⟩, previews, hpreviews, rfl⟩
  show (approvals.find callId).isSome
  rw [hself]
  rfl

/-- A store with some governed approvals and nothing else. -/
structure Filled (n : Nat) (db : ToolDb) : Prop where
  length : db.previews.rows.length = n
  approvals : ∀ record ∈ db.approvals.rows, ∃ i < n, record.callId = callOf i
  previews : ∀ preview ∈ db.previews.rows, ∃ i < n, preview.callId = callOf i
  intents : db.intents = .empty
  localApprovals : db.localApprovals = .empty

/-- The next governed approval. -/
def fillCall (n : Nat) : ToolCall :=
  .createGovernedToolApproval (minuteRequest (callOf n)) sampleBinding

section Keys

variable {ρ : Type} {pk : ρ → String} {t t' : Table pk} {row : ρ}

theorem find_of_calls (h : ∀ row ∈ t.rows, ∃ i < n, pk row = callOf i)
    (hother : ∀ i < n, callOf i ≠ callId) : t.find callId = none := by
  rw [find_eq_none_iff]
  intro row hmem heq
  obtain ⟨i, hi, hcall⟩ := h row hmem
  exact hother i hi (hcall.symm.trans heq)

theorem calls_insert (hinsert : t.insert? row = some t') (hrow : pk row = callOf n)
    (h : ∀ row ∈ t.rows, ∃ i < n, pk row = callOf i) :
    ∀ row ∈ t'.rows, ∃ i < n + 1, pk row = callOf i := by
  intro other hmem
  rw [rows_insert hinsert] at hmem
  rcases mem_append.mp hmem with hmem | hmem
  · obtain ⟨i, hi, hcall⟩ := h other hmem
    exact ⟨i, by omega, hcall⟩
  · rw [mem_singleton.mp hmem]
    exact ⟨n, by omega, hrow⟩

end Keys

theorem Filled.next (h : Filled n db) (hn : n < capacity) :
    ∃ db', (fillCall n).commit sampleCapability db = .ok (db', []) ∧ Filled (n + 1) db' := by
  have hcapacity : capacity < 2 ^ 17 := by decide
  have hother : ∀ i < n, callOf i ≠ callOf n := by
    intro i hi heq
    have := callOf_injective (by omega) (by omega) heq
    omega
  obtain ⟨approvals, hinsert, hcreate⟩ :=
    createOn_total (isIdentifier_callOf n) h.intents (find_of_calls h.approvals hother)
  obtain ⟨previews, hpreviews⟩ := insert?_of_find_none
    (show db.previews.find (GovernedPreview.callId ⟨callOf n, sampleBinding⟩) = none from
      find_of_calls h.previews hother)
  refine ⟨{ created db approvals (callOf n) with previews }, ?_, ?_, calls_insert hinsert rfl h.approvals,
    calls_insert hpreviews rfl h.previews, h.intents, h.localApprovals⟩
  · rw [fillCall, ToolCall.commit, reply_eq_ok]
    refine ⟨(minuteRequest (callOf n)).record, ?_, rfl⟩
    have hroom : db.previews.rows.length < capacity := by
      rw [h.length]
      exact hn
    have hpreview := insertPreview_total hinsert hpreviews
    unfold createGovernedToolApproval
    simp only [bind_ok_iff, ensure_eq_ok, room_eq_ok, invalid_eq_ok, json_eq_ok,
      unavailable_eq_ok, ok.injEq, Prod.mk.injEq]
    exact ⟨(), rfl, (), hroom, (_, _), hcreate, (), by decide, _, hpreview, rfl, rfl⟩
  · rw [length_insert hpreviews, h.length]

/-- A run of governed approvals. -/
theorem filled_of_le (hn : n ≤ capacity) : ∃ s : ToolSystem,
    Steps (toolStep sampleCapability) anyStep .initial s ∧ Filled n s.db := by
  induction n with
  | zero =>
    refine ⟨.initial, .refl _, rfl, ?_, ?_, rfl, rfl⟩
    · intro record hmem
      cases hmem
    · intro preview hmem
      cases hmem
  | succ n ih =>
    obtain ⟨s, hsteps, hfilled⟩ := ih (by omega)
    obtain ⟨db', hcommit, hnext⟩ := hfilled.next (by omega)
    have hafter : s.after sampleCapability (fillCall n) = ⟨db', s.history⟩ := by
      simp [ToolSystem.after, hcommit]
    have hstep : toolStep sampleCapability s (fillCall n) = some ⟨db', s.history⟩ :=
      congrArg some hafter
    exact ⟨⟨db', s.history⟩, hsteps.tail trivial hstep, hnext⟩

/-- The local request that comes next. -/
def overflowCall : ToolCall := .requestLocalApproval sampleOwner (samplePreview "local-call")

/-- It is not one of the calls before. -/
theorem callOf_ne (n : Nat) : callOf n ≠ "local-call" := by
  intro heq
  have hlist : digits n = "local-call".toList := by
    rw [← heq]
    simp [callOf]
  have hlength := congrArg length hlist
  simp [digits] at hlength

theorem Filled.overflow (h : Filled n db) : ∃ db',
    overflowCall.commit sampleCapability db = .ok (db', []) ∧ db'.previews.rows.length = n + 1 := by
  have hother : ∀ i < n, callOf i ≠ "local-call" := fun i _ => callOf_ne i
  have hcall : isIdentifier "local-call" 128 := by decide +kernel
  obtain ⟨approvals, hinsert, hcreate⟩ := createOn_total hcall h.intents
    (find_of_calls h.approvals hother)
  obtain ⟨previews, hpreviews⟩ := insert?_of_find_none
    (show db.previews.find (GovernedPreview.callId ⟨"local-call", sampleBinding⟩) = none from
      find_of_calls h.previews hother)
  have hfreeLocal : db.localApprovals.find "local-call" = none := by
    rw [h.localApprovals]
    rfl
  obtain ⟨locals, hlocals⟩ := insert?_of_find_none
    (show db.localApprovals.find (LocalApproval.callId
      ⟨"local-call", samplePreview "local-call", sampleOwner, none⟩) = none from hfreeLocal)
  refine ⟨{ created db approvals "local-call" with previews, localApprovals := locals }, ?_, ?_⟩
  · rw [overflowCall, ToolCall.commit, reply_eq_ok]
    refine ⟨status "local-call" sampleDigest .pending, ?_, rfl⟩
    unfold requestLocalApproval
    have hvalid : sampleOwner.validate sampleCapability (samplePreview "local-call") = .ok () := rfl
    have hnone : ¬ (db.localApprovals.find (samplePreview "local-call").request.callId).isSome =
        true := by
      show ¬ (db.localApprovals.find "local-call").isSome
      rw [hfreeLocal]
      simp
    have hroom : db.localApprovals.rows.length < capacity := by
      rw [h.localApprovals]
      decide
    have hlocal : insertLocal sampleCapability { created db approvals "local-call" with previews }
        ⟨"local-call", samplePreview "local-call", sampleOwner, none⟩ =
        .ok { created db approvals "local-call" with previews, localApprovals := locals } := by
      rw [insertLocal_eq_ok]
      exact ⟨⟨isSome_insert_self hpreviews rfl, rfl⟩, locals, hlocals, rfl⟩
    rw [hvalid, ok_bind, if_neg hnone]
    simp only [bind_ok_iff, room_eq_ok, invalid_eq_ok, json_eq_ok, unavailable_eq_ok,
      ok.injEq, Prod.mk.injEq]
    exact ⟨(), hroom, (_, _), hcreate, (), by decide, _, insertPreview_total hinsert hpreviews,
      (), by decide, (), by decide, _, hlocal, rfl, rfl⟩
  · rw [length_insert hpreviews, h.length]

theorem previews_le_of_validateOn (h : validateOn C db = .ok ()) :
    db.previews.rows.length ≤ capacity := by
  unfold validateOn at h
  simp only [bind_ok_iff] at h
  obtain ⟨_, _, _, _, _, hcounts, _⟩ := h
  have hlast := forM_eq_ok.mp hcounts db.previews.rows.length (by simp)
  simpa using hlast

/-- A run of accepted calls into a store that the validator refuses. -/
theorem ledger_breaks_at_capacity : ¬ ∀ (C : Capability) (s : ToolSystem),
    Steps (toolStep C) anyStep .initial s → validateOn C s.db = .ok () := by
  intro hclaim
  obtain ⟨s, hsteps, hfilled⟩ := filled_of_le (Nat.le_refl capacity)
  obtain ⟨db', hcommit, hlength⟩ := hfilled.overflow
  have hstep : toolStep sampleCapability s overflowCall = some ⟨db', s.history⟩ := by
    simp [toolStep, ToolSystem.after, hcommit]
  have hle := previews_le_of_validateOn (hclaim sampleCapability _ (hsteps.tail trivial hstep))
  have hover : db'.previews.rows.length ≤ capacity := hle
  omega

end Abbey.Tool
