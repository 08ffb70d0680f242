import Abbey.Work.Registry

/-!
# Rendering a delivery

`render_delivery` of `extensions/bot/src/work/delivery.rs`.  A batch shows at
most eight items, each on one line of bounded length, so the text of a batch
always fits (`length_body_le`).
-/

namespace Abbey.Work

open Abbey.Lib List
open Abbey.Conversation (Sha256)

variable {lines : List String} {refs : List WorkContentRef} {omitted : Nat} {store : WorkStore}

/-- `shortened`. -/
def shortened (text : String) (limit : Nat) : String :=
  String.ofList (text.toList.take limit ++
    if limit < text.length then "… [shortened]".toList else [])

/-- The greatest length of a body. -/
def maxBody : Nat := 1900

def deadline (task : WorkTask) : String := task.dueAt.elim "none" toString

def taskLine (id revision : Nat) (task : WorkTask) : String :=
  s!"Task #{id} r{revision}: {shortened task.title 80} — {task.status.label} (priority {task.priority}; deadline {deadline task})."

def decisionLine (id : Nat) (decision : WorkDecision) : String :=
  s!"Decision #{id}: {shortened decision.text 100}"

def omittedLine (omitted : Nat) : String :=
  s!"Partial update: {omitted} additional work item(s) omitted; inspect the workspace for the full list."

namespace WorkStore

/-- One line of `render_delivery`. -/
def renderLine (store : WorkStore) : WorkContentRef → Except WorkError String
  | .task project id revision => do
    let task ← required store.tasks[id]? .missing
    ensure (task.projectId = project && task.revision = revision) .stale
    .ok (taskLine id revision task)
  | .decision project id revision => do
    let decision ← required store.decisions[id]? .missing
    ensure (decision.projectId = project && revision = 1) .stale
    .ok (decisionLine id decision)

def bodyOf (lines : List String) (omitted : Nat) : String :=
  "\n".intercalate (if 0 < omitted then lines ++ [omittedLine omitted] else lines)

/-- The provenance of a body. -/
def drafted (sha : Sha256) (refs : List WorkContentRef) (body : String) : DeliveredProvenance :=
  ⟨1, refs.toFinset, (refs.map WorkContentRef.project).toFinset, digest sha body⟩

/-- `render_delivery`. -/
def renderDelivery (sha : Sha256) (store : WorkStore) (refs : List WorkContentRef) (omitted : Nat) :
    Except WorkError (String × DeliveredProvenance) := do
  let lines ← refs.mapM store.renderLine
  let body := bodyOf lines omitted
  ensure (body.length ≤ maxBody) .full
  let provenance := drafted sha refs body
  provenance.validate
  .ok (body, provenance)

end WorkStore

/-! ## Lengths -/

theorem length_shortened_le (text : String) (limit : Nat) :
    (shortened text limit).length ≤ limit + 13 := by
  have hsuffix : ("… [shortened]".toList).length = 13 := by decide
  unfold shortened
  rw [String.length_ofList, length_append, length_take]
  split_ifs
  · omega
  · simp only [length_nil]
    omega

theorem length_toString_le (h : n < 2 ^ 64) : (toString n).length ≤ 20 := by
  have hlist : (toString n).toList = Nat.toDigits 10 n := Nat.toList_repr
  rw [← String.length_toList, hlist, Nat.length_toDigits_le_iff (by omega) (by omega)]
  omega

theorem length_label_le (status : WorkStatus) : status.label.length ≤ 11 := by
  cases status <;> decide

/-- The numbers of a task are unsigned 64-bit numbers, its priority is one digit. -/
structure WorkTask.Typed (task : WorkTask) : Prop where
  id : task.id < 2 ^ 64
  revision : task.revision < 2 ^ 64
  priority : task.priority < 2 ^ 8
  dueAt : ∀ due, task.dueAt = some due → due < 2 ^ 64

theorem length_taskLine_le {id revision : Nat} (hid : id < 2 ^ 64)
    (hrevision : revision < 2 ^ 64) (h : task.Typed) : (taskLine id revision task).length ≤ 204 := by
  have hid' := length_toString_le hid
  have hrevision' := length_toString_le hrevision
  have htitle := length_shortened_le task.title 80
  have hstatus := length_label_le task.status
  have hpriority : (toString task.priority).length ≤ 3 := by
    have hlist : (toString task.priority).toList = Nat.toDigits 10 task.priority := Nat.toList_repr
    have hlt := h.priority
    rw [← String.length_toList, hlist, Nat.length_toDigits_le_iff (by omega) (by omega)]
    omega
  have hdue : (deadline task).length ≤ 20 := by
    unfold deadline
    cases hdue : task.dueAt with
    | none => exact (by decide : ("none" : String).length ≤ 20)
    | some due => exact length_toString_le (h.dueAt due hdue)
  have htask : "Task #".length = 6 := by decide
  have hspace : " r".length = 2 := by decide
  have hcolon : ": ".length = 2 := by decide
  have hdash : " — ".length = 3 := by decide
  have hopen : " (priority ".length = 11 := by decide
  have hdeadline : "; deadline ".length = 11 := by decide
  have hclose : ").".length = 2 := by decide
  unfold taskLine
  simp only [String.length_append, toString] at hid' hrevision' hpriority hdue ⊢
  omega

theorem length_decisionLine_le {id : Nat} (hid : id < 2 ^ 64) (decision : WorkDecision) :
    (decisionLine id decision).length ≤ 204 := by
  have hid' := length_toString_le hid
  have htext := length_shortened_le decision.text 100
  have hdecision : "Decision #".length = 10 := by decide
  have hcolon : ": ".length = 2 := by decide
  unfold decisionLine
  simp only [String.length_append, toString] at hid' ⊢
  omega

theorem length_omittedLine_le (h : omitted < 2 ^ 64) : (omittedLine omitted).length ≤ 204 := by
  have homitted := length_toString_le h
  have hfirst : "Partial update: ".length = 16 := by decide
  have hsecond : " additional work item(s) omitted; inspect the workspace for the full list.".length =
      74 := by decide
  unfold omittedLine
  simp only [String.length_append, toString] at homitted ⊢
  omega

/-- The length of lines with a separator of one character. -/
theorem length_intercalate_le (h : ∀ line ∈ lines, line.length ≤ most) :
    ("\n".intercalate lines).length ≤ lines.length * (most + 1) := by
  induction lines with
  | nil => simp
  | cons line lines ih =>
    have hline := h line mem_cons_self
    have hrest := ih (fun other hother => h other (mem_cons_of_mem line hother))
    cases lines with
    | nil =>
      rw [String.intercalate_singleton, length_singleton]
      omega
    | cons next lines =>
      have hseparator : "\n".length = 1 := by decide
      rw [String.intercalate_cons_cons, String.length_append, String.length_append, hseparator,
        length_cons, Nat.succ_mul]
      omega

namespace WorkStore

/-- The numbers of every record are unsigned 64-bit numbers, and records are
found under their own number. -/
structure Typed (store : WorkStore) : Prop where
  tasks : ∀ (id : Nat) (task : WorkTask), store.tasks[id]? = some task → task.id = id ∧ task.Typed
  decisions : ∀ (id : Nat) (decision : WorkDecision), store.decisions[id]? = some decision →
    decision.id = id ∧ decision.id < 2 ^ 64

theorem length_renderLine_le (h : store.Typed) {ref : WorkContentRef}
    (hline : store.renderLine ref = .ok line) : line.length ≤ 204 := by
  cases ref with
  | task project id revision =>
    unfold renderLine at hline
    obtain ⟨task, htask, hline⟩ := bind_ok_iff.mp hline
    obtain ⟨_, hcurrent, hline⟩ := bind_ok_iff.mp hline
    rw [required_eq_ok] at htask
    rw [ensure_eq_ok] at hcurrent
    simp only [Bool.and_eq_true, decide_eq_true_eq] at hcurrent
    rw [Except.ok.injEq] at hline
    obtain ⟨hid, htyped⟩ := h.tasks id task htask
    rw [← hline]
    exact length_taskLine_le (hid ▸ htyped.id) (hcurrent.2 ▸ htyped.revision) htyped
  | decision project id revision =>
    unfold renderLine at hline
    obtain ⟨decision, hdecision, hline⟩ := bind_ok_iff.mp hline
    obtain ⟨_, _, hline⟩ := bind_ok_iff.mp hline
    rw [required_eq_ok] at hdecision
    rw [Except.ok.injEq] at hline
    obtain ⟨hid, htyped⟩ := h.decisions id decision hdecision
    rw [← hline]
    exact length_decisionLine_le (hid ▸ htyped) decision

/-- The body of at most eight items always fits. -/
theorem length_body_le (h : store.Typed) (hrefs : refs.length ≤ 8) (homitted : omitted < 2 ^ 64)
    (hlines : refs.mapM store.renderLine = .ok lines) :
    (bodyOf lines omitted).length ≤ maxBody := by
  have hforall := mapM_eq_ok.mp hlines
  have hlength : refs.length = lines.length := hforall.length_eq
  have hline : ∀ line ∈ lines, line.length ≤ 204 := by
    intro line hmem
    obtain ⟨ref, _, hrender⟩ := exists_left_of_mem hforall hmem
    exact length_renderLine_le h hrender
  have hall : ∀ line ∈ (if 0 < omitted then lines ++ [omittedLine omitted] else lines),
      line.length ≤ 204 := by
    intro line hmem
    split_ifs at hmem
    · rw [mem_append, mem_singleton] at hmem
      rcases hmem with hmem | rfl
      · exact hline line hmem
      · exact length_omittedLine_le homitted
    · exact hline line hmem
  have hcount : (if 0 < omitted then lines ++ [omittedLine omitted] else lines).length ≤ 9 := by
    split_ifs
    · rw [length_append, length_singleton]
      omega
    · omega
  have hbody := length_intercalate_le hall
  unfold bodyOf maxBody
  omega

theorem renderLine_ne_full (ref : WorkContentRef) : store.renderLine ref ≠ .error .full := by
  intro h
  cases ref with
  | task project id revision =>
    unfold renderLine at h
    dsimp only at h
    cases htask : store.tasks[id]? with
    | none =>
      rw [htask] at h
      cases h
    | some task =>
      rw [htask] at h
      rcases bind_error_iff.mp h with hfound | ⟨_, _, h⟩
      · cases hfound
      · rcases bind_error_iff.mp h with hstale | ⟨_, _, hok⟩
        · rw [ensure_eq_error] at hstale
          cases hstale.2
        · cases hok
  | decision project id revision =>
    unfold renderLine at h
    dsimp only at h
    cases hdecision : store.decisions[id]? with
    | none =>
      rw [hdecision] at h
      cases h
    | some decision =>
      rw [hdecision] at h
      rcases bind_error_iff.mp h with hfound | ⟨_, _, h⟩
      · cases hfound
      · rcases bind_error_iff.mp h with hstale | ⟨_, _, hok⟩
        · rw [ensure_eq_error] at hstale
          cases hstale.2
        · cases hok

/-- With its lines, a delivery of at most eight items is a valid draft or
invalid. -/
theorem renderDelivery_of_lines (sha : Sha256) (h : store.Typed) (hrefs : refs.length ≤ 8)
    (homitted : omitted < 2 ^ 64) (hlines : refs.mapM store.renderLine = .ok lines) :
    store.renderDelivery sha refs omitted =
      (drafted sha refs (bodyOf lines omitted)).validate >>= fun _ =>
        .ok (bodyOf lines omitted, drafted sha refs (bodyOf lines omitted)) := by
  have hfits : ensure (decide ((bodyOf lines omitted).length ≤ maxBody)) WorkError.full = .ok () := by
    rw [ensure_eq_ok, decide_eq_true_iff]
    exact length_body_le h hrefs homitted hlines
  unfold renderDelivery
  rw [hlines]
  show (ensure (decide ((bodyOf lines omitted).length ≤ maxBody)) WorkError.full >>= _) = _
  rw [hfits]
  rfl

/-- Rendering never fails for lack of room. -/
theorem renderDelivery_ne_full (sha : Sha256) (h : store.Typed) (hrefs : refs.length ≤ 8)
    (homitted : omitted < 2 ^ 64) : store.renderDelivery sha refs omitted ≠ .error .full := by
  intro hfull
  cases hlines : refs.mapM store.renderLine with
  | error e =>
    unfold renderDelivery at hfull
    rw [hlines] at hfull
    cases hfull
    obtain ⟨ref, _, hline⟩ := exists_of_mapM_eq_error hlines
    exact renderLine_ne_full ref hline
  | ok lines =>
    rw [renderDelivery_of_lines sha h hrefs homitted hlines] at hfull
    rcases bind_error_iff.mp hfull with hinvalid | ⟨_, _, hok⟩
    · unfold DeliveredProvenance.validate at hinvalid
      rw [ensure_eq_error] at hinvalid
      cases hinvalid.2
    · cases hok

theorem toFinset_map {β : Type} [DecidableEq β] (f : WorkContentRef → β)
    (refs : List WorkContentRef) : (refs.map f).toFinset = refs.toFinset.image f := by
  ext x
  simp

/-- The provenance of up to 32 items with distinct identities is valid. -/
theorem validate_drafted (hne : refs ≠ []) (hrefs : refs.length ≤ 32)
    (hvalid : ∀ ref ∈ refs, ref.valid) (hids : (refs.map WorkContentRef.id).Nodup) :
    (drafted sha refs body).validate = .ok () := by
  have hnodup : refs.Nodup := List.Nodup.of_map _ hids
  have hcard : refs.toFinset.card = refs.length := toFinset_card_of_nodup hnodup
  have himage : (refs.toFinset.image WorkContentRef.id).card = refs.length := by
    rw [← toFinset_map, toFinset_card_of_nodup hids, length_map]
  have hdigest := Conversation.isLowerHexSha256_lowerHex (sha (Conversation.utf8 body))
  unfold DeliveredProvenance.validate drafted
  dsimp only
  rw [ensure_eq_ok]
  simp only [Bool.and_eq_true, decide_eq_true_eq, mem_toFinset]
  refine ⟨⟨⟨⟨⟨⟨trivial, ?_⟩, ?_⟩, hvalid⟩, ?_⟩, toFinset_map _ _⟩, hdigest⟩
  · rwa [ne_eq, toFinset_eq_empty_iff]
  · omega
  · omega

/-- Up to eight items of the store with distinct identities are rendered. -/
theorem renderDelivery_ok (sha : Sha256) (h : store.Typed) (hne : refs ≠ [])
    (hrefs : refs.length ≤ 8) (homitted : omitted < 2 ^ 64)
    (hshown : ∀ ref ∈ refs, ∃ line, store.renderLine ref = .ok line)
    (hvalid : ∀ ref ∈ refs, ref.valid) (hids : (refs.map WorkContentRef.id).Nodup) :
    ∃ lines, store.renderDelivery sha refs omitted =
      .ok (bodyOf lines omitted, drafted sha refs (bodyOf lines omitted)) := by
  obtain ⟨lines, hlines⟩ := exists_mapM_eq_ok hshown
  refine ⟨lines, ?_⟩
  rw [renderDelivery_of_lines sha h hrefs homitted hlines,
    validate_drafted hne (by omega) hvalid hids]
  rfl

end WorkStore

end Abbey.Work
