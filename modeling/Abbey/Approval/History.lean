import Abbey.Approval.Action

/-!
# Histories of approved actions

Every call on the store is one event with its reply, and a history is the
list of the events of any calls, oldest first.  `step_cases` says what one
call can do: it issues a proposal, confirms one, makes one ready, or only
closes proposals.  `Sound` relates the store to its history, and every
event of a history keeps it.

* `ready_once_as_approved` is the guarantee: an action is ready at most once,
  and then as it was proposed and confirmed.
-/

namespace Abbey.Approval

open Abbey.Lib List ActionStore

variable {f : ActionProposal → ActionProposal} {id : Nat}

inductive Call where
  | propose (spec : ActionSpec) (requester expiresAt : Nat) (targetFingerprint : String)
  | confirm (id : Nat) (displayedDigest : String) (facts : ActionFacts)
  | begin (id : Nat) (facts : ActionFacts)
  | finish (id : Nat) (state : ActionState) (resultReference : Option String)
  | markInterrupted
  | compact (now : Nat)
  | reload

inductive Reply where
  | issued (id : Nat)
  | confirmed
  | ready (spec : ActionSpec)
  | invalidated (reason : ActionError)
  | done
  | refused (reason : ActionError)

structure Event where
  call : Call
  reply : Reply

def replyOf {α : Type} (reply : α → Reply) : Except ActionError α → Reply
  | .ok a => reply a
  | .error reason => .refused reason

section Steps

variable (crates : Crates)

def step (store : ActionStore) : Call → ActionStore × Reply
  | .propose spec requester expiresAt fingerprint =>
    let (store', result) := store.propose crates spec requester expiresAt fingerprint
    (store', replyOf .issued result)
  | .confirm id digest facts =>
    let (store', result) := store.confirm crates id digest facts
    (store', replyOf (fun _ => .confirmed) result)
  | .begin id facts =>
    let (store', result) := store.begin crates id facts
    (store', replyOf (fun outcome => match outcome with
      | .ready spec => .ready spec
      | .invalidated reason => .invalidated reason) result)
  | .finish id state reference =>
    let (store', result) := store.finish id state reference
    (store', replyOf (fun _ => .done) result)
  | .markInterrupted => (store.markInterrupted, .done)
  | .compact now => (store.compact now, .done)
  | .reload => (store.reload crates, .done)

/-- The store and the events after some calls on an empty store. -/
def history (calls : List Call) : ActionStore × List Event :=
  calls.foldl (fun (store, log) call =>
    let (store', reply) := step crates store call
    (store', log ++ [⟨call, reply⟩])) (default, [])

end Steps

/-! ## What one call can do -/

/-- A proposal that may still become ready. -/
def ActionProposal.isOpen (p : ActionProposal) : Prop := p.state = .proposed ∨ p.state = .approved

/-- The second proposal has the content of the first. -/
def SameContent (p q : ActionProposal) : Prop :=
  q.id = p.id ∧ q.spec = p.spec ∧ q.requester = p.requester ∧ q.expiresAt = p.expiresAt ∧
    q.targetFingerprint = p.targetFingerprint ∧ q.contentDigest = p.contentDigest

/-- Nothing is opened: every proposal was there, or is closed now. -/
def Closes (store store' : ActionStore) : Prop :=
  ∀ q ∈ store'.proposals.rows, ∃ p ∈ store.proposals.rows, q = p ∨ SameContent p q ∧ ¬ q.isOpen

theorem Closes.refl (store : ActionStore) : Closes store store := fun q hq => ⟨q, hq, .inl rfl⟩

theorem closes_compact (store : ActionStore) (now : Nat) : Closes store (store.compact now) :=
  fun q hq => ⟨q, (mem_filter.mp hq).1, .inl rfl⟩

variable {hf : ∀ p, (f p).id = p.id} {store : ActionStore}

/-- A change of one proposal that closes it. -/
theorem closes_modify (hcontent : ∀ p, SameContent p (f p)) (hclosed : ∀ p, ¬ (f p).isOpen) :
    Closes store (store.modify id f hf) := by
  intro q hq
  obtain ⟨p, hp, rfl⟩ := mem_map.mp hq
  refine ⟨p, hp, ?_⟩
  split_ifs
  · exact .inr ⟨hcontent p, hclosed p⟩
  · exact .inl rfl

/-- What a proposal was checked against. -/
structure Checked (crates : Crates) (p : ActionProposal) (facts : ActionFacts) : Prop where
  human : ∃ h, facts.humanPrincipal = some h ∧ h ≠ 0
  unexpired : facts.now < p.expiresAt
  fingerprint : facts.targetFingerprint = p.targetFingerprint
  permitted : p.spec.required ⊆ facts.currentPermissions

variable {p : ActionProposal} {crates : Crates}

theorem validate_eq_ok (h : validate crates p digest facts = .ok ()) :
    Checked crates p facts ∧ digest = p.contentDigest ∧ p.contentDigest = p.digest crates := by
  unfold validate at h
  split_ifs at h with hhuman hexpired hstale hdenied
  simp only [not_or, not_not] at hhuman hstale hdenied
  obtain ⟨hdigest, hfingerprint, hcontent⟩ := hstale
  refine ⟨⟨?_, by omega, hfingerprint, hdenied⟩, hdigest, hcontent.symm⟩
  cases hsome : facts.humanPrincipal with
  | none => exact absurd hsome hhuman.1
  | some h => exact ⟨h, rfl, fun hzero => hhuman.2 (by rw [hsome, hzero])⟩

/-- What one call does, with its reply. -/
inductive StepCase (crates : Crates) (store store' : ActionStore) : Call → Reply → Prop where
  | issues {spec : ActionSpec} {requester expiresAt : Nat} {fingerprint : String}
      (next : store'.sequence = store.sequence + 1)
      (rows : ∀ q ∈ store'.proposals.rows, q ∈ store.proposals.rows ∨
        q = ⟨store.sequence + 1, spec, requester, expiresAt, fingerprint,
          contentDigest crates spec requester expiresAt fingerprint, .proposed, none, none⟩) :
      StepCase crates store store' (.propose spec requester expiresAt fingerprint)
        (.issued (store.sequence + 1))
  | confirms {id : Nat} {digest : String} {facts : ActionFacts} {p : ActionProposal}
      (same : store'.sequence = store.sequence) (mem : p ∈ store.proposals.rows) (hid : p.id = id)
      (checked : Checked crates p facts) (hdigest : digest = p.contentDigest)
      (rows : ∀ q ∈ store'.proposals.rows, q ∈ store.proposals.rows ∨
        q = { p with approver := facts.humanPrincipal, state := .approved })
      (wasOpen : p.isOpen) : StepCase crates store store' (.confirm id digest facts) .confirmed
  | readies {id : Nat} {facts : ActionFacts} {p : ActionProposal}
      (same : store'.sequence = store.sequence) (mem : p ∈ store.proposals.rows) (hid : p.id = id)
      (approved : p.state = .approved) (approver : p.approver = facts.humanPrincipal)
      (checked : Checked crates p facts)
      (rows : ∀ q ∈ store'.proposals.rows, q ∈ store.proposals.rows ∧ q.id ≠ id ∨
        q = { p with state := .executing }) :
      StepCase crates store store' (.begin id facts) (.ready p.spec)
  | closes {call : Call} {reply : Reply} (same : store'.sequence = store.sequence)
      (rows : Closes store store') (notIssued : ∀ id, reply ≠ .issued id)
      (notConfirmed : reply ≠ .confirmed) (notReady : ∀ spec, reply ≠ .ready spec) :
      StepCase crates store store' call reply

theorem StepCase.refused (crates : Crates) (store : ActionStore) (call : Call) (reason : ActionError) :
    StepCase crates store store call (.refused reason) :=
  .closes rfl (.refl store) (by simp) (by simp) (by simp)

/-- The rows after a change of the proposal under an id. -/
theorem mem_modify
    (hp : store.proposals.find id = some p) (hq : q ∈ (store.modify id f hf).proposals.rows) :
    q ∈ store.proposals.rows ∧ q.id ≠ id ∨ q = f p := by
  obtain ⟨r, hr, rfl⟩ := mem_map.mp hq
  obtain ⟨hmem, hid⟩ := Table.find_eq_some_iff.mp hp
  by_cases hrid : r.id = id
  · rw [if_pos (by simpa using hrid)]
    exact .inr (by rw [Table.eq_of_mem_of_pk_eq hr hmem (hrid.trans hid.symm)])
  · rw [if_neg (by simpa using hrid)]
    exact .inl ⟨hr, hrid⟩

theorem step_cases (crates : Crates) (store : ActionStore) (call : Call) :
    StepCase crates store (step crates store call).1 call (step crates store call).2 := by
  cases call with
  | propose spec requester expiresAt fingerprint =>
    have hcompacted : Closes store
        (if maxProposals ≤ store.proposals.rows.length then store.compact 0 else store) ∧
        (if maxProposals ≤ store.proposals.rows.length then store.compact 0 else store).sequence =
          store.sequence := by
      split_ifs
      · exact ⟨closes_compact store 0, rfl⟩
      · exact ⟨.refl store, rfl⟩
    have hsubset : ∀ q ∈ (if maxProposals ≤ store.proposals.rows.length then store.compact 0
        else store).proposals.rows, q ∈ store.proposals.rows := by
      intro q hq
      split_ifs at hq
      · exact (mem_filter.mp hq).1
      · exact hq
    simp only [step, propose]
    by_cases hinvalid : requester = 0 ∨ expiresAt = 0 ∨ fingerprint.isEmpty ∨
        256 < fingerprint.utf8ByteSize ∨ spec.valid = false
    · simp only [if_pos hinvalid]
      exact .refused crates store _ _
    · simp only [if_neg hinvalid]
      by_cases hfull : store.sequence = maxU64
      · simp only [if_pos hfull]
        exact .refused crates store _ _
      · simp only [if_neg hfull]
        generalize (if maxProposals ≤ store.proposals.rows.length then store.compact 0
          else store) = compacted at hcompacted hsubset ⊢
        by_cases hlong : maxProposals ≤ compacted.proposals.rows.length
        · simp only [if_pos hlong]
          exact .closes hcompacted.2 hcompacted.1 (by simp [replyOf]) (by simp [replyOf])
            (by simp [replyOf])
        · simp only [if_neg hlong]
          refine .issues rfl (fun q hq => ?_)
          rcases mem_append.mp hq with hold | hnew
          · exact .inl (hsubset q (mem_filter.mp hold).1)
          · exact .inr (mem_singleton.mp hnew)
  | confirm id digest facts =>
    simp only [step, confirm]
    cases hfind : store.proposals.find id with
    | none =>
      exact .refused crates store _ _
    | some p =>
      by_cases hstate : p.state = .proposed
      · simp only [hstate, ne_eq, not_true_eq_false, if_false]
        cases hvalid : validate crates p digest facts with
        | error reason =>
          exact .refused crates store _ _
        | ok _ =>
          obtain ⟨hchecked, hdigest, _⟩ := validate_eq_ok hvalid
          obtain ⟨hmem, hid⟩ := Table.find_eq_some_iff.mp hfind
          refine .confirms rfl hmem hid hchecked hdigest (fun q hq => ?_) (.inl hstate)
          rcases mem_modify hfind hq with hold | hnew
          · exact .inl hold.1
          · exact .inr hnew
      · simp only [ne_eq, hstate, not_false_eq_true, if_true]
        exact .refused crates store _ _
  | begin id facts =>
    simp only [step, begin]
    cases hfind : store.proposals.find id with
    | none =>
      exact .refused crates store _ _
    | some p =>
      by_cases hstate : p.state = .approved
      · simp only [hstate, ne_eq, not_true_eq_false, if_false]
        by_cases happrover : p.approver = facts.humanPrincipal
        · simp only [happrover, not_true_eq_false, if_false]
          cases hvalid : validate crates p p.contentDigest facts with
          | error reason =>
            refine .closes rfl (closes_modify (fun p => ⟨rfl, rfl, rfl, rfl, rfl, rfl⟩) ?_)
              (by simp [replyOf]) (by simp [replyOf]) (by simp [replyOf])
            rintro p (h | h) <;> cases h
          | ok _ =>
            obtain ⟨hchecked, _, _⟩ := validate_eq_ok hvalid
            obtain ⟨hmem, hid⟩ := Table.find_eq_some_iff.mp hfind
            exact .readies rfl hmem hid hstate happrover hchecked (fun q hq => mem_modify hfind hq)
        · simp only [happrover, not_false_eq_true, if_true]
          exact .refused crates store _ _
      · simp only [ne_eq, hstate, not_false_eq_true, if_true]
        exact .refused crates store _ _
  | finish id state reference =>
    simp only [step, finish]
    cases hfind : store.proposals.find id with
    | none =>
      exact .refused crates store _ _
    | some p =>
      by_cases hrefused : p.state ≠ .executing ∨
          ¬ (state = .verified ∨ state = .reviewRequired ∨ state = .failed)
      · simp only [if_pos hrefused]
        exact .refused crates store _ _
      · simp only [if_neg hrefused]
        rw [not_or, not_not, not_not] at hrefused
        refine .closes rfl (closes_modify (fun p => ⟨rfl, rfl, rfl, rfl, rfl, rfl⟩) ?_)
          (by simp [replyOf]) (by simp [replyOf]) (by simp [replyOf])
        rintro p (h | h) <;> rcases hrefused.2 with rfl | rfl | rfl <;> cases h
  | markInterrupted =>
    refine .closes rfl (fun q hq => ?_) (by simp [step]) (by simp [step]) (by simp [step])
    obtain ⟨p, hp, rfl⟩ := mem_map.mp hq
    refine ⟨p, hp, ?_⟩
    split_ifs
    · refine .inr ⟨⟨rfl, rfl, rfl, rfl, rfl, rfl⟩, ?_⟩
      rintro (h | h) <;> cases h
    · exact .inl rfl
  | compact now =>
    exact .closes rfl (closes_compact store now) (by simp [step]) (by simp [step]) (by simp [step])
  | reload =>
    have hload : (step crates store .reload).1 = store := by
      simp [step, reload, crates.load_save]
    rw [hload]
    exact .closes rfl (.refl store) (by simp [step]) (by simp [step]) (by simp [step])

/-! ## The history of a store -/

def issuedIds (log : List Event) : List Nat :=
  log.filterMap (fun e => match e.reply with
    | .issued id => some id
    | .confirmed | .ready _ | .invalidated _ | .done | .refused _ => none)

def readyIds (log : List Event) : List Nat :=
  log.filterMap (fun e => match e.call, e.reply with
    | .begin id _, .ready _ => some id
    | _, _ => none)

/-- The event that created a proposal. -/
def ActionProposal.creation (p : ActionProposal) : Event :=
  ⟨.propose p.spec p.requester p.expiresAt p.targetFingerprint, .issued p.id⟩

/-- A proposal was confirmed after it was created, by the approver it has. -/
structure ConfirmedIn (crates : Crates) (log : List Event) (p : ActionProposal)
    (facts : ActionFacts) : Prop where
  events : [p.creation, ⟨.confirm p.id p.contentDigest facts, .confirmed⟩].Sublist log
  checked : Checked crates p facts
  approver : p.approver = facts.humanPrincipal

/-- An action that is ready was proposed, and then confirmed by its digest by
the same human, and the checks held both times. -/
structure ApprovedIn (crates : Crates) (log : List Event) (id : Nat) (spec : ActionSpec)
    (requester expiresAt : Nat) (fingerprint : String) (confirmed begun : ActionFacts) : Prop where
  events : [⟨.propose spec requester expiresAt fingerprint, .issued id⟩,
    ⟨.confirm id (contentDigest crates spec requester expiresAt fingerprint) confirmed,
      .confirmed⟩].Sublist log
  human : ∃ h, confirmed.humanPrincipal = some h ∧ begun.humanPrincipal = some h ∧ h ≠ 0
  unexpired : confirmed.now < expiresAt ∧ begun.now < expiresAt
  fingerprints : confirmed.targetFingerprint = fingerprint ∧ begun.targetFingerprint = fingerprint
  permitted : spec.required ⊆ confirmed.currentPermissions ∧
    spec.required ⊆ begun.currentPermissions

/-- What a store has to do with its history. -/
structure Sound (crates : Crates) (store : ActionStore) (log : List Event) : Prop where
  issuedLe : ∀ id ∈ issuedIds log, id ≤ store.sequence
  issuedOnce : (issuedIds log).Nodup
  readyLe : ∀ id ∈ readyIds log, id ≤ store.sequence
  readyOnce : (readyIds log).Nodup
  created : ∀ p ∈ store.proposals.rows, p.creation ∈ log ∧ p.contentDigest = p.digest crates
  confirmed : ∀ p ∈ store.proposals.rows, p.state = .approved →
    ∃ facts, ConfirmedIn crates log p facts
  unready : ∀ p ∈ store.proposals.rows, p.isOpen → p.id ∉ readyIds log
  justified : ∀ n id facts spec, log[n]? = some ⟨.begin id facts, .ready spec⟩ →
    ∃ requester expiresAt fingerprint confirmed,
      ApprovedIn crates (log.take n) id spec requester expiresAt fingerprint confirmed facts

section Sound

variable {crates : Crates} {store store' : ActionStore} {log : List Event} {call : Call}
  {reply : Reply} {p : ActionProposal} {facts : ActionFacts}

theorem mem_issuedIds_of_creation (h : p.creation ∈ log) : p.id ∈ issuedIds log :=
  mem_filterMap.mpr ⟨p.creation, h, rfl⟩

theorem Sound.id_le (h : Sound crates store log) (hp : p ∈ store.proposals.rows) :
    p.id ≤ store.sequence :=
  h.issuedLe p.id (mem_issuedIds_of_creation (h.created p hp).1)

theorem issuedIds_append (log : List Event) (e : Event) :
    issuedIds (log ++ [e]) = issuedIds log ++ issuedIds [e] := filterMap_append

theorem readyIds_append (log : List Event) (e : Event) :
    readyIds (log ++ [e]) = readyIds log ++ readyIds [e] := filterMap_append

theorem issuedIds_of_ne (call : Call) (h : ∀ id, reply ≠ .issued id) : issuedIds [⟨call, reply⟩] = [] := by
  cases reply with
  | issued id => exact absurd rfl (h id)
  | _ => rfl

theorem readyIds_of_ne (call : Call) (h : ∀ spec, reply ≠ .ready spec) : readyIds [⟨call, reply⟩] = [] := by
  cases reply with
  | ready spec => exact absurd rfl (h spec)
  | _ => cases call <;> rfl

theorem ConfirmedIn.append (h : ConfirmedIn crates log p facts) (e : Event) :
    ConfirmedIn crates (log ++ [e]) p facts :=
  ⟨h.events.trans (sublist_append_left log [e]), h.checked, h.approver⟩

section

variable (h : Sound crates store log)

include h

theorem Sound.issued_append (he : issuedIds [e] = []) (hle : store.sequence ≤ store'.sequence) :
    (∀ id ∈ issuedIds (log ++ [e]), id ≤ store'.sequence) ∧ (issuedIds (log ++ [e])).Nodup := by
  rw [issuedIds_append, he, append_nil]
  exact ⟨fun id hid => (h.issuedLe id hid).trans hle, h.issuedOnce⟩

theorem Sound.ready_append (he : readyIds [e] = []) (hle : store.sequence ≤ store'.sequence) :
    (∀ id ∈ readyIds (log ++ [e]), id ≤ store'.sequence) ∧ (readyIds (log ++ [e])).Nodup := by
  rw [readyIds_append, he, append_nil]
  exact ⟨fun id hid => (h.readyLe id hid).trans hle, h.readyOnce⟩

theorem Sound.created_append (hp : p ∈ store.proposals.rows) (e : Event) :
    p.creation ∈ log ++ [e] ∧ p.contentDigest = p.digest crates :=
  ⟨List.mem_append_left _ (h.created p hp).1, (h.created p hp).2⟩

theorem Sound.confirmed_append (hp : p ∈ store.proposals.rows)
    (hstate : p.state = .approved) (e : Event) : ∃ facts, ConfirmedIn crates (log ++ [e]) p facts := by
  obtain ⟨facts, hconfirmed⟩ := h.confirmed p hp hstate
  exact ⟨facts, hconfirmed.append e⟩

/-- The events before the last are justified as they were. -/
theorem Sound.justified_append (e : Event)
    (hlast : ∀ id facts spec, e = ⟨.begin id facts, .ready spec⟩ →
      ∃ requester expiresAt fingerprint confirmed,
        ApprovedIn crates log id spec requester expiresAt fingerprint confirmed facts) :
    ∀ n id facts spec, (log ++ [e])[n]? = some ⟨.begin id facts, .ready spec⟩ →
      ∃ requester expiresAt fingerprint confirmed,
        ApprovedIn crates ((log ++ [e]).take n) id spec requester expiresAt fingerprint confirmed
          facts := by
  intro n id facts spec hn
  by_cases hlt : n < log.length
  · rw [getElem?_append_left hlt] at hn
    rw [take_append_of_le_length (Nat.le_of_lt hlt)]
    exact h.justified n id facts spec hn
  · have hlen : n = log.length := by
      have hbound := (List.getElem?_eq_some_iff.mp hn).1
      rw [length_append, length_singleton] at hbound
      omega
    subst hlen
    rw [getElem?_append_right (Nat.le_refl _), Nat.sub_self] at hn
    rw [take_left' rfl]
    exact hlast id facts spec (Option.some.inj hn)

/-- Every event keeps the store sound. -/
theorem Sound.step (hcase : StepCase crates store store' call reply) :
    Sound crates store' (log ++ [⟨call, reply⟩]) := by
  cases hcase with
  | @issues spec requester expiresAt fingerprint next rows =>
    have hissued : issuedIds [⟨.propose spec requester expiresAt fingerprint,
        .issued (store.sequence + 1)⟩] = [store.sequence + 1] := rfl
    have hready : readyIds [⟨.propose spec requester expiresAt fingerprint,
        .issued (store.sequence + 1)⟩] = [] := rfl
    have hle : store.sequence ≤ store'.sequence := by omega
    refine
      { issuedLe := fun id hid => ?_
        issuedOnce := ?_
        readyLe := (h.ready_append rfl hle).1
        readyOnce := (h.ready_append rfl hle).2
        created := fun q hq => ?_
        confirmed := fun q hq hstate => ?_
        unready := fun q hq hopen => ?_
        justified := h.justified_append _ nofun }
    · rw [issuedIds_append, hissued, mem_append, mem_singleton] at hid
      rcases hid with hid | rfl
      · have hle := h.issuedLe id hid
        omega
      · omega
    · rw [issuedIds_append, hissued]
      refine nodup_append_comm.mp (nodup_cons.mpr ⟨fun hmem => ?_, h.issuedOnce⟩)
      have hle := h.issuedLe _ hmem
      omega
    · rcases rows q hq with hold | rfl
      · exact h.created_append hold _
      · exact ⟨List.mem_append_right _ (mem_singleton_self _), rfl⟩
    · rcases rows q hq with hold | rfl
      · exact h.confirmed_append hold hstate _
      · cases hstate
    · rw [readyIds_append, hready, append_nil]
      rcases rows q hq with hold | rfl
      · exact h.unready q hold hopen
      · intro hmem
        have hle := h.readyLe _ hmem
        simp only at hle
        omega
  | @confirms id digest facts p same mem hid checked hdigest rows wasOpen =>
    have hready : readyIds [⟨.confirm id digest facts, .confirmed⟩] = [] := rfl
    refine
      { issuedLe := (h.issued_append rfl same.ge).1
        issuedOnce := (h.issued_append rfl same.ge).2
        readyLe := (h.ready_append rfl same.ge).1
        readyOnce := (h.ready_append rfl same.ge).2
        created := fun q hq => ?_
        confirmed := fun q hq hstate => ?_
        unready := fun q hq hopen => ?_
        justified := h.justified_append _ nofun }
    · rcases rows q hq with hold | rfl
      · exact h.created_append hold _
      · exact h.created_append mem _
    · rcases rows q hq with hold | rfl
      · exact h.confirmed_append hold hstate _
      · refine ⟨facts, ?_, ⟨checked.human, checked.unexpired, checked.fingerprint,
          checked.permitted⟩, rfl⟩
        have hcreated : [p.creation].Sublist log := singleton_sublist.mpr (h.created p mem).1
        subst hid hdigest
        exact hcreated.append (List.Sublist.refl _)
    · rw [readyIds_append, hready, append_nil]
      rcases rows q hq with hold | rfl
      · exact h.unready q hold hopen
      · exact h.unready p mem wasOpen
  | @readies id facts p same mem hid approved approver checked rows =>
    have hready : readyIds [⟨.begin id facts, .ready p.spec⟩] = [id] := rfl
    have hnot : id ∉ readyIds log := hid ▸ h.unready p mem (.inr approved)
    refine
      { issuedLe := (h.issued_append rfl same.ge).1
        issuedOnce := (h.issued_append rfl same.ge).2
        readyLe := fun id' hid' => ?_
        readyOnce := ?_
        created := fun q hq => ?_
        confirmed := fun q hq hstate => ?_
        unready := fun q hq hopen => ?_
        justified := h.justified_append _ (fun id' facts' spec' heq => ?_) }
    · rw [readyIds_append, hready, mem_append, mem_singleton] at hid'
      rw [same]
      rcases hid' with hid' | rfl
      · exact h.readyLe id' hid'
      · exact hid ▸ h.id_le mem
    · rw [readyIds_append, hready]
      exact nodup_append_comm.mp (nodup_cons.mpr ⟨hnot, h.readyOnce⟩)
    · rcases rows q hq with ⟨hold, _⟩ | rfl
      · exact h.created_append hold _
      · exact h.created_append mem _
    · rcases rows q hq with ⟨hold, _⟩ | rfl
      · exact h.confirmed_append hold hstate _
      · cases hstate
    · rw [readyIds_append, hready, mem_append, mem_singleton, not_or]
      rcases rows q hq with ⟨hold, hne⟩ | rfl
      · exact ⟨h.unready q hold hopen, hne⟩
      · rcases hopen with hopen | hopen <;> cases hopen
    · obtain ⟨confirmed, hconfirmed⟩ := h.confirmed p mem approved
      simp only [Event.mk.injEq, Call.begin.injEq, Reply.ready.injEq] at heq
      obtain ⟨⟨rfl, rfl⟩, rfl⟩ := heq
      obtain ⟨human, hhuman, hzero⟩ := checked.human
      have hevents := hconfirmed.events
      rw [(h.created p mem).2] at hevents
      subst hid
      exact ⟨p.requester, p.expiresAt, p.targetFingerprint, confirmed, hevents,
        ⟨human, by rw [← hconfirmed.approver, approver, hhuman], hhuman, hzero⟩,
        ⟨hconfirmed.checked.unexpired, checked.unexpired⟩,
        ⟨hconfirmed.checked.fingerprint, checked.fingerprint⟩,
        ⟨hconfirmed.checked.permitted, checked.permitted⟩⟩
  | closes same rows notIssued notConfirmed notReady =>
    have hissued := issuedIds_of_ne call notIssued
    have hready := readyIds_of_ne call notReady
    refine
      { issuedLe := (h.issued_append hissued same.ge).1
        issuedOnce := (h.issued_append hissued same.ge).2
        readyLe := (h.ready_append hready same.ge).1
        readyOnce := (h.ready_append hready same.ge).2
        created := fun q hq => ?_
        confirmed := fun q hq hstate => ?_
        unready := fun q hq hopen => ?_
        justified := h.justified_append _ (fun id facts spec heq => ?_) }
    · obtain ⟨p, hp, rfl | ⟨⟨hid, hspec, hrequester, hexpires, hprint, hdigest⟩, _⟩⟩ := rows q hq
      · exact h.created_append hp _
      · obtain ⟨hcreated, hcontent⟩ := h.created p hp
        rw [ActionProposal.creation, ActionProposal.digest, hid, hspec, hrequester, hexpires, hprint,
          hdigest]
        exact ⟨List.mem_append_left _ hcreated, hcontent⟩
    · obtain ⟨p, hp, rfl | ⟨_, hclosed⟩⟩ := rows q hq
      · exact h.confirmed_append hp hstate _
      · exact absurd (.inr hstate) hclosed
    · rw [readyIds_append, hready, append_nil]
      obtain ⟨p, hp, rfl | ⟨_, hclosed⟩⟩ := rows q hq
      · exact h.unready q hp hopen
      · exact absurd hopen hclosed
    · simp only [Event.mk.injEq] at heq
      exact absurd heq.2 (notReady spec)

end

end Sound

theorem history_append (crates : Crates) (calls : List Call) (call : Call) :
    history crates (calls ++ [call]) = ((step crates (history crates calls).1 call).1,
        (history crates calls).2 ++ [⟨call, (step crates (history crates calls).1 call).2⟩]) := by
  rw [history, foldl_append]
  rfl

theorem sound_history (crates : Crates) (calls : List Call) :
    Sound crates (history crates calls).1 (history crates calls).2 := by
  induction calls using reverseRecOn with
  | nil =>
    exact
      { issuedLe := nofun
        issuedOnce := nodup_nil
        readyLe := fun _ h => nomatch h
        readyOnce := nodup_nil
        created := fun _ h => nomatch h
        confirmed := fun _ h => nomatch h
        unready := fun _ h => nomatch h
        justified := fun _ _ _ _ h => by simp [history] at h }
  | append_singleton calls call ih =>
    rw [history_append]
    exact ih.step (step_cases crates _ call)

/-- An attempt that is under way, or that a human must look at. -/
def ActionProposal.isAttempt (p : ActionProposal) : Prop :=
  p.state = .executing ∨ p.state = .reviewRequired

theorem find_compact (now : Nat) (hp : store.proposals.find id = some p) (hattempt : p.isAttempt) :
    (store.compact now).proposals.find id = some p := by
  rw [compact, Table.find_delete, hp, Option.filter_some, if_pos]
  rcases hattempt with hstate | hstate <;> simp [reclaims, hstate]

theorem find_modify_isSome (hf : ∀ p, (f p).id = p.id)
    (q : ActionProposal → Bool) (hp : store.proposals.find id = some p) :
    ((store.proposals.modify q f hf).find id).isSome := by
  rw [Table.find_modify, hp]
  simp

theorem find_storeModify_isSome (hp : store.proposals.find id = some p) :
    ((store.modify id' f hf).proposals.find id).isSome :=
  find_modify_isSome hf _ hp

/-- No call drops an attempt, whether it compacts the store or not. -/
theorem find_step_isSome (h : Sound crates store log) (call : Call)
    (hp : store.proposals.find id = some p) (hattempt : p.isAttempt) :
    ((step crates store call).1.proposals.find id).isSome := by
  have hself : (store.proposals.find id).isSome := by simp [hp]
  cases call with
  | propose spec requester expiresAt fingerprint =>
    have hcompacted : (if maxProposals ≤ store.proposals.rows.length then store.compact 0
        else store).proposals.find id = some p := by
      split_ifs
      · exact find_compact 0 hp hattempt
      · exact hp
    have hne : ¬ store.sequence + 1 = id := by
      obtain ⟨hmem, rfl⟩ := Table.find_eq_some_iff.mp hp
      have hle := h.id_le hmem
      omega
    simp only [step, propose]
    generalize (if maxProposals ≤ store.proposals.rows.length then store.compact 0
      else store) = compacted at hcompacted ⊢
    split_ifs
    · exact hself
    · exact hself
    · rw [hcompacted]
      rfl
    · rw [Table.find_put, if_neg hne, hcompacted]
      rfl
  | confirm id' digest facts =>
    simp only [step, confirm]
    split
    · exact hself
    · split_ifs
      · exact hself
      · split
        · exact hself
        · exact find_storeModify_isSome hp
  | begin id' facts =>
    simp only [step, begin]
    split
    · exact hself
    · split_ifs
      · exact hself
      · exact hself
      · split
        · exact find_storeModify_isSome hp
        · exact find_storeModify_isSome hp
  | finish id' state reference =>
    simp only [step, finish]
    split
    · exact hself
    · split_ifs
      · exact hself
      · exact find_storeModify_isSome hp
  | markInterrupted =>
    simp only [step, markInterrupted]
    exact find_modify_isSome _ _ hp
  | compact now =>
    show ((store.compact now).proposals.find id).isSome
    rw [find_compact now hp hattempt]
    rfl
  | reload =>
    show ((store.reload crates).proposals.find id).isSome
    rw [reload, crates.load_save]
    exact hself

/-- An action becomes ready at most once, and only as it was proposed and
approved.  No id is issued twice, and no call drops an attempt. -/
theorem ready_once_as_approved (crates : Crates) (calls : List Call) :
    (readyIds (history crates calls).2).Nodup ∧
    (∀ n id facts spec, (history crates calls).2[n]? = some ⟨.begin id facts, .ready spec⟩ →
      ∃ requester expiresAt fingerprint confirmed, ApprovedIn crates
        ((history crates calls).2.take n) id spec requester expiresAt fingerprint confirmed facts) ∧
    (issuedIds (history crates calls).2).Nodup ∧
    (∀ id p, (history crates calls).1.proposals.find id = some p → p.isAttempt →
      (∀ now, ((history crates calls).1.compact now).proposals.find id = some p) ∧
      ∀ call, ((history crates (calls ++ [call])).1.proposals.find id).isSome) := by
  have h := sound_history crates calls
  refine ⟨h.readyOnce, h.justified, h.issuedOnce, fun id p hp hattempt => ⟨fun now => ?_,
    fun call => ?_⟩⟩
  · exact find_compact now hp hattempt
  · rw [history_append]
    exact find_step_isSome h call hp hattempt

end Abbey.Approval
