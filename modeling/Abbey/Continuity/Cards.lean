import Abbey.Run.Store
import Mathlib.Data.Finset.Card
import Mathlib.Data.Finset.Basic

/-!
# Continuity cards

`src/extensions/bot/src/work/continuity.rs`: one confirmed text for each
work scope, with the tasks and decisions that it rests on.  A card lives for
a week.  Of the work records only the fields that continuity reads are
modelled.

The wire form is the list of the cards.  `deserialize_serialize` says which
stores are read back: those whose cards are valid and which hold no more
than `maxCards` of them, expired ones included.
-/

namespace Abbey.Continuity

open Abbey.Lib Abbey.Run Table List Except

/-! ## Work -/

inductive WorkError where
  | denied
  | missing
  | invalid
  | full
  | stale
  | persistence
  deriving DecidableEq

inductive WorkScope where
  | personal (owner : Nat)
  | team (guild channel : Nat)
  deriving DecidableEq

inductive WorkContentRef where
  | task (project id revision : Nat)
  | decision (project id revision : Nat)
  deriving DecidableEq

structure WorkProject where
  id : Nat
  scope : WorkScope
  managers : Finset Nat
  members : Finset Nat

structure WorkTask where
  id : Nat
  projectId : Nat
  owner : Nat
  assignee : Option Nat
  revision : Nat

structure WorkDecision where
  id : Nat
  projectId : Nat
  author : Nat

/-- A `BTreeMap` with an integer key. -/
abbrev IdMap (α : Type) := Table (Prod.fst : Nat × α → Nat)

def IdMap.get {α : Type} (map : IdMap α) (id : Nat) : Option α := (map.find id).map Prod.snd

structure WorkStore where
  projects : IdMap WorkProject
  tasks : IdMap WorkTask
  decisions : IdMap WorkDecision

def WorkStore.empty : WorkStore := ⟨.empty, .empty, .empty⟩

structure WorkAccess where
  actor : Nat
  guild : Option Nat
  channel : Nat
  canView : Bool
  canManage : Bool

variable {access : WorkAccess}

def WorkAccess.scope (access : WorkAccess) : WorkScope :=
  match access.guild with
  | none => .personal access.actor
  | some guild => .team guild access.channel

def WorkProject.inScope (project : WorkProject) (access : WorkAccess) : Bool :=
  match project.scope with
  | .personal owner => access.guild.isNone && access.actor = owner
  | .team guild channel =>
    access.guild = some guild && access.channel = channel && access.canView

def WorkProject.authorize (project : WorkProject) (access : WorkAccess) (manager : Bool) :
    Except WorkError Unit :=
  ensure (access.actor ≠ 0 && project.inScope access && access.actor ∈ project.members &&
    (!manager || access.actor ∈ project.managers)) .denied

def WorkStore.scopeProjects (work : WorkStore) (scope : WorkScope) (access : WorkAccess)
    (manager : Bool) : Except WorkError (List WorkProject) := do
  let projects := (work.projects.rows.map Prod.snd).filter (fun project => project.scope = scope)
  ensure (!projects.isEmpty) .missing
  projects.forM (fun project => project.authorize access manager)
  .ok projects

/-! ## Checks -/

def u64Max : Nat := 2 ^ 64 - 1

def checkedAdd (a b : Nat) : Option Nat := if a + b ≤ u64Max then some (a + b) else none

def maxCards : Nat := 256

def maxTextBytes : Nat := 1600

def maxSources : Nat := 8

def cardLifetime : Nat := 604800

def proposalLifetime : Nat := 300

def validScope : WorkScope → Bool
  | .personal owner => owner ≠ 0
  | .team guild channel => guild ≠ 0 && channel ≠ 0

def WorkContentRef.valid : WorkContentRef → Bool
  | .task project id _ => project ≠ 0 && id ≠ 0
  | .decision project id revision => project ≠ 0 && id ≠ 0 && revision = 1

def validateContent (text : String) (refs : Finset WorkContentRef) : Except WorkError Unit := do
  ensure (!text.toList.all isWhitespace && text.utf8ByteSize ≤ maxTextBytes &&
    !text.toList.any (fun c => isControl c && c ≠ '\n') && refs.card ≤ maxSources) .invalid
  ensure (∀ source ∈ refs, source.valid = true) .invalid

/-- The source is in the work store, in a project of the scope. -/
def WorkContentRef.current (scope : WorkScope) (work : WorkStore) : WorkContentRef → Bool
  | .task project id revision =>
    (work.tasks.get id).any
      (fun task => task.id = id && task.projectId = project && task.revision = revision) &&
    (work.projects.get project).any (fun p => p.id = project && p.scope = scope)
  | .decision project id revision =>
    (work.decisions.get id).any
      (fun decision => decision.id = id && decision.projectId = project && revision = 1) &&
    (work.projects.get project).any (fun p => p.id = project && p.scope = scope)

def validateSources (scope : WorkScope) (refs : Finset WorkContentRef) (work : WorkStore) :
    Except WorkError Unit :=
  ensure (∀ source ∈ refs, source.current scope work = true) .stale

def withinLifetime (expiresAt lifetime now : Nat) : Bool :=
  lifetime ≤ expiresAt && expiresAt - lifetime ≤ now && now < expiresAt

def authorizeScope (scope : WorkScope) (access : WorkAccess) (work : WorkStore) (manager : Bool) :
    Except WorkError Unit := do
  ensure (validScope scope && access.actor ≠ 0 && access.channel ≠ 0 && access.canView &&
    scope = access.scope) .denied
  let _ ← work.scopeProjects scope access manager
  .ok ()

/-! ## Proposals and cards -/

/-- A confirmation names the proposal that was shown. -/
structure ContinuityProposal where
  actor : Nat
  scope : WorkScope
  baseRevision : Nat
  presentedText : String
  sourceRefs : Finset WorkContentRef
  expiresAt : Nat

structure ContinuityCard where
  schemaVersion : Nat
  scope : WorkScope
  confirmedBy : Nat
  revision : Nat
  confirmedText : String
  sourceRefs : Finset WorkContentRef
  expiresAt : Nat
  episodeReceipt : Option String
  deriving DecidableEq

variable {cards : List ContinuityCard}

def ContinuityCard.ownedBy (card : ContinuityCard) : Bool :=
  match card.scope with
  | .personal owner => owner = card.confirmedBy
  | .team _ _ => true

def validateCard (card : ContinuityCard) : Except WorkError Unit := do
  ensure (card.schemaVersion = 1 && card.revision ≠ 0 && card.confirmedBy ≠ 0 &&
    validScope card.scope && cardLifetime ≤ card.expiresAt && card.ownedBy) .invalid
  ensure (card.episodeReceipt.all isDigest) .invalid
  validateContent card.confirmedText card.sourceRefs

/-- The source belongs to the member. -/
def WorkContentRef.linked (member : Nat) (work : WorkStore) : WorkContentRef → Bool
  | .task project id _ => (work.tasks.get id).any (fun t =>
      t.id = id && t.projectId = project && (t.owner = member || t.assignee = some member))
  | .decision project id _ => (work.decisions.get id).any (fun d =>
      d.id = id && d.projectId = project && d.author = member)

def ContinuityCard.linkedTo (card : ContinuityCard) (member : Option Nat) (work : WorkStore) :
    Bool :=
  member.all (fun member =>
    card.confirmedBy = member || ∃ source ∈ card.sourceRefs, source.linked member work = true)

/-- A card that a context may show to an actor. -/
structure AuthorizedContinuity where
  card : ContinuityCard
  actor : Nat
  channel : Nat

/-- One card for each scope. -/
structure ContinuityStore where
  cards : Table ContinuityCard.scope

namespace ContinuityStore

def empty : ContinuityStore := ⟨.empty⟩

def card (store : ContinuityStore) (scope : WorkScope) : Option ContinuityCard :=
  store.cards.find scope

/-- Cards that are not expired, or that the episode ledger knows. -/
def retained (now : Nat) (card : ContinuityCard) : Bool :=
  now < card.expiresAt || card.episodeReceipt.isSome

def remove (store : ContinuityStore) (scope : WorkScope) : ContinuityStore :=
  ⟨store.cards.delete (fun card => card.scope = scope)⟩

def insert (store : ContinuityStore) (card : ContinuityCard) : ContinuityStore :=
  ⟨store.cards.put card⟩

def replaceExact (store : ContinuityStore) (scope : WorkScope)
    (expected replacement : Option ContinuityCard) : Except WorkError ContinuityStore := do
  ensure (store.card scope = expected || store.card scope = replacement) .stale
  match replacement with
  | none => .ok (store.remove scope)
  | some card => do
    ensure (card.scope = scope) .invalid
    validateCard card
    .ok (store.insert card)

def installReceipt (store : ContinuityStore) (card : ContinuityCard) (receipt : String) :
    Except WorkError (ContinuityStore × ContinuityCard) := do
  ensure (store.card card.scope = some card) .stale
  let admitted := { card with episodeReceipt := some receipt }
  validateCard admitted
  .ok (store.insert admitted, admitted)

def removeExact (store : ContinuityStore) (card : ContinuityCard) :
    Except WorkError ContinuityStore := do
  ensure (store.card card.scope = some card) .stale
  .ok (store.remove card.scope)

/-- Cards that a restart keeps. -/
def pruneCurrent (store : ContinuityStore) (work : WorkStore) (now : Nat) : ContinuityStore :=
  ⟨store.cards.delete (fun card => !(card.episodeReceipt.isSome ||
    (withinLifetime card.expiresAt cardLifetime now &&
      (validateSources card.scope card.sourceRefs work).isOk &&
      work.projects.rows.any (fun row => row.2.scope = card.scope))))⟩

def clear (store : ContinuityStore) (scope : WorkScope) (access : WorkAccess) (work : WorkStore) :
    Except WorkError (ContinuityStore × Option ContinuityCard) := do
  authorizeScope scope access work true
  .ok (store.remove scope, store.card scope)

/-- `continuity_scope`: the guild that a scope is erased with. -/
def nativeScope : WorkScope → String
  | .personal owner => "discord:dm:" ++ toString owner
  | .team guild _ => "discord:" ++ toString guild

def erasureTargets (store : ContinuityStore) (scope : String) (member : Option Nat)
    (work : WorkStore) : List ContinuityCard :=
  store.cards.rows.filter (fun card => nativeScope card.scope = scope && card.linkedTo member work)

/-- The cards of other scopes that count against the capacity. -/
def activeElsewhere (store : ContinuityStore) (scope : WorkScope) (now : Nat) :
    List ContinuityCard :=
  store.cards.rows.filter (fun card => card.scope ≠ scope && retained now card)

def confirm (store : ContinuityStore) (proposal : ContinuityProposal) (access : WorkAccess)
    (work : WorkStore) (now : Nat) : Except WorkError (ContinuityStore × ContinuityCard) := do
  ensure (proposal.actor = access.actor) .denied
  authorizeScope proposal.scope access work true
  ensure (withinLifetime proposal.expiresAt proposalLifetime now) .stale
  validateContent proposal.presentedText proposal.sourceRefs
  validateSources proposal.scope proposal.sourceRefs work
  let current := ((store.card proposal.scope).map ContinuityCard.revision).getD 0
  ensure (current = proposal.baseRevision) .stale
  let revision ← required (checkedAdd current 1) .full
  let expiresAt ← required (checkedAdd now cardLifetime) .invalid
  ensure ((store.activeElsewhere proposal.scope now).length < maxCards) .full
  let card : ContinuityCard := {
    schemaVersion := 1
    scope := proposal.scope
    confirmedBy := proposal.actor
    revision
    confirmedText := proposal.presentedText
    sourceRefs := proposal.sourceRefs
    expiresAt
    episodeReceipt := none }
  -- expired cards leave this store only when the confirmation goes through
  .ok (⟨(store.cards.delete (fun card => !retained now card)).put card⟩, card)

def context (store : ContinuityStore) (scope : WorkScope) (access : WorkAccess)
    (work : WorkStore) (now : Nat) : Option AuthorizedContinuity := do
  let card ← store.card scope
  if (authorizeScope scope access work false).isOk && (validateCard card).isOk &&
      withinLifetime card.expiresAt cardLifetime now &&
      (validateSources scope card.sourceRefs work).isOk then
    some ⟨card, access.actor, access.channel⟩
  else none

/-! ## The wire form -/

def serialize (store : ContinuityStore) : List ContinuityCard := store.cards.rows

def deserializeCard (store : ContinuityStore) (card : ContinuityCard) :
    Except String ContinuityStore := do
  mapErr (fun _ => "Check the supplied work item fields.") (validateCard card)
  let cards ← required (store.cards.insert? card) "duplicate continuity scope"
  .ok ⟨cards⟩

def deserialize (cards : List ContinuityCard) : Except String ContinuityStore := do
  ensure (cards.length ≤ maxCards) "continuity card limit"
  cards.foldlM deserializeCard empty

/-! ## Lookups -/

section

variable {store store' : ContinuityStore} {scope other : WorkScope} {card : ContinuityCard}

@[simp] theorem card_remove (store : ContinuityStore) (scope other : WorkScope) :
    (store.remove scope).card other = if other = scope then none else store.card other :=
  find_delete_key _ _ _

@[simp] theorem card_insert (store : ContinuityStore) (card : ContinuityCard) (other : WorkScope) :
    (store.insert card).card other = if card.scope = other then some card else store.card other :=
  find_put _ _ _

variable {expected replacement : Option ContinuityCard}

/-- What a replacement leaves: the replacement under its scope. -/
theorem card_replaceExact
    (h : store.replaceExact scope expected replacement = .ok store') (other : WorkScope) :
    store'.card other = if other = scope then replacement else store.card other := by
  unfold replaceExact at h
  obtain ⟨_, _, h⟩ := bind_ok_iff.mp h
  cases replacement with
  | none =>
    cases h
    exact card_remove store scope other
  | some card =>
    simp only [bind_ok_iff, ensure_eq_ok, decide_eq_true_eq] at h
    obtain ⟨_, rfl, _, _, hok⟩ := h
    cases hok
    rw [card_insert]
    simp only [eq_comm]

/-- A replacement goes through when it replaces what is there. -/
theorem replaceExact_ok (hexpected : store.card scope = expected ∨ store.card scope = replacement)
    (hreplacement : ∀ card, replacement = some card → card.scope = scope ∧
      validateCard card = .ok ()) :
    ∃ store', store.replaceExact scope expected replacement = .ok store' := by
  unfold replaceExact
  rw [show ensure (store.card scope = expected || store.card scope = replacement) WorkError.stale =
    .ok () from by simpa using hexpected]
  cases replacement with
  | none => exact ⟨_, rfl⟩
  | some card =>
    obtain ⟨hscope, hvalid⟩ := hreplacement card rfl
    refine ⟨store.insert card, ?_⟩
    simp only [bind_ok_iff, ensure_eq_ok, decide_eq_true_eq]
    exact ⟨(), trivial, (), hscope, (), hvalid, trivial⟩

end

/-! ## Capacity -/

/-- The scopes with a card. -/
def scopes (store : ContinuityStore) : Finset WorkScope :=
  (store.cards.rows.map ContinuityCard.scope).toFinset

variable {store : ContinuityStore} {scope : WorkScope}

@[simp] theorem mem_scopes : scope ∈ store.scopes ↔ (store.card scope).isSome := by
  unfold scopes card
  rw [mem_toFinset, mem_map]
  constructor
  · rintro ⟨card, hcard, rfl⟩
    rw [mem_rows_iff_find.mp hcard]
    rfl
  · intro h
    obtain ⟨card, hcard⟩ := Option.isSome_iff_exists.mp h
    exact ⟨card, mem_rows_of_find hcard, pk_of_find hcard⟩

theorem length_eq_card_scopes (store : ContinuityStore) :
    store.cards.rows.length = store.scopes.card := by
  unfold scopes
  rw [toFinset_card_of_nodup store.cards.nodup, length_map]

/-- Every card meets the checks of the loader. -/
def Valid (store : ContinuityStore) : Prop :=
  ∀ scope card, store.card scope = some card → validateCard card = .ok ()

theorem Valid.empty : empty.Valid := by
  intro scope card h
  cases h

theorem deserializeCards_ok (store : ContinuityStore)
    (hvalid : ∀ card ∈ cards, validateCard card = .ok ())
    (hnodup : ((store.cards.rows ++ cards).map ContinuityCard.scope).Nodup) :
    ∃ store', cards.foldlM deserializeCard store = .ok store' ∧
      store'.cards.rows = store.cards.rows ++ cards := by
  induction cards generalizing store with
  | nil => exact ⟨store, rfl, (append_nil _).symm⟩
  | cons card cards ih =>
    have hfree : store.cards.find card.scope = none := by
      rw [find_eq_none_iff]
      intro row hrow hsame
      rw [map_append, nodup_append] at hnodup
      exact hnodup.2.2 row.scope (mem_map_of_mem hrow) card.scope
        (mem_map_of_mem mem_cons_self) hsame
    obtain ⟨cards', hinsert⟩ := insert?_of_find_none hfree
    have hrows := rows_insert hinsert
    have hhead : deserializeCard store card = .ok ⟨cards'⟩ := by
      unfold deserializeCard
      rw [hvalid card mem_cons_self, hinsert]
      rfl
    obtain ⟨store', hfold, hrows'⟩ := ih ⟨cards'⟩
      (fun c hc => hvalid c (mem_cons_of_mem card hc))
      (by simpa only [hrows, append_assoc, singleton_append] using hnodup)
    refine ⟨store', ?_, ?_⟩
    · rw [foldlM_cons, hhead]
      exact hfold
    · rw [hrows', hrows, append_assoc, singleton_append]

variable {store store' : ContinuityStore} {card : ContinuityCard}

theorem rows_of_deserializeCards
    (h : cards.foldlM deserializeCard store = .ok store') (hvalid : store.Valid) :
    store'.Valid ∧ store'.cards.rows = store.cards.rows ++ cards := by
  induction cards generalizing store with
  | nil =>
    cases h
    exact ⟨hvalid, (append_nil _).symm⟩
  | cons card cards ih =>
    rw [foldlM_cons] at h
    obtain ⟨mid, hmid, hrest⟩ := bind_ok_iff.mp h
    unfold deserializeCard at hmid
    obtain ⟨_, hcheck, hmid⟩ := bind_ok_iff.mp hmid
    obtain ⟨cards', hinsert, hmid⟩ := bind_ok_iff.mp hmid
    cases hmid
    have hinsert := required_eq_ok.mp hinsert
    have hmidValid : Valid ⟨cards'⟩ := by
      intro scope other hother
      unfold ContinuityStore.card at hother
      rw [find_insert hinsert] at hother
      split_ifs at hother
      · cases hother
        exact mapErr_eq_ok.mp hcheck
      · exact hvalid scope other hother
    obtain ⟨hvalid', hrows⟩ := ih hrest hmidValid
    refine ⟨hvalid', ?_⟩
    rw [hrows, rows_insert hinsert, append_assoc]
    rfl

/-- What the loader reads is valid and within the capacity. -/
theorem deserialize_ok (h : deserialize cards = .ok store) :
    store.Valid ∧ store.cards.rows.length ≤ maxCards := by
  unfold deserialize at h
  obtain ⟨_, hlength, hfold⟩ := bind_ok_iff.mp h
  obtain ⟨hvalid, hrows⟩ := rows_of_deserializeCards hfold .empty
  refine ⟨hvalid, ?_⟩
  rw [hrows]
  simpa [empty, Table.empty] using hlength

/-- A store whose cards are valid is read back exactly when it holds no more
than `maxCards` of them. -/
theorem deserialize_serialize (hvalid : store.Valid) :
    deserialize store.serialize = if store.cards.rows.length ≤ maxCards then .ok store
      else .error "continuity card limit" := by
  unfold deserialize serialize
  split_ifs with hlength
  · obtain ⟨store', hfold, hrows⟩ := deserializeCards_ok empty
      (fun card hcard => hvalid _ card (mem_rows_iff_find.mp hcard))
      (by simpa [empty, Table.empty] using store.cards.nodup)
    have hstore : store' = store := by
      cases store with | mk cards => cases store' with | mk cards' =>
      exact congrArg ContinuityStore.mk (ext hrows)
    have hensure : ensure (store.cards.rows.length ≤ maxCards) "continuity card limit" = .ok () :=
      ensure_eq_ok.mpr (by simpa using hlength)
    rw [hensure]
    exact hfold.trans (congrArg ok hstore)
  · rw [ensure_eq_error.mpr ⟨by simpa using hlength, rfl⟩]
    rfl

/-! ## Confirmations -/

theorem confirmedBy_of_scope (h : scope = access.scope) (owner : Nat)
    (howner : scope = .personal owner) : owner = access.actor := by
  unfold WorkAccess.scope at h
  rw [howner] at h
  split at h
  · exact WorkScope.personal.inj h
  · cases h

/-- What a confirmation that goes through does: one valid card under its
scope, and the other cards that count against the capacity. -/
theorem confirm_ok (h : store.confirm proposal access work now = .ok (store', card)) :
    card.scope = proposal.scope ∧ validateCard card = .ok () ∧
      (∀ other, store'.card other = if proposal.scope = other then some card
        else (store.card other).filter (retained now)) ∧
      (store.activeElsewhere proposal.scope now).length < maxCards := by
  unfold confirm authorizeScope validateSources at h
  simp only [bind_ok_iff, ensure_eq_ok, required_eq_ok, decide_eq_true_eq, Bool.and_eq_true,
    ok.injEq, Prod.mk.injEq] at h
  obtain ⟨_, hactor, _, ⟨_, ⟨⟨⟨⟨hscope, hactive⟩, _⟩, _⟩, haccess⟩, _, _, _⟩, _, _, _, hcontent, _, _,
    _, _, revision, hrevision, expiresAt, hexpires, _, hroom, hstore, rfl⟩ := h
  have hrevision0 : revision ≠ 0 := by
    unfold checkedAdd at hrevision
    split_ifs at hrevision
    have := Option.some.inj hrevision
    omega
  have hexpires0 : cardLifetime ≤ expiresAt := by
    unfold checkedAdd at hexpires
    split_ifs at hexpires
    have := Option.some.inj hexpires
    omega
  refine ⟨rfl, ?_, fun other => ?_, hroom⟩
  · have howned : ContinuityCard.ownedBy ⟨1, proposal.scope, proposal.actor, revision,
        proposal.presentedText, proposal.sourceRefs, expiresAt, none⟩ := by
      unfold ContinuityCard.ownedBy
      cases hcase : proposal.scope with
      | personal owner =>
        simpa [hactor] using confirmedBy_of_scope haccess owner hcase
      | team guild channel => rfl
    unfold validateCard
    simp only [bind_ok_iff, ensure_eq_ok, Bool.and_eq_true, decide_eq_true_eq, Option.all_none]
    exact ⟨(), ⟨⟨⟨⟨⟨trivial, hrevision0⟩, hactor ▸ hactive⟩, hscope⟩, hexpires0⟩, howned⟩, (), trivial,
      hcontent⟩
  · rw [← hstore]
    unfold card
    rw [find_put, find_delete]
    simp only [Bool.not_not]

theorem installReceipt_ok (h : store.installReceipt card receipt = .ok (store', admitted)) :
    admitted.scope = card.scope ∧ validateCard admitted = .ok () ∧
      ∀ other, store'.card other = if card.scope = other then some admitted
        else store.card other := by
  unfold installReceipt at h
  simp only [bind_ok_iff, ok.injEq, Prod.mk.injEq] at h
  obtain ⟨_, _, _, hvalid, rfl, rfl⟩ := h
  exact ⟨rfl, hvalid, fun other => card_insert _ _ _⟩

theorem removeExact_ok (h : store.removeExact card = .ok store') :
    ∀ other, store'.card other = if other = card.scope then none else store.card other := by
  unfold removeExact at h
  simp only [bind_ok_iff, ok.injEq] at h
  obtain ⟨_, _, rfl⟩ := h
  exact fun other => card_remove _ _ _

end ContinuityStore

end Abbey.Continuity
