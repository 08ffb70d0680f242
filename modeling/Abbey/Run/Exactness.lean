import Abbey.Run.ReadBack
import Mathlib.Data.List.Forall2

/-!
# The context of a turn is exact

`expectedContext` says what the context of a turn should be, from the
history alone: the exchanges of the newest 32 earlier turns that succeeded
in the same conversation on the same route, as far as they fit.
`turn_context_exact` is the agreement of `v4TurnContext` with it after any
run of calls.
-/

namespace Abbey.Run

open Abbey.Lib List ContextScan Option

variable {turn : AssistantTurn} {id : RunId} {submit : V4SubmitTurn}

/-! ## What the context should be -/

/-- The turns admitted before a run, oldest first. -/
def admittedBefore (log : List TurnEvent) (id : RunId) : List (RunId × V4SubmitTurn) :=
  (admissions log).takeWhile (fun turn => turn.1 ≠ id)

/-- A turn of the same conversation and route that succeeded. -/
def isEarlierSuccess (s : Turns) (submit : V4SubmitTurn) (turn : RunId × V4SubmitTurn) : Bool :=
  turn.2.conversationId = submit.conversationId && turn.2.routeId = submit.routeId &&
    (s.db.runs.find turn.1).any (fun run => run.status = .succeeded)

/-- What was said in a turn: the exact input and all its deltas. -/
def exchangeOf (log : List TurnEvent) (turn : RunId × V4SubmitTurn) : V4ContextPair :=
  ⟨turn.2.input, joined (deltasOf log turn.1)⟩

/-- The exchanges of the earlier successes, newest first. -/
def earlierExchanges (s : Turns) (id : RunId) (submit : V4SubmitTurn) : List V4ContextPair :=
  ((admittedBefore s.log id).filter (isEarlierSuccess s submit)).reverse.map (exchangeOf s.log)

def V4ContextPair.size (pair : V4ContextPair) : Nat :=
  pair.user.utf8ByteSize + pair.assistant.utf8ByteSize

/-- Scan exchanges and keep those that fit in what remains, skipping those
without a reply; also, whether one was dropped. -/
def keepFitting : List V4ContextPair → Nat → List V4ContextPair × Bool
  | [], _ => ([], false)
  | pair :: rest, remaining =>
    if pair.assistant = "" then keepFitting rest remaining
    else if pair.size ≤ remaining then
      let kept := keepFitting rest (remaining - pair.size)
      (pair :: kept.1, kept.2)
    else ((keepFitting rest remaining).1, true)

def expectedContext (s : Turns) (id : RunId) (submit : V4SubmitTurn) (maxBytes : Nat) :
    V4TurnContext :=
  let turns := earlierExchanges s id submit
  let kept := keepFitting (turns.take 32) maxBytes
  ⟨kept.1.reverse, kept.2 || decide (32 < turns.length)⟩

/-! ## The scan -/

/-- What the scan does with one exchange. -/
def ContextScan.add (scan : ContextScan) (pair : V4ContextPair) : ContextScan :=
  if pair.assistant = "" then scan
  else if pair.size ≤ scan.remaining then
    { scan with pairs := scan.pairs ++ [pair], remaining := scan.remaining - pair.size }
  else { scan with truncated := true }

theorem ContextScan.add_remaining_le (scan : ContextScan) (pair : V4ContextPair) :
    (scan.add pair).remaining ≤ scan.remaining := by
  unfold add
  split_ifs
  · exact le_refl _
  · show scan.remaining - pair.size ≤ scan.remaining
    omega
  · exact le_refl _

theorem foldl_add (pairs : List V4ContextPair) (scan : ContextScan) : (pairs.foldl add scan).pairs =
        scan.pairs ++ (keepFitting pairs scan.remaining).1 ∧
      (pairs.foldl add scan).truncated =
        (scan.truncated || (keepFitting pairs scan.remaining).2) := by
  induction pairs generalizing scan with
  | nil => simp [keepFitting]
  | cons pair pairs ih =>
    rw [foldl_cons, (ih _).1, (ih _).2]
    simp only [keepFitting]
    unfold add
    split_ifs <;> simp

/-- The stored rows of a turn are read as an exchange. -/
def ReadsAs (db : RunDb) (cid : ConversationId) (pair : V4ContextPair)
    (identity : TurnIdentity) : Prop :=
  ∀ scan : ContextScan, scan.remaining ≤ 24 * 1024 →
    contextStep db cid scan identity = .ok (scan.add pair)

theorem foldlM_contextStep {pairs : List V4ContextPair}
    (h : List.Forall₂ (ReadsAs db cid) pairs identities)
    (scan : ContextScan) (hscan : scan.remaining ≤ 24 * 1024) :
    identities.foldlM (contextStep db cid) scan = .ok (pairs.foldl add scan) := by
  induction h generalizing scan with
  | nil => rfl
  | @cons pair identity pairs identities hfirst _ ih =>
    rw [foldlM_cons, hfirst scan hscan, ok_bind, foldl_cons]
    exact ih _ (le_trans (scan.add_remaining_le pair) hscan)

variable {submitDigest : V4SubmitTurn → String} {s : Turns} {db : RunDb}

/-- A told turn is read as its exchange. -/
theorem Told.readsAs {run : RunRecord} (hid : turn.runId = id)
    (hstatus : run.status = .succeeded) (h : Told db deltas id submit turn run) :
    ∃ identity, withReplies db turn = [identity] ∧
      ReadsAs db submit.conversationId ⟨submit.input, joined deltas⟩ identity := by
  have hcontent := h.content
  rw [hstatus] at hcontent
  obtain ⟨user, huser, hof⟩ := h.user
  have hreplies : db.assistantMessages.rows.filter
      (fun m => m.runId = turn.runId && m.role = .assistant) = repliesOf db id := by
    rw [hid]
    rfl
  unfold withReplies
  rw [hreplies]
  cases h.reply with
  | silent none empty =>
    rw [none]
    refine ⟨_, rfl, ?_⟩
    intro scan _
    have hvalid := validateEmptySuccess_ok hcontent empty
    rw [← hid] at hvalid
    simp [contextStep, hvalid, add, empty]
  | spoken m one nonempty conversation preview bounded settled =>
    rw [one]
    refine ⟨_, rfl, ?_⟩
    intro scan hscan
    have hm : m ∈ db.assistantMessages.rows ∧ m.runId = id ∧ m.role = .assistant := by
      have hmem : m ∈ repliesOf db id := by simp [one]
      exact mem_repliesOf.mp hmem
    have hfind : db.assistantMessages.find m.id = some m := Table.mem_rows_iff_find.mp hm.1
    have hstate : m.state = .succeeded := by
      rw [settled (by rw [hstatus]; rfl), hstatus]
    have hpair : pairMessages db submit.conversationId
        ⟨turn.runId, turn.userMessageId, some m.id⟩ m.id = some (user, m) := by
      unfold pairMessages
      simp [huser, hfind, hof.conversation, conversation, hof.run, hm.2.1, hof.role, hm.2.2,
        hstate, hid]
    have hsize : V4ContextPair.size ⟨submit.input, joined deltas⟩ =
        user.body.utf8ByteSize + m.textBytes := by
      rw [hof.body, preview.bytes]
      rfl
    unfold contextStep add
    simp only [hpair, required_some, ok_bind, bounded, decide_true, ensure_true, nonempty,
      if_false, hsize]
    by_cases hfits : user.body.utf8ByteSize + m.textBytes ≤ scan.remaining
    · obtain ⟨reply, hread, hassistant, hover⟩ := readReply_exact hcontent preview
        (show m.textBytes ≤ scan.remaining - user.body.utf8ByteSize by omega) (by omega)
      rw [if_neg (by omega), if_pos hfits]
      unfold readPair
      rw [hid]
      simp only [preview.size, decide_true, ensure_true, ok_bind, hread, hover, hassistant,
        Bool.false_eq_true, if_false, ← preview.bytes, ← hof.body]
    · rw [if_pos (by omega), if_neg hfits]

/-! ## The earlier turns -/

/-- A row of a turn that comes before a place of its conversation. -/
structure RowOf (submitDigest : V4SubmitTurn → String) (s : Turns) (cid : ConversationId)
    (before : Nat) (turn : RunId × V4SubmitTurn) (row : AssistantTurn) : Prop where
  id : turn.1 = row.runId
  bound : ∃ run, BoundTo submitDigest s.db turn.1 turn.2 row run ∧
    (isDeleted s.db turn.2.conversationId = false →
      Told s.db (deltasOf s.log turn.1) turn.1 turn.2 row run)
  earlier : row.conversationId = cid → row.userSequence < before

/-- The rows before a turn are those of the turns admitted before it. -/
theorem Recorded.rowOf (h : Recorded submitDigest s) (hmem : (id, submit) ∈ admissions s.log)
    (hlive : isDeleted s.db submit.conversationId = false)
    (hturn : s.db.assistantTurns.find id = some turn)
    (hconversation : turn.conversationId = submit.conversationId) :
    ∃ rows later, s.db.assistantTurns.rows = rows ++ turn :: later ∧
      List.Forall₂ (RowOf submitDigest s submit.conversationId turn.userSequence)
        (admittedBefore s.log id) rows ∧
      ∀ row ∈ later, row.conversationId = submit.conversationId →
        turn.userSequence < row.userSequence := by
  obtain ⟨pre, post, hsplit⟩ := append_of_mem hmem
  have hmap := h.rows
  rw [hsplit, map_append, map_cons] at hmap
  obtain ⟨rows, tail, hrows, hpre, htail⟩ := map_eq_append_iff.mp hmap
  obtain ⟨row, later, rfl, hrow, _⟩ := map_eq_cons_iff.mp htail
  have hself : row = turn := by
    have hmem' : row ∈ s.db.assistantTurns.rows := by simp [hrows]
    have hfind : s.db.assistantTurns.find row.runId = some row :=
      Table.mem_rows_iff_find.mp hmem'
    rw [hrow, hturn] at hfind
    exact (some.inj hfind).symm
  subst hself
  -- the run is admitted once, so the turns before it are those of `pre`
  have hbefore : admittedBefore s.log id = pre := by
    have hnodup := s.db.assistantTurns.nodup
    rw [h.rows, hsplit, map_append, map_cons, nodup_append] at hnodup
    unfold admittedBefore
    rw [hsplit, takeWhile_append_of_pos]
    · simp
    · intro other hother
      have hne := hnodup.2.2 other.1 (mem_map.mpr ⟨other, hother, rfl⟩) id
        mem_cons_self
      simpa using hne
  have horder := h.order
  rw [hrows, pairwise_append] at horder
  refine ⟨rows, later, hrows, ?_, ?_⟩
  · rw [hbefore]
    have hids : List.Forall₂ (fun (other : RunId × V4SubmitTurn) (row : AssistantTurn) =>
        other.1 = row.runId) pre rows := by
      have heq : List.Forall₂ (· = ·) (pre.map Prod.fst) (rows.map AssistantTurn.runId) := by
        rw [forall₂_eq_eq_eq]
        exact hpre.symm
      rw [forall₂_map_left_iff, forall₂_map_right_iff] at heq
      exact heq
    refine forall₂_iff_zip.mpr ⟨hids.length_eq, fun {other orow} hzip => ?_⟩
    obtain ⟨hother, horow⟩ := of_mem_zip hzip
    have hid : other.1 = orow.runId := forall₂_zip hids hzip
    have hadmitted : other ∈ admissions s.log := by
      rw [hsplit]
      exact mem_append_left _ hother
    have hmem' : orow ∈ s.db.assistantTurns.rows := by
      rw [hrows]
      exact mem_append_left _ horow
    obtain ⟨found, run, hbound, htold⟩ := h.turns other.1 other.2 hadmitted
    have hfound : found = orow := by
      have hfind : s.db.assistantTurns.find orow.runId = some orow :=
        Table.mem_rows_iff_find.mp hmem'
      rw [← hid, hbound.turnRow] at hfind
      exact some.inj hfind
    subst hfound
    refine ⟨hid, ⟨run, hbound, htold⟩, fun hsame => ?_⟩
    refine horder.2.2 found horow row mem_cons_self (hsame.trans hconversation.symm) ?_
    rw [hsame]
    exact hlive
  · intro other hother hsame
    have hlater := (pairwise_cons.mp horder.2.1).1 other hother
    refine hlater (hconversation.trans hsame.symm) ?_
    rw [hconversation]
    exact hlive

theorem RowOf.isEarlier_iff {turn : RunId × V4SubmitTurn}
    (h : RowOf submitDigest s submit.conversationId before turn row) :
    isEarlierSuccess s submit turn ↔ isEarlier s.db submit before row := by
  obtain ⟨run, hbound, _⟩ := h.bound
  have hrun : s.db.runs.find row.runId = some run := h.id ▸ hbound.runRow
  have hearlier := h.earlier
  unfold isEarlierSuccess isEarlier
  rw [hbound.runRow, hrun, hbound.route, hbound.conversation]
  rw [hbound.conversation] at hearlier
  simp only [Bool.and_eq_true, decide_eq_true_eq, any_some, hbound.owner]
  constructor
  · rintro ⟨⟨hcid, hroute⟩, hstatus⟩
    exact ⟨⟨⟨hcid, hroute⟩, hearlier hcid⟩, trivial, hstatus⟩
  · rintro ⟨⟨⟨hcid, hroute⟩, _⟩, _, hstatus⟩
    exact ⟨⟨hcid, hroute⟩, hstatus⟩

/-- Sorting an ascending list downwards turns it round. -/
theorem insertionSort_of_ascending {rows : List AssistantTurn}
    (h : rows.Pairwise (fun a b => a.userSequence < b.userSequence)) :
    rows.insertionSort (fun a b => b.userSequence ≤ a.userSequence) = rows.reverse := by
  have hdown : rows.reverse.Pairwise (fun a b => b.userSequence ≤ a.userSequence) := by
    rw [pairwise_reverse]
    exact h.imp (fun hlt => Nat.le_of_lt hlt)
  have hinj : ∀ a b, a ∈ rows → b ∈ rows → a.userSequence = b.userSequence → a = b := by
    have hnodup : (rows.map AssistantTurn.userSequence).Nodup := by
      rw [List.Nodup, pairwise_map]
      exact h.imp (fun hlt => Nat.ne_of_lt hlt)
    exact fun a b ha hb => inj_on_of_nodup_map hnodup ha hb
  have hperm := perm_insertionSort (fun a b : AssistantTurn => b.userSequence ≤ a.userSequence)
    rows
  refine List.Perm.eq_of_pairwise ?_
    (pairwise_insertionSort (fun a b : AssistantTurn => b.userSequence ≤ a.userSequence) rows)
    hdown (hperm.trans (reverse_perm rows).symm)
  intro a b ha hb hab hba
  refine hinj a b (hperm.subset ha) (mem_reverse.mp hb) ?_
  omega

theorem forall₂_flatMap {α β γ : Type} {R : α → γ → Prop} {f : β → List γ} {as : List α}
    {bs : List β} (h : List.Forall₂ (fun a b => ∃ c, f b = [c] ∧ R a c) as bs) :
    List.Forall₂ R as (bs.flatMap f) := by
  induction h with
  | nil => exact .nil
  | cons hfirst _ ih =>
    obtain ⟨c, hc, hR⟩ := hfirst
    rw [flatMap_cons, hc]
    exact .cons hR ih

/-- The query over the earlier turns finds the earlier exchanges. -/
theorem Recorded.earlierTurns (h : Recorded submitDigest s) (hmem : (id, submit) ∈ admissions s.log)
    (hlive : isDeleted s.db submit.conversationId = false)
    (hturn : s.db.assistantTurns.find id = some turn)
    (hconversation : turn.conversationId = submit.conversationId) :
    ∃ identities, earlierTurns s.db submit turn.userSequence = identities.take 33 ∧
      List.Forall₂ (ReadsAs s.db submit.conversationId) (earlierExchanges s id submit)
        identities := by
  obtain ⟨rows, later, hrows, hbefore, hlater⟩ := h.rowOf hmem hlive hturn hconversation
  -- the turn itself and the later ones are not found
  have hfilter : s.db.assistantTurns.rows.filter (isEarlier s.db submit turn.userSequence) =
      rows.filter (isEarlier s.db submit turn.userSequence) := by
    have hself : isEarlier s.db submit turn.userSequence turn = false := by
      simp [isEarlier]
    have hnone : later.filter (isEarlier s.db submit turn.userSequence) = [] := by
      rw [filter_eq_nil_iff]
      intro row hrow hearlier
      unfold isEarlier at hearlier
      simp only [Bool.and_eq_true, decide_eq_true_eq] at hearlier
      have hlt := hlater row hrow hearlier.1.1.1
      omega
    rw [hrows, filter_append, filter_cons, hself, hnone]
    simp
  have hascending : (rows.filter (isEarlier s.db submit turn.userSequence)).Pairwise
      (fun a b => a.userSequence < b.userSequence) := by
    have horder : (rows.filter (isEarlier s.db submit turn.userSequence)).Pairwise
        (fun a b => a.conversationId = b.conversationId →
          isDeleted s.db a.conversationId = false → a.userSequence < b.userSequence) := by
      rw [← hfilter]
      exact h.order.filter _
    refine horder.imp_of_mem (fun {a b} ha hb hab => ?_)
    have hof : ∀ row ∈ rows.filter (isEarlier s.db submit turn.userSequence),
        row.conversationId = submit.conversationId := by
      intro row hrow
      have hearlier := (mem_filter.mp hrow).2
      unfold isEarlier at hearlier
      simp only [Bool.and_eq_true, decide_eq_true_eq] at hearlier
      exact hearlier.1.1.1
    refine hab ((hof a ha).trans (hof b hb).symm) ?_
    rw [hof a ha]
    exact hlive
  refine ⟨(rows.filter (isEarlier s.db submit turn.userSequence)).reverse.flatMap
    (withReplies s.db), ?_, ?_⟩
  · unfold Run.earlierTurns
    rw [hfilter, insertionSort_of_ascending hascending]
  · unfold earlierExchanges
    rw [forall₂_map_left_iff]
    refine forall₂_flatMap ?_
    rw [forall₂_reverse_iff]
    have hfiltered := rel_filter (fun _ _ hrow => hrow.isEarlier_iff) hbefore
    have hboth := (forall₂_and_left _ _).mpr
      ⟨fun other hother => (mem_filter.mp hother).2, hfiltered⟩
    refine hboth.imp (fun other row hother => ?_)
    obtain ⟨hsuccess, hrow⟩ := hother
    obtain ⟨run, hbound, htold⟩ := hrow.bound
    unfold isEarlierSuccess at hsuccess
    rw [hbound.runRow] at hsuccess
    simp only [Bool.and_eq_true, decide_eq_true_eq, any_some] at hsuccess
    have htold' := htold (by rw [hsuccess.1.1]; exact hlive)
    have hreads := htold'.readsAs hrow.id.symm hsuccess.2
    rw [hsuccess.1.1] at hreads
    exact hreads

/-! ## Exactness -/

/-- In every run of calls whose appends are the deltas of the sink and at
most one notice for each run, the context of an admitted turn is read
without an error, and it is the expected one. -/
theorem turn_context_exact (submitDigest : V4SubmitTurn → String) {s : Turns}
    (h : Steps (turnStep submitDigest) (fun s call => call.Appends sinkContent s.db) .initial s)
    {id : RunId} {submit : V4SubmitTurn} (hmem : (id, submit) ∈ admissions s.log)
    (hlive : isDeleted s.db submit.conversationId = false) {maxBytes : Nat}
    (hmax : maxBytes ≤ 24 * 1024) :
    v4TurnContext submitDigest s.db id submit maxBytes =
      .ok (expectedContext s id submit maxBytes) := by
  have hrecorded := recorded_of_steps h
  obtain ⟨turn, run, hbound, htold⟩ := hrecorded.turns id submit hmem
  obtain ⟨user, huser, hof⟩ := (htold hlive).user
  obtain ⟨identities, hidentities, hreads⟩ :=
    hrecorded.earlierTurns hmem hlive hbound.turnRow hbound.conversation
  have hcurrent : currentSequence submitDigest s.db id submit = some turn.userSequence := by
    unfold currentSequence
    simp [hbound.turnRow, hbound.runRow, huser, hbound.conversation, hbound.owner, hbound.route,
      hbound.digest, hbound.key, hof.conversation, hof.run, hof.role, hof.sequence, hof.body,
      hof.bytes]
  have hlength : identities.length = (earlierExchanges s id submit).length :=
    hreads.length_eq.symm
  have hmany : decide (32 < (identities.take 33).length) =
      decide (32 < (earlierExchanges s id submit).length) := by
    rw [length_take, hlength, decide_eq_decide]
    omega
  have hfold := foldlM_contextStep (forall₂_take 32 hreads)
    ⟨[], decide (32 < (earlierExchanges s id submit).length), maxBytes⟩ hmax
  obtain ⟨hpairs, htruncated⟩ := foldl_add ((earlierExchanges s id submit).take 32)
    ⟨[], decide (32 < (earlierExchanges s id submit).length), maxBytes⟩
  unfold v4TurnContext
  simp only [hbound.valid, orElse, hmax, decide_true, ensure_true, ok_bind, hcurrent,
    required_some, hidentities, hmany, take_take, Nat.reduceLeDiff, Nat.min_eq_left, hfold,
    hpairs, htruncated, nil_append]
  unfold expectedContext
  simp only [Bool.or_comm]

/-! ## A second turn -/

def nextTurn : V4SubmitTurn where
  conversationId := notesId
  idempotencyKey := ⟨"turn-2", by decide⟩
  routeId := "local"
  input := "and then"

/-- A finished turn with one delta, and the next turn. -/
def secondCalls : List StoreCall := finishedCalls ++ [.admitTurn nextTurn 10 ⟨2⟩ 3]

/-- `Appends sinkContent` as a check that knows no notice. -/
def isDelta : StoreCall → Bool
  | .appendContent _ payload _ _ => payload.delta.isSome
  | _ => true

theorem appends_of_isDelta (h : isDelta call) (db : RunDb) : call.Appends sinkContent db := by
  cases call with
  | appendContent id payload nowMs messageId =>
    intro run _ _
    cases payload <;> simp [isDelta, V4ContentPayload.delta] at h
    exact ⟨rfl, by rintro ⟨⟩⟩
  | _ => trivial

def recordAll (calls : List StoreCall) : Turns :=
  calls.foldl (fun s call =>
    ⟨call.apply (fun _ => "") s.db, s.log ++ observe (fun _ => "") s.db call⟩) .initial

theorem turn_context_exact_second :
    (⟨2⟩, nextTurn) ∈ admissions (recordAll secondCalls).log ∧
      v4TurnContext (fun _ => "") (recordAll secondCalls).db ⟨2⟩ nextTurn 4096 =
        .ok ⟨[⟨"hello", "hi"⟩], false⟩ := by
  have hdelta : secondCalls.all isDelta = true := rfl
  have hsteps : Steps (turnStep (fun _ => "")) (fun s call => call.Appends sinkContent s.db)
      .initial (recordAll secondCalls) :=
    steps_of_run_of_forall
      (fun call hcall s => appends_of_isDelta (all_eq_true.mp hdelta call hcall) s.db) rfl
  have hmem : ((⟨2⟩, nextTurn) : RunId × V4SubmitTurn) ∈
      admissions (recordAll secondCalls).log := by
    have hlast : admissions (recordAll secondCalls).log = [(⟨1⟩, notesTurn), (⟨2⟩, nextTurn)] := rfl
    rw [hlast]
    simp
  refine ⟨hmem, ?_⟩
  rw [turn_context_exact _ hsteps hmem rfl (by decide)]
  rfl

end Abbey.Run
