import Abbey.Run.Exactness

/-!
# What a transcript keeps

Properties of every run of calls, from the invariant `Recorded`: the
preview of a reply is the longest prefix that its row has room for, the
history is in the tables, and a conversation has one turn at a time.
-/

namespace Abbey.Run

open Abbey.Lib List String

variable {submitDigest : V4SubmitTurn → String} {s s' : Turns} {id : RunId}
  {submit : V4SubmitTurn} {m : AssistantMessage}

theorem prefix_charPrefix {xs cs : List Char} {n : Nat} (h : xs <+: cs) (hfits : bytes xs ≤ n) :
    xs <+: charPrefix cs n := by
  obtain ⟨rest, rfl⟩ := h
  rw [charPrefix_append, if_pos hfits]
  exact prefix_append xs _

theorem joined_prefix {deltas later : List String} (h : deltas <+: later) :
    (joined deltas).toList <+: (joined later).toList := by
  obtain ⟨rest, rfl⟩ := h
  induction rest generalizing deltas with
  | nil => simp
  | cons next rest ih =>
    have hlater := @ih (deltas ++ [next])
    rw [joined_append, toList_append, ← append_cons] at hlater
    exact (prefix_append _ _).trans hlater

theorem log_prefix {P : Turns → StoreCall → Prop} (h : Steps (turnStep submitDigest) P s s') :
    s.log <+: s'.log := by
  refine h.invariant (I := fun t => s.log <+: t.log) (fun t call t' ht _ hcall => ?_) prefix_rfl
  cases hcall
  exact ht.trans (prefix_append _ _)

theorem ReplyOf.preview {db : RunDb} {cid : ConversationId} {status : RunState} {text : String}
    (h : ReplyOf db id cid status text) (hm : m ∈ repliesOf db id) :
    PreviewOf m text ∧ m.textBytes ≤ maxV4ContentBytes := by
  cases h with
  | silent none => simp [none] at hm
  | spoken m' one nonempty conversation preview bounded =>
    rw [one, mem_singleton] at hm
    exact hm ▸ ⟨preview, bounded⟩

/-- The turns whose appends are what the sink of a provider writes. -/
def SinkSteps (submitDigest : V4SubmitTurn → String) : Turns → Turns → Prop :=
  Steps (turnStep submitDigest) (fun s call => call.Appends sinkContent s.db)

/-- A stored reply beside the text that was accepted for it. -/
structure LongestPrefix (submitDigest : V4SubmitTurn → String) (s : Turns) (id : RunId)
    (submit : V4SubmitTurn) (m : AssistantMessage) (text : String) : Prop where
  cut : m.body.toList <+: text.toList
  size : m.body.utf8ByteSize ≤ 16 * 1024
  longest : ∀ other, other <+: text.toList → bytes other ≤ 16 * 1024 → other <+: m.body.toList
  textBytes : m.textBytes = text.utf8ByteSize ∧ m.textBytes ≤ maxV4ContentBytes
  whole : m.body.utf8ByteSize = m.textBytes ↔ m.body = text
  /-- A proper prefix never changes. -/
  frozen : m.body ≠ text → ∀ s', SinkSteps submitDigest s s' →
    isDeleted s'.db submit.conversationId = false → ∀ m' ∈ repliesOf s'.db id, m'.body = m.body

/-- In every run of calls, the stored body of a reply is the longest prefix
of its deltas that ends at a character and fits. -/
theorem assistant_preview_longest (h : SinkSteps submitDigest .initial s)
    (hmem : (id, submit) ∈ admissions s.log)
    (hlive : isDeleted s.db submit.conversationId = false) (hm : m ∈ repliesOf s.db id) :
    LongestPrefix submitDigest s id submit m (joined (deltasOf s.log id)) := by
  have hpreview : ∀ {t : Turns} {m' : AssistantMessage}, SinkSteps submitDigest .initial t →
      (id, submit) ∈ admissions t.log → isDeleted t.db submit.conversationId = false →
      m' ∈ repliesOf t.db id → PreviewOf m' (joined (deltasOf t.log id)) ∧
        m'.textBytes ≤ maxV4ContentBytes := by
    intro t m' ht hadmitted htlive hm'
    obtain ⟨turn, run, _, htold⟩ := (recorded_of_steps ht).turns id submit hadmitted
    exact (htold htlive).reply.preview hm'
  obtain ⟨hof, hbound⟩ := hpreview h hmem hlive hm
  refine ⟨hof.body, hof.size, ?_, ⟨hof.bytes, hbound⟩, ?_, ?_⟩
  · intro other hother hfits
    rw [hof.longest]
    exact prefix_charPrefix hother hfits
  · constructor
    · intro hsize
      exact eq_of_prefix_of_size hof.body (hsize.trans hof.bytes)
    · intro heq
      rw [heq, hof.bytes]
  · intro hcut s' hsteps hlive' m' hm'
    have hlog := log_prefix hsteps
    obtain ⟨hof', _⟩ := hpreview (h.trans hsteps)
      ((hlog.filterMap TurnEvent.admission).subset hmem) hlive' hm'
    obtain ⟨rest, hrest⟩ := joined_prefix (hlog.filterMap (TurnEvent.delta id))
    have hlong : ¬ bytes (joined (deltasOf s.log id)).toList ≤ 16 * 1024 := fun hfits =>
      hcut (toList_inj.mp (hof.longest.trans (charPrefix_eq_self hfits)))
    apply toList_inj.mp
    rw [hof'.longest, hof.longest, deltasOf, ← hrest, charPrefix_append]
    exact if_neg hlong

theorem sinkSteps_second : SinkSteps (fun _ => "") .initial (recordAll secondCalls) := by
  have hdelta : secondCalls.all isDelta = true := rfl
  exact steps_of_run_of_forall
    (fun call hcall s => appends_of_isDelta (all_eq_true.mp hdelta call hcall) s.db) rfl

theorem assistant_preview_longest_second : ∃ m, repliesOf (recordAll secondCalls).db ⟨1⟩ = [m] ∧
    LongestPrefix (fun _ => "") (recordAll secondCalls) ⟨1⟩ notesTurn m "hi" := by
  have hmem : ((⟨1⟩, notesTurn) : RunId × V4SubmitTurn) ∈ admissions (recordAll secondCalls).log :=
    mem_cons_self
  have hone : ∃ m, repliesOf (recordAll secondCalls).db ⟨1⟩ = [m] := ⟨_, rfl⟩
  obtain ⟨m, hm⟩ := hone
  exact ⟨m, hm, assistant_preview_longest sinkSteps_second hmem rfl (by simp [hm])⟩

/-- A conversation has one turn at a time that is not over. -/
theorem one_turn_at_a_time (h : SinkSteps submitDigest .initial s) {id' : RunId}
    {turn turn' : AssistantTurn} {run run' : RunRecord}
    (hturn : s.db.assistantTurns.find id = some turn)
    (hturn' : s.db.assistantTurns.find id' = some turn')
    (hrun : s.db.runs.find id = some run) (hrun' : s.db.runs.find id' = some run')
    (hsame : turn.conversationId = turn'.conversationId) (hne : id ≠ id') :
    run.status.isTerminal ∨ run'.status.isTerminal := by
  by_contra hactive
  simp only [not_or, Bool.not_eq_true] at hactive
  exact hne ((recorded_of_steps h).marked.single id id' turn turn' run run' hturn hturn' hsame hrun
    hrun' hactive.1 hactive.2)

theorem one_turn_at_a_time_second :
    ((recordAll secondCalls).db.runs.find ⟨1⟩).any (fun run => run.status.isTerminal) ∨
      ((recordAll secondCalls).db.runs.find ⟨2⟩).any (fun run => run.status.isTerminal) :=
  @one_turn_at_a_time _ _ ⟨1⟩ sinkSteps_second ⟨2⟩ _ _ _ _ rfl rfl rfl rfl rfl (by decide)

end Abbey.Run
