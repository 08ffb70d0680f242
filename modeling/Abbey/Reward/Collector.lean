import Abbey.Reward.Erasure
import Mathlib.Data.String.Basic

/-!
# The reward collector

`extensions/bot/src/brain/reward.rs` with its `attribution.rs` and
`recovery.rs`: the replies that are open for evidence, the reactions that
count for them, the markers of the settled turns, and the metadata that is
published with them.

Over rational numbers every number is finite, so the checks of
`is_finite` have no counterpart.  The order of a `HashMap` is the order of
its insertions here.
-/

namespace Abbey.Reward

open Abbey.Lib

def settlementWindowSecs : Nat := 150

def attributionTtlSecs : Nat := settlementWindowSecs

def replyBaseline : ℚ := -1 / 5

def maxPositiveReactions : Nat := 3

def rewardClamp : ℚ := 3

def maxRecoveryEntries : Nat := 4096

def closedRetentionSecs : Nat := 300

def positiveEmoji : List String := ["👍", "❤️", "🔥", "😂", "💯", "⭐"]

def negativeEmoji : List String := ["👎", "💀", "😡", "🤮"]

/-- The index of `BotAction::React`, and the number of actions. -/
def reactIndex : Nat := 2

def actionCount : Nat := 3

structure ReplyTurn where
  state : List ℚ
  action : Nat
  sentNativeMessageId : String
  scope : String
  scopedGuildId : String
  ask : String
  asker : String
  now : Nat

structure Pending where
  state : List ℚ
  action : Nat
  scopedGuildId : String
  reward : ℚ
  positiveReactions : Nat
  createdAt : Nat
  settleImmediately : Bool
  scope : String
  askSignature : AskSignature
  asker : String
  delayedSum : ℚ
  delayedCount : Nat
  reactionTracking : Bool

structure Experience where
  state : List ℚ
  action : Nat
  reward : ℚ
  nextState : List ℚ
  done : Bool

structure ReactionKey where
  scope : String
  message : String
  reactorHash : Nat
  emoji : String
deriving DecidableEq

inductive ReactionContribution where
  | positive
  | negative
  | capped
deriving DecidableEq

structure ReactionRecord where
  key : ReactionKey
  contribution : ReactionContribution
deriving DecidableEq

structure SettledTurn where
  scope : String
  message : String
  createdAt : Nat
  closedAt : Nat
deriving DecidableEq

structure RewardRecovery where
  erasure : ErasureLedger
  reactions : List ReactionRecord
  settled : List SettledTurn
  retiredThrough : Option Nat
deriving DecidableEq

structure RewardCollector where
  pending : Table (fun row : String × Pending => row.1)
  recovery : RewardRecovery

inductive FeedbackAttribution where
  | exactReply
  | uniqueScoped
  | duplicate
  | ambiguous
  | expired
  | unsupported
deriving DecidableEq

/-- The row of a turn that opens. -/
def ReplyTurn.opened [Seams] (turn : ReplyTurn) : Pending where
  state := turn.state
  action := turn.action
  scopedGuildId := turn.scopedGuildId
  reward := replyBaseline
  positiveReactions := 0
  createdAt := turn.now
  settleImmediately := false
  scope := turn.scope
  askSignature := .fromText turn.ask
  asker := turn.asker
  delayedSum := 0
  delayedCount := 0
  reactionTracking := true

/-- The contribution of a reaction is taken back. -/
def Pending.reverse (p : Pending) : ReactionContribution → Pending
  | .positive => { p with reward := p.reward - 1, positiveReactions := p.positiveReactions - 1 }
  | .negative => { p with reward := p.reward + 1 }
  | .capped => p

/-- `Vec::swap_remove`: the last element takes the place. -/
def swapRemove {α : Type} (l : List α) (index : Nat) : List α :=
  match l.getLast? with
  | none => l
  | some last => (l.set index last).dropLast

namespace RewardCollector

def new : RewardCollector := ⟨.empty, ⟨⟨[]⟩, [], [], none⟩⟩

def get (c : RewardCollector) (id : String) : Option Pending := (c.pending.find id).map Prod.snd

/-- `get_mut(id)`, and what is then written. -/
def update (c : RewardCollector) (id : String) (f : Pending → Pending) : RewardCollector :=
  { c with
    pending := c.pending.modify (fun row => row.1 = id) (fun row => (row.1, f row.2)) (fun _ => rfl) }

/-- The markers are kept for a while; the time of one that goes stays as a bound. -/
def pruneRecovery (c : RewardCollector) (now : Nat) : RewardCollector :=
  let gone := c.recovery.settled.filter (fun row => closedRetentionSecs ≤ now - row.closedAt)
  { c with
    recovery :=
      { c.recovery with
        settled :=
          c.recovery.settled.filter (fun row => !decide (closedRetentionSecs ≤ now - row.closedAt))
        retiredThrough := gone.foldl (fun through row =>
          some (through.elim row.createdAt (fun old => max old row.createdAt)))
          c.recovery.retiredThrough } }

def abbeyMessageDeleted (c : RewardCollector) (id : String) : RewardCollector :=
  c.update id (fun p => { p with reward := -2, settleImmediately := true })

def isExpired (now : Nat) (p : Pending) : Bool :=
  p.settleImmediately || settlementWindowSecs < now - p.createdAt

/-- One turn of the sweep: it leaves, and its marker comes. -/
def closeTurn (now : Nat) (c : RewardCollector) (id : String) : RewardCollector :=
  match c.get id with
  | none => c
  | some p =>
    let recovery :=
      { c.recovery with reactions := c.recovery.reactions.filter (fun row => row.key.message ≠ id) }
    { pending := c.pending.delete (fun row => row.1 = id)
      recovery :=
        if p.reactionTracking then
          { recovery with
            settled := recovery.settled ++ [⟨p.scope, id, p.createdAt, max now p.createdAt⟩] }
        else
          { recovery with
            retiredThrough := some (recovery.retiredThrough.elim p.createdAt
              (fun old => max old p.createdAt)) } }

/-- What the brain gets for a turn. -/
def experience (p : Pending) : String × Experience :=
  (p.scopedGuildId, ⟨p.state, p.action,
    max (-rewardClamp) (min rewardClamp (blend p.reward p.delayedSum p.delayedCount)), p.state, true⟩)

def settleExpired (c : RewardCollector) (now : Nat) : RewardCollector × List (String × Experience) :=
  let c := c.pruneRecovery now
  let expired := c.pending.rows.filter (fun row => isExpired now row.2)
  ((expired.map Prod.fst).foldl (closeTurn now) c, expired.map (fun row => experience row.2))

/-! ## Attribution -/

def isOpen (p : Pending) (now : Nat) : Bool :=
  !p.settleImmediately && p.createdAt ≤ now && now - p.createdAt ≤ attributionTtlSecs

def attribution (c : RewardCollector) (scope : String) (replyTo : Option String) (now : Nat) :
    Except FeedbackAttribution (FeedbackAttribution × String) :=
  if scope = "" then .error .unsupported
  else
    match replyTo with
    | some id =>
      match c.get id with
      | none => .error .expired
      | some p =>
        if p.scope ≠ scope then .error .unsupported
        else if isOpen p now then .ok (.exactReply, id)
        else .error .expired
    | none =>
      match c.pending.rows.filter (fun row =>
        row.2.scope = scope && row.2.action ≠ reactIndex && isOpen row.2 now) with
      | [] => .error .expired
      | [row] => .ok (.uniqueScoped, row.1)
      | _ :: _ :: _ => .error .ambiguous

def credit (outcome : ReplyOutcome) (p : Pending) : Pending :=
  if outcome.delayedValue = 0 then p
  else
    { p with
      delayedSum := p.delayedSum + outcome.delayedValue
      delayedCount := min (p.delayedCount + 1) 65535 }

def observeReplyTo (c : RewardCollector) (scope id : String) (outcome : ReplyOutcome) (now : Nat) :
    RewardCollector × Bool :=
  match c.attribution scope (some id) now with
  | .error _ => (c, false)
  | .ok _ => (c.update id (credit outcome), true)

def observeInScope (c : RewardCollector) (scope observer : String) (outcome : ReplyOutcome)
    (now : Nat) : RewardCollector × Option String :=
  match c.attribution scope none now with
  | .error _ => (c, none)
  | .ok (_, id) =>
    match c.get id with
    | none => (c, none)
    | some p =>
      if observer = "" ∨ outcome.needsTheOriginalAsker ∧ (p.asker = "" ∨ p.asker ≠ observer) then
        (c, none)
      else (c.update id (credit outcome), some id)

def humanReplied (c : RewardCollector) (scope id : String) (now : Nat) : RewardCollector :=
  match c.attribution scope (some id) now with
  | .error _ => c
  | .ok _ => c.update id (fun p => { p with reward := p.reward + 1 / 2 })

def openAsk (c : RewardCollector) (id : String) : Option AskSignature :=
  ((c.get id).map Pending.askSignature).filter (fun ask => !ask.tokenHashes.isEmpty)

/-- The part of `reaction` after its checks: a key that is added. -/
def addReaction (c : RewardCollector) (key : ReactionKey) (p : Pending) :
    RewardCollector × FeedbackAttribution :=
  if maxRecoveryEntries ≤ c.recovery.reactions.length then (c, .unsupported)
  else
    let positive := positiveEmoji.contains key.emoji
    let (f, contribution) : (Pending → Pending) × ReactionContribution :=
      if positive && p.positiveReactions < maxPositiveReactions then
        (fun p => { p with reward := p.reward + 1, positiveReactions := p.positiveReactions + 1 },
          .positive)
      else if positive then (id, .capped)
      else (fun p => { p with reward := p.reward - 1 }, .negative)
    let c := c.update key.message f
    ({ c with
      recovery := { c.recovery with reactions := c.recovery.reactions ++ [⟨key, contribution⟩] } },
      .exactReply)

/-- The part of `reaction` after its checks: a key that is removed. -/
def removeReaction (c : RewardCollector) (key : ReactionKey) (index : Nat)
    (contribution : ReactionContribution) : RewardCollector × FeedbackAttribution :=
  let c := c.update key.message (fun p => p.reverse contribution)
  ({ c with recovery := { c.recovery with reactions := swapRemove c.recovery.reactions index } },
    .exactReply)

section Learning

variable [Seams]

def registerTurn (c : RewardCollector) (turn : ReplyTurn) : RewardCollector :=
  if c.recovery.erasure.blocks turn.scopedGuildId turn.asker turn.now then c
  else
    let c := c.pruneRecovery turn.now
    if c.pending.rows.any (fun row => !row.2.reactionTracking) ||
        (c.get turn.sentNativeMessageId).isSome ||
        c.recovery.settled.any (fun row => row.message = turn.sentNativeMessageId) ||
        c.recovery.retiredThrough.any (fun t => turn.now ≤ t) ||
        maxRecoveryEntries ≤ c.pending.rows.length + c.recovery.settled.length then c
    else
      { c with pending := c.pending.put (turn.sentNativeMessageId, turn.opened) }

def feedback (c : RewardCollector) (scope observer : String) (replyTo : Option String)
    (text : String) (now : Nat) : RewardCollector × FeedbackAttribution :=
  if observer = "" then (c, .unsupported)
  else
    match c.attribution scope replyTo now with
    | .error reason => (c, reason)
    | .ok (source, id) =>
      if (c.get id).any (fun p => c.recovery.erasure.blocks p.scopedGuildId observer now) then
        (c, .expired)
      else
        let observed := (classifySignature text (c.openAsk id)).getD .noEngagement
        if source = .exactReply then
          (((c.humanReplied scope id now).observeReplyTo scope id observed now).1, source)
        else
          match c.observeInScope scope observer observed now with
          | (c, none) => (c, .unsupported)
          | (c, some _) => (c, source)

def reaction (c : RewardCollector) (key : ReactionKey) (added : Bool) (now : Nat) :
    RewardCollector × FeedbackAttribution :=
  if !positiveEmoji.contains key.emoji && !negativeEmoji.contains key.emoji then (c, .unsupported)
  else
    match c.attribution key.scope (some key.message) now with
    | .error reason => (c, reason)
    | .ok _ =>
      match c.get key.message with
      | none => (c, .expired) -- the attribution has found the turn
      | some p =>
        if c.recovery.erasure.blocksHash p.scopedGuildId key.reactorHash now then (c, .expired)
        else if !p.reactionTracking then (c, .unsupported)
        else
          match added, c.recovery.reactions.findIdx? (fun r => r.key = key) with
          | true, some _ => (c, .duplicate)
          | true, none => c.addReaction key p
          | false, none => (c, .duplicate)
          | false, some index =>
            match c.recovery.reactions[index]? with
            | none => (c, .duplicate) -- the index is one of a record
            | some row => c.removeReaction key index row.contribution

/-- One of the member's own reactions, or of all of them, is forgotten. -/
def forgetReaction (c : RewardCollector) (key : ReactionKey) : RewardCollector :=
  match c.recovery.reactions.find? (fun r => r.key = key) with
  | none => c
  | some row =>
    let c := c.update key.message (fun p => p.reverse row.contribution)
    { c with
      recovery :=
        { c.recovery with reactions := c.recovery.reactions.eraseP (fun r => r.key = key) } }

def eraseLearning (c : RewardCollector) (scope : String) (member : Option String)
    (ledger : ErasureLedger) : RewardCollector × (Nat × Nat) :=
  let removed := (c.pending.rows.filter (fun row =>
    row.2.scopedGuildId = scope && member.all (fun m => m = row.2.asker))).map Prod.fst
  let own := (c.recovery.reactions.filter (fun r =>
    (c.get r.key.message).any (fun p => p.scopedGuildId = scope) &&
      member.all (fun m => memberHash m = r.key.reactorHash))).map ReactionRecord.key
  let after := own.foldl forgetReaction c
  let pending := after.pending.delete (fun row => removed.contains row.1)
  let reactions := after.recovery.reactions.filter (fun r => !removed.contains r.key.message)
  (⟨pending, { after.recovery with reactions := reactions, erasure := ledger }⟩,
    (c.pending.rows.length - pending.rows.length,
      c.recovery.reactions.length - reactions.length))

end Learning

end RewardCollector

/-! ## Persistence -/

/-- The order in which the reactions are published. -/
def ReactionKey.le (a b : ReactionKey) : Bool :=
  ((compare a.scope b.scope).then ((compare a.message b.message).then
    ((compare a.reactorHash b.reactorHash).then (compare a.emoji b.emoji)))) ≠ .gt

def identity (value : String) : Bool :=
  value ≠ "" && value.utf8ByteSize ≤ 256 && !value.toList.contains (Char.ofNat 0x1f)

namespace RewardRecovery

def Matches (key : ReactionKey) : ReactionContribution → Bool
  | .positive => positiveEmoji.contains key.emoji
  | .capped => positiveEmoji.contains key.emoji
  | .negative => negativeEmoji.contains key.emoji

def positives (reactions : List ReactionRecord) (id : String) : Nat :=
  reactions.countP (fun r => r.key.message = id && r.contribution = .positive)

def negatives (reactions : List ReactionRecord) (id : String) : Nat :=
  reactions.countP (fun r => r.key.message = id && r.contribution = .negative)

def validate (recovery : RewardRecovery) (pending : List (String × Pending)) :
    Except String Unit := do
  recovery.erasure.validate
  ensure (recovery.reactions.length ≤ maxRecoveryEntries &&
      recovery.settled.length + (pending.filter (fun row => row.2.reactionTracking)).length ≤
        maxRecoveryEntries) "reward recovery capacity exceeded"
  ensure (pending.all (fun row => identity row.1 && row.2.action < actionCount &&
      row.2.askSignature.valid && row.2.positiveReactions ≤ maxPositiveReactions &&
      (row.2.scope = "" || identity row.2.scope)) &&
    decide (pending.map Prod.fst).Nodup) "invalid pending reward"
  ensure (recovery.settled.all (fun row => identity row.message &&
      (row.scope = "" || identity row.scope) && row.createdAt ≤ row.closedAt) &&
    decide (pending.map Prod.fst ++ recovery.settled.map SettledTurn.message).Nodup)
    "invalid settled reward"
  -- for each record: its identity, then its turn, then its contribution
  recovery.reactions.zipIdx.forM (fun (row, index) => do
    ensure (identity row.key.scope && identity row.key.message &&
      !(recovery.reactions.take index).any (fun earlier => earlier.key = row.key))
      "invalid reaction identity"
    let found ← required (pending.find? (fun entry => entry.1 = row.key.message))
      "reaction without pending reward"
    ensure (found.2.reactionTracking && found.2.scope = row.key.scope &&
      Matches row.key row.contribution) "invalid reaction contribution")
  (pending.filter (fun row => row.2.reactionTracking)).forM (fun row =>
    ensure (positives recovery.reactions row.1 = row.2.positiveReactions)
      "reaction count does not match pending reward")

end RewardRecovery

namespace RewardCollector

def exportPending (c : RewardCollector) : List (String × Pending) :=
  c.pending.rows.mergeSort (fun a b => decide (a.1 ≤ b.1))

def exportRecovery (c : RewardCollector) : RewardRecovery :=
  { c.recovery with
    reactions := c.recovery.reactions.mergeSort (fun a b => a.key.le b.key)
    settled := c.recovery.settled.mergeSort (fun a b => decide (a.message ≤ b.message)) }

def restoreRecovered (c : RewardCollector) (rows : List (String × Pending))
    (recovery : RewardRecovery) : Except String RewardCollector := do
  recovery.validate rows
  ensure (c.pending.rows.isEmpty && decide (c.recovery = ⟨⟨[]⟩, [], [], none⟩))
    "reward collector already initialized"
  .ok ⟨rows.foldl (fun t row => t.put row) .empty, recovery⟩

/-- A restart: export, and restore into a collector that is new. -/
def restart (c : RewardCollector) : Except String RewardCollector :=
  new.restoreRecovered c.exportPending c.exportRecovery

end RewardCollector

end Abbey.Reward
