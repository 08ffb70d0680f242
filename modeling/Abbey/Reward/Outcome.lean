import Abbey.Conversation.Identity
import Mathlib.Algebra.Order.Field.Rat
import Mathlib.Data.List.Infix
import Mathlib.Data.List.SplitOn

/-!
# What a human did next

`extensions/bot/src/brain/outcome.rs` and `ask_signature.rs`: the typed
outcomes of a reply, their values, and the lexicon that reads them from a
message and from the signature of the ask it followed.

The rewards are `f32` in the source and rational numbers here.  The tables
of Unicode, the Wyhash seam and SHA-256 are parameters.
-/

namespace Abbey.Reward

open List

open Abbey.Run (isWhitespace)

class Seams where
  /-- `str::to_lowercase`. -/
  lower : String → String
  /-- `char::is_alphanumeric`. -/
  isAlphanumeric : Char → Bool
  /-- `wyhash::hash`, with its seed. -/
  wyhash : Nat → String → Nat
  /-- The lower-case hexadecimal SHA-256 of a text. -/
  sha256 : String → String

inductive ReplyOutcome where
  | explicitThanks
  | followUpQuestion
  | rephrasedSameAsk
  | correction
  | noEngagement
deriving DecidableEq

namespace ReplyOutcome

def delayedValue : ReplyOutcome → ℚ
  | explicitThanks => 1
  | followUpQuestion => 2 / 5
  | rephrasedSameAsk => -1 / 2
  | correction => -1
  | noEngagement => 0

def needsTheOriginalAsker (outcome : ReplyOutcome) : Bool :=
  outcome ∈ [explicitThanks, correction]

end ReplyOutcome

def blend (immediate delayedSum : ℚ) (delayedCount : Nat) : ℚ :=
  if delayedCount = 0 then immediate else immediate + 1 * (delayedSum / delayedCount)

/-! ## The lexicon -/

def correctionPhrases : List String :=
  ["not correct", "not right", "that's not", "thats not", "that is not", "doesn't work",
    "doesnt work", "didn't work", "didnt work", "not what i", "you're wrong", "youre wrong",
    "you are wrong", "still broken"]

def correctionTokens : List String := ["wrong", "incorrect", "nope"]

def correctionOpeners : List String := ["no", "nope", "nah"]

def friendlyNoOpeners : List String := ["no problem", "no worries", "no rush", "no need"]

def thanksPhrases : List String :=
  ["thank you", "that helped", "that worked", "appreciate it", "makes sense", "nice one",
    "good bot", "that did it"]

def thanksTokens : List String :=
  ["thanks", "thx", "ty", "tysm", "tyvm", "appreciate", "appreciated", "perfect", "helpful"]

def stopwords : List String :=
  ["a", "an", "and", "are", "as", "at", "be", "but", "by", "can", "do", "does", "for", "from",
    "how", "i", "in", "is", "it", "me", "my", "of", "on", "or", "that", "the", "this", "to", "was",
    "what", "when", "where", "why", "you"]

def startsWith (text : List Char) (phrase : String) : Bool := decide (phrase.toList <+: text)

def contains (text : List Char) (phrase : String) : Bool := decide (phrase.toList <:+: text)

section Lexicon

variable [Seams]

def normalize (text : String) : List Char :=
  (Seams.lower (Conversation.trim text)).toList.map
    (fun c => if c = Char.ofNat 0x2019 then Char.ofNat 0x27 else c)

def tokens (lower : List Char) : List String :=
  (lower.splitOnP (fun c => !Seams.isAlphanumeric c)).map String.ofList

def contentTokensKeepingStopwords (lower : List Char) : List String :=
  (tokens lower).filter (fun token => token ≠ "")

def markerOutcome (text : String) : Option ReplyOutcome :=
  let lower := normalize text
  let found := contentTokensKeepingStopwords lower
  match found.head? with
  | none => none
  | some first =>
    let friendlyNo := friendlyNoOpeners.any (startsWith lower)
    let opensWithNo := !friendlyNo && correctionOpeners.contains first
    if opensWithNo || correctionPhrases.any (contains lower) || found.any correctionTokens.contains then
      some .correction
    else if thanksPhrases.any (contains lower) || found.any thanksTokens.contains then
      some .explicitThanks
    else none

/-! ## The signature of an ask -/

structure AskMarkers where
  correction : Bool
  thanks : Bool
  question : Bool

structure AskSignature where
  tokenHashes : List Nat
  markers : AskMarkers

def askDomain : String := "abbey:learning:ask-token:v1\x00"

/-- The first distinct hashes of the content tokens, at most thirty-two. -/
def collectHashes : List String → List Nat → List Nat
  | [], hashes => hashes
  | token :: rest, hashes =>
    if token.length ≤ 1 ∨ token ∈ stopwords then collectHashes rest hashes
    else
      let hash := Seams.wyhash 0 (askDomain ++ token)
      if hash ∈ hashes then collectHashes rest hashes
      else if hashes.length + 1 = 32 then hashes ++ [hash]
      else collectHashes rest (hashes ++ [hash])

def AskSignature.fromText (text : String) : AskSignature where
  tokenHashes := collectHashes (tokens (normalize text)) []
  markers :=
    { correction := markerOutcome text = some .correction
      thanks := markerOutcome text = some .explicitThanks
      question := (text.toList.reverse.dropWhile isWhitespace).head? = some '?' }

def AskSignature.valid (signature : AskSignature) : Bool :=
  signature.tokenHashes.length ≤ 32 && decide signature.tokenHashes.Nodup &&
    !(signature.markers.correction && signature.markers.thanks)

def classifySignature (text : String) (prior : Option AskSignature) : Option ReplyOutcome :=
  let current := AskSignature.fromText text
  if current.markers.correction then some .correction
  else if current.markers.thanks then some .explicitThanks
  else if !current.markers.question then none
  else
    match prior with
    | none => none
    | some prior =>
      if prior.tokenHashes.isEmpty then none
      else
        let shared := prior.tokenHashes.countP (fun hash => current.tokenHashes.contains hash)
        let overlap : ℚ := shared / prior.tokenHashes.length
        if 3 / 5 ≤ overlap then some .rephrasedSameAsk
        else if 1 / 4 ≤ overlap then some .followUpQuestion
        else none

theorem collectHashes_bounded (found : List String) (hashes : List Nat)
    (hlength : hashes.length < 32) (hnodup : hashes.Nodup) :
    (collectHashes found hashes).length ≤ 32 ∧ (collectHashes found hashes).Nodup := by
  induction found generalizing hashes with
  | nil => exact ⟨by simp only [collectHashes]; omega, hnodup⟩
  | cons token rest ih =>
    simp only [collectHashes]
    split_ifs with hskip hold hfull
    · exact ih hashes hlength hnodup
    · exact ih hashes hlength hnodup
    · refine ⟨by rw [length_append, length_singleton]; omega, ?_⟩
      exact nodup_append.mpr ⟨hnodup, by simp, by
        intro a ha b hb
        rw [mem_singleton.mp hb]
        rintro rfl
        exact hold ha⟩
    · refine ih _ (by rw [length_append, length_singleton]; omega) ?_
      exact nodup_append.mpr ⟨hnodup, by simp, by
        intro a ha b hb
        rw [mem_singleton.mp hb]
        rintro rfl
        exact hold ha⟩

theorem AskSignature.valid_fromText (text : String) : (AskSignature.fromText text).valid := by
  obtain ⟨hlength, hnodup⟩ :=
    collectHashes_bounded (tokens (normalize text)) [] (by simp) nodup_nil
  have hmarkers : ¬ (markerOutcome text = some .correction ∧
      markerOutcome text = some .explicitThanks) := by
    rintro ⟨hcorrection, hthanks⟩
    rw [hcorrection] at hthanks
    cases hthanks
  simp only [valid, fromText, Bool.and_eq_true, Bool.not_eq_true', Bool.and_eq_false_iff,
    decide_eq_false_iff_not]
  exact ⟨⟨decide_eq_true hlength, decide_eq_true hnodup⟩, not_and_or.mp hmarkers⟩

end Lexicon

end Abbey.Reward
