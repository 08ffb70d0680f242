import Abbey.Provider.Circuit

/-!
# Scores

`extensions/bot/src/provider/scoring.rs`: the score profile of a provider
for a class of requests, and what an outcome adds to it.

The numbers are floating-point numbers in the source.  `Floating` names the
operations on them that the code uses; the instance for `Float` is the one
the code has.
-/

namespace Abbey.Provider

open Abbey.Lib

class Floating (F : Type) extends Add F, Sub F, Mul F, Div F where
  /-- A decimal literal: the digits, and how many stand after the point. -/
  literal : Nat → Nat → F
  ofNat : Nat → F
  isFinite : F → Bool
  le : F → F → Bool
  totalCmp : F → F → Ordering

/-- `f64::total_cmp`: the bits as a signed number, those of a negative one
flipped but for the sign. -/
def totalOrderKey (x : Float) : UInt64 :=
  if x.toBits < 0x8000000000000000 then x.toBits + 0x8000000000000000 else ~~~ x.toBits

instance : Floating Float where
  literal digits places := OfScientific.ofScientific digits true places
  ofNat n := Float.ofNat n
  isFinite x := x.isFinite
  le x y := x ≤ y
  totalCmp x y := compare (totalOrderKey x) (totalOrderKey y)

inductive RequestClass where
  | textReadOnly
  | textWithTools
  | visionDescribe
  | visionOcr
deriving DecidableEq

def RequestClass.latencyBounds : RequestClass → Nat × Nat
  | textReadOnly => (1000, 30000)
  | textWithTools => (1500, 45000)
  | visionDescribe => (2000, 60000)
  | visionOcr => (2000, 60000)

inductive ScoreError where
  | invalidNumber
  | invalidDuration

section Scores

variable {F : Type} [Floating F]

open Floating (literal)

structure NormalizedScore (F : Type) where
  get : F

def NormalizedScore.new (value : F) : Except ScoreError (NormalizedScore F) :=
  if Floating.isFinite value && Floating.le (literal 0 0) value && Floating.le value (literal 1 0) then
    .ok ⟨if Floating.le value (literal 0 0) && Floating.le (literal 0 0) value then literal 0 0 else value⟩
  else .error .invalidNumber

structure ScoreComponents (F : Type) where
  quality : NormalizedScore F
  reliability : NormalizedScore F
  latency : NormalizedScore F
  locality : NormalizedScore F

def ScoreComponents.weighted (c : ScoreComponents F) : NormalizedScore F :=
  ⟨literal 40 2 * c.quality.get + literal 30 2 * c.reliability.get +
    literal 25 2 * c.latency.get + literal 5 2 * c.locality.get⟩

structure LiveComponent (F : Type) where
  ewma : Option (NormalizedScore F)
  count : Nat

def LiveComponent.observe (c : LiveComponent F) (value : NormalizedScore F) : LiveComponent F where
  ewma := some (match c.ewma with
    | none => value
    | some old => ⟨literal 2 1 * value.get + literal 8 1 * old.get⟩)
  count := saturatingAdd c.count 1

def LiveComponent.blended (c : LiveComponent F) (baseline : NormalizedScore F) : NormalizedScore F :=
  match c.ewma with
  | none => baseline
  | some live =>
    let n : F := Floating.ofNat (min c.count 20) / literal 20 0
    ⟨baseline.get * (literal 1 0 - n) + live.get * n⟩

structure ProviderScoreProfile (F : Type) where
  requestClass : RequestClass
  baseline : ScoreComponents F
  quality : LiveComponent F
  reliability : LiveComponent F
  latency : LiveComponent F

def ProviderScoreProfile.components (p : ProviderScoreProfile F) : ScoreComponents F where
  quality := p.quality.blended p.baseline.quality
  reliability := p.reliability.blended p.baseline.reliability
  latency := p.latency.blended p.baseline.latency
  locality := p.baseline.locality

/-- `ScoreProducerPolicy::latency`. -/
def latency (requestClass : RequestClass) (durationMs : Nat) : Except ScoreError (NormalizedScore F) :=
  let (fast, slow) := requestClass.latencyBounds
  if durationMs ≤ fast then NormalizedScore.new (literal 1 0)
  else if slow ≤ durationMs then NormalizedScore.new (literal 0 0)
  else NormalizedScore.new (Floating.ofNat (slow - durationMs) / Floating.ofNat (slow - fast))

/-- `ScoreProducerPolicy::observe`. -/
def observe (profile : ProviderScoreProfile F) (outcome : ProviderFailureKind)
    (durationMs : Option Nat) : Except ScoreError (ProviderScoreProfile F) :=
  if outcome = .success then do
    let duration ← required (durationMs.filter (fun d => d ≤ 900000)) .invalidDuration
    let observed ← latency profile.requestClass duration
    .ok { profile with
      quality := profile.quality.observe ⟨literal 1 0⟩
      reliability := profile.reliability.observe ⟨literal 1 0⟩
      latency := profile.latency.observe observed }
  else if outcome.isTransient || outcome.isBlocked then
    .ok { profile with reliability := profile.reliability.observe ⟨literal 0 0⟩ }
  else .ok profile

end Scores

end Abbey.Provider
