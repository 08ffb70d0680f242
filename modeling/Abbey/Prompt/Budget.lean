import Abbey.Lib.Json
import Mathlib.Order.Lattice
import Mathlib.Order.Defs.LinearOrder

/-!
# Prompt budgets

`extensions/bot/src/prompt_budget.rs`.  A prompt that is over its budget loses
its oldest turns, and then its weakest facts.  The relevances are ordered as
`total_cmp` orders them.
-/

namespace Abbey.Prompt

open Abbey.Lib

def charsPerToken : Nat := 3

/-- The cost of a text. -/
def budgetLen (text : String) : Nat :=
  (text.toList.map (fun c => if c.toNat < 128 then 1 else charsPerToken)).sum

inductive Role where
  | user
  | assistant
  | tool
  deriving DecidableEq

structure ToolCall where
  id : String
  name : String
  arguments : Value

structure ChatTurn where
  role : Role
  text : String
  toolCalls : List ToolCall
  toolCallId : Option String

def turnCost (turn : ChatTurn) : Nat :=
  budgetLen turn.text +
    (turn.toolCalls.map (fun call =>
      budgetLen call.id + budgetLen call.name +
        budgetLen (String.ofList call.arguments.print))).sum +
    turn.toolCallId.elim 0 budgetLen

/-- One prompt, split by what may be trimmed. -/
structure PromptParts (ρ : Type) where
  core : String
  guidance : String
  addenda : String
  standing : String
  facts : List (ρ × String)
  turns : List ChatTurn

variable {ρ : Type}

def turnsCost (turns : List ChatTurn) : Nat := (turns.map turnCost).sum

def factsCost (facts : List (ρ × String)) : Nat := (facts.map (fun fact => budgetLen fact.2)).sum

namespace PromptParts

def fixedCost (parts : PromptParts ρ) : Nat :=
  budgetLen parts.core + budgetLen parts.guidance + budgetLen parts.addenda +
    budgetLen parts.standing

def cost (parts : PromptParts ρ) : Nat :=
  parts.fixedCost + factsCost parts.facts + turnsCost parts.turns

def withTurns (parts : PromptParts ρ) (turns : List ChatTurn) : PromptParts ρ :=
  { parts with turns := turns }

def withFacts (parts : PromptParts ρ) (facts : List (ρ × String)) : PromptParts ρ :=
  { parts with facts := facts }

end PromptParts

/-- The place of the last turn of the user. -/
def lastUser : List ChatTurn → Option Nat
  | [] => none
  | turn :: turns =>
    match lastUser turns with
    | some place => some (place + 1)
    | none => if turn.role = .user then some 0 else none

/-! ## Loops -/

/-- Drop the oldest turns while the prompt is too large; `none` is the panic of a
removal from an empty list. -/
def dropOldest (maxChars : Nat) : Nat → PromptParts ρ → Option (PromptParts ρ × Nat)
  | 0, fitted => some (fitted, 0)
  | droppable + 1, fitted =>
    if fitted.cost > maxChars then
      match fitted.turns with
      | [] => none
      | _ :: turns => dropOldest maxChars droppable (fitted.withTurns turns)
    else some (fitted, droppable + 1)

/-- Never open on an assistant or tool turn. -/
def openOnUser : Nat → PromptParts ρ → Option (PromptParts ρ)
  | 0, fitted => some fitted
  | droppable + 1, fitted =>
    match fitted.turns with
    | [] => none
    | turn :: turns =>
      if turn.role ≠ .user then openOnUser droppable (fitted.withTurns turns) else some fitted

section Facts

variable [LinearOrder ρ]

/-- The fact that goes first: the least relevant, and the later among equals. -/
def Weaker (a b : ρ × Nat) : Prop := a.1 < b.1 ∨ a.1 = b.1 ∧ b.2 < a.2

instance (a b : ρ × Nat) : Decidable (Weaker a b) := inferInstanceAs (Decidable (_ ∨ _))

/-- The least of some facts with their places, as the loop over them finds it. -/
def weakestFrom : ρ × Nat → List (ρ × Nat) → ρ × Nat
  | best, [] => best
  | best, fact :: facts => weakestFrom (if Weaker fact best then fact else best) facts

def weakest (facts : List (ρ × String)) : Option Nat :=
  match facts.zipIdx.map (fun fact => (fact.1.1, fact.2)) with
  | [] => none
  | fact :: rest => some (weakestFrom fact rest).2

/-- Remove facts while the prompt is too large and has some. -/
def dropWeakest (maxChars : Nat) : Nat → PromptParts ρ → PromptParts ρ
  | 0, fitted => fitted
  | count + 1, fitted =>
    if fitted.cost > maxChars then
      match weakest fitted.facts with
      | none => fitted
      | some place =>
        dropWeakest maxChars count (fitted.withFacts (fitted.facts.eraseIdx place))
    else fitted

/-- Trim a prompt to a budget. -/
def fit (parts : PromptParts ρ) (maxChars : Nat) : Option (PromptParts ρ) :=
  if parts.cost ≤ maxChars then some parts
  else
    let keepFrom := (lastUser parts.turns).getD 0
    if parts.fixedCost + turnsCost (parts.turns.drop keepFrom) > maxChars then some parts
    else do
      let (fitted, droppable) ← dropOldest maxChars keepFrom parts
      let fitted ← openOnUser droppable fitted
      return dropWeakest maxChars fitted.facts.length fitted

end Facts

end Abbey.Prompt
