import Abbey.Improve.Ledger

/-!
# Picking work

`src/improve/ledger.rs`: the items of `tasks/todo.md` and what the improve loop
works on.  A hint is a text; a blank one is `some` of blanks.
-/

namespace Abbey.Improve

open Abbey.Lib
open Abbey.Stream (trim stripPrefix)

structure TodoItem where
  text : List Char
  done : Bool
  section_ : List Char

structure Ledger where
  goals : List Goal
  todos : List TodoItem

/-! ## The checklist -/

def isDeferredSection (section_ : List Char) : Bool :=
  let s := asciiLower section_
  contains s "deferred".toList || contains s "proposed".toList ||
    contains s "out of scope".toList || contains s "not abbey current".toList

def isBlockedSection (section_ : List Char) : Bool :=
  contains (asciiLower section_) "blocked".toList

/-- The checkbox of a line, with its text. -/
def checkbox (line : Line) : Option (Bool × List Char) :=
  let t := trim line
  match stripPrefix "- [ ] ".toList t with
  | some rest => some (false, trim rest)
  | none =>
    match (stripPrefix "- [x] ".toList t).or (stripPrefix "- [X] ".toList t) with
    | some rest => some (true, trim rest)
    | none => none

/-- The loop over the lines: one name of a section, whatever the level of its
heading. -/
def todosFrom (section_ : List Char) : List Line → List TodoItem
  | [] => []
  | line :: rest =>
    match stripPrefix "## ".toList line with
    | some heading => todosFrom (trim heading) rest
    | none =>
      match stripPrefix "### ".toList line with
      | some heading => todosFrom (trim heading) rest
      | none =>
        match checkbox line with
        | some (done, text) => ⟨text, done, section_⟩ :: todosFrom section_ rest
        | none => todosFrom section_ rest

def parseTodos (text : List Char) : List TodoItem := todosFrom [] (lines text)

/-! ## Selections -/

namespace Ledger

/-- `Ledger::load`, from the texts of the two files. -/
def load (goalsText todoText : List Char) : Except GoalError Ledger :=
  (parseGoals goalsText).map (fun goals => ⟨goals, parseTodos todoText⟩)

def openTodos (l : Ledger) : List TodoItem :=
  l.todos.filter (fun t => !t.done && !isDeferredSection t.section_)

def actionableTodos (l : Ledger) : List TodoItem :=
  l.openTodos.filter (fun t => !isBlockedSection t.section_)

def defaultGoal (l : Ledger) : Option Goal :=
  (l.goals.find? (fun g => g.status = .inProgress)).or
    (l.goals.find? (fun g => g.status = .todo))

def pickGoal (l : Ledger) : Option (List Char) → Option Goal
  | none => l.defaultGoal
  | some hint =>
    let key := asciiLower (trim hint)
    if key = [] then l.defaultGoal
    else
      ((l.goals.find? (fun g => asciiLower g.id = key)).or
        (l.goals.find? (fun g => contains (asciiLower g.title) key && g.status.isOpen))).or
          (l.goals.find? (fun g => contains (asciiLower g.title) key))

/-- An item that names the next action of a goal. -/
def names (g : Goal) (t : TodoItem) : Bool := contains t.text (trim g.nextAction)

def nextOpenTodo (l : Ledger) : Option TodoItem := l.openTodos.head?

def nextActionableTodo (l : Ledger) : Option TodoItem :=
  (l.defaultGoal.bind (fun g => l.actionableTodos.find? (names g))).or l.actionableTodos.head?

def actionableTodoFor (l : Ledger) (g : Goal) : Option TodoItem :=
  (l.actionableTodos.find? (names g)).or l.nextActionableTodo

def openTodoFor (l : Ledger) (g : Goal) : Option TodoItem :=
  (l.openTodos.find? (names g)).or
    (if g.status = .todo ∨ g.status = .inProgress ∨ g.status = .blocked then l.nextOpenTodo
    else none)

end Ledger

/-! ## The focus -/

inductive WorkFocus where
  | stabilize
  | goal (title : List Char) (status : GoalStatus) (body : List Char) (todo : Option (List Char))
  deriving DecidableEq

/-- `improve: unknown goal hint`, with the trimmed hint. -/
structure UnknownHint where
  hint : List Char
  deriving DecidableEq

def pickWork (l : Ledger) (hint : Option (List Char)) (gateOnly : Bool) :
    Except UnknownHint WorkFocus :=
  let goal := l.pickGoal hint
  if goal = none ∧ hint.any (fun value => trim value ≠ []) then .error ⟨trim (hint.getD [])⟩
  else if gateOnly then .ok .stabilize
  else
    match goal with
    | some g =>
      let todo := if hint.isSome then l.openTodoFor g else l.actionableTodoFor g
      .ok (.goal g.title g.status g.runtimeContext (todo.map TodoItem.text))
    | none =>
      match l.nextActionableTodo with
      | some t => .ok (.goal "open todo (no open goal)".toList .inProgress [] (some t.text))
      | none => .ok .stabilize

end Abbey.Improve
