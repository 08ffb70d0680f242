import Abbey.Lib.Offsets
import Abbey.Stream.Events

/-!
# The goal ledger and the checklist

`src/improve/ledger.rs`: `tasks/goals.md`, whose headings carry a metadata block
of claims, and `tasks/todo.md`, a checklist below headings.  A malformed block
is an error; the checklist is read as it comes.

A text is its characters.  The index that the two loops over the lines share is
the number of lines still to skip (`parseLines`).
-/

namespace Abbey.Improve

open Abbey.Lib
open Abbey.Stream (trim stripPrefix)

abbrev Line := List Char

/-- `str::to_ascii_lowercase`. -/
def asciiLower (cs : List Char) : List Char := cs.map Char.toLower

def contains (text needle : List Char) : Bool := decide (needle <:+: text)

/-! ## Goals -/

inductive GoalStatus where
  | todo
  | inProgress
  | blocked
  | proposed
  | done
  deriving DecidableEq

namespace GoalStatus

def label : GoalStatus → String
  | .todo => "todo"
  | .inProgress => "in_progress"
  | .blocked => "blocked"
  | .proposed => "proposed"
  | .done => "done"

def parse (s : List Char) : Option GoalStatus :=
  [todo, inProgress, blocked, proposed, done].find?
    (fun status => status.label.toList = asciiLower (trim s))

def isOpen (status : GoalStatus) : Bool := status ≠ .done

end GoalStatus

structure Goal where
  id : List Char
  title : List Char
  status : GoalStatus
  implementationEvidence : List Char
  automatedTestEvidence : List Char
  liveExternalEvidence : List Char
  nextAction : List Char
  blockerOwner : Option (List Char)
  body : List Char
  deriving DecidableEq

def Goal.runtimeContext (g : Goal) : List Char :=
  "Goal ID: ".toList ++ g.id ++
    "\nImplementation evidence: ".toList ++ g.implementationEvidence ++
    "\nAutomated-test evidence: ".toList ++ g.automatedTestEvidence ++
    "\nLive/external evidence: ".toList ++ g.liveExternalEvidence ++
    "\nNext action: ".toList ++ g.nextAction ++
    "\nBlocker owner: ".toList ++ g.blockerOwner.getD "none".toList ++
    if g.body = [] then [] else "\n\n".toList ++ g.body

/-! ## Metadata -/

def goalMetadataOpen : List Char := "<!-- abbey-goal".toList

def goalMetadataClose : List Char := "-->".toList

/-- The keys of the metadata. -/
inductive Key where
  | id
  | status
  | implementationEvidence
  | automatedTestEvidence
  | liveExternalEvidence
  | nextAction
  | blockerOwner
  deriving DecidableEq

namespace Key

def label : Key → String
  | .id => "id"
  | .status => "status"
  | .implementationEvidence => "implementation-evidence"
  | .automatedTestEvidence => "automated-test-evidence"
  | .liveExternalEvidence => "live-external-evidence"
  | .nextAction => "next-action"
  | .blockerOwner => "blocker-owner"

def all : List Key :=
  [id, status, implementationEvidence, automatedTestEvidence, liveExternalEvidence, nextAction,
    blockerOwner]

def parse (s : List Char) : Option Key := all.find? (fun key => key.label.toList = s)

end Key

/-- An error of the ledger, with the number of a line. -/
inductive GoalError where
  | untitled (line : Nat)
  | noMetadata (line : Nat) (title : List Char)
  | blankLine (line : Nat) (title : List Char)
  | malformed (line : Nat) (title : List Char)
  | emptyEntry (line : Nat) (title : List Char)
  | duplicateKey (line : Nat) (key title : List Char)
  | unknownStatus (line : Nat) (value title : List Char)
  | unknownKey (line : Nat) (key title : List Char)
  | unclosed (line : Nat) (title : List Char)
  | invalidId (line : Nat) (id : List Char)
  | duplicateId (line : Nat) (id : List Char)
  | missing (line : Nat) (title : List Char) (key : Key)
  | blockedWithoutOwner (line : Nat) (title : List Char)

def quoted (cs : List Char) : String := "`" ++ String.ofList cs ++ "`"

/-- The text of an error after `goals.md:` and the line. -/
def GoalError.text : GoalError → String
  | .untitled _ => "goal heading must have a title"
  | .noMetadata _ title =>
    "goal " ++ quoted title ++ " must be followed immediately by " ++ quoted goalMetadataOpen
  | .blankLine _ title => "blank lines are not allowed in goal " ++ quoted title ++ " metadata"
  | .malformed _ title => "malformed goal " ++ quoted title ++ " metadata; expected `key: value`"
  | .emptyEntry _ title => "goal " ++ quoted title ++ " metadata key and value must be nonempty"
  | .duplicateKey _ key title =>
    "duplicate " ++ quoted key ++ " metadata for goal " ++ quoted title
  | .unknownStatus _ value title => "unknown status " ++ quoted value ++ " for goal " ++ quoted title
  | .unknownKey _ key title => "unknown metadata key " ++ quoted key ++ " for goal " ++ quoted title
  | .unclosed _ title => "unclosed metadata for goal " ++ quoted title
  | .invalidId _ id => "invalid goal id " ++ quoted id ++ "; expected lowercase ASCII kebab-case"
  | .duplicateId _ id => "duplicate goal id " ++ quoted id
  | .missing _ title key => "goal " ++ quoted title ++ " is missing " ++ quoted key.label.toList
  | .blockedWithoutOwner _ title => "blocked goal " ++ quoted title ++ " is missing `blocker-owner`"

/-- `GoalMetadata`: the values that were read, by key. -/
abbrev Metadata := List (Key × List Char)

/-- One line of a block: its key and value. -/
def readEntry (number : Nat) (title : List Char) (seen : Metadata) (line : List Char) :
    Except GoalError (Key × List Char) :=
  if line = [] then .error (.blankLine number title)
  else
    match splitOnce ':' line with
    | none => .error (.malformed number title)
    | some (before, after) =>
      let key := trim before
      let value := trim after
      if key = [] ∨ value = [] then .error (.emptyEntry number title)
      else if key ∈ seen.map (fun entry => entry.1.label.toList) then
        .error (.duplicateKey number key title)
      else
        match Key.parse key with
        | none => .error (.unknownKey number key title)
        | some known =>
          if known = .status ∧ GoalStatus.parse value = none then
            .error (.unknownStatus number value title)
          else .ok (known, value)

/-- The inner loop: the entries of a block and the number of lines up to its end. -/
def readBlock (heading number : Nat) (title : List Char) (seen : Metadata) :
    List Line → Except GoalError (Metadata × Nat)
  | [] => .error (.unclosed heading title)
  | line :: rest =>
    if trim line = goalMetadataClose then .ok (seen, 1)
    else
      match readEntry number title seen (trim line) with
      | .error e => .error e
      | .ok entry =>
        match readBlock heading (number + 1) title (seen ++ [entry]) rest with
        | .error e => .error e
        | .ok (entries, count) => .ok (entries, count + 1)

def isValidGoalId (id : List Char) : Bool :=
  id ≠ [] && id.head? ≠ some '-' && id.getLast? ≠ some '-' && !contains id "--".toList &&
    id.all (fun c => ('a' ≤ c && c ≤ 'z') || ('0' ≤ c && c ≤ '9') || c = '-')

def requireMetadata (m : Metadata) (key : Key) (title : List Char) (heading : Nat) :
    Except GoalError (List Char) :=
  match m.lookup key with
  | none => .error (.missing heading title key)
  | some value => .ok value

def isHeading (line : Line) : Bool := "## ".toList.isPrefixOf line

/-- `join("\n").trim()` of the lines up to the next heading. -/
def bodyOf (lines : List Line) : List Char :=
  trim (['\n'].intercalate (lines.takeWhile (fun line => !isHeading line)))

/-- The goal of a block, once the loop has read it. -/
def goalOf (heading : Nat) (title : List Char) (ids : List (List Char)) (m : Metadata)
    (rest : List Line) : Except GoalError Goal := do
  let id ← requireMetadata m .id title heading
  if isValidGoalId id then
    if id ∈ ids then .error (.duplicateId heading id)
    else
      match (m.lookup .status).bind GoalStatus.parse with
      | none => .error (.missing heading title .status)
      | some status =>
        let implementationEvidence ← requireMetadata m .implementationEvidence title heading
        let automatedTestEvidence ← requireMetadata m .automatedTestEvidence title heading
        let liveExternalEvidence ← requireMetadata m .liveExternalEvidence title heading
        let nextAction ← requireMetadata m .nextAction title heading
        if status = .blocked ∧ m.lookup .blockerOwner = none then
          .error (.blockedWithoutOwner heading title)
        else
          .ok
            { id := id
              title := title
              status := status
              implementationEvidence := implementationEvidence
              automatedTestEvidence := automatedTestEvidence
              liveExternalEvidence := liveExternalEvidence
              nextAction := nextAction
              blockerOwner := m.lookup .blockerOwner
              body := bodyOf rest }
  else .error (.invalidId heading id)

/-- What a heading declares, and the number of lines of its block. -/
def readGoal (heading : Nat) (titleText : List Char) (ids : List (List Char)) (rest : List Line) :
    Except GoalError (Goal × Nat) := do
  let title := trim titleText
  if title = [] then .error (.untitled heading)
  else if (rest.head?).map trim ≠ some goalMetadataOpen then .error (.noMetadata heading title)
  else
    let (m, count) ← readBlock heading (heading + 2) title [] rest.tail
    let goal ← goalOf heading title ids m (rest.tail.drop count)
    .ok (goal, count + 1)

/-- The outer loop, at line `number`, with lines still to skip.  The lines of a
body are no headings, so they may be passed one by one. -/
def parseLines (ids : List (List Char)) (number : Nat) :
    Nat → List Line → Except GoalError (List Goal)
  | _, [] => .ok []
  | skip + 1, _ :: rest => parseLines ids (number + 1) skip rest
  | 0, line :: rest =>
    match stripPrefix "## ".toList line with
    | none => parseLines ids (number + 1) 0 rest
    | some titleText =>
      match readGoal number titleText ids rest with
      | .error e => .error e
      | .ok (goal, count) =>
        match parseLines (goal.id :: ids) (number + 1) count rest with
        | .error e => .error e
        | .ok goals => .ok (goal :: goals)

def parseGoals (text : List Char) : Except GoalError (List Goal) := parseLines [] 1 0 (lines text)

end Abbey.Improve
