import Mathlib.Tactic.Common

/-!
# The epochs of a log

A log in which some events begin a new epoch, as a restart does.  `current`
is what has happened since the last of them, and `earlier` lists the epochs
before it, oldest first.
-/

namespace Abbey.Lib

variable {ε : Type} (begins : ε → Bool)

/-- The epochs that are over, and the one that is not. -/
def epochs (log : List ε) : List (List ε) × List ε :=
  log.foldl (fun (past, now) e => if begins e then (past ++ [now], []) else (past, now ++ [e]))
    ([], [])

def earlier (log : List ε) : List (List ε) := (epochs begins log).1

def current (log : List ε) : List ε := (epochs begins log).2

@[simp] theorem earlier_nil : earlier begins [] = [] := rfl

@[simp] theorem current_nil : current begins [] = [] := rfl

variable {begins} {log : List ε} {e : ε}

theorem earlier_append (h : begins e = false) :
    earlier begins (log ++ [e]) = earlier begins log := by
  simp [earlier, epochs, List.foldl_append, h]

theorem current_append (h : begins e = false) :
    current begins (log ++ [e]) = current begins log ++ [e] := by
  simp [current, epochs, List.foldl_append, h]

theorem earlier_begins (h : begins e) :
    earlier begins (log ++ [e]) = earlier begins log ++ [current begins log] := by
  simp [earlier, current, epochs, List.foldl_append, h]

theorem current_begins (h : begins e) : current begins (log ++ [e]) = [] := by
  simp [current, epochs, List.foldl_append, h]

end Abbey.Lib
