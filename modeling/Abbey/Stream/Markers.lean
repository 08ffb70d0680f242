import Mathlib.Data.List.DropRight
import Mathlib.Data.List.Infix
import Mathlib.Data.String.Basic

/-!
# Channel markers

`extensions/bot/src/llm/channel_markers.rs`: the text between `<|channel>`
and `<channel|>` is removed from the deltas of a stream, and a tail that may
still become a marker is held back.

`loop` is the loop of the source, which searches for a whole marker and
keeps the tail from the last `<`.  `scan` decides the same one character at a
time, so that what a later delta changes is visible (`scan_append`).  With it
a text may be pushed in any pieces (`push_append`).
-/

namespace Abbey.Stream

variable {c : Char} {cs marker pending : List Char}
variable {p tail : List Char}

/-- `OPEN`. -/
def openMarker : List Char := "<|channel>".toList

/-- `CLOSE`. -/
def closeMarker : List Char := "<channel|>".toList

def couldBecome (tail marker : List Char) : Bool :=
  tail.length < marker.length && tail.isPrefixOf marker

structure Stripper where
  inside : Bool
  pending : List Char
  deriving DecidableEq

namespace Stripper

/-- What follows the first occurrence of a marker. -/
def after (marker : List Char) : List Char → Option (List Char)
  | [] => none
  | c :: cs =>
    if marker.isPrefixOf (c :: cs) then some ((c :: cs).drop marker.length) else after marker cs

/-- The tail inside a block that may become the close marker. -/
def keep (pending : List Char) : List Char :=
  if '<' ∈ pending then
    let tail := '<' :: pending.rtakeWhile (fun c => c ≠ '<')
    if couldBecome tail closeMarker then tail else []
  else []

/-- The loop of `push`: every turn that goes on drops a character of the
pending text, so its length bounds the turns. -/
def loop : Nat → Stripper → List Char → Stripper × List Char
  | 0, s, out => (s, out)
  | n + 1, ⟨true, pending⟩, out =>
    match after closeMarker pending with
    | some rest => loop n ⟨false, rest⟩ out
    | none => (⟨true, keep pending⟩, out)
  | n + 1, ⟨false, pending⟩, out =>
    let plain := pending.takeWhile (fun c => c ≠ '<')
    let rest := pending.dropWhile (fun c => c ≠ '<')
    if '<' ∉ pending then (⟨false, []⟩, out ++ pending)
    else if openMarker.isPrefixOf rest then
      loop n ⟨true, rest.drop openMarker.length⟩ (out ++ plain)
    else if closeMarker.isPrefixOf rest then
      loop n ⟨false, rest.drop closeMarker.length⟩ (out ++ plain)
    else if couldBecome rest openMarker || couldBecome rest closeMarker then
      (⟨false, rest⟩, out ++ plain)
    else loop n ⟨false, rest.tail⟩ (out ++ plain ++ ['<'])

/-- The stripper after a delta and the text that is safe to show. -/
def push (s : Stripper) (delta : List Char) : Stripper × List Char :=
  let pending := s.pending ++ delta
  loop (pending.length + 1) ⟨s.inside, pending⟩ []

/-- The text that is shown at the end. -/
def finish (s : Stripper) : List Char := if s.inside then [] else s.pending

def fresh : Stripper := ⟨false, []⟩

end Stripper

open Stripper

/-- `strip`. -/
def strip (text : List Char) : List Char := (fresh.push text).2 ++ (fresh.push text).1.finish

/-! ## One character at a time -/

/-- A marker at the front that counts here. -/
def held (inside : Bool) (tail : List Char) : Bool :=
  (!inside && couldBecome tail openMarker) || couldBecome tail closeMarker

/-- The text that is shown and the stripper that is left. -/
def scan (inside : Bool) : List Char → List Char × Stripper
  | [] => ([], ⟨inside, []⟩)
  | c :: cs =>
    if !inside && openMarker.isPrefixOf (c :: cs) then scan true (cs.drop 9)
    else if closeMarker.isPrefixOf (c :: cs) then scan false (cs.drop 9)
    else if held inside (c :: cs) then ([], ⟨inside, c :: cs⟩)
    else
      let rest := scan inside cs
      (if inside then rest.1 else c :: rest.1, rest.2)
termination_by cs => cs.length
decreasing_by all_goals simp only [List.length_cons, List.length_drop]; omega

/-- A text that starts with a marker keeps doing so. -/
theorem isPrefixOf_append (h : marker.isPrefixOf p) (d : List Char) :
    marker.isPrefixOf (p ++ d) := by
  rw [List.isPrefixOf_iff_prefix] at h ⊢
  exact h.trans (List.prefix_append p d)

/-- A text that neither starts with a marker nor may become one never
will. -/
theorem no_marker_append (h : marker.isPrefixOf p = false) (hbecome : couldBecome p marker = false)
    (d : List Char) : marker.isPrefixOf (p ++ d) = false ∧ couldBecome (p ++ d) marker = false := by
  have hnot : ¬ (p <+: marker) := by
    intro hp
    have hle := hp.length_le
    have hlong : ¬ p.length < marker.length := by
      intro hlt
      rw [couldBecome, List.isPrefixOf_iff_prefix.mpr hp, decide_eq_true hlt] at hbecome
      cases hbecome
    have heq : p = marker := hp.eq_of_length (by omega)
    rw [heq, List.isPrefixOf_iff_prefix.mpr (List.prefix_refl marker)] at h
    cases h
  constructor
  · rw [Bool.eq_false_iff]
    intro hmarker
    rw [List.isPrefixOf_iff_prefix] at hmarker
    rcases List.prefix_or_prefix_of_prefix hmarker (List.prefix_append p d) with hin | hout
    · rw [List.isPrefixOf_iff_prefix.mpr hin] at h
      cases h
    · exact hnot hout
  · rw [Bool.eq_false_iff]
    intro hlater
    rw [couldBecome, Bool.and_eq_true] at hlater
    exact hnot ((List.prefix_append p d).trans (List.isPrefixOf_iff_prefix.mp hlater.2))

theorem length_of_isPrefixOf (hlength : marker.length = 10) (h : marker.isPrefixOf tail) :
    10 ≤ tail.length := by
  have hle := (List.isPrefixOf_iff_prefix.mp h).length_le
  omega

/-- The two markers differ. -/
theorem not_open_of_close (h : closeMarker.isPrefixOf tail) :
    openMarker.isPrefixOf tail = false := by
  obtain ⟨rest, rfl⟩ := List.isPrefixOf_iff_prefix.mp h
  rfl

/-- What a scan shows and holds back is what a scan of a longer text does
first. -/
theorem scan_append (inside : Bool) (p d : List Char) : scan inside (p ++ d) =
      ((scan inside p).1 ++ (scan (scan inside p).2.inside ((scan inside p).2.pending ++ d)).1,
        (scan (scan inside p).2.inside ((scan inside p).2.pending ++ d)).2) := by
  fun_induction scan inside p with
  | case1 inside => simp
  | case2 inside c cs hopen ih =>
    rw [Bool.and_eq_true, Bool.not_eq_true'] at hopen
    have hlength := length_of_isPrefixOf rfl hopen.2
    have hfront := isPrefixOf_append hopen.2 d
    rw [List.length_cons] at hlength
    rw [List.cons_append] at hfront ⊢
    rw [scan, if_pos (by simp [hopen.1, hfront]), List.drop_append_of_le_length (by omega), ih]
  | case3 inside c cs hopen hclose ih =>
    have hlength := length_of_isPrefixOf rfl hclose
    have hfront := isPrefixOf_append hclose d
    have hnotOpen := not_open_of_close hfront
    rw [List.length_cons] at hlength
    rw [List.cons_append] at hfront hnotOpen ⊢
    rw [scan, if_neg (by simp [hnotOpen]), if_pos hfront,
      List.drop_append_of_le_length (by omega), ih]
  | case4 inside c cs hopen hclose hheld => simp
  | case5 inside c cs hopen hclose hheld rest ih =>
    rw [Bool.not_eq_true] at hopen hclose hheld
    obtain ⟨hheldOpen, hheldClose⟩ := Bool.or_eq_false_iff.mp hheld
    have hnever := no_marker_append hclose hheldClose d
    have hopen' : (!inside && openMarker.isPrefixOf (c :: (cs ++ d))) = false := by
      cases inside with
      | true => rfl
      | false => exact (no_marker_append hopen hheldOpen d).1
    have hheld' : held inside (c :: (cs ++ d)) = false := by
      unfold held
      rw [Bool.or_eq_false_iff]
      refine ⟨?_, hnever.2⟩
      cases inside with
      | true => rfl
      | false => exact (no_marker_append hopen hheldOpen d).2
    rw [List.cons_append] at hnever ⊢
    rw [scan, if_neg (Bool.eq_false_iff.mp hopen'), if_neg (Bool.eq_false_iff.mp hnever.1),
      if_neg (Bool.eq_false_iff.mp hheld'), ih]
    cases inside with
    | true => simp [rest]
    | false => simp [rest]

/-! ## The loop -/

/-- A tail that may become the close marker starts at its only `<`. -/
theorem of_couldBecome_close (h : couldBecome (c :: cs) closeMarker) :
    c = '<' ∧ '<' ∉ cs := by
  rw [couldBecome, Bool.and_eq_true, List.isPrefixOf_iff_prefix] at h
  have hmarker : closeMarker = '<' :: "channel|>".toList := rfl
  rw [hmarker, List.cons_prefix_cons] at h
  refine ⟨h.2.1, fun hmem => ?_⟩
  have hin := h.2.2.subset hmem
  revert hin
  decide

theorem rtakeWhile_cons_of_mem (h : '<' ∈ cs) :
    (c :: cs).rtakeWhile (fun c => c ≠ '<') = cs.rtakeWhile (fun c => c ≠ '<') := by
  unfold List.rtakeWhile
  rw [List.reverse_cons, List.takeWhile_append]
  have hshort : (cs.reverse.takeWhile (fun c => c ≠ '<')).length ≠ cs.reverse.length := by
    intro heq
    have hall := List.takeWhile_eq_self_iff.mp
      (List.IsPrefix.eq_of_length (List.takeWhile_prefix _) heq)
    have hne := hall '<' (List.mem_reverse.mpr h)
    simp at hne
  rw [if_neg hshort]

/-- The search for the last `<` finds the tail that a scan holds back. -/
theorem keep_cons :
    keep (c :: cs) = if couldBecome (c :: cs) closeMarker then c :: cs else keep cs := by
  by_cases hmem : '<' ∈ cs
  · have hnot : ¬ couldBecome (c :: cs) closeMarker :=
      fun h => (of_couldBecome_close h).2 hmem
    rw [if_neg hnot]
    unfold keep
    rw [if_pos (List.mem_cons_of_mem c hmem), if_pos hmem, rtakeWhile_cons_of_mem hmem]
  · have hrest : keep cs = [] := by
      unfold keep
      rw [if_neg hmem]
    rw [hrest]
    by_cases hc : c = '<'
    · subst hc
      unfold keep
      rw [if_pos List.mem_cons_self]
      have htail : ('<' :: cs).rtakeWhile (fun c => c ≠ '<') = cs := by
        rw [← List.singleton_append]
        unfold List.rtakeWhile
        rw [List.reverse_append, List.takeWhile_append, if_pos]
        · simp
        · rw [List.takeWhile_eq_self_iff.mpr]
          intro d hd
          have hne : d ≠ '<' := fun heq => hmem (heq ▸ List.mem_reverse.mp hd)
          simpa using hne
      rw [htail]
    · have hnot : ¬ couldBecome (c :: cs) closeMarker :=
        fun h => hc (of_couldBecome_close h).1
      rw [if_neg hnot]
      unfold keep
      rw [if_neg]
      rw [List.mem_cons, not_or]
      exact ⟨fun heq => hc heq.symm, hmem⟩

theorem after_eq_none (h : cs.length < marker.length) : after marker cs = none := by
  induction cs with
  | nil => rfl
  | cons c cs ih =>
    rw [List.length_cons] at h
    rw [after, if_neg, ih (by omega)]
    intro hmarker
    have hle := (List.isPrefixOf_iff_prefix.mp hmarker).length_le
    rw [List.length_cons] at hle
    omega

/-- A scan inside a block. -/
theorem scan_inside (p : List Char) : scan true p = match after closeMarker p with
      | some rest => scan false rest
      | none => ([], ⟨true, keep p⟩) := by
  induction p with
  | nil =>
    rw [scan]
    rfl
  | cons c cs ih =>
    rw [scan, if_neg (by simp), after]
    by_cases hclose : closeMarker.isPrefixOf (c :: cs)
    · rw [if_pos hclose, if_pos hclose]
      rfl
    · rw [if_neg hclose, if_neg hclose]
      have hheld : held true (c :: cs) = couldBecome (c :: cs) closeMarker := by
        simp [held]
      rw [hheld, keep_cons, ih]
      by_cases hbecome : couldBecome (c :: cs) closeMarker
      · rw [if_pos hbecome, if_pos hbecome]
        rw [couldBecome, Bool.and_eq_true, decide_eq_true_eq, List.length_cons] at hbecome
        rw [after_eq_none (by omega)]
      · rw [if_neg hbecome, if_neg hbecome]
        cases after closeMarker cs with
        | none => rfl
        | some rest => rfl

/-- A scan outside of a block shows what comes before the first `<`. -/
theorem scan_plain (p : List Char) : scan false p =
      (p.takeWhile (fun c => c ≠ '<') ++ (scan false (p.dropWhile (fun c => c ≠ '<'))).1,
        (scan false (p.dropWhile (fun c => c ≠ '<'))).2) := by
  induction p with
  | nil =>
    rw [List.takeWhile_nil, List.dropWhile_nil]
    rfl
  | cons c cs ih =>
    by_cases hc : c = '<'
    · subst hc
      rw [List.takeWhile_cons_of_neg (by simp), List.dropWhile_cons_of_neg (by simp)]
      rfl
    · have hfront : ∀ tail, ('<' :: tail).isPrefixOf (c :: cs) = false := by
        intro tail
        rw [List.isPrefixOf, beq_eq_false_iff_ne.mpr (fun heq => hc heq.symm), Bool.false_and]
      have hopen : openMarker.isPrefixOf (c :: cs) = false := hfront _
      have hclose : closeMarker.isPrefixOf (c :: cs) = false := hfront _
      have hbecome : ∀ tail, couldBecome (c :: cs) ('<' :: tail) = false := by
        intro tail
        rw [couldBecome, List.isPrefixOf, beq_eq_false_iff_ne.mpr hc, Bool.false_and,
          Bool.and_false]
      have hheld : held false (c :: cs) = false := by
        unfold held
        rw [Bool.or_eq_false_iff]
        exact ⟨hbecome _, hbecome _⟩
      rw [List.takeWhile_cons_of_pos (by simpa using hc),
        List.dropWhile_cons_of_pos (by simpa using hc), scan, if_neg (by simp [hopen]),
        if_neg (Bool.eq_false_iff.mp hclose), if_neg (Bool.eq_false_iff.mp hheld), ih]
      rfl

theorem length_after (h : after marker cs = some rest) :
    rest.length + marker.length ≤ cs.length := by
  induction cs with
  | nil => cases h
  | cons c cs ih =>
    rw [after] at h
    by_cases hmarker : marker.isPrefixOf (c :: cs)
    · rw [if_pos hmarker, Option.some.injEq] at h
      have hle := (List.isPrefixOf_iff_prefix.mp hmarker).length_le
      rw [← h, List.length_drop]
      omega
    · rw [if_neg hmarker] at h
      have hrest := ih h
      rw [List.length_cons]
      omega

theorem exists_angle (h : '<' ∈ pending) :
    ∃ tail, pending.dropWhile (fun c => c ≠ '<') = '<' :: tail ∧ tail.length < pending.length := by
  induction pending with
  | nil => cases h
  | cons c cs ih =>
    by_cases hc : c = '<'
    · subst hc
      exact ⟨cs, List.dropWhile_cons_of_neg (by simp), Nat.lt_succ_self _⟩
    · have hmem : '<' ∈ cs := by
        rcases List.mem_cons.mp h with heq | hmem
        · exact absurd heq.symm hc
        · exact hmem
      obtain ⟨tail, htail, hlt⟩ := ih hmem
      refine ⟨tail, ?_, Nat.lt_succ_of_lt hlt⟩
      rw [List.dropWhile_cons_of_pos (by simpa using hc), htail]

theorem scan_no_angle (h : '<' ∉ pending) : scan false pending = (pending, ⟨false, []⟩) := by
  have hne : ∀ c ∈ pending, decide (c ≠ '<') := by
    intro c hc
    have hc' : c ≠ '<' := fun heq => h (heq ▸ hc)
    simpa using hc'
  rw [scan_plain, List.takeWhile_eq_self_iff.mpr hne, List.dropWhile_eq_nil_iff.mpr hne, scan,
    List.append_nil]

/-- The loop is a scan, with enough turns for every character. -/
theorem loop_eq_scan (h : s.pending.length < n) :
    loop n s out = ((scan s.inside s.pending).2, out ++ (scan s.inside s.pending).1) := by
  induction n generalizing s out with
  | zero => omega
  | succ n ih =>
    obtain ⟨inside, pending⟩ := s
    have hn : pending.length ≤ n := Nat.le_of_lt_succ h
    cases inside with
    | true =>
      rw [loop, scan_inside]
      cases hafter : after closeMarker pending with
      | none => simp
      | some rest =>
        have hle := length_after hafter
        have hmarker : closeMarker.length = 10 := rfl
        exact ih (show rest.length < n by omega)
    | false =>
      rw [loop]
      by_cases hmem : '<' ∈ pending
      · obtain ⟨tail, htail, hlt⟩ := exists_angle hmem
        have hdropped : (tail.drop 9).length ≤ tail.length := by
          rw [List.length_drop]
          exact Nat.sub_le _ _
        rw [if_neg (not_not.mpr hmem), scan_plain, htail, scan, Bool.not_false, Bool.true_and]
        generalize pending.takeWhile (fun c => c ≠ '<') = plain
        by_cases hopen : openMarker.isPrefixOf ('<' :: tail)
        · rw [if_pos hopen, if_pos hopen]
          show loop n ⟨true, tail.drop 9⟩ (out ++ plain) = _
          rw [ih (show (tail.drop 9).length < n by omega), List.append_assoc]
        rw [if_neg hopen, if_neg hopen]
        by_cases hclose : closeMarker.isPrefixOf ('<' :: tail)
        · rw [if_pos hclose, if_pos hclose]
          show loop n ⟨false, tail.drop 9⟩ (out ++ plain) = _
          rw [ih (show (tail.drop 9).length < n by omega), List.append_assoc]
        rw [if_neg hclose, if_neg hclose]
        have hsame : (couldBecome ('<' :: tail) openMarker || couldBecome ('<' :: tail) closeMarker) =
            held false ('<' :: tail) := rfl
        rw [hsame]
        by_cases hheld : held false ('<' :: tail)
        · rw [if_pos hheld, if_pos hheld, List.append_nil]
        · rw [if_neg hheld, if_neg hheld, List.tail_cons, ih (show tail.length < n by omega)]
          simp
      · rw [if_pos hmem, scan_no_angle hmem]

/-! ## Pushing in pieces -/

theorem push_eq (s : Stripper) (delta : List Char) :
    s.push delta = ((scan s.inside (s.pending ++ delta)).2, (scan s.inside (s.pending ++ delta)).1) := by
  unfold push
  dsimp only
  rw [loop_eq_scan (by simp), List.nil_append]

/-- A text that is pushed in two pieces. -/
theorem push_append (s : Stripper) (a b : List Char) :
    s.push (a ++ b) = (((s.push a).1.push b).1, (s.push a).2 ++ ((s.push a).1.push b).2) := by
  simp only [push_eq]
  rw [← List.append_assoc, scan_append]

/-- The stripper after some pieces and what they show. -/
def pushAll (s : Stripper) : List (List Char) → Stripper × List Char
  | [] => (s, [])
  | delta :: deltas =>
    let rest := pushAll (s.push delta).1 deltas
    (rest.1, (s.push delta).2 ++ rest.2)

/-- After a text, some pieces make of it what the longer text makes. -/
theorem pushAll_push (s : Stripper) (start : List Char) (deltas : List (List Char)) :
    ((pushAll (s.push start).1 deltas).1, (s.push start).2 ++ (pushAll (s.push start).1 deltas).2) =
      s.push (start ++ deltas.flatten) := by
  induction deltas generalizing start with
  | nil => simp [pushAll]
  | cons delta deltas ih =>
    have hrest := ih (start ++ delta)
    rw [push_append] at hrest
    rw [List.flatten_cons, ← List.append_assoc start, ← hrest, pushAll]
    simp only [List.append_assoc]

/-- The pieces of a text show, with the end, what its strip shows. -/
theorem pushAll_strip (deltas : List (List Char)) :
    (pushAll fresh deltas).2 ++ (pushAll fresh deltas).1.finish = strip deltas.flatten := by
  have hpieces := pushAll_push fresh [] deltas
  have hempty : fresh.push [] = (fresh, []) := rfl
  rw [hempty, List.nil_append, List.nil_append] at hpieces
  unfold strip
  rw [← hpieces]

end Abbey.Stream
