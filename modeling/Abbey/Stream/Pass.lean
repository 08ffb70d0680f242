import Abbey.Stream.Markers

/-!
# The pass that stripping performs

`Parses` reads a text from left to right into pieces: a block from an open
marker through the next close marker, an open marker without one, a close
marker outside of a block, and every other character.  Only the other
characters are shown.  There is exactly one such reading
(`Parses.unique`, `exists_parses`).

* `emitted_of_parses`: what the stripper has shown after some deltas is what
  some first pieces of the whole text show.
* `strip_of_parses`: at the end it has shown all of them.
* `shown_of_quiet`: a text without markers is shown as it is.
-/

namespace Abbey.Stream

open Stripper

variable {cs : List Char}
variable {p rest : List Char}

/-- A piece of a text. -/
inductive Piece where
  | kept (c : Char)
  | block (inner : List Char)
  | unclosed (inner : List Char)
  | stray

variable {pieces : List Piece}

/-- The text of a piece. -/
def Piece.text : Piece → List Char
  | kept c => [c]
  | block inner => openMarker ++ inner ++ closeMarker
  | unclosed inner => openMarker ++ inner
  | stray => closeMarker

/-- What a piece shows. -/
def Piece.shown : Piece → List Char
  | kept c => [c]
  | block _ | unclosed _ | stray => []

/-- What some pieces show. -/
def shownText (pieces : List Piece) : List Char := pieces.flatMap Piece.shown

/-- The pass from left to right. -/
inductive Parses : List Char → List Piece → Prop where
  | done : Parses [] []
  | block (inner : List Char) {rest : List Char} {pieces : List Piece}
      (first : ¬ closeMarker <:+: inner ++ closeMarker.dropLast) (later : Parses rest pieces) :
      Parses (openMarker ++ (inner ++ closeMarker ++ rest)) (.block inner :: pieces)
  | unclosed (inner : List Char) (never : ¬ closeMarker <:+: inner) :
      Parses (openMarker ++ inner) [.unclosed inner]
  | stray {rest : List Char} {pieces : List Piece} (later : Parses rest pieces) :
      Parses (closeMarker ++ rest) (.stray :: pieces)
  | kept (c : Char) {rest : List Char} {pieces : List Piece}
      (notOpen : ¬ openMarker <+: c :: rest) (notClose : ¬ closeMarker <+: c :: rest)
      (later : Parses rest pieces) : Parses (c :: rest) (.kept c :: pieces)

/-! ## The first close marker -/

section After

variable {marker : List Char}

theorem after_isSome_iff (hmarker : marker ≠ []) : (after marker cs).isSome ↔ marker <:+: cs := by
  induction cs with
  | nil =>
    have hnot : ¬ marker <:+: [] := by
      rw [List.infix_nil]
      exact hmarker
    simp [after, hnot]
  | cons c cs ih =>
    rw [after, List.infix_cons_iff]
    by_cases hfront : marker.isPrefixOf (c :: cs)
    · rw [if_pos hfront]
      simp [List.isPrefixOf_iff_prefix.mp hfront]
    · rw [if_neg hfront, ih, List.isPrefixOf_iff_prefix] at *
      simp [hfront]

theorem after_eq_none_iff (hmarker : marker ≠ []) : after marker cs = none ↔ ¬ marker <:+: cs := by
  rw [← after_isSome_iff hmarker]
  cases after marker cs <;> simp

/-- A marker that is in no shorter text is found at its place. -/
theorem after_append (hmarker : marker ≠ []) {inner : List Char}
    (hfirst : ¬ marker <:+: inner ++ marker.dropLast) :
    after marker (inner ++ marker ++ rest) = some rest := by
  induction inner with
  | nil =>
    obtain ⟨c, cs, rfl⟩ := List.exists_cons_of_ne_nil hmarker
    have hfront : (c :: cs).isPrefixOf (c :: (cs ++ rest)) :=
      List.isPrefixOf_iff_prefix.mpr ⟨rest, rfl⟩
    rw [List.nil_append, List.cons_append, after, if_pos hfront, ← List.cons_append, List.drop_left]
  | cons d inner ih =>
    rw [List.cons_append, List.infix_cons_iff, not_or] at hfirst
    have hnot : ¬ marker.isPrefixOf (d :: (inner ++ marker ++ rest)) := by
      intro hfront
      rw [List.isPrefixOf_iff_prefix] at hfront
      -- the marker would lie within what comes before its last character
      have hshort : d :: (inner ++ marker.dropLast) <+: d :: (inner ++ marker ++ rest) := by
        rw [List.cons_prefix_cons, List.append_assoc, List.prefix_append_right_inj]
        exact ⟨rfl, (List.dropLast_prefix marker).trans (List.prefix_append marker rest)⟩
      refine hfirst.1 (List.prefix_of_prefix_length_le hfront hshort ?_)
      rw [List.length_cons, List.length_append, List.length_dropLast]
      omega
    rw [List.cons_append, List.cons_append, after, if_neg hnot]
    exact ih hfirst.2

/-- What was found is the first marker. -/
theorem of_after_eq_some (hmarker : marker ≠ []) (h : after marker cs = some rest) :
    ∃ inner, cs = inner ++ marker ++ rest ∧ ¬ marker <:+: inner ++ marker.dropLast := by
  induction cs with
  | nil => cases h
  | cons c cs ih =>
    rw [after] at h
    by_cases hfront : marker.isPrefixOf (c :: cs)
    · rw [if_pos hfront, Option.some.injEq] at h
      obtain ⟨tail, htail⟩ := List.isPrefixOf_iff_prefix.mp hfront
      refine ⟨[], ?_, ?_⟩
      · rw [← htail, List.drop_left] at h
        rw [← htail, h, List.nil_append]
      · intro hin
        have hle := hin.length_le
        have hpos := List.length_pos_iff.mpr hmarker
        rw [List.nil_append, List.length_dropLast] at hle
        omega
    · rw [if_neg hfront] at h
      obtain ⟨inner, hcs, hfirst⟩ := ih h
      refine ⟨c :: inner, by rw [hcs]; rfl, ?_⟩
      rw [List.cons_append, List.infix_cons_iff, not_or]
      refine ⟨?_, hfirst⟩
      intro hin
      refine hfront (List.isPrefixOf_iff_prefix.mpr (hin.trans ?_))
      rw [hcs, List.cons_prefix_cons, List.append_assoc, List.prefix_append_right_inj]
      exact ⟨rfl, (List.dropLast_prefix marker).trans (List.prefix_append marker rest)⟩

end After

theorem closeMarker_ne_nil : closeMarker ≠ [] := by decide

theorem open_append_ne_nil (rest : List Char) : openMarker ++ rest ≠ [] :=
  List.append_ne_nil_of_left_ne_nil (by decide) rest

theorem close_append_ne_nil (rest : List Char) : closeMarker ++ rest ≠ [] :=
  List.append_ne_nil_of_left_ne_nil closeMarker_ne_nil rest

theorem length_openMarker : openMarker.length = 10 := rfl

theorem length_closeMarker : closeMarker.length = 10 := rfl

/-! ## One reading -/

theorem not_close_of_open (rest : List Char) : ¬ closeMarker <+: openMarker ++ rest := by
  rw [← List.isPrefixOf_iff_prefix]
  exact Bool.false_ne_true

/-- Every text is read. -/
theorem exists_parses (text : List Char) : ∃ pieces, Parses text pieces := by
  induction hn : text.length using Nat.strong_induction_on generalizing text with
  | _ n ih =>
    subst hn
    by_cases hopen : openMarker <+: text
    · obtain ⟨tail, rfl⟩ := hopen
      cases hafter : after closeMarker tail with
      | none =>
        exact ⟨_, .unclosed tail ((after_eq_none_iff closeMarker_ne_nil).mp hafter)⟩
      | some rest =>
        obtain ⟨inner, rfl, hfirst⟩ := of_after_eq_some closeMarker_ne_nil hafter
        have hlt : rest.length < (openMarker ++ (inner ++ closeMarker ++ rest)).length := by
          simp only [List.length_append, length_openMarker, length_closeMarker]
          omega
        obtain ⟨pieces, hpieces⟩ := ih _ hlt rest rfl
        exact ⟨_, .block inner hfirst hpieces⟩
    · by_cases hclose : closeMarker <+: text
      · obtain ⟨rest, rfl⟩ := hclose
        have hlt : rest.length < (closeMarker ++ rest).length := by
          rw [List.length_append, length_closeMarker]
          omega
        obtain ⟨pieces, hpieces⟩ := ih _ hlt rest rfl
        exact ⟨_, .stray hpieces⟩
      · cases text with
        | nil => exact ⟨[], .done⟩
        | cons c rest =>
          obtain ⟨pieces, hpieces⟩ := ih _ (by simp) rest rfl
          exact ⟨_, .kept c hopen hclose hpieces⟩

variable {text marker d : List Char}

/-- A text is read in one way. -/
theorem Parses.unique {others : List Piece} (h : Parses text pieces)
    (h' : Parses text others) : pieces = others := by
  induction h generalizing others with
  | done =>
    generalize htext : ([] : List Char) = text at h'
    cases h' with
    | done => rfl
    | block | unclosed => exact absurd htext.symm (open_append_ne_nil _)
    | stray _ => exact absurd htext.symm (close_append_ne_nil _)
    | kept _ _ _ _ => cases htext
  | @block inner rest pieces hfirst _ ih =>
    generalize htext : openMarker ++ (inner ++ closeMarker ++ rest) = text at h'
    have hafter : after closeMarker (inner ++ closeMarker ++ rest) = some rest :=
      after_append closeMarker_ne_nil hfirst
    cases h' with
    | done => exact absurd htext (open_append_ne_nil _)
    | @block inner' rest' _ hfirst' hlater' =>
      have hsame := List.append_cancel_left htext
      rw [hsame, after_append closeMarker_ne_nil hfirst', Option.some.injEq] at hafter
      subst hafter
      have hinner := List.append_cancel_right (List.append_cancel_right hsame)
      rw [hinner, ih hlater']
    | unclosed _ hnever =>
      rw [List.append_cancel_left htext, (after_eq_none_iff closeMarker_ne_nil).mpr hnever] at hafter
      cases hafter
    | stray _ => exact absurd ⟨_, htext.symm⟩ (not_close_of_open _)
    | kept _ hopen _ _ => exact absurd ⟨_, htext⟩ hopen
  | unclosed inner hnever =>
    generalize htext : openMarker ++ inner = text at h'
    have hafter := (after_eq_none_iff closeMarker_ne_nil).mpr hnever
    cases h' with
    | done => exact absurd htext (open_append_ne_nil _)
    | block _ hfirst' _ =>
      rw [List.append_cancel_left htext, after_append closeMarker_ne_nil hfirst'] at hafter
      cases hafter
    | unclosed _ _ => rw [List.append_cancel_left htext]
    | stray _ => exact absurd ⟨_, htext.symm⟩ (not_close_of_open _)
    | kept _ hopen _ _ => exact absurd ⟨_, htext⟩ hopen
  | @stray rest pieces _ ih =>
    generalize htext : closeMarker ++ rest = text at h'
    cases h' with
    | done => exact absurd htext (close_append_ne_nil _)
    | block | unclosed => exact absurd ⟨_, htext⟩ (not_close_of_open _)
    | stray hlater' =>
      have hrest := List.append_cancel_left htext
      subst hrest
      rw [ih hlater']
    | kept _ _ hclose _ => exact absurd ⟨_, htext⟩ hclose
  | @kept c rest pieces hopen hclose _ ih =>
    generalize htext : c :: rest = text at h'
    cases h' with
    | done => cases htext
    | block | unclosed => exact absurd ⟨_, htext.symm⟩ hopen
    | stray _ => exact absurd ⟨_, htext.symm⟩ hclose
    | kept _ _ _ hlater' =>
      cases htext
      rw [ih hlater']

/-- The pieces make up the text. -/
theorem Parses.text_eq (h : Parses text pieces) : pieces.flatMap Piece.text = text := by
  induction h with
  | done => rfl
  | block inner _ _ ih =>
    rw [List.flatMap_cons, ih, Piece.text]
    simp only [List.append_assoc]
  | unclosed inner _ => simp [Piece.text]
  | stray _ ih => rw [List.flatMap_cons, ih, Piece.text]
  | kept c _ _ _ ih => rw [List.flatMap_cons, ih, Piece.text, List.singleton_append]

/-- A text without markers is shown as it is. -/
theorem shown_of_quiet (h : Parses text pieces) (hopen : ¬ openMarker <:+: text)
    (hclose : ¬ closeMarker <:+: text) : shownText pieces = text := by
  induction h with
  | done => rfl
  | block inner | unclosed inner => exact absurd (List.prefix_append _ _).isInfix hopen
  | stray _ _ => exact absurd (List.prefix_append _ _).isInfix hclose
  | kept c _ _ _ ih =>
    rw [List.infix_cons_iff, not_or] at hopen hclose
    have hrest := ih hopen.2 hclose.2
    unfold shownText at hrest ⊢
    rw [List.flatMap_cons, hrest, Piece.shown, List.singleton_append]

/-! ## What the stripper shows -/

theorem couldBecome_of_short (h : p ++ d = marker ++ rest)
    (hshort : p.length < marker.length) : couldBecome p marker := by
  have hprefix : p <+: marker := by
    have hp : p <+: marker ++ rest := ⟨d, h⟩
    exact List.prefix_of_prefix_length_le hp (List.prefix_append marker rest) (by omega)
  rw [couldBecome, List.isPrefixOf_iff_prefix.mpr hprefix, decide_eq_true hshort, Bool.and_self]

theorem length_lt_of_couldBecome (h : couldBecome p marker) : p.length < marker.length := by
  rw [couldBecome, Bool.and_eq_true] at h
  exact of_decide_eq_true h.1

/-- The beginning of a marker is held back. -/
theorem scan_of_couldBecome (h : couldBecome p openMarker ∨ couldBecome p closeMarker) :
    scan false p = ([], ⟨false, p⟩) := by
  cases p with
  | nil => rw [scan]
  | cons c cs =>
    have hshort : cs.length < 9 := by
      have hlength : (c :: cs).length < 10 := by
        rcases h with h | h
        · exact length_lt_of_couldBecome h
        · exact length_lt_of_couldBecome h
      rw [List.length_cons] at hlength
      omega
    have hnot : ∀ marker : List Char, marker.length = 10 → marker.isPrefixOf (c :: cs) = false := by
      intro marker hlength
      rw [Bool.eq_false_iff]
      intro hmarker
      have hle := length_of_isPrefixOf hlength hmarker
      rw [List.length_cons] at hle
      omega
    have hheld : held false (c :: cs) := by
      unfold held
      rw [Bool.not_false, Bool.true_and, Bool.or_eq_true]
      exact h
    rw [scan, if_neg (by simp [hnot openMarker rfl]), if_neg (by simp [hnot closeMarker rfl]),
      if_pos hheld]

theorem scan_open (p : List Char) : scan false (openMarker ++ p) = scan true p := by
  have hcons : openMarker ++ p = '<' :: ("|channel>".toList ++ p) := rfl
  have hfront : openMarker.isPrefixOf ('<' :: ("|channel>".toList ++ p)) :=
    List.isPrefixOf_iff_prefix.mpr ⟨p, hcons⟩
  rw [hcons, scan, if_pos (by rw [hfront]; rfl)]
  rfl

theorem scan_close (p : List Char) : scan false (closeMarker ++ p) = scan false p := by
  have hcons : closeMarker ++ p = '<' :: ("channel|>".toList ++ p) := rfl
  have hfront : closeMarker.isPrefixOf ('<' :: ("channel|>".toList ++ p)) :=
    List.isPrefixOf_iff_prefix.mpr ⟨p, hcons⟩
  have hopen := not_open_of_close hfront
  rw [hcons, scan, if_neg (by rw [hopen]; exact Bool.false_ne_true), if_pos hfront]
  rfl

/-- A character that starts no marker is shown, unless it is held back. -/
theorem scan_kept {c : Char} (hopen : ¬ openMarker <+: c :: cs) (hclose : ¬ closeMarker <+: c :: cs)
    (hheld : held false (c :: cs) = false) :
    scan false (c :: cs) = (c :: (scan false cs).1, (scan false cs).2) := by
  rw [← List.isPrefixOf_iff_prefix] at hopen hclose
  rw [scan, if_neg (by simpa using hopen), if_neg hclose, if_neg (by simp [hheld])]
  rfl

/-- A piece of a text that begins with a marker is the beginning of the
marker or goes beyond it. -/
theorem begin_or_beyond (h : p ++ d = marker ++ rest) :
    couldBecome p marker ∨ ∃ q, p = marker ++ q ∧ q ++ d = rest := by
  by_cases hshort : p.length < marker.length
  · exact .inl (couldBecome_of_short h hshort)
  · have hmarker : marker <+: p ++ d := ⟨rest, h.symm⟩
    obtain ⟨q, rfl⟩ := List.prefix_of_prefix_length_le hmarker (List.prefix_append p d) (by omega)
    rw [List.append_assoc] at h
    exact .inr ⟨q, rfl, List.append_cancel_left h⟩

/-- What is shown of the beginning of a text is what some first pieces of
the text show. -/
theorem emitted_of_parses (h : Parses text pieces)
    (hp : p ++ d = text) : ∃ n, (scan false p).1 = shownText (pieces.take n) := by
  induction h generalizing p with
  | done =>
    rw [(List.append_eq_nil_iff.mp hp).1]
    exact ⟨0, by rw [scan]; rfl⟩
  | @block inner rest pieces hfirst _ ih =>
    rcases begin_or_beyond hp with hbegin | ⟨q, rfl, hq⟩
    · exact ⟨0, by rw [scan_of_couldBecome (.inl hbegin)]; rfl⟩
    · rw [scan_open, scan_inside]
      cases hafter : after closeMarker q with
      | none => exact ⟨0, rfl⟩
      | some r =>
        -- the close marker that was seen is the one that ends the block
        obtain ⟨inner', rfl, hfirst'⟩ := of_after_eq_some closeMarker_ne_nil hafter
        have hr : after closeMarker (inner ++ closeMarker ++ rest) = some (r ++ d) := by
          rw [← hq, List.append_assoc]
          exact after_append closeMarker_ne_nil hfirst'
        rw [after_append closeMarker_ne_nil hfirst, Option.some.injEq] at hr
        obtain ⟨n, hn⟩ := ih hr.symm
        refine ⟨n + 1, ?_⟩
        rw [List.take_succ_cons]
        exact hn
  | unclosed inner hnever =>
    rcases begin_or_beyond hp with hbegin | ⟨q, rfl, hq⟩
    · exact ⟨0, by rw [scan_of_couldBecome (.inl hbegin)]; rfl⟩
    · have hnone : after closeMarker q = none := by
        rw [after_eq_none_iff closeMarker_ne_nil]
        intro hin
        rw [← hq] at hnever
        exact hnever (hin.trans (List.prefix_append q d).isInfix)
      rw [scan_open, scan_inside, hnone]
      exact ⟨0, rfl⟩
  | @stray rest pieces _ ih =>
    rcases begin_or_beyond hp with hbegin | ⟨q, rfl, hq⟩
    · exact ⟨0, by rw [scan_of_couldBecome (.inr hbegin)]; rfl⟩
    · obtain ⟨n, hn⟩ := ih hq
      refine ⟨n + 1, ?_⟩
      rw [scan_close, List.take_succ_cons]
      exact hn
  | @kept c rest pieces hopen hclose _ ih =>
    cases p with
    | nil => exact ⟨0, by rw [scan]; rfl⟩
    | cons c' cs =>
      rw [List.cons_append, List.cons.injEq] at hp
      obtain ⟨rfl, hcs⟩ := hp
      have hfront : c' :: cs <+: c' :: rest := ⟨d, by rw [List.cons_append, hcs]⟩
      by_cases hheld : held false (c' :: cs)
      · unfold held at hheld
        rw [Bool.not_false, Bool.true_and, Bool.or_eq_true] at hheld
        exact ⟨0, by rw [scan_of_couldBecome hheld]; rfl⟩
      · rw [Bool.not_eq_true] at hheld
        obtain ⟨n, hn⟩ := ih hcs
        refine ⟨n + 1, ?_⟩
        rw [scan_kept (fun h => hopen (h.trans hfront)) (fun h => hclose (h.trans hfront)) hheld,
          List.take_succ_cons, hn]
        rfl

/-- A text shorter than a marker has none. -/
theorem quiet_of_couldBecome (h : couldBecome p openMarker ∨ couldBecome p closeMarker) :
    ¬ openMarker <:+: p ∧ ¬ closeMarker <:+: p := by
  have hlength : p.length < 10 := by
    rcases h with h | h
    · exact length_lt_of_couldBecome h
    · exact length_lt_of_couldBecome h
  constructor
  · intro hin
    have hle := hin.length_le
    rw [length_openMarker] at hle
    omega
  · intro hin
    have hle := hin.length_le
    rw [length_closeMarker] at hle
    omega

/-- At the end everything is shown that the pieces show. -/
theorem strip_of_parses (h : Parses text pieces) :
    (scan false text).1 ++ (scan false text).2.finish = shownText pieces := by
  induction h with
  | done =>
    rw [scan]
    rfl
  | @block inner rest pieces hfirst _ ih =>
    have hafter : after closeMarker (inner ++ closeMarker ++ rest) = some rest :=
      after_append closeMarker_ne_nil hfirst
    rw [scan_open, scan_inside, hafter]
    exact ih
  | unclosed inner hnever =>
    rw [scan_open, scan_inside, (after_eq_none_iff closeMarker_ne_nil).mpr hnever]
    rfl
  | stray _ ih =>
    rw [scan_close]
    exact ih
  | @kept c rest pieces hopen hclose hlater ih =>
    by_cases hheld : held false (c :: rest)
    · unfold held at hheld
      rw [Bool.not_false, Bool.true_and, Bool.or_eq_true] at hheld
      obtain ⟨hquietOpen, hquietClose⟩ := quiet_of_couldBecome hheld
      rw [scan_of_couldBecome hheld, shown_of_quiet (.kept c hopen hclose hlater) hquietOpen
        hquietClose]
      rfl
    · rw [Bool.not_eq_true] at hheld
      rw [scan_kept hopen hclose hheld, List.cons_append, ih]
      rfl

/-! ## Stripping -/

/-- What stripping promises of a text that arrives in some deltas. -/
structure Stripped (text : List Char) (deltas : List (List Char)) : Prop where
  /-- The deltas and the end show what `strip` shows. -/
  whole : (pushAll fresh deltas).2 ++ (pushAll fresh deltas).1.finish = strip text
  /-- `strip` is the pass, and what is shown after some deltas is what some
  first pieces show, so never a character of a block. -/
  pass : ∃ pieces, Parses text pieces ∧ (∀ others, Parses text others → others = pieces) ∧
    pieces.flatMap Piece.text = text ∧ strip text = shownText pieces ∧
    ∀ k, ∃ n, (pushAll fresh (deltas.take k)).2 = shownText (pieces.take n)
  /-- What is shown after some deltas stays. -/
  early : ∀ k, (pushAll fresh (deltas.take k)).2 <+: strip text
  quiet : ¬ openMarker <:+: text → ¬ closeMarker <:+: text → strip text = text

theorem strip_eq_scan (text : List Char) :
    strip text = (scan false text).1 ++ (scan false text).2.finish := by
  unfold strip
  rw [push_eq]
  rfl

theorem pushAll_eq_scan (deltas : List (List Char)) :
    (pushAll fresh deltas).2 = (scan false deltas.flatten).1 := by
  have hpieces := pushAll_push fresh [] deltas
  have hempty : fresh.push [] = (fresh, []) := rfl
  rw [hempty, List.nil_append, List.nil_append, push_eq] at hpieces
  exact congrArg Prod.snd hpieces

/-- Every text in any deltas is stripped by the pass. -/
theorem stripped_of_flatten (deltas : List (List Char)) : Stripped deltas.flatten deltas := by
  obtain ⟨pieces, hpieces⟩ := exists_parses deltas.flatten
  have hstrip : strip deltas.flatten = shownText pieces := by
    rw [strip_eq_scan, strip_of_parses hpieces]
  have hearly : ∀ k, ∃ n, (pushAll fresh (deltas.take k)).2 = shownText (pieces.take n) := by
    intro k
    rw [pushAll_eq_scan]
    refine emitted_of_parses hpieces (d := (deltas.drop k).flatten) ?_
    rw [← List.flatten_append, List.take_append_drop]
  refine ⟨pushAll_strip deltas, ⟨pieces, hpieces, fun others h => h.unique hpieces,
    hpieces.text_eq, hstrip, hearly⟩, fun k => ?_, fun hopen hclose => ?_⟩
  · obtain ⟨n, hn⟩ := hearly k
    rw [hn, hstrip]
    refine ⟨shownText (pieces.drop n), ?_⟩
    unfold shownText
    rw [← List.flatMap_append, List.take_append_drop]
  · rw [hstrip, shown_of_quiet hpieces hopen hclose]

example : strip "a<|channel>x<channel|>b<channel|>c<|chan".toList = "abc<|chan".toList := by
  decide +kernel

end Abbey.Stream
