import Abbey.Tui.Zipper

/-!
# The composer refines the zipper

* `step_composer`: an operation of the composer has a value and is the operation
  of the zipper.
* `motion_text`: a motion leaves the text alone.
* `up_row`, `down_row`: a vertical motion goes to the adjacent line, at the column
  of the cursor or the end of the line; it fails on the first and the last line.
* `deletion_span`: a deletion removes its span and nothing else.
-/

namespace Abbey.Tui

open Abbey.Lib Composer List
open Abbey.Run (isWhitespace)

variable (z : Zipper)

/-! ## Boundaries -/

theorem composer_split : splitAt z.composer.text z.composer.cursor = some (z.before, z.after) :=
  splitAt_bytes z.before z.after

theorem prevBoundary_composer :
    z.composer.prevBoundary z.composer.cursor = some (bytes z.before.dropLast) := by
  rw [prevBoundary, composer_split]
  rcases eq_nil_or_concat z.before with hnil | ⟨kept, c, hkept⟩
  · rw [hnil]
    rfl
  · rw [hkept, concat_eq_append, dropLast_concat]
    change some ((charIndices (kept ++ c :: [])).getLast?.elim 0 Prod.fst) = some (bytes kept)
    rw [charIndices_append_cons, charIndicesFrom, getLast?_concat]
    rfl

theorem nextBoundary_composer :
    z.composer.nextBoundary z.composer.cursor =
      some (bytes z.before + bytes (z.after.take 1)) := by
  rw [nextBoundary, composer_split]
  cases hafter : z.after with
  | nil => rfl
  | cons c after => simp [Zipper.composer]

theorem backspace_composer :
    z.composer.backspace = some (Zipper.composer ⟨z.before.dropLast, z.after⟩) := by
  unfold backspace
  rcases eq_nil_or_concat z.before with hnil | ⟨kept, c, hkept⟩
  · have hzero : ¬ 0 < z.composer.cursor := by simp [Zipper.composer, hnil]
    rw [if_neg hzero, Zipper.composer, hnil]
    rfl
  · rw [concat_eq_append] at hkept
    have hpos : 0 < z.composer.cursor := by
      have hsize := c.utf8Size_pos
      simp only [Zipper.composer, hkept, bytes_append, bytes_cons]
      omega
    have hremove : removeRange z.composer.text (bytes z.before.dropLast) z.composer.cursor =
        some (z.before.dropLast ++ z.after) := by
      rw [hkept, dropLast_concat]
      exact removeRange_composer hkept
    rw [if_pos hpos, prevBoundary_composer]
    change (removeRange z.composer.text _ _).bind _ = _
    rw [hremove]
    rfl

theorem delete_composer : z.composer.delete = some (Zipper.composer ⟨z.before, z.after.tail⟩) := by
  unfold delete
  cases hafter : z.after with
  | nil =>
    have hend : ¬ z.composer.cursor < bytes z.composer.text := by
      simp [Zipper.composer, hafter]
    rw [if_neg hend, Zipper.composer, hafter]
    rfl
  | cons c after =>
    have hlt : z.composer.cursor < bytes z.composer.text := by
      have hsize := c.utf8Size_pos
      simp only [Zipper.composer, hafter, bytes_append, bytes_cons]
      omega
    have hremove := removeRange_bytes z.before [c] after
    rw [if_pos hlt, nextBoundary_composer, hafter]
    rw [bytes_append, singleton_append, ← hafter] at hremove
    change (removeRange (z.before ++ z.after) (bytes z.before) (bytes z.before + bytes [c])).bind _ = _
    rw [hremove]
    rfl

/-! ## Words -/

theorem wordLeft_composer : z.composer.wordLeft = some (z.backTo z.beforeWord).composer := by
  have hword : afterBlank (z.before.rdropWhile isWhitespace)
      (rfind isWhitespace (z.before.rdropWhile isWhitespace)) = some (bytes z.beforeWord) := by
    rw [Zipper.beforeWord]
    rcases divides_last isWhitespace (z.before.rdropWhile isWhitespace) with
      hnone | ⟨xs, c, ys, heq, hys, hc⟩
    · have hall : ∀ c ∈ z.before.rdropWhile isWhitespace, notBlank c := by
        intro c hc
        simp [notBlank, hnone c hc]
      rw [rfind_none hnone, rdropWhile_eq_nil_iff.mpr hall]
      rfl
    · have hblank : notBlank c = false := by simp [notBlank, hc]
      have hall : ∀ y ∈ ys, notBlank y := by
        intro y hy
        simp [notBlank, hys y hy]
      rw [heq, rfind_last xs hc hys, (rtakeWhile_last xs hblank hall).2, afterBlank,
        splitAt_bytes, bytes_append, bytes_cons]
      rfl
  rw [wordLeft, composer_split, composer_backTo (beforeWord_append z)]
  change (afterBlank _ _).bind _ = _
  rw [hword]
  rfl

theorem wordRight_composer :
    z.composer.wordRight = some (z.past (z.after.takeWhile isWhitespace ++
      (z.after.dropWhile isWhitespace).takeWhile notBlank)).composer := by
  have hafter : z.after = z.after.takeWhile isWhitespace ++ z.after.dropWhile isWhitespace :=
    takeWhile_append_dropWhile.symm
  have hskip : bytes z.after - bytes (z.after.dropWhile isWhitespace) =
      bytes (z.after.takeWhile isWhitespace) := by
    have hsum := congrArg bytes hafter
    rw [bytes_append] at hsum
    omega
  have hsplit : splitAt z.after (bytes (z.after.takeWhile isWhitespace)) =
      some (z.after.takeWhile isWhitespace, z.after.dropWhile isWhitespace) := by
    conv => lhs; arg 1; rw [hafter]
    rw [splitAt_bytes]
  have hword : (find isWhitespace (z.after.dropWhile isWhitespace)).getD
      (bytes (z.after.dropWhile isWhitespace)) =
        bytes ((z.after.dropWhile isWhitespace).takeWhile notBlank) := by
    rcases divides_first isWhitespace (z.after.dropWhile isWhitespace) with
      hnone | ⟨xs, c, ys, heq, hxs, hc⟩
    · have hall : ∀ c ∈ z.after.dropWhile isWhitespace, notBlank c := by
        intro c hc
        simp [notBlank, hnone c hc]
      rw [find_none hnone, takeWhile_eq_self_iff.mpr hall]
      rfl
    · have hblank : notBlank c = false := by simp [notBlank, hc]
      have hall : ∀ x ∈ xs, notBlank x := by
        intro x hx
        simp [notBlank, hxs x hx]
      rw [heq, find_first hxs hc, (takeWhile_first hall hblank ys).1]
      rfl
  have hpassed : z.after = (z.after.takeWhile isWhitespace ++
      (z.after.dropWhile isWhitespace).takeWhile notBlank) ++
        (z.after.dropWhile isWhitespace).dropWhile notBlank := by
    rw [append_assoc, takeWhile_append_dropWhile, ← hafter]
  rw [wordRight, composer_split, composer_past hpassed, bytes_append]
  change (splitAt z.after (bytes z.after - bytes (z.after.dropWhile isWhitespace))).bind _ = _
  rw [hskip, hsplit]
  change some _ = some _
  rw [← hword]
  rfl

/-! ## Lines -/

theorem lineBounds_composer :
    z.composer.lineBounds =
      some (bytes z.beforeLine, bytes z.before + bytes (z.after.takeWhile notEnd)) := by
  have hstart : (rfind (· = '\n') z.before).elim 0 (· + 1) = bytes z.beforeLine := by
    rw [Zipper.beforeLine]
    rcases divides_last (· = '\n') z.before with hnone | ⟨xs, c, ys, heq, hys, hc⟩
    · rw [rfind_none hnone, rdropWhile_eq_nil_iff.mpr (by simpa [notEnd] using hnone)]
      rfl
    · have hend : c = '\n' := by simpa using hc
      rw [heq, rfind_last xs hc hys, (rtakeWhile_last xs (by simp [notEnd, hend])
        (by simpa [notEnd] using hys)).2, bytes_append, hend]
      rfl
  have hstop : (find (· = '\n') z.after).elim (bytes (z.before ++ z.after)) (bytes z.before + ·) =
      bytes z.before + bytes (z.after.takeWhile notEnd) := by
    rcases divides_first (· = '\n') z.after with hnone | ⟨xs, c, ys, heq, hxs, hc⟩
    · rw [find_none hnone, takeWhile_eq_self_iff.mpr (by simpa [notEnd] using hnone),
        ← bytes_append]
      rfl
    · have hend : c = '\n' := by simpa using hc
      rw [heq, find_first hxs hc, (takeWhile_first (by simpa [notEnd] using hxs)
        (by simp [notEnd, hend]) ys).1]
      rfl
  rw [lineBounds, composer_split, ← hstart, ← hstop]
  rfl

theorem cursorRowCol_composer : z.composer.cursorRowCol = some (z.row, z.col) := by
  have hlast : (z.before.splitOn '\n').getLast?.getD [] = z.before.rtakeWhile notEnd := by
    obtain ⟨ls, head, heq, hls, hhead⟩ := whole_lines z.before
    rw [heq, splitOn_unlines hls, splitOn_eq_singleton hhead, getLast?_concat,
      (rtakeWhile_unlines hhead).1]
    rfl
  rw [cursorRowCol, composer_split, Zipper.row, Zipper.col, ← hlast]
  rfl

/-! ## Adjacent lines -/

section Adjacent

variable {z : Zipper} {ls : List (List Char)} {line head tail below : List Char}
variable {more : List Char}

/-- A text begins with its first line. -/
theorem exists_line (cs : List Char) :
    ∃ line more, cs = line ++ more ∧ '\n' ∉ line ∧ (more = [] ∨ ∃ below, more = '\n' :: below) := by
  rcases divides_first (· = '\n') cs with hnone | ⟨xs, c, ys, heq, hxs, hc⟩
  · exact ⟨cs, [], (append_nil cs).symm, fun h => by simpa using hnone _ h, .inl rfl⟩
  · refine ⟨xs, c :: ys, heq, fun h => by simpa using hxs _ h, .inr ⟨ys, ?_⟩⟩
    rw [show c = '\n' by simpa using hc]

theorem splitOn_line (hline : '\n' ∉ line) (hmore : more = [] ∨ ∃ below, more = '\n' :: below) :
    ∃ lines, (line ++ more).splitOn '\n' = line :: lines := by
  rcases hmore with rfl | ⟨below, rfl⟩
  · exact ⟨[], by rw [append_nil, splitOn_eq_singleton hline]⟩
  · exact ⟨below.splitOn '\n', by
      rw [splitOn_append_cons_self, splitOn_eq_singleton hline]; rfl⟩

theorem row_eq (hls : ∀ line ∈ ls, '\n' ∉ line) (hhead : '\n' ∉ head)
    (hbefore : z.before = unlines ls ++ head) : z.row = ls.length ∧ z.col = head.length := by
  rw [Zipper.row, Zipper.col, hbefore, count_append, count_unlines hls,
    count_eq_zero_of_not_mem hhead, (rtakeWhile_unlines hhead).1]
  exact ⟨rfl, rfl⟩

theorem up_first (hhead : '\n' ∉ head) (hbefore : z.before = head) : z.up = none := by
  have hline : z.beforeLine = [] := by
    rw [Zipper.beforeLine, hbefore]
    exact (@rtakeWhile_unlines [] head hhead).2
  rw [Zipper.up, if_pos hline]

/-- Going up from below a line. -/
theorem up_eq (hline : '\n' ∉ line) (hhead : '\n' ∉ head)
    (hbefore : z.before = unlines (ls ++ [line]) ++ head) :
    z.up = some ⟨unlines ls ++ line.take z.col, line.drop z.col ++ '\n' :: (head ++ z.after)⟩ := by
  have hkept : z.beforeLine = (unlines ls ++ line) ++ ['\n'] := by
    rw [Zipper.beforeLine, hbefore, (rtakeWhile_unlines hhead).2]
    simp [unlines]
  have hspan : z.before = (unlines ls ++ line.take z.col) ++ (line.drop z.col ++ '\n' :: head) := by
    rw [hbefore, ← append_assoc, append_assoc _ (line.take z.col), take_append_drop]
    simp [unlines]
  obtain ⟨htake, hdrop⟩ := @rtakeWhile_unlines ls line hline
  rw [Zipper.up, if_neg (by simp [hkept]), hkept]
  dsimp only
  rw [dropLast_concat, htake, hdrop, backTo_append hspan]
  simp

theorem down_last (htail : '\n' ∉ tail) (hafter : z.after = tail) : z.down = none := by
  rw [Zipper.down, hafter, dropWhile_eq_nil_iff.mpr (notEnd_of_notMem htail)]

/-- Going down from above a line. -/
theorem down_eq (htail : '\n' ∉ tail) (hline : '\n' ∉ line)
    (hmore : more = [] ∨ ∃ below, more = '\n' :: below)
    (hafter : z.after = tail ++ '\n' :: (line ++ more)) :
    z.down = some ⟨z.before ++ (tail ++ '\n' :: line.take z.col), line.drop z.col ++ more⟩ := by
  obtain ⟨htake, hdrop⟩ := takeWhile_first (notEnd_of_notMem htail)
    (show notEnd '\n' = false by decide) (line ++ more)
  have hbelow : (line ++ more).takeWhile notEnd = line := by
    rcases hmore with rfl | ⟨below, rfl⟩
    · rw [append_nil, takeWhile_eq_self_iff.mpr (notEnd_of_notMem hline)]
    · exact (takeWhile_first (notEnd_of_notMem hline) (by decide) below).1
  have hspan : z.after = (tail ++ '\n' :: line.take z.col) ++ (line.drop z.col ++ more) := by
    rw [hafter, append_assoc, cons_append, ← append_assoc (line.take z.col),
      take_append_drop]
  rw [← hafter] at htake hdrop
  rw [Zipper.down, hdrop]
  change some (z.past (z.after.takeWhile notEnd ++
    '\n' :: ((line ++ more).takeWhile notEnd).take z.col)) = _
  rw [htake, hbelow, past_append hspan]

end Adjacent

/-- A place in the line of a row, at the column of `z` or at the end of a shorter line. -/
def Lands (z z' : Zipper) (row : Nat) : Prop :=
  ∃ uppers line lines, uppers.length = row ∧ (∀ other ∈ uppers, '\n' ∉ other) ∧ '\n' ∉ line ∧
    z.text.splitOn '\n' = uppers ++ line :: lines ∧ z'.text = z.text ∧
    z'.before = unlines uppers ++ line.take z.col

theorem Lands.line (h : Lands z z' row) : z'.row = row ∧
    ∃ line, (z.text.splitOn '\n')[z'.row]? = some line ∧ z'.col = min z.col line.length := by
  obtain ⟨uppers, line, lines, rfl, huppers, hline, hsplit, _, hbefore⟩ := h
  have htake : '\n' ∉ line.take z.col := fun hmem => hline (mem_of_mem_take hmem)
  obtain ⟨hrow, hcol⟩ := row_eq huppers htake hbefore
  refine ⟨hrow, line, ?_, by rw [hcol, length_take]⟩
  rw [hrow, hsplit]
  simp

theorem Lands.composer (h : Lands z z' row) : z.composer.moveToRow row z.col = z'.composer := by
  obtain ⟨uppers, line, lines, rfl, _, _, hsplit, htext, hbefore⟩ := h
  have hfound := rowOffset_lines uppers.length z.col 0 0 uppers lines line (by omega)
  change (rowOffset uppers.length z.col 0 0 (z.text.splitOn '\n')).elim z.composer _ = _
  rw [hsplit, hfound, Nat.zero_add, ← bytes_append, ← hbefore]
  change mk z.text _ = _
  rw [← htext]
  rfl

theorem up_lands : z.row = 0 ∧ z.up = none ∨
    ∃ z' row, z.up = some z' ∧ z.row = row + 1 ∧ Lands z z' row := by
  obtain ⟨ls, head, hbefore, hls, hhead⟩ := whole_lines z.before
  obtain ⟨hrow, _⟩ := row_eq hls hhead hbefore
  rcases eq_nil_or_concat ls with rfl | ⟨uppers, line, rfl⟩
  · exact .inl ⟨hrow, up_first hhead hbefore⟩
  · rw [concat_eq_append] at hbefore hls hrow
    have hline := hls line (by simp)
    have huppers : ∀ other ∈ uppers, '\n' ∉ other := fun other h => hls other (by simp [h])
    rw [length_append, length_singleton] at hrow
    have hsplit : z.text.splitOn '\n' = uppers ++ line :: (head ++ z.after).splitOn '\n' := by
      rw [Zipper.text, hbefore, append_assoc, splitOn_unlines hls, append_assoc]
      rfl
    refine .inr ⟨_, uppers.length, up_eq hline hhead hbefore, hrow,
      uppers, line, _, rfl, huppers, hline, hsplit, ?_, rfl⟩
    rw [Zipper.text, Zipper.text, ← append_assoc, append_assoc _ (line.take z.col),
      take_append_drop, hbefore]
    simp [unlines]

theorem down_lands : (z.text.splitOn '\n').length = z.row + 1 ∧ z.down = none ∨
    ∃ z', z.down = some z' ∧ z.row + 1 < (z.text.splitOn '\n').length ∧
      Lands z z' (z.row + 1) := by
  obtain ⟨ls, head, hbefore, hls, hhead⟩ := whole_lines z.before
  obtain ⟨tail, rest, hafter, htail, hrest⟩ := exists_line z.after
  obtain ⟨hrow, _⟩ := row_eq hls hhead hbefore
  have hmid : '\n' ∉ head ++ tail := by simp [hhead, htail]
  have htext : z.text = unlines ls ++ ((head ++ tail) ++ rest) := by
    rw [Zipper.text, hbefore, hafter]
    simp
  rcases hrest with rfl | ⟨below, rfl⟩
  · rw [append_nil] at hafter htext
    refine .inl ⟨?_, down_last htail hafter⟩
    rw [htext, splitOn_unlines hls, splitOn_eq_singleton hmid, hrow]
    simp
  · obtain ⟨line, more, rfl, hline, hmore⟩ := exists_line below
    obtain ⟨lines, hlines⟩ := splitOn_line hline hmore
    have hsplit : z.text.splitOn '\n' = (ls ++ [head ++ tail]) ++ line :: lines := by
      rw [htext, splitOn_unlines hls, splitOn_append_cons_self,
        splitOn_eq_singleton hmid, hlines]
      simp
    have hwhole : ∀ other ∈ ls ++ [head ++ tail], '\n' ∉ other := by
      intro other hother
      rcases mem_append.mp hother with hold | hnew
      · exact hls other hold
      · rw [mem_singleton.mp hnew]
        exact hmid
    refine .inr ⟨_, down_eq htail hline hmore hafter, ?_, ls ++ [head ++ tail], line, lines, ?_,
      hwhole, hline, hsplit, ?_, ?_⟩
    · rw [hsplit, hrow]
      simp
    · rw [hrow]
      simp
    · rw [Zipper.text, Zipper.text, hafter, append_assoc, append_assoc, cons_append,
        ← append_assoc (line.take z.col), take_append_drop]
    · change z.before ++ _ = _
      rw [hbefore]
      simp [unlines]

theorem up_composer :
    z.composer.up = some ((z.moved z.up).1.composer, z.up.isSome) := by
  rw [up, cursorRowCol_composer]
  change (if z.row = 0 then _ else _) = _
  rcases up_lands z with ⟨hrow, hup⟩ | ⟨z', row, hup, hrow, hlands⟩
  · rw [if_pos hrow, hup]
    rfl
  · rw [if_neg (by omega), hrow, Nat.add_sub_cancel, hlands.composer, hup]
    rfl

theorem down_composer :
    z.composer.down = some ((z.moved z.down).1.composer, z.down.isSome) := by
  rw [down, cursorRowCol_composer]
  change (if (z.text.splitOn '\n').length ≤ z.row + 1 then _ else _) = _
  rcases down_lands z with ⟨hcount, hdown⟩ | ⟨z', hdown, hcount, hlands⟩
  · rw [if_pos hcount.le, hdown]
    rfl
  · rw [if_neg (by omega), hlands.composer, hdown]
    rfl

/-! ## What the zipper does -/

/-- The motions. -/
def Op.moves : Op → Bool
  | .left | .right | .wordLeft | .wordRight | .lineStart | .lineEnd | .up | .down => true
  | _ => false

/-- The characters that a deletion removes before and after the cursor. -/
def Zipper.span (z : Zipper) : Op → List Char × List Char
  | .backspace => (z.before.getLast?.toList, [])
  | .delete => ([], z.after.head?.toList)
  | .killLineBefore => (z.before.rtakeWhile notEnd, [])
  | .killWordBefore =>
    ((z.before.rdropWhile isWhitespace).rtakeWhile notBlank ++ z.before.rtakeWhile isWhitespace, [])
  | _ => ([], [])

def Op.deletes : Op → Bool
  | .backspace | .delete | .killLineBefore | .killWordBefore => true
  | _ => false

theorem up_row :
    (z.up = none ↔ z.row = 0) ∧
      ∀ z', z.up = some z' → z'.text = z.text ∧ z'.row + 1 = z.row ∧
        ∃ line, (z.text.splitOn '\n')[z'.row]? = some line ∧ z'.col = min z.col line.length := by
  rcases up_lands z with ⟨hrow, hup⟩ | ⟨found, row, hup, hrow, hlands⟩
  · simp [hrow, hup]
  · obtain ⟨hat, hline⟩ := hlands.line
    obtain ⟨_, _, _, _, _, _, _, htext, _⟩ := hlands
    refine ⟨by simp [hrow, hup], fun z' hz' => ?_⟩
    obtain rfl := Option.some.inj (hup.symm.trans hz')
    exact ⟨htext, by rw [hat, hrow], hline⟩

theorem down_row :
    (z.down = none ↔ z.row + 1 = (z.text.splitOn '\n').length) ∧
      ∀ z', z.down = some z' → z'.text = z.text ∧ z'.row = z.row + 1 ∧
        ∃ line, (z.text.splitOn '\n')[z'.row]? = some line ∧ z'.col = min z.col line.length := by
  rcases down_lands z with ⟨hcount, hdown⟩ | ⟨found, hdown, hcount, hlands⟩
  · simp [hcount, hdown]
  · obtain ⟨hat, hline⟩ := hlands.line
    obtain ⟨_, _, _, _, _, _, _, htext, _⟩ := hlands
    refine ⟨by simp [hdown, hcount.ne], fun z' hz' => ?_⟩
    obtain rfl := Option.some.inj (hdown.symm.trans hz')
    exact ⟨htext, hat, hline⟩

theorem before_append_last : z.before = z.before.dropLast ++ z.before.getLast?.toList := by
  rcases eq_nil_or_concat z.before with hnil | ⟨kept, c, hkept⟩
  · rw [hnil]
    rfl
  · rw [hkept, concat_eq_append, dropLast_concat, getLast?_concat]
    rfl

theorem motion_text (op : Op) (h : op.moves) : (z.step op).1.text = z.text := by
  have hback : ∀ {kept span}, z.before = kept ++ span → (z.backTo kept).text = z.text := by
    intro kept span hspan
    rw [backTo_append hspan, Zipper.text, Zipper.text, hspan, append_assoc]
  have hpast : ∀ {passed rest}, z.after = passed ++ rest → (z.past passed).text = z.text := by
    intro passed rest hrest
    rw [past_append hrest, Zipper.text, Zipper.text, hrest, append_assoc]
  have hvertical : ∀ z' : Option Zipper, (∀ found, z' = some found → found.text = z.text) →
      (z.moved z').1.text = z.text := by
    intro z' hfound
    cases z' with
    | none => rfl
    | some found => exact hfound found rfl
  cases op with
  | left => exact hback (before_append_last z)
  | right => exact hpast (take_append_drop 1 z.after).symm
  | wordLeft => exact hback (beforeWord_append z)
  | wordRight =>
    have hpassed : z.after = (z.after.takeWhile isWhitespace ++
        (z.after.dropWhile isWhitespace).takeWhile notBlank) ++
          (z.after.dropWhile isWhitespace).dropWhile notBlank := by
      rw [append_assoc, takeWhile_append_dropWhile, takeWhile_append_dropWhile]
    exact hpast hpassed
  | lineStart => exact hback (beforeLine_append z)
  | lineEnd => exact hpast takeWhile_append_dropWhile.symm
  | up => exact hvertical _ (fun found hfound => ((up_row z).2 found hfound).1)
  | down => exact hvertical _ (fun found hfound => ((down_row z).2 found hfound).1)
  | _ => simp [Op.moves] at h

theorem deletion_span (op : Op) (h : op.deletes) :
    z.before = (z.step op).1.before ++ (z.span op).1 ∧
      z.after = (z.span op).2 ++ (z.step op).1.after := by
  cases op with
  | backspace => exact ⟨before_append_last z, rfl⟩
  | delete =>
    refine ⟨(append_nil _).symm, ?_⟩
    change z.after = z.after.head?.toList ++ z.after.tail
    cases z.after <;> rfl
  | killLineBefore => exact ⟨beforeLine_append z, rfl⟩
  | killWordBefore => exact ⟨beforeWord_append z, rfl⟩
  | _ => simp [Op.deletes] at h

theorem return_notMem_normalize (s : List Char) : '\r' ∉ normalize s := by
  rw [normalize]
  induction replace ['\r', '\n'] ['\n'] s with
  | nil => simp
  | cons c cs ih =>
    by_cases hc : c = '\r'
    · rw [hc]
      have hone := @replace_append Char _ ['\r'] ['\n'] (by simp) cs
      rw [singleton_append] at hone
      rw [hone]
      simpa using ih
    · rw [replace_cons (by simpa using Ne.symm hc)]
      simpa [Ne.symm hc] using ih

/-! ## Runs -/

theorem step_composer (op : Op) :
    z.composer.step op = some ((z.step op).1.composer, (z.step op).2) := by
  have hinsert : ∀ added : List Char, insertAt z.composer.text z.composer.cursor added =
      some (z.before ++ added ++ z.after) := insertAt_bytes z.before z.after
  have hchar : ∀ added : Char, z.composer.insertChar added =
      some (Zipper.composer ⟨z.before ++ [added], z.after⟩) := by
    intro added
    rw [insertChar, hinsert]
    simp [Zipper.composer]
  have hremove : ∀ {kept span}, z.before = kept ++ span →
      removeRange z.composer.text (bytes kept) z.composer.cursor = some (kept ++ z.after) :=
    fun h => removeRange_composer h
  cases op with
  | set text => simp [Composer.step, Composer.set, Zipper.step, Zipper.composer]
  | take => rfl
  | insertChar added =>
    rw [step, hchar]
    rfl
  | insertStr s =>
    rw [step, insertStr, hinsert]
    simp [quiet, Zipper.step, Zipper.composer]
  | newline =>
    rw [step, newline, hchar]
    rfl
  | backspace =>
    rw [step, backspace_composer]
    rfl
  | delete =>
    rw [step, delete_composer]
    rfl
  | left =>
    rw [step, left, prevBoundary_composer]
    change _ = some ((z.backTo z.before.dropLast).composer, Answer.done)
    rw [composer_backTo (before_append_last z)]
    rfl
  | right =>
    rw [step, right, nextBoundary_composer]
    change _ = some ((z.past (z.after.take 1)).composer, Answer.done)
    rw [composer_past (take_append_drop 1 z.after).symm]
    rfl
  | wordLeft =>
    rw [step, wordLeft_composer]
    rfl
  | wordRight =>
    rw [step, wordRight_composer]
    rfl
  | lineStart =>
    rw [step, lineStart, lineBounds_composer]
    change _ = some ((z.backTo z.beforeLine).composer, Answer.done)
    rw [composer_backTo (beforeLine_append z)]
    rfl
  | lineEnd =>
    rw [step, lineEnd, lineBounds_composer]
    change _ = some ((z.past (z.after.takeWhile notEnd)).composer, Answer.done)
    rw [composer_past takeWhile_append_dropWhile.symm]
    rfl
  | killLineBefore =>
    rw [step, killLineBefore, lineBounds_composer]
    change quiet ((removeRange _ (bytes z.beforeLine) _).bind _) = _
    rw [hremove (beforeLine_append z)]
    rfl
  | killWordBefore =>
    rw [step, killWordBefore, wordLeft_composer,
      composer_backTo (beforeWord_append z)]
    change quiet ((removeRange z.composer.text (bytes z.beforeWord) _).bind _) = _
    rw [hremove (beforeWord_append z)]
    rfl
  | up =>
    rw [step, up_composer]
    rfl
  | down =>
    rw [step, down_composer]
    rfl

theorem run_composer (ops : List Op) :
    z.composer.run ops = some ((z.run ops).1.composer, (z.run ops).2) := by
  induction ops generalizing z with
  | nil => rfl
  | cons op ops ih =>
    rw [Composer.run, step_composer]
    change ((z.step op).1.composer.run ops).bind _ = _
    rw [ih]
    rfl

/-- The composer refines the text zipper. -/
theorem composer_refines_zipper :
    (∀ ops : List Op, ∃ z : Zipper, ∃ c : Composer, ∃ answers : List Answer,
      Composer.fresh.run ops = some (c, answers) ∧ Zipper.run ⟨[], []⟩ ops = (z, answers) ∧
        c.text = z.before ++ z.after ∧ c.cursor = bytes z.before) ∧
    (∀ (z : Zipper) (op : Op), op.moves = true → (z.step op).1.text = z.text) ∧
    (∀ z : Zipper, (z.up = none ↔ z.row = 0) ∧
      ∀ z', z.up = some z' → z'.text = z.text ∧ z'.row + 1 = z.row ∧
        ∃ line, (z.text.splitOn '\n')[z'.row]? = some line ∧ z'.col = min z.col line.length) ∧
    (∀ z : Zipper, (z.down = none ↔ z.row + 1 = (z.text.splitOn '\n').length) ∧
      ∀ z', z.down = some z' → z'.text = z.text ∧ z'.row = z.row + 1 ∧
        ∃ line, (z.text.splitOn '\n')[z'.row]? = some line ∧ z'.col = min z.col line.length) ∧
    (∀ (z : Zipper) (op : Op), op.deletes = true →
      z.before = (z.step op).1.before ++ (z.span op).1 ∧
        z.after = (z.span op).2 ++ (z.step op).1.after) ∧
    ∀ s : List Char, '\r' ∉ normalize s := by
  refine ⟨fun ops => ?_, motion_text, up_row, down_row, deletion_span, return_notMem_normalize⟩
  exact ⟨_, _, _, run_composer ⟨[], []⟩ ops, rfl, rfl, rfl⟩

end Abbey.Tui
