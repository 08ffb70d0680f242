import Abbey.Learning.Excerpts
import Abbey.Lib.Offsets

/-!
# Sectioning and chunking lose nothing

The sections of a document are blocks of its lines (`Divides`), and its chunks
have its words in their order.  `sliced` is the loop of `chunks` with the byte
offsets of the source; a slice that is no boundary of characters has no value.
-/

namespace Abbey.Learning

open Abbey.Lib List Option Except
open Abbey.Run (isWhitespace)

variable {cs line body rest : List Char} {ls : List (List Char)}

/-! ## Without whitespace -/

def strip (cs : List Char) : List Char := cs.filter (fun c => !isWhitespace c)

theorem strip_append (cs ds : List Char) : strip (cs ++ ds) = strip cs ++ strip ds :=
  filter_append cs ds

theorem strip_blank (h : cs.all isWhitespace) : strip cs = [] := by
  rw [strip, filter_eq_nil_iff]
  intro c hc
  simp [all_eq_true.mp h c hc]

theorem strip_dropWhile (cs : List Char) : strip (cs.dropWhile isWhitespace) = strip cs := by
  have hblank : strip (cs.takeWhile isWhitespace) = [] :=
    strip_blank all_takeWhile
  calc strip (cs.dropWhile isWhitespace)
      = strip (cs.takeWhile isWhitespace) ++ strip (cs.dropWhile isWhitespace) := by
        rw [hblank, nil_append]
    _ = strip cs := by rw [← strip_append, takeWhile_append_dropWhile]

theorem strip_joinWords (cs : List Char) : strip (joinWords (words cs)) = strip cs := by
  induction cs using token_induction with
  | last word hword =>
    rw [words_word hword]
    by_cases hne : word = []
    · simp [hne, joinWords, intercalate]
    · rw [if_neg hne, joinWords_cons, if_pos rfl, append_nil]
  | step word c rest hword hc ih =>
    have hskip : strip (c :: rest) = strip rest := by simp [strip, hc]
    rw [words_step hword hc, strip_append, hskip, ← ih]
    by_cases hne : word = []
    · simp [hne, strip]
    · rw [if_neg hne, singleton_append, joinWords_cons, strip_append]
      by_cases hnil : words rest = []
      · simp [hnil, joinWords, intercalate]
      · have hspace : strip (' ' :: joinWords (words rest)) = strip (joinWords (words rest)) := rfl
        rw [if_neg hnil, hspace]

theorem strip_intercalate (ls : List (List Char)) :
    strip ([' '].intercalate ls) = strip ls.flatten := by
  induction ls with
  | nil => rfl
  | cons line rest ih =>
    rw [show [' '].intercalate (line :: rest) = joinWords (line :: rest) from rfl, joinWords_cons,
      flatten_cons, strip_append, strip_append, ← ih]
    by_cases hnil : rest = []
    · simp [hnil, intercalate]
    · rw [if_neg hnil]
      rfl

theorem strip_chomp (line : List Char) : strip (chomp line) = strip line := by
  have hdrop : ∀ {cs : List Char} {c : Char}, cs.getLast? = some c → isWhitespace c →
      strip cs.dropLast = strip cs := by
    intro cs c hlast hc
    obtain ⟨front, rfl⟩ := getLast?_eq_some_iff.mp hlast
    rw [dropLast_concat, strip_append, @strip_blank [c] (by simpa using hc), append_nil]
  unfold chomp
  split_ifs with hnewline hreturn
  · rw [hdrop hreturn (by decide), hdrop hnewline (by decide)]
  · exact hdrop hnewline (by decide)
  · rfl

theorem strip_lines (text : List Char) : strip (lines text).flatten = strip text := by
  have hpieces : ∀ pieces : List (List Char),
      strip (pieces.map chomp).flatten = strip pieces.flatten := by
    intro pieces
    induction pieces with
    | nil => rfl
    | cons piece rest ih =>
      rw [map_cons, flatten_cons, flatten_cons, strip_append, strip_append, strip_chomp, ih]
  rw [lines, hpieces, (splitInclusive_flatten _ text).1]

/-! ## Sections -/

/-- The text of a section. -/
def sectionText (body : List (List Char)) : List Char := joinWords (words ([' '].intercalate body))

theorem strip_sectionText (body : List (List Char)) :
    strip (sectionText body) = strip body.flatten := by
  rw [sectionText, strip_joinWords, strip_intercalate]

/-- The fence that is open after some lines. -/
def fenceAfter (ls : List (List Char)) : Option (Char × Nat) :=
  ls.foldl (fun fenced line =>
    match fence line with
    | some (marker, count) =>
      match fenced with
      | some (c, n) => if c = marker ∧ n ≤ count then none else fenced
      | none => some (marker, count)
    | none => fenced) none

/-- The blocks are some lines, and each but the first begins with a heading that
stands in no fence. -/
def Divides (ls : List (List Char)) (blocks : List (List (List Char))) : Prop :=
  blocks.flatten = ls ∧ ∀ before block after, blocks = before ++ block :: after → before ≠ [] →
    ∃ line more, block = line :: more ∧ (heading line).isSome = true ∧
      fenceAfter before.flatten = none

/-- Between two lines: the sections are those of some blocks, and the body is the
last block. -/
structure Scan.Read (ls : List (List Char)) (s : Scan) (blocks : List (List (List Char))) : Prop where
  divides : Divides ls (blocks ++ [s.body])
  fenced : s.fenced = fenceAfter ls
  result : s.result.map Prod.snd = (blocks.map sectionText).filter (fun part => part ≠ [])

theorem fenceAfter_concat (ls : List (List Char)) (line : List Char) :
    fenceAfter (ls ++ [line]) = match fence line with
      | some (marker, count) =>
        match fenceAfter ls with
        | some (c, n) => if c = marker ∧ n ≤ count then none else fenceAfter ls
        | none => some (marker, count)
      | none => fenceAfter ls := by
  rw [fenceAfter, foldl_append]
  rfl

variable {blocks : List (List (List Char))} {s t : Scan}

theorem Divides.extend (h : Divides ls (blocks ++ [block])) (line : List Char) :
    Divides (ls ++ [line]) (blocks ++ [block ++ [line]]) := by
  refine ⟨by rw [← h.1]; simp, fun before found after hsplit hne => ?_⟩
  rcases eq_nil_or_concat after with rfl | ⟨front, last, rfl⟩
  · obtain ⟨rfl, hfound⟩ := append_inj' hsplit rfl
    obtain ⟨first, more, rfl, hfirst⟩ := h.2 blocks block [] rfl hne
    refine ⟨first, more ++ [line], ?_, hfirst⟩
    rw [← cons.inj hfound |>.1]
    rfl
  · rw [concat_eq_append, ← cons_append, ← append_assoc] at hsplit
    obtain ⟨rfl, -⟩ := append_inj' hsplit rfl
    exact h.2 before found (front ++ [block]) (by simp) hne

theorem Divides.start (h : Divides ls blocks)
    (hheading : (heading line).isSome) (hfree : fenceAfter ls = none) :
    Divides (ls ++ [line]) (blocks ++ [[line]]) := by
  refine ⟨by rw [← h.1]; simp, fun before found after hsplit hne => ?_⟩
  rcases eq_nil_or_concat after with rfl | ⟨front, last, rfl⟩
  · obtain ⟨rfl, hfound⟩ := append_inj' hsplit rfl
    refine ⟨line, [], (cons.inj hfound).1.symm, hheading, ?_⟩
    rw [h.1]
    exact hfree
  · rw [concat_eq_append, ← cons_append, ← append_assoc] at hsplit
    obtain ⟨rfl, -⟩ := append_inj' hsplit rfl
    exact h.2 before found front rfl hne

theorem Scan.Read.flush_texts (h : s.Read ls blocks) : s.flush.map Prod.snd =
      ((blocks ++ [s.body]).map sectionText).filter (fun part => part ≠ []) := by
  rw [Scan.flush, map_append, filter_append, ← h.result]
  change (if sectionText s.body = [] then _ else _ : List _).map _ = _
  by_cases hnil : sectionText s.body = []
  · simp [hnil]
  · simp [hnil]
    rfl

/-- One line goes to the body, or it is a heading and begins a section. -/
theorem scanLine_read (h : s.Read ls blocks)
    (hstep : scanLine s line = .ok t) : ∃ blocks', t.Read (ls ++ [line]) blocks' := by
  unfold scanLine at hstep
  have hconcat := fenceAfter_concat ls line
  rw [← h.fenced] at hconcat
  cases hfence : fence line with
  | some found =>
    simp only [hfence, ok.injEq] at hstep hconcat
    subst hstep
    exact ⟨blocks, h.divides.extend line, hconcat.symm, h.result⟩
  | none =>
    simp only [hfence] at hstep hconcat
    cases hheading : (if s.fenced = none then heading line else none) with
    | none =>
      simp only [hheading, ok.injEq] at hstep
      subst hstep
      exact ⟨blocks, h.divides.extend line, hconcat.symm, h.result⟩
    | some found =>
      simp only [hheading, bind_ok_iff, ok.injEq] at hstep
      obtain ⟨_, _, rfl⟩ := hstep
      split_ifs at hheading with hfree
      rw [h.fenced] at hfree
      exact ⟨blocks ++ [s.body], h.divides.start (by rw [hheading]; rfl) hfree, hconcat.symm,
        h.flush_texts⟩

theorem foldlM_scanLine_read (more : List (List Char))
    (h : s.Read ls blocks) (hfold : more.foldlM scanLine s = .ok t) :
    ∃ blocks', t.Read (ls ++ more) blocks' := by
  induction more generalizing ls s blocks with
  | nil =>
    obtain rfl := ok.inj hfold
    exact ⟨blocks, by rwa [append_nil]⟩
  | cons line more ih =>
    rw [foldlM_cons, bind_ok_iff] at hfold
    obtain ⟨mid, hstep, hmore⟩ := hfold
    obtain ⟨blocks', hmid⟩ := scanLine_read h hstep
    obtain ⟨blocks'', ht⟩ := ih hmid hmore
    exact ⟨blocks'', by simpa using ht⟩

variable {parts : List (List Char × List Char)} {text : List Char} {markdown : Bool}

/-- The sections of a markdown text are the blocks of its lines that are not blank. -/
theorem sections_blocks
    (h : sections text true = .ok parts) : ∃ blocks, Divides (lines text) blocks ∧
      parts.map Prod.snd = (blocks.map sectionText).filter (fun part => part ≠ []) := by
  simp only [sections, if_true, bind_ok_iff, ok.injEq] at h
  obtain ⟨s, hfold, rfl⟩ := h
  have hempty : Scan.Read [] ⟨none, [], [], [], []⟩ [] := by
    refine ⟨⟨rfl, fun before block after hsplit hne => ?_⟩, rfl, rfl⟩
    have hlength := congrArg length hsplit
    have hpos := length_pos_iff.mpr hne
    simp at hlength
    omega
  obtain ⟨blocks, hs⟩ := foldlM_scanLine_read (lines text) hempty hfold
  exact ⟨_, hs.divides, hs.flush_texts⟩

theorem strip_sections (h : sections text markdown = .ok parts) :
    strip (parts.map Prod.snd).flatten = strip text := by
  cases markdown with
  | false =>
    obtain rfl := ok.inj h
    simp [strip_joinWords]
  | true =>
    obtain ⟨blocks, hdivides, hparts⟩ := sections_blocks h
    have hall : ∀ blocks : List (List (List Char)),
        strip ((blocks.map sectionText).filter (fun part => part ≠ [])).flatten =
          strip blocks.flatten.flatten := by
      intro blocks
      induction blocks with
      | nil => rfl
      | cons block rest ih =>
        rw [flatten_cons, flatten_append, strip_append, ← ih, ← strip_sectionText block, map_cons]
        by_cases hnil : sectionText block = []
        · rw [hnil, filter_cons_of_neg (by simp)]
          rfl
        · rw [filter_cons_of_pos (by simpa using hnil), flatten_cons, strip_append]
    rw [hparts, hall, hdivides.1, strip_lines]

/-- Only the length of a heading path is refused. -/
theorem sections_error
    (h : sections text markdown = .error e) : e = .bail "heading path bound exceeded" := by
  have hline : ∀ {s line}, scanLine s line = .error e → e = .bail "heading path bound exceeded" := by
    intro s line hstep
    unfold scanLine at hstep
    split at hstep
    · cases hstep
    · split at hstep
      · simp only [bind_error_iff, ensure_eq_error, reduceCtorEq, and_false, exists_false,
          or_false] at hstep
        exact hstep.2
      · cases hstep
  have hlines : ∀ ls s, foldlM scanLine s ls = .error e →
      e = .bail "heading path bound exceeded" := by
    intro ls
    induction ls with
    | nil =>
      intro s hfold
      cases hfold
    | cons line ls ih =>
      intro s hfold
      rw [foldlM_cons, bind_error_iff] at hfold
      rcases hfold with hstep | ⟨mid, _, hrest⟩
      · exact hline hstep
      · exact ih mid hrest
  cases markdown with
  | false => cases h
  | true =>
    simp only [sections, if_true, bind_error_iff, reduceCtorEq, and_false, exists_false,
      or_false] at h
    exact hlines _ _ h

/-! ## Chunks -/

/-- Where the next chunk ends, in bytes. -/
def chunkOffset (rest : List Char) : Option Nat :=
  let stop := offsetOf rest 400
  if stop < bytes rest then do
    let midpoint := ((charIndices rest)[200]?).elim 0 Prod.fst
    let (front, _) ← splitAt rest stop
    match rfind (fun c => c = ' ') front with
    | some index => if midpoint ≤ index then some index else some stop
    | none => some stop
  else some stop

/-- `chunks` with its slices; without enough `fuel` there is no value either. -/
def slicedLoop : Nat → List Char → Option (List (List Char))
  | 0, rest => if rest = [] then some [] else none
  | fuel + 1, rest =>
    if rest = [] then some []
    else do
      let (chunk, later) ← splitAt rest (← chunkOffset rest)
      let more ← slicedLoop fuel (later.dropWhile isWhitespace)
      some (chunk :: more)

def sliced (text : List Char) : Option (List (List Char)) := slicedLoop text.length text

theorem bytes_take_lt {n : Nat} (h : n < cs.length) : bytes (cs.take n) < bytes cs := by
  have hdrop : cs.drop n ≠ [] := by simpa using h
  have hlow := length_le_bytes (cs.drop n)
  have hpos := length_pos_iff.mpr hdrop
  have hsum : bytes (cs.take n) + bytes (cs.drop n) = bytes cs := by
    rw [← bytes_append, take_append_drop]
  omega

theorem bytes_take_mono (h : m ≤ n) (cs : List Char) : bytes (cs.take m) ≤ bytes (cs.take n) := by
  rw [← Nat.min_eq_left h, ← take_take]
  rcases Nat.lt_or_ge m (cs.take n).length with hlt | hge
  · exact (bytes_take_lt hlt).le
  · rw [take_of_length_le hge]

/-- The last space of a text is where its reverse has the first one. -/
theorem findIdx_reverse {before after : List Char} (hafter : ∀ c ∈ after, decide (c = ' ') =
    false) :
    (before ++ ' ' :: after).reverse.findIdx? (fun c => c = ' ') = some after.length := by
  have hnone : after.reverse.findIdx? (fun c => c = ' ') = none := by
    rw [findIdx?_eq_none_iff]
    exact fun c hc => hafter c (mem_reverse.mp hc)
  rw [reverse_append, reverse_cons, append_assoc, findIdx?_append, hnone]
  simp [findIdx?_cons]

/-- The two ways a long text is cut. -/
theorem chunkEnd_long (h : 400 < cs.length) :
    ((∀ c ∈ cs.take 400, decide (c = ' ') = false) ∧ chunkEnd cs = 400) ∨
      ∃ before after, cs.take 400 = before ++ ' ' :: after ∧
        (∀ c ∈ after, decide (c = ' ') = false) ∧
        chunkEnd cs = if 200 ≤ before.length then before.length else 400 := by
  unfold chunkEnd
  rw [if_pos h]
  rcases divides_last (fun c => decide (c = ' ')) (cs.take 400) with
    hnone | ⟨before, c, after, hsplit, hafter, hc⟩
  · left
    refine ⟨hnone, ?_⟩
    have hidx : (cs.take 400).reverse.findIdx? (fun c => c = ' ') = none := by
      rw [findIdx?_eq_none_iff]
      exact fun c hc => hnone c (mem_reverse.mp hc)
    rw [hidx]
  · right
    obtain rfl : c = ' ' := by simpa using hc
    have hlength := congrArg length hsplit
    rw [length_take, length_append, length_cons] at hlength
    refine ⟨before, after, hsplit, hafter, ?_⟩
    rw [hsplit, findIdx_reverse hafter]
    dsimp only
    rw [show 399 - after.length = before.length by omega]

theorem splitAt_take (cs : List Char) (n : Nat) :
    splitAt cs (bytes (cs.take n)) = some (cs.take n, cs.drop n) := by
  have h := splitAt_bytes (cs.take n) (cs.drop n)
  rwa [take_append_drop] at h

theorem chunkOffset_eq (cs : List Char) : chunkOffset cs = some (bytes (cs.take (chunkEnd cs))) :=
    by
  unfold chunkOffset
  dsimp only
  rw [offsetOf_eq]
  by_cases hlong : 400 < cs.length
  · have hmid : ((charIndices cs)[200]?).elim 0 Prod.fst = bytes (cs.take 200) := by
      have hoffset := offsetOf_eq cs 200
      unfold offsetOf at hoffset
      cases hentry : (charIndices cs)[200]? with
      | some entry =>
        rw [hentry] at hoffset
        exact hoffset
      | none =>
        rw [hentry] at hoffset
        have hlt := @bytes_take_lt cs 200 (by omega)
        exact absurd hoffset (by simp; omega)
    rw [if_pos (bytes_take_lt hlong), splitAt_take, hmid]
    dsimp only [bind_eq_bind, bind_some]
    rcases chunkEnd_long hlong with ⟨hnone, hend⟩ | ⟨before, after, hsplit, hafter, hend⟩
    · rw [rfind_none hnone, hend]
    · have hbefore : before = cs.take before.length := by
        have hpre : before <+: cs := (prefix_append _ _).trans
          (hsplit ▸ List.take_prefix 400 cs)
        exact prefix_iff_eq_take.mp hpre
      rw [hend, hsplit, rfind_last before (by simp) hafter]
      dsimp only
      by_cases hlate : 200 ≤ before.length
      · have hle := bytes_take_mono hlate cs
        rw [← hbefore] at hle
        rw [if_pos hle, if_pos hlate, ← hbefore]
      · have hlt : bytes before < bytes (cs.take 200) := by
          have htake : before = (cs.take 200).take before.length := by
            rw [take_take, Nat.min_eq_left (by omega), ← hbefore]
          rw [htake]
          exact bytes_take_lt (by rw [length_take]; omega)
        rw [if_neg (by omega), if_neg hlate, hsplit]
  · have hwhole : cs.take 400 = cs := take_of_length_le (by omega)
    rw [hwhole, if_neg (by omega), chunkEnd, if_neg hlong, take_length]

theorem slicedLoop_eq (fuel : Nat) (h : cs.length ≤ fuel) :
    slicedLoop fuel cs = some (chunks cs) := by
  induction fuel generalizing cs with
  | zero =>
    obtain rfl := length_eq_zero_iff.mp (Nat.le_zero.mp h)
    rfl
  | succ fuel ih =>
    unfold slicedLoop
    by_cases hne : cs = []
    · rw [if_pos hne, hne]
      rfl
    · have hend := (chunkEnd_bounds hne).1
      have hlater := (dropWhile_sublist isWhitespace (l := cs.drop (chunkEnd cs))).length_le
      rw [length_drop] at hlater
      rw [if_neg hne, chunkOffset_eq, bind_eq_bind, bind_some, splitAt_take]
      dsimp only [bind_eq_bind, bind_some]
      rw [ih (by omega), chunks_eq hne]
      rfl

/-- A chunk is the first one of what was left. -/
theorem chunks_rest {before after : List (List Char)} (h : chunks cs = before ++ chunk :: after) :
    ∃ rest, rest <:+ cs ∧ rest ≠ [] ∧ chunk = rest.take (chunkEnd rest) := by
  induction before generalizing cs with
  | nil =>
    have hne : cs ≠ [] := fun hnil => by simp [hnil, chunks_nil] at h
    rw [chunks_eq hne] at h
    exact ⟨cs, suffix_rfl, hne, (cons.inj h).1.symm⟩
  | cons first before ih =>
    have hne : cs ≠ [] := fun hnil => by simp [hnil, chunks_nil] at h
    rw [chunks_eq hne] at h
    obtain ⟨rest, hrest, hfound⟩ := ih (cons.inj h).2
    exact ⟨rest, hrest.trans ((dropWhile_suffix _).trans (drop_suffix _ _)), hfound⟩

theorem strip_chunks (cs : List Char) : strip (chunks cs).flatten = strip cs := by
  induction hn : cs.length using Nat.strong_induction_on generalizing cs with
  | _ n ih =>
    by_cases hne : cs = []
    · rw [hne]
      rfl
    · have hend := (chunkEnd_bounds hne).1
      have hpos := length_pos_iff.mpr hne
      have hlater := (dropWhile_sublist isWhitespace (l := cs.drop (chunkEnd cs))).length_le
      rw [length_drop] at hlater
      rw [chunks_eq hne, flatten_cons, strip_append, ih _ (by omega) _ rfl, strip_dropWhile,
        ← strip_append, take_append_drop]

/-- A text with a space in the second half of its first 400 characters is cut at one. -/
theorem cut_at_space (hlong : 400 < cs.length) (hlow : 200 ≤ i) (hhigh : i < 400)
    (hspace : cs[i]? = some ' ') : 200 ≤ chunkEnd cs ∧ cs[chunkEnd cs]? = some ' ' := by
  have htake : (cs.take 400)[i]? = some ' ' := by rw [getElem?_take_of_lt hhigh, hspace]
  rcases chunkEnd_long hlong with ⟨hnone, _⟩ | ⟨before, after, hsplit, hafter, hend⟩
  · exact absurd (hnone ' ' (mem_of_getElem? htake)) (by decide)
  · have hlength := congrArg length hsplit
    rw [length_take, length_append, length_cons] at hlength
    have hplace : i ≤ before.length := by
      by_contra hover
      obtain ⟨k, rfl⟩ : ∃ k, i = before.length + 1 + k := ⟨i - before.length - 1, by omega⟩
      rw [hsplit, getElem?_append_right (by omega)] at htake
      rw [show before.length + 1 + k - before.length = k + 1 by omega, getElem?_cons_succ]
        at htake
      exact absurd (hafter ' ' (mem_of_getElem? htake)) (by decide)
    rw [hend, if_pos (by omega)]
    refine ⟨by omega, ?_⟩
    rw [← getElem?_take_of_lt (show before.length < 400 by omega), hsplit,
      getElem?_append_right (le_refl _), Nat.sub_self]
    rfl

/-! ## Together -/

/-- The excerpts of a document have its characters in their order, blanks apart; its
sections are the blocks between headings outside of fences; and every body is cut
into short pieces at boundaries of characters, at a space where there is one. -/
theorem nothing_lost :
    (∀ text markdown parts, sections text markdown = .ok parts →
      strip (parts.flatMap (fun part => chunks part.2)).flatten = strip text) ∧
    (∀ text markdown e, sections text markdown = .error e →
      e = .bail "heading path bound exceeded") ∧
    (∀ text parts, sections text true = .ok parts → ∃ blocks, Divides (lines text) blocks ∧
      parts.map Prod.snd = (blocks.map sectionText).filter (fun part => part ≠ [])) ∧
    ∀ body, sliced body = some (chunks body) ∧
      ∀ before chunk after, chunks body = before ++ chunk :: after →
        chunk ≠ [] ∧ chunk.length ≤ 400 ∧ ∃ rest, rest <:+ body ∧ chunk <+: rest ∧
          (400 < rest.length → (∃ i, 200 ≤ i ∧ i < 400 ∧ rest[i]? = some ' ') →
            200 ≤ chunk.length ∧ rest[chunk.length]? = some ' ') := by
  refine ⟨fun text markdown parts h => ?_, fun _ _ _ h => sections_error h,
    fun _ _ h => sections_blocks h, fun body => ⟨slicedLoop_eq _ le_rfl, ?_⟩⟩
  · have hall : ∀ parts : List (List Char × List Char),
        strip (parts.flatMap (fun part => chunks part.2)).flatten =
          strip (parts.map Prod.snd).flatten := by
      intro parts
      induction parts with
      | nil => rfl
      | cons part rest ih =>
        rw [flatMap_cons, flatten_append, strip_append, strip_chunks, ih, map_cons,
          flatten_cons, strip_append]
    rw [hall, strip_sections h]
  · intro before chunk after h
    obtain ⟨rest, hrest, hne, rfl⟩ := chunks_rest h
    obtain ⟨hone, hend⟩ := chunkEnd_bounds hne
    have hpos := length_pos_iff.mpr hne
    refine ⟨?_, by rw [length_take]; omega, rest, hrest, List.take_prefix _ _, ?_⟩
    · rw [← length_pos_iff, length_take]
      omega
    · rintro hlong ⟨i, hlow, hhigh, hspace⟩
      rw [length_take, Nat.min_eq_left (by omega)]
      exact cut_at_space hlong hlow hhigh hspace

theorem nothing_lost_sample :
    sections "intro\n# A\nx".toList true =
      .ok [([], "intro".toList), ("A".toList, "# A x".toList)] ∧
    strip ("intro".toList ++ "# A x".toList) = strip "intro\n# A\nx".toList := by
  have hread : sections "intro\n# A\nx".toList true =
      .ok [([], "intro".toList), ("A".toList, "# A x".toList)] := by decide
  exact ⟨hread, nothing_lost.1 _ _ _ hread⟩

end Abbey.Learning
