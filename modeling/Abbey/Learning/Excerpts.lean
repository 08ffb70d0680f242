import Abbey.Learning.Collect
import Abbey.Learning.Splits

/-!
# Excerpts

What `sections`, `chunks` and `redact` do to a text: a section has a
bounded path and a text that is not blank, a chunk is short and starts with
no blank, and redaction makes a text at most seven times as long.  So the
rows that `collect` writes pass every check of one row, also after
redaction (`checked_row`).
-/

namespace Abbey.Learning

open Abbey.Lib List
open Abbey.Conversation (Sha256 utf8 lowerHex)
open Abbey.Run (isWhitespace)

variable {c : Char}

/-! ## Words -/

section Words

variable {cs word : List Char}

def NoBlank (word : List Char) : Prop := ∀ c ∈ word, isWhitespace c = false

/-- A text is a word, or a word, a blank and a text. -/
theorem token_induction {P : List Char → Prop} (last : ∀ word, NoBlank word → P word)
    (step : ∀ word c rest, NoBlank word → isWhitespace c → P rest → P (word ++ c :: rest))
    (cs : List Char) : P cs := by
  have hword : ∀ cs, ∀ word, NoBlank word → P (word ++ cs) := by
    intro cs
    induction cs with
    | nil =>
      intro word hword
      rw [append_nil]
      exact last word hword
    | cons c cs ih =>
      intro word hword
      by_cases hc : isWhitespace c
      · exact step word c cs hword hc (ih [] (by simp [NoBlank]))
      · have hsnoc : NoBlank (word ++ [c]) := by
          intro d hd
          rcases mem_append.mp hd with hleft | hright
          · exact hword d hleft
          · rw [mem_singleton.mp hright]
            simpa using hc
        have h := ih (word ++ [c]) hsnoc
        rw [append_assoc, singleton_append] at h
        exact h
  exact hword cs [] (by simp [NoBlank])

theorem splitInclusive_word (h : NoBlank word) (hne : word ≠ []) :
    splitInclusive isWhitespace word = [word] := by
  induction word with
  | nil => exact absurd rfl hne
  | cons c cs ih =>
    have hc := h c mem_cons_self
    have hcs : NoBlank cs := fun d hd => h d (mem_cons_of_mem c hd)
    by_cases hnil : cs = []
    · simp [splitInclusive, hc, hnil]
    · rw [splitInclusive, if_neg (by simp [hc]), ih hcs hnil]

theorem splitInclusive_step (h : NoBlank word) (hc : isWhitespace c) (rest : List Char) :
    splitInclusive isWhitespace (word ++ c :: rest) =
      (word ++ [c]) :: splitInclusive isWhitespace rest := by
  induction word with
  | nil => simp [splitInclusive, hc]
  | cons d ds ih =>
    have hd := h d mem_cons_self
    rw [cons_append, splitInclusive, if_neg (by simp [hd]),
      ih (fun e he => h e (mem_cons_of_mem d he))]
    rfl

/-- One word of `redact` without its blank. -/
def redactToken (word : List Char) : List Char :=
  if isAbsolutePath word then "[path]".toList else word

def redactChars (cs : List Char) : List Char := (splitInclusive isWhitespace cs).flatMap redactWord

theorem dropWhile_reverse (h : NoBlank word) : word.reverse.dropWhile isWhitespace = word.reverse := by
  cases hreverse : word.reverse with
  | nil => rfl
  | cons c cs =>
    have hmem : c ∈ word := mem_reverse.mp (hreverse ▸ mem_cons_self)
    rw [dropWhile_cons_of_neg (by simp [h c hmem])]

theorem redactChars_word (h : NoBlank word) : redactChars word = redactToken word := by
  by_cases hne : word = []
  · rw [hne]
    rfl
  · unfold redactChars redactToken redactWord
    rw [splitInclusive_word h hne]
    simp [dropWhile_reverse h]

theorem redactChars_step (h : NoBlank word) (hc : isWhitespace c) (rest : List Char) :
    redactChars (word ++ c :: rest) = redactToken word ++ c :: redactChars rest := by
  unfold redactChars redactToken redactWord
  rw [splitInclusive_step h hc, flatMap_cons, reverse_append, reverse_singleton,
    singleton_append, dropWhile_cons_of_pos hc, dropWhile_reverse h, reverse_reverse]
  by_cases hpath : isAbsolutePath word
  · simp [hpath]
  · simp [hpath]

theorem redact_eq (crates : Crates) (text : String) :
    redact crates text = String.ofList (redactChars (crates.secrets text).toList) := rfl

theorem redactToken_cases (word : List Char) :
    redactToken word = word ∨ word ≠ [] ∧ redactToken word = "[path]".toList := by
  unfold redactToken
  by_cases hpath : isAbsolutePath word
  · rw [if_pos hpath]
    refine .inr ⟨?_, rfl⟩
    intro hnil
    rw [hnil] at hpath
    exact absurd hpath (by decide)
  · rw [if_neg hpath]
    exact .inl rfl

/-- Redaction of paths makes a text at most three and a half times as long. -/
theorem bytes_redactChars (cs : List Char) : 2 * bytes (redactChars cs) ≤ 7 * bytes cs + 5 := by
  have hpath : bytes "[path]".toList = 6 := by decide
  have hpos : ∀ word : List Char, word ≠ [] → 1 ≤ bytes word := by
    intro word hne
    by_contra hzero
    exact hne (eq_nil_of_bytes_eq_zero (by omega))
  induction cs using token_induction with
  | last word hword =>
    rw [redactChars_word hword]
    rcases redactToken_cases word with heq | ⟨hne, heq⟩
    · rw [heq]
      omega
    · have hlength := hpos word hne
      rw [heq, hpath]
      omega
  | step word c rest hword hc ih =>
    have hchar := c.utf8Size_pos
    rw [redactChars_step hword hc, bytes_append, bytes_append, bytes_cons, bytes_cons]
    rcases redactToken_cases word with heq | ⟨hne, heq⟩
    · rw [heq]
      omega
    · have hlength := hpos word hne
      rw [heq, hpath]
      omega

theorem nul_notMem_redactChars (h : '\x00' ∉ cs) : '\x00' ∉ redactChars cs := by
  have htoken : ∀ word : List Char, '\x00' ∉ word → '\x00' ∉ redactToken word := by
    intro word hword
    rcases redactToken_cases word with heq | ⟨_, heq⟩
    · rw [heq]
      exact hword
    · rw [heq]
      decide
  induction cs using token_induction with
  | last word hword =>
    rw [redactChars_word hword]
    exact htoken word h
  | step word c rest hword hc ih =>
    rw [redactChars_step hword hc]
    simp only [mem_append, mem_cons, not_or] at h ⊢
    exact ⟨htoken word h.1, h.2.1, ih h.2.2⟩

theorem nonblank_redactChars (h : cs.all isWhitespace = false) :
    (redactChars cs).all isWhitespace = false := by
  have htoken : ∀ word : List Char, NoBlank word → word ≠ [] →
      (redactToken word).all isWhitespace = false := by
    intro word hword hne
    rcases redactToken_cases word with heq | ⟨_, heq⟩
    · rw [heq]
      cases word with
      | nil => exact absurd rfl hne
      | cons c cs => simp [hword c mem_cons_self]
    · rw [heq]
      decide
  induction cs using token_induction with
  | last word hword =>
    rw [redactChars_word hword]
    refine htoken word hword ?_
    rintro rfl
    exact absurd h (by decide)
  | step word c rest hword hc ih =>
    rw [redactChars_step hword hc, all_append]
    by_cases hne : word = []
    · subst hne
      simp only [nil_append, all_cons, hc, Bool.true_and] at h ⊢
      rw [ih h, Bool.and_false]
    · rw [htoken word hword hne, Bool.false_and]

/-- The first character of a text is not blank. -/
def Starts (cs : List Char) : Prop := ∃ c rest, cs = c :: rest ∧ isWhitespace c = false

theorem words_word (h : NoBlank word) : words word = if word = [] then [] else [word] := by
  have hsplit : word.splitOnP isWhitespace = [word] :=
    splitOnP_eq_singleton h
  unfold words
  rw [hsplit]
  by_cases hne : word = []
  · simp [hne]
  · simp [hne]

theorem words_step (h : NoBlank word) (hc : isWhitespace c) (rest : List Char) :
    words (word ++ c :: rest) = (if word = [] then [] else [word]) ++ words rest := by
  have hsplit := splitOnP_append_cons_of_forall_mem h c hc rest
  unfold words
  rw [hsplit]
  by_cases hne : word = []
  · simp [hne]
  · simp [hne]

theorem joinWords_cons (w : List Char) (ws : List (List Char)) :
    joinWords (w :: ws) = w ++ (if ws = [] then [] else ' ' :: joinWords ws) := by
  unfold joinWords
  cases ws with
  | nil => simp [intercalate]
  | cons v vs => simp [intercalate, intersperse]

/-- The words of a text: none is empty, and put together they start with no
blank, are no longer than the text and have no new character but spaces. -/
theorem joinWords_words (cs : List Char) :
    (words cs ≠ [] → Starts (joinWords (words cs))) ∧ (joinWords (words cs)).length ≤ cs.length ∧
      ∀ c ∈ joinWords (words cs), c = ' ' ∨ c ∈ cs := by
  have hstarts : ∀ word ws, NoBlank word → word ≠ [] → Starts (joinWords (word :: ws)) := by
    intro word ws hword hne
    cases word with
    | nil => exact absurd rfl hne
    | cons c cs =>
      rw [joinWords_cons]
      exact ⟨c, _, rfl, hword c mem_cons_self⟩
  induction cs using token_induction with
  | last word hword =>
    rw [words_word hword]
    by_cases hne : word = []
    · simp [hne, joinWords, intercalate]
    · rw [if_neg hne]
      refine ⟨fun _ => hstarts word [] hword hne, ?_⟩
      rw [joinWords_cons, if_pos rfl, append_nil]
      exact ⟨le_refl _, fun c hc => .inr hc⟩
  | step word c rest hword hc ih =>
    obtain ⟨ihstarts, ihlength, ihmem⟩ := ih
    rw [words_step hword hc]
    by_cases hne : word = []
    · subst hne
      simp only [if_pos, nil_append, length_cons]
      refine ⟨ihstarts, by omega, ?_⟩
      intro d hd
      rcases ihmem d hd with rfl | hrest
      · exact .inl rfl
      · exact .inr (mem_cons_of_mem c hrest)
    · rw [if_neg hne, singleton_append]
      refine ⟨fun _ => hstarts word _ hword hne, ?_⟩
      rw [joinWords_cons]
      by_cases hnil : words rest = []
      · rw [if_pos hnil, append_nil]
        refine ⟨by simp, fun d hd => .inr (mem_append_left _ hd)⟩
      · rw [if_neg hnil]
        refine ⟨?_, ?_⟩
        · simp only [length_append, length_cons]
          omega
        · intro d hd
          simp only [mem_append, mem_cons] at hd ⊢
          rcases hd with hleft | rfl | hright
          · exact .inr (.inl hleft)
          · exact .inl rfl
          · rcases ihmem d hright with rfl | hrest
            · exact .inl rfl
            · exact .inr (.inr (.inr hrest))

theorem all_blank_of_words_nil (h : words cs = []) : cs.all isWhitespace := by
  induction cs using token_induction with
  | last word hword =>
    rw [words_word hword] at h
    split_ifs at h with hne
    rw [hne]
    rfl
  | step word c rest hword hc ih =>
    rw [words_step hword hc] at h
    by_cases hne : word = []
    · rw [if_pos hne, nil_append] at h
      simp [hne, hc, ih h]
    · rw [if_neg hne] at h
      simp at h

end Words

/-! ## Sections -/

section Sections

variable {n : Nat} {s t : Scan} {line text : List Char}

/-- What every section of a document without NUL is. -/
structure PartOk (n : Nat) (part : List Char × List Char) : Prop where
  pathBound : bytes part.1 ≤ 4096
  pathPlain : '\x00' ∉ part.1
  starts : Starts part.2
  plain : '\x00' ∉ part.2
  short : part.2.length ≤ n

/-- What `sections` has between two lines. -/
structure Scan.Ok (n : Nat) (s : Scan) : Prop where
  currentBound : bytes s.current ≤ 4096
  currentPlain : '\x00' ∉ s.current
  titles : ∀ entry ∈ s.stack, '\x00' ∉ entry.2
  body : ∀ line ∈ s.body, '\x00' ∉ line
  result : ∀ part ∈ s.result, PartOk n part

/-- The characters of some lines and one more for each. -/
def weight (lines : List (List Char)) : Nat := (lines.map (fun line => line.length + 1)).sum

theorem length_intercalate_le (sep : Char) (lines : List (List Char)) :
    ([sep].intercalate lines).length ≤ weight lines := by
  induction lines with
  | nil => simp [intercalate, weight]
  | cons line rest ih =>
    cases rest with
    | nil => simp [intercalate, weight]
    | cons next more =>
      simp only [intercalate, intersperse, flatten_cons, length_append, weight,
        map_cons, sum_cons, length_singleton] at ih ⊢
      omega

theorem mem_intercalate {sep : List Char} {lines : List (List Char)}
    (h : c ∈ sep.intercalate lines) : c ∈ sep ∨ ∃ line ∈ lines, c ∈ line := by
  induction lines with
  | nil => simp [intercalate] at h
  | cons line rest ih =>
    cases rest with
    | nil =>
      simp only [intercalate, intersperse_singleton, flatten_cons, flatten_nil, append_nil] at h
      exact .inr ⟨line, mem_cons_self, h⟩
    | cons next more =>
      simp only [intercalate, intersperse_cons_cons, flatten_cons, mem_append] at h ih
      rcases h with hline | hsep | hrest
      · exact .inr ⟨line, mem_cons_self, hline⟩
      · exact .inl hsep
      · rcases ih hrest with hsep | ⟨l, hl, hc⟩
        · exact .inl hsep
        · exact .inr ⟨l, mem_cons_of_mem line hl, hc⟩

theorem Scan.flush_ok (h : s.Ok n) (hweight : weight s.body ≤ n) : ∀ part ∈ s.flush, PartOk n part := by
  obtain ⟨hstarts, hlength, hmem⟩ := joinWords_words ([' '].intercalate s.body)
  have hbody := length_intercalate_le ' ' s.body
  intro part hpart
  unfold Scan.flush at hpart
  by_cases hnil : joinWords (words ([' '].intercalate s.body)) = []
  · rw [if_pos hnil] at hpart
    exact h.result part hpart
  · rw [if_neg hnil] at hpart
    rcases mem_append.mp hpart with hold | hnew
    · exact h.result part hold
    · rw [mem_singleton.mp hnew]
      refine ⟨h.currentBound, h.currentPlain, hstarts ?_, ?_, (hlength.trans hbody).trans hweight⟩
      · intro hwords
        rw [hwords] at hnil
        exact hnil rfl
      · intro hnul
        rcases hmem _ hnul with hspace | hin
        · exact absurd hspace (by decide)
        · rcases mem_intercalate hin with hsep | ⟨line, hline, hc⟩
          · exact absurd hsep (by decide)
          · exact h.body line hline hc

theorem lazyTitle_subset (cs : List Char) : lazyTitle cs ⊆ cs := by
  induction cs with
  | nil => exact List.Subset.refl _
  | cons c cs ih =>
    unfold lazyTitle
    by_cases hclosing : isClosing cs
    · rw [if_pos hclosing]
      intro d hd
      rw [mem_singleton.mp hd]
      exact mem_cons_self
    · rw [if_neg hclosing]
      exact cons_subset_cons c ih

theorem heading_subset {depth : Nat} (h : heading line = some (depth, text)) : text ⊆ line := by
  unfold heading unindent at h
  simp only [Option.bind_eq_bind, Option.bind_eq_some_iff] at h
  obtain ⟨rest, hrest, _, _, h⟩ := h
  have hline : rest ⊆ line := by
    split_ifs at hrest
    rw [← Option.some.inj hrest]
    exact (dropWhile_sublist _).subset
  have hafter : rest.dropWhile (fun c => c = '#') ⊆ line :=
    fun c hc => hline ((dropWhile_sublist _).subset hc)
  split_ifs at h with htext
  · simp only [Option.bind_eq_some_iff, Option.some.injEq, Prod.mk.injEq] at h
    obtain ⟨_, _, _, rfl⟩ := h
    exact fun c hc => hafter ((takeWhile_sublist _).subset (mem_of_mem_drop hc))
  · simp only [Option.some.injEq, Prod.mk.injEq] at h
    obtain ⟨_, rfl⟩ := h
    exact fun c hc => hafter ((dropWhile_sublist _).subset (lazyTitle_subset _ hc))

theorem weight_append (a b : List (List Char)) : weight (a ++ b) = weight a + weight b := by
  simp [weight]

/-- One line. -/
theorem scanLine_ok (h : s.Ok n) (hweight : weight s.body ≤ n) (hline : '\x00' ∉ line)
    (hstep : scanLine s line = .ok t) :
    t.Ok n ∧ weight t.body ≤ weight s.body + (line.length + 1) := by
  have hsnoc : ∀ l ∈ s.body ++ [line], '\x00' ∉ l := by
    intro l hl
    rcases mem_append.mp hl with hold | hnew
    · exact h.body l hold
    · rw [mem_singleton.mp hnew]
      exact hline
  have hadded : weight (s.body ++ [line]) ≤ weight s.body + (line.length + 1) := by
    rw [weight_append]
    simp [weight]
  unfold scanLine at hstep
  cases hfence : fence line with
  | some found =>
    simp only [hfence, Except.ok.injEq] at hstep
    subst hstep
    exact ⟨⟨h.currentBound, h.currentPlain, h.titles, hsnoc, h.result⟩, hadded⟩
  | none =>
    simp only [hfence] at hstep
    cases hheading : (if s.fenced = none then heading line else none) with
    | none =>
      simp only [hheading, Except.ok.injEq] at hstep
      subst hstep
      exact ⟨⟨h.currentBound, h.currentPlain, h.titles, hsnoc, h.result⟩, hadded⟩
    | some found =>
      obtain ⟨depth, text⟩ := found
      simp only [hheading, bind_ok_iff, ensure_eq_ok, decide_eq_true_eq, Except.ok.injEq] at hstep
      obtain ⟨_, hbound, rfl⟩ := hstep
      have htext : text ⊆ line := by
        split_ifs at hheading
        exact heading_subset hheading
      have htitle : '\x00' ∉ joinWords (words text) := by
        intro hnul
        rcases (joinWords_words text).2.2 _ hnul with hspace | hin
        · exact absurd hspace (by decide)
        · exact hline (htext hin)
      have hstack : ∀ entry ∈ s.stack.filter (fun entry => entry.1 < depth) ++
          [(depth, joinWords (words text))], '\x00' ∉ entry.2 := by
        intro entry hentry
        rcases mem_append.mp hentry with hold | hnew
        · exact h.titles entry (mem_of_mem_filter hold)
        · rw [mem_singleton.mp hnew]
          exact htitle
      refine ⟨⟨hbound, ?_, hstack, ?_, s.flush_ok h hweight⟩, ?_⟩
      · intro hnul
        rcases mem_intercalate hnul with hsep | ⟨title, hmem, hc⟩
        · exact absurd hsep (by decide)
        · obtain ⟨entry, hentry, rfl⟩ := mem_map.mp hmem
          exact hstack entry hentry hc
      · intro l hl
        rw [mem_singleton.mp hl]
        exact hline
      · simp [weight]

theorem foldlM_scanLine_ok (lines : List (List Char)) (h : s.Ok n) (hweight : weight s.body + weight lines ≤ n)
    (hlines : ∀ line ∈ lines, '\x00' ∉ line) (hfold : lines.foldlM scanLine s = .ok t) :
    t.Ok n ∧ weight t.body ≤ n := by
  induction lines generalizing s with
  | nil =>
    obtain rfl := Except.ok.inj hfold
    exact ⟨h, by omega⟩
  | cons line rest ih =>
    rw [foldlM_cons, bind_ok_iff] at hfold
    obtain ⟨mid, hstep, hrest⟩ := hfold
    have hcons : weight (line :: rest) = (line.length + 1) + weight rest := by simp [weight]
    obtain ⟨hmid, hbody⟩ := scanLine_ok h (by omega) (hlines line mem_cons_self) hstep
    exact ih hmid (by omega) (fun l hl => hlines l (mem_cons_of_mem line hl)) hrest

theorem weight_lines_le (text : List Char) : weight (lines text) ≤ 2 * text.length := by
  have hpieces : ∀ pieces : List (List Char), (∀ piece ∈ pieces, piece ≠ []) →
      weight (pieces.map chomp) ≤ 2 * pieces.flatten.length := by
    intro pieces hne
    induction pieces with
    | nil => simp [weight]
    | cons piece rest ih =>
      have hpiece := length_pos_iff.mpr (hne piece mem_cons_self)
      have hchomp := (chomp_sublist piece).length_le
      have hrest := ih (fun q hq => hne q (mem_cons_of_mem piece hq))
      simp only [weight, map_cons, sum_cons, flatten_cons, length_append] at hrest ⊢
      omega
  obtain ⟨hflatten, hne⟩ := splitInclusive_flatten (fun c => c = '\n') text
  have h := hpieces _ hne
  rw [hflatten] at h
  exact h

/-- The sections of a text that is not blank and has no NUL. -/
theorem sections_ok {markdown : Bool} {parts : List (List Char × List Char)}
    (hblank : text.all isWhitespace = false) (hplain : '\x00' ∉ text)
    (h : sections text markdown = .ok parts) : ∀ part ∈ parts, PartOk (2 * text.length) part := by
  unfold sections at h
  cases markdown with
  | true =>
    simp only [if_true, bind_ok_iff, Except.ok.injEq] at h
    obtain ⟨s, hfold, rfl⟩ := h
    have hempty : Scan.Ok (2 * text.length) ⟨none, [], [], [], []⟩ :=
      ⟨by decide, by decide, by simp, by simp, by simp⟩
    have hweight : weight ([] : List (List Char)) + weight (lines text) ≤ 2 * text.length := by
      have hlines := weight_lines_le text
      simp only [weight, map_nil, sum_nil, Nat.zero_add] at hlines ⊢
      exact hlines
    obtain ⟨hs, hbody⟩ := foldlM_scanLine_ok (lines text) hempty hweight
      (fun line hline hnul => hplain (subset_of_mem_lines hline hnul)) hfold
    exact s.flush_ok hs hbody
  | false =>
    simp only [Bool.false_eq_true, if_false, Except.ok.injEq] at h
    subst h
    obtain ⟨hstarts, hlength, hmem⟩ := joinWords_words text
    intro part hpart
    rw [mem_singleton.mp hpart]
    refine ⟨by simp, by simp, hstarts ?_, ?_, by simp; omega⟩
    · intro hwords
      rw [all_blank_of_words_nil hwords] at hblank
      cases hblank
    · intro hnul
      rcases hmem _ hnul with hspace | hin
      · exact absurd hspace (by decide)
      · exact hplain hin

end Sections

/-! ## Chunks -/

section Chunks

variable {cs chunk : List Char}

theorem chunkEnd_bounds (hne : cs ≠ []) : 1 ≤ chunkEnd cs ∧ chunkEnd cs ≤ 400 := by
  have hlength := length_pos_iff.mpr hne
  unfold chunkEnd
  split_ifs with hlong
  · cases (cs.take 400).reverse.findIdx? (fun c => c = ' ') with
    | none => simp
    | some k =>
      simp only
      split_ifs
      · omega
      · omega
  · omega

/-- The fuel of `chunks` is enough. -/
theorem chunksLoop_fuel (fuel : Nat) (h : cs.length ≤ fuel) : chunksLoop fuel cs = chunks cs := by
  unfold chunks
  induction hn : cs.length using Nat.strong_induction_on generalizing cs fuel with
  | _ n ih =>
    subst hn
    by_cases hne : cs = []
    · subst hne
      cases fuel <;> simp [chunksLoop]
    · have hpos := length_pos_iff.mpr hne
      have hend := (chunkEnd_bounds hne).1
      obtain ⟨m, rfl⟩ : ∃ m, fuel = m + 1 := ⟨fuel - 1, by omega⟩
      obtain ⟨k, hk⟩ : ∃ k, cs.length = k + 1 := ⟨cs.length - 1, by omega⟩
      have hrest : ((cs.drop (chunkEnd cs)).dropWhile isWhitespace).length ≤ k := by
        have hle := (dropWhile_sublist isWhitespace (l := cs.drop (chunkEnd cs))).length_le
        rw [length_drop] at hle
        omega
      rw [hk, chunksLoop, chunksLoop, if_neg hne, if_neg hne, ih _ (by omega) m (by omega) rfl,
        ih _ (by omega) k hrest rfl]

theorem chunks_nil : chunks [] = [] := rfl

theorem chunks_eq (hne : cs ≠ []) : chunks cs = cs.take (chunkEnd cs) ::
    chunks ((cs.drop (chunkEnd cs)).dropWhile isWhitespace) := by
  have hpos := length_pos_iff.mpr hne
  have hend := (chunkEnd_bounds hne).1
  obtain ⟨k, hk⟩ : ∃ k, cs.length = k + 1 := ⟨cs.length - 1, by omega⟩
  have hrest : ((cs.drop (chunkEnd cs)).dropWhile isWhitespace).length ≤ k := by
    have hle := (dropWhile_sublist isWhitespace (l := cs.drop (chunkEnd cs))).length_le
    rw [length_drop] at hle
    omega
  rw [← chunksLoop_fuel k hrest]
  unfold chunks
  rw [hk, chunksLoop, if_neg hne]

theorem starts_dropWhile (h : cs.dropWhile isWhitespace ≠ []) : Starts (cs.dropWhile isWhitespace) := by
  cases hrest : cs.dropWhile isWhitespace with
  | nil => exact absurd hrest h
  | cons c rest =>
    have hhead := head_dropWhile_not isWhitespace h
    simp only [hrest, head_cons] at hhead
    exact ⟨c, rest, rfl, by simpa using hhead⟩

/-- The chunks of a text that starts with no blank. -/
theorem chunks_ok (h : cs = [] ∨ Starts cs) : (chunks cs).length ≤ cs.length ∧
    ∀ chunk ∈ chunks cs, Starts chunk ∧ chunk.length ≤ 400 ∧ chunk ⊆ cs := by
  induction hn : cs.length using Nat.strong_induction_on generalizing cs with
  | _ n ih =>
    subst hn
    by_cases hne : cs = []
    · subst hne
      simp [chunks_nil]
    · obtain ⟨c, rest, rfl, hc⟩ := h.resolve_left hne
      obtain ⟨hone, hend⟩ := chunkEnd_bounds hne
      have hsub := (dropWhile_sublist isWhitespace
        (l := (c :: rest).drop (chunkEnd (c :: rest))))
      have hlength := hsub.length_le
      rw [length_drop, length_cons] at hlength
      have hlater : ((c :: rest).drop (chunkEnd (c :: rest))).dropWhile isWhitespace = [] ∨
          Starts (((c :: rest).drop (chunkEnd (c :: rest))).dropWhile isWhitespace) := by
        by_cases hnil : ((c :: rest).drop (chunkEnd (c :: rest))).dropWhile isWhitespace = []
        · exact .inl hnil
        · exact .inr (starts_dropWhile hnil)
      obtain ⟨ihcount, ihmem⟩ := ih _ (by simp only [length_cons]; omega) hlater rfl
      rw [chunks_eq hne]
      refine ⟨by simp only [length_cons]; omega, ?_⟩
      intro chunk hchunk
      rcases mem_cons.mp hchunk with rfl | hmem
      · refine ⟨?_, ?_, take_subset _ _⟩
        · obtain ⟨k, hk⟩ : ∃ k, chunkEnd (c :: rest) = k + 1 := ⟨chunkEnd (c :: rest) - 1, by omega⟩
          rw [hk, take_succ_cons]
          exact ⟨c, rest.take k, rfl, hc⟩
        · rw [length_take]
          omega
      · obtain ⟨hstarts, hshort, hsubset⟩ := ihmem chunk hmem
        exact ⟨hstarts, hshort, fun d hd => mem_of_mem_drop (hsub.subset (hsubset hd))⟩

end Chunks

/-! ## The texts of a row -/

section Texts

variable {crates : Crates} {a b : String} {n m : Nat}

/-- A text that is not blank, has no NUL and is in a bound. -/
structure Plain (n : Nat) (text : String) : Prop where
  nonblank : text.toList.all isWhitespace = false
  plain : '\x00' ∉ text.toList
  size : text.utf8ByteSize ≤ n

theorem Plain.checked (h : Plain n a) (hn : n ≤ 65536) : checkedText a = .ok () := by
  have hsize := h.size
  have hnul : a.toList.contains '\x00' = false := by simpa using h.plain
  unfold checkedText
  rw [ensure_eq_ok, h.nonblank, hnul]
  simp only [Bool.not_false, Bool.true_and, Bool.and_true, decide_eq_true_eq]
  omega

theorem Plain.append (ha : Plain n a) (hb : '\x00' ∉ b.toList) (hsize : b.utf8ByteSize ≤ m) :
    Plain (n + m) (a ++ b) := by
  refine ⟨?_, ?_, ?_⟩
  · rw [String.toList_append, all_append, ha.nonblank, Bool.false_and]
  · rw [String.toList_append, mem_append]
    exact fun h => h.elim ha.plain hb
  · rw [String.utf8ByteSize_append]
    exact Nat.add_le_add ha.size hsize

/-- What the four patterns of `redact` do to a text: nothing becomes blank,
no NUL appears, and a replacement is at most twice as long as its match. -/
structure Secrets (crates : Crates) : Prop where
  nonblank : ∀ text : String, text.toList.all isWhitespace = false →
    (crates.secrets text).toList.all isWhitespace = false
  plain : ∀ text : String, '\x00' ∉ text.toList → '\x00' ∉ (crates.secrets text).toList
  size : ∀ text : String, (crates.secrets text).utf8ByteSize ≤ 2 * text.utf8ByteSize

theorem Plain.redact (hsecrets : Secrets crates) (h : Plain n a) :
    Plain (7 * n + 3) (redact crates a) := by
  have hgrowth := bytes_redactChars (crates.secrets a).toList
  have hsize := hsecrets.size a
  have hbound := h.size
  rw [utf8ByteSize_eq] at hsize
  rw [redact_eq]
  refine ⟨?_, ?_, ?_⟩
  · rw [String.toList_ofList]
    exact nonblank_redactChars (hsecrets.nonblank a h.nonblank)
  · rw [String.toList_ofList]
    exact nul_notMem_redactChars (hsecrets.plain a h.plain)
  · rw [utf8ByteSize_ofChars]
    omega

theorem nul_notMem_toString (n : Nat) : '\x00' ∉ (toString n).toList := by
  intro h
  rw [Nat.toString_eq_ofList_toDigits, String.toList_ofList] at h
  have hdigit := Nat.isDigit_of_mem_toDigits (by omega) (by omega) h
  exact absurd hdigit (by decide)

theorem bytes_le_length (cs : List Char) : bytes cs ≤ 4 * cs.length := by
  induction cs with
  | nil => simp
  | cons c cs ih =>
    have hchar := c.utf8Size_le_four
    rw [bytes_cons, length_cons]
    omega

theorem length_le_bytes (cs : List Char) : cs.length ≤ bytes cs := by
  induction cs with
  | nil => simp
  | cons c cs ih =>
    have hchar := c.utf8Size_pos
    rw [bytes_cons, length_cons]
    omega

theorem utf8ByteSize_toString (h : n < 10 ^ 6) : (toString n).utf8ByteSize ≤ 24 := by
  have hlength := (Nat.length_toDigits_le_iff (b := 10) (n := n) (k := 6) (by omega) (by omega)).mpr h
  have hbytes := bytes_le_length (Nat.toDigits 10 n)
  rw [Nat.toString_eq_ofList_toDigits, utf8ByteSize_ofChars]
  omega

theorem Alias.name_plain (a : Alias) : Plain 5 a.name := by
  cases a with
  | abbey | abi | wdbx => exact ⟨by decide, by decide, by decide⟩

end Texts

/-! ## The rows of a document -/

section Excerpts

variable {crates : Crates} {isPrivate : Bool} {doc : Document} {text : String} {e : Excerpt}

structure Excerpt.Ok (e : Excerpt) : Prop where
  pathSize : e.path.utf8ByteSize ≤ 4096
  pathPlain : '\x00' ∉ e.path.toList
  index : e.index < 10 ^ 6
  text : Plain 1600 e.text

theorem excerpts_ok {found : List Excerpt} (hsize : text.toList.length ≤ maxFile)
    (hblank : text.toList.all isWhitespace = false) (hplain : '\x00' ∉ text.toList)
    (h : documentExcerpts doc text = .ok found) : ∀ e ∈ found, e.Ok := by
  unfold documentExcerpts at h
  simp only [bind_ok_iff, Except.ok.injEq] at h
  obtain ⟨parts, hparts, rfl⟩ := h
  intro e he
  obtain ⟨part, hpart, he⟩ := mem_flatMap.mp he
  obtain ⟨⟨chunk, i⟩, hchunk, rfl⟩ := mem_map.mp he
  have hok := sections_ok hblank hplain hparts part hpart
  obtain ⟨hcount, hchunks⟩ := chunks_ok (.inr hok.starts)
  have hmem := mem_zipIdx hchunk
  have hlimit : maxFile = 262144 := rfl
  have hindex : i < (chunks part.2).length := by omega
  have hin : chunk ∈ chunks part.2 := by
    rw [hmem.2.2]
    exact getElem_mem _
  obtain ⟨⟨c, rest, rfl, hc⟩, hshort, hsubset⟩ := hchunks chunk hin
  have hfour := bytes_le_length (c :: rest)
  have hpartSize := hok.short
  refine ⟨?_, ?_, ?_, ?_, ?_, ?_⟩
  · rw [utf8ByteSize_ofChars]
    exact hok.pathBound
  · rw [String.toList_ofList]
    exact hok.pathPlain
  · show i + 1 < 10 ^ 6
    omega
  · rw [String.toList_ofList, all_cons, hc, Bool.false_and]
  · rw [String.toList_ofList]
    exact fun hnul => hok.plain (hsubset hnul)
  · show (String.ofList (c :: rest)).utf8ByteSize ≤ 1600
    rw [utf8ByteSize_ofChars]
    omega

theorem Excerpt.lineage_plain (h : e.Ok) : Plain 8207 e.lineage := by
  have hname := e.doc.source.name_plain
  have hbase := ((hname.append (b := ":") (m := 1) (by decide) (by decide)).append e.doc.plain
    e.doc.bounded)
  unfold Excerpt.lineage
  by_cases hpath : e.path = ""
  · rw [if_pos hpath]
    exact hbase.append (m := 4105) (by decide) (by decide)
  · rw [if_neg hpath]
    refine hbase.append (m := 4105) ?_ ?_
    · rw [String.toList_append, mem_append]
      exact fun hnul => hnul.elim (by decide) h.pathPlain
    · have hprefix : "#section:".utf8ByteSize = 9 := by decide
      have hsize := h.pathSize
      rw [String.utf8ByteSize_append]
      omega

theorem Excerpt.prompt_plain (h : e.Ok) : Plain 8266 e.prompt := by
  have hname := e.doc.source.name_plain
  have hstart : Plain 25 "Source continuation from " := ⟨by decide, by decide, by decide⟩
  have hdoc := ((((hstart.append hname.plain hname.size).append (b := ":") (m := 1) (by decide)
    (by decide)).append e.doc.plain e.doc.bounded).append (b := "; section ") (m := 10) (by decide)
    (by decide))
  have hpath : '\x00' ∉ (if e.path = "" then "(document)" else e.path).toList ∧
      (if e.path = "" then "(document)" else e.path).utf8ByteSize ≤ 4096 := by
    by_cases hempty : e.path = ""
    · rw [if_pos hempty]
      exact ⟨by decide, by decide⟩
    · rw [if_neg hempty]
      exact ⟨h.pathPlain, h.pathSize⟩
  exact ((((hdoc.append hpath.1 hpath.2).append (b := "; chunk ") (m := 8) (by decide)
    (by decide)).append (nul_notMem_toString e.index) (utf8ByteSize_toString h.index)).append
    (b := ".") (m := 1) (by decide) (by decide))

/-- A hexadecimal digit is no blank. -/
theorem hex_nonblank (h : Conversation.isLowerHex c) : isWhitespace c = false ∧ c ≠ '\x00' := by
  have hrange : (48 ≤ c.toNat ∧ c.toNat ≤ 57) ∨ (97 ≤ c.toNat ∧ c.toNat ≤ 102) := by
    unfold Conversation.isLowerHex Char.isDigit at h
    simp only [Bool.or_eq_true, Bool.and_eq_true, decide_eq_true_eq] at h
    rcases h with ⟨hlow, hhigh⟩ | ⟨hlow, hhigh⟩
    · exact .inl ⟨UInt32.le_iff_toNat_le.mp hlow, UInt32.le_iff_toNat_le.mp hhigh⟩
    · exact .inr ⟨UInt32.le_iff_toNat_le.mp hlow, UInt32.le_iff_toNat_le.mp hhigh⟩
  refine ⟨?_, ?_⟩
  · unfold isWhitespace
    simp only [Bool.or_eq_false_iff, Bool.and_eq_false_iff, decide_eq_false_iff_not]
    omega
  · rintro rfl
    have hzero : '\x00'.toNat = 0 := rfl
    omega

theorem digest_plain (sha : Sha256) (message : Bytes) : Plain 64 (digestBytes sha message) := by
  have hhex := Conversation.isLowerHexSha256_lowerHex (sha message)
  unfold Conversation.isLowerHexSha256 at hhex
  simp only [Bool.and_eq_true, decide_eq_true_eq, all_eq_true] at hhex
  obtain ⟨hsize, hdigits⟩ := hhex
  have hne : (digestBytes sha message).toList ≠ [] := by
    intro hnil
    rw [utf8ByteSize_eq, show (lowerHex (sha message).toList).toList = [] from hnil] at hsize
    cases hsize
  obtain ⟨c, rest, hcons⟩ := exists_cons_of_ne_nil hne
  refine ⟨?_, ?_, ?_⟩
  · rw [hcons, all_cons, (hex_nonblank (hdigits c (hcons ▸ mem_cons_self))).1, Bool.false_and]
  · intro hnul
    exact (hex_nonblank (hdigits _ hnul)).2 rfl
  · exact hsize.le

theorem Excerpt.provenance_plain (sha : Sha256) (isPrivate : Bool) (e : Excerpt) :
    Plain 4174 (e.row sha isPrivate).provenance := by
  have hname := e.doc.source.name_plain
  have hdigest := digest_plain sha e.doc.content
  exact ((((hname.append (b := ":") (m := 1) (by decide) (by decide)).append e.doc.plain
    e.doc.bounded).append (b := " sha256:") (m := 8) (by decide) (by decide)).append hdigest.plain
    hdigest.size)

/-- Every check of one row passes on what `collect` writes, also after
redaction. -/
theorem checked_row (hsecrets : Secrets crates) (h : e.Ok) :
    (redactRow crates (e.row crates.sha isPrivate)).Ok isPrivate := by
  refine ⟨?_, rfl, fun hrow => hrow⟩
  intro text htext
  simp only [redactRow, mem_cons, not_mem_nil, or_false] at htext
  rcases htext with rfl | rfl | rfl | rfl | rfl
  · exact (digest_plain crates.sha _).checked (by omega)
  · exact (e.lineage_plain h).checked (by omega)
  · exact ((e.prompt_plain h).redact hsecrets).checked (by omega)
  · exact (h.text.redact hsecrets).checked (by omega)
  · exact ((e.provenance_plain crates.sha isPrivate).redact hsecrets).checked (by omega)

end Excerpts

end Abbey.Learning
