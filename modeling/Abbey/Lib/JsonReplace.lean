import Abbey.Lib.JsonText
import Abbey.Lib.Replace

/-!
# Replacing in the text of a value

The text of a value with a mark on the characters of its strings that stand for
themselves.  Where a pattern occurs only on such characters, replacing it in the
text is replacing it in the strings: `replace_print`.
-/

namespace Abbey.Lib.Value

open Abbey.Lib List

variable {cs : List Char}

/-- A character of a string that stands for itself. -/
def plain (c : Char) : Bool := escape c = [c]

def markChar (c : Char) : List (Char × Bool) :=
  if plain c then [(c, true)] else unmarked (escape c)

def markString (s : String) : List (Char × Bool) :=
  ('"', false) :: (s.toList.flatMap markChar ++ [('"', false)])

mutual

/-- The text of a value with its plain characters of strings marked. -/
def marks : Value → List (Char × Bool)
  | .string s => markString s
  | .array items => ('[', false) :: (marksItems items ++ [(']', false)])
  | .object fields => ('\x7b', false) :: (marksFields fields ++ [('\x7d', false)])
  | v => unmarked (print v)

def marksItems : List Value → List (Char × Bool)
  | [] => []
  | [v] => marks v
  | v :: vs => marks v ++ (',', false) :: marksItems vs

def marksFields : List (String × Value) → List (Char × Bool)
  | [] => []
  | [(key, v)] => markString key ++ (':', false) :: marks v
  | (key, v) :: fields => markString key ++ (':', false) :: (marks v ++ (',', false) :: marksFields fields)

end

theorem map_fst_markChar (c : Char) : (markChar c).map Prod.fst = escape c := by
  unfold markChar
  split_ifs with hplain
  · exact (of_decide_eq_true hplain).symm
  · exact map_fst_unmarked _

theorem map_fst_markBody (cs : List Char) :
    (cs.flatMap markChar).map Prod.fst = cs.flatMap escape := by
  induction cs with
  | nil => rfl
  | cons c cs ih => rw [flatMap_cons, map_append, map_fst_markChar, ih, flatMap_cons]

theorem map_fst_markString (s : String) : (markString s).map Prod.fst = printString s := by
  rw [markString, map_cons, map_append, map_fst_markBody]
  rfl

theorem plain_of_unmarked (cs : List Char) : ∀ x ∈ unmarked cs, x.2 → plain x.1 := by
  intro x hx hmark
  obtain ⟨c, _, rfl⟩ := mem_map.mp hx
  cases hmark

theorem plain_of_markString (s : String) : ∀ x ∈ markString s, x.2 → plain x.1 := by
  intro x hx hmark
  rw [markString, mem_cons, mem_append, mem_singleton, mem_flatMap] at hx
  rcases hx with rfl | ⟨c, _, hc⟩ | rfl
  · cases hmark
  · unfold markChar at hc
    split_ifs at hc with hplain
    · rw [mem_singleton.mp hc]
      exact hplain
    · exact plain_of_unmarked (escape c) x hc hmark
  · cases hmark

mutual

/-- The marks are on the text. -/
theorem map_fst_marks : (v : Value) → (marks v).map Prod.fst = print v := by
  intro v
  match v with
  | .null | .bool _ | .number _ => exact map_fst_unmarked _
  | .string s =>
    rw [print]
    exact map_fst_markString s
  | .array items =>
    rw [marks, print, map_cons, map_append, map_fst_marksItems items]
    rfl
  | .object fields =>
    rw [marks, print, map_cons, map_append, map_fst_marksFields fields]
    rfl

theorem map_fst_marksItems : (vs : List Value) → (marksItems vs).map Prod.fst = printItems vs := by
  intro vs
  match vs with
  | [] => rfl
  | [v] => exact map_fst_marks v
  | v :: w :: vs =>
    simp only [marksItems, printItems, map_append, map_cons, map_fst_marks v]
    rw [map_fst_marksItems (w :: vs)]

theorem map_fst_marksFields : (fields : List (String × Value)) →
    (marksFields fields).map Prod.fst = printFields fields := by
  intro fields
  match fields with
  | [] => rfl
  | [(key, v)] =>
    simp only [marksFields, printFields, map_append, map_cons, map_fst_markString, map_fst_marks v]
  | (key, v) :: field :: fields =>
    simp only [marksFields, printFields, map_append, map_cons, map_fst_markString, map_fst_marks v]
    rw [map_fst_marksFields (field :: fields)]
    simp

end

mutual

/-- Only characters that stand for themselves have a mark. -/
theorem plain_of_marked : (v : Value) → ∀ x ∈ marks v, x.2 → plain x.1 := by
  intro v
  match v with
  | .null | .bool _ | .number _ => exact plain_of_unmarked _
  | .string s => exact plain_of_markString s
  | .array items =>
    intro x hx hmark
    rw [marks, mem_cons, mem_append, mem_singleton] at hx
    rcases hx with rfl | hx | rfl
    · cases hmark
    · exact plain_of_marksItems items x hx hmark
    · cases hmark
  | .object fields =>
    intro x hx hmark
    rw [marks, mem_cons, mem_append, mem_singleton] at hx
    rcases hx with rfl | hx | rfl
    · cases hmark
    · exact plain_of_marksFields fields x hx hmark
    · cases hmark

theorem plain_of_marksItems : (vs : List Value) → ∀ x ∈ marksItems vs, x.2 → plain x.1 := by
  intro vs x hx hmark
  match vs with
  | [] => cases hx
  | [v] => exact plain_of_marked v x hx hmark
  | v :: w :: vs =>
    rw [marksItems, mem_append, mem_cons] at hx
    · rcases hx with hx | rfl | hx
      · exact plain_of_marked v x hx hmark
      · cases hmark
      · exact plain_of_marksItems (w :: vs) x hx hmark
    · simp

theorem plain_of_marksFields : (fields : List (String × Value)) →
    ∀ x ∈ marksFields fields, x.2 → plain x.1 := by
  intro fields x hx hmark
  match fields with
  | [] => cases hx
  | [(key, v)] =>
    rw [marksFields, mem_append, mem_cons] at hx
    rcases hx with hx | rfl | hx
    · exact plain_of_markString key x hx hmark
    · cases hmark
    · exact plain_of_marked v x hx hmark
  | (key, v) :: field :: fields =>
    rw [marksFields, mem_append, mem_cons, mem_append, mem_cons] at hx
    · rcases hx with hx | rfl | hx | rfl | hx
      · exact plain_of_markString key x hx hmark
      · cases hmark
      · exact plain_of_marked v x hx hmark
      · cases hmark
      · exact plain_of_marksFields (field :: fields) x hx hmark
    · simp

end

/-- A pattern with a character that is escaped does not occur at all. -/
theorem not_infix_of_escaped (hpat : ¬ ∀ c ∈ pat, plain c)
    (h : Within pat (marks v)) : ¬ pat <:+: print v := by
  rintro ⟨a, b, hab⟩
  refine hpat ?_
  intro c hc
  obtain ⟨i, hi, rfl⟩ := mem_iff_getElem.mp hc
  have hmap : (marks v).map Prod.fst = a ++ pat ++ b := by rw [map_fst_marks, hab]
  have hlength := congrArg length hmap
  rw [length_map, length_append, length_append] at hlength
  have hget : (marks v)[a.length + i]? = some (marks v)[a.length + i] :=
    getElem?_eq_getElem (by omega)
  have hmark := marked_of_within h hmap (Nat.le_add_right _ i) (by omega) hget
  have hplain := plain_of_marked v _ (getElem_mem (by omega)) hmark
  have hchar : (marks v)[a.length + i].1 = pat[i] := by
    have hat := congrArg (fun cs => cs[a.length + i]?) hmap
    simp only [getElem?_map, hget, append_assoc] at hat
    rw [getElem?_append_right (Nat.le_add_right _ i), Nat.add_sub_cancel_left,
      getElem?_append_left hi, getElem?_eq_getElem hi] at hat
    exact Option.some.inj hat
  rwa [hchar] at hplain

/-! ## Patterns of plain characters -/

theorem flatMap_escape_of_plain (h : ∀ c ∈ cs, plain c) : cs.flatMap escape = cs := by
  induction cs with
  | nil => rfl
  | cons c cs ih =>
    rw [forall_mem_cons] at h
    rw [flatMap_cons, of_decide_eq_true h.1, ih h.2]
    rfl

/-- The characters before the first that is escaped. -/
theorem exists_escaped (h : ¬ ∀ c ∈ cs, plain c) :
    ∃ run c rest, cs = run ++ c :: rest ∧ (∀ x ∈ run, plain x) ∧ ¬ plain c := by
  induction cs with
  | nil => exact absurd nofun h
  | cons c cs ih =>
    by_cases hc : plain c
    · obtain ⟨run, d, rest, rfl, hrun, hd⟩ := ih (fun hall =>
        h (forall_mem_cons.mpr ⟨hc, hall⟩))
      exact ⟨c :: run, d, rest, rfl, forall_mem_cons.mpr ⟨hc, hrun⟩, hd⟩
    · exact ⟨[], c, cs, rfl, nofun, hc⟩

variable {pat to_ : List Char}

/-- In the text of a string. -/
theorem replace_body (hpat : pat ≠ []) (hplain : ∀ c ∈ pat, plain c) (hto : ∀ c ∈ to_, plain c)
    (cs : List Char) (h : Within pat (cs.flatMap markChar)) :
    replace pat to_ (cs.flatMap escape) = (replace pat to_ cs).flatMap escape := by
  induction hlength : cs.length using Nat.strong_induction_on generalizing cs with
  | _ n ih =>
    subst hlength
    have hkept : ∀ cs : List Char, (∀ c ∈ cs, plain c) →
        (replace pat to_ cs).flatMap escape = replace pat to_ cs := by
      intro cs hcs
      refine flatMap_escape_of_plain ?_
      intro c hc
      rcases mem_of_mem_replace hc with hold | hnew
      · exact hcs c hold
      · exact hto c hnew
    by_cases hall : ∀ c ∈ cs, plain c
    · rw [flatMap_escape_of_plain hall, hkept cs hall]
    · obtain ⟨run, c, rest, rfl, hrun, hc⟩ := exists_escaped hall
      have hnot : c ∉ pat := fun hin => hc (hplain c hin)
      have hmarks : (run ++ c :: rest).flatMap markChar =
          run.flatMap markChar ++ (unmarked (escape c) ++ rest.flatMap markChar) := by
        rw [flatMap_append, flatMap_cons, markChar, if_neg hc]
      rw [hmarks] at h
      have hescape : escape c ≠ [] := by
        unfold escape escapeControl
        split_ifs <;> simp
      have htail := h.mono (suffix_append (run.flatMap markChar) _).isInfix
      have hrest := ih rest.length (by simp; omega) rest
        (htail.mono (suffix_append (unmarked (escape c)) _).isInfix) rfl
      have hhead : ∀ x ∈ (unmarked (escape c) ++ rest.flatMap markChar).head?, x.2 = false := by
        intro x hx
        obtain ⟨d, ds, hds⟩ := exists_cons_of_ne_nil hescape
        rw [hds] at hx
        cases hx
        rfl
      have hlast : ∀ x ∈ (unmarked (escape c)).getLast?, x.2 = false := by
        intro x hx
        obtain ⟨d, _, rfl⟩ := mem_map.mp (mem_of_getLast? hx)
        rfl
      have hfirst := @replace_append_of_within Char _ pat to_ hpat _ _ h (.inr hhead)
      have hsecond := @replace_append_of_within Char _ pat to_ hpat _ _ htail (.inl hlast)
      have hone : replace pat to_ (escape c) = escape c := replace_eq_self
        (not_infix_of_within hpat (htail.mono (prefix_append _ _).isInfix))
      rw [map_append, map_append, map_fst_markBody, map_fst_markBody, map_fst_unmarked,
        flatMap_escape_of_plain hrun] at hfirst
      rw [map_append, map_fst_markBody, map_fst_unmarked, hone, hrest] at hsecond
      rw [flatMap_append, flatMap_cons, flatMap_escape_of_plain hrun, hfirst, hsecond,
        replace_append_cons_of_notMem hpat hnot, flatMap_append, flatMap_cons, hkept run hrun]

/-- A replacement in a string. -/
def inString (pat to_ : List Char) (s : String) : String :=
  String.ofList (replace pat to_ s.toList)

section

variable (hpat : pat ≠ []) (hplain : ∀ c ∈ pat, plain c) (hto : ∀ c ∈ to_, plain c)

include hpat hplain hto

theorem replace_printString (s : String) (h : Within pat (markString s)) :
    replace pat to_ (printString s) = printString (inString pat to_ s) := by
  have hfirst := @replace_cut Char _ pat to_ hpat [] (s.toList.flatMap markChar ++ [('"', false)])
    '"' h
  have hrest : Within pat (s.toList.flatMap markChar ++ [('"', false)]) :=
    h.mono (suffix_cons _ _).isInfix
  have hlast := @replace_cut Char _ pat to_ hpat (s.toList.flatMap markChar) [] '"' hrest
  have hbody := replace_body hpat hplain hto s.toList
    (hrest.mono (prefix_append _ _).isInfix)
  rw [map_fst_markBody] at hlast
  rw [map_append, map_fst_markBody] at hfirst
  rw [printString, printString, inString, String.toList_ofList, cons_append, cons_append]
  refine hfirst.trans ?_
  rw [← hbody]
  exact congrArg (cons '"') hlast

mutual

/-- In the text of a value. -/
theorem replace_print : (v : Value) → Within pat (marks v) →
    replace pat to_ (print v) = print (mapStrings (inString pat to_) v) := by
  intro v h
  match v with
  | .null | .bool _ | .number _ => exact replace_eq_self (not_infix_of_within hpat h)
  | .string s =>
    rw [print, mapStrings, print]
    exact replace_printString hpat hplain hto s h
  | .array items =>
    have hrest : Within pat (marksItems items ++ [(']', false)]) :=
      h.mono (suffix_cons _ _).isInfix
    have hfirst := @replace_cut Char _ pat to_ hpat [] (marksItems items ++ [(']', false)]) '[' h
    have hlast := @replace_cut Char _ pat to_ hpat (marksItems items) [] ']' hrest
    have hitems := replace_printItems items (hrest.mono (prefix_append _ _).isInfix)
    rw [map_fst_marksItems, hitems] at hlast
    rw [map_append, map_fst_marksItems] at hfirst
    rw [print, mapStrings, print, cons_append, cons_append]
    exact hfirst.trans (congrArg (cons '[') hlast)
  | .object fields =>
    have hrest : Within pat (marksFields fields ++ [('\x7d', false)]) :=
      h.mono (suffix_cons _ _).isInfix
    have hfirst := @replace_cut Char _ pat to_ hpat [] (marksFields fields ++ [('\x7d', false)])
      '\x7b' h
    have hlast := @replace_cut Char _ pat to_ hpat (marksFields fields) [] '\x7d' hrest
    have hfields := replace_printFields fields (hrest.mono (prefix_append _ _).isInfix)
    rw [map_fst_marksFields, hfields] at hlast
    rw [map_append, map_fst_marksFields] at hfirst
    rw [print, mapStrings, print, cons_append, cons_append]
    exact hfirst.trans (congrArg (cons '\x7b') hlast)

theorem replace_printItems : (vs : List Value) → Within pat (marksItems vs) →
    replace pat to_ (printItems vs) = printItems (mapStringsItems (inString pat to_) vs) := by
  intro vs h
  match vs with
  | [] => rfl
  | [v] => exact replace_print v h
  | v :: w :: vs =>
    have hcut := @replace_cut Char _ pat to_ hpat (marks v) (marksItems (w :: vs)) ',' h
    have hv := replace_print v (h.mono (prefix_append _ _).isInfix)
    have hrest := replace_printItems (w :: vs) (h.mono
      ((suffix_cons _ _).trans (suffix_append (marks v) _)).isInfix)
    rw [map_fst_marks, map_fst_marksItems, hv, hrest] at hcut
    exact hcut

theorem replace_printFields : (fields : List (String × Value)) → Within pat (marksFields fields) →
    replace pat to_ (printFields fields) =
      printFields (mapStringsFields (inString pat to_) fields) := by
  intro fields h
  match fields with
  | [] => rfl
  | [(key, v)] =>
    have hcut := @replace_cut Char _ pat to_ hpat (markString key) (marks v) ':' h
    have hkey := replace_printString hpat hplain hto key
      (h.mono (prefix_append _ _).isInfix)
    have hv := replace_print v (h.mono
      ((suffix_cons _ _).trans (suffix_append (markString key) _)).isInfix)
    rw [map_fst_marks, map_fst_markString, hkey, hv] at hcut
    exact hcut
  | (key, v) :: field :: fields =>
    have htail : Within pat (marks v ++ (',', false) :: marksFields (field :: fields)) :=
      h.mono ((suffix_cons _ _).trans (suffix_append (markString key) _)).isInfix
    have hcolon := @replace_cut Char _ pat to_ hpat (markString key)
      (marks v ++ (',', false) :: marksFields (field :: fields)) ':' h
    have hcomma := @replace_cut Char _ pat to_ hpat (marks v) (marksFields (field :: fields)) ','
      htail
    have hkey := replace_printString hpat hplain hto key
      (h.mono (prefix_append _ _).isInfix)
    have hv := replace_print v (htail.mono (prefix_append _ _).isInfix)
    have hrest := replace_printFields (field :: fields) (htail.mono
      ((suffix_cons _ _).trans (suffix_append (marks v) _)).isInfix)
    rw [map_fst_marks, map_fst_marksFields, hv, hrest] at hcomma
    rw [map_fst_markString, map_append, map_fst_marks, hkey, map_cons,
      map_fst_marksFields, hcomma] at hcolon
    have htext : ∀ (first second : List Char) (rest : List (String × Value)),
        first ++ ':' :: (second ++ ',' :: printFields rest) =
          (first ++ ':' :: second) ++ ',' :: printFields rest := by
      intro first second rest
      rw [append_assoc]
      rfl
    obtain ⟨other, w⟩ := field
    rw [htext, htext] at hcolon
    simpa [mapStringsFields, printFields] using hcolon

end

end

end Abbey.Lib.Value
