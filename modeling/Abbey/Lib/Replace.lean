import Mathlib.Tactic.Common
import Mathlib.Data.List.Infix

/-!
# Replacing a pattern

Every occurrence of a pattern is replaced from the left; the next occurrence is
looked for after the one before.

* `replace_append_of_apart`: a text divides where no occurrence crosses the cut.
* `Within`: in a text with marks, every occurrence stands on marked elements.
  Then the text divides beside every element without a mark (`replace_cut`).
-/

namespace Abbey.Lib

open List

variable {α : Type} [DecidableEq α]
variable {marked : List (α × Bool)}

/-- The rest of a replacement, with a number of elements of an occurrence still
to pass over. -/
def replaceFrom (pat to_ : List α) : Nat → List α → List α
  | _, [] => []
  | skip + 1, _ :: xs => replaceFrom pat to_ skip xs
  | 0, x :: xs =>
    if pat <+: x :: xs then to_ ++ replaceFrom pat to_ (pat.length - 1) xs
    else x :: replaceFrom pat to_ 0 xs

def replace (pat to_ xs : List α) : List α := replaceFrom pat to_ 0 xs

example : replace [1, 1] [7] [1, 1, 1, 2, 1, 1] = [7, 1, 2, 7] := by decide

variable {pat to_ : List α}

theorem replaceFrom_drop (skip : Nat) (xs : List α) :
    replaceFrom pat to_ skip xs = replace pat to_ (xs.drop skip) := by
  induction xs generalizing skip with
  | nil =>
    rw [drop_nil]
    cases skip <;> rfl
  | cons x xs ih =>
    cases skip with
    | zero => rfl
    | succ skip => exact ih skip

@[simp] theorem replace_nil : replace pat to_ ([] : List α) = [] := rfl

/-- At an occurrence. -/
theorem replace_append (hpat : pat ≠ []) (xs : List α) :
    replace pat to_ (pat ++ xs) = to_ ++ replace pat to_ xs := by
  obtain ⟨p, ps, rfl⟩ := exists_cons_of_ne_nil hpat
  have hpre : p :: ps <+: p :: (ps ++ xs) := prefix_append (p :: ps) xs
  rw [replace, cons_append, replaceFrom, if_pos hpre, replaceFrom_drop, length_cons,
    Nat.add_sub_cancel, drop_left]

variable {xs : List α} {x c : α}

/-- Where the pattern does not stand. -/
theorem replace_cons (h : ¬ pat <+: x :: xs) :
    replace pat to_ (x :: xs) = x :: replace pat to_ xs := by
  rw [replace, replaceFrom, if_neg h]
  rfl

/-- A text without the pattern is left alone. -/
theorem replace_eq_self (h : ¬ pat <:+: xs) : replace pat to_ xs = xs := by
  induction xs with
  | nil => rfl
  | cons x xs ih =>
    rw [replace_cons (fun hpre => h hpre.isInfix), ih (fun hin => h (infix_cons hin))]

/-- A text divides where no occurrence crosses the cut. -/
theorem replace_append_of_apart (hpat : pat ≠ [])
    (h : ∀ a b, xs ++ ys = a ++ pat ++ b → a.length + pat.length ≤ xs.length ∨ xs.length ≤ a.length) :
    replace pat to_ (xs ++ ys) = replace pat to_ xs ++ replace pat to_ ys := by
  induction hlength : xs.length using Nat.strong_induction_on generalizing xs with
  | _ n ih =>
    subst hlength
    cases xs with
    | nil => rfl
    | cons x xs =>
      have hpos := length_pos_of_ne_nil hpat
      by_cases hpre : pat <+: x :: xs
      · obtain ⟨rest, hrest⟩ := hpre
        have hlength := congrArg length hrest
        rw [length_append] at hlength
        rw [← hrest, append_assoc, replace_append hpat, replace_append hpat,
          append_assoc, ih rest.length (by omega) ?_ rfl]
        intro a b hab
        have happ : x :: xs ++ ys = (pat ++ a) ++ pat ++ b := by
          rw [← hrest, append_assoc, hab]
          simp
        have hcut := h (pat ++ a) b happ
        rw [length_append] at hcut
        omega
      · have hnot : ¬ pat <+: x :: (xs ++ ys) := by
          rintro ⟨b, hb⟩
          have hcut := h [] b (by rw [nil_append, hb]; rfl)
          rw [length_nil, Nat.zero_add, length_cons] at hcut
          refine hpre ((prefix_of_prefix_length_le ⟨b, hb⟩
            (prefix_append (x :: xs) ys) ?_))
          rw [length_cons]
          omega
        rw [cons_append, replace_cons hnot, replace_cons hpre, cons_append,
          ih xs.length (Nat.lt_succ_self _) ?_ rfl]
        intro a b hab
        have hcut := h (x :: a) b (by rw [cons_append, hab]; rfl)
        rw [length_cons, length_cons] at hcut
        omega

/-- An element that the pattern does not have divides a text. -/
theorem replace_append_cons_of_notMem (hpat : pat ≠ []) (hc : c ∉ pat) (xs ys : List α) :
    replace pat to_ (xs ++ c :: ys) = replace pat to_ xs ++ c :: replace pat to_ ys := by
  rw [replace_append_of_apart hpat, replace_cons]
  · rintro ⟨rest, hrest⟩
    obtain ⟨p, ps, rfl⟩ := exists_cons_of_ne_nil hpat
    exact hc ((cons.inj hrest).1 ▸ mem_cons_self)
  · intro a b hab
    by_contra hcross
    rw [not_or, Nat.not_le, Nat.not_le] at hcross
    refine hc ?_
    have hget : (xs ++ c :: ys)[xs.length]? = some c := by simp
    rw [hab, getElem?_append_left (by rw [length_append]; exact hcross.1),
      getElem?_append_right (Nat.le_of_lt hcross.2)] at hget
    exact mem_of_getElem? hget

/-- What a replacement leaves comes from the text or from what is put in. -/
theorem mem_of_mem_replace (h : x ∈ replace pat to_ xs) : x ∈ xs ∨ x ∈ to_ := by
  have hfrom : ∀ (xs : List α) (skip : Nat), x ∈ replaceFrom pat to_ skip xs → x ∈ xs ∨ x ∈ to_ := by
    intro xs
    induction xs with
    | nil => exact nofun
    | cons y xs ih =>
      intro skip h
      cases skip with
      | succ skip => exact (ih skip h).imp_left (mem_cons_of_mem y)
      | zero =>
        rw [replaceFrom] at h
        split_ifs at h with hpre
        · rcases mem_append.mp h with hto | hrest
          · exact .inr hto
          · exact (ih _ hrest).imp_left (mem_cons_of_mem y)
        · rcases mem_cons.mp h with rfl | hrest
          · exact .inl mem_cons_self
          · exact (ih 0 hrest).imp_left (mem_cons_of_mem y)
  exact hfrom xs 0 h

/-- At an occurrence something is put in. -/
theorem infix_replace (hpat : pat ≠ []) (h : pat <:+: xs) :
    to_ <:+: replace pat to_ xs := by
  induction xs with
  | nil => exact absurd (infix_nil.mp h) hpat
  | cons x xs ih =>
    by_cases hpre : pat <+: x :: xs
    · obtain ⟨rest, hrest⟩ := hpre
      rw [← hrest, replace_append hpat]
      exact (prefix_append to_ _).isInfix
    · rw [replace_cons hpre]
      exact infix_cons (ih ((infix_cons_iff.mp h).resolve_left hpre))

/-! ## Marks -/

/-- Every occurrence of a pattern stands on marked elements. -/
def Within (pat : List α) (marked : List (α × Bool)) : Prop :=
  ∀ part, part <:+: marked → part.map Prod.fst = pat → ∀ x ∈ part, x.2 = true

theorem Within.mono {xs ys : List (α × Bool)} (h : Within pat ys) (hin : xs <:+: ys) :
    Within pat xs :=
  fun part hpart => h part (hpart.trans hin)

/-- A pattern that does not occur is within any marks. -/
theorem within_of_absent (h : ¬ pat <:+: marked.map Prod.fst) : Within pat marked := by
  rintro part ⟨a, b, rfl⟩ hpart
  refine absurd ⟨a.map Prod.fst, b.map Prod.fst, ?_⟩ h
  rw [map_append, map_append, hpart]

/-- Elements without a mark. -/
def unmarked (xs : List α) : List (α × Bool) := xs.map (fun x => (x, false))

@[simp] theorem map_fst_unmarked (xs : List α) : (unmarked xs).map Prod.fst = xs := by
  simp [unmarked, Function.comp_def]

/-- Nothing stands where no element is marked. -/
theorem not_infix_of_within (hpat : pat ≠ []) (h : Within pat (unmarked xs)) :
    ¬ pat <:+: xs := by
  rintro ⟨a, b, hab⟩
  have hin : unmarked pat <:+: unmarked xs := by
    refine ⟨unmarked a, unmarked b, ?_⟩
    rw [← hab]
    simp [unmarked]
  obtain ⟨p, ps, rfl⟩ := exists_cons_of_ne_nil hpat
  exact absurd (h _ hin (map_fst_unmarked _) (p, false) mem_cons_self) (by simp)

/-- The elements under an occurrence have a mark. -/
theorem marked_of_within (h : Within pat marked)
    (hab : marked.map Prod.fst = a ++ pat ++ b) (hlow : a.length ≤ i)
    (hhigh : i < a.length + pat.length) {x : α × Bool} (hx : marked[i]? = some x) : x.2 := by
  have hpart : ((marked.drop a.length).take pat.length).map Prod.fst = pat := by
    rw [map_take, map_drop, hab, append_assoc, drop_left, take_left]
  refine h _ ((List.take_prefix _ _).isInfix.trans (drop_suffix _ _).isInfix) hpart x ?_
  refine @mem_of_getElem? _ _ (i - a.length) _ ?_
  rw [getElem?_take_of_lt (by omega), getElem?_drop, Nat.add_sub_cancel' hlow]
  exact hx

/-- A marked text divides before and after an element without a mark. -/
theorem replace_append_of_within (hpat : pat ≠ []) {xs ys : List (α × Bool)}
    (h : Within pat (xs ++ ys))
    (hcut : (∀ x ∈ xs.getLast?, x.2 = false) ∨ ∀ y ∈ ys.head?, y.2 = false) :
    replace pat to_ ((xs ++ ys).map Prod.fst) =
      replace pat to_ (xs.map Prod.fst) ++ replace pat to_ (ys.map Prod.fst) := by
  rw [map_append]
  refine replace_append_of_apart hpat ?_
  intro a b hab
  rw [length_map]
  by_contra hcross
  rw [not_or, Nat.not_le, Nat.not_le] at hcross
  have hmap : (xs ++ ys).map Prod.fst = a ++ pat ++ b := by rw [map_append, hab]
  have hlength := congrArg length hmap
  simp only [length_map, length_append] at hlength
  rcases hcut with hlast | hhead
  · obtain ⟨x, hx⟩ : ∃ x, xs.getLast? = some x :=
      Option.isSome_iff_exists.mp (getLast?_isSome.mpr (ne_nil_of_length_pos (by omega)))
    have hget : (xs ++ ys)[xs.length - 1]? = some x := by
      rw [getElem?_append_left (by omega), ← getLast?_eq_getElem?, hx]
    have hmark := marked_of_within h hmap (by omega) (by omega) hget
    exact absurd hmark (by simp [hlast x hx])
  · obtain ⟨y, hy⟩ : ∃ y, ys.head? = some y :=
      Option.isSome_iff_exists.mp (isSome_head?.mpr (ne_nil_of_length_pos (by omega)))
    have hget : (xs ++ ys)[xs.length]? = some y := by
      rw [getElem?_append_right (Nat.le_refl _), Nat.sub_self, ← head?_eq_getElem?, hy]
    have hmark := marked_of_within h hmap (by omega) (by omega) hget
    exact absurd hmark (by simp [hhead y hy])

/-- Beside an element without a mark. -/
theorem replace_cut (hpat : pat ≠ []) {xs ys : List (α × Bool)} {c : α}
    (h : Within pat (xs ++ (c, false) :: ys)) :
    replace pat to_ (xs.map Prod.fst ++ c :: ys.map Prod.fst) =
      replace pat to_ (xs.map Prod.fst) ++ c :: replace pat to_ (ys.map Prod.fst) := by
  have hbefore := @replace_append_of_within α _ pat to_ hpat xs ((c, false) :: ys) h
    (.inr (by rintro y ⟨⟩; rfl))
  have htail : Within pat ([(c, false)] ++ ys) := h.mono (suffix_append xs _).isInfix
  have hafter := @replace_append_of_within α _ pat to_ hpat [(c, false)] ys htail
    (.inl (by rintro y ⟨⟩; rfl))
  have hone : ¬ pat <:+: [c] :=
    not_infix_of_within hpat (htail.mono (prefix_append [(c, false)] ys).isInfix)
  have hkeep : replace pat to_ ([(c, false)].map Prod.fst) = [c] := replace_eq_self hone
  rw [map_append] at hbefore hafter
  rw [show c :: ys.map Prod.fst = ((c, false) :: ys).map Prod.fst from rfl, hbefore]
  rw [show ((c, false) :: ys).map Prod.fst = [(c, false)].map Prod.fst ++ ys.map Prod.fst from rfl,
    hafter, hkeep]
  rfl

end Abbey.Lib
