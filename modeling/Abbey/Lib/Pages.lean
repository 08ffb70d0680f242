import Abbey.Lib.Checked
import Mathlib.Data.List.Sort

/-!
# Reading a listing page by page

A listing is served in pages.  A page holds some items and, unless it is
the last one, a mark to continue after.  `follow` reads page after page
until there is no mark.

* `follow_complete`: when every page continues the listing from its mark,
  enough requests read the whole listing, every item once and in order.
* `follow_restarts`: when every page starts the listing again, a reading
  that ends has the items of the listing only if its first page was the
  last one.
* `filter_after` and `eq_of_perm_of_sorted` are about listings in the order
  of a key: the rows with a greater key are the rest of the listing, and
  there is one such order.
-/

namespace Abbey.Lib

open List

variable {α κ ι ε : Type}
variable {asks : List ι} {after : Option κ} {key : α → Nat} {ask : ι}

/-- Some items of a listing, and the mark to continue after. -/
structure Page (α κ : Type) where
  items : List α
  next : Option κ

/-- Read one page for each request until a page is the last.  `none` says
that the requests ended first. -/
def follow (serve : Option κ → ι → Except ε (Page α κ)) :
    Option κ → List ι → Except ε (Option (List α))
  | _, [] => .ok none
  | after, ask :: asks => do
    let page ← serve after ask
    match page.next with
    | none => .ok (some page.items)
    | some mark => do
      let later ← follow serve (some mark) asks
      .ok (later.map (page.items ++ ·))

/-- A page that begins with the first item of `back` and leaves something
exactly when it carries a mark, the mark of its last item. -/
inductive Continues (mark : α → κ) (back : List α) : Page α κ → Prop where
  | last : Continues mark back ⟨back, none⟩
  | more (items : List α) (final : α) (rest : List α) (split : back = items ++ final :: rest)
      (left : rest ≠ []) : Continues mark back ⟨items ++ [final], some (mark final)⟩

variable {serve : Option κ → ι → Except ε (Page α κ)} {mark : α → κ} {rows : List α}

theorem follow_cons_last {items : List α} (h : serve after ask = .ok ⟨items, none⟩) :
    follow serve after (ask :: asks) = .ok (some items) := by
  simp only [follow, h, ok_bind]

theorem follow_cons_more {items found : List α} {next : κ}
    (h : serve after ask = .ok ⟨items, some next⟩) :
    follow serve after (ask :: asks) = .ok (some found) ↔
      ∃ later, follow serve (some next) asks = .ok (some later) ∧ items ++ later = found := by
  simp only [follow, h, ok_bind, bind_ok_iff, Except.ok.injEq, Option.map_eq_some_iff]
  constructor
  · rintro ⟨_, hlater, later, rfl, hfound⟩
    exact ⟨later, hlater, hfound⟩
  · rintro ⟨later, hlater, hfound⟩
    exact ⟨some later, hlater, later, rfl, hfound⟩

section

variable
  (hserve : ∀ front back ask, ask ∈ asks → rows = front ++ back → ∃ page, serve (front.getLast?.map mark) ask = .ok page ∧ Continues mark back page)

include hserve

/-- From the mark of the last item read, the rest is read. -/
theorem follow_continues {front back : List α}
    (hrows : rows = front ++ back) (hback : back.length < asks.length) :
    follow serve (front.getLast?.map mark) asks = .ok (some back) := by
  induction asks generalizing front back with
  | nil => simp at hback
  | cons ask asks ih =>
    obtain ⟨page, hpage, hcont⟩ := hserve front back ask mem_cons_self hrows
    cases hcont with
    | last => exact follow_cons_last hpage
    | more items final rest hsplit hleft =>
      have hrows' : rows = (front ++ items ++ [final]) ++ rest := by
        rw [hrows, hsplit]
        simp
      have hlength : rest.length < asks.length := by
        rw [hsplit] at hback
        simp only [length_append, length_cons] at hback
        omega
      have hlater := ih (fun front back ask hask h => hserve front back ask
        (mem_cons_of_mem _ hask) h) hrows' hlength
      rw [getLast?_concat, Option.map_some] at hlater
      rw [follow_cons_more hpage]
      exact ⟨rest, hlater, by simp [hsplit]⟩

/-- Pages that continue the listing read all of it. -/
theorem follow_complete
    (hlength : rows.length < asks.length) : follow serve none asks = .ok (some rows) := by
  have hstart : rows = [] ++ rows := rfl
  exact follow_continues hserve hstart hlength

end

/-! ## Pages that start again -/

section

variable
  (hserve : ∀ front back ask, ask ∈ asks → rows = front ++ back → ∃ page, serve (front.getLast?.map mark) ask = .ok page ∧ Continues mark rows page)

include hserve

/-- Every page starts the listing, so a reading that ends has at least all
its items.  Only the marks of items that were read are asked for. -/
theorem length_le_of_restarts {front back items : List α} (hrows : rows = front ++ back)
    (h : follow serve (front.getLast?.map mark) asks = .ok (some items)) :
    rows.length ≤ items.length := by
  induction asks generalizing front back items with
  | nil => simp [follow] at h
  | cons ask asks ih =>
    obtain ⟨page, hpage, hcont⟩ := hserve front back ask mem_cons_self hrows
    cases hcont with
    | last =>
      rw [follow_cons_last hpage] at h
      cases h
      exact Nat.le_refl _
    | more first final rest hsplit hleft =>
      obtain ⟨later, hlater, rfl⟩ := (follow_cons_more hpage).mp h
      have hrows' : rows = (first ++ [final]) ++ rest := by
        rw [hsplit]
        simp
      rw [← Option.map_some, ← getLast?_concat] at hlater
      have hle := ih (fun front back ask hask h => hserve front back ask
        (mem_cons_of_mem _ hask) h) hrows' hlater
      rw [length_append]
      omega

/-- A reading with pages that start again is complete exactly when the
first page is the last one. -/
theorem follow_restarts {page : Page α κ}
    (hpage : serve none ask = .ok page) (hcont : Continues mark rows page) :
    follow serve none (ask :: asks) = .ok (some rows) ↔ page.next = none := by
  cases hcont with
  | last => simp only [follow_cons_last hpage]
  | more first final rest hsplit hleft =>
    simp only [reduceCtorEq, iff_false]
    intro h
    obtain ⟨later, hlater, heq⟩ := (follow_cons_more hpage).mp h
    have hrows : rows = (first ++ [final]) ++ rest := by
      rw [hsplit]
      simp
    rw [← Option.map_some, ← getLast?_concat] at hlater
    have hle := length_le_of_restarts hserve hrows hlater
    have hlength := congrArg length heq
    simp only [length_append, length_cons, length_nil] at hlength
    omega

end

/-! ## Keysets -/

/-- Rows in the order of a positive key, cut after one of them: those with a
greater key are the rest. -/
theorem filter_after {front back : List α}
    (hsorted : (front ++ back).Pairwise (fun a b => key a < key b))
    (hpos : ∀ r ∈ front ++ back, 0 < key r) :
    (front ++ back).filter (fun r => decide ((front.getLast?.map key).getD 0 < key r)) = back := by
  rw [pairwise_append] at hsorted
  obtain ⟨hfront, _, hcross⟩ := hsorted
  rcases eq_nil_or_concat front with rfl | ⟨init, last, rfl⟩
  · simp only [nil_append] at hpos ⊢
    rw [filter_eq_self]
    intro r hr
    exact decide_eq_true (hpos r hr)
  · rw [concat_eq_append] at hfront hcross ⊢
    rw [getLast?_concat, Option.map_some, Option.getD_some, filter_append]
    have hbefore : (init ++ [last]).filter (fun r => decide (key last < key r)) = [] := by
      rw [filter_eq_nil_iff]
      intro r hr
      rw [decide_eq_true_eq, Nat.not_lt]
      rw [mem_append, mem_singleton] at hr
      rcases hr with hr | rfl
      · exact Nat.le_of_lt ((pairwise_append.mp hfront).2.2 r hr last (by simp))
      · exact Nat.le_refl _
    have hafter : back.filter (fun r => decide (key last < key r)) = back := by
      rw [filter_eq_self]
      intro r hr
      exact decide_eq_true (hcross last (by simp) r hr)
    rw [hbefore, hafter, nil_append]

/-- Rows with distinct keys have one order. -/
theorem eq_of_perm_of_sorted {xs ys : List α} (hperm : xs.Perm ys)
    (hxs : xs.Pairwise (fun a b => key a ≤ key b)) (hys : ys.Pairwise (fun a b => key a < key b)) :
    xs = ys := by
  refine hperm.eq_of_pairwise ?_ hxs (hys.imp Nat.le_of_lt)
  intro a b ha hb hab hba
  by_contra hne
  have hdistinct : ys.Pairwise (fun a b => key a ≠ key b) := hys.imp (fun h => Nat.ne_of_lt h)
  have hkeys : (ys.map key).Nodup := pairwise_map.mpr hdistinct
  exact hne (inj_on_of_nodup_map hkeys (hperm.mem_iff.mp ha) hb (Nat.le_antisymm hab hba))

end Abbey.Lib
