import Mathlib.Data.Finset.Basic
import Mathlib.Data.List.DropRight
import Mathlib.Data.List.Nodup
import Mathlib.Tactic.Common

/-!
# Bounded windows with a memory

A window keeps the newest observations and the keys of everything it ever
accepted.  A key is accepted once; an observation that is kept can be
amended in place or withdrawn, and the window can be cleared.

* `Change.Sound.apply`: a change keeps the bound, the distinct keys and that
  the memory covers the window.
* `gained_apply`: what a change brings into a window is a key that the
  memory did not have.
* `suffix_apply`: the window stays a final part of the record, which is
  the same window without its bound.
-/

namespace Abbey.Lib

open List

variable {α κ : Type} [DecidableEq κ]

structure Window (α κ : Type) where
  kept : List α
  seen : Finset κ

inductive Change (α κ : Type) where
  | accept (x : α)
  | amend (key : κ) (f : α → α)
  | withdraw (key : κ)
  | clear

/-- An amendment keeps the key of the observation. -/
def Change.KeepsKey (key : α → κ) : Change α κ → Prop
  | .amend _ f => ∀ x, key (f x) = key x
  | _ => True

namespace Window

/-- A change without a bound. -/
def record (key : α → κ) (w : Window α κ) : Change α κ → Window α κ
  | .accept x => if key x ∈ w.seen then w else ⟨w.kept ++ [x], insert (key x) w.seen⟩
  | .amend k f => { w with kept := w.kept.map (fun x => if key x = k then f x else x) }
  | .withdraw k => { w with kept := w.kept.filter (fun x => key x ≠ k) }
  | .clear => { w with kept := [] }

/-- A change of a window that keeps the newest `cap` observations. -/
def apply (key : α → κ) (cap : Nat) (w : Window α κ) (c : Change α κ) : Window α κ :=
  { w.record key c with kept := (w.record key c).kept.rtake cap }

/-- The keys that are in the second window and not in the first. -/
def gained (key : α → κ) (before after : Window α κ) : List κ :=
  (after.kept.map key).filter (fun k => k ∉ before.kept.map key)

structure Sound (key : α → κ) (cap : Nat) (w : Window α κ) : Prop where
  bounded : w.kept.length ≤ cap
  distinct : (w.kept.map key).Nodup
  covered : ∀ x ∈ w.kept, key x ∈ w.seen

variable {key : α → κ} {cap : Nat} {w h : Window α κ} {c : Change α κ}

/-! ## One change -/

theorem rtake_of_length_le {l : List α} (hlength : l.length ≤ cap) : l.rtake cap = l := by
  rw [rtake, Nat.sub_eq_zero_of_le hlength, drop_zero]

theorem rtake_suffix (l : List α) (n : Nat) : l.rtake n <:+ l := drop_suffix _ l

theorem length_rtake_le (l : List α) (n : Nat) : (l.rtake n).length ≤ n := by
  rw [rtake, length_drop]
  omega

theorem seen_apply : (w.apply key cap c).seen = (w.record key c).seen := rfl

theorem seen_subset_record (w : Window α κ) (c : Change α κ) : w.seen ⊆ (w.record key c).seen := by
  cases c with
  | accept x =>
    unfold record
    dsimp only
    by_cases hseen : key x ∈ w.seen
    · rw [if_pos hseen]
    · rw [if_neg hseen]
      exact Finset.subset_insert _ _
  | amend k f | withdraw k | clear => exact fun _ hk => hk

/-- Only an acceptance adds to the memory. -/
theorem mem_seen_record (h : k ∈ (w.record key c).seen) :
    k ∈ w.seen ∨ ∃ x, c = .accept x ∧ k = key x := by
  cases c with
  | accept x =>
    unfold record at h
    dsimp only at h
    by_cases hseen : key x ∈ w.seen
    · rw [if_pos hseen] at h
      exact .inl h
    · rw [if_neg hseen] at h
      rcases Finset.mem_insert.mp h with hnew | hold
      · exact .inr ⟨x, rfl, hnew⟩
      · exact .inl hold
  | amend k' f | withdraw k' | clear => exact .inl h

/-- The keys after an amendment are those before it. -/
theorem map_key_amend (l : List α) (k : κ) {f : α → α} (hf : ∀ x, key (f x) = key x) :
    (l.map (fun x => if key x = k then f x else x)).map key = l.map key := by
  rw [map_map]
  apply map_congr_left
  intro x _
  show key (if key x = k then f x else x) = key x
  by_cases hk : key x = k
  · rw [if_pos hk, hf]
  · rw [if_neg hk]

theorem keys_record (w : Window α κ) (hkey : c.KeepsKey key) :
    (∃ x, c = .accept x ∧ key x ∉ w.seen ∧
      ((w.record key c).kept.map key) = w.kept.map key ++ [key x]) ∨
    ((w.record key c).kept.map key).Sublist (w.kept.map key) := by
  cases c with
  | accept x =>
    by_cases hseen : key x ∈ w.seen
    · right
      rw [record, if_pos hseen]
    · left
      refine ⟨x, rfl, hseen, ?_⟩
      rw [record, if_neg hseen, map_append, map_singleton]
  | amend k f =>
    right
    rw [record, map_key_amend _ _ hkey]
  | withdraw k => exact .inr (filter_sublist.map key)
  | clear => exact .inr (nil_sublist _)

/-- What the record holds is covered by its memory. -/
theorem covered_record (hcovered : ∀ x ∈ w.kept, key x ∈ w.seen) (hkey : c.KeepsKey key) :
    ∀ x ∈ (w.record key c).kept, key x ∈ (w.record key c).seen := by
  intro x hx
  have hmem : key x ∈ (w.record key c).kept.map key := mem_map_of_mem hx
  have hold : key x ∈ w.kept.map key → key x ∈ (w.record key c).seen := by
    intro hin
    obtain ⟨y, hy, heq⟩ := mem_map.mp hin
    rw [← heq]
    exact seen_subset_record w c (hcovered y hy)
  rcases keys_record w hkey with ⟨y, rfl, hfresh, heq⟩ | hsub
  · rw [heq, mem_append, mem_singleton] at hmem
    rcases hmem with hin | hnew
    · exact hold hin
    · rw [hnew, record, if_neg hfresh]
      exact Finset.mem_insert_self _ _
  · exact hold (hsub.subset hmem)

theorem distinct_record (hcovered : ∀ x ∈ w.kept, key x ∈ w.seen)
    (hdistinct : (w.kept.map key).Nodup) (hkey : c.KeepsKey key) :
    ((w.record key c).kept.map key).Nodup := by
  rcases keys_record w hkey with ⟨x, rfl, hfresh, heq⟩ | hsub
  · rw [heq]
    rw [← concat_eq_append]
    refine List.Nodup.concat ?_ hdistinct
    intro hin
    obtain ⟨y, hy, hsame⟩ := mem_map.mp hin
    exact hfresh (hsame ▸ hcovered y hy)
  · exact hdistinct.sublist hsub

theorem Sound.apply (hw : w.Sound key cap) (hkey : c.KeepsKey key) :
    (w.apply key cap c).Sound key cap := by
  refine ⟨length_rtake_le _ _, ?_, ?_⟩
  · exact (distinct_record hw.covered hw.distinct hkey).sublist
      (((rtake_suffix _ _).sublist).map key)
  · intro x hx
    exact covered_record hw.covered hkey x ((rtake_suffix _ _).subset hx)

theorem mem_gained {after : Window α κ} :
    k ∈ gained key w after ↔ k ∈ after.kept.map key ∧ k ∉ w.kept.map key := by
  unfold gained
  rw [mem_filter, decide_eq_true_iff]

/-- A key that enters was not in the memory, and only an acceptance brings
one. -/
theorem gained_apply (hkey : c.KeepsKey key) :
    gained key w (w.apply key cap c) = [] ∨ ∃ x, c = .accept x ∧ key x ∉ w.seen ∧
      gained key w (w.apply key cap c) = [key x] := by
  have hsub : ((w.apply key cap c).kept.map key).Sublist ((w.record key c).kept.map key) :=
    (rtake_suffix _ _).sublist.map key
  rcases keys_record w hkey with ⟨x, rfl, hfresh, heq⟩ | hold
  · rw [heq] at hsub
    have hnone : (w.kept.map key).filter (fun k => k ∉ w.kept.map key) = [] := by
      apply filter_eq_nil_iff.mpr
      intro k hk
      simpa using hk
    have hle := hsub.filter (fun k => k ∉ w.kept.map key)
    rw [filter_append, hnone, nil_append] at hle
    have hone := hle.trans filter_sublist
    rcases sublist_cons_iff.mp hone with hnil | ⟨r, heq', hr⟩
    · exact .inl (sublist_nil.mp hnil)
    · rw [sublist_nil.mp hr] at heq'
      exact .inr ⟨x, rfl, hfresh, heq'⟩
  · left
    apply filter_eq_nil_iff.mpr
    intro k hk
    have hin := (hsub.trans hold).subset hk
    simpa using hin

/-- The window is a final part of the record. -/
theorem suffix_apply (hsuffix : w.kept <:+ h.kept) (hseen : w.seen = h.seen) (c : Change α κ) :
    (w.apply key cap c).kept <:+ (h.record key c).kept ∧
      (w.apply key cap c).seen = (h.record key c).seen := by
  have hrecord : (w.record key c).kept <:+ (h.record key c).kept ∧
      (w.record key c).seen = (h.record key c).seen := by
    cases c with
    | accept x =>
      by_cases hx : key x ∈ w.seen
      · rw [record, if_pos hx, record, if_pos (hseen ▸ hx)]
        exact ⟨hsuffix, hseen⟩
      · rw [record, if_neg hx, record, if_neg (hseen ▸ hx)]
        obtain ⟨t, ht⟩ := hsuffix
        refine ⟨⟨t, ?_⟩, by rw [hseen]⟩
        rw [← ht, append_assoc]
    | amend k f => exact ⟨hsuffix.map _, hseen⟩
    | withdraw k => exact ⟨hsuffix.filter _, hseen⟩
    | clear => exact ⟨List.suffix_refl _, hseen⟩
  exact ⟨(rtake_suffix _ _).trans hrecord.1, hrecord.2⟩

end Window

end Abbey.Lib
