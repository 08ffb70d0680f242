import Mathlib.Data.List.Destutter
import Mathlib.Data.List.Nodup
import Mathlib.Data.List.Perm.Basic
import Mathlib.Data.List.Sort
import Abbey.Recall.Facts

/-!
# The keys of facts

A fact is found through text: a scan of the keys with a prefix, the part
after the last colon, a decimal number.  This module says that the scan of
an ordered map is a filter of its rows (`kvWithPrefix_eq_filter`), and that
the key of a fact names one guild and one id, also for a guild with colons
in its name (`parse_suffix`, `location_factKey`).
-/

namespace Abbey.Recall

open Abbey.Lib List Option
open WdbxStore

variable {F : Type}
variable {id : Nat} {start a b x : List Char} {guild other : String}

/-! ## Scans -/

/-- A scan that skips to a bound and stops at the first other row, over rows
in order. -/
theorem takeWhile_dropWhile_eq_filter {α : Type} {l : List α} {below p : α → Bool}
    (hbelow : l.Pairwise (fun a b => below b = true → below a))
    (hp : l.Pairwise (fun a b => below a = false → p b → p a))
    (hdisjoint : ∀ a, p a → below a = false) :
    (l.dropWhile below).takeWhile p = l.filter p := by
  induction l with
  | nil => rfl
  | cons a l ih =>
    obtain ⟨hbelow_a, hbelow_l⟩ := pairwise_cons.mp hbelow
    obtain ⟨hp_a, hp_l⟩ := pairwise_cons.mp hp
    have hrest := ih hbelow_l hp_l
    by_cases ha : below a
    · have hpa : p a = false := by
        rw [Bool.eq_false_iff]
        intro h
        rw [hdisjoint a h] at ha
        cases ha
      rw [dropWhile_cons_of_pos ha, filter_cons_of_neg (by simp [hpa]), hrest]
    · have hl : l.dropWhile below = l := by
        rw [dropWhile_eq_self_iff]
        intro hlen hhead
        exact ha (hbelow_a _ (getElem_mem hlen) hhead)
      rw [hl] at hrest
      rw [dropWhile_cons_of_neg ha]
      rw [Bool.not_eq_true] at ha
      by_cases hpa : p a
      · rw [takeWhile_cons_of_pos hpa, filter_cons_of_pos hpa, hrest]
      · rw [takeWhile_cons_of_neg hpa, filter_cons_of_neg hpa, eq_comm, filter_eq_nil_iff]
        intro b hb hpb
        exact hpa (hp_a b hb ha hpb)

/-- A text between a prefix and a text with the prefix has it too. -/
theorem prefix_of_between (hlow : ¬ a < start) (hhigh : a < b) (h : start <+: b) : start <+: a := by
  induction start generalizing a b with
  | nil => exact nil_prefix
  | cons c start ih =>
    obtain ⟨rest, rfl⟩ := h
    cases a with
    | nil => exact absurd (nil_lt_cons c start) hlow
    | cons d a =>
      rw [cons_lt_cons_iff, not_or, not_and] at hlow
      rw [cons_append, cons_lt_cons_iff] at hhigh
      rcases hhigh with hlt | ⟨rfl, hlt⟩
      · exact absurd hlt hlow.1
      · exact cons_prefix_cons.mpr ⟨rfl, ih (hlow.2 rfl) hlt ⟨rest, rfl⟩⟩

theorem not_lt_of_prefix (h : start <+: a) : ¬ a < start := by
  induction start generalizing a with
  | nil => exact not_lt_nil a
  | cons c start ih =>
    obtain ⟨rest, rfl⟩ := h
    rw [cons_append, cons_lt_cons_iff, not_or, not_and]
    exact ⟨lt_irrefl c, fun _ => ih ⟨rest, rfl⟩⟩

theorem toList_ascending (m : BTreeMap) : m.toList.Pairwise (fun a b => a.1 < b.1) := by
  refine (Std.ExtTreeMap.ordered_keys_toList (t := m)).imp ?_
  intro a b h
  exact compare_lt_iff_lt.mp h

theorem kvWithPrefix_eq_filter (store : WdbxStore F) (start : String) : store.kvWithPrefix start =
      store.kv.toList.filter (fun row => start.toList.isPrefixOf row.1.toList) := by
  unfold kvWithPrefix
  have horder := toList_ascending store.kv
  apply takeWhile_dropWhile_eq_filter
  · refine horder.imp ?_
    intro a b hab hb
    have hb' : b.1 < start := by simpa using hb
    simpa using lt_trans hab hb'
  · refine horder.imp ?_
    intro a b hab ha hb
    have ha' : ¬ a.1 < start := by simpa using ha
    rw [List.isPrefixOf_iff_prefix] at hb ⊢
    rw [String.lt_iff_toList_lt] at hab ha'
    exact prefix_of_between ha' hab hb
  · intro a ha
    rw [List.isPrefixOf_iff_prefix] at ha
    have hlt := not_lt_of_prefix ha
    rw [← String.lt_iff_toList_lt] at hlt
    simpa using hlt

theorem toList_nodup (m : BTreeMap) : m.toList.Nodup :=
  (toList_ascending m).imp (fun hab heq => absurd (heq ▸ hab) (lt_irrefl _))

/-- Rows in any order, sorted by a number of theirs, with repeats removed. -/
theorem sorted_of_perm {α : Type} [DecidableEq α] {l sorted : List α} (number : α → Nat)
    (hperm : l.Perm sorted) (hsorted : sorted.Pairwise (fun a b => number a < number b)) :
    (l.insertionSort (fun a b => number a ≤ number b)).destutter (· ≠ ·) = sorted := by
  have hsame := (perm_insertionSort (fun a b => number a ≤ number b) l).trans hperm
  have hnodup : (sorted.map number).Nodup :=
    pairwise_map.mpr (hsorted.imp (fun h => Nat.ne_of_lt h))
  have heq : l.insertionSort (fun a b => number a ≤ number b) = sorted := by
    refine hsame.eq_of_pairwise ?_ (pairwise_insertionSort _ l)
      (hsorted.imp (fun h => Nat.le_of_lt h))
    intro a b ha hb hab hba
    exact inj_on_of_nodup_map hnodup (hsame.mem_iff.mp ha) hb (le_antisymm hab hba)
  rw [heq]
  apply destutter_of_isChain
  apply List.Pairwise.isChain
  exact hsorted.imp (fun h heq => absurd (heq ▸ h) (lt_irrefl _))

/-! ## The last colon -/

theorem append_colon_inj (h : a ++ ':' :: x = b ++ ':' :: y)
    (hx : ':' ∉ x) (hy : ':' ∉ y) : a = b ∧ x = y := by
  rcases append_eq_append_iff.mp h with ⟨mid, hb, hmid⟩ | ⟨mid, ha, hmid⟩
  · cases mid with
    | nil => exact ⟨by simpa using hb.symm, (cons.inj hmid).2⟩
    | cons c mid =>
      have hx' : x = mid ++ ':' :: y := (cons.inj hmid).2
      exact absurd (by rw [hx']; simp) hx
  · cases mid with
    | nil => exact ⟨by simpa using ha, ((cons.inj hmid).2).symm⟩
    | cons c mid =>
      have hy' : y = mid ++ ':' :: x := (cons.inj hmid).2
      exact absurd (by rw [hy']; simp) hy

theorem rsplitOnce_append (hx : ':' ∉ x) : rsplitOnce (a ++ ':' :: x) = some (a, x) := by
  have hall : ∀ c ∈ x.reverse, decide (c ≠ ':') := by
    intro c hc
    have hne : c ≠ ':' := fun heq => hx (heq ▸ mem_reverse.mp hc)
    simpa using hne
  have hreverse : (a ++ ':' :: x).reverse = x.reverse ++ ':' :: a.reverse := by simp
  unfold rsplitOnce
  rw [if_pos (by simp)]
  unfold rdropWhile rtakeWhile
  rw [hreverse, dropWhile_append_of_pos hall, takeWhile_append_of_pos hall]
  simp

/-! ## Numbers -/

/-- A parsed number has no colon. -/
theorem colon_notMem_of_parseU64 (h : parseU64 cs = some id) : ':' ∉ cs := by
  intro hmem
  have hnot : ':'.isDigit ≠ true := by decide
  unfold parseU64 at h
  by_cases hplus : cs.head? = some '+'
  · simp only [if_pos hplus, ite_none_right_eq_some] at h
    obtain ⟨⟨_, hdigits, _⟩, _⟩ := h
    obtain ⟨rest, rfl⟩ := head?_eq_some_iff.mp hplus
    rcases mem_cons.mp hmem with heq | hrest
    · exact absurd heq (by decide)
    · exact hnot (all_eq_true.mp hdigits _ hrest)
  · simp only [if_neg hplus, ite_none_right_eq_some] at h
    obtain ⟨⟨_, hdigits, _⟩, _⟩ := h
    exact hnot (all_eq_true.mp hdigits _ hmem)

theorem toList_toString (n : Nat) : (toString n).toList = Nat.toDigits 10 n := by
  show (Nat.repr n).toList = _
  rw [Nat.repr, String.toList_ofList]

theorem parseU64_toString (h : n ≤ u64Max) : parseU64 (toString n).toList = some n := by
  have hdigits : ∀ c ∈ Nat.toDigits 10 n, c.isDigit := fun c hc =>
    Nat.isDigit_of_mem_toDigits (by decide) (by decide) hc
  have hne : Nat.toDigits 10 n ≠ [] := ne_nil_of_length_pos Nat.length_toDigits_pos
  have hplus : (Nat.toDigits 10 n).head? ≠ some '+' := by
    intro hhead
    have hmem := mem_of_mem_head? (show '+' ∈ (Nat.toDigits 10 n).head? from hhead)
    exact absurd (hdigits _ hmem) (by decide)
  unfold parseU64
  rw [toList_toString]
  simp only [if_neg hplus]
  rw [if_pos ⟨hne, all_eq_true.mpr hdigits, by rw [Nat.ofDigitChars_ten_toDigits]; exact h⟩,
    Nat.ofDigitChars_ten_toDigits]

/-! ## The key of a fact -/

theorem toList_factKey (guild : String) (id : Nat) :
    (factKey guild id).toList = "mem:".toList ++ (guild.toList ++ ':' :: (toString id).toList) := by
  unfold factKey
  simp

theorem toList_factKeyPrefix (guild : String) :
    (factKeyPrefix guild).toList = "mem:".toList ++ (guild.toList ++ [':']) := by
  unfold factKeyPrefix
  simp

/-- What `guild_ids` reads from the key of a fact of any guild. -/
theorem parse_suffix (hid : id ≤ u64Max) :
    (if (factKeyPrefix guild).toList.isPrefixOf (factKey other id).toList then
      parseU64 ((factKey other id).toList.drop (factKeyPrefix guild).length) else none) =
      if other = guild then some id else none := by
  have hcolon : ':' ∉ (toString id).toList := colon_notMem_of_parseU64 (parseU64_toString hid)
  rw [← String.length_toList, toList_factKey, toList_factKeyPrefix]
  by_cases hguild : other = guild
  · subst hguild
    have hkey : "mem:".toList ++ (other.toList ++ ':' :: (toString id).toList) =
        ("mem:".toList ++ (other.toList ++ [':'])) ++ (toString id).toList := by simp
    rw [hkey, if_pos (List.isPrefixOf_iff_prefix.mpr (prefix_append _ _)), drop_left, if_pos rfl]
    exact parseU64_toString hid
  · rw [if_neg hguild]
    split_ifs with hstart
    · obtain ⟨rest, hrest⟩ := List.isPrefixOf_iff_prefix.mp hstart
      rw [← hrest, drop_left]
      cases hparse : parseU64 rest with
      | none => rfl
      | some n =>
        rw [append_assoc, append_cancel_left_eq, append_assoc, singleton_append] at hrest
        obtain ⟨heq, _⟩ := append_colon_inj hrest (colon_notMem_of_parseU64 hparse) hcolon
        exact absurd (String.toList_inj.mp heq).symm hguild
    · rfl

theorem location_factKey (hid : id ≤ u64Max) :
    location ((factKey guild id).toList.drop memPrefix.length) = some (id, guild) := by
  have hcolon : ':' ∉ (toString id).toList := colon_notMem_of_parseU64 (parseU64_toString hid)
  have hdrop : (factKey guild id).toList.drop memPrefix.length =
      guild.toList ++ ':' :: (toString id).toList := by
    rw [toList_factKey]
    exact drop_left
  rw [hdrop]
  unfold location
  rw [rsplitOnce_append hcolon]
  simp only [bind_eq_bind, bind_some, parseU64_toString hid, String.ofList_toList]

theorem memPrefix_factKey (guild : String) (id : Nat) :
    memPrefix.toList.isPrefixOf (factKey guild id).toList := by
  rw [List.isPrefixOf_iff_prefix, toList_factKey]
  exact prefix_append _ _

/-- A key names one guild and one id. -/
theorem factKey_inj (hid : id ≤ u64Max) (hid' : id' ≤ u64Max)
    (h : factKey guild id = factKey other id') : guild = other ∧ id = id' := by
  have hlocation : location ((factKey guild id).toList.drop memPrefix.length) = some (id, guild) :=
    location_factKey hid
  rw [h, location_factKey hid', some.injEq, Prod.mk.injEq] at hlocation
  exact ⟨hlocation.2.symm, hlocation.1.symm⟩

end Abbey.Recall
