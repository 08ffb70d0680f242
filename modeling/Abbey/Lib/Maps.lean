import Mathlib.Data.List.Nodup
import Mathlib.Tactic.Common
import Abbey.Lib.Checked

/-!
# Values of ordered maps

The list of the values of an ordered map, read by key.
-/

namespace Abbey.Lib

open Std (ExtTreeMap TransCmp LawfulEqCmp)

variable {α β : Type} {cmp : α → α → Ordering} [TransCmp cmp]
variable {t : ExtTreeMap α β cmp}

theorem values_eq_map_toList (t : ExtTreeMap α β cmp) : t.values = t.toList.map Prod.snd := by
  rcases t with ⟨⟨q⟩⟩
  induction q using Quotient.ind with
  | _ t =>
    show t.inner.values = (Std.DTreeMap.Internal.Impl.Const.toList t.inner).map Prod.snd
    rw [Std.DTreeMap.Internal.Impl.values_eq_map_snd,
      Std.DTreeMap.Internal.Impl.Const.toList_eq_toListModel_map, List.map_map]
    rfl

variable [LawfulEqCmp cmp]

theorem mem_values : v ∈ t.values ↔ ∃ k : α, t[k]? = some v := by
  rw [values_eq_map_toList, List.mem_map]
  constructor
  · rintro ⟨⟨k, x⟩, hmem, rfl⟩
    exact ⟨k, ExtTreeMap.mem_toList_iff_getElem?_eq_some.mp hmem⟩
  · rintro ⟨k, hk⟩
    exact ⟨(k, v), ExtTreeMap.mem_toList_iff_getElem?_eq_some.mpr hk, rfl⟩

/-- Values that carry their key have distinct keys. -/
theorem nodup_values {id : β → α} (h : ∀ (k : α) (v : β), t[k]? = some v → id v = k) :
    (t.values.map id).Nodup := by
  have hkeys : t.values.map id = t.keys := by
    rw [values_eq_map_toList, List.map_map, ← ExtTreeMap.map_fst_toList_eq_keys]
    apply List.map_congr_left
    intro entry hentry
    exact h entry.1 entry.2 (ExtTreeMap.mem_toList_iff_getElem?_eq_some.mp hentry)
  rw [hkeys]
  refine (ExtTreeMap.distinct_keys (t := t)).imp ?_
  intro a b hne heq
  rw [heq] at hne
  exact hne Std.ReflCmp.compare_self

end Abbey.Lib
