import Mathlib

/-!
# Inventories over a range of slots

What is counted over a range of slots changes by what changes in one slot.
-/

namespace DiosPool.Foundation

variable {α M : Type*} [AddCommMonoid M]

theorem sum_range_update_add {n index : ℕ} (hindex : index < n) (weight : ℕ → α → M)
    (slots : ℕ → α) (value : α) :
    ∑ slot ∈ Finset.range n, weight slot (Function.update slots index value slot) +
        weight index (slots index) =
      ∑ slot ∈ Finset.range n, weight slot (slots slot) + weight index value := by
  have hmem : index ∈ Finset.range n := Finset.mem_range.mpr hindex
  have hrest : ∑ slot ∈ (Finset.range n).erase index,
        weight slot (Function.update slots index value slot) =
      ∑ slot ∈ (Finset.range n).erase index, weight slot (slots slot) := by
    apply Finset.sum_congr rfl
    intro slot hslot
    rw [Function.update_of_ne (Finset.ne_of_mem_erase hslot)]
  rw [← Finset.add_sum_erase _ _ hmem, ← Finset.add_sum_erase _ _ hmem, hrest,
    Function.update_self]
  abel

/-- A change that does not change the weight of its slot. -/
theorem sum_range_update_of_eq (n : ℕ) {index : ℕ} (weight : ℕ → α → M) (slots : ℕ → α) (value : α)
    (h : weight index value = weight index (slots index)) :
    ∑ slot ∈ Finset.range n, weight slot (Function.update slots index value slot) =
      ∑ slot ∈ Finset.range n, weight slot (slots slot) := by
  apply Finset.sum_congr rfl
  intro slot _
  by_cases hslot : slot = index
  · subst hslot
    rw [Function.update_self, h]
  · rw [Function.update_of_ne hslot]

/-- Different members are counted at most as often as there are members. -/
theorem sum_count_le_card {ι β : Type*} [DecidableEq β] (indices : Finset ι) (member : ι → β)
    (hinjective : Set.InjOn member indices) (members : Multiset β) :
    ∑ index ∈ indices, members.count (member index) ≤ members.card :=
  calc ∑ index ∈ indices, members.count (member index)
      = ∑ value ∈ indices.image member, members.count value := by rw [Finset.sum_image hinjective]
    _ ≤ ∑ value ∈ members.toFinset, members.count value := by
      apply Finset.sum_le_sum_of_ne_zero
      intro value _ hcount
      exact Multiset.mem_toFinset.mpr (Multiset.count_ne_zero.mp hcount)
    _ = members.card := Multiset.toFinset_sum_count_eq members

/-- Distinct numbers below a bound, one of the numbers below it missing. -/
theorem length_lt_of_count_eq_zero {n value : ℕ} {list : List ℕ} (hvalue : value < n)
    (hmissing : list.count value = 0) (hcount : ∀ other, list.count other ≤ if other < n then 1 else 0) :
    list.length < n := by
  have hnodup : (value :: list).Nodup := by
    rw [List.nodup_cons, List.nodup_iff_count_le_one]
    refine ⟨List.count_eq_zero.mp hmissing, fun other ↦ (hcount other).trans ?_⟩
    split <;> omega
  have hsubset : (value :: list) ⊆ List.range n := by
    intro other hother
    rw [List.mem_range]
    rcases List.mem_cons.mp hother with rfl | hmem
    · exact hvalue
    · have hother := hcount other
      have hpos := List.count_pos_iff.mpr hmem
      split at hother <;> omega
  have hlength := (hnodup.subperm hsubset).length_le
  rw [List.length_range, List.length_cons] at hlength
  exact hlength

end DiosPool.Foundation
