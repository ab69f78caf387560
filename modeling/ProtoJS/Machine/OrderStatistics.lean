import Mathlib

/-! # Order statistics of a list

In a sorted list the elements up to a place are at most the element there, and those from it on
are at least it. A mean lies between any bounds of its list.
-/

namespace ProtoJS.OrderStatistics

variable {α : Type*} [LinearOrder α] {l : List α} {i : ℕ} {m : α}

/-- What is at least the element of a place is at least all elements up to it. -/
theorem lt_countP_le (sorted : l.SortedLE) (inside : i < l.length) (above : l[i] ≤ m) :
    i < l.countP (· ≤ m) := by
  have upTo : ∀ x ∈ l.take (i + 1), x ≤ m := by
    intro x member
    obtain ⟨j, bound, rfl⟩ := List.mem_iff_getElem.mp member
    rw [List.length_take] at bound
    rw [List.getElem_take]
    exact (sorted.getElem_le_getElem_of_le (by omega)).trans above
  have counted : (l.take (i + 1)).countP (· ≤ m) = (l.take (i + 1)).length :=
    List.countP_eq_length.mpr fun x member => decide_eq_true (upTo x member)
  have part := (List.take_sublist (i + 1) l).countP_le (p := (· ≤ m))
  rw [counted, List.length_take] at part
  omega

/-- What is at most the element of a place is at most all elements from it on. -/
theorem length_le_countP_ge (sorted : l.SortedLE) (inside : i < l.length) (below : m ≤ l[i]) :
    l.length ≤ i + l.countP (m ≤ ·) := by
  have fromIt : ∀ x ∈ l.drop i, m ≤ x := by
    intro x member
    obtain ⟨j, bound, rfl⟩ := List.mem_iff_getElem.mp member
    rw [List.length_drop] at bound
    rw [List.getElem_drop]
    exact below.trans (sorted.getElem_le_getElem_of_le (by omega))
  have counted : (l.drop i).countP (m ≤ ·) = (l.drop i).length :=
    List.countP_eq_length.mpr fun x member => decide_eq_true (fromIt x member)
  have part := (List.drop_sublist i l).countP_le (p := (m ≤ ·))
  rw [counted, List.length_drop] at part
  omega

section Mean

variable [Field α] [IsStrictOrderedRing α] {low high : α}

theorem le_mean (nonempty : l ≠ []) (bound : ∀ x ∈ l, low ≤ x) : low ≤ l.sum / l.length := by
  have positive : (0 : α) < l.length := by exact_mod_cast List.length_pos_iff.mpr nonempty
  rw [le_div_iff₀ positive, mul_comm, ← nsmul_eq_mul]
  exact l.card_nsmul_le_sum low bound

theorem mean_le (nonempty : l ≠ []) (bound : ∀ x ∈ l, x ≤ high) : l.sum / l.length ≤ high := by
  have positive : (0 : α) < l.length := by exact_mod_cast List.length_pos_iff.mpr nonempty
  rw [div_le_iff₀ positive, mul_comm, ← nsmul_eq_mul]
  exact l.sum_le_card_nsmul high bound

end Mean

end ProtoJS.OrderStatistics
