import Mathlib.Algebra.BigOperators.Group.Finset.Piecewise
import Mathlib.Algebra.Order.BigOperators.Group.Finset

namespace OpenAFS.Lib

variable {ι : Type*} [DecidableEq ι]

theorem exists_common_of_weight {whole left right : Finset ι} (weight : ι → ℕ) (hl : left ⊆ whole) (hr : right ⊆ whole)
    (heavy : ∑ i ∈ whole, weight i < ∑ i ∈ left, weight i + ∑ i ∈ right, weight i) :
    ∃ i, i ∈ left ∧ i ∈ right := by
  by_contra none
  have apart : Disjoint left right :=
    Finset.disjoint_left.mpr fun i inLeft inRight => none ⟨i, inLeft, inRight⟩
  have bound : ∑ i ∈ left ∪ right, weight i ≤ ∑ i ∈ whole, weight i :=
    Finset.sum_le_sum_of_subset (Finset.union_subset hl hr)
  rw [Finset.sum_union apart] at bound
  omega

theorem sum_two_plus_one (whole : Finset ι) {chosen : ι} (mem : chosen ∈ whole) :
    ∑ i ∈ whole, (2 + if i = chosen then 1 else 0) = 2 * whole.card + 1 := by
  have twos : ∑ _i ∈ whole, 2 = whole.card * 2 := Finset.sum_const_nat fun _ _ => rfl
  rw [Finset.sum_add_distrib, twos, Finset.sum_ite_eq' whole chosen, if_pos mem, Nat.mul_comm]

end OpenAFS.Lib
