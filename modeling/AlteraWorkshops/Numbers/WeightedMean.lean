import Mathlib.Algebra.Order.BigOperators.Ring.Finset
import Mathlib.Algebra.Order.Field.Basic

/-! The mean of positions under weights that are not negative. It lies among the positions
that have a weight, and strictly so if one of them is not at the end. -/

namespace AlteraWorkshops.Numbers

variable {ι k : Type*} [Fintype ι] [Field k]

def weightedMean (position weight : ι → k) : k :=
  (∑ i, position i * weight i) / ∑ i, weight i

theorem weightedMean_neg (position weight : ι → k) :
    weightedMean (fun i => -position i) weight = -weightedMean position weight := by
  simp only [weightedMean, neg_mul, Finset.sum_neg_distrib, neg_div]

/-- Two positions that have a weight. -/
theorem weightedMean_single_add_single [DecidableEq ι] (position : ι → k) (i j : ι) (x y : k) :
    weightedMean position (Pi.single i x + Pi.single j y) =
      (position i * x + position j * y) / (x + y) := by
  simp only [weightedMean, Pi.add_apply, mul_add, Finset.sum_add_distrib, Pi.single_apply,
    mul_ite, mul_zero, Finset.sum_ite_eq', Finset.mem_univ, if_true]

variable [LinearOrder k] [IsStrictOrderedRing k] {position weight : ι → k} {bound : k} {i : ι}

theorem total_pos (hw : ∀ i, 0 ≤ weight i) (hi : weight i ≠ 0) : 0 < ∑ i, weight i :=
  Finset.sum_pos' (fun i _ => hw i) ⟨i, Finset.mem_univ i, (hw i).lt_of_ne' hi⟩

/-- A position below the bound has a weight, and none above it has. -/
theorem weightedMean_lt (hw : ∀ i, 0 ≤ weight i) (hle : ∀ i, weight i ≠ 0 → position i ≤ bound)
    (hi : weight i ≠ 0) (hlt : position i < bound) : weightedMean position weight < bound := by
  rw [weightedMean, div_lt_iff₀ (total_pos hw hi), Finset.mul_sum]
  refine Finset.sum_lt_sum (fun j _ => ?_) ⟨i, Finset.mem_univ i, ?_⟩
  · rcases eq_or_ne (weight j) 0 with hj | hj
    · rw [hj, mul_zero, mul_zero]
    · exact mul_le_mul_of_nonneg_right (hle j hj) (hw j)
  · exact mul_lt_mul_of_pos_right hlt ((hw i).lt_of_ne' hi)

theorem lt_weightedMean (hw : ∀ i, 0 ≤ weight i) (hle : ∀ i, weight i ≠ 0 → bound ≤ position i)
    (hi : weight i ≠ 0) (hlt : bound < position i) : bound < weightedMean position weight := by
  have h : weightedMean (fun i => -position i) weight < -bound :=
    weightedMean_lt hw (fun j hj => neg_le_neg (hle j hj)) hi (neg_lt_neg hlt)
  rwa [weightedMean_neg, neg_lt_neg_iff] at h

end AlteraWorkshops.Numbers
