import AlteraWorkshops.Cnn.Neuron
import AlteraWorkshops.Cnn.Rounding
import AlteraWorkshops.Numbers.Digits
import Mathlib.Algebra.Order.BigOperators.Group.Finset
import Mathlib.Algebra.Order.Ring.Abs
import Mathlib.Data.List.GetD

/-! The sums of a neuron as integers. No product and no group of them leaves its width, and
a sum that stays in its own width is the sum of the rounded groups. -/

namespace AlteraWorkshops.Cnn

open Numbers (Fits resize roundShift fits_succ toInt_ofInt toInt_resize div_mod_succ_of_lt
  div_mod_succ_of_eq)

/-- The largest product of a value and a weight. -/
def productMax : ℤ := 127 * 127

/-- Weights as the package has them. -/
def Bounded (w : ℕ → ℤ) : Prop := ∀ i, |w i| ≤ 127

namespace Neuron

variable {n : Neuron} {x : CnnValues} {w : ℕ → ℤ} {a j m : ℕ}

/-- The products of `m` values from value `a` on. -/
def dot (x : CnnValues) (w : ℕ → ℤ) (a m : ℕ) : ℤ :=
  ∑ i ∈ Finset.range m, ((x (a + i)).val : ℤ) * w (a + i)

theorem dot_succ (x : CnnValues) (w : ℕ → ℤ) (a m : ℕ) :
    dot x w a (m + 1) = dot x w a m + (x (a + m)).val * w (a + m) := Finset.sum_range_succ _ _

theorem abs_product_le (hw : Bounded w) (i : ℕ) : |((x i).val : ℤ) * w i| ≤ productMax := by
  have hx : |((x i).val : ℤ)| ≤ 127 := by
    rw [abs_of_nonneg (by omega)]
    have hlt := (x i).isLt
    omega
  rw [abs_mul]
  exact mul_le_mul hx (hw i) (abs_nonneg _) (by norm_num)

theorem abs_dot_le (hw : Bounded w) (a m : ℕ) : |dot x w a m| ≤ m * productMax := by
  calc |dot x w a m| ≤ ∑ i ∈ Finset.range m, |((x (a + i)).val : ℤ) * w (a + i)| :=
        Finset.abs_sum_le_sum_abs _ _
    _ ≤ ∑ _i ∈ Finset.range m, productMax := Finset.sum_le_sum fun i _ => abs_product_le hw _
    _ = m * productMax := by rw [Finset.sum_const, Finset.card_range, nsmul_eq_mul]

/-! ### Groups -/

/-- The groups have one size. -/
def Tiled (n : Neuron) : Prop :=
  0 < n.realGroupSumSize ∧ n.groupSumResults * n.realGroupSumSize = n.calcSteps

instance (n : Neuron) : Decidable n.Tiled := inferInstanceAs (Decidable (_ ∧ _))

/-- A group of products fits its width. -/
theorem fits_dot (hw : Bounded w) (hm : m ≤ n.realGroupSumSize) :
    Fits n.groupSumTotalBits (dot x w a m) := by
  have hsize : m ≤ 2 ^ Nat.clog 2 n.realGroupSumSize := hm.trans (Nat.le_pow_clog one_lt_two _)
  have hbits : n.groupSumTotalBits - 1 = 14 + Nat.clog 2 n.realGroupSumSize := by
    unfold groupSumTotalBits productBits cnnValueResolution cnnWeightResolution
    omega
  have habs := abs_dot_le (x := x) hw a m
  have hscale : (m : ℤ) * productMax ≤ 2 ^ Nat.clog 2 n.realGroupSumSize * productMax := by
    have hcast : (m : ℤ) ≤ 2 ^ Nat.clog 2 n.realGroupSumSize := by exact_mod_cast hsize
    exact mul_le_mul_of_nonneg_right hcast (by decide)
  have hpos : (0 : ℤ) < 2 ^ Nat.clog 2 n.realGroupSumSize := by positivity
  have hmax : productMax = 16129 := rfl
  rw [abs_le] at habs
  rw [Fits, hbits, pow_add]
  rw [hmax] at habs hscale
  constructor <;> linarith [habs.1, habs.2]

/-- The variables of the loop after `m` products. -/
structure Grouped (n : Neuron) (x : CnnValues) (w : ℕ → ℤ) (m : ℕ)
    (s : GroupSums n.groupSumTotalBits) : Prop where
  unclosed : m < n.calcSteps → s.groupSumCounter = m % n.realGroupSumSize ∧
    s.prodSumCntr = m / n.realGroupSumSize ∧
    s.prodSumBuf.toInt = dot x w (n.realGroupSumSize * (m / n.realGroupSumSize))
      (m % n.realGroupSumSize)
  done : ∀ j < m / n.realGroupSumSize,
    (s.prodBuf j).toInt = dot x w (n.realGroupSumSize * j) n.realGroupSumSize

/-- The product that is added next. -/
theorem toInt_groupStep (hw : Bounded w) {b : BitVec n.groupSumTotalBits}
    (hb : b.toInt = dot x w (n.realGroupSumSize * (m / n.realGroupSumSize))
      (m % n.realGroupSumSize)) (hq : 0 < n.realGroupSumSize) :
    (b + (BitVec.ofInt productBits ((x m).val * w m)).signExtend _).toInt =
      dot x w (n.realGroupSumSize * (m / n.realGroupSumSize)) (m % n.realGroupSumSize + 1) := by
  have hprod : Fits productBits ((x m).val * w m) := by
    have habs := abs_product_le (x := x) hw m
    rw [abs_le] at habs
    have hmax : productMax = 16129 := rfl
    have hbits : (2 : ℤ) ^ (productBits - 1) = 16384 := rfl
    rw [Fits, hbits]
    constructor <;> linarith [habs.1, habs.2]
  have hle : productBits ≤ n.groupSumTotalBits := Nat.le_add_right _ _
  have hext : ((BitVec.ofInt productBits ((x m).val * w m)).signExtend
      n.groupSumTotalBits).toInt = (x m).val * w m := by
    rw [BitVec.toInt_signExtend_of_le hle, toInt_ofInt (by decide) hprod]
  have hdot := dot_succ x w (n.realGroupSumSize * (m / n.realGroupSumSize))
    (m % n.realGroupSumSize)
  rw [Nat.div_add_mod] at hdot
  have hpos : 0 < n.groupSumTotalBits := lt_of_lt_of_le (by decide) hle
  rw [hdot, Numbers.toInt_add hpos, hb, hext]
  rw [hb, hext, ← hdot]
  exact fits_dot hw (Nat.succ_le_of_lt (Nat.mod_lt _ hq))

/-- A group that is closed is one more group that is done. -/
theorem Grouped.closed (hw : Bounded w) (hq : 0 < n.realGroupSumSize)
    {s : GroupSums n.groupSumTotalBits} (hm : m < n.calcSteps) (h : Grouped n x w m s)
    (hfull : m % n.realGroupSumSize + 1 = n.realGroupSumSize) :
    ∀ j < (m + 1) / n.realGroupSumSize,
      (Function.update s.prodBuf s.prodSumCntr (s.prodSumBuf +
        (BitVec.ofInt productBits ((x m).val * w m)).signExtend _) j).toInt =
      dot x w (n.realGroupSumSize * j) n.realGroupSumSize := by
  obtain ⟨-, hcntr, hbuf⟩ := h.unclosed hm
  rw [(div_mod_succ_of_eq hq hfull).1]
  intro j hj
  rw [hcntr, Function.update_apply]
  split_ifs with hlast
  · rw [toInt_groupStep hw hbuf hq, hfull, hlast]
  · exact h.done j (by omega)

theorem grouped_step (hn : n.Tiled) (hw : Bounded w) {s : GroupSums n.groupSumTotalBits}
    (hm : m < n.calcSteps) (h : Grouped n x w m s) :
    Grouped n x w (m + 1) (n.groupStep x w s m) := by
  obtain ⟨hq, htiled⟩ := hn
  obtain ⟨hcounter, hcntr, hbuf⟩ := h.unclosed hm
  have hmod := Nat.mod_lt m hq
  unfold groupStep
  dsimp only
  split_ifs with hlast hmore
  · have hfull : m % n.realGroupSumSize + 1 = n.realGroupSumSize := by
      by_contra hne
      have hdvd : n.realGroupSumSize ∣ m + 1 :=
        ⟨n.groupSumResults, by rw [Nat.mul_comm, htiled]; omega⟩
      have hzero := (div_mod_succ_of_lt (m := m) (q := n.realGroupSumSize) (by omega)).2
      rw [Nat.mod_eq_zero_of_dvd hdvd] at hzero
      omega
    exact ⟨fun hlt => by omega, h.closed hw hq hm hfull⟩
  · rw [hcounter] at hmore
    obtain ⟨hdiv, hmod'⟩ := div_mod_succ_of_lt (m := m) (q := n.realGroupSumSize) (by omega)
    refine ⟨fun _ => ⟨?_, ?_, ?_⟩, ?_⟩
    · rw [hmod', hcounter]
    · rw [hdiv, hcntr]
    · rw [hdiv, hmod']
      exact toInt_groupStep hw hbuf hq
    · rw [hdiv]
      exact h.done
  · rw [hcounter] at hmore
    have hfull : m % n.realGroupSumSize + 1 = n.realGroupSumSize := by omega
    obtain ⟨hdiv, hmod'⟩ := div_mod_succ_of_eq hq hfull
    refine ⟨fun _ => ⟨hmod'.symm, ?_, ?_⟩, h.closed hw hq hm hfull⟩
    · rw [hdiv, hcntr]
    · rw [hmod']
      exact BitVec.toInt_zero

/-- Each group has the products of its values, whatever the buffer held before. -/
theorem toInt_groupSums (hn : n.Tiled) (hw : Bounded w)
    (b : ℕ → BitVec n.groupSumTotalBits) (hj : j < n.groupSumResults) :
    (n.groupSums x w b j).toInt = dot x w (n.realGroupSumSize * j) n.realGroupSumSize := by
  have hrun (m : ℕ) (hm : m ≤ n.calcSteps) :
      Grouped n x w m ((List.range m).foldl (n.groupStep x w) ⟨0, 0, 0, b⟩) := by
    induction m with
    | zero =>
      refine ⟨fun _ => ⟨?_, ?_, BitVec.toInt_zero⟩, fun j hj => ?_⟩
      · exact (Nat.zero_mod _).symm
      · exact (Nat.zero_div _).symm
      · rw [Nat.zero_div] at hj
        exact absurd hj (Nat.not_lt_zero j)
    | succ m ih =>
      rw [List.range_succ, List.foldl_append]
      exact grouped_step hn hw hm (ih (Nat.le_of_succ_le hm))
  refine (hrun n.calcSteps le_rfl).done j ?_
  rwa [← hn.2, Nat.mul_div_cancel _ hn.1]

/-! ### Steps -/

/-- Products are shifted to the right, by less than their width. -/
structure Scaled (n : Neuron) : Prop where
  tiled : n.Tiled
  nonneg : 0 ≤ n.productShift
  lt : n.productShift < n.groupSumTotalBits

/-- A group of products as it is added to the sum. -/
def roundedGroup (n : Neuron) (x : CnnValues) (w : ℕ → ℤ) (j : ℕ) : ℤ :=
  roundShift n.productShift.toNat (dot x w (n.realGroupSumSize * j) n.realGroupSumSize)

/-- What the first `m` groups add to the sum. -/
def roundedGroups (n : Neuron) (x : CnnValues) (w : ℕ → ℤ) (m : ℕ) : ℤ :=
  ∑ j ∈ Finset.range m, n.roundedGroup x w j

/-- What a step adds to the sum. -/
def stepTotal (n : Neuron) (x : CnnValues) (w : ℕ → ℤ) : ℤ :=
  n.roundedGroups x w n.groupSumResults

theorem toInt_roundedGroup (hn : n.Scaled) (hw : Bounded w) {v : BitVec n.groupSumTotalBits}
    (hv : v.toInt = dot x w (n.realGroupSumSize * j) n.realGroupSumSize) :
    (shiftWithRounding v n.productShift).toInt = n.roundedGroup x w j := by
  have hcast : ((n.productShift.toNat : ℕ) : ℤ) = n.productShift := Int.toNat_of_nonneg hn.nonneg
  have hlt := hn.lt
  have habs := abs_dot_le (x := x) hw (n.realGroupSumSize * j) n.realGroupSumSize
  have hsize : (n.realGroupSumSize : ℤ) ≤ 2 ^ Nat.clog 2 n.realGroupSumSize := by
    exact_mod_cast Nat.le_pow_clog one_lt_two _
  have hbits : n.groupSumTotalBits - 1 = 14 + Nat.clog 2 n.realGroupSumSize := by
    unfold groupSumTotalBits productBits cnnValueResolution cnnWeightResolution
    omega
  have hone : (1 : ℤ) ≤ 2 ^ Nat.clog 2 n.realGroupSumSize := one_le_pow₀ one_le_two
  have hmax : productMax = 16129 := rfl
  rw [abs_le, hmax] at habs
  rw [← hcast, toInt_shiftWithRounding (by omega), hv]
  · rfl
  · rw [hv, hbits, pow_add]
    linarith [habs.2]

/-- As long as the sum fits its width, a step adds its rounded groups. -/
theorem toInt_accumulate (hn : n.Scaled) (hw : Bounded w) {p : ℕ → BitVec n.groupSumTotalBits}
    (hp : ∀ j < n.groupSumResults,
      (p j).toInt = dot x w (n.realGroupSumSize * j) n.realGroupSumSize)
    {sum : BitVec (n.bitsMax + 1)}
    (hgroup : ∀ j < n.groupSumResults, Fits (n.bitsMax + 1) (n.roundedGroup x w j))
    (hsum : ∀ m ≤ n.groupSumResults, Fits (n.bitsMax + 1) (sum.toInt + n.roundedGroups x w m)) :
    (n.accumulate p sum).toInt = sum.toInt + n.stepTotal x w := by
  have hrun (m : ℕ) (hm : m ≤ n.groupSumResults) :
      ((List.range m).foldl (fun sum i => sum + resize (n.bitsMax + 1)
        (shiftWithRounding (p i) n.productShift)) sum).toInt =
      sum.toInt + n.roundedGroups x w m := by
    induction m with
    | zero => simp [roundedGroups]
    | succ m ih =>
      have hround := toInt_roundedGroup hn hw (hp m hm)
      have hfits := hgroup m hm
      rw [← hround] at hfits
      have hnext : sum.toInt + n.roundedGroups x w (m + 1) =
          sum.toInt + n.roundedGroups x w m + n.roundedGroup x w m := by
        rw [roundedGroups, Finset.sum_range_succ, ← add_assoc]
        rfl
      have hadd : (resize (n.bitsMax + 1) (shiftWithRounding (p m) n.productShift)).toInt =
          n.roundedGroup x w m := by
        rw [toInt_resize (Nat.succ_pos _) hfits, hround]
      have hlast := ih (Nat.le_of_succ_le hm)
      rw [List.range_succ, List.foldl_append, List.foldl_cons, List.foldl_nil, hnext,
        Numbers.toInt_add (Nat.succ_pos _), hlast, hadd]
      rw [hlast, hadd, ← hnext]
      exact hsum _ hm
  exact hrun _ le_rfl

/-! ### Whole sums -/

/-- The sum after `m` steps. -/
def totalSum (n : Neuron) (x : ℕ → CnnValues) (w : ℕ → ℕ → ℤ) : ℕ → BitVec (n.bitsMax + 1)
  | 0 => 0
  | m + 1 => n.accumulate (n.groupSums (x m) (w m) fun _ => 0) (n.totalSum x w m)

/-- The same sum as an integer. -/
def total (n : Neuron) (x : ℕ → CnnValues) (w : ℕ → ℕ → ℤ) (m : ℕ) : ℤ :=
  ∑ c ∈ Finset.range m, n.stepTotal (x c) (w c)

/-- No sum of the first `m` steps leaves the width of the sum. -/
structure InRange (n : Neuron) (x : ℕ → CnnValues) (w : ℕ → ℕ → ℤ) (m : ℕ) : Prop where
  group : ∀ c < m, ∀ j < n.groupSumResults, Fits (n.bitsMax + 1) (n.roundedGroup (x c) (w c) j)
  sum : ∀ c < m, ∀ j ≤ n.groupSumResults,
    Fits (n.bitsMax + 1) (n.total x w c + n.roundedGroups (x c) (w c) j)

theorem toInt_totalSum (hn : n.Scaled) {x : ℕ → CnnValues} {w : ℕ → ℕ → ℤ}
    (hw : ∀ c, Bounded (w c)) (h : n.InRange x w m) : (n.totalSum x w m).toInt = n.total x w m := by
  induction m with
  | zero => exact BitVec.toInt_zero
  | succ m ih =>
    have hlast := ih ⟨fun c hc => h.group c (by omega), fun c hc => h.sum c (by omega)⟩
    rw [totalSum, toInt_accumulate hn (hw m)
      (fun j hj => toInt_groupSums hn.tiled (hw m) _ hj) (h.group m (Nat.lt_succ_self m)), hlast]
    · exact (Finset.sum_range_succ _ _).symm
    · rw [hlast]
      exact h.sum m (Nat.lt_succ_self m)

/-! ### Results -/

/-- The sum is shifted to the right twice, by less than its width, and clipped. -/
structure Rescaled (n : Neuron) : Prop where
  relu : n.activation = .relu
  bitsMax : cnnValueResolution ≤ n.bitsMax
  sum : n.sumOffsetBias ≤ n.bitsMax
  nonneg : 0 ≤ n.offsetDiff + n.biasOffsetCorrection
  offset : n.offsetDiff + n.biasOffsetCorrection ≤ n.bitsMax

/-- A sum and a bias as the layer sends them. -/
def output (n : Neuron) (total bias : ℤ) : ℤ :=
  reluFInt
    (roundShift (n.offsetDiff + n.biasOffsetCorrection).toNat
      (roundShift n.sumOffsetBias.toNat total + bias))
    valueMax

theorem output_range (n : Neuron) (total bias : ℤ) :
    0 ≤ n.output total bias ∧ n.output total bias ≤ 127 := by
  unfold output reluFInt
  rw [show (valueMax : ℤ) = 127 from rfl]
  split_ifs <;> omega

theorem sumOffsetBias_nonneg (n : Neuron) : 0 ≤ n.sumOffsetBias := by
  unfold sumOffsetBias biasOffsetFixed
  omega

theorem toInt_actSum (hn : n.Rescaled) {sum : BitVec (n.bitsMax + 1)} {bias : ℤ}
    (hbias : |bias| ≤ 127) (hsum : |sum.toInt| + 128 < 2 ^ n.bitsMax) :
    (n.actSum sum bias).toInt = n.output sum.toInt bias := by
  obtain ⟨hrelu, hbits, hs, hnonneg, hoffset⟩ := hn
  have hs0 := n.sumOffsetBias_nonneg
  have hcast1 : ((n.sumOffsetBias.toNat : ℕ) : ℤ) = n.sumOffsetBias := Int.toNat_of_nonneg hs0
  have hcast2 : (((n.offsetDiff + n.biasOffsetCorrection).toNat : ℕ) : ℤ) =
      n.offsetDiff + n.biasOffsetCorrection := Int.toNat_of_nonneg hnonneg
  have habs := abs_le.mp (le_refl |sum.toInt|)
  have hbias' := abs_le.mp hbias
  have hround := Numbers.roundShift_between n.sumOffsetBias.toNat sum.toInt
  have hmin : -|sum.toInt| ≤ min sum.toInt 0 := le_min habs.1 (by linarith [abs_nonneg sum.toInt])
  have hmax : max sum.toInt 0 ≤ |sum.toInt| := max_le habs.2 (abs_nonneg _)
  have hshift : (shiftWithRounding sum n.sumOffsetBias).toInt =
      roundShift n.sumOffsetBias.toNat sum.toInt := by
    rw [← hcast1, toInt_shiftWithRounding (by omega)
      (by rw [Nat.add_sub_cancel]; linarith [habs.2]), Int.toNat_natCast]
  have hbiased : (BitVec.ofInt (n.bitsMax + 1) bias).toInt = bias :=
    toInt_ofInt (Nat.succ_pos _)
      (fits_succ (by linarith [abs_nonneg sum.toInt]) (by linarith [abs_nonneg sum.toInt]))
  have hadd : (n.addBias sum bias).toInt = roundShift n.sumOffsetBias.toNat sum.toInt + bias := by
    unfold addBias
    rw [Numbers.toInt_add (Nat.succ_pos _), hshift, hbiased]
    rw [hshift, hbiased]
    exact fits_succ (by linarith [hround.1]) (by linarith [hround.2])
  have hresult : (n.applyOffset (n.addBias sum bias)).toInt =
      roundShift (n.offsetDiff + n.biasOffsetCorrection).toNat
        (roundShift n.sumOffsetBias.toNat sum.toInt + bias) := by
    unfold applyOffset
    rw [← hcast2, toInt_shiftWithRounding (by omega), hadd, Int.toNat_natCast]
    rw [hadd, Nat.add_sub_cancel]
    linarith [hround.2]
  rw [actSum, hrelu, toInt_activate_relu (by omega), hresult, output]

/-- A bias that is rounded is still one of a weight's size. -/
theorem abs_biasConst_le (n : Neuron) (weights : CnnWeights) (inputs i : ℕ) :
    |n.biasConst weights inputs i| ≤ 127 := by
  have hweight := (weights i inputs).property
  simp only [cnnWeightResolution] at hweight
  have hnonneg : 0 ≤ n.biasOffsetFixed := le_max_right _ _
  obtain ⟨k, hk⟩ : ∃ k : ℕ, n.biasOffsetFixed = k := ⟨_, (Int.toNat_of_nonneg hnonneg).symm⟩
  rw [biasConst, hk, abs_le]
  cases k with
  | zero =>
    show _ ≤ (weights i inputs).val ∧ (weights i inputs).val ≤ _
    omega
  | succ k =>
    have hround := Numbers.roundShift_between (k + 1) (weights i inputs).val
    have hpow : (0 : ℤ) < 2 ^ k := by positivity
    rw [adjustOffset_eq]
    split_ifs with hneg
    · have hless := hneg.1
      omega
    · omega

end Neuron

/-! ### Weights in the ROM -/

namespace RomLayout

/-- The filters and the inputs are split into cycles. -/
structure Split (l : RomLayout) (calcCycles inputCycles : ℕ) : Prop where
  calcFilters : 0 < l.calcFilters
  calcSteps : 0 < l.calcSteps
  filters : l.filters = calcCycles * l.calcFilters
  inputs : l.inputs = inputCycles * l.calcSteps

variable {l : RomLayout} {weights : CnnWeights} {p q c d k inputsCnt : ℕ}

theorem filterLoop_eq (h : l.Split p q) (hk : k ≤ p) :
    l.filterLoop weights inputsCnt (k * l.calcFilters) =
      (List.range' k (p - k)).map fun k => l.element weights inputsCnt (k * l.calcFilters) := by
  have hpos := h.calcFilters
  induction hm : p - k generalizing k with
  | zero =>
    have hend : ¬k * l.calcFilters < l.filters := by
      rw [h.filters, show k = p by omega]
      exact lt_irrefl _
    rw [filterLoop, if_neg fun hlt => hend hlt.1]
    rfl
  | succ m ih =>
    have hlt : k * l.calcFilters < l.filters := by
      rw [h.filters]
      exact Nat.mul_lt_mul_of_pos_right (by omega) hpos
    rw [filterLoop, if_pos ⟨hlt, hpos⟩, ← Nat.succ_mul, ih (by omega) (by omega)]
    rfl

theorem inputLoop_step (h : l.Split p q) (hc : c < q) :
    l.inputLoop weights (c * l.calcSteps) =
      ((List.range' 0 p).map fun k => l.element weights (c * l.calcSteps) (k * l.calcFilters)) ++
        l.inputLoop weights ((c + 1) * l.calcSteps) := by
  have hlt : c * l.calcSteps < l.inputs := by
    rw [h.inputs]
    exact Nat.mul_lt_mul_of_pos_right hc h.calcSteps
  have hfilters : l.filterLoop weights (c * l.calcSteps) (0 * l.calcFilters) = _ :=
    filterLoop_eq h (Nat.zero_le p)
  rw [Nat.zero_mul, Nat.sub_zero] at hfilters
  rw [inputLoop, if_pos ⟨hlt, h.calcSteps⟩, hfilters, Nat.succ_mul]

theorem inputLoop_eq (h : l.Split p q) (hc : c + d < q) (hk : k < p) :
    (l.inputLoop weights (c * l.calcSteps)).getD (d * p + k) (fun _ => 0) =
      l.element weights ((c + d) * l.calcSteps) (k * l.calcFilters) := by
  induction d generalizing c with
  | zero =>
    rw [inputLoop_step h (by omega), List.getD_append _ _ _ _ (by simpa using hk)]
    simp [List.getD_eq_getElem?_getD, hk]
  | succ d ih =>
    have hnext := ih (c := c + 1) (by omega)
    rw [inputLoop_step h (by omega), Nat.succ_mul d,
      List.getD_append_right _ _ _ _ (by simp; omega)]
    simp only [List.length_map, List.length_range']
    rw [show d * p + p + k - p = d * p + k by omega, hnext, Nat.add_right_comm, Nat.add_assoc]

/-- The words of the ROM, step after step. -/
theorem initRom_eq (h : l.Split p q) (hc : c < q) (hk : k < p) :
    l.initRom weights (c * p + k) =
      l.element weights (c * l.calcSteps) (k * l.calcFilters) := by
  have hword : (l.inputLoop weights (0 * l.calcSteps)).getD (c * p + k) (fun _ => 0) = _ :=
    inputLoop_eq h (by omega) hk
  rw [Nat.zero_mul, Nat.zero_add] at hword
  exact hword

/-- The weights as they come out of the ROM. -/
theorem weightsBuf_element (f s : ℕ) :
    l.weightsBuf (l.element weights inputsCnt k) f s =
      weights (k + (s * l.calcFilters + f) % l.calcFilters)
        (inputsCnt + (s * l.calcFilters + f) / l.calcFilters) := by
  have hweight := (weights (k + (s * l.calcFilters + f) % l.calcFilters)
    (inputsCnt + (s * l.calcFilters + f) / l.calcFilters)).property
  refine toInt_ofInt (by decide) ?_
  simp only [cnnWeightResolution] at hweight
  unfold Fits cnnWeightResolution
  omega

theorem bounded_weightsBuf (f : ℕ) :
    Bounded (l.weightsBuf (l.element weights inputsCnt k) f) := by
  intro s
  have hweight := (weights (k + (s * l.calcFilters + f) % l.calcFilters)
    (inputsCnt + (s * l.calcFilters + f) / l.calcFilters)).property
  rw [weightsBuf_element, abs_le]
  simp only [cnnWeightResolution] at hweight
  omega

end RomLayout

end AlteraWorkshops.Cnn
