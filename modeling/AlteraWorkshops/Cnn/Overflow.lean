import AlteraWorkshops.Cnn.NeuronSums

/-! When the sum of a neuron wraps. The values are not negative, so the largest and the
smallest sum come from the values that pick out the positive and the negative weights, and
the sum is right for every image exactly if these two are. -/

namespace AlteraWorkshops.Cnn.Neuron

open Numbers (Fits roundShift roundShift_mono fits_succ)
open OneAi (CnnValue)

variable {n : Neuron} {w : ℕ → ℤ} {x : CnnValues} {a j m : ℕ}

/-! ### Extreme values -/

/-- The largest value where the weight is positive, and nothing elsewhere. -/
def onPositive (w : ℕ → ℤ) (i : ℕ) : CnnValue := if 0 < w i then Fin.last 127 else 0

def onNegative (w : ℕ → ℤ) (i : ℕ) : CnnValue := if w i < 0 then Fin.last 127 else 0

theorem dot_le (x : CnnValues) (w : ℕ → ℤ) (a m : ℕ) : dot x w a m ≤ dot (onPositive w) w a m := by
  refine Finset.sum_le_sum fun i _ => ?_
  have hx := (x (a + i)).isLt
  unfold onPositive
  split_ifs with hpos
  · exact mul_le_mul_of_nonneg_right (by simp only [Fin.val_last]; omega) hpos.le
  · exact (mul_nonpos_of_nonneg_of_nonpos (by omega) (not_lt.mp hpos)).trans_eq (zero_mul _).symm

theorem dot_ge (x : CnnValues) (w : ℕ → ℤ) (a m : ℕ) : dot (onNegative w) w a m ≤ dot x w a m := by
  refine Finset.sum_le_sum fun i _ => ?_
  have hx := (x (a + i)).isLt
  unfold onNegative
  split_ifs with hneg
  · exact mul_le_mul_of_nonpos_right (by simp only [Fin.val_last]; omega) hneg.le
  · exact (zero_mul _).trans_le (mul_nonneg (by omega) (not_lt.mp hneg))

theorem dot_onPositive_nonneg (w : ℕ → ℤ) (a m : ℕ) : 0 ≤ dot (onPositive w) w a m := by
  have h := dot_le (fun _ => 0) w a m
  simpa [dot] using h

theorem dot_onNegative_nonpos (w : ℕ → ℤ) (a m : ℕ) : dot (onNegative w) w a m ≤ 0 := by
  have h := dot_ge (fun _ => 0) w a m
  simpa [dot] using h

/-- A rounded group lies between its extremes, which enclose zero. -/
theorem roundedGroup_between (n : Neuron) (x : CnnValues) (w : ℕ → ℤ) (j : ℕ) :
    n.roundedGroup (onNegative w) w j ≤ n.roundedGroup x w j ∧
      n.roundedGroup x w j ≤ n.roundedGroup (onPositive w) w j ∧
      n.roundedGroup (onNegative w) w j ≤ 0 ∧ 0 ≤ n.roundedGroup (onPositive w) w j := by
  have hzero : roundShift n.productShift.toNat 0 = 0 := Numbers.roundShift_self_zero _
  refine ⟨roundShift_mono _ (dot_ge x w _ _), roundShift_mono _ (dot_le x w _ _), ?_, ?_⟩
  · rw [← hzero]
    exact roundShift_mono _ (dot_onNegative_nonpos w _ _)
  · rw [← hzero]
    exact roundShift_mono _ (dot_onPositive_nonneg w _ _)

/-! ### Extreme sums -/

/-- The largest sum of the first `m` steps. -/
def high (n : Neuron) (w : ℕ → ℕ → ℤ) (m : ℕ) : ℤ := n.total (fun c => onPositive (w c)) w m

def low (n : Neuron) (w : ℕ → ℕ → ℤ) (m : ℕ) : ℤ := n.total (fun c => onNegative (w c)) w m

variable {v : ℕ → ℕ → ℤ} {y : ℕ → CnnValues} {c : ℕ}

theorem roundedGroups_between (n : Neuron) (x : CnnValues) (w : ℕ → ℤ) {i : ℕ} (hij : i ≤ j) :
    n.roundedGroups (onNegative w) w j ≤ n.roundedGroups x w i ∧
      n.roundedGroups x w i ≤ n.roundedGroups (onPositive w) w j := by
  induction j, hij using Nat.le_induction with
  | base =>
    exact ⟨Finset.sum_le_sum fun p _ => (roundedGroup_between n x w p).1,
      Finset.sum_le_sum fun p _ => (roundedGroup_between n x w p).2.1⟩
  | succ j _ ih =>
    obtain ⟨-, -, hneg, hpos⟩ := roundedGroup_between n x w j
    have hlow : n.roundedGroups (onNegative w) w (j + 1) =
        n.roundedGroups (onNegative w) w j + n.roundedGroup (onNegative w) w j :=
      Finset.sum_range_succ _ _
    have hhigh : n.roundedGroups (onPositive w) w (j + 1) =
        n.roundedGroups (onPositive w) w j + n.roundedGroup (onPositive w) w j :=
      Finset.sum_range_succ _ _
    constructor <;> linarith [ih.1, ih.2]

theorem stepTotal_between (n : Neuron) (x : CnnValues) (w : ℕ → ℤ) :
    n.stepTotal (onNegative w) w ≤ 0 ∧ 0 ≤ n.stepTotal (onPositive w) w ∧
      n.stepTotal (onNegative w) w ≤ n.stepTotal x w ∧
      n.stepTotal x w ≤ n.stepTotal (onPositive w) w := by
  have hempty := roundedGroups_between n x w (Nat.zero_le n.groupSumResults)
  have hall := roundedGroups_between n x w (le_refl n.groupSumResults)
  exact ⟨hempty.1, hempty.2, hall.1, hall.2⟩

/-- Every sum on the way lies between the extremes of all steps. -/
theorem total_between (n : Neuron) (y : ℕ → CnnValues) (v : ℕ → ℕ → ℤ) (hcm : c ≤ m) :
    n.low v m ≤ n.total y v c ∧ n.total y v c ≤ n.high v m := by
  induction m, hcm using Nat.le_induction with
  | base =>
    exact ⟨Finset.sum_le_sum fun p _ => (stepTotal_between n (y p) (v p)).2.2.1,
      Finset.sum_le_sum fun p _ => (stepTotal_between n (y p) (v p)).2.2.2⟩
  | succ m _ ih =>
    obtain ⟨hneg, hpos, -, -⟩ := stepTotal_between n (y m) (v m)
    have hlow : n.low v (m + 1) = n.low v m + n.stepTotal (onNegative (v m)) (v m) :=
      Finset.sum_range_succ _ _
    have hhigh : n.high v (m + 1) = n.high v m + n.stepTotal (onPositive (v m)) (v m) :=
      Finset.sum_range_succ _ _
    constructor <;> linarith [ih.1, ih.2]

/-- The same within a step. -/
theorem partial_between (n : Neuron) (y : ℕ → CnnValues) (v : ℕ → ℕ → ℤ) (hc : c < m)
    (hj : j ≤ n.groupSumResults) :
    n.low v m ≤ n.total y v c + n.roundedGroups (y c) (v c) j ∧
      n.total y v c + n.roundedGroups (y c) (v c) j ≤ n.high v m := by
  obtain ⟨hstep1, hstep2⟩ := roundedGroups_between n (y c) (v c) hj
  obtain ⟨hbefore1, hbefore2⟩ := total_between n y v (le_refl c)
  have hlow : n.low v m ≤ n.low v c + n.stepTotal (onNegative (v c)) (v c) :=
    ((total_between n (fun p => onNegative (v p)) v hc).1).trans_eq (Finset.sum_range_succ _ _)
  have hhigh : n.high v c + n.stepTotal (onPositive (v c)) (v c) ≤ n.high v m :=
    (Finset.sum_range_succ _ _).symm.trans_le (total_between n (fun p => onPositive (v p)) v hc).2
  unfold stepTotal at hlow hhigh
  constructor <;> linarith

/-- A group alone is no further from zero than the extremes. -/
theorem group_between (n : Neuron) (y : ℕ → CnnValues) (v : ℕ → ℕ → ℤ) (hc : c < m)
    (hj : j < n.groupSumResults) :
    n.low v m ≤ n.roundedGroup (y c) (v c) j ∧ n.roundedGroup (y c) (v c) j ≤ n.high v m := by
  obtain ⟨hgroup1, hgroup2, -, -⟩ := roundedGroup_between n (y c) (v c) j
  have hlow := (partial_between n (fun p => onNegative (v p)) v hc (Nat.succ_le_of_lt hj)).1
  have hhigh := (partial_between n (fun p => onPositive (v p)) v hc (Nat.succ_le_of_lt hj)).2
  have hlast1 : n.roundedGroups (onNegative (v c)) (v c) (j + 1) =
      n.roundedGroups (onNegative (v c)) (v c) j + n.roundedGroup (onNegative (v c)) (v c) j :=
    Finset.sum_range_succ _ _
  have hlast2 : n.roundedGroups (onPositive (v c)) (v c) (j + 1) =
      n.roundedGroups (onPositive (v c)) (v c) j + n.roundedGroup (onPositive (v c)) (v c) j :=
    Finset.sum_range_succ _ _
  have hbefore1 : n.total (fun p => onNegative (v p)) v c ≤ 0 :=
    (total_between n (fun _ _ => 0) v (Nat.zero_le c)).1
  have hbefore2 : 0 ≤ n.total (fun p => onPositive (v p)) v c :=
    (total_between n (fun _ _ => 0) v (Nat.zero_le c)).2
  have hgroups1 : n.roundedGroups (onNegative (v c)) (v c) j ≤ 0 :=
    (roundedGroups_between n (fun _ => 0) (v c) (Nat.zero_le j)).1
  have hgroups2 : 0 ≤ n.roundedGroups (onPositive (v c)) (v c) j :=
    (roundedGroups_between n (fun _ => 0) (v c) (Nat.zero_le j)).2
  constructor <;> linarith

/-! ### Wrapping -/

/-- With both extremes in the width of the sum every sum is. -/
theorem inRange_of_extremes (hlow : -2 ^ n.bitsMax ≤ n.low v m)
    (hhigh : n.high v m < 2 ^ n.bitsMax) (y : ℕ → CnnValues) : n.InRange y v m := by
  refine ⟨fun c hc j hj => ?_, fun c hc j hj => ?_⟩
  · obtain ⟨h1, h2⟩ := group_between n y v hc hj
    exact fits_succ (hlow.trans h1) (h2.trans_lt hhigh)
  · obtain ⟨h1, h2⟩ := partial_between n y v hc hj
    exact fits_succ (hlow.trans h1) (h2.trans_lt hhigh)

/-- The sum is right for every image exactly if the extreme sums of the weights fit. -/
theorem totalSum_exact_iff (hn : n.Scaled) (hw : ∀ c, Bounded (v c)) :
    (∀ y, (n.totalSum y v m).toInt = n.total y v m) ↔
      -2 ^ n.bitsMax ≤ n.low v m ∧ n.high v m < 2 ^ n.bitsMax := by
  constructor
  · intro h
    have hlow := h fun c => onNegative (v c)
    have hhigh := h fun c => onPositive (v c)
    rw [low, high, ← hlow, ← hhigh]
    exact ⟨(n.totalSum _ v m).le_toInt, (n.totalSum _ v m).toInt_lt⟩
  · rintro ⟨hlow, hhigh⟩ y
    exact toInt_totalSum hn hw (inRange_of_extremes hlow hhigh y)

/-- Four inputs at once, ten bits for their sum, and weights of 100. -/
theorem totalSum_exact_iff_four :
    let n : Neuron := ⟨.relu, 3, 4, 0, 4, 10, 11⟩
    (∀ y, (n.totalSum y (fun _ _ => 100) 2).toInt = n.total y (fun _ _ => 100) 2) ↔
      -2 ^ n.bitsMax ≤ n.low (fun _ _ => 100) 2 ∧ n.high (fun _ _ => 100) 2 < 2 ^ n.bitsMax :=
  totalSum_exact_iff ⟨by decide, by decide, by decide⟩ fun _ _ => by decide

/-- With room for the bias the result is that of the integers. -/
theorem toInt_actSum_totalSum (hn : n.Scaled) (hr : n.Rescaled) (hw : ∀ c, Bounded (v c))
    {bias : ℤ} (hbias : |bias| ≤ 127) (hlow : -2 ^ n.bitsMax + 128 < n.low v m)
    (hhigh : n.high v m + 128 < 2 ^ n.bitsMax) (y : ℕ → CnnValues) :
    (n.actSum (n.totalSum y v m) bias).toInt = n.output (n.total y v m) bias := by
  obtain ⟨h1, h2⟩ := total_between n y v (le_refl m)
  have htotal := toInt_totalSum hn hw
    (inRange_of_extremes (m := m) (by linarith) (by linarith) y)
  have habs : |n.total y v m| + 128 < 2 ^ n.bitsMax := by
    have hlt : |n.total y v m| < 2 ^ n.bitsMax - 128 := abs_lt.mpr ⟨by linarith, by linarith⟩
    linarith
  rw [toInt_actSum hr hbias (by rw [htotal]; exact habs), htotal]

/-! ### Widths that are enough -/

/-- A rounded group of `q` products is a multiple of the products at most. -/
theorem abs_roundedGroup_le (hw : Bounded w) {e : ℕ} (hshift : 5 ≤ e + n.productShift.toNat)
    (hq : 0 < n.realGroupSumSize) :
    |n.roundedGroup x w j| ≤ 505 * 2 ^ e * n.realGroupSumSize := by
  have habs := abs_le.mp (abs_dot_le (x := x) hw (n.realGroupSumSize * j) n.realGroupSumSize)
  have hmax : productMax = 16129 := rfl
  have hpow : (0 : ℤ) < 2 ^ n.productShift.toNat := by positivity
  have hscale : (32 : ℤ) ≤ 2 ^ e * 2 ^ n.productShift.toNat := by
    rw [← pow_add]
    calc (32 : ℤ) = 2 ^ 5 := by norm_num
      _ ≤ 2 ^ (e + n.productShift.toNat) := pow_le_pow_right₀ one_le_two hshift
  have hq' : (0 : ℤ) < n.realGroupSumSize := by exact_mod_cast hq
  have hbound : (n.realGroupSumSize : ℤ) * 16129 ≤
      505 * 2 ^ e * n.realGroupSumSize * 2 ^ n.productShift.toNat := by
    calc (n.realGroupSumSize : ℤ) * 16129 ≤ 505 * n.realGroupSumSize * 32 := by linarith
      _ ≤ 505 * n.realGroupSumSize * (2 ^ e * 2 ^ n.productShift.toNat) :=
          mul_le_mul_of_nonneg_left hscale (by positivity)
      _ = 505 * 2 ^ e * n.realGroupSumSize * 2 ^ n.productShift.toNat := by ring
  rw [hmax] at habs
  unfold roundedGroup roundShift
  rw [abs_le]
  constructor
  · apply Int.le_ediv_of_mul_le hpow
    rw [neg_mul]
    omega
  · rw [← Int.lt_add_one_iff]
    apply Int.ediv_lt_of_lt_mul hpow
    rw [add_mul]
    omega

theorem abs_stepTotal_le (hn : n.Tiled) (hw : Bounded w) {e : ℕ}
    (hshift : 5 ≤ e + n.productShift.toNat) (x : CnnValues) :
    |n.stepTotal x w| ≤ 505 * 2 ^ e * n.calcSteps := by
  have hgroups : |n.stepTotal x w| ≤ ∑ j ∈ Finset.range n.groupSumResults, |n.roundedGroup x w j| :=
    Finset.abs_sum_le_sum_abs (fun j => n.roundedGroup x w j) _
  have hall := Finset.sum_le_card_nsmul (Finset.range n.groupSumResults)
    (fun j => |n.roundedGroup x w j|) _ fun j _ => abs_roundedGroup_le (x := x) hw hshift hn.1
  rw [Finset.card_range, nsmul_eq_mul] at hall
  have htiled : (n.groupSumResults : ℤ) * n.realGroupSumSize = n.calcSteps := by
    exact_mod_cast hn.2
  rw [← htiled]
  linarith

theorem abs_total_le (hn : n.Tiled) (hw : ∀ c, Bounded (v c)) {e : ℕ}
    (hshift : 5 ≤ e + n.productShift.toNat) (y : ℕ → CnnValues) (m : ℕ) :
    |n.total y v m| ≤ 505 * 2 ^ e * (m * n.calcSteps) := by
  have hsteps : |n.total y v m| ≤ ∑ c ∈ Finset.range m, |n.stepTotal (y c) (v c)| :=
    Finset.abs_sum_le_sum_abs (fun c => n.stepTotal (y c) (v c)) _
  have hall := Finset.sum_le_card_nsmul (Finset.range m)
    (fun c => |n.stepTotal (y c) (v c)|) _ fun c _ => abs_stepTotal_le hn (hw c) hshift (y c)
  rw [Finset.card_range, nsmul_eq_mul] at hall
  linarith

/-- Values and weights that agree in the places of a step have the same sums. -/
theorem total_congr (hn : n.Tiled) {y' : ℕ → CnnValues} {v' : ℕ → ℕ → ℤ}
    (hy : ∀ c < m, ∀ s < n.calcSteps, y c s = y' c s)
    (hv : ∀ c < m, ∀ s < n.calcSteps, v c s = v' c s) : n.total y v m = n.total y' v' m := by
  unfold total stepTotal roundedGroups roundedGroup dot
  refine Finset.sum_congr rfl fun c hc => Finset.sum_congr rfl fun j hj => ?_
  have hc' := Finset.mem_range.mp hc
  refine congrArg _ (Finset.sum_congr rfl fun i hi => ?_)
  have hj' := Finset.mem_range.mp hj
  have hi' := Finset.mem_range.mp hi
  have hlt : n.realGroupSumSize * j + i < n.calcSteps := by
    calc n.realGroupSumSize * j + i < n.realGroupSumSize * (j + 1) := by
          rw [Nat.mul_succ]
          omega
      _ ≤ n.realGroupSumSize * n.groupSumResults := Nat.mul_le_mul_left _ hj'
      _ = n.calcSteps := by rw [Nat.mul_comm, hn.2]
  rw [hy c hc' _ hlt, hv c hc' _ hlt]

theorem extremes_congr (hn : n.Tiled) {v' : ℕ → ℕ → ℤ}
    (hv : ∀ c, ∀ s < n.calcSteps, v c s = v' c s) (m : ℕ) :
    n.low v m = n.low v' m ∧ n.high v m = n.high v' m := by
  constructor
  · exact total_congr hn (fun c _ s hs => by rw [onNegative, onNegative, hv c s hs])
      fun c _ => hv c
  · exact total_congr hn (fun c _ s hs => by rw [onPositive, onPositive, hv c s hs])
      fun c _ => hv c

end AlteraWorkshops.Cnn.Neuron
