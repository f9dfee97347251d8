import AlteraWorkshops.Cnn.Package

/-! What the package's functions make of a number: the two ways to round a signed sum and
where they part, the rounding of the biases, and the signed activation functions beside
their integer overloads. -/

namespace AlteraWorkshops.Cnn

open Numbers (Fits resize roundShift fits_toInt roundShift_succ roundShift_succ_eq_half)

variable {n k : ℕ}

/-! ### Signed sums -/

theorem two_pow_pred (hn : 0 < n) : (2 : ℤ) ^ n = 2 * 2 ^ (n - 1) := by
  obtain ⟨m, rfl⟩ : ∃ m, n = m + 1 := ⟨n - 1, by omega⟩
  rw [Nat.add_sub_cancel, pow_succ, mul_comm]

/-- A power of two below the sign bit is what it stands for. -/
theorem toInt_ofInt_two_pow (hk : k + 1 < n) : (BitVec.ofInt n (2 ^ k)).toInt = 2 ^ k := by
  have hlt : (2 : ℤ) ^ k < 2 ^ (n - 1) := pow_lt_pow_right₀ one_lt_two (by omega)
  have hpos : (0 : ℤ) < 2 ^ k := by positivity
  exact Numbers.toInt_ofInt (by omega) ⟨by linarith, hlt⟩

/-- A sum above the largest value wraps to the other end. -/
theorem toInt_add_of_wrap (hn : 0 < n) {v w : BitVec n}
    (h : 2 ^ (n - 1) ≤ v.toInt + w.toInt) : (v + w).toInt = v.toInt + w.toInt - 2 ^ n := by
  have hv := v.toInt_lt
  have hw' := w.toInt_lt
  have htwo := two_pow_pred hn
  have hfits : Fits n (v.toInt + w.toInt - 2 ^ n) := ⟨by linarith, by linarith⟩
  rw [BitVec.toInt_add, ← Numbers.toInt_ofInt hn hfits, BitVec.toInt_ofInt]
  have hcast : ((2 ^ n : ℕ) : ℤ) = 2 ^ n := by norm_cast
  rw [← hcast, Int.sub_eq_add_neg, ← Int.neg_one_mul, Int.add_mul_bmod_self_right]

theorem efficient_of_lt (hk : k + 1 < n) (v : BitVec n) (h : v.toInt / 2 ^ k + 1 < 2 ^ (n - 1)) :
    (shiftWithRoundingBy true v (k + 1 : ℕ)).toInt = roundShift (k + 1) v.toInt := by
  have hone : (BitVec.ofInt n 1).toInt = 1 := by
    simpa using toInt_ofInt_two_pow (n := n) (k := 0) (by omega)
  have hshift := toInt_sshiftRight_div v k
  have hfits := fits_toInt (v.sshiftRight k)
  have hadd : (v.sshiftRight k + BitVec.ofInt n 1).toInt = v.toInt / 2 ^ k + 1 := by
    rw [Numbers.toInt_add (by omega), hone, hshift]
    rw [hone, hshift]
    rw [hshift] at hfits
    exact ⟨by linarith [hfits.1], h⟩
  rw [shiftWithRoundingBy_efficient hk, toInt_sshiftRight_div, hadd, pow_one,
    roundShift_succ_eq_half]

/-- Dropping the bits first leaves room for the rounding one, unless nothing is dropped and
the value is the largest. -/
theorem efficient_lt (hk : k + 1 < n) (v : BitVec n) (h : ¬(k = 0 ∧ v.toInt = 2 ^ (n - 1) - 1)) :
    v.toInt / 2 ^ k + 1 < 2 ^ (n - 1) := by
  have hv := v.toInt_lt
  rcases Nat.eq_zero_or_pos k with rfl | hpos
  · rw [pow_zero, Int.ediv_one]
    omega
  · have htwo : (2 : ℤ) ≤ 2 ^ k := by
      calc (2 : ℤ) = 2 ^ 1 := (pow_one 2).symm
        _ ≤ 2 ^ k := pow_le_pow_right₀ one_le_two hpos
    have hhalf : (2 : ℤ) ^ (n - 1) = 2 * 2 ^ (n - 2) := two_pow_pred (n := n - 1) (by omega)
    have hroom : (2 : ℤ) ≤ 2 ^ (n - 2) := by
      calc (2 : ℤ) = 2 ^ 1 := (pow_one 2).symm
        _ ≤ 2 ^ (n - 2) := pow_le_pow_right₀ one_le_two (by omega)
    have hdiv : v.toInt / 2 ^ k < 2 ^ (n - 2) := by
      apply Int.ediv_lt_of_lt_mul (by positivity)
      nlinarith
    linarith

theorem plain_of_lt (hk : k + 1 < n) (v : BitVec n) (h : v.toInt + 2 ^ k < 2 ^ (n - 1)) :
    (shiftWithRoundingBy false v (k + 1 : ℕ)).toInt = roundShift (k + 1) v.toInt := by
  have hpow := toInt_ofInt_two_pow hk
  have hpos : (0 : ℤ) < 2 ^ k := by positivity
  rw [shiftWithRoundingBy_plain hk, toInt_sshiftRight_div, Numbers.toInt_add (by omega), hpow,
    roundShift_succ]
  rw [hpow]
  exact ⟨by linarith [v.le_toInt], h⟩

/-- A sum that wraps is off by the number of rounded values. -/
theorem plain_of_le (hk : k + 1 < n) (v : BitVec n) (h : 2 ^ (n - 1) ≤ v.toInt + 2 ^ k) :
    (shiftWithRoundingBy false v (k + 1 : ℕ)).toInt =
      roundShift (k + 1) v.toInt - 2 ^ (n - (k + 1)) := by
  have hpow := toInt_ofInt_two_pow hk
  have hsplit : (2 : ℤ) ^ n = 2 ^ (n - (k + 1)) * 2 ^ (k + 1) := by
    rw [← pow_add, Nat.sub_add_cancel (by omega)]
  have hwrap := toInt_add_of_wrap (v := v) (w := BitVec.ofInt n (2 ^ k)) (by omega)
    (by rwa [hpow])
  rw [shiftWithRoundingBy_plain hk, toInt_sshiftRight_div, hwrap, hpow, roundShift_succ, hsplit,
    Int.sub_eq_add_neg, ← Int.neg_mul, Int.add_mul_ediv_right _ _ (by positivity)]
  ring

/-- The efficient way rounds every value but the largest one, by one bit. -/
theorem efficient_rounds_iff (hk : k + 1 < n) (v : BitVec n) :
    (shiftWithRoundingBy true v (k + 1 : ℕ)).toInt = roundShift (k + 1) v.toInt ↔
      ¬(k = 0 ∧ v.toInt = 2 ^ (n - 1) - 1) := by
  constructor
  · rintro h ⟨rfl, hmax⟩
    -- without a bit to drop both ways are the same sum
    have hsame : shiftWithRoundingBy true v (0 + 1 : ℕ) =
        shiftWithRoundingBy false v (0 + 1 : ℕ) := by
      rw [shiftWithRoundingBy_efficient hk, shiftWithRoundingBy_plain hk, BitVec.sshiftRight_zero,
        pow_zero]
    have hpos : (0 : ℤ) < 2 ^ (n - (0 + 1)) := by positivity
    rw [hsame, plain_of_le hk v (by rw [hmax, pow_zero]; linarith)] at h
    linarith
  · exact fun h => efficient_of_lt hk v (efficient_lt hk v h)

/-- The plain way rounds the values that leave room for half a unit. -/
theorem plain_rounds_iff (hk : k + 1 < n) (v : BitVec n) :
    (shiftWithRoundingBy false v (k + 1 : ℕ)).toInt = roundShift (k + 1) v.toInt ↔
      v.toInt + 2 ^ k < 2 ^ (n - 1) := by
  constructor
  · intro h
    by_contra hlt
    have hpos : (0 : ℤ) < 2 ^ (n - (k + 1)) := by positivity
    rw [plain_of_le hk v (not_lt.mp hlt)] at h
    linarith
  · exact plain_of_lt hk v

/-- The two ways agree where the plain one has room, and where a single bit is dropped. -/
theorem efficient_eq_plain_iff (hk : k + 1 < n) (v : BitVec n) :
    shiftWithRoundingBy true v (k + 1 : ℕ) = shiftWithRoundingBy false v (k + 1 : ℕ) ↔
      k = 0 ∨ v.toInt + 2 ^ k < 2 ^ (n - 1) := by
  rcases Nat.eq_zero_or_pos k with rfl | hpos
  · rw [shiftWithRoundingBy_efficient hk, shiftWithRoundingBy_plain hk, BitVec.sshiftRight_zero,
      pow_zero]
    simp
  · have heff := (efficient_rounds_iff hk v).mpr fun h => hpos.ne' h.1
    rw [← BitVec.toInt_inj, heff, eq_comm, plain_rounds_iff hk, or_iff_right hpos.ne']

theorem efficient_eq_plain_iff_eighteen :
    shiftWithRoundingBy true (BitVec.ofInt 18 131066) (4 + 1 : ℕ) =
        shiftWithRoundingBy false (BitVec.ofInt 18 131066) (4 + 1 : ℕ) ↔
      4 = 0 ∨ (BitVec.ofInt 18 131066).toInt + 2 ^ 4 < 2 ^ (18 - 1) :=
  efficient_eq_plain_iff (by decide) _

/-- As the package is configured, every value but the largest one is rounded. -/
theorem toInt_shiftWithRounding (hk : k < n) {v : BitVec n} (hv : v.toInt < 2 ^ (n - 1) - 1) :
    (shiftWithRounding v k).toInt = roundShift k v.toInt := by
  cases k with
  | zero =>
    rw [Numbers.roundShift_zero]
    show (shiftWithRoundingBy true v (0 : ℕ)).toInt = _
    rw [Nat.cast_zero, shiftWithRoundingBy_of_le _ _ le_rfl, Int.natAbs_zero,
      BitVec.shiftLeft_zero]
  | succ k => exact (efficient_rounds_iff hk v).mpr fun h => hv.ne h.2

/-! ### Biases -/

/-- A bias is rounded like a sum if it is not negative; a negative one comes out one too
large, unless it is a tie. -/
theorem adjustOffset_eq (v : ℤ) (k : ℕ) :
    adjustOffset v (k + 1 : ℕ) =
      roundShift (k + 1) v + if v + 2 ^ k < 0 ∧ ¬2 ^ (k + 1) ∣ v + 2 ^ k then 1 else 0 := by
  have hpos : (0 : ℤ) < (k + 1 : ℕ) := by omega
  have hsub : (((k + 1 : ℕ) : ℤ) - 1).toNat = k := by omega
  have hsign : Int.sign (2 ^ (k + 1)) = 1 := Int.sign_eq_one_of_pos (by positivity)
  rw [adjustOffset, if_pos hpos, hsub, Int.toNat_natCast, Int.tdiv_eq_ediv, hsign, roundShift_succ]
  congr 1
  by_cases h : 0 ≤ v + 2 ^ k ∨ 2 ^ (k + 1) ∣ v + 2 ^ k
  · rw [if_pos h, if_neg]
    rintro ⟨hneg, hdvd⟩
    rcases h with h | h
    · omega
    · exact hdvd h
  · rw [if_neg h, if_pos]
    rw [not_or, not_le] at h
    exact h

/-- Biases and sums are rounded alike exactly where the bias with its half is not negative,
or a multiple of the divisor. All other biases come out one too large. -/
theorem adjustOffset_rounds_iff (v : ℤ) (k : ℕ) :
    (adjustOffset v (k + 1 : ℕ) = roundShift (k + 1) v ↔
        0 ≤ v + 2 ^ k ∨ (2 ^ (k + 1) : ℤ) ∣ v + 2 ^ k) ∧
      (adjustOffset v (k + 1 : ℕ) = roundShift (k + 1) v + 1 ↔
        v + 2 ^ k < 0 ∧ ¬(2 ^ (k + 1) : ℤ) ∣ v + 2 ^ k) := by
  rw [adjustOffset_eq]
  by_cases h : v + 2 ^ k < 0 ∧ ¬(2 ^ (k + 1) : ℤ) ∣ v + 2 ^ k
  · rw [if_pos h]
    refine ⟨iff_of_false (by omega) ?_, iff_of_true rfl h⟩
    rintro (hnonneg | hdvd)
    · exact absurd h.1 (not_lt.mpr hnonneg)
    · exact absurd hdvd h.2
  · rw [if_neg h, add_zero]
    refine ⟨iff_of_true rfl ?_, iff_of_false (by omega) h⟩
    rw [not_and_or, not_lt, not_not] at h
    exact h

/-- Not even a negative multiple of the divisor is divided exactly. -/
theorem adjustOffset_mul (m : ℤ) (k : ℕ) :
    adjustOffset (2 ^ (k + 1) * m) (k + 1 : ℕ) = m + if m < 0 then 1 else 0 := by
  have hpow : (0 : ℤ) < 2 ^ k := by positivity
  have htwo : (2 : ℤ) ^ (k + 1) = 2 * 2 ^ k := by ring
  have hround : roundShift (k + 1) (2 ^ (k + 1) * m) = m := by
    rw [roundShift_succ, Int.mul_add_ediv_left _ _ (by positivity),
      Int.ediv_eq_zero_of_lt hpow.le (by linarith), add_zero]
  have hdvd : ¬(2 : ℤ) ^ (k + 1) ∣ 2 ^ (k + 1) * m + 2 ^ k := by
    rw [Int.dvd_add_right (Int.dvd_mul_right _ _)]
    exact fun h => absurd (Int.le_of_dvd hpow h) (by linarith)
  rw [adjustOffset_eq, hround]
  congr 1
  apply if_congr _ rfl rfl
  rw [and_iff_left hdvd, htwo]
  constructor
  · intro h
    nlinarith
  · intro h
    nlinarith

/-! ### Activations -/

theorem toInt_reluF (hn : 0 < n) (i : BitVec n) {max : ℤ} (h : Fits n max) :
    (reluF i max).toInt = reluFInt i.toInt max := by
  unfold reluF reluFInt
  rw [Numbers.toInt_ofInt hn h]
  split_ifs
  · rfl
  · exact Numbers.toInt_ofInt hn h
  · exact BitVec.toInt_zero

theorem toInt_intMin (hn : 0 < n) : (BitVec.intMin n).toInt = -2 ^ (n - 1) := by
  rw [BitVec.toInt_intMin_of_pos hn]

/-- The signed `linear_f` is the integer one but for the most negative value, whose `abs`
is negative. -/
theorem toInt_linearF_iff (hn : 0 < n) (i : BitVec n) {max : ℤ} (h0 : 0 ≤ max) (h : Fits n max) :
    (linearF i max).toInt = linearFInt i.toInt max ↔ i.toInt ≠ -2 ^ (n - 1) := by
  have hneg : Fits n (max * -1) := ⟨by linarith [h.2], by linarith [h.2]⟩
  have hpow : (0 : ℤ) < 2 ^ (n - 1) := by positivity
  have hmax := Numbers.toInt_ofInt hn h
  have hmin := Numbers.toInt_ofInt hn hneg
  by_cases hi : i = BitVec.intMin n
  · have habs : i.abs.toInt = -2 ^ (n - 1) := by rw [hi, BitVec.abs_intMin, toInt_intMin hn]
    have htoInt : i.toInt = -2 ^ (n - 1) := by rw [hi, toInt_intMin hn]
    have hbound := h.2
    rw [linearF, linearFInt, hmax, habs, htoInt, if_pos (by linarith), if_pos (by linarith),
      if_pos (by linarith), if_neg (by linarith), htoInt]
    simp only [ne_eq, not_true_eq_false, iff_false]
    linarith
  · have hne : i.toInt ≠ -2 ^ (n - 1) := by
      rw [← toInt_intMin hn]
      exact fun heq => hi (BitVec.eq_of_toInt_eq heq)
    have habs : i.abs.toInt < max ↔ -max < i.toInt ∧ i.toInt < max := by
      rw [BitVec.toInt_abs_eq_natAbs_of_ne_intMin hi]
      omega
    rw [iff_true_right hne, linearF, linearFInt, hmax]
    simp only [habs]
    split_ifs <;> omega

theorem toInt_linearF_iff_nine :
    (linearF (BitVec.ofInt 9 (-200)) 127).toInt = linearFInt (BitVec.ofInt 9 (-200)).toInt 127 ↔
      (BitVec.ofInt 9 (-200)).toInt ≠ -2 ^ (9 - 1) :=
  toInt_linearF_iff (by decide) _ (by decide) (by decide)

theorem fits_valueMax (hn : cnnValueResolution ≤ n) : Fits n valueMax :=
  Fits.mono (n := cnnValueResolution) (by decide) hn

/-- `relu` clips to the values. -/
theorem toInt_activate_relu (hn : cnnValueResolution ≤ n) (b : ℕ) (i : BitVec n) :
    (activate .relu b i).toInt = reluFInt i.toInt valueMax := by
  have hpos : 0 < n := lt_of_lt_of_le (by decide) hn
  have hrelu := toInt_reluF hpos i (fits_valueMax hn)
  show (resize _ (reluF i valueMax)).toInt = _
  rw [Numbers.toInt_resize (by decide), hrelu]
  rw [hrelu]
  have hmax : (valueMax : ℤ) = 127 := rfl
  unfold reluFInt Fits cnnValueResolution
  rw [hmax]
  split_ifs <;> omega

/-- The one of the step function is one too large for a value: the resize makes it zero. -/
theorem activate_stepFunc (hn : cnnValueResolution < n) (b : ℕ) (i : BitVec n) :
    activate .stepFunc b i = 0 := by
  have hone : (BitVec.ofInt n (2 ^ (cnnWeightResolution - 1))).toInt = 128 :=
    toInt_ofInt_two_pow (k := cnnWeightResolution - 1) hn
  show resize _ (stepF i) = 0
  unfold stepF
  have hwide : ¬n ≤ cnnValueResolution := not_le.mpr hn
  split_ifs
  · have hmsb : (BitVec.ofInt n (2 ^ (cnnWeightResolution - 1))).msb = false := by
      rw [BitVec.msb_eq_toInt, hone]
      rfl
    rw [resize, if_neg hwide, hone, hmsb]
    rfl
  · rw [resize, if_neg hwide, BitVec.toInt_zero, BitVec.msb_zero]
    rfl

/-- So is that of the sign function; its minus one leaves the range of the values. -/
theorem activate_signFunc (hn : cnnValueResolution < n) (b : ℕ) (i : BitVec n) :
    activate .signFunc b i = if i.toInt < 0 then BitVec.intMin _ else 0 := by
  have hwide : ¬n ≤ cnnValueResolution := not_le.mpr hn
  have hone : (BitVec.ofInt n (2 ^ (cnnWeightResolution - 1))).toInt = 128 :=
    toInt_ofInt_two_pow (k := cnnWeightResolution - 1) hn
  have hminus : (BitVec.ofInt n (2 ^ (cnnWeightResolution - 1) * -1)).toInt = -128 := by
    apply Numbers.toInt_ofInt (by omega)
    exact Fits.mono (n := cnnValueResolution) (by decide) hn.le
  show resize _ (signF i) = _
  unfold signF
  split_ifs with hpos hneg
  · omega
  · have hmsb : (BitVec.ofInt n (2 ^ (cnnWeightResolution - 1))).msb = false := by
      rw [BitVec.msb_eq_toInt, hone]
      rfl
    rw [resize, if_neg hwide, hone, hmsb]
    rfl
  · have hmsb : (BitVec.ofInt n (2 ^ (cnnWeightResolution - 1) * -1)).msb = true := by
      rw [BitVec.msb_eq_toInt, hminus]
      rfl
    rw [resize, if_neg hwide, hminus, hmsb]
    rfl
  · rw [resize, if_neg hwide, BitVec.toInt_zero, BitVec.msb_zero]
    rfl

/-- Neither of the two functions ever gives a one. -/
theorem activate_never_one (hn : cnnValueResolution < n) (b : ℕ) (i : BitVec n) :
    activate .stepFunc b i = 0 ∧
      activate .signFunc b i = if i.toInt < 0 then BitVec.intMin _ else 0 :=
  ⟨activate_stepFunc hn b i, activate_signFunc hn b i⟩

end AlteraWorkshops.Cnn
