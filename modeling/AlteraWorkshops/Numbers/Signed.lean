import Mathlib.Algebra.Order.Ring.Int
import Mathlib.Data.BitVec
import Mathlib.Tactic.Linarith
import Mathlib.Tactic.Ring

/-! Signed words of a fixed width: when an operation on them is the operation on the
integers they stand for, and rounding to a multiple of a power of two, a tie going up. -/

namespace AlteraWorkshops.Numbers

variable {n m k : ℕ} {x y : ℤ}

/-! ### Values of a width -/

/-- `x` is a value of `n` bits. -/
def Fits (n : ℕ) (x : ℤ) : Prop := -2 ^ (n - 1) ≤ x ∧ x < 2 ^ (n - 1)

instance (n : ℕ) (x : ℤ) : Decidable (Fits n x) := inferInstanceAs (Decidable (_ ∧ _))

theorem fits_succ (h1 : -2 ^ n ≤ x) (h2 : x < 2 ^ n) : Fits (n + 1) x := ⟨h1, h2⟩

theorem fits_toInt (v : BitVec n) : Fits n v.toInt := ⟨v.le_toInt, v.toInt_lt⟩

theorem Fits.mono (h : Fits n x) (hnm : n ≤ m) : Fits m x := by
  have hpow : (2 : ℤ) ^ (n - 1) ≤ 2 ^ (m - 1) := pow_le_pow_right₀ one_le_two (by omega)
  exact ⟨by linarith [h.1], by linarith [h.2]⟩

theorem toInt_ofInt (hn : 0 < n) (h : Fits n x) : (BitVec.ofInt n x).toInt = x :=
  BitVec.toInt_ofInt_eq_self hn h.1 h.2

/-- A number that is not negative is the same without its sign. -/
theorem toNat_of_toInt {b : BitVec n} (h : b.toInt = x) (h0 : 0 ≤ x) :
    b.toNat = x.toNat := by
  have hlt := b.isLt
  rw [BitVec.toInt_eq_toNat_cond] at h
  split_ifs at h <;> omega

/-- A sum that fits does not wrap. -/
theorem toInt_add (hn : 0 < n) {v w : BitVec n} (h : Fits n (v.toInt + w.toInt)) :
    (v + w).toInt = v.toInt + w.toInt := by
  rw [BitVec.toInt_add, ← BitVec.toInt_ofInt, toInt_ofInt hn h]

/-! ### Widths -/

/-- `v` in `m` bits: more bits copy the sign, fewer keep the sign and the low bits. -/
def resize (m : ℕ) (v : BitVec n) : BitVec m :=
  if n ≤ m then v.signExtend m
  else BitVec.ofInt m (v.toInt % 2 ^ (m - 1) - if v.msb then 2 ^ (m - 1) else 0)

theorem toInt_resize (hm : 0 < m) {v : BitVec n} (h : Fits m v.toInt) :
    (resize m v).toInt = v.toInt := by
  unfold resize
  split_ifs with hnm hsign
  · exact BitVec.toInt_signExtend_of_le hnm
  · have hneg : v.toInt < 0 := by simpa [BitVec.msb_eq_toInt] using hsign
    have hmod : v.toInt % 2 ^ (m - 1) = v.toInt + 2 ^ (m - 1) := by
      rw [← Int.add_emod_right, Int.emod_eq_of_lt (by linarith [h.1]) (by linarith)]
    rw [hmod, add_sub_cancel_right, toInt_ofInt hm h]
  · have hpos : 0 ≤ v.toInt := by simpa [BitVec.msb_eq_toInt] using hsign
    rw [Int.emod_eq_of_lt hpos h.2, sub_zero, toInt_ofInt hm h]

/-! ### Rounding -/

/-- `x` over `2 ^ k`, a half going up. -/
def roundShift (k : ℕ) (x : ℤ) : ℤ := (x + 2 ^ k / 2) / 2 ^ k

@[simp] theorem roundShift_zero (x : ℤ) : roundShift 0 x = x := by simp [roundShift]

@[simp] theorem roundShift_self_zero (k : ℕ) : roundShift k 0 = 0 := by
  have hpow : (0 : ℤ) < 2 ^ k := by positivity
  rw [roundShift, zero_add]
  exact Int.ediv_eq_zero_of_lt (by omega) (by omega)

theorem roundShift_succ (k : ℕ) (x : ℤ) : roundShift (k + 1) x = (x + 2 ^ k) / 2 ^ (k + 1) := by
  rw [roundShift, pow_succ, Int.mul_ediv_cancel _ two_ne_zero]

/-- All bits but one are dropped first, and the last one rounds. -/
theorem roundShift_succ_eq_half (k : ℕ) (x : ℤ) :
    roundShift (k + 1) x = (x / 2 ^ k + 1) / 2 := by
  have hpow : (2 : ℤ) ^ k ≠ 0 := by positivity
  have hadd : x / 2 ^ k + 1 = (x + 1 * 2 ^ k) / 2 ^ k := (Int.add_mul_ediv_right _ _ hpow).symm
  rw [roundShift_succ, hadd, one_mul, pow_succ, Int.ediv_ediv_of_nonneg (by positivity)]

theorem roundShift_mono (k : ℕ) (h : x ≤ y) : roundShift k x ≤ roundShift k y := by
  unfold roundShift
  exact Int.ediv_le_ediv (by positivity) (by linarith)

/-- Rounding does not move a value away from zero. -/
theorem roundShift_between (k : ℕ) (x : ℤ) :
    min x 0 ≤ roundShift k x ∧ roundShift k x ≤ max x 0 := by
  have hpow : (1 : ℤ) ≤ 2 ^ k := one_le_pow₀ one_le_two
  unfold roundShift
  rcases le_total 0 x with h | h
  · rw [min_eq_right h, max_eq_left h]
    refine ⟨Int.ediv_nonneg (by omega) (by omega), ?_⟩
    rw [← Int.lt_add_one_iff]
    apply Int.ediv_lt_of_lt_mul (by omega)
    have hscale : x * 1 ≤ x * 2 ^ k := mul_le_mul_of_nonneg_left hpow h
    rw [add_mul]
    omega
  · rw [min_eq_left h, max_eq_right h]
    constructor
    · apply Int.le_ediv_of_mul_le (by omega)
      have hscale : x * 2 ^ k ≤ x * 1 := mul_le_mul_of_nonpos_left hpow h
      omega
    · rw [← Int.lt_add_one_iff]
      apply Int.ediv_lt_of_lt_mul (by omega)
      omega

end AlteraWorkshops.Numbers
