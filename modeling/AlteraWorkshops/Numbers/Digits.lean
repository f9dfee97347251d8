import Mathlib.Tactic.Common

/-! Counting with a last digit: the next number has the next digit, or a zero and a carry. -/

namespace AlteraWorkshops.Numbers

variable {m q a b c d : ℕ}

theorem div_mod_eq (hb : b < q) : (q * a + b) / q = a ∧ (q * a + b) % q = b := by
  rw [Nat.mul_add_div (by omega), Nat.mul_add_mod, Nat.div_eq_of_lt hb, Nat.mod_eq_of_lt hb]
  exact ⟨rfl, rfl⟩

theorem div_mod_eq' (hb : b < q) : (a * q + b) / q = a ∧ (a * q + b) % q = b := by
  rw [Nat.mul_comm]
  exact div_mod_eq hb

/-- Numbers with the same digits are the same, and no others. -/
theorem digits_inj (hb : b < q) (hd : d < q) (h : a * q + b = c * q + d) : a = c ∧ b = d := by
  obtain ⟨h1, h2⟩ := div_mod_eq' (a := a) hb
  obtain ⟨h3, h4⟩ := div_mod_eq' (a := c) hd
  rw [h, h3] at h1
  rw [h, h4] at h2
  exact ⟨h1.symm, h2.symm⟩

theorem digits_lt_mul (hb : b < q) (h : a < c) : a * q + b < c * q := by
  have hmul := Nat.mul_le_mul_right q (Nat.succ_le_of_lt h)
  rw [Nat.succ_mul] at hmul
  omega

/-- The first digit decides. -/
theorem digits_lt (hb : b < q) (h : a < c) (d : ℕ) : a * q + b < c * q + d :=
  Nat.lt_of_lt_of_le (digits_lt_mul hb h) (Nat.le_add_right _ d)

theorem pred_mul_add (ha : 0 < a) (q : ℕ) : (a - 1) * q + q = a * q := by
  rw [← Nat.succ_mul, Nat.succ_eq_add_one, Nat.sub_add_cancel ha]

theorem div_mod_succ_of_lt (h : m % q + 1 < q) :
    (m + 1) / q = m / q ∧ (m + 1) % q = m % q + 1 := by
  have hm : m + 1 = q * (m / q) + (m % q + 1) := by
    have hdivmod := Nat.div_add_mod m q
    omega
  rw [hm]
  exact div_mod_eq h

theorem div_mod_succ_of_eq (hq : 0 < q) (h : m % q + 1 = q) :
    (m + 1) / q = m / q + 1 ∧ (m + 1) % q = 0 := by
  have hm : m + 1 = q * (m / q + 1) + 0 := by
    have hdivmod := Nat.div_add_mod m q
    rw [Nat.mul_succ]
    omega
  rw [hm]
  exact div_mod_eq hq

/-- There is no third way. -/
theorem mod_succ_lt_or_eq (hq : 0 < q) (m : ℕ) : m % q + 1 < q ∨ m % q + 1 = q := by
  have hmod := Nat.mod_lt m hq
  omega

theorem div_mod_of_succ_mod_eq_zero (hq : 0 < q) (h : (m + 1) % q = 0) :
    m % q + 1 = q ∧ (m + 1) / q = m / q + 1 := by
  rcases mod_succ_lt_or_eq hq m with hlt | heq
  · have hmod := (div_mod_succ_of_lt hlt).2
    omega
  · exact ⟨heq, (div_mod_succ_of_eq hq heq).1⟩

end AlteraWorkshops.Numbers
