import Mathlib.Algebra.Order.Floor.Ring
import Mathlib.Data.Int.Log
import Mathlib.Data.Rat.Floor
import Mathlib.Tactic.Linarith

/-! Rounding to the nearest integer, a tie going to the even one, and what it makes of a
magnitude in the binary format with 53 significant bits. -/

namespace AlteraWorkshops.Numbers

def roundHalfEven (x : ℚ) : ℤ :=
  if x - ⌊x⌋ < 1 / 2 then ⌊x⌋
  else if 1 / 2 < x - ⌊x⌋ then ⌊x⌋ + 1
  else if Even ⌊x⌋ then ⌊x⌋ else ⌊x⌋ + 1

theorem roundHalfEven_intCast (n : ℤ) : roundHalfEven n = n := by
  rw [roundHalfEven, Int.floor_intCast, sub_self, if_pos (by norm_num)]

/-- What is rounded to `n` or above: a tie below `n` goes up if `n` is even. -/
theorem le_roundHalfEven_iff (n : ℤ) (x : ℚ) :
    n ≤ roundHalfEven x ↔ n - 1 / 2 < x ∨ x = n - 1 / 2 ∧ Even n := by
  have hlow : (⌊x⌋ : ℚ) ≤ x := Int.floor_le x
  have hhigh : x < ⌊x⌋ + 1 := Int.lt_floor_add_one x
  have hle (m : ℤ) : n ≤ m ↔ (n : ℚ) ≤ m := Int.cast_le.symm
  have hlt (m : ℤ) : n ≤ m ↔ (n : ℚ) < m + 1 := by
    rw [← Int.lt_add_one_iff]
    exact_mod_cast Iff.rfl
  unfold roundHalfEven
  split_ifs with hnear hfar heven
  · constructor
    · intro h
      rw [hle] at h
      exact .inl (by linarith)
    · rw [hlt]
      rintro (h | ⟨h, -⟩) <;> linarith
  · constructor
    · intro h
      rw [hle, Int.cast_add, Int.cast_one] at h
      exact .inl (by linarith)
    · rw [hlt, Int.cast_add, Int.cast_one]
      rintro (h | ⟨h, -⟩) <;> linarith
  · have htie : x = ⌊x⌋ + 1 / 2 := by linarith
    constructor
    · intro h
      rw [hle] at h
      exact .inl (by linarith)
    · rintro (h | ⟨h, hn⟩)
      · rw [hlt]
        linarith
      · obtain rfl : n = ⌊x⌋ + 1 := by
          have : (n : ℚ) = (⌊x⌋ : ℚ) + 1 := by linarith
          exact_mod_cast this
        exact absurd heven (Int.even_add_one.mp hn)
  · have htie : x = ⌊x⌋ + 1 / 2 := by linarith
    rw [hle, Int.cast_add, Int.cast_one]
    constructor
    · intro h
      rcases h.lt_or_eq with h | h
      · exact .inl (by linarith)
      · obtain rfl : n = ⌊x⌋ + 1 := by exact_mod_cast h
        exact .inr ⟨by linarith, Int.even_add_one.mpr heven⟩
    · rintro (h | ⟨h, -⟩) <;> linarith

theorem roundHalfEven_le_iff (n : ℤ) (x : ℚ) :
    roundHalfEven x ≤ n ↔ x < n + 1 / 2 ∨ x = n + 1 / 2 ∧ Even n := by
  have hhalf : ((n + 1 : ℤ) : ℚ) - 1 / 2 = n + 1 / 2 := by
    push_cast
    ring
  rw [← Int.lt_add_one_iff, ← not_le, le_roundHalfEven_iff, hhalf, Int.even_add_one]
  constructor
  · intro h
    rcases lt_trichotomy x (n + 1 / 2) with hx | hx | hx
    · exact .inl hx
    · exact .inr ⟨hx, by_contra fun hn => h (.inr ⟨hx, hn⟩)⟩
    · exact absurd (.inl hx) h
  · rintro (hx | ⟨hx, hn⟩) (hx' | ⟨hx', hn'⟩)
    · exact hx.not_gt hx'
    · exact hx.ne hx'
    · exact hx'.ne' hx
    · exact hn' hn

/-! ### Magnitudes in binary64 -/

/-- The exponent of the last of 53 bits, which does not go below that of the subnormals. -/
def lastBit (x : ℚ) : ℤ := max (Int.log 2 x - 52) (-1074)

/-- A magnitude rounded to binary64; `none` is infinity. -/
def roundBinary64 (x : ℚ) : Option ℚ :=
  let rounded : ℚ := roundHalfEven (x / 2 ^ lastBit x) * 2 ^ lastBit x
  if rounded < 2 ^ 1024 then some rounded else none

end AlteraWorkshops.Numbers
