import Mathlib.Data.List.Induction
import Mathlib.Tactic.Common
import Mathlib.Tactic.IntervalCases
import Mathlib.Tactic.Ring

/-! Decimal numerals: the text a number prints as, the number a text reads as, and
what is left of a numeral whose last digits are missing. -/

namespace AlteraWorkshops.Text

/-- `'0' + d` -/
def digitChar (d : ℕ) : Char := Char.ofNat (48 + d)

/-- The digits of a positive number, least significant first. -/
def digitBuffer (value : ℕ) : List Char :=
  if 0 < value then digitChar (value % 10) :: digitBuffer (value / 10) else []

/-- The numeral of a number. -/
def decimal (value : ℕ) : List Char := if value = 0 then ['0'] else (digitBuffer value).reverse

/-- The number that a list of digits reads as. -/
def intOf (ds : List Char) : ℕ := ds.foldl (fun n c => 10 * n + (c.toNat - 48)) 0

/-! ### Digits -/

theorem digitChar_isDigit {d : ℕ} (hd : d < 10) : (digitChar d).isDigit = true := by
  interval_cases d <;> decide

theorem digitChar_toNat {d : ℕ} (hd : d < 10) : (digitChar d).toNat - 48 = d := by
  interval_cases d <;> decide

theorem digitChar_inj {d e : ℕ} (hd : d < 10) (he : e < 10) (h : digitChar d = digitChar e) :
    d = e := by
  rw [← digitChar_toNat hd, h, digitChar_toNat he]

theorem digitBuffer_isDigit (value : ℕ) : ∀ c ∈ digitBuffer value, c.isDigit = true := by
  induction value using digitBuffer.induct with
  | case1 value hpos ih =>
    rw [digitBuffer, if_pos hpos]
    intro c hc
    rcases List.mem_cons.mp hc with rfl | hc
    · exact digitChar_isDigit (Nat.mod_lt _ (by decide))
    · exact ih c hc
  | case2 value hpos =>
    rw [digitBuffer, if_neg hpos]
    simp

theorem digitBuffer_length_lt {value k : ℕ} (h : value < 10 ^ k) :
    (digitBuffer value).length ≤ k := by
  induction k generalizing value with
  | zero =>
    rw [digitBuffer, if_neg (by omega)]
    exact le_rfl
  | succ k ih =>
    rw [digitBuffer]
    split_ifs
    · rw [List.length_cons]
      exact Nat.succ_le_succ (ih (Nat.div_lt_of_lt_mul (by rw [pow_succ] at h; omega)))
    · exact Nat.zero_le _

theorem decimal_isDigit (value : ℕ) : ∀ c ∈ decimal value, c.isDigit = true := by
  unfold decimal
  split_ifs
  · intro c hc
    rw [List.mem_singleton.mp hc]
    decide
  · intro c hc
    exact digitBuffer_isDigit value c (List.mem_reverse.mp hc)

theorem decimal_ne_nil (value : ℕ) : decimal value ≠ [] := by
  unfold decimal
  split_ifs with h
  · simp
  · rw [digitBuffer, if_pos (Nat.pos_of_ne_zero h)]
    simp

theorem decimal_of_lt {d : ℕ} (hd : d < 10) : decimal d = [digitChar d] := by
  unfold decimal
  split_ifs with h
  · rw [h]
    decide
  · rw [digitBuffer, if_pos (Nat.pos_of_ne_zero h), Nat.mod_eq_of_lt hd, digitBuffer,
      if_neg (by omega)]
    rfl

/-- The numeral is the canonical one. -/
theorem decimal_eq_toDigits (value : ℕ) : decimal value = Nat.toDigits 10 value := by
  have hchar : ∀ d < 10, digitChar d = Nat.digitChar d := by decide
  have hbuffer : ∀ value, 0 < value → (digitBuffer value).reverse = Nat.toDigits 10 value := by
    intro value
    induction value using digitBuffer.induct with
    | case1 value hpos ih =>
      intro _
      rw [digitBuffer, if_pos hpos, List.reverse_cons, hchar _ (Nat.mod_lt _ (by decide))]
      rcases Nat.lt_or_ge value 10 with hlt | hge
      · rw [Nat.toDigits_of_lt_base hlt, Nat.mod_eq_of_lt hlt, Nat.div_eq_of_lt hlt, digitBuffer,
          if_neg (by decide)]
        rfl
      · rw [ih (Nat.div_pos hge (by decide)), ← Nat.toDigits_of_base_le (by decide) hge]
    | case2 value hpos => exact fun h => absurd h hpos
  unfold decimal
  split_ifs with h
  · rw [h]
    rfl
  · exact hbuffer value (Nat.pos_of_ne_zero h)

/-! ### Digits in a buffer of fixed size -/

/-- The digits go into a buffer of `size` characters from index `i` on, last digit
first. `none` is a write past the buffer. -/
def collectDigits (size : ℕ) (buffer : ℕ → Char) (i value : ℕ) : Option ((ℕ → Char) × ℕ) :=
  if 0 < value then
    if i < size then
      collectDigits size (Function.update buffer i (digitChar (value % 10))) (i + 1) (value / 10)
    else none
  else some (buffer, i)

/-- The characters below index `i`, from the end. -/
def printBack (buffer : ℕ → Char) : ℕ → List Char
  | 0 => []
  | i + 1 => buffer i :: printBack buffer i

theorem printBack_congr {b b' : ℕ → Char} {i : ℕ} (h : ∀ j < i, b j = b' j) :
    printBack b i = printBack b' i := by
  induction i with
  | zero => rfl
  | succ i ih =>
    rw [printBack, printBack, h i (Nat.lt_succ_self i), ih fun j hj => h j (by omega)]

/-- With room for the digits the buffer ends up with them, in front of what it held. -/
theorem collectDigits_eq {size i value : ℕ} (buffer : ℕ → Char)
    (h : i + (digitBuffer value).length ≤ size) :
    ∃ b, collectDigits size buffer i value = some (b, i + (digitBuffer value).length) ∧
      printBack b (i + (digitBuffer value).length) =
        (digitBuffer value).reverse ++ printBack buffer i := by
  induction value using digitBuffer.induct generalizing buffer i with
  | case1 value hpos ih =>
    rw [digitBuffer, if_pos hpos, List.length_cons] at h ⊢
    obtain ⟨b, hb, hprint⟩ :=
      ih (Function.update buffer i (digitChar (value % 10))) (i := i + 1) (by omega)
    have hlen : i + ((digitBuffer (value / 10)).length + 1) =
      i + 1 + (digitBuffer (value / 10)).length := by omega
    have hold : printBack (Function.update buffer i (digitChar (value % 10))) i =
        printBack buffer i :=
      printBack_congr fun j hj => Function.update_of_ne (by omega) _ _
    refine ⟨b, ?_, ?_⟩
    · rw [collectDigits, if_pos hpos, if_pos (by omega), hb, hlen]
    · rw [hlen, hprint, printBack, hold, Function.update_self, List.reverse_cons,
        List.append_assoc]
      rfl
  | case2 value hpos =>
    rw [digitBuffer, if_neg hpos]
    refine ⟨buffer, ?_, rfl⟩
    rw [collectDigits, if_neg hpos]
    rfl

/-! ### Reading back -/

theorem intOf_append_singleton (ds : List Char) (c : Char) :
    intOf (ds ++ [c]) = 10 * intOf ds + (c.toNat - 48) := by
  rw [intOf, List.foldl_append]
  rfl

theorem intOf_append (ds es : List Char) :
    intOf (ds ++ es) = intOf ds * 10 ^ es.length + intOf es := by
  induction es using List.reverseRecOn with
  | nil => simp [intOf]
  | append_singleton es c ih =>
    rw [← List.append_assoc, intOf_append_singleton, ih, intOf_append_singleton,
      List.length_append, List.length_singleton, pow_succ]
    ring

theorem intOf_digitBuffer (value : ℕ) : intOf (digitBuffer value).reverse = value := by
  induction value using digitBuffer.induct with
  | case1 value hpos ih =>
    rw [digitBuffer, if_pos hpos, List.reverse_cons, intOf_append_singleton, ih,
      digitChar_toNat (Nat.mod_lt _ (by decide))]
    omega
  | case2 value hpos =>
    rw [digitBuffer, if_neg hpos, List.reverse_nil]
    exact (Nat.eq_zero_of_not_pos hpos).symm

theorem intOf_decimal (value : ℕ) : intOf (decimal value) = value := by
  unfold decimal
  split_ifs with h
  · rw [h]
    decide
  · exact intOf_digitBuffer value

/-- A numeral that lost its last digits reads as another number. -/
theorem intOf_take_ne {value k : ℕ} (hv : value ≠ 0) (hk : k < (decimal value).length) :
    intOf ((decimal value).take k) ≠ value := by
  intro h
  have hsplit : intOf ((decimal value).take k ++ (decimal value).drop k) = value := by
    rw [List.take_append_drop, intOf_decimal]
  rw [intOf_append, h, List.length_drop] at hsplit
  obtain ⟨m, hm⟩ : ∃ m, (decimal value).length - k = m + 1 :=
    ⟨(decimal value).length - k - 1, by omega⟩
  rw [hm, pow_succ] at hsplit
  have hpos : 0 < 10 ^ m := Nat.pow_pos (by decide)
  have hgrow : value * 10 ≤ value * (10 ^ m * 10) := Nat.mul_le_mul_left _ (by omega)
  omega

/-- What the first `k` characters of a numeral tell: nothing if there are none. -/
def partialValue (value k : ℕ) : ℕ := if k = 0 then 0 else intOf ((decimal value).take k)

theorem partialValue_eq_iff {value k : ℕ} :
    partialValue value k = value ↔ (decimal value).length ≤ k ∨ value = 0 := by
  unfold partialValue
  have hlen : 0 < (decimal value).length := List.length_pos_iff.mpr (decimal_ne_nil value)
  by_cases hv : value = 0
  · have hdec : decimal 0 = ['0'] := rfl
    subst hv
    cases k <;> simp [hdec, intOf]
  · simp only [hv, or_false]
    split_ifs with hk
    · omega
    · constructor
      · intro h
        by_contra hlt
        exact intOf_take_ne hv (by omega) h
      · intro h
        rw [List.take_of_length_le h, intOf_decimal]

end AlteraWorkshops.Text
