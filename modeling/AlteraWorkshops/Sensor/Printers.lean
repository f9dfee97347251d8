import AlteraWorkshops.Sensor.Bus
import AlteraWorkshops.Text.Reading
import Mathlib.Tactic.IntervalCases

/-! What the number printers of the firmware put on the console, read back. The printers
of hexadecimal numbers write every digit. `byte2bcd` leaves out each leading digit that is
zero, and the middle one also when the digit before it was written, so that 105 comes out
as 15. `byte2bcd4` looks at the digits before it, and has four of them for a number that
may have five. A `char` is unsigned on the processor. -/

namespace AlteraWorkshops.Sensor

open Text

/-! ### The printers that only this firmware has -/

def byte2bcd4 (value : BitVec 16) : List Char :=
  let bcd3 : BitVec 8 := (value / 1000).setWidth 8
  let rem3 := value % 1000
  let bcd2 : BitVec 8 := (rem3 / 100).setWidth 8
  let rem2 := rem3 % 100
  let bcd1 : BitVec 8 := (rem2 / 10).setWidth 8
  let bcd0 : BitVec 8 := (rem2 % 10).setWidth 8
  [if bcd3 ≠ 0 then hex2ascii bcd3 else ' ',
    if bcd3 ≠ 0 ∨ bcd2 ≠ 0 then hex2ascii bcd2 else ' ',
    if bcd3 ≠ 0 ∨ bcd2 ≠ 0 ∨ bcd1 ≠ 0 then hex2ascii bcd1 else ' ',
    hex2ascii bcd0]

def longWord2ascii (value : BitVec 32) : List Char :=
  [hex2ascii ((value >>> 28).setWidth 8), hex2ascii ((value >>> 24 &&& 0x0F).setWidth 8),
    hex2ascii ((value >>> 20 &&& 0x0F).setWidth 8), hex2ascii ((value >>> 16 &&& 0x0F).setWidth 8),
    hex2ascii ((value >>> 12 &&& 0x0F).setWidth 8), hex2ascii ((value >>> 8 &&& 0x0F).setWidth 8),
    hex2ascii ((value >>> 4 &&& 0x0F).setWidth 8), hex2ascii ((value &&& 0x0F).setWidth 8)]

/-! ### Digits -/

/-- The character of a digit. -/
def hexChar (d : ℕ) : Char := hex2ascii (BitVec.ofNat 8 d)

theorem hex2ascii_eq {d : BitVec 8} {n : ℕ} (hd : d.toNat = n) : hex2ascii d = hexChar n := by
  rw [hexChar, ← hd, BitVec.ofNat_toNat, BitVec.setWidth_eq]

theorem digitValue_hexChar {d : ℕ} (hd : d < 16) : digitValue (hexChar d) = some d := by
  interval_cases d <;> rfl

variable {base : ℕ} {ds : List ℕ}

/-- Printed digits read back as the number they make. -/
theorem readNumeral_hexChar (hbase : base ≤ 16) (hne : ds ≠ []) (hds : ∀ d ∈ ds, d < base) :
    readNumeral base (ds.map hexChar) = some (Nat.ofDigits base ds.reverse) := by
  have hread : ∀ d ∈ ds, readDigit base (hexChar d) = some d := fun d hd =>
    readDigit_eq_some.mpr ⟨digitValue_hexChar ((hds d hd).trans_le hbase), hds d hd⟩
  simpa using readNumeral_map hne hread

/-! ### Hexadecimal numbers -/

theorem nibble_toNat {w : ℕ} (hw : 4 ≤ w) (value : BitVec w) (i : ℕ) :
    ((value >>> i &&& 0x0F).setWidth 8).toNat = value.toNat / 2 ^ i % 16 := by
  have hmask : (0x0F : BitVec w).toNat = 2 ^ 4 - 1 := by
    have hlt : 15 < 2 ^ w := lt_of_lt_of_le (by decide) (Nat.pow_le_pow_right (by decide) hw)
    simpa using Nat.mod_eq_of_lt hlt
  have hsmall : value.toNat / 2 ^ i % 16 < 2 ^ 8 := by omega
  rw [BitVec.toNat_setWidth, BitVec.toNat_and, hmask, Nat.and_two_pow_sub_one_eq_mod,
    BitVec.toNat_ushiftRight, Nat.shiftRight_eq_div_pow, Nat.mod_eq_of_lt hsmall]

theorem last_nibble_toNat {w : ℕ} (hw : 4 ≤ w) (value : BitVec w) :
    ((value &&& 0x0F).setWidth 8).toNat = value.toNat % 16 := by
  simpa using nibble_toNat hw value 0

/-- The first nibble needs no mask. -/
theorem first_nibble_toNat {w i : ℕ} (value : BitVec w) (hi : w ≤ i + 4) :
    ((value >>> i).setWidth 8).toNat = value.toNat / 2 ^ i := by
  have hlt : value.toNat / 2 ^ i < 16 := by
    refine Nat.div_lt_of_lt_mul (value.isLt.trans_le ?_)
    calc 2 ^ w ≤ 2 ^ (i + 4) := Nat.pow_le_pow_right (by decide) hi
      _ = 2 ^ i * 16 := pow_add 2 i 4
  rw [BitVec.toNat_setWidth, BitVec.toNat_ushiftRight, Nat.shiftRight_eq_div_pow,
    Nat.mod_eq_of_lt (hlt.trans (by decide))]

theorem word2ascii_eq (value : BitVec 16) :
    word2ascii value = [value.toNat / 2 ^ 12, value.toNat / 2 ^ 8 % 16, value.toNat / 2 ^ 4 % 16,
      value.toNat % 16].map hexChar := by
  have hnibble (i : ℕ) := hex2ascii_eq (nibble_toNat (w := 16) (by decide) value i)
  rw [word2ascii, hex2ascii_eq (first_nibble_toNat value (by decide)), hnibble, hnibble,
    hex2ascii_eq (last_nibble_toNat (by decide) value)]
  rfl

theorem longWord2ascii_eq (value : BitVec 32) :
    longWord2ascii value = [value.toNat / 2 ^ 28, value.toNat / 2 ^ 24 % 16,
      value.toNat / 2 ^ 20 % 16, value.toNat / 2 ^ 16 % 16, value.toNat / 2 ^ 12 % 16,
      value.toNat / 2 ^ 8 % 16, value.toNat / 2 ^ 4 % 16, value.toNat % 16].map hexChar := by
  have hnibble (i : ℕ) := hex2ascii_eq (nibble_toNat (w := 32) (by decide) value i)
  rw [longWord2ascii, hex2ascii_eq (first_nibble_toNat value (by decide))]
  simp only [hnibble, hex2ascii_eq (last_nibble_toNat (w := 32) (by decide) value)]
  rfl

theorem readNumeral_word2ascii (value : BitVec 16) :
    readNumeral 16 (word2ascii value) = some value.toNat := by
  have hlt := value.isLt
  rw [word2ascii_eq, readNumeral_hexChar le_rfl (List.cons_ne_nil _ _) (by simp; omega)]
  simp [Nat.ofDigits_cons]
  omega

theorem readNumeral_longWord2ascii (value : BitVec 32) :
    readNumeral 16 (longWord2ascii value) = some value.toNat := by
  have hlt := value.isLt
  rw [longWord2ascii_eq, readNumeral_hexChar le_rfl (List.cons_ne_nil _ _) (by simp; omega)]
  simp only [List.reverse_cons, List.reverse_nil, List.nil_append, List.cons_append,
    Nat.ofDigits_cons, Nat.ofDigits_nil, Option.some_inj]
  omega

/-! ### Decimal numbers -/

theorem ne_zero_iff_toNat {d : BitVec 8} {n : ℕ} (hd : d.toNat = n) : d ≠ 0 ↔ n ≠ 0 := by
  rw [← hd, ne_eq, BitVec.toNat_eq]
  rfl

theorem byte2bcd_eq (value : BitVec 8) :
    byte2bcd value = ((if value.toNat / 100 ≠ 0 then [value.toNat / 100] else []) ++
      (if value.toNat % 100 / 10 ≠ 0 then [value.toNat % 100 / 10] else []) ++
        [value.toNat % 100 % 10]).map hexChar := by
  have h2 : (value / 100).toNat = value.toNat / 100 := BitVec.toNat_udiv
  have h1 : (value % 100 / 10).toNat = value.toNat % 100 / 10 := by simp
  have h0 : (value % 100 % 10).toNat = value.toNat % 100 % 10 := by simp
  simp only [byte2bcd, ne_zero_iff_toNat h2, ne_zero_iff_toNat h1, hex2ascii_eq h2,
    hex2ascii_eq h1, hex2ascii_eq h0]
  split_ifs <;> rfl

theorem readNumeral_byte2bcd (value : BitVec 8) :
    readNumeral 10 (byte2bcd value) = some value.toNat ↔
      value.toNat < 100 ∨ value.toNat / 10 % 10 ≠ 0 := by
  have hlt := value.isLt
  rw [byte2bcd_eq, readNumeral_hexChar (by decide) (by simp) (by split_ifs <;> simp <;> omega)]
  split_ifs <;> simp [Nat.ofDigits_cons] <;> omega

theorem byte2bcd4_eq {value : BitVec 16} {n : ℕ} (hn : value.toNat = n) :
    byte2bcd4 value = [if n / 1000 ≠ 0 then hexChar (n / 1000) else ' ',
      if n / 1000 ≠ 0 ∨ n % 1000 / 100 ≠ 0 then hexChar (n % 1000 / 100) else ' ',
      if n / 1000 ≠ 0 ∨ n % 1000 / 100 ≠ 0 ∨ n % 1000 % 100 / 10 ≠ 0 then
        hexChar (n % 1000 % 100 / 10) else ' ',
      hexChar (n % 1000 % 100 % 10)] := by
  have hlt : n < 65536 := hn ▸ value.isLt
  have h3 : ((value / 1000).setWidth 8).toNat = n / 1000 := by simp [hn]; omega
  have h2 : ((value % 1000 / 100).setWidth 8).toNat = n % 1000 / 100 := by simp [hn]; omega
  have h1 : ((value % 1000 % 100 / 10).setWidth 8).toNat = n % 1000 % 100 / 10 := by
    simp [hn]; omega
  have h0 : ((value % 1000 % 100 % 10).setWidth 8).toNat = n % 1000 % 100 % 10 := by
    simp [hn]; omega
  simp only [byte2bcd4, ne_zero_iff_toNat h3, ne_zero_iff_toNat h2, ne_zero_iff_toNat h1,
    hex2ascii_eq h3, hex2ascii_eq h2, hex2ascii_eq h1, hex2ascii_eq h0]

/-- No digit stands for ten thousand or more at the front. -/
theorem hexChar_thousands {d : ℕ} (hten : 10 ≤ d) (hd : d < 66) :
    hexChar d ≠ ' ' ∧ readDigit 10 (hexChar d) = none := by
  interval_cases d <;> decide

theorem readNumeral_byte2bcd4 (value : BitVec 16) :
    readNumeral 10 (byte2bcd4 value) = some value.toNat ↔ value.toNat ≤ 9999 := by
  have hlt := value.isLt
  obtain ⟨n, hn⟩ : ∃ n, value.toNat = n := ⟨_, rfl⟩
  rw [byte2bcd4_eq hn, hn]
  rw [hn] at hlt
  by_cases hsmall : n ≤ 9999
  · have hread : ∀ ds : List ℕ, ds ≠ [] → (∀ d ∈ ds, d < 10) → Nat.ofDigits 10 ds.reverse = n →
        readNumeral 10 (ds.map hexChar) = some n := fun ds hne hds hvalue => by
      rw [readNumeral_hexChar (by decide) hne hds, hvalue]
    simp only [hsmall, iff_true]
    -- the blanks end at the first digit that is not zero
    by_cases h3 : n / 1000 ≠ 0
    · have h := hread [n / 1000, n % 1000 / 100, n % 1000 % 100 / 10, n % 1000 % 100 % 10]
        (List.cons_ne_nil _ _) (by simp; omega) (by simp [Nat.ofDigits_cons]; omega)
      rwa [if_pos h3, if_pos (.inl h3), if_pos (.inl h3)]
    by_cases h2 : n % 1000 / 100 ≠ 0
    · have h := hread [n % 1000 / 100, n % 1000 % 100 / 10, n % 1000 % 100 % 10]
        (List.cons_ne_nil _ _) (by simp; omega) (by simp [Nat.ofDigits_cons]; omega)
      rwa [if_neg h3, readNumeral_blank, if_pos (.inr h2), if_pos (.inr (.inl h2))]
    by_cases h1 : n % 1000 % 100 / 10 ≠ 0
    · have h := hread [n % 1000 % 100 / 10, n % 1000 % 100 % 10]
        (List.cons_ne_nil _ _) (by simp; omega) (by simp [Nat.ofDigits_cons]; omega)
      rwa [if_neg h3, readNumeral_blank, if_neg (not_or.mpr ⟨h3, h2⟩), readNumeral_blank,
        if_pos (.inr (.inr h1))]
    · have h := hread [n % 1000 % 100 % 10]
        (List.cons_ne_nil _ _) (by simp; omega) (by simp [Nat.ofDigits_cons]; omega)
      rwa [if_neg h3, readNumeral_blank, if_neg (not_or.mpr ⟨h3, h2⟩), readNumeral_blank,
        if_neg (not_or.mpr ⟨h3, not_or.mpr ⟨h2, h1⟩⟩), readNumeral_blank]
  · obtain ⟨hblank, hdigit⟩ := hexChar_thousands (d := n / 1000) (by omega) (by omega)
    have h3 : n / 1000 ≠ 0 := by omega
    rw [if_pos h3, readNumeral_of_not_digit hblank hdigit]
    simpa using hsmall

/-! ### All of the printers -/

/-- A text that reads back as two numbers stands for one. -/
theorem toNat_eq_of_read {w : ℕ} {text : BitVec w → List Char} {v v' : BitVec w}
    (h : readNumeral base (text v) = some v.toNat) (h' : readNumeral base (text v') = some v'.toNat)
    (htext : text v = text v') : v = v' := by
  rw [htext, h', Option.some_inj] at h
  exact BitVec.eq_of_toNat_eq h.symm

/-- What the printers put on the console reads back as the number they are given: in
`byte2bcd` unless a zero follows the hundreds, in `byte2bcd4` unless there are five digits,
and always in the hexadecimal ones. Two such numbers never look the same. -/
theorem printers_faithful_iff (b b' : BitVec 8) (v v' : BitVec 16) (w w' : BitVec 32) :
    (readNumeral 10 (byte2bcd b) = some b.toNat ↔ b.toNat < 100 ∨ b.toNat / 10 % 10 ≠ 0) ∧
    (readNumeral 10 (byte2bcd4 v) = some v.toNat ↔ v.toNat ≤ 9999) ∧
    readNumeral 16 (word2ascii v) = some v.toNat ∧
    readNumeral 16 (longWord2ascii w) = some w.toNat ∧
    ((b.toNat < 100 ∨ b.toNat / 10 % 10 ≠ 0) → (b'.toNat < 100 ∨ b'.toNat / 10 % 10 ≠ 0) →
      byte2bcd b = byte2bcd b' → b = b') ∧
    (v.toNat ≤ 9999 → v'.toNat ≤ 9999 → byte2bcd4 v = byte2bcd4 v' → v = v') ∧
    (word2ascii v = word2ascii v' → v = v') ∧ (longWord2ascii w = longWord2ascii w' → w = w') := by
  refine ⟨readNumeral_byte2bcd b, readNumeral_byte2bcd4 v, readNumeral_word2ascii v,
    readNumeral_longWord2ascii w, ?_, ?_, ?_, ?_⟩
  · intro hb hb'
    exact toNat_eq_of_read ((readNumeral_byte2bcd b).mpr hb) ((readNumeral_byte2bcd b').mpr hb')
  · intro hv hv'
    exact toNat_eq_of_read ((readNumeral_byte2bcd4 v).mpr hv) ((readNumeral_byte2bcd4 v').mpr hv')
  · exact toNat_eq_of_read (readNumeral_word2ascii v) (readNumeral_word2ascii v')
  · exact toNat_eq_of_read (readNumeral_longWord2ascii w) (readNumeral_longWord2ascii w')

/-- The address 100 that the fill command prints looks like 10, and 10000 like 17000. -/
theorem printers_not_faithful :
    (¬ ((∀ v : BitVec 8, readNumeral 10 (byte2bcd v) = some v.toNat) ∧
      (∀ v : BitVec 16, readNumeral 10 (byte2bcd4 v) = some v.toNat) ∧
      (∀ v : BitVec 16, readNumeral 16 (word2ascii v) = some v.toNat) ∧
      (∀ v : BitVec 32, readNumeral 16 (longWord2ascii v) = some v.toNat))) ∧
    byte2bcd 100 = byte2bcd 10 ∧ byte2bcd4 10000 = byte2bcd4 17000 := by
  refine ⟨fun h => ?_, by decide, by decide⟩
  have hread : readNumeral 10 (byte2bcd 100) ≠ some (100 : BitVec 8).toNat := by decide
  exact hread (h.1 100)

end AlteraWorkshops.Sensor
