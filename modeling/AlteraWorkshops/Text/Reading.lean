import Mathlib.Data.Nat.Digits.Defs
import Mathlib.Tactic.Common

/-! Reading a numeral in a base up to sixteen back from a text that may be padded with
blanks in front. The letters that stand for the digits from ten on are capitals, and a
digit that the base does not have is no digit. -/

namespace AlteraWorkshops.Text

/-- What a character is worth as a digit. -/
def digitValue (c : Char) : Option ℕ :=
  if '0' ≤ c ∧ c ≤ '9' then some (c.toNat - 48)
  else if 'A' ≤ c ∧ c ≤ 'F' then some (c.toNat - 55)
  else none

def readDigit (base : ℕ) (c : Char) : Option ℕ := (digitValue c).filter (· < base)

/-- All of the characters have to be digits. -/
def readDigits (base : ℕ) (text : List Char) : Option (List ℕ) := text.mapM (readDigit base)

/-- The number that a text stands for, which needs at least one digit. -/
def readNumeral (base : ℕ) (text : List Char) : Option ℕ :=
  match text.dropWhile (· = ' ') with
  | [] => none
  | c :: cs => (readDigits base (c :: cs)).map (fun ds => Nat.ofDigits base ds.reverse)

variable {base : ℕ}

theorem readDigit_eq_some {c : Char} {d : ℕ} :
    readDigit base c = some d ↔ digitValue c = some d ∧ d < base := by
  simp [readDigit, Option.filter_eq_some_iff]

theorem readDigit_blank (base : ℕ) : readDigit base ' ' = none := rfl

@[simp] theorem readDigits_nil (base : ℕ) : readDigits base [] = some [] := rfl

theorem readDigits_cons (c : Char) (text : List Char) :
    readDigits base (c :: text) =
      (readDigit base c).bind fun d => (readDigits base text).map (d :: ·) := by
  cases h : readDigit base c with
  | none => simp [readDigits, h]
  | some d =>
    cases ht : List.mapM (readDigit base) text <;> simp [readDigits, h, ht]

/-- A text that starts with a character that is neither a blank nor a digit of the base. -/
theorem readNumeral_of_not_digit {c : Char} (hblank : c ≠ ' ') (h : readDigit base c = none)
    (text : List Char) : readNumeral base (c :: text) = none := by
  simp [readNumeral, List.dropWhile_cons_of_neg, hblank, readDigits_cons, h]

@[simp] theorem readNumeral_blank (text : List Char) :
    readNumeral base (' ' :: text) = readNumeral base text := by
  simp [readNumeral]

/-! ### Printing with digit characters -/

section Printing

variable {α : Type*} {char : α → Char} {value : α → ℕ} {ds : List α}

theorem readDigits_map (h : ∀ d ∈ ds, readDigit base (char d) = some (value d)) :
    readDigits base (ds.map char) = some (ds.map value) := by
  induction ds with
  | nil => rfl
  | cons d ds ih =>
    have hd : readDigit base (char d) = some (value d) := h d List.mem_cons_self
    have htail : readDigits base (ds.map char) = some (ds.map value) :=
      ih fun x hx => h x (List.mem_cons_of_mem d hx)
    rw [List.map_cons, readDigits_cons, hd, htail]
    rfl

/-- Digits that are each printed as themselves read back as the number they make. -/
theorem readNumeral_map (hds : ds ≠ [])
    (h : ∀ d ∈ ds, readDigit base (char d) = some (value d)) :
    readNumeral base (ds.map char) = some (Nat.ofDigits base (ds.map value).reverse) := by
  cases ds with
  | nil => exact absurd rfl hds
  | cons d ds =>
    have hblank : char d ≠ ' ' := by
      intro hc
      have hd := h d List.mem_cons_self
      rw [hc, readDigit_blank] at hd
      cases hd
    have hread : readDigits base (char d :: ds.map char) = some ((d :: ds).map value) :=
      readDigits_map h
    rw [readNumeral, List.map_cons, List.dropWhile_cons_of_neg (by simpa using hblank)]
    simp only [hread, Option.map_some]

end Printing

end AlteraWorkshops.Text
