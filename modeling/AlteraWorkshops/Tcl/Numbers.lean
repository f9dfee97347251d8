import AlteraWorkshops.Numbers.Rounding
import AlteraWorkshops.Tcl.Strings
import AlteraWorkshops.Text.Numeral
import AlteraWorkshops.Text.Reading
import Mathlib.Data.Nat.Digits.Lemmas

/-! Numerals and comparisons of Tcl. A comparison is one of numbers if both texts are
numerals, and one of texts by code points otherwise. Integers have no bound and floating-point
numbers are binary64; the two are compared exactly. -/

namespace AlteraWorkshops.Tcl

open Numbers Text

/-- What a numeral stands for. -/
inductive Number
  | finite (value : ℚ)
  | infinite (negative : Bool)
  | nan
  deriving DecidableEq

def Number.neg : Number → Number
  | .finite value => .finite (-value)
  | .infinite negative => .infinite !negative
  | .nan => .nan

/-! ### Integers -/

/-- Digits of either case, at least one. -/
def wholeNumber (base : ℕ) (digits : Text) : Option ℕ :=
  if digits = [] then none
  else (readDigits base (digits.map Char.toUpper)).map fun ds => Nat.ofDigits base ds.reverse

/-- A zero in front makes an octal numeral unless a letter follows it. -/
def integerOf : Text → Option ℕ
  | '0' :: 'x' :: digits | '0' :: 'X' :: digits => wholeNumber 16 digits
  | '0' :: 'o' :: digits | '0' :: 'O' :: digits => wholeNumber 8 digits
  | '0' :: 'b' :: digits | '0' :: 'B' :: digits => wholeNumber 2 digits
  | '0' :: digit :: digits => wholeNumber 8 (digit :: digits)
  | digits => wholeNumber 10 digits

/-! ### Floating-point numbers -/

/-- A run of digits, which may be empty. -/
def digitsOf (digits : Text) : Option ℕ := if digits = [] then some 0 else wholeNumber 10 digits

/-- The text up to a character that has the property, and behind it if there is one. -/
def cut (p : Char → Bool) (text : Text) : Text × Option Text :=
  match text.dropWhile (!p ·) with
  | [] => (text, none)
  | _ :: rest => (text.takeWhile (!p ·), some rest)

/-- Digits with a point among them, or before or behind them. -/
def mantissaOf (text : Text) : Option ℚ :=
  match cut (· = '.') text with
  | (whole, none) => (wholeNumber 10 whole).map fun n => (n : ℚ)
  | (whole, some part) =>
    if whole = [] ∧ part = [] then none
    else
      match digitsOf whole, digitsOf part with
      | some n, some d => some (n + d / 10 ^ part.length)
      | _, _ => none

def exponentOf : Text → Option ℤ
  | '-' :: digits => (wholeNumber 10 digits).map fun n => -(n : ℤ)
  | '+' :: digits => (wholeNumber 10 digits).map fun n => (n : ℤ)
  | digits => (wholeNumber 10 digits).map fun n => (n : ℤ)

/-- `NaN` may have digits in parentheses, up to 13 hexadecimal ones. -/
def isNan (text : Text) : Bool :=
  match text.map Char.toLower with
  | ['n', 'a', 'n'] => true
  | 'n' :: 'a' :: 'n' :: '(' :: rest =>
    let digits := (rest.dropLast).filter fun c => !c.isWhitespace
    rest.getLast? = some ')' && digits.length ≤ 13 && (wholeNumber 16 digits).isSome
  | _ => false

def doubleOf (text : Text) : Option Number :=
  if isNan text then some .nan
  else if text.map Char.toLower = "inf".toList ∨ text.map Char.toLower = "infinity".toList then
    some (.infinite false)
  else
    let value : Option ℚ :=
      match cut (fun c => c = 'e' || c = 'E') text with
      | (mantissa, none) => mantissaOf mantissa
      | (mantissa, some exponent) =>
        match mantissaOf mantissa, exponentOf exponent with
        | some m, some e => some (m * 10 ^ e)
        | _, _ => none
    -- without a point and an exponent it would be an integer
    if text.any fun c => c = '.' || c = 'e' || c = 'E' then
      value.map fun x => ((roundBinary64 x).map Number.finite).getD (.infinite false)
    else none

/-! ### Numerals -/

def isSpace (c : Char) : Bool := c = ' ' || c = '\t' || c = '\n' || c = '\r' || c.toNat = 11 ||
  c.toNat = 12

def trimSpaces (text : Text) : Text := (text.dropWhile isSpace).rdropWhile isSpace

def unsignedOf (text : Text) : Option Number :=
  match integerOf text with
  | some n => some (.finite n)
  | none => doubleOf text

/-- The number that a text stands for, if it is a numeral. -/
def numberOf (text : Text) : Option Number :=
  match trimSpaces text with
  | '-' :: magnitude => (unsignedOf magnitude).map Number.neg
  | '+' :: magnitude => unsignedOf magnitude
  | magnitude => unsignedOf magnitude

/-! ### Comparisons -/

/-- Nothing can be said about a number that is not one. -/
def Number.compare : Number → Number → Option Ordering
  | .nan, _ | _, .nan => none
  | .finite x, .finite y => some (Ord.compare x y)
  | .infinite negative, .finite _ => some (if negative then .lt else .gt)
  | .finite _, .infinite negative => some (if negative then .gt else .lt)
  | .infinite negative, .infinite negative' => some (Ord.compare (!negative) (!negative'))

/-- By code points. -/
def compareText (s t : Text) : Ordering := if s < t then .lt else if s = t then .eq else .gt

def compareOperands (s t : Text) : Option Ordering :=
  match numberOf s, numberOf t with
  | some x, some y => x.compare y
  | _, _ => some (compareText s t)

/-- `==` -/
def equal (s t : Text) : Bool := compareOperands s t = some .eq

/-- `<` -/
def less (s t : Text) : Bool := compareOperands s t = some .lt

/-- `<=` -/
def lessEqual (s t : Text) : Bool :=
  compareOperands s t = some .lt || compareOperands s t = some .eq

/-! ### Decimal numerals -/

theorem digitBuffer_eq (n : ℕ) : digitBuffer n = (Nat.digits 10 n).map digitChar := by
  induction n using digitBuffer.induct with
  | case1 n hpos ih =>
    rw [digitBuffer, if_pos hpos, Nat.digits_def' (by decide) hpos, List.map_cons, ih]
  | case2 n hpos =>
    rw [digitBuffer, if_neg hpos, Nat.eq_zero_of_not_pos hpos, Nat.digits_zero, List.map_nil]

/-- A positive number is printed without a zero in front. -/
theorem decimal_eq_map {n : ℕ} (hn : 0 < n) :
    ∃ d ds, decimal n = (d :: ds).map digitChar ∧ d ≠ 0 ∧ (∀ x ∈ d :: ds, x < 10) ∧
      Nat.ofDigits 10 (d :: ds).reverse = n := by
  have hne : Nat.digits 10 n ≠ [] := Nat.digits_ne_nil_iff_ne_zero.mpr hn.ne'
  have htext : decimal n = (Nat.digits 10 n).reverse.map digitChar := by
    rw [decimal, if_neg hn.ne', digitBuffer_eq, List.map_reverse]
  have hvalue : Nat.ofDigits 10 (Nat.digits 10 n).reverse.reverse = n := by
    rw [List.reverse_reverse, Nat.ofDigits_digits]
  have hlt : ∀ x ∈ (Nat.digits 10 n).reverse, x < 10 := fun x hx =>
    Nat.digits_lt_base (by decide) (List.mem_reverse.mp hx)
  have hhead := Nat.getLast_digit_ne_zero 10 hn.ne'
  rw [← List.head_reverse (List.reverse_ne_nil_iff.mpr hne)] at hhead
  obtain ⟨d, ds, hds⟩ := List.exists_cons_of_ne_nil (List.reverse_ne_nil_iff.mpr hne)
  simp only [hds, List.head_cons] at hhead
  rw [hds] at htext hvalue hlt
  exact ⟨d, ds, htext, hhead, hlt, hvalue⟩

theorem isSpace_digitChar {d : ℕ} (hd : d < 10) : isSpace (digitChar d) = false := by
  interval_cases d <;> rfl

theorem trimSpaces_of_not_space {text : Text} (h : ∀ c ∈ text, isSpace c = false) :
    trimSpaces text = text := by
  have hdrop : text.dropWhile isSpace = text := by
    cases text with
    | nil => rfl
    | cons c text => rw [List.dropWhile_cons_of_neg (by simpa using h c List.mem_cons_self)]
  rw [trimSpaces, hdrop, List.rdropWhile_eq_self_iff]
  exact fun hne => by simpa using h _ (List.getLast_mem hne)

theorem wholeNumber_map_digitChar {ds : List ℕ} (hne : ds ≠ []) (hds : ∀ d ∈ ds, d < 10) :
    wholeNumber 10 (ds.map digitChar) = some (Nat.ofDigits 10 ds.reverse) := by
  have hread : ∀ d ∈ ds, readDigit 10 (digitChar d).toUpper = some d := by
    intro d hd
    have hlt := hds d hd
    interval_cases d <;> rfl
  have hdigits : readDigits 10 ((ds.map digitChar).map Char.toUpper) = some (ds.map id) := by
    rw [List.map_map]
    exact readDigits_map hread
  rw [wholeNumber, if_neg (by simpa using hne), hdigits, List.map_id, Option.map_some]

theorem numberOf_decimal {n : ℕ} (hn : 0 < n) : numberOf (decimal n) = some (.finite n) := by
  obtain ⟨d, ds, htext, hd, hlt, hvalue⟩ := decimal_eq_map hn
  have hwhole := wholeNumber_map_digitChar (List.cons_ne_nil d ds) hlt
  have htrim : trimSpaces (decimal n) = decimal n := by
    apply trimSpaces_of_not_space
    intro c hc
    rw [htext] at hc
    obtain ⟨x, hx, rfl⟩ := List.mem_map.mp hc
    exact isSpace_digitChar (hlt x hx)
  have hfirst : d < 10 := hlt d List.mem_cons_self
  rw [hvalue, List.map_cons] at hwhole
  rw [numberOf, htrim, htext, List.map_cons]
  have hinteger : integerOf (digitChar d :: ds.map digitChar) = some n := by
    rw [← hwhole]
    interval_cases d <;> first | exact absurd rfl hd | rfl
  have hunsigned : unsignedOf (digitChar d :: ds.map digitChar) = some (.finite n) := by
    rw [unsignedOf, hinteger]
  rw [← hunsigned]
  interval_cases d <;> rfl

end AlteraWorkshops.Tcl
