import Mathlib.Data.List.DropRight
import Mathlib.Data.List.Infix
import Mathlib.Tactic.Common

/-! The string commands of Tcl that take a text apart: `string match` with stars,
`string first`, `string range`, `string trim`, `string map` of one character, and
`split`. -/

namespace AlteraWorkshops.Tcl

abbrev Text := List Char

/-! ### Patterns -/

/-- A part of a pattern: a character that stands for itself, or a star. -/
inductive Part
  | char (c : Char)
  | star
  deriving DecidableEq

def stringMatch : List Part → Text → Bool
  | [], text => text.isEmpty
  | .char _ :: _, [] => false
  | .char c :: pattern, x :: text => x == c && stringMatch pattern text
  | .star :: pattern, text => text.tails.any fun s => stringMatch pattern s

@[simp] theorem stringMatch_nil {text : Text} : stringMatch [] text = true ↔ text = [] := by
  simp [stringMatch]

@[simp] theorem stringMatch_char {c : Char} {pattern : List Part} {text : Text} :
    stringMatch (.char c :: pattern) text = true ↔
      ∃ rest, text = c :: rest ∧ stringMatch pattern rest = true := by
  cases text with
  | nil => simp [stringMatch]
  | cons x text =>
    rw [stringMatch, Bool.and_eq_true, beq_iff_eq]
    constructor
    · rintro ⟨rfl, h⟩
      exact ⟨text, rfl, h⟩
    · rintro ⟨rest, heq, h⟩
      cases heq
      exact ⟨rfl, h⟩

@[simp] theorem stringMatch_star {pattern : List Part} {text : Text} :
    stringMatch (.star :: pattern) text = true ↔
      ∃ skipped rest, text = skipped ++ rest ∧ stringMatch pattern rest = true := by
  rw [stringMatch, List.any_eq_true]
  constructor
  · rintro ⟨rest, hrest, h⟩
    obtain ⟨skipped, rfl⟩ := (List.mem_tails rest text).mp hrest
    exact ⟨skipped, rest, rfl, h⟩
  · rintro ⟨skipped, rest, rfl, h⟩
    exact ⟨rest, (List.mem_tails _ _).mpr (List.suffix_append skipped rest), h⟩

/-! ### Pieces of a text -/

/-- `string first` of a character that is there. -/
def stringFirst (c : Char) (text : Text) : ℕ := text.idxOf c

/-- `string range` from `first` to before `stop`. -/
def stringRange (text : Text) (first stop : ℕ) : Text := (text.take stop).drop first

/-- `string range` up to `end` -/
def stringRangeEnd (text : Text) (first : ℕ) : Text := text.drop first

def stringTrim (chars text : Text) : Text :=
  (text.dropWhile (· ∈ chars)).rdropWhile (· ∈ chars)

/-- `string map` of one character to another one -/
def stringMap (c d : Char) (text : Text) : Text := text.map fun x => if x = c then d else x

/-- An empty text has no component, not an empty one. -/
def split (text : Text) (c : Char) : List Text := if text = [] then [] else text.splitOn c

/-- The first occurrence cuts a text. -/
theorem stringFirst_append {c : Char} {a b : Text} (ha : c ∉ a) :
    stringFirst c (a ++ c :: b) = a.length := by
  rw [stringFirst, List.idxOf_append_of_notMem ha, List.idxOf_cons_self, Nat.add_zero]

theorem stringTrim_of_ends {chars inner l r : Text} (hl : ∀ c ∈ l, c ∈ chars)
    (hr : ∀ c ∈ r, c ∈ chars) (hinner : inner ≠ [])
    (hhead : ∀ c ∈ inner.head?, c ∉ chars) (hlast : ∀ c ∈ inner.getLast?, c ∉ chars) :
    stringTrim chars (l ++ inner ++ r) = inner := by
  have hdrop : (l ++ inner ++ r).dropWhile (· ∈ chars) = inner ++ r := by
    rw [List.append_assoc, List.dropWhile_append_of_pos (by simpa using hl)]
    cases inner with
    | nil => exact absurd rfl hinner
    | cons c inner => exact List.dropWhile_cons_of_neg (by simpa using hhead c rfl)
  have hrdrop : ∀ right : Text, (∀ c ∈ right, c ∈ chars) →
      (inner ++ right).rdropWhile (· ∈ chars) = inner := by
    intro right hr
    induction right using List.reverseRecOn with
    | nil =>
      rw [List.append_nil, List.rdropWhile_eq_self_iff]
      intro hne
      simpa using hlast _ (List.getLast?_eq_some_getLast hne)
    | append_singleton right c ih =>
      rw [← List.append_assoc, List.rdropWhile_concat_pos _ _ _ (by simpa using hr c (by simp))]
      exact ih fun x hx => hr x (by simp [hx])
  rw [stringTrim, hdrop, hrdrop r hr]

theorem split_of_notMem {text : Text} {c : Char} (hne : text ≠ []) (hc : c ∉ text) :
    split text c = [text] := by
  rw [split, if_neg hne, List.splitOn_eq_singleton hc]

theorem split_append {text rest : Text} {c : Char} (hc : c ∉ text) (hne : rest ≠ []) :
    split (text ++ c :: rest) c = text :: split rest c := by
  rw [split, split, if_neg (by simp), if_neg hne, List.splitOn_append_cons_self_of_not_mem hc]

end AlteraWorkshops.Tcl
