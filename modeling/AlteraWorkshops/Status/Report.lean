import AlteraWorkshops.OneAi.Registers
import AlteraWorkshops.Text.Numeral
import AlteraWorkshops.Text.Search
import Mathlib.Data.List.FinRange

/-! The text that the firmware's `display_ai_status` prints, as the source prints it and
as a list of lines, each opened by a line break. -/

namespace AlteraWorkshops.Status

open OneAi (lowHalf highHalf)
open Text

/-- The registers that `display_ai_status` reads besides the CNN values. -/
structure StatusWords where
  newImageReady : BitVec 32
  outputsCount : BitVec 32
  fps : BitVec 32
  widthHeight : BitVec 32
  objectsClasses : BitVec 32

variable {w : StatusWords} {cnn : Fin 10 → BitVec 32}

/-- The digits are collected in a buffer of 11 characters, last digit first, and
printed from its end. -/
def dword2decimal (value : BitVec 32) : List Char := decimal value.toNat

/-- The buffer has room for the digits and a terminator. -/
theorem dword2decimal_buffer (value : BitVec 32) : (digitBuffer value.toNat).length < 11 := by
  have hlt : value.toNat < 10 ^ 10 := by have := value.isLt; omega
  exact Nat.lt_succ_of_le (digitBuffer_length_lt hlt)

def displayAiStatus (w : StatusWords) (cnn : Fin 10 → BitVec 32) : List Char :=
  "\r\n=== AI Interface Status ===\r\n".toList ++
  "New Image Ready: ".toList ++ dword2decimal (w.newImageReady &&& 0x1) ++
  "\r\nOutputs Count: ".toList ++ dword2decimal w.outputsCount ++
  "\r\nFPS: ".toList ++ dword2decimal w.fps ++
  "\r\nCurrent Width: ".toList ++ dword2decimal (lowHalf w.widthHeight) ++
  "\r\nCurrent Height: ".toList ++ dword2decimal (highHalf w.widthHeight) ++
  "\r\nCurrent Objects: ".toList ++ dword2decimal (lowHalf w.objectsClasses) ++
  "\r\nCurrent Classes: ".toList ++ dword2decimal (highHalf w.objectsClasses) ++
  "\r\n--- CNN Data Values ---\r\n".toList ++
  (List.finRange 10).flatMap (fun i =>
    "Data ".toList ++ dword2decimal (BitVec.ofNat 32 i.val) ++ ": ".toList ++
      dword2decimal (cnn i) ++ "\r\n".toList) ++
  "===========================\r\n".toList

/-! ### Lines -/

def headLines (w : StatusWords) : List (List Char) :=
  ["=== AI Interface Status ===".toList,
    "New Image Ready: ".toList ++ dword2decimal (w.newImageReady &&& 0x1),
    "Outputs Count: ".toList ++ dword2decimal w.outputsCount,
    "FPS: ".toList ++ dword2decimal w.fps,
    "Current Width: ".toList ++ dword2decimal (lowHalf w.widthHeight),
    "Current Height: ".toList ++ dword2decimal (highHalf w.widthHeight),
    "Current Objects: ".toList ++ dword2decimal (lowHalf w.objectsClasses),
    "Current Classes: ".toList ++ dword2decimal (highHalf w.objectsClasses),
    "--- CNN Data Values ---".toList]

/-- `Data i:` -/
def dataMarker (i : Fin 10) : List Char := "Data ".toList ++ [digitChar i, ':']

/-- The label of the line of class `i`, up to its value. -/
def dataLabel (i : Fin 10) : List Char := dataMarker i ++ [' ']

def dataLine (cnn : Fin 10 → BitVec 32) (i : Fin 10) : List Char :=
  dataLabel i ++ dword2decimal (cnn i)

def footLines : List (List Char) := ["===========================".toList, []]

/-- Lines as they are sent, each after a line break. -/
def broken (lines : List (List Char)) : List Char :=
  ((lines.map ('\n' :: ·)).map ('\r' :: ·)).flatten

theorem broken_append (l m : List (List Char)) : broken (l ++ m) = broken l ++ broken m := by
  simp [broken]

theorem broken_cons (l : List Char) (m : List (List Char)) :
    broken (l :: m) = '\r' :: '\n' :: l ++ broken m := by
  simp [broken]

/-- Lines that end in a line break, moved to lines that start with one. -/
theorem flatMap_broken {α : Type*} (f : α → List Char) (xs : List α) (rest : List Char) :
    '\r' :: '\n' :: (xs.flatMap (fun x => f x ++ "\r\n".toList) ++ rest) =
      broken (xs.map f) ++ '\r' :: '\n' :: rest := by
  induction xs with
  | nil => rfl
  | cons x xs ih =>
    rw [List.flatMap_cons, List.map_cons, broken_cons, List.append_assoc (f x ++ _),
      List.append_assoc (f x)]
    simp only [List.cons_append, List.append_assoc, ← ih]
    rfl

theorem dword2decimal_index (i : Fin 10) :
    dword2decimal (BitVec.ofNat 32 i.val) = [digitChar i] := by
  have hi : (BitVec.ofNat 32 i.val).toNat = i.val := by
    rw [BitVec.toNat_ofNat]
    omega
  rw [dword2decimal, hi, decimal_of_lt i.isLt]

theorem displayAiStatus_eq_broken (w : StatusWords) (cnn : Fin 10 → BitVec 32) :
    displayAiStatus w cnn =
      broken (headLines w ++ (List.finRange 10).map (dataLine cnn) ++ footLines) := by
  have hdata := flatMap_broken (dataLine cnn) (List.finRange 10)
    "===========================\r\n".toList
  have hhead : displayAiStatus w cnn = broken (headLines w) ++
      '\r' :: '\n' :: ((List.finRange 10).flatMap (fun i => dataLine cnn i ++ "\r\n".toList) ++
        "===========================\r\n".toList) := by
    -- every line break of the source moves to the line that it opens
    have h1 : "\r\n=== AI Interface Status ===\r\n".toList =
      '\r' :: '\n' :: ("=== AI Interface Status ===".toList ++ ['\r', '\n']) := rfl
    have h2 : "\r\nOutputs Count: ".toList = '\r' :: '\n' :: "Outputs Count: ".toList := rfl
    have h3 : "\r\nFPS: ".toList = '\r' :: '\n' :: "FPS: ".toList := rfl
    have h4 : "\r\nCurrent Width: ".toList = '\r' :: '\n' :: "Current Width: ".toList := rfl
    have h5 : "\r\nCurrent Height: ".toList = '\r' :: '\n' :: "Current Height: ".toList := rfl
    have h6 : "\r\nCurrent Objects: ".toList = '\r' :: '\n' :: "Current Objects: ".toList := rfl
    have h7 : "\r\nCurrent Classes: ".toList = '\r' :: '\n' :: "Current Classes: ".toList := rfl
    have h8 : "\r\n--- CNN Data Values ---\r\n".toList =
      '\r' :: '\n' :: ("--- CNN Data Values ---".toList ++ ['\r', '\n']) := rfl
    have hnil : broken [] = [] := rfl
    have h9 : ": ".toList = [':', ' '] := rfl
    unfold displayAiStatus headLines dataLine dataLabel dataMarker
    rw [h1, h2, h3, h4, h5, h6, h7, h8, h9]
    -- the texts themselves do not matter any more
    generalize "=== AI Interface Status ===".toList = t₁, "New Image Ready: ".toList = t₂,
      "Outputs Count: ".toList = t₃, "FPS: ".toList = t₄, "Current Width: ".toList = t₅,
      "Current Height: ".toList = t₆, "Current Objects: ".toList = t₇,
      "Current Classes: ".toList = t₈, "--- CNN Data Values ---".toList = t₉,
      "\r\n".toList = t₁₀, "===========================\r\n".toList = t₁₁,
      "Data ".toList = t₁₂
    simp only [dword2decimal_index, broken_cons, hnil, List.append_assoc, List.cons_append,
      List.nil_append, List.append_nil]
  rw [hhead, hdata, broken_append, broken_append, List.append_assoc]
  rfl

/-! ### One line among the others -/

/-- What is printed before the line of class `i`, and after it. -/
def textBefore (w : StatusWords) (cnn : Fin 10 → BitVec 32) (i : Fin 10) : List Char :=
  broken (headLines w ++ ((List.finRange 10).take i).map (dataLine cnn))

def textAfter (cnn : Fin 10 → BitVec 32) (i : Fin 10) : List Char :=
  broken (((List.finRange 10).drop (i + 1)).map (dataLine cnn) ++ footLines)

theorem displayAiStatus_split (w : StatusWords) (cnn : Fin 10 → BitVec 32) (i : Fin 10) :
    displayAiStatus w cnn =
      textBefore w cnn i ++ '\r' :: '\n' :: dataLine cnn i ++ textAfter cnn i := by
  have hi : i.val < (List.finRange 10).length := by simp
  have hlist : List.finRange 10 =
      (List.finRange 10).take i ++ i :: (List.finRange 10).drop (i + 1) := by
    conv_lhs => rw [← List.take_append_drop i (List.finRange 10), List.drop_eq_getElem_cons hi]
    simp
  rw [displayAiStatus_eq_broken, textBefore, textAfter]
  conv_lhs => rw [hlist]
  simp only [List.map_append, List.map_cons, broken_append, broken_cons, List.append_assoc,
    List.cons_append]

/-- The labels start with a letter that no numeral contains. -/
theorem not_mem_decimal (v : ℕ) : 'D' ∉ decimal v := fun h =>
  absurd (decimal_isDigit v _ h) (by decide)

theorem dataMarker_eq (i : Fin 10) :
    dataMarker i = 'D' :: ['a', 't', 'a', ' ', digitChar i, ':'] := rfl

theorem dataLine_eq (cnn : Fin 10 → BitVec 32) (i : Fin 10) :
    '\r' :: '\n' :: dataLine cnn i = ['\r', '\n'] ++
      'D' :: (['a', 't', 'a', ' ', digitChar i, ':', ' '] ++ dword2decimal (cnn i)) := rfl

theorem digitChar_ne_D (i : Fin 10) : 'D' ≠ digitChar i := by
  intro h
  have hd := digitChar_isDigit i.isLt
  rw [← h] at hd
  exact absurd hd (by decide)

theorem not_infix_of_not_mem {i : Fin 10} {l : List Char} (h : 'D' ∉ l) :
    ¬dataMarker i <:+: l := fun hi => h (hi.subset List.mem_cons_self)

theorem dataLine_not_infix {i j : Fin 10} (hij : i ≠ j) :
    ¬dataMarker i <:+: '\r' :: '\n' :: dataLine cnn j := by
  have htail : 'D' ∉ ['a', 't', 'a', ' ', digitChar j, ':', ' '] ++ dword2decimal (cnn j) := by
    have := digitChar_ne_D j
    simp [dword2decimal, not_mem_decimal, this]
  rw [dataMarker_eq, dataLine_eq, infix_iff_prefix (by decide) htail]
  intro h
  have hc : digitChar i = digitChar j := by simpa using h
  exact hij (Fin.ext (digitChar_inj i.isLt j.isLt hc))

/-- What stands in front of the numbers of the head. -/
def headLabels : List (List Char) :=
  ["New Image Ready: ".toList, "Outputs Count: ".toList, "FPS: ".toList, "Current Width: ".toList,
    "Current Height: ".toList, "Current Objects: ".toList, "Current Classes: ".toList]

/-- A line of the head is a heading or a label with its number. -/
theorem headLines_cases {l : List Char} (hl : l ∈ headLines w) :
    l = "=== AI Interface Status ===".toList ∨ l = "--- CNN Data Values ---".toList ∨
      ∃ t ∈ headLabels, ∃ v, l = t ++ dword2decimal v := by
  simp only [headLines, List.mem_cons, List.not_mem_nil, or_false] at hl
  rcases hl with hl | hl | hl | hl | hl | hl | hl | hl | hl
  · exact .inl hl
  iterate 7 exact .inr (.inr ⟨_, by simp [headLabels], _, hl⟩)
  · exact .inr (.inl hl)

theorem headLines_not_infix {i : Fin 10} {l : List Char} (hl : l ∈ headLines w) :
    ¬dataMarker i <:+: '\r' :: '\n' :: l := by
  rcases headLines_cases hl with rfl | rfl | ⟨t, ht, v, rfl⟩
  · exact not_infix_of_not_mem (by decide)
  · -- `Data Values` starts like a label, up to its number
    have hvalues : ∀ i : Fin 10,
        ¬dataMarker i <:+: '\r' :: '\n' :: "--- CNN Data Values ---".toList := by decide
    exact hvalues i
  · have hlabels : ∀ t ∈ headLabels, 'D' ∉ t := by decide
    apply not_infix_of_not_mem
    simp [hlabels t ht, dword2decimal, not_mem_decimal]

theorem footLines_not_infix {i : Fin 10} {l : List Char} (hl : l ∈ footLines) :
    ¬dataMarker i <:+: '\r' :: '\n' :: l := by
  apply not_infix_of_not_mem
  simp only [footLines, List.mem_cons, List.not_mem_nil, or_false] at hl
  rcases hl with rfl | rfl <;> decide

/-- The classes before and behind class `i`. -/
theorem lt_of_mem_take {i j : Fin 10} (hj : j ∈ (List.finRange 10).take i) : j < i := by
  obtain ⟨k, hk, rfl⟩ := List.mem_take_iff_getElem.mp hj
  rw [Fin.lt_def]
  simp at hk ⊢
  omega

theorem lt_of_mem_drop {i j : Fin 10} (hj : j ∈ (List.finRange 10).drop (i + 1)) : i < j := by
  obtain ⟨k, hk, rfl⟩ := List.mem_drop_iff_getElem.mp hj
  rw [Fin.lt_def]
  simp
  omega

/-! ### What a cut-off text tells -/

section Detector

variable {β : Type*} {f : List Char → Option β} {i : Fin 10}

theorem silent_broken (hf : SplitsAt '\r' f) (hn : ∀ s, ¬dataMarker i <:+: s → f s = none)
    {lines : List (List Char)} (hl : ∀ l ∈ lines, ¬dataMarker i <:+: '\r' :: '\n' :: l) :
    Silent f (broken lines) := by
  apply hf.silent_flatten
  intro l hl'
  obtain ⟨l', hmem, rfl⟩ := List.mem_map.mp hl'
  exact silent_of_not_infix hn (hl l' hmem)

theorem opens_broken (lines : List (List Char)) : Opens '\r' (broken lines) := opens_flatten _

/-- Whatever looks for `Data i:` only sees the line of class `i`. -/
theorem displayAiStatus_take (hf : SplitsAt '\r' f)
    (hn : ∀ s, ¬dataMarker i <:+: s → f s = none) (w : StatusWords) (cnn : Fin 10 → BitVec 32)
    (n : ℕ) :
    f ((displayAiStatus w cnn).take n) =
      f (('\r' :: '\n' :: dataLine cnn i).take (n - (textBefore w cnn i).length)) := by
  rw [displayAiStatus_split w cnn i]
  apply hf.between
  · apply silent_broken hf hn
    intro l hl
    rcases List.mem_append.mp hl with hl | hl
    · exact headLines_not_infix hl
    · obtain ⟨j, hj, rfl⟩ := List.mem_map.mp hl
      exact dataLine_not_infix (lt_of_mem_take hj).ne'
  · apply silent_broken hf hn
    intro l hl
    rcases List.mem_append.mp hl with hl | hl
    · obtain ⟨j, hj, rfl⟩ := List.mem_map.mp hl
      exact dataLine_not_infix (lt_of_mem_drop hj).ne
    · exact footLines_not_infix hl
  · exact opens_cons _ _
  · exact opens_broken _

end Detector

end AlteraWorkshops.Status
