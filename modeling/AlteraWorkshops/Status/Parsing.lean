import AlteraWorkshops.Status.Polling

/-! What the host parses from a complete status text: the numerals the firmware prints
are canonical and fit its buffer, and behind any echo without a label the first match
of every label is the printed value. -/

namespace AlteraWorkshops.Status

open Text

variable {w : StatusWords} {cnn : Fin 10 → BitVec 32} {echo : List Char}

/-- `dword2decimal` with its buffer of 11 characters, which holds anything at first. -/
def dword2decimalBuffered (value : BitVec 32) (buffer : ℕ → Char) : Option (List Char) :=
  if value = 0 then some ['0']
  else (collectDigits 11 buffer 0 value.toNat).map fun (buffer, i) => printBack buffer i

/-- No digit is written past the buffer, and the text is the canonical numeral. -/
theorem dword2decimalBuffered_eq (value : BitVec 32) (buffer : ℕ → Char) :
    dword2decimalBuffered value buffer = some (dword2decimal value) := by
  unfold dword2decimalBuffered dword2decimal decimal
  by_cases h : value = 0
  · rw [if_pos h, if_pos (by rw [h]; rfl)]
  · have hne : value.toNat ≠ 0 := fun h0 => h (BitVec.eq_of_toNat_eq h0)
    have hroom := dword2decimal_buffer value
    obtain ⟨b, hb, hprint⟩ := @collectDigits_eq 11 0 value.toNat buffer (by omega)
    rw [if_neg h, if_neg hne, hb, Option.map_some]
    exact congrArg some (hprint.trans (List.append_nil _))

theorem dword2decimal_canonical (value : BitVec 32) :
    dword2decimal value = (Nat.repr value.toNat).toList :=
  (decimal_eq_toDigits _).trans Nat.toList_repr.symm

/-- A text without a label has no value. -/
theorem readValue_of_no_label (h : ¬"Data ".toList <:+: echo) (i : Fin 10) :
    readValue i echo = none := by
  unfold readValue
  rw [pattern_eq, search_eq_none, Option.map_none]
  intro hi
  apply h
  exact List.IsInfix.trans ⟨[], [digitChar i, ':', ' '], by simp [dataLabel, dataMarker]⟩ hi

theorem valueEnd_le_length (w : StatusWords) (cnn : Fin 10 → BitVec 32) (i : Fin 10) :
    valueEnd w cnn i ≤ (displayAiStatus w cnn).length := by
  rw [displayAiStatus_split w cnn i, valueEnd, List.length_append, List.length_append,
    List.length_cons, List.length_cons, dataLine, List.length_append]
  omega

/-- The parser inverts the printer: from the complete text behind an echo without a
label it reads the ten values, every one printed as its canonical numeral within the
buffer. -/
theorem parse_display (w : StatusWords) (cnn : Fin 10 → BitVec 32) (echo : List Char)
    (h : ¬"Data ".toList <:+: echo) :
    parsePixelReaderResponse (echo ++ displayAiStatus w cnn) = List.ofFn (fun i => (cnn i).toNat) ∧
      ∀ value buffer, dword2decimalBuffered value buffer = some (dword2decimal value) ∧
        dword2decimal value = (Nat.repr value.toNat).toList := by
  refine ⟨parse_eq_iff.mpr fun i => ?_, fun value buffer =>
    ⟨dword2decimalBuffered_eq value buffer, dword2decimal_canonical value⟩⟩
  rw [← List.take_length (l := displayAiStatus w cnn)]
  exact (readValue_append i).mpr
    (.inr ⟨readValue_of_no_label h i, .inl (valueEnd_le_length w cnn i)⟩)

/-- Behind the echo of the command. -/
theorem parse_display_echo :
    let w : StatusWords := ⟨1, 1, 62, 0, 0⟩
    parsePixelReaderResponse ("p\r\n".toList ++ displayAiStatus w twelve) =
        List.ofFn (fun i => (twelve i).toNat) ∧
      ∀ value buffer, dword2decimalBuffered value buffer = some (dword2decimal value) ∧
        dword2decimal value = (Nat.repr value.toNat).toList :=
  parse_display ⟨1, 1, 62, 0, 0⟩ twelve "p\r\n".toList (by decide)

end AlteraWorkshops.Status
