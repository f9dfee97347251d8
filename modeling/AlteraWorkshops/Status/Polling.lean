import AlteraWorkshops.Status.Report

/-! The polling of the host: `serial_communication_thread` collects what the UART
delivers until the text contains `Data 9:` and hands it to
`parse_pixel_reader_response`. The loop stops at the label of the last value, not at
its end, and it starts with whatever an earlier response left in the buffer. -/

namespace AlteraWorkshops.Status

open Text

variable {w : StatusWords} {cnn : Fin 10 → BitVec 32} {residue R : List Char} {n : ℕ}

/-! ### The host -/

/-- `decode('ascii', errors='ignore')`, a byte being a character below 256. -/
def decodeAscii (bytes : List Char) : List Char := bytes.filter fun c => c.toNat < 128

/-- The receive loop within the timeout. Each entry is what waits in the buffer in
one round; in a round without input the text is not looked at. -/
def receive (response : List Char) : List (List Char) → List Char
  | [] => response
  | waiting :: rounds =>
    if waiting = [] then receive response rounds
    else
      let response := response ++ decodeAscii waiting
      if "Data 9:".toList <:+: response then response else receive response rounds

/-- `f"Data {i}: "`, before the group of digits. -/
def pattern (i : ℕ) : List Char := "Data ".toList ++ (Nat.repr i).toList ++ ": ".toList

/-- `re.search` and `int` on its group. -/
def readValue (i : ℕ) (response : List Char) : Option ℕ :=
  (search Char.isDigit (pattern i) response).map intOf

def parsePixelReaderResponse (response : List Char) : List ℕ :=
  (List.range 10).map fun i => (readValue i response).getD 0

/-- One poll, with the list it parses if anything was received. -/
def poll (rounds : List (List Char)) : Option (List ℕ) :=
  let response := receive [] rounds
  if response = [] then none else some (parsePixelReaderResponse response)

theorem pattern_eq (i : Fin 10) : pattern i.val = dataLabel i := by
  revert i
  decide

/-! ### Decoding -/

theorem decodeAscii_append (s t : List Char) :
    decodeAscii (s ++ t) = decodeAscii s ++ decodeAscii t := List.filter_append s t

/-- A text that decoding leaves alone. -/
def Ascii (s : List Char) : Prop := (s.all fun c => c.toNat < 128) = true

instance : DecidablePred Ascii := fun s => inferInstanceAs (Decidable (s.all _ = true))

theorem ascii_iff {s : List Char} : Ascii s ↔ ∀ c ∈ s, c.toNat < 128 := by
  simp [Ascii]

theorem decodeAscii_of_ascii {s : List Char} (h : Ascii s) : decodeAscii s = s :=
  List.filter_eq_self.mpr (List.all_eq_true.mp h)

theorem Ascii.append {s t : List Char} (hs : Ascii s) (ht : Ascii t) : Ascii (s ++ t) := by
  unfold Ascii at hs ht ⊢
  rw [List.all_append, hs, ht, Bool.and_self]

/-- Parts of an ASCII text are ASCII. -/
theorem Ascii.of_subset {s t : List Char} (ht : Ascii t) (h : s ⊆ t) : Ascii s :=
  ascii_iff.mpr fun c hc => ascii_iff.mp ht c (h hc)

theorem ascii_dword2decimal (v : BitVec 32) : Ascii (dword2decimal v) := by
  apply ascii_iff.mpr
  intro c hc
  have hd := decimal_isDigit _ c hc
  simp only [Char.isDigit, Bool.and_eq_true, decide_eq_true_eq] at hd
  have : c.val.toNat ≤ 57 := hd.2
  exact Nat.lt_of_le_of_lt this (by decide)

theorem ascii_broken {lines : List (List Char)} (h : ∀ l ∈ lines, Ascii l) :
    Ascii (broken lines) := by
  induction lines with
  | nil => rfl
  | cons l lines ih =>
    rw [broken_cons]
    have hbreak : Ascii ['\r', '\n'] := rfl
    exact (hbreak.append (h l List.mem_cons_self)).append
      (ih fun m hm => h m (List.mem_cons_of_mem l hm))

theorem ascii_headLines {l : List Char} (hl : l ∈ headLines w) : Ascii l := by
  rcases headLines_cases hl with rfl | rfl | ⟨t, ht, v, rfl⟩
  · decide
  · decide
  · have hlabels : ∀ t ∈ headLabels, Ascii t := by decide
    exact (hlabels t ht).append (ascii_dword2decimal v)

theorem ascii_displayAiStatus (w : StatusWords) (cnn : Fin 10 → BitVec 32) :
    Ascii (displayAiStatus w cnn) := by
  rw [displayAiStatus_eq_broken]
  apply ascii_broken
  intro l hl
  rcases List.mem_append.mp hl with hl | hl
  · rcases List.mem_append.mp hl with hl | hl
    · exact ascii_headLines hl
    · obtain ⟨i, -, rfl⟩ := List.mem_map.mp hl
      have hlabel : ∀ i : Fin 10, Ascii (dataLabel i) := by decide
      exact (hlabel i).append (ascii_dword2decimal _)
  · simp only [footLines, List.mem_cons, List.not_mem_nil, or_false] at hl
    rcases hl with rfl | rfl <;> decide

/-! ### Where the text is complete -/

/-- The characters up to the colon of `Data 9:`, and up to the end of value `i`. -/
def markerEnd (w : StatusWords) (cnn : Fin 10 → BitVec 32) : ℕ :=
  (textBefore w cnn 9).length + 2 + (dataMarker 9).length

def valueEnd (w : StatusWords) (cnn : Fin 10 → BitVec 32) (i : Fin 10) : ℕ :=
  (textBefore w cnn i).length + 2 + (dataLabel i).length + (dword2decimal (cnn i)).length

theorem opens_displayAiStatus (w : StatusWords) (cnn : Fin 10 → BitVec 32) :
    Opens '\r' (displayAiStatus w cnn) := by
  rw [displayAiStatus_eq_broken]
  exact opens_broken _

theorem dataMarker_splitsAt (i : Fin 10) : SplitsAt '\r' (contains (dataMarker i)) := by
  apply contains_splitsAt (by simp [dataMarker_eq])
  revert i
  decide

theorem dataLabel_splitsAt (i : Fin 10) :
    SplitsAt '\r' (search Char.isDigit (dataLabel i)) := by
  refine search_splitsAt ?_ (by decide)
  revert i
  decide

theorem lastLine_contains (m : ℕ) :
    contains (dataMarker 9) (('\r' :: '\n' :: dataLine cnn 9).take m) = none ↔
      m < 2 + (dataMarker 9).length := by
  have hline : '\r' :: '\n' :: dataLine cnn 9 =
      (['\r', '\n'] ++ dataMarker 9) ++ (' ' :: dword2decimal (cnn 9)) := rfl
  have hlen : (['\r', '\n'] ++ dataMarker 9).length = 9 := rfl
  have hlast : 2 + (dataMarker 9).length = 9 := rfl
  rw [contains_eq_none_iff, hline, hlast]
  constructor
  · intro h
    by_contra hm
    rw [List.take_append, List.take_of_length_le (by omega)] at h
    exact h ⟨['\r', '\n'], _, by rw [List.append_assoc]⟩
  · intro hm
    rw [List.take_append_of_le_length (by omega)]
    interval_cases m <;> decide

/-- The loop stops once the residue or the received text has `Data 9:`. -/
theorem complete_iff :
    dataMarker 9 <:+: R ++ (displayAiStatus w cnn).take n ↔
      dataMarker 9 <:+: R ∨ markerEnd w cnn ≤ n := by
  have happ := (dataMarker_splitsAt 9).append (a := R) ((opens_displayAiStatus w cnn).take n)
  have htake := displayAiStatus_take (dataMarker_splitsAt 9)
    (fun _ => contains_eq_none_iff.mpr) w cnn n
  rw [← not_iff_not, ← contains_eq_none_iff, happ, Option.or_eq_none_iff, htake,
    lastLine_contains, contains_eq_none_iff, markerEnd, not_or]
  have hlast : (dataMarker 9).length = 7 := rfl
  refine and_congr_right fun _ => ?_
  omega

/-! ### What the pattern of one value finds -/

theorem dataLine_search (i : Fin 10) (m : ℕ) :
    ((search Char.isDigit (dataLabel i) (('\r' :: '\n' :: dataLine cnn i).take m)).map
        intOf).getD 0 =
      partialValue (cnn i).toNat (m - (2 + (dataLabel i).length)) := by
  have hlen : (dataLabel i).length = 8 := rfl
  have hskip : ∀ s, search Char.isDigit (dataLabel i) ('\r' :: '\n' :: s) =
      search Char.isDigit (dataLabel i) s := fun s =>
    (search_cons_of_ne (by decide)).trans (search_cons_of_ne (by decide))
  rcases Nat.lt_or_ge (2 + (dataLabel i).length) m with hm | hm
  · obtain ⟨k, rfl⟩ : ∃ k, m = (dataLabel i).length + (k + 1) + 1 + 1 :=
      ⟨m - (2 + (dataLabel i).length) - 1, by omega⟩
    have hdigits : search Char.isDigit (dataLabel i)
        (dataLabel i ++ (decimal (cnn i).toNat).take (k + 1)) =
        some ((decimal (cnn i).toNat).take (k + 1)) :=
      search_label (by simp [decimal_ne_nil]) fun c hc =>
        decimal_isDigit _ c (List.mem_of_mem_take hc)
    have hk : (dataLabel i).length + (k + 1) + 1 + 1 - (2 + (dataLabel i).length) = k + 1 := by
      omega
    rw [List.take_succ_cons, List.take_succ_cons, hskip, dataLine, List.take_length_add_append,
      dword2decimal, hdigits, hk]
    rfl
  · -- the cut leaves no digit behind the label
    have hnone : search Char.isDigit (dataLabel i)
        (('\r' :: '\n' :: dataLine cnn i).take m) = none := by
      rcases Nat.lt_or_ge m 2 with h2 | h2
      · exact search_eq_none_of_length (by rw [List.length_take]; omega)
      · obtain ⟨k, rfl⟩ : ∃ k, m = k + 1 + 1 := ⟨m - 2, by omega⟩
        rw [List.take_succ_cons, List.take_succ_cons, hskip]
        exact search_eq_none_of_length (by rw [List.length_take]; omega)
    rw [hnone, Nat.sub_eq_zero_of_le hm]
    rfl

/-- The value read for class `i` from a residue and the first `n` characters of the
text: a match in the residue comes first. -/
theorem readValue_append (i : Fin 10) :
    (readValue i (R ++ (displayAiStatus w cnn).take n)).getD 0 = (cnn i).toNat ↔
      readValue i R = some (cnn i).toNat ∨
        (readValue i R = none ∧ (valueEnd w cnn i ≤ n ∨ (cnn i).toNat = 0)) := by
  have happ := (dataLabel_splitsAt i).append (a := R) ((opens_displayAiStatus w cnn).take n)
  unfold readValue
  rw [pattern_eq, happ]
  cases hR : search Char.isDigit (dataLabel i) R with
  | some ds => simp
  | none =>
    have htake := displayAiStatus_take (dataLabel_splitsAt i)
      (fun _ h => search_eq_none fun hi => h ((List.prefix_append _ _).isInfix.trans hi)) w cnn n
    have hpos : 0 < (dword2decimal (cnn i)).length := List.length_pos_iff.mpr (decimal_ne_nil _)
    have hend : (decimal (cnn i).toNat).length ≤
        n - (textBefore w cnn i).length - (2 + (dataLabel i).length) ↔ valueEnd w cnn i ≤ n := by
      unfold valueEnd
      unfold dword2decimal at hpos ⊢
      omega
    rw [Option.none_or, htake, dataLine_search, partialValue_eq_iff, hend]
    simp

/-! ### The receive loop -/

/-- The first end of a round, from `a` on, that is not before position `e`. -/
def roundEnd (e a : ℕ) : List (List Char) → ℕ
  | [] => a
  | waiting :: rounds => if e ≤ a then a else roundEnd e (a + waiting.length) rounds

theorem roundEnd_of_le {e a : ℕ} (h : e ≤ a) (rounds : List (List Char)) :
    roundEnd e a rounds = a := by
  cases rounds with
  | nil => rfl
  | cons waiting rounds => exact if_pos h

theorem le_roundEnd {e a : ℕ} {rounds : List (List Char)} (h : e ≤ a + rounds.flatten.length) :
    e ≤ roundEnd e a rounds := by
  induction rounds generalizing a with
  | nil =>
    show e ≤ a
    simpa using h
  | cons waiting rounds ih =>
    unfold roundEnd
    split_ifs with ha
    · exact ha
    · rw [List.flatten_cons, List.length_append, ← Nat.add_assoc] at h
      exact ih h

theorem receive_cons (response waiting : List Char) (rounds : List (List Char)) :
    receive response (waiting :: rounds) =
      if waiting = [] then receive response rounds
      else if dataMarker 9 <:+: response ++ decodeAscii waiting then
        response ++ decodeAscii waiting
      else receive (response ++ decodeAscii waiting) rounds := rfl

/-- From a text that is not complete yet the loop runs to the first round that
completes it. -/
theorem receive_text (hR : ¬dataMarker 9 <:+: R) {rounds : List (List Char)}
    (hrest : (displayAiStatus w cnn).drop n = rounds.flatten) (hn : n < markerEnd w cnn) :
    receive (R ++ (displayAiStatus w cnn).take n) rounds =
      R ++ (displayAiStatus w cnn).take (roundEnd (markerEnd w cnn) n rounds) := by
  induction rounds generalizing n with
  | nil => rfl
  | cons waiting rounds ih =>
    rw [List.flatten_cons] at hrest
    have hascii : decodeAscii waiting = waiting := by
      refine decodeAscii_of_ascii ((ascii_displayAiStatus w cnn).of_subset fun c hc => ?_)
      have hmem : c ∈ (displayAiStatus w cnn).drop n := by
        rw [hrest]
        exact List.mem_append_left _ hc
      exact List.mem_of_mem_drop hmem
    have htake : (displayAiStatus w cnn).take n ++ waiting =
        (displayAiStatus w cnn).take (n + waiting.length) := by
      rw [List.take_add, hrest, List.take_left]
    have hdrop : (displayAiStatus w cnn).drop (n + waiting.length) = rounds.flatten := by
      rw [← List.drop_drop, hrest, List.drop_left]
    rw [roundEnd, if_neg (by omega)]
    by_cases hw : waiting = []
    · subst hw
      rw [receive_cons, if_pos rfl]
      exact ih hdrop hn
    · rw [receive_cons, if_neg hw, hascii, List.append_assoc, htake]
      split_ifs with hc
      · rw [roundEnd_of_le ((complete_iff.mp hc).resolve_left hR)]
      · refine ih hdrop (Nat.lt_of_not_le fun hle => hc (complete_iff.mpr (.inr hle)))

/-- Where the loop stops in the text of this poll: with the first round if the
residue already has `Data 9:`, else with the first round that reaches it. -/
def stop (w : StatusWords) (cnn : Fin 10 → BitVec 32) (R first : List Char)
    (rounds : List (List Char)) : ℕ :=
  if dataMarker 9 <:+: R then first.length
  else roundEnd (markerEnd w cnn) first.length rounds

/-- What the loop has collected when it stops. -/
theorem receive_residue {first : List Char} {rounds : List (List Char)}
    (h : first ++ rounds.flatten = displayAiStatus w cnn) :
    receive [] ((residue ++ first) :: rounds) =
      decodeAscii residue ++
        (displayAiStatus w cnn).take (stop w cnn (decodeAscii residue) first rounds) := by
  have htake : (displayAiStatus w cnn).take first.length = first := by rw [← h, List.take_left]
  have hdrop : (displayAiStatus w cnn).drop first.length = rounds.flatten := by
    rw [← h, List.drop_left]
  have hascii : decodeAscii first = first := by
    refine decodeAscii_of_ascii ((ascii_displayAiStatus w cnn).of_subset fun c hc => ?_)
    rw [← h]
    exact List.mem_append_left _ hc
  have hmarker : 7 ≤ markerEnd w cnn := Nat.le_add_left _ _
  unfold stop
  rw [receive_cons, List.nil_append, decodeAscii_append, hascii]
  by_cases hempty : residue ++ first = []
  · obtain ⟨rfl, rfl⟩ := List.append_eq_nil_iff.mp hempty
    have hnone : ¬dataMarker 9 <:+: decodeAscii [] := by decide
    rw [if_pos hempty, if_neg hnone]
    exact receive_text hnone hdrop (by rw [List.length_nil]; omega)
  · rw [if_neg hempty]
    have hcomplete : dataMarker 9 <:+: decodeAscii residue ++
        (displayAiStatus w cnn).take first.length ↔
        dataMarker 9 <:+: decodeAscii residue ∨ markerEnd w cnn ≤ first.length := complete_iff
    rw [htake] at hcomplete
    by_cases hR : dataMarker 9 <:+: decodeAscii residue
    · rw [if_pos (hcomplete.mpr (.inl hR)), if_pos hR, htake]
    · rw [if_neg hR]
      split_ifs with hc
      · have hle : markerEnd w cnn ≤ first.length := (hcomplete.mp hc).resolve_left hR
        rw [roundEnd_of_le hle, htake]
      · have hlt : ¬markerEnd w cnn ≤ first.length := fun hle => hc (hcomplete.mpr (.inr hle))
        have hrec := receive_text hR hdrop (by omega)
        rwa [htake] at hrec

/-! ### The list of one poll -/

theorem markerEnd_le_length (w : StatusWords) (cnn : Fin 10 → BitVec 32) :
    markerEnd w cnn ≤ (displayAiStatus w cnn).length := by
  rw [displayAiStatus_split w cnn 9, markerEnd, List.length_append, List.length_append,
    List.length_cons, List.length_cons, dataLine, dataLabel, List.length_append, List.length_append]
  omega

/-- The text is never empty, so it is always parsed. -/
theorem poll_residue {first : List Char} {rounds : List (List Char)}
    (h : first ++ rounds.flatten = displayAiStatus w cnn) :
    poll ((residue ++ first) :: rounds) =
      some (parsePixelReaderResponse (decodeAscii residue ++
        (displayAiStatus w cnn).take (stop w cnn (decodeAscii residue) first rounds))) := by
  have hmarker : 7 ≤ markerEnd w cnn := Nat.le_add_left _ _
  have hlength := markerEnd_le_length w cnn
  rw [poll, receive_residue h]
  apply if_neg
  intro hempty
  obtain ⟨hR, htake⟩ := List.append_eq_nil_iff.mp hempty
  have hstop : markerEnd w cnn ≤ stop w cnn (decodeAscii residue) first rounds := by
    have hnone : ¬dataMarker 9 <:+: [] := by decide
    rw [hR, stop, if_neg hnone]
    apply le_roundEnd
    rw [← List.length_append, h]
    exact hlength
  have hnil := congrArg List.length htake
  rw [List.length_take, List.length_nil] at hnil
  omega

theorem parse_eq_iff {response : List Char} :
    parsePixelReaderResponse response = List.ofFn (fun i => (cnn i).toNat) ↔
      ∀ i : Fin 10, (readValue i response).getD 0 = (cnn i).toNat := by
  have hparse : parsePixelReaderResponse response =
      List.ofFn fun i : Fin 10 => (readValue i response).getD 0 := rfl
  rw [hparse, List.ofFn_inj, funext_iff]

/-- A poll yields the values printed for it exactly when each of them is what the
residue shows for it, or the residue shows none and the loop did not stop before the
end of the value (a missing value reads as 0). -/
theorem poll_values_iff (w : StatusWords) (cnn : Fin 10 → BitVec 32)
    (residue first : List Char) (rounds : List (List Char))
    (h : first ++ rounds.flatten = displayAiStatus w cnn) :
    poll ((residue ++ first) :: rounds) = some (List.ofFn fun i => (cnn i).toNat) ↔
      ∀ i : Fin 10, readValue i (decodeAscii residue) = some (cnn i).toNat ∨
        (readValue i (decodeAscii residue) = none ∧
          (valueEnd w cnn i ≤ stop w cnn (decodeAscii residue) first rounds ∨
            (cnn i).toNat = 0)) := by
  rw [poll_residue h, Option.some.injEq, parse_eq_iff]
  exact forall_congr' readValue_append

/-- Class 9 holds 12, the other classes 0. -/
def twelve (i : Fin 10) : BitVec 32 := if i = 9 then 12 else 0

/-- Class `i` holds `2 * i`. -/
def doubled (i : Fin 10) : BitVec 32 := BitVec.ofNat 32 (2 * i.val)

theorem take_drop_rounds (text : List Char) (a b : ℕ) :
    text.take a ++ [(text.drop a).take b, [], text.drop (a + b)].flatten = text := by
  rw [List.flatten_cons, List.flatten_cons, List.nil_append, List.flatten_singleton,
    ← List.drop_drop, List.take_append_drop, List.take_append_drop]

/-- The end of an earlier response is left over, and the text comes in three rounds with
an empty one among them. -/
theorem poll_values_three_rounds :
    let w : StatusWords := ⟨1, 1, 62, 0, 0⟩
    let residue := "Data 8: 16\r\nDat".toList
    let text := displayAiStatus w doubled
    let rounds := [(text.drop 30).take 200, [], text.drop (30 + 200)]
    poll ((residue ++ text.take 30) :: rounds) =
        some (List.ofFn fun i => (doubled i).toNat) ↔
      ∀ i : Fin 10, readValue i (decodeAscii residue) = some (doubled i).toNat ∨
        (readValue i (decodeAscii residue) = none ∧
          (valueEnd w doubled i ≤ stop w doubled (decodeAscii residue) (text.take 30) rounds ∨
            (doubled i).toNat = 0)) :=
  poll_values_iff ⟨1, 1, 62, 0, 0⟩ doubled _ _ _ (take_drop_rounds _ 30 200)

/-- The first round ends within the 12, behind its first digit. -/
theorem poll_values_cut :
    ¬∀ (w : StatusWords) (cnn : Fin 10 → BitVec 32) (residue first : List Char)
      (rounds : List (List Char)), first ++ rounds.flatten = displayAiStatus w cnn →
      poll ((residue ++ first) :: rounds) = some (List.ofFn fun i => (cnn i).toNat) := by
  intro h
  let w : StatusWords := ⟨1, 1, 62, 0, 0⟩
  let cut := valueEnd w twelve 9 - 1
  have hdigits : dword2decimal (twelve 9) = ['1', '2'] := by
    have htoNat : (twelve 9).toNat = 12 := rfl
    rw [dword2decimal, htoNat, decimal, if_neg (by decide), digitBuffer, digitBuffer, digitBuffer]
    decide
  have hlabel : (dataLabel 9).length = (dataMarker 9).length + 1 := rfl
  have hlast : valueEnd w twelve 9 = markerEnd w twelve + 3 := by
    have htwo : (dword2decimal (twelve 9)).length = 2 := congrArg List.length hdigits
    unfold valueEnd markerEnd
    omega
  have hlength : valueEnd w twelve 9 ≤ (displayAiStatus w twelve).length := by
    rw [displayAiStatus_split w twelve 9, valueEnd, List.length_append, List.length_append,
      List.length_cons, List.length_cons, dataLine, List.length_append]
    omega
  have hsplit : (displayAiStatus w twelve).take cut ++
      [(displayAiStatus w twelve).drop cut].flatten = displayAiStatus w twelve := by
    rw [List.flatten_singleton, List.take_append_drop]
  have hpoll := h w twelve [] _ _ hsplit
  rw [poll_residue hsplit, Option.some.injEq, parse_eq_iff] at hpoll
  have hcut : ((displayAiStatus w twelve).take cut).length = cut := by
    rw [List.length_take]
    exact Nat.min_eq_left (by omega)
  have hnone : ¬dataMarker 9 <:+: decodeAscii [] := by decide
  rcases (readValue_append 9).mp (hpoll 9) with hres | ⟨-, hend | hzero⟩
  · exact absurd hres (by decide)
  · rw [stop, if_neg hnone, hcut, roundEnd_of_le (by omega)] at hend
    omega
  · exact absurd hzero (by decide)

end AlteraWorkshops.Status
