import AlteraWorkshops.FpgaAi.Transfers

/-! What the arguments of a run amount to: the size of the input file and the number of
bytes that the output streamer sends for an output shape, or why the run stops before it
touches the board. -/

namespace AlteraWorkshops.FpgaAi

open Effects Script

variable {C H W cvec T : ℤ} {l : List Event}

/-! ### The input file -/

/-- The size that is returned is that of the file, and it is a multiple of 16. -/
theorem validateArgs_eq (path : String) (input : Bytes) (numInferences : ℤ) :
    validateArgs ⟨path, some input⟩ numInferences =
      if numInferences < 0 then stop .numberOfInferences
      else if 16 ∣ input.length then pure (input.length : ℤ)
      else stop .inputNotAligned := by
  have haligned : (input.length : ℤ).fmod axiStreamDataWidthBytes ≠ 0 ↔ ¬16 ∣ input.length := by
    rw [ne_eq, ← Int.dvd_iff_fmod_eq_zero, not_iff_not]
    exact Int.natCast_dvd_natCast
  unfold validateArgs
  by_cases hneg : numInferences < 0
  · rw [when_stop_bind hneg, if_pos hneg]
  · rw [when_bind_of_not hneg, if_neg hneg]
    by_cases hdvd : 16 ∣ input.length
    · rw [if_pos hdvd]
      exact when_bind_of_not (mt haligned.mp (not_not.mpr hdvd)) _ _
    · rw [if_neg hdvd]
      exact when_stop_bind (haligned.mpr hdvd) _ _

/-! ### The output -/

theorem furtherTransfer_eq : furtherTransfer C cvec 8 =
    if 8 ∣ C ∧ cvec = 0 then stop .divideByZero
    else pure (if 8 ∣ C ∧ ¬cvec ∣ C then 1 else 0) := by
  have h8 : C.fmod 8 = 0 ↔ 8 ∣ C := Int.dvd_iff_fmod_eq_zero.symm
  have hvec : C.fmod cvec = 0 ↔ cvec ∣ C := Int.dvd_iff_fmod_eq_zero.symm
  unfold furtherTransfer remainder
  by_cases hC : 8 ∣ C
  · rw [if_pos (h8.mpr hC)]
    by_cases hzero : cvec = 0
    · rw [if_pos hzero, if_pos ⟨hC, hzero⟩, stop_bind]
    · rw [if_neg hzero, if_neg fun h => hzero h.2, pure_bind]
      congr 1
      by_cases hd : cvec ∣ C
      · rw [if_pos (hvec.mpr hd), if_neg fun h => h.2 hd]
      · rw [if_neg (mt hvec.mp hd), if_pos ⟨hC, hd⟩]
  · rw [if_neg (mt h8.mp hC), if_neg fun h => hC h.1, if_neg fun h => hC h.1]

/-- The transfers of the output streamer. Each pixel takes whole transfers of eight channels,
and one more where the channels end with a transfer but not with a vector; behind the last
pixel there is no such one. -/
def egressBeats (C H W cvec : ℤ) : ℤ :=
  (H * W - 1) * ((C + 7) / 8 + if 8 ∣ C ∧ ¬cvec ∣ C then 1 else 0) + (C + 7) / 8

/-- Too large an output is only warned of. -/
theorem calulateEgressAxiTransfers_eq (C H W cvec : ℤ) : calulateEgressAxiTransfers C H W cvec =
    if 8 ∣ C ∧ cvec = 0 then stop .divideByZero
    else if egressBeats C H W cvec ≤ 0 then stop .egressTransferCalculation
    else when (egressBeats C H W cvec * 16 > egressOnChipMemorySizeBytes)
      (emit (.puts .outputPartitioned)) >>= fun _ => pure (egressBeats C H W cvec * 16) := by
  have hdiv : (C + 8 - 1).fdiv 8 = (C + 7) / 8 := by
    rw [Int.fdiv_eq_ediv_of_nonneg _ (by decide), Int.add_sub_assoc]
    rfl
  have hstop : egressBeats C H W cvec * 16 ≤ 0 ∨ (egressBeats C H W cvec * 16).fmod 16 ≠ 0 ↔
      egressBeats C H W cvec ≤ 0 := by
    rw [Int.mul_fmod_left, or_iff_left (not_not.mpr rfl)]
    omega
  have hunfold : calulateEgressAxiTransfers C H W cvec =
      (furtherTransfer C cvec 8 >>= fun further =>
        let total := (H * W - 1) * ((C + 8 - 1).fdiv 8 + further) + (C + 8 - 1).fdiv 8
        when (total * 16 ≤ 0 ∨ (total * 16).fmod 16 ≠ 0) (stop .egressTransferCalculation) >>=
          fun _ => when (total * 16 > egressOnChipMemorySizeBytes)
            (emit (.puts .outputPartitioned)) >>= fun _ => pure (total * 16)) := rfl
  rw [hunfold, furtherTransfer_eq, hdiv]
  by_cases hzero : 8 ∣ C ∧ cvec = 0
  · rw [if_pos hzero, if_pos hzero, stop_bind]
  · rw [if_neg hzero, if_neg hzero, pure_bind]
    by_cases hpos : egressBeats C H W cvec ≤ 0
    · rw [if_pos hpos]
      exact when_stop_bind (hstop.mpr hpos) _ _
    · rw [if_neg hpos]
      exact when_bind_of_not (mt hstop.mp hpos) _ _

theorem warning_result (c : Prop) [Decidable c] (warning : Warning) :
    ((when c (emit (.puts warning)) : Proc Unit) l).1 = .ok () := by
  unfold when
  split_ifs <;> rfl

/-- What it means that a shape has an output. -/
theorem calulateEgressAxiTransfers_returns
    (hT : (calulateEgressAxiTransfers C H W cvec l).1 = .ok T) :
    0 < egressBeats C H W cvec ∧ T = egressBeats C H W cvec * 16 ∧
      calulateEgressAxiTransfers C H W cvec =
        when (T > egressOnChipMemorySizeBytes) (emit (.puts .outputPartitioned)) >>=
          fun _ => pure T := by
  have heq := calulateEgressAxiTransfers_eq C H W cvec
  rw [heq] at hT
  split_ifs at hT heq with hzero hpos
  · cases hT
  · cases hT
  · have hresult : Ends (when (egressBeats C H W cvec * 16 > egressOnChipMemorySizeBytes)
        (emit (.puts .outputPartitioned)) >>= fun _ => pure (egressBeats C H W cvec * 16) : Proc ℤ)
        l fun r _ => r = .ok (egressBeats C H W cvec * 16) :=
      Ends.bind_of_result (warning_result _ _) (fun _ => Ends.pure rfl) fun _ _ _ h => h
    obtain rfl : egressBeats C H W cvec * 16 = T := Except.ok.inj (hresult.holds.symm.trans hT)
    exact ⟨not_le.mp hpos, rfl, heq⟩

/-! ### Runs with good arguments -/

variable {hw : Hardware} {path : String} {input : Bytes} {numInferences : ℤ}

theorem mainFunctional_eq (hdvd : 16 ∣ input.length) (hn : 0 ≤ numInferences)
    (hT : (calulateEgressAxiTransfers C H W cvec l).1 = .ok T) :
    mainFunctional hw numInferences ⟨path, some input⟩ C H W (some cvec) = (do
      when ((input.length : ℤ) > ingressOnChipMemorySizeBytes)
        (emit (.puts (.inputPartitioned path)))
      when (T > egressOnChipMemorySizeBytes) (emit (.puts .outputPartitioned))
      runFunctional hw numInferences ⟨path, some input⟩ input.length T) := by
  unfold mainFunctional parseCvec
  rw [pure_bind, validateArgs_eq, if_neg (not_lt.mpr hn), if_pos hdvd, pure_bind,
    (calulateEgressAxiTransfers_returns hT).2.2]
  simp only [bind_assoc, pure_bind]

theorem mainPerformance_eq (hdvd : 16 ∣ input.length)
    (hle : (input.length : ℤ) ≤ ingressOnChipMemorySizeBytes)
    (hT : (calulateEgressAxiTransfers C H W cvec l).1 = .ok T) (measure : Bool) :
    mainPerformance hw ⟨path, some input⟩ C H W measure (some cvec) = (do
      when (T > egressOnChipMemorySizeBytes) (emit (.puts .outputPartitioned))
      runPerformance hw (if measure then 1 else 32) ⟨path, some input⟩ input.length T measure) := by
  unfold mainPerformance parseCvec
  rw [pure_bind]
  simp only [validateArgs_eq]
  rw [if_neg (not_lt.mpr (Int.natCast_nonneg _)), if_pos hdvd, pure_bind,
    when_bind_of_not (not_lt.mpr hle), (calulateEgressAxiTransfers_returns hT).2.2]
  simp only [bind_assoc, pure_bind]

/-- A performance run does not start with an input that is larger than its memory. -/
theorem mainPerformance_of_large (hdvd : 16 ∣ input.length)
    (hlt : ingressOnChipMemorySizeBytes < input.length) (measure : Bool) :
    mainPerformance hw ⟨path, some input⟩ C H W measure (some cvec) =
      stop (.inputTooLarge path) := by
  unfold mainPerformance parseCvec
  rw [pure_bind]
  simp only [validateArgs_eq]
  rw [if_neg (not_lt.mpr (Int.natCast_nonneg _)), if_pos hdvd, pure_bind, when_stop_bind hlt]

end AlteraWorkshops.FpgaAi
