import AlteraWorkshops.FpgaAi.OutputSize
import Mathlib.Data.Rat.Floor

/-! The number of bytes the output streamer sends, over all shapes. Good shapes are never
counted short, and more channels, rows or columns never count for less. A bad shape is only
found by the sign of the whole product, where two wrong signs may cancel. -/

namespace AlteraWorkshops.FpgaAi

open Effects Script

variable {C C' H H' W W' cvec : ℤ} {l : List Event}

/-- The one decision there is about a shape. -/
theorem calulateEgressAxiTransfers_result (hcvec : cvec ≠ 0) :
    (calulateEgressAxiTransfers C H W cvec l).1 =
      if egressBeats C H W cvec ≤ 0 then .error .egressTransferCalculation
      else .ok (egressBeats C H W cvec * 16) := by
  rw [calulateEgressAxiTransfers_eq, if_neg fun h => hcvec h.2]
  split_ifs
  · rfl
  · have hresult : Ends (when (egressBeats C H W cvec * 16 > egressOnChipMemorySizeBytes)
        (emit (.puts .outputPartitioned)) >>= fun _ => pure (egressBeats C H W cvec * 16) : Proc ℤ)
        l fun r _ => r = .ok (egressBeats C H W cvec * 16) :=
      Ends.bind_of_result (warning_result _ _) (fun _ => Ends.pure rfl) fun _ _ _ h => h
    exact hresult.holds

/-! ### Transfers of one pixel -/

/-- `last_pixel`: the transfers that the channels of one pixel fill. -/
def lastPixel (C : ℤ) : ℤ := (C + 7) / 8

/-- `per_pixel` -/
def perPixel (C cvec : ℤ) : ℤ := lastPixel C + if 8 ∣ C ∧ ¬cvec ∣ C then 1 else 0

theorem egressBeats_eq :
    egressBeats C H W cvec = (H * W - 1) * perPixel C cvec + lastPixel C := rfl

theorem lastPixel_eq_ceil (C : ℤ) : lastPixel C = ⌈(C : ℚ) / 8⌉ := by
  rw [eq_comm, Int.ceil_eq_iff, lastPixel]
  constructor
  · rw [lt_div_iff₀ (by norm_num)]
    have h : ((C + 7) / 8 - 1) * 8 < C := by omega
    exact_mod_cast h
  · rw [div_le_iff₀ (by norm_num)]
    have h : C ≤ (C + 7) / 8 * 8 := by omega
    exact_mod_cast h

theorem lastPixel_pos (hC : 0 < C) : 0 < lastPixel C := by
  unfold lastPixel
  omega

theorem le_lastPixel (C : ℤ) : C ≤ 8 * lastPixel C := by
  unfold lastPixel
  omega

theorem lastPixel_mono (h : C ≤ C') : lastPixel C ≤ lastPixel C' := by
  unfold lastPixel
  omega

theorem lastPixel_le_perPixel (C cvec : ℤ) : lastPixel C ≤ perPixel C cvec := by
  unfold perPixel
  split_ifs <;> omega

theorem perPixel_le (C cvec : ℤ) : perPixel C cvec ≤ lastPixel C + 1 := by
  unfold perPixel
  split_ifs <;> omega

/-- The transfer that ends a pixel may be missing with more channels, but then they need
another one themselves. -/
theorem perPixel_mono (cvec : ℤ) (h : C ≤ C') : perPixel C cvec ≤ perPixel C' cvec := by
  rcases h.eq_or_lt with rfl | hlt
  · exact le_rfl
  · by_cases hend : 8 ∣ C
    · have hnext : lastPixel C + 1 ≤ lastPixel C' := by
        unfold lastPixel
        omega
      exact (perPixel_le C cvec).trans (hnext.trans (lastPixel_le_perPixel C' cvec))
    · have hsame : perPixel C cvec = lastPixel C := by
        rw [perPixel, if_neg fun h => hend h.1, add_zero]
      rw [hsame]
      exact (lastPixel_mono h).trans (lastPixel_le_perPixel C' cvec)

/-! ### Good shapes -/

theorem egressBeats_pos (cvec : ℤ) (hC : 0 < C) (hH : 0 < H) (hW : 0 < W) :
    0 < egressBeats C H W cvec := by
  have hlast := lastPixel_pos hC
  have hper := hlast.trans_le (lastPixel_le_perPixel C cvec)
  have hpixels : 0 ≤ H * W - 1 := by
    have := mul_pos hH hW
    omega
  rw [egressBeats_eq]
  exact add_pos_of_nonneg_of_pos (mul_nonneg hpixels hper.le) hlast

/-- Eight channels go into one transfer, two bytes each. -/
theorem le_egressBeats (C cvec : ℤ) (hH : 0 < H) (hW : 0 < W) :
    C * H * W ≤ 8 * egressBeats C H W cvec := by
  have hpixels : 1 ≤ H * W := mul_pos hH hW
  calc C * H * W = C * (H * W) := mul_assoc C H W
    _ ≤ 8 * lastPixel C * (H * W) := mul_le_mul_of_nonneg_right (le_lastPixel C) (by omega)
    _ = 8 * ((H * W - 1) * lastPixel C + lastPixel C) := by ring
    _ ≤ 8 * egressBeats C H W cvec := by
      have := mul_le_mul_of_nonneg_left (lastPixel_le_perPixel C cvec)
        (show 0 ≤ H * W - 1 by omega)
      rw [egressBeats_eq]
      omega

theorem egressBeats_le (C cvec : ℤ) (hH : 0 < H) (hW : 0 < W) :
    egressBeats C H W cvec ≤ H * W * (lastPixel C + 1) := by
  have hpixels : 1 ≤ H * W := mul_pos hH hW
  calc egressBeats C H W cvec = (H * W - 1) * perPixel C cvec + lastPixel C := rfl
    _ ≤ (H * W - 1) * (lastPixel C + 1) + (lastPixel C + 1) := by
      have := mul_le_mul_of_nonneg_left (perPixel_le C cvec) (show 0 ≤ H * W - 1 by omega)
      omega
    _ = H * W * (lastPixel C + 1) := by ring

theorem egressBeats_mono (cvec : ℤ) (hC : 0 < C) (hH : 0 < H) (hW : 0 < W) (hCC : C ≤ C')
    (hHH : H ≤ H') (hWW : W ≤ W') : egressBeats C H W cvec ≤ egressBeats C' H' W' cvec := by
  have hpixels : H * W ≤ H' * W' := mul_le_mul hHH hWW hW.le (hH.le.trans hHH)
  have hone : 1 ≤ H * W := mul_pos hH hW
  have hper : 0 ≤ perPixel C cvec := (lastPixel_pos hC).le.trans (lastPixel_le_perPixel C cvec)
  have hmul := mul_le_mul (show H * W - 1 ≤ H' * W' - 1 by omega)
    (perPixel_mono cvec hCC) hper (by omega)
  have hlast := lastPixel_mono hCC
  rw [egressBeats_eq, egressBeats_eq]
  omega

/-- A good shape is never counted short: the bytes fill whole transfers, there is room for
two bytes for each value, and no more than one transfer for each pixel is not needed. -/
theorem calulateEgressAxiTransfers_good {C H W cvec : ℤ} (hC : 0 < C) (hH : 0 < H) (hW : 0 < W)
    (hcvec : 0 < cvec) (l : List Event) :
    ∃ T, (calulateEgressAxiTransfers C H W cvec l).1 = .ok T ∧ 0 < T ∧ 16 ∣ T ∧
      2 * C * H * W ≤ T ∧
      T = 16 * ((H * W - 1) * (⌈(C : ℚ) / 8⌉ + if 8 ∣ C ∧ ¬cvec ∣ C then 1 else 0) +
        ⌈(C : ℚ) / 8⌉) ∧
      T ≤ 16 * (H * W * (⌈(C : ℚ) / 8⌉ + 1)) ∧
      ∀ C' H' W', C ≤ C' → H ≤ H' → W ≤ W' →
        ∃ T', (calulateEgressAxiTransfers C' H' W' cvec l).1 = .ok T' ∧ T ≤ T' := by
  have hreturns : ∀ C H W : ℤ, 0 < C → 0 < H → 0 < W →
      (calulateEgressAxiTransfers C H W cvec l).1 = .ok (egressBeats C H W cvec * 16) :=
    fun C H W hC hH hW => by
      rw [calulateEgressAxiTransfers_result hcvec.ne',
        if_neg (egressBeats_pos cvec hC hH hW).not_ge]
  have hpos := egressBeats_pos cvec hC hH hW
  have hroom := le_egressBeats C cvec hH hW
  have hbound := egressBeats_le C cvec hH hW
  rw [← lastPixel_eq_ceil]
  refine ⟨_, hreturns C H W hC hH hW, by omega, Dvd.intro_left _ rfl, ?_, ?_, by omega, ?_⟩
  · calc 2 * C * H * W = 2 * (C * H * W) := by ring
      _ ≤ egressBeats C H W cvec * 16 := by omega
  · rw [egressBeats_eq, perPixel, mul_comm]
  · intro C' H' W' hCC hHH hWW
    refine ⟨_, hreturns C' H' W' (by omega) (by omega) (by omega), ?_⟩
    have hmono := egressBeats_mono cvec hC hH hW hCC hHH hWW
    omega

theorem calulateEgressAxiTransfers_good_sixteen :
    ∃ T, (calulateEgressAxiTransfers 16 2 3 32 []).1 = .ok T ∧ 2 * 16 * 2 * 3 ≤ T := by
  obtain ⟨T, hT, -, -, hroom, -⟩ := calulateEgressAxiTransfers_good (C := 16) (H := 2) (W := 3)
    (by decide) (by decide) (by decide) (show (0 : ℤ) < 32 by decide) []
  exact ⟨T, hT, hroom⟩

/-! ### Bad shapes -/

theorem exits_iff (hcvec : cvec ≠ 0) :
    (calulateEgressAxiTransfers C H W cvec l).1 = .error .egressTransferCalculation ↔
      egressBeats C H W cvec ≤ 0 := by
  rw [calulateEgressAxiTransfers_result hcvec]
  split_ifs with h <;> simp [h]

theorem lastPixel_eq_zero (hC : C ≤ 0) (hlt : -8 < C) : lastPixel C = 0 := by
  unfold lastPixel
  omega

theorem lastPixel_neg (hC : C ≤ -8) : lastPixel C < 0 := by
  unfold lastPixel
  omega

theorem egressBeats_of_no_further (h : ¬(8 ∣ C ∧ ¬cvec ∣ C)) :
    egressBeats C H W cvec = H * W * lastPixel C := by
  rw [egressBeats_eq, perPixel, if_neg h]
  ring

theorem egressBeats_of_further (h : 8 ∣ C ∧ ¬cvec ∣ C) :
    egressBeats C H W cvec = H * W * (lastPixel C + 1) - 1 := by
  rw [egressBeats_eq, perPixel, if_pos h]
  ring

/-- With channels, the sign is that of the number of pixels. -/
theorem egressBeats_pos_iff_of_pos (hC : 0 < C) : 0 < egressBeats C H W cvec ↔ 0 < H * W := by
  have hlast := lastPixel_pos hC
  by_cases h : 8 ∣ C ∧ ¬cvec ∣ C
  · rw [egressBeats_of_further h, sub_pos]
    constructor
    · intro hlt
      exact pos_of_mul_pos_left (zero_lt_one.trans hlt) (by omega)
    · intro hpixels
      calc 1 < lastPixel C + 1 := by omega
        _ ≤ H * W * (lastPixel C + 1) := le_mul_of_one_le_left (by omega) hpixels
  · rw [egressBeats_of_no_further h, mul_pos_iff_of_pos_right hlast]

/-- Without channels, the transfers of a pixel count below zero from eight missing ones on,
and the one that ends a pixel makes up for one of them. -/
theorem egressBeats_pos_iff_of_nonpos (hC : C ≤ 0) :
    0 < egressBeats C H W cvec ↔ H * W < 0 ∧ C ≤ -8 ∧
      ¬((8 ∣ C ∧ ¬cvec ∣ C) ∧ (C = -8 ∨ C = -16 ∧ H * W = -1)) := by
  by_cases h : 8 ∣ C ∧ ¬cvec ∣ C
  · obtain ⟨⟨k, rfl⟩, hcvec⟩ := h
    have hk : k ≠ 0 := by
      rintro rfl
      simp at hcvec
    have hlast : lastPixel (8 * k) = k := by
      unfold lastPixel
      omega
    have hfurther : 8 ∣ 8 * k ∧ ¬cvec ∣ 8 * k := ⟨Dvd.intro _ rfl, hcvec⟩
    rw [egressBeats_of_further hfurther, hlast, sub_pos]
    simp only [hfurther, not_false_eq_true, and_self, true_and]
    generalize H * W = N
    rcases (show k = -1 ∨ k = -2 ∨ k ≤ -3 by omega) with rfl | rfl | hlow
    · simp
    · simp
      omega
    · have hmiss : ¬(8 * k = -8 ∨ 8 * k = -16 ∧ N = -1) := by omega
      simp only [hmiss, not_false_eq_true, and_true]
      constructor
      · intro hlt
        refine ⟨?_, by omega⟩
        by_contra hN
        have := mul_nonpos_of_nonneg_of_nonpos (not_lt.mp hN) (show k + 1 ≤ 0 by omega)
        omega
      · rintro ⟨hN, -⟩
        have := mul_le_mul_of_nonpos_left (show k + 1 ≤ -2 by omega) hN.le
        omega
  · rw [egressBeats_of_no_further h]
    simp only [h, false_and, not_false_eq_true, and_true]
    by_cases hlow : C ≤ -8
    · have hneg := lastPixel_neg hlow
      rw [mul_pos_iff]
      omega
    · rw [lastPixel_eq_zero hC (by omega), mul_zero]
      simp [hlow]

/-- An exit tells a bad shape unless there are channels and both the rows and the columns
are below zero, or there are at least eight channels too few and one of the rows and the
columns is below zero, where the transfer that ends a pixel is not what is left. -/
theorem exits_iff_bad_shape_iff (C H W : ℤ) (hcvec : 0 < cvec) (l : List Event) :
    ((calulateEgressAxiTransfers C H W cvec l).1 = .error .egressTransferCalculation ↔
      C ≤ 0 ∨ H ≤ 0 ∨ W ≤ 0) ↔
    ¬(0 < C ∧ H < 0 ∧ W < 0) ∧
      ¬(C ≤ -8 ∧ H * W < 0 ∧ ¬((8 ∣ C ∧ ¬cvec ∣ C) ∧ (C = -8 ∨ C = -16 ∧ H * W = -1))) := by
  rw [exits_iff hcvec.ne', ← not_lt]
  rcases lt_or_ge 0 C with hC | hC
  · rw [egressBeats_pos_iff_of_pos hC, mul_pos_iff]
    omega
  · have hchannels : ¬0 < C := not_lt.mpr hC
    rw [egressBeats_pos_iff_of_nonpos hC]
    simp only [hC, hchannels, true_or, iff_true, false_and, not_false_eq_true, true_and]
    tauto

/-- Eight channels of -1 by -1 pixels are taken for an output of 16 bytes. -/
theorem exits_iff_bad_shape_minus_one :
    ¬∀ (C H W cvec : ℤ) (l : List Event), 0 < cvec →
      ((calulateEgressAxiTransfers C H W cvec l).1 = .error .egressTransferCalculation ↔
        C ≤ 0 ∨ H ≤ 0 ∨ W ≤ 0) := by
  intro h
  have hbeats : ¬egressBeats 8 (-1) (-1) 8 ≤ 0 := by decide
  exact hbeats ((exits_iff (l := []) (by decide)).mp
    ((h 8 (-1) (-1) 8 [] (by decide)).mpr (.inr (.inl (by decide)))))

theorem exits_iff_bad_shape_iff_good :
    (calulateEgressAxiTransfers 8 (-1) 1 8 []).1 = .error .egressTransferCalculation ↔
      (8 : ℤ) ≤ 0 ∨ (-1 : ℤ) ≤ 0 ∨ (1 : ℤ) ≤ 0 :=
  (exits_iff_bad_shape_iff 8 (-1) 1 (by decide) []).mpr (by decide)

end AlteraWorkshops.FpgaAi
