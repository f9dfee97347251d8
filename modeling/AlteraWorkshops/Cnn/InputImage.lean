import AlteraWorkshops.Cnn.FirstBlock
import AlteraWorkshops.Cnn.NormalizeImages
import Mathlib.Data.Rat.Floor
import Mathlib.Tactic.NormNum

/-! The black and white image that the network looks at: which pixels of the camera are
white in it. -/

namespace AlteraWorkshops.Cnn

open OneAi (Ports frameSize)

/-! ### The average of three channels -/

/-- The sum of the channels of a pixel. -/
def channelSum (d : CnnValues) : ℕ := (d 0).val + (d 1).val + (d 2).val

/-- One third is not taken for a power of two. -/
theorem third_ne_two_pow (m : ℤ) : (1 : ℚ) / (3 : ℕ) ≠ 2 ^ (10 * m) := by
  rcases Int.lt_or_le m 0 with hneg | hnonneg
  · have hle : (2 : ℚ) ^ (10 * m) ≤ 2 ^ (-10 : ℤ) := zpow_le_zpow_right₀ one_le_two (by omega)
    refine (hle.trans_lt ?_).ne'
    norm_num
  · have hone : (1 : ℚ) ≤ 2 ^ (10 * m) := one_le_zpow₀ one_le_two (by omega)
    refine (lt_of_lt_of_le ?_ hone).ne
    norm_num

/-- One third in seven fractional bits is 43. -/
theorem averageValue_three (d : CnnValues) : averageValue 3 d = channelSum d * 43 / 128 := by
  have hfactor : round ((1 : ℚ) / (3 : ℕ) * 2 ^ (cnnWeightResolution - 1)) = 43 := by
    rw [round_eq, Int.floor_eq_iff]
    unfold cnnWeightResolution
    norm_num
  have hsum : ((List.range 3).map fun c => (d c).val).sum = channelSum d := by
    unfold channelSum
    simp [List.range_succ, Nat.add_assoc]
  have h0 := (d 0).is_lt
  have h1 := (d 1).is_lt
  have h2 := (d 2).is_lt
  have hbits : 2 ^ (cnnValueResolution + Nat.clog 2 3 - 1 + 1) = 1024 := by decide
  have hlt : channelSum d < 1024 := by
    unfold channelSum
    omega
  unfold averageValue unsignedMultiplyEfficient
  rw [hsum, if_neg (third_ne_two_pow _), hfactor, hbits, Nat.mod_eq_of_lt hlt]
  rfl

theorem threshold_lt_iff (d : CnnValues) : 80 < averageValue 3 d ↔ 242 ≤ channelSum d := by
  rw [averageValue_three]
  omega

/-! ### The pixels -/

/-- The values behind `Inverse_Filter_2`. -/
def negative (x : ℕ → Sample) (k : ℕ) : CnnValues := fun c =>
  if c < 3 then ((x k).data c).rev else (x k).data c

/-- The values behind `Normalize_Filter_3`. -/
def normalized (x : ℕ → Sample) (k : ℕ) : CnnValues := fun c =>
  stretched 3 (frameMin 3 frameSize (negative x) ((k - 1) / frameSize))
    (frameMax 3 frameSize (negative x) ((k - 1) / frameSize)) (negative x k c).val

variable {g : OneAi.Generics} {inp : ℕ → Ports} {x : ℕ → Sample}

theorem filterImage_inverse (x : ℕ → Sample) (k : ℕ) :
    (filterImage (inverseProcess 3 (Fin.last 127)) () x k).data = negative x k := by
  funext c
  show (if c < 3 then _ else _) = if c < 3 then _ else _
  split_ifs
  · refine Fin.ext ?_
    show 127 - ((x k).data c).val = 128 - (((x k).data c).val + 1)
    omega
  · rfl

theorem filterImage_normalized (hx : Frames frameSize x) (k : ℕ) {c : ℕ} (hc : c < 3) :
    (filterImage (normalizeProcess ⟨3, 3⟩) .initial
      (filterImage (inverseProcess 3 (Fin.last 127)) () x) k).data c = normalized x k c := by
  have hframes : Frames frameSize (filterImage (inverseProcess 3 (Fin.last 127)) () x) :=
    ⟨fun k => hx.dataValid k, fun k => hx.first k⟩
  have himage := filterImage_normalize (c := ⟨3, 3⟩) (by decide) hframes k hc
  simp only [filterImage_inverse] at himage
  exact himage

/-- What `Threshold_Filter_4` makes of a pixel. -/
theorem filteredImage_data (hx : Frames frameSize x) (k : ℕ) :
    (filteredImage x k).data 0 = if 242 ≤ channelSum (normalized x k) then Fin.last 127 else 0 := by
  set y := filterImage (normalizeProcess ⟨3, 3⟩) .initial
    (filterImage (inverseProcess 3 (Fin.last 127)) () x)
  have hsum : channelSum (y k).data = channelSum (normalized x k) := by
    unfold channelSum
    rw [filterImage_normalized hx k (by decide), filterImage_normalized hx k (by decide),
      filterImage_normalized hx k (by decide)]
  rw [← hsum]
  show (if decide (80 < averageValue 3 (y k).data) = true then Fin.last 127 else 0) = _
  simp only [decide_eq_true_eq, threshold_lt_iff]

theorem frames_pixels (hs : Streaming g inp) : Frames frameSize (pixels g inp) :=
  frames_arrive (pixelInput_delivers hs) rfl (by decide)

/-- For every run of the interface the first convolution gets the pixel of each pulse as
white or black: white if the channels of the negative, stretched by the range of the frame
before, sum up to 242. -/
theorem white_iff (hs : Streaming g inp) (k : ℕ) :
    ((filterOut (pixelInput g inp) (pulseAt g inp k + 9)).data 0).val =
      if 242 ≤ channelSum (normalized (pixels g inp) k) then 127 else 0 := by
  rw [filterOut_pixels hs, filteredImage_data (frames_pixels hs)]
  split_ifs <;> rfl

theorem white_iff_steady :
    ((filterOut (pixelInput ⟨0x80000, fun _ => 0⟩ steadyPorts)
        (pulseAt ⟨0x80000, fun _ => 0⟩ steadyPorts 129 + 9)).data 0).val =
      if 242 ≤ channelSum (normalized (pixels ⟨0x80000, fun _ => 0⟩ steadyPorts) 129) then 127
      else 0 :=
  white_iff (steadyPorts_streaming _) 129

end AlteraWorkshops.Cnn
