import AlteraWorkshops.Cnn.FrontEnd
import AlteraWorkshops.Cnn.PooledLayer

/-! The first block of the network behind the camera interface: the filters, the first
convolution with its weights, and the pooling of its results. -/

namespace AlteraWorkshops.Cnn

open AlteraWorkshops.Cnn.Convolution (Fed imageResult resultTime resultValue sendTime)
open OneAi (Ports)
open Pooling (blockPixel lastTime)
open RowExpander (release released)

/-! ### Layer 1 -/

/-- `Layer_1` -/
def layer1 : List (List ℤ) :=
  [[-79, -84, -78, -31, 4, 74, 68, 37, 36, -3],
   [28, 61, 69, 2, 6, -30, -81, -124, -35, -1],
   [-40, -27, 23, -66, 73, -22, 79, 83, 40, 4],
   [-51, -27, -6, -25, -13, 41, -50, 14, -52, 1],
   [87, 5, 68, 29, -54, 94, -50, 27, -35, 1],
   [42, -13, -59, 51, -4, 32, 22, 61, 69, -11],
   [99, 26, -121, -41, 0, -41, -60, -5, -51, -1],
   [-26, 22, -85, -14, -39, -77, 117, 5, -85, 1],
   [67, 4, 72, 81, -1, 100, -28, -41, 41, -9],
   [-78, -45, 74, -88, -11, 86, 41, 27, 5, 3],
   [-41, 74, -64, -50, 56, 64, -82, 40, -104, 1],
   [110, -71, -67, 36, -99, -16, -15, 21, 10, -5]]

theorem layer1_range : ∀ r ∈ layer1, ∀ w ∈ r, (cnnWeight w).val = w := by decide

/-- The generics of `CNN_Convolution_1`. -/
def convolution1 : Convolution.Generics where
  inputColumns := 128
  inputRows := 128
  inputValues := 1
  filterColumns := 3
  filterRows := 3
  filters := 12
  strides := 1
  activation := .relu
  padding := .same
  inputCycles := 1
  valueCycles := 1
  calcCycles := 12
  filterCycles := 12
  filterDelay := 1
  expandCycles := 110
  offsetIn := 0
  offsetOut := 3
  offset := 0
  weights := fun f i => cnnWeight ((layer1.getD f []).getD i 0)

/-- The generics of `CNN_Pooling_1`. -/
def pooling1 : Pooling.Generics where
  inputColumns := 128
  inputRows := 128
  inputValues := 12
  filterColumns := 2
  filterRows := 2
  inputCycles := 12
  filterDelay := 1

theorem pooling1_eq : convolution1.pooling 2 2 = pooling1 := rfl

theorem pooling1_valid : pooling1.Valid := ⟨by decide, by decide, by decide, by decide, rfl⟩

theorem convolution1_valid : convolution1.Valid :=
  ⟨by decide, by decide, rfl, by decide, by decide, ⟨by decide, by decide, rfl, rfl⟩, by decide⟩

theorem convolution1_shifts : convolution1.Shifts :=
  ⟨⟨by decide, by decide, by decide⟩, ⟨rfl, by decide, by decide, by decide, by decide⟩⟩

theorem convolution1_sized : convolution1.Sized where
  filterRows := by decide
  filterColumns := by decide
  valueCycles := by decide
  calcCycles := by decide
  width := by decide
  strides := by decide
  height := by decide
  inputCycles := by decide
  cycles := by decide
  values := by decide
  filterWidth := by decide
  arrived := by decide
  middle := by decide
  filterHeight := by decide

/-! ### The image -/

/-- What the filters make of the pixels `x`. -/
def filteredImage (x : ℕ → Sample) : ℕ → Sample :=
  filterImage (thresholdProcess ⟨3, Fin.last 127, 80, -1, .binary, -1, false⟩) ()
    (filterImage (normalizeProcess ⟨3, 3⟩) .initial
      (filterImage (inverseProcess 3 (Fin.last 127)) () x))

/-- The image that the first convolution gets for the pixels `x`: each row starts with its
first pixel twice. -/
def seenImage (x : ℕ → Sample) (k _f : ℕ) : CnnValues :=
  (filteredImage x (if cameraFormat.column k = 0 then k else k - 1)).data

/-- The pixels of the interface, one after the other. -/
noncomputable def pixels (g : OneAi.Generics) (inp : ℕ → Ports) (k : ℕ) : Sample :=
  pixelInput g inp (pulseAt g inp k)

variable {g : OneAi.Generics} {inp : ℕ → Ports} {f r c k t : ℕ}

section Stream

variable (hs : Streaming g inp)

include hs in
/-- What the filters make of a pixel depends on the pixels alone and not on the edges. -/
theorem filterOut_pixels (k : ℕ) :
    filterOut (pixelInput g inp) (pulseAt g inp k + 9) = filteredImage (pixels g inp) k := by
  have hd := pixelInput_delivers hs
  have hq := pixelInput_quiet hs
  have hp1 := inverseProcess_streams 3 (Fin.last 127)
  have hp2 := normalizeProcess_streams ⟨3, 3⟩
  have hd1 := filterOutput_delivers (v := ()) hp1 hd
  have hq1 := filterOutput_quiet (v := ()) hp1 hq
  have hd2 := filterOutput_delivers (v := NormalizeVars.initial) hp2 hd1
  have hq2 := filterOutput_quiet (v := NormalizeVars.initial) hp2 hq1
  have h1 := fun k => filterOutput_arrive (v := ()) hp1 hd rfl hq k
  have h2 := fun k => filterOutput_arrive (v := NormalizeVars.initial) hp2 hd1 rfl hq1 k
  have h3 := filterOutput_arrive (v := ())
    (thresholdProcess_streams ⟨3, Fin.last 127, 80, -1, .binary, -1, false⟩) hd2 rfl hq2 k
  simp only [h1] at h2
  simp only [h2] at h3
  exact h3

/-- The edge with which pixel `k` goes to the row buffer of the first convolution. -/
noncomputable def sendTime1 (g : OneAi.Generics) (inp : ℕ → Ports) (k : ℕ) : ℕ :=
  sendTime convolution1 (fun k => positionAt g inp k + 9) (fun k => pulseAt g inp k + 9) k

/-- No two pixels go to the row buffer in the distance in which the position of a result
would be lost. -/
def Unheld (g : OneAi.Generics) (inp : ℕ → Ports) : Prop :=
  ∀ k, sendTime1 g inp (k + 1) ≠ sendTime1 g inp k + convolution1.hold

/-- That holds if no pixel of a row waits for its word for long. -/
theorem unheld_of_prompt (hs : Streaming g inp)
    (hp : ∀ k, cameraFormat.column (k + 1) ≠ 0 → pulseAt g inp (k + 1) ≤ pulseAt g inp k + 121) :
    Unheld g inp := by
  intro k
  have hahead := ahead_pulses hs
  have hle := hahead.release_le k
  have hhold : convolution1.hold = 122 := rfl
  have hoc : expandCycles1 = 110 := rfl
  have hge := RowExpander.lead_le_release expandCycles1
    (filterOut_delivers rfl (pixelInput_delivers hs)) k
  show release cameraFormat expandCycles1 _ _ (k + 1) + 3 ≠
    release cameraFormat expandCycles1 _ _ k + 3 + _
  rw [hhold]
  by_cases hcol : cameraFormat.column (k + 1) = 0
  · have hcolumn := (Format.succ_of_column_eq hcol).1
    have hspace := pulse_spacing hs k
    have hlast : cameraFormat.column k = 127 := by
      have hw : cameraFormat.width = 128 := rfl
      omega
    have hhead : head 127 = 63 := rfl
    rw [RowExpander.release_of_zero hcol]
    rw [hlast, hhead] at hle
    omega
  · have hprompt := hp k hcol
    have hlate := pulseAt_ge hs k
    have hlate' := pulseAt_ge hs (k + 1)
    rw [RowExpander.release_succ_of_ne hcol]
    unfold positionAt at *
    omega

include hs in
/-- The first convolution gets the images in time. -/
theorem fed1 (hu : Unheld g inp) : Fed convolution1 (filterOut (pixelInput g inp))
    (fun k => positionAt g inp k + 9) (fun k => pulseAt g inp k + 9)
    (filteredWord (pixelInput g inp) (pulseAt g inp)) := by
  have hd : Delivers cameraFormat _ _ _ _ := filterOut_delivers rfl (pixelInput_delivers hs)
  have hahead := ahead_pulses hs
  refine ⟨hd, hahead.spreads hd, ?_, ?_, fun k hcol => ?_, fun _ => ?_, fun _ => hu⟩
  · exact filterOutput_quiet (thresholdProcess_streams _)
      (filterOutput_quiet (normalizeProcess_streams _)
        (filterOutput_quiet (inverseProcess_streams _ _) (pixelInput_quiet hs)))
  · have hlate := pulseAt_ge hs 0
    have helements : convolution1.elements = 108 := rfl
    rw [helements]
    omega
  · have hle := hahead.release_le k
    have hspace := pulse_spacing hs k
    have helements : convolution1.elements = 108 := rfl
    rw [helements]
    show release cameraFormat expandCycles1 _ _ k + 108 < _
    omega
  · have hlate := pulse_late (pulse_pulseAt hs 0)
    have hhold : convolution1.hold = 122 := rfl
    rw [hhold]
    show pulseAt g inp 0 + 9 + 3 ≠ 122
    omega

include hs in
theorem released1 : released convolution1.format convolution1.outputCycles
      (fun k => positionAt g inp k + 9) (fun k => pulseAt g inp k + 9)
      (filteredWord (pixelInput g inp) (pulseAt g inp)) = seenImage (pixels g inp) := by
  funext k f
  refine ((ahead_pulses hs).released_eq k f).trans ?_
  unfold seenImage
  rw [← filterOut_pixels hs]
  split_ifs <;> rfl

end Stream

/-! ### The block -/

/-- `oStream_Pool_1` and `oData_Pool_1`. -/
def block1 (g : OneAi.Generics) (inp : ℕ → Ports) : ℕ → Sample :=
  Pooling.output pooling1 fun t =>
    Convolution.sample (Convolution.component convolution1 (filterOut (pixelInput g inp)) t)

/-- The edge with which the first convolution sends result `k` of pixel `m`. -/
noncomputable def resultTime1 (g : OneAi.Generics) (inp : ℕ → Ports) : ℕ → ℕ → ℕ :=
  resultTime convolution1 (fun k => positionAt g inp k + 9) (fun k => pulseAt g inp k + 9)

/-- The edge with which result `k` of the block in column `c` and row `r` of frame `f` goes
out. -/
noncomputable def blockTime1 (g : OneAi.Generics) (inp : ℕ → Ports) (f r c k : ℕ) : ℕ :=
  lastTime pooling1 (resultTime1 g inp) f r c k + 2

/-- The results of the first convolution come pixel after pixel. -/
theorem results1 (hs : Streaming g inp) (hu : Unheld g inp) : Pooling.Results pooling1
    (fun t => Convolution.sample
      (Convolution.component convolution1 (filterOut (pixelInput g inp)) t))
    (resultTime1 g inp) (resultValue convolution1 (seenImage (pixels g inp))) := by
  rw [← released1 hs, ← pooling1_eq]
  exact Convolution.pooling_results convolution1_valid convolution1_sized (fed1 hs hu)
    convolution1_shifts ⟨rfl, rfl⟩

theorem resultValue1_val (word : ℕ → ℕ → CnnValues) (m k : ℕ) :
    (resultValue convolution1 word m k 0).val = (imageResult convolution1 word m k 0).toNat := by
  have hle : imageResult convolution1 word m k 0 ≤ 127 := (Neuron.output_range _ _ _).2
  show (imageResult convolution1 word m k 0).toNat % 128 = _
  exact Nat.mod_eq_of_lt (by omega)

/-- What the first block of the network makes of the pixels of the interface: in each frame
each result for each two times two pixels once, under its position, and it is the largest
of the rescaled sums over the filtered image around these pixels. -/
theorem block1_pools (hs : Streaming g inp) (hu : Unheld g inp) :
    (∀ t, resultTime1 g inp 0 0 + 2 ≤ t → ((block1 g inp t).stream.dataValid = true ↔
      ∃ f r c k, r < 64 ∧ c < 64 ∧ k < 12 ∧ t = blockTime1 g inp f r c k)) ∧
    ∀ f r c k, r < 64 → c < 64 → k < 12 →
      (block1 g inp (blockTime1 g inp f r c k)).stream = ⟨c, r, k, true⟩ ∧
      ((block1 g inp (blockTime1 g inp f r c k)).data 0).val = (Finset.range 4).sup fun e =>
        (imageResult convolution1 (seenImage (pixels g inp)) (blockPixel pooling1 f r c e) k
          0).toNat := by
  have h := results1 hs hu
  constructor
  · intro t ht
    obtain ⟨t, rfl⟩ := Nat.exists_eq_add_of_le' (show 2 ≤ t by omega)
    refine (Pooling.output_dataValid_iff pooling1_valid h (t := t) (by omega)).trans ?_
    have hblocks : pooling1.blocks = 64 := rfl
    rw [hblocks]
    show (∃ f r c k, (r + 1) * 2 ≤ 128 ∧ c < 64 ∧ k < 12 ∧ _) ↔ _
    constructor
    · rintro ⟨f, r, c, k, hr, hc, hk, rfl⟩
      exact ⟨f, r, c, k, by omega, hc, hk, rfl⟩
    · rintro ⟨f, r, c, k, hr, hc, hk, ht⟩
      exact ⟨f, r, c, k, by omega, hc, hk, Nat.add_right_cancel ht⟩
  · intro f r c k hr hc hk
    have hrows : (r + 1) * pooling1.filterRows ≤ pooling1.inputRows := by
      show (r + 1) * 2 ≤ 128
      omega
    obtain ⟨hstream, hdata⟩ := Pooling.output_eq_blockMax pooling1_valid h f hrows hc hk
    refine ⟨hstream, (hdata 0).trans ?_⟩
    simp only [resultValue1_val]
    rfl

/-! ### A camera that never stops -/

theorem steadyPorts_unheld (g : OneAi.Generics) : Unheld g steadyPorts := by
  have hs := steadyPorts_streaming g
  refine unheld_of_prompt hs fun k hcol => ?_
  obtain ⟨hcached, hread, -⟩ := (nextPulse hs (mod_frameSize_ne hcol)).distance
  by_cases h3 : (OneAi.run g steadyPorts (pulseAt g steadyPorts k)).pixel.pixelAddr.toNat % 4 = 3
  · have hnext := hcached h3
    omega
  · have hnext := (hread h3).2.mpr rfl
    omega

theorem block1_pools_steady :
    (∀ t, resultTime1 ⟨0x80000, fun _ => 0⟩ steadyPorts 0 0 + 2 ≤ t →
      ((block1 ⟨0x80000, fun _ => 0⟩ steadyPorts t).stream.dataValid = true ↔
        ∃ f r c k, r < 64 ∧ c < 64 ∧ k < 12 ∧
          t = blockTime1 ⟨0x80000, fun _ => 0⟩ steadyPorts f r c k)) ∧
    ∀ f r c k, r < 64 → c < 64 → k < 12 →
      (block1 ⟨0x80000, fun _ => 0⟩ steadyPorts
          (blockTime1 ⟨0x80000, fun _ => 0⟩ steadyPorts f r c k)).stream = ⟨c, r, k, true⟩ ∧
      ((block1 ⟨0x80000, fun _ => 0⟩ steadyPorts
          (blockTime1 ⟨0x80000, fun _ => 0⟩ steadyPorts f r c k)).data 0).val =
        (Finset.range 4).sup fun e =>
          (imageResult convolution1 (seenImage (pixels ⟨0x80000, fun _ => 0⟩ steadyPorts))
            (blockPixel pooling1 f r c e) k 0).toNat :=
  block1_pools (steadyPorts_streaming _) (steadyPorts_unheld _)

end AlteraWorkshops.Cnn
