import AlteraWorkshops.Cnn.Expansion
import AlteraWorkshops.Cnn.FilterStream
import AlteraWorkshops.Cnn.PixelInput

/-! The way of a camera pixel into the first convolution: the interface, the three filters
of the network and the row expander. -/

namespace AlteraWorkshops.Cnn

open OneAi (CnnValue Ports)
open RowExpander (Spreads release released release_of_zero release_succ_of_ne)

/-! ### The components -/

/-- `Inverse_Filter_2`. -/
def inverseFilter2 (inp : ℕ → Sample) : ℕ → Sample :=
  filterOutput buffered (inverseProcess 3 (Fin.last 127)) () inp

/-- `Normalize_Filter_3`. -/
def normalizeFilter3 (inp : ℕ → Sample) : ℕ → Sample :=
  filterOutput buffered (normalizeProcess ⟨3, 3⟩) .initial inp

/-- `integer(real(127) * real(0.6274509803921569))` is 80. -/
def thresholdFilter4 (inp : ℕ → Sample) : ℕ → Sample :=
  filterOutput buffered (thresholdProcess ⟨3, Fin.last 127, 80, -1, .binary, -1, false⟩) () inp

/-- `oStream_Filter_Out` and `oData_Filter_Out`. -/
def filterOut (inp : ℕ → Sample) : ℕ → Sample :=
  thresholdFilter4 (normalizeFilter3 (inverseFilter2 inp))

/-- Nine taps and twelve filters take 109 cycles; `Expand_Cycles` asks for 110. -/
def expandCycles1 : ℕ := max (9 * 12 + 1) 110

def expander1 (inp : ℕ → Sample) : ℕ → Sample :=
  RowExpander.output (RowExpander.generics cameraFormat expandCycles1) inp

variable {inp : ℕ → Sample} {lead arrive : ℕ → ℕ} {word : ℕ → ℕ → CnnValues} {k : ℕ}

/-- The values of a pixel behind the filters. -/
def filteredWord (inp : ℕ → Sample) (arrive : ℕ → ℕ) (k _f : ℕ) : CnnValues :=
  (filterOut inp (arrive k + 9)).data

theorem filterOut_delivers {g : Format} (hc : g.cycles = 1)
    (hd : Delivers g inp lead arrive word) :
    Delivers g (filterOut inp) (fun k => lead k + 9) (fun k => arrive k + 9)
      (filteredWord inp arrive) := by
  have h1 := filterOutput_delivers (v := ()) (inverseProcess_streams 3 (Fin.last 127)) hd
  have h2 := filterOutput_delivers (v := NormalizeVars.initial) (normalizeProcess_streams ⟨3, 3⟩) h1
  have h3 := filterOutput_delivers (v := ())
    (thresholdProcess_streams ⟨3, Fin.last 127, 80, -1, .binary, -1, false⟩) h2
  refine ⟨h3.lead_le, h3.room, h3.stream, fun k f hf => ?_⟩
  obtain rfl : f = 0 := by omega
  rfl

/-! ### Positions that are ahead of their data -/

/-- A stream of frames whose positions show 108 cycles before their data, with the spacing
of the pixel reader. -/
structure Ahead (lead arrive : ℕ → ℕ) : Prop where
  lead : ∀ k, lead k + 108 = arrive k
  cached : ∀ k, arrive k + 109 ≤ arrive (k + 1)
  read : ∀ k, cameraFormat.column (k + 1) ≠ 0 → (k + 1) % 4 ≠ 3 → arrive k + 111 ≤ arrive (k + 1)

/-- How far the release of column `j` is ahead of its data at least: each word that is read
adds a cycle, and the fourth pixel, which needs no word, takes one back. -/
def head (j : ℕ) : ℕ := 2 * (j / 4) + if j % 4 = 3 then 1 else j % 4

theorem Ahead.release_le (h : Ahead lead arrive) (k : ℕ) :
    release cameraFormat expandCycles1 lead arrive k + head (cameraFormat.column k) ≤ arrive k := by
  induction k with
  | zero => exact le_rfl
  | succ k ih =>
    by_cases hcol : cameraFormat.column (k + 1) = 0
    · rw [release_of_zero hcol, hcol]
      exact le_rfl
    · obtain ⟨hsucc, -⟩ := Format.succ_of_column_ne hcol
      have hlt : cameraFormat.column (k + 1) < 128 := Nat.mod_lt _ (by decide)
      have hfour : (k + 1) % 4 = cameraFormat.column (k + 1) % 4 :=
        (Nat.mod_mod_of_dvd _ (by decide)).symm
      have hlead := h.lead (k + 1)
      have hcached := h.cached k
      have hread := h.read k hcol
      have hoc : expandCycles1 = 110 := rfl
      rw [release_succ_of_ne hcol]
      rw [hfour] at hread
      generalize cameraFormat.column (k + 1) = j at *
      rw [hoc] at ih ⊢
      subst hsucc
      unfold head at ih ⊢
      by_cases h3 : (cameraFormat.column k + 1) % 4 = 3
      · rw [if_pos h3]
        rw [if_neg (by omega)] at ih
        omega
      · have hspace := hread h3
        rw [if_neg h3]
        split_ifs at ih <;> omega

theorem Ahead.released_eq (h : Ahead lead arrive) (k f : ℕ) :
    released cameraFormat expandCycles1 lead arrive word k f =
      if cameraFormat.column k = 0 then word k f else word (k - 1) 0 := by
  unfold released
  by_cases hcol : cameraFormat.column k = 0
  · rw [if_pos (release_of_zero hcol).ge, if_pos hcol]
  · have hle := h.release_le k
    have hhead : 0 < head (cameraFormat.column k) := by
      unfold head
      split_ifs <;> omega
    rw [if_neg (by omega), if_neg hcol]
    rfl

theorem Ahead.spreads (h : Ahead lead arrive) (hd : Delivers cameraFormat inp lead arrive word) :
    Spreads cameraFormat expandCycles1 inp lead arrive := by
  refine ⟨by decide, Nat.zero_lt_one, by decide, fun k _ t ht => ?_, fun k hcol => ?_, .inl rfl⟩
  · have hlead := h.lead k
    have hroom := hd.room k
    rw [hd.stream k t (by omega) (by omega)]
    exact decide_eq_false (by omega)
  · have hle := h.release_le k
    have hroom := hd.room k
    omega

/-- Inside a row the frame goes on. -/
theorem mod_frameSize_ne (h : cameraFormat.column (k + 1) ≠ 0) : (k + 1) % OneAi.frameSize ≠ 0 := by
  unfold Format.column cameraFormat at h
  unfold OneAi.frameSize OneAi.frameHeight
  unfold OneAi.frameWidth at h ⊢
  dsimp only at h
  omega

/-- The pulses of the interface and their positions, behind the filters. -/
theorem ahead_pulses {g : OneAi.Generics} {inp : ℕ → Ports} (hs : Streaming g inp) :
    Ahead (fun k => positionAt g inp k + 9) (fun k => pulseAt g inp k + 9) := by
  refine ⟨fun k => ?_, fun k => ?_, fun k hcol h4 => ?_⟩
  · have hge := pulseAt_ge hs k
    unfold positionAt
    omega
  · have hspace := pulse_spacing hs k
    omega
  · have hspace := pulse_spacing_read hs (mod_frameSize_ne hcol) h4
    omega

/-- What the pixels of the interface are for the network: every row of the first convolution
starts with its first pixel twice, and its last one is never used. -/
theorem expander1_repeats_first {g : OneAi.Generics} {inp : ℕ → Ports}
    (hs : Streaming g inp) :
    ∃ time : ℕ → ℕ, Delivers cameraFormat (expander1 (filterOut (pixelInput g inp))) time time
      fun k f => filteredWord (pixelInput g inp) (pulseAt g inp)
        (if cameraFormat.column k = 0 then k else k - 1) f := by
  have hd := filterOut_delivers rfl (pixelInput_delivers hs)
  have hahead := ahead_pulses hs
  obtain ⟨h1, h2, h3, h4⟩ := RowExpander.delivers hd (hahead.spreads hd)
  refine ⟨_, h1, h2, h3, fun k f hf => ?_⟩
  refine (h4 k f hf).trans ?_
  rw [hahead.released_eq]
  split_ifs <;> rfl

theorem expander1_repeats_first_steady :
    ∃ time : ℕ → ℕ,
      Delivers cameraFormat (expander1 (filterOut (pixelInput ⟨0x80000, fun _ => 0⟩ steadyPorts)))
        time time fun k f => filteredWord (pixelInput ⟨0x80000, fun _ => 0⟩ steadyPorts)
          (pulseAt ⟨0x80000, fun _ => 0⟩ steadyPorts)
          (if cameraFormat.column k = 0 then k else k - 1) f :=
  expander1_repeats_first (steadyPorts_streaming _)

end AlteraWorkshops.Cnn
