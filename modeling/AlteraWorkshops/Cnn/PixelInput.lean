import AlteraWorkshops.Cnn.Delivery
import AlteraWorkshops.OneAi.PixelSpacing
import Mathlib.Data.Nat.Nth

/-! The stream that `ONE_AI_Interface` feeds to the network. The pixel reader counts on
with every pulse, and it sets the column and the row of a pixel when it extracts it, 108
cycles before the pulse. -/

namespace AlteraWorkshops.Cnn

open OneAi (Ports PixelEdge PixelRegs frameSize lastPixel pixelDelayCycles)

/-! ### The ports of the network -/

/-- `iStream` and `iData_1`. -/
def pixelSample (r : PixelRegs) : Sample where
  stream := ⟨r.pixelColumn, r.pixelRow, 0, r.pixelValid⟩
  data := fun i =>
    if i = 0 then Fin.ofNat 128 r.pixelR
    else if i = 1 then Fin.ofNat 128 r.pixelG
    else Fin.ofNat 128 r.pixelB

def pixelInput (g : OneAi.Generics) (inp : ℕ → Ports) (t : ℕ) : Sample :=
  pixelSample (OneAi.run g inp t).pixel

/-- The frames of the interface: one edge for the three values of a pixel. -/
def cameraFormat : Format := ⟨OneAi.frameWidth, OneAi.frameHeight, 1⟩

/-- The pulse of `pixel_valid` in cycle `t`. -/
def Pulse (g : OneAi.Generics) (inp : ℕ → Ports) (t : ℕ) : Prop :=
  (OneAi.run g inp t).pixel.pixelValid = true

instance (g : OneAi.Generics) (inp : ℕ → Ports) : DecidablePred (Pulse g inp) :=
  fun _ => inferInstanceAs (Decidable (_ = true))

/-- Out of reset, with frames that keep coming. -/
structure Streaming (g : OneAi.Generics) (inp : ℕ → Ports) : Prop where
  resetN : ∀ t, (inp t).resetN = true
  pulses : {t | Pulse g inp t}.Infinite

/-- The cycle of pulse `k`. -/
noncomputable def pulseAt (g : OneAi.Generics) (inp : ℕ → Ports) (k : ℕ) : ℕ :=
  Nat.nth (Pulse g inp) k

/-- The first cycle in which the position of pulse `k` shows. -/
noncomputable def positionAt (g : OneAi.Generics) (inp : ℕ → Ports) (k : ℕ) : ℕ :=
  pulseAt g inp k - 108

variable {g : OneAi.Generics} {inp : ℕ → Ports} {k t u : ℕ}

/-! ### Counting pixels -/

/-- The pulses up to and including cycle `t`. -/
def pulsesUpTo (g : OneAi.Generics) (inp : ℕ → Ports) (t : ℕ) : ℕ :=
  Nat.count (Pulse g inp) (t + 1)

theorem pulsesUpTo_succ (t : ℕ) :
    pulsesUpTo g inp (t + 1) = pulsesUpTo g inp t + if Pulse g inp (t + 1) then 1 else 0 :=
  Nat.count_succ _ _

/-- The pixel counter is the number of the pulses in the frame. -/
def Numbered (r : PixelRegs) (n : ℕ) : Prop :=
  if r.state = .idleState then n % frameSize = 0 else r.pixelAddr.toNat = n % frameSize

theorem toNat_succ_of_ne_last {a : BitVec 14} (h : a ≠ lastPixel) :
    (a + 1).toNat = a.toNat + 1 := by
  have hlt := a.isLt
  have hne : a.toNat ≠ 16383 := fun heq => h (BitVec.eq_of_toNat_eq heq)
  have hone : (1 : BitVec 14).toNat = 1 := rfl
  rw [BitVec.toNat_add, hone]
  exact Nat.mod_eq_of_lt (by omega)

theorem numbered_edge {s : OneAi.State} {i : Ports} {r : PixelRegs} {n : ℕ}
    (hn : i.resetN = true) (he : PixelEdge g s i r) (h : Numbered s.pixel n) :
    Numbered r (n + if r.pixelValid = true then 1 else 0) := by
  unfold Numbered at h ⊢
  have hframe := OneAi.extractBytes_frame { s.pixel with pixelValid := false }
  cases he with
  | reset hr =>
    rw [hn] at hr
    cases hr
  | idle hs | wait hs | accept hs | leave hs | recapture hs =>
    simpa [hs] using h
  | start hs =>
    rw [if_pos hs] at h
    simpa using h.symm
  | extract hs =>
    rw [hs] at h
    simpa [hframe.2.1, hframe.2.2.2] using h
  | delay hs =>
    rw [hs] at h
    simpa [hs] using h
  | emitLast hs hc ha =>
    rw [hs] at h
    simp only [reduceCtorEq, if_false, ha] at h
    have hlast : lastPixel.toNat = frameSize - 1 := rfl
    simp only [if_true]
    rw [hlast] at h
    unfold frameSize OneAi.frameWidth OneAi.frameHeight at h ⊢
    omega
  | emitCached hs hc ha | emitRead hs hc ha =>
    rw [hs] at h
    simp only [reduceCtorEq, if_false] at h ⊢
    have hlt := (s.pixel.pixelAddr + 1).isLt
    have hnext := toNat_succ_of_ne_last ha
    simp only [if_true]
    unfold frameSize OneAi.frameWidth OneAi.frameHeight at h ⊢
    omega

theorem numbered_run (hs : Streaming g inp) (t : ℕ) :
    Numbered (OneAi.run g inp t).pixel (pulsesUpTo g inp t) := by
  induction t with
  | zero => rfl
  | succ t ih =>
    rw [pulsesUpTo_succ]
    exact numbered_edge (hs.resetN t) (OneAi.pixelProcess_edge g _ _) ih

/-! ### Positions -/

/-- In the delay the position of the pixel has shown since its extraction, without a
pulse. -/
structure Held (g : OneAi.Generics) (inp : ℕ → Ports) (t c : ℕ) : Prop where
  count : c ≤ pixelDelayCycles
  after : c + 1 ≤ t
  shows : ∀ v, t - c ≤ v → v ≤ t →
    (OneAi.run g inp v).pixel.pixelColumn =
        (OneAi.run g inp t).pixel.pixelAddr.toNat % OneAi.frameWidth ∧
      (OneAi.run g inp v).pixel.pixelRow =
        (OneAi.run g inp t).pixel.pixelAddr.toNat / OneAi.frameWidth ∧ ¬Pulse g inp v

theorem held_run (t : ℕ) (h : (OneAi.run g inp t).pixel.state = .pixelDelayState) :
    Held g inp t (OneAi.run g inp t).pixel.cycleCounter := by
  induction t with
  | zero => cases h
  | succ t ih =>
    have he := OneAi.pixelProcess_edge g (OneAi.run g inp t) (inp t)
    rw [← OneAi.run_pixel_succ] at he
    have hself : ∀ v, t + 1 ≤ v → v ≤ t + 1 → v = t + 1 := fun v h1 h2 => by omega
    generalize hr : (OneAi.run g inp (t + 1)).pixel = r at he h
    cases he with
    | reset | start | leave | recapture | emitLast | emitCached | emitRead => cases h
    | idle hs | wait hs | accept hs =>
      rw [hs] at h
      cases h
    | extract hs =>
      have hframe := OneAi.extractBytes_frame { (OneAi.run g inp t).pixel with pixelValid := false }
      refine ⟨Nat.zero_le _, Nat.succ_le_succ (Nat.zero_le t), fun v h1 h2 => ?_⟩
      obtain rfl := hself v h1 h2
      unfold Pulse
      rw [hr]
      refine ⟨?_, ?_, ?_⟩
      · exact congrArg (fun a : BitVec 14 => a.toNat % OneAi.frameWidth) hframe.2.1.symm
      · exact congrArg (fun a : BitVec 14 => a.toNat / OneAi.frameWidth) hframe.2.1.symm
      · exact fun hv => Bool.false_ne_true (hframe.2.2.2.symm.trans hv)
    | delay hs hc =>
      obtain ⟨-, h2, h3⟩ := ih hs
      refine ⟨hc, Nat.succ_le_succ h2, fun v hv1 hv2 => ?_⟩
      rcases Nat.lt_or_ge t v with hlt | hge
      · obtain rfl := hself v hlt hv2
        have hold := h3 t (Nat.sub_le _ _) le_rfl
        unfold Pulse
        rw [hr]
        exact ⟨hold.1, hold.2.1, Bool.false_ne_true⟩
      · rw [hr]
        exact h3 v (by dsimp only at hv1; omega) hge

/-- A pulse comes 108 cycles after its position. -/
theorem pulse_held (h : Pulse g inp u) :
    109 ≤ u ∧ (∀ v, u - 108 ≤ v → v ≤ u →
      (OneAi.run g inp v).pixel.pixelColumn =
          (OneAi.run g inp (u - 1)).pixel.pixelAddr.toNat % OneAi.frameWidth ∧
        (OneAi.run g inp v).pixel.pixelRow =
          (OneAi.run g inp (u - 1)).pixel.pixelAddr.toNat / OneAi.frameWidth) ∧
      (∀ v, u - 108 ≤ v → v < u → ¬Pulse g inp v) ∧
      (OneAi.run g inp (u - 1)).pixel.state = .pixelDelayState := by
  cases u with
  | zero => cases h
  | succ t =>
    have he := OneAi.pixelProcess_edge g (OneAi.run g inp t) (inp t)
    rw [← OneAi.run_pixel_succ] at he
    unfold Pulse at h
    have hold : ∀ r' : PixelRegs, (OneAi.extractBytes r').pixelValid = r'.pixelValid :=
      fun r' => (OneAi.extractBytes_frame r').2.2.2
    have hemit (hs : (OneAi.run g inp t).pixel.state = .pixelDelayState)
        (hc : pixelDelayCycles ≤ (OneAi.run g inp t).pixel.cycleCounter)
        (hcol : (OneAi.run g inp (t + 1)).pixel.pixelColumn =
          (OneAi.run g inp t).pixel.pixelColumn)
        (hrow : (OneAi.run g inp (t + 1)).pixel.pixelRow = (OneAi.run g inp t).pixel.pixelRow) :
        109 ≤ t + 1 ∧ (∀ v, t + 1 - 108 ≤ v → v ≤ t + 1 →
          (OneAi.run g inp v).pixel.pixelColumn =
              (OneAi.run g inp t).pixel.pixelAddr.toNat % OneAi.frameWidth ∧
            (OneAi.run g inp v).pixel.pixelRow =
              (OneAi.run g inp t).pixel.pixelAddr.toNat / OneAi.frameWidth) ∧
          (∀ v, t + 1 - 108 ≤ v → v < t + 1 → ¬Pulse g inp v) ∧
          (OneAi.run g inp t).pixel.state = .pixelDelayState := by
      obtain ⟨h1, h2, h3⟩ := held_run t hs
      unfold pixelDelayCycles at h1 hc
      have hlast := h3 t (Nat.sub_le _ _) le_rfl
      refine ⟨by omega, fun v hv1 hv2 => ?_, fun v hv1 hv2 => (h3 v (by omega) (by omega)).2.2, hs⟩
      rcases Nat.lt_or_ge t v with hlt | hge
      · obtain rfl : v = t + 1 := by omega
        rw [hcol, hrow]
        exact ⟨hlast.1, hlast.2.1⟩
      · have hv := h3 v (by omega) hge
        exact ⟨hv.1, hv.2.1⟩
    generalize hr : (OneAi.run g inp (t + 1)).pixel = r at he h hemit
    cases he with
    | reset | idle | start | wait | accept | leave | recapture | delay => cases h
    | extract =>
      rw [hold] at h
      cases h
    | emitLast hs hc | emitCached hs hc | emitRead hs hc => exact hemit hs hc rfl rfl

/-- Only an extraction changes the position. -/
theorem position_edge {s : OneAi.State} {i : Ports} {r : PixelRegs} (hn : i.resetN = true)
    (he : PixelEdge g s i r) (hs : s.pixel.state ≠ .extractPixelState) :
    r.pixelColumn = s.pixel.pixelColumn ∧ r.pixelRow = s.pixel.pixelRow := by
  cases he with
  | reset hr =>
    rw [hn] at hr
    cases hr
  | extract hx => exact absurd hx hs
  | idle | start | wait | accept | leave | recapture | delay | emitLast | emitCached | emitRead =>
    exact ⟨rfl, rfl⟩

/-! ### Pulse after pulse -/

section Pulses

variable (hs : Streaming g inp)

include hs in
theorem pulse_pulseAt (k : ℕ) : Pulse g inp (pulseAt g inp k) := Nat.nth_mem_of_infinite hs.pulses k

include hs in
theorem pulseAt_strictMono : StrictMono (pulseAt g inp) := Nat.nth_strictMono hs.pulses

include hs in
theorem pulseAt_ge (k : ℕ) : 109 ≤ pulseAt g inp k := (pulse_held (pulse_pulseAt hs k)).1

include hs in
theorem not_pulse_between (h1 : pulseAt g inp k < t) (h2 : t < pulseAt g inp (k + 1)) :
    ¬Pulse g inp t := by
  intro h
  rw [pulseAt] at h1 h2
  have hcount : Nat.nth (Pulse g inp) (Nat.count (Pulse g inp) t) = t := Nat.nth_count h
  rw [← hcount, Nat.nth_lt_nth hs.pulses] at h1 h2
  omega

include hs in
theorem pulsesUpTo_pulseAt (k : ℕ) : pulsesUpTo g inp (pulseAt g inp k - 1) = k := by
  have hge := pulseAt_ge hs k
  rw [pulsesUpTo, Nat.sub_add_cancel (by omega), pulseAt, Nat.count_nth_of_infinite hs.pulses]

include hs in
/-- Pulse `k` belongs to pixel `k` of the frames, one after the other. -/
theorem pixelAddr_pulseAt (k : ℕ) :
    (OneAi.run g inp (pulseAt g inp k - 1)).pixel.pixelAddr.toNat = k % frameSize := by
  have h := numbered_run hs (pulseAt g inp k - 1)
  rw [pulsesUpTo_pulseAt hs, Numbered, (pulse_held (pulse_pulseAt hs k)).2.2.2] at h
  simpa using h

include hs in
/-- The position of a pulse shows after the pulse before it. -/
theorem pulseAt_lt_positionAt (k : ℕ) : pulseAt g inp k < positionAt g inp (k + 1) := by
  have hlt : pulseAt g inp k < pulseAt g inp (k + 1) := pulseAt_strictMono hs (Nat.lt_succ_self k)
  by_contra hle
  exact (pulse_held (pulse_pulseAt hs (k + 1))).2.2.1 _ (not_lt.mp hle) hlt (pulse_pulseAt hs k)

include hs in
/-- A position stays until that of the next pulse. -/
theorem position_stays (h1 : pulseAt g inp k ≤ t) (h2 : t < positionAt g inp (k + 1)) :
    (OneAi.run g inp t).pixel.pixelColumn =
        (OneAi.run g inp (pulseAt g inp k)).pixel.pixelColumn ∧
      (OneAi.run g inp t).pixel.pixelRow =
        (OneAi.run g inp (pulseAt g inp k)).pixel.pixelRow := by
  induction t, h1 using Nat.le_induction with
  | base => exact ⟨rfl, rfl⟩
  | succ t ht ih =>
    obtain ⟨hcol, hrow⟩ := ih (by omega)
    have hx : (OneAi.run g inp t).pixel.state ≠ .extractPixelState := by
      intro hx
      obtain ⟨-, hpulse, -⟩ := OneAi.pulse_of_extract hx fun v _ _ => hs.resetN v
      unfold positionAt at h2
      exact not_pulse_between hs (k := k) (t := t + 109) (by omega) (by omega) hpulse
    have hedge := position_edge (hs.resetN t)
      (OneAi.pixelProcess_edge g (OneAi.run g inp t) (inp t)) hx
    rw [OneAi.run_pixel_succ]
    exact ⟨hedge.1.trans hcol, hedge.2.trans hrow⟩

/-- The values of pulse `k`. -/
noncomputable def pulseWord (g : OneAi.Generics) (inp : ℕ → Ports) (k _f : ℕ) : CnnValues :=
  (pixelInput g inp (pulseAt g inp k)).data

include hs in
/-- The pulses of the interface deliver its frames, each position 108 cycles ahead. -/
theorem pixelInput_delivers :
    Delivers cameraFormat (pixelInput g inp) (positionAt g inp) (pulseAt g inp)
      (pulseWord g inp) := by
  refine ⟨fun k => Nat.sub_le _ _, fun k => pulseAt_lt_positionAt hs k, fun k t h1 h2 => ?_,
    fun k f hf => ?_⟩
  · have hheld := pulse_held (pulse_pulseAt hs k)
    have haddr := pixelAddr_pulseAt hs k
    rw [haddr] at hheld
    have hnow := hheld.2.1 (pulseAt g inp k) (Nat.sub_le _ _) le_rfl
    have hposition : (OneAi.run g inp t).pixel.pixelColumn = k % frameSize % OneAi.frameWidth ∧
        (OneAi.run g inp t).pixel.pixelRow = k % frameSize / OneAi.frameWidth := by
      rcases Nat.lt_or_ge (pulseAt g inp k) t with hlt | hge
      · obtain ⟨hcol, hrow⟩ := position_stays hs hlt.le h2
        exact ⟨hcol.trans hnow.1, hrow.trans hnow.2⟩
      · exact hheld.2.1 t h1 hge
    have hvalid : (OneAi.run g inp t).pixel.pixelValid = true ↔ t = pulseAt g inp k := by
      constructor
      · intro hv
        rcases lt_trichotomy t (pulseAt g inp k) with hlt | heq | hgt
        · exact absurd hv (hheld.2.2.1 t h1 hlt)
        · exact heq
        · have hnext : positionAt g inp (k + 1) ≤ pulseAt g inp (k + 1) := Nat.sub_le _ _
          exact absurd hv (not_pulse_between hs hgt (by omega))
      · rintro rfl
        exact pulse_pulseAt hs k
    have hcolumn : k % frameSize % OneAi.frameWidth = cameraFormat.column k := by
      unfold Format.column cameraFormat frameSize OneAi.frameWidth OneAi.frameHeight
      dsimp only
      omega
    have hrow : k % frameSize / OneAi.frameWidth = cameraFormat.row k := by
      unfold Format.row cameraFormat frameSize OneAi.frameWidth OneAi.frameHeight
      dsimp only
      omega
    have hfilter : min (t - pulseAt g inp k) (cameraFormat.cycles - 1) = 0 := Nat.min_zero _
    have hdecide : (OneAi.run g inp t).pixel.pixelValid =
        decide (pulseAt g inp k ≤ t ∧ t < pulseAt g inp k + cameraFormat.cycles) := by
      rw [Bool.eq_iff_iff, hvalid, decide_eq_true_iff]
      show _ ↔ _ ∧ t < pulseAt g inp k + 1
      omega
    show CnnStream.mk _ _ _ _ = _
    rw [hposition.1, hposition.2, hcolumn, hrow, hfilter, hdecide]
  · obtain rfl : f = 0 := Nat.lt_one_iff.mp hf
    rfl

/-! ### The first pixel -/

/-- The first word is read before anything is extracted. -/
theorem extract_late (h : (OneAi.run g inp t).pixel.state = .extractPixelState) : 2 ≤ t := by
  rcases t with _ | _ | t
  · cases h
  · exfalso
    have he := OneAi.pixelProcess_edge g (OneAi.run g inp 0) (inp 0)
    rw [← OneAi.run_pixel_succ] at he
    generalize (OneAi.run g inp (0 + 1)).pixel = r at he h
    cases he with
    | reset | start | extract | emitLast | emitRead => cases h
    | idle hs => cases hs.symm.trans h
    | wait hs | accept hs | leave hs | recapture hs | delay hs | emitCached hs => cases hs
  · omega

theorem delay_late (t : ℕ) (h : (OneAi.run g inp t).pixel.state = .pixelDelayState) :
    (OneAi.run g inp t).pixel.cycleCounter + 3 ≤ t := by
  induction t with
  | zero => cases h
  | succ t ih =>
    have he := OneAi.pixelProcess_edge g (OneAi.run g inp t) (inp t)
    rw [← OneAi.run_pixel_succ] at he
    generalize (OneAi.run g inp (t + 1)).pixel = r at he h
    cases he with
    | reset | start | leave | recapture | emitLast | emitCached | emitRead => cases h
    | idle hs | wait hs | accept hs =>
      rw [hs] at h
      cases h
    | extract hs =>
      have hlate := extract_late hs
      dsimp only
      omega
    | delay hs =>
      have hlate := ih hs
      dsimp only
      omega

theorem pulse_late (h : Pulse g inp u) : 111 ≤ u := by
  cases u with
  | zero => cases h
  | succ t =>
    have hs := (pulse_held h).2.2.2
    have he := OneAi.pixelProcess_edge g (OneAi.run g inp t) (inp t)
    rw [← OneAi.run_pixel_succ] at he
    unfold Pulse at h
    generalize (OneAi.run g inp (t + 1)).pixel = r at he h
    rw [Nat.add_sub_cancel] at hs
    have hlate := delay_late t hs
    cases he with
    | emitLast _ hc | emitCached _ hc | emitRead _ hc =>
      unfold pixelDelayCycles at hc
      omega
    | reset | delay => cases h
    | idle hx | start hx | wait hx | accept hx | leave hx | recapture hx | extract hx =>
      cases hs.symm.trans hx

theorem not_pulse_before (h : t < pulseAt g inp 0) : ¬Pulse g inp t := by
  rw [pulseAt, Nat.nth_zero] at h
  exact Nat.notMem_of_lt_sInf h

include hs in
/-- Before the first pixel the interface shows column 0 and no pulse. -/
theorem pixelInput_quiet : Quiet (pixelInput g inp) (positionAt g inp) := by
  intro t ht
  unfold positionAt at ht
  refine ⟨Bool.eq_false_of_not_eq_true (not_pulse_before (by omega)), ?_⟩
  show (OneAi.run g inp t).pixel.pixelColumn = 0
  induction t with
  | zero => rfl
  | succ t ih =>
    have hx : (OneAi.run g inp t).pixel.state ≠ .extractPixelState := by
      intro hx
      obtain ⟨-, hpulse, -⟩ := OneAi.pulse_of_extract hx fun v _ _ => hs.resetN v
      exact not_pulse_before (t := t + 109) (by omega) hpulse
    rw [OneAi.run_pixel_succ, (position_edge (hs.resetN t)
      (OneAi.pixelProcess_edge g (OneAi.run g inp t) (inp t)) hx).1]
    exact ih (by omega)

/-! ### Spacing -/

include hs in
theorem pulsesUpTo_between (h1 : pulseAt g inp k ≤ t) (h2 : t < pulseAt g inp (k + 1)) :
    pulsesUpTo g inp t = k + 1 := by
  have hlow : k < pulsesUpTo g inp t :=
    (Nat.lt_nth_iff_count_lt hs.pulses).mpr (Nat.lt_succ_of_le h1)
  have hhigh : pulsesUpTo g inp t ≤ k + 1 := (Nat.count_le_iff_le_nth hs.pulses).mpr h2
  omega

include hs in
/-- Inside a frame the reader is busy from one pulse to the next. -/
theorem nextPulse (hk : (k + 1) % frameSize ≠ 0) :
    OneAi.NextPulse g inp (pulseAt g inp k) (pulseAt g inp (k + 1)) := by
  refine ⟨pulseAt_strictMono hs (Nat.lt_succ_self k), pulse_pulseAt hs k,
    pulse_pulseAt hs (k + 1), fun t h1 h2 => ?_, fun t h1 h2 hidle => ?_⟩
  · exact Bool.eq_false_of_not_eq_true (not_pulse_between hs h1 h2)
  · have h := numbered_run hs t
    rw [pulsesUpTo_between hs h1 h2, Numbered, if_pos hidle] at h
    exact hk h

include hs in
theorem pulse_spacing (k : ℕ) : pulseAt g inp k + 109 ≤ pulseAt g inp (k + 1) := by
  have h := pulseAt_lt_positionAt hs k
  unfold positionAt at h
  omega

include hs in
/-- Three of four pixels wait for a word. -/
theorem pulse_spacing_read (hk : (k + 1) % frameSize ≠ 0) (h4 : (k + 1) % 4 ≠ 3) :
    pulseAt g inp k + 111 ≤ pulseAt g inp (k + 1) := by
  have hnext := nextPulse hs hk
  have h := numbered_run hs (pulseAt g inp k)
  have hbusy := hnext.frame _ le_rfl hnext.lt
  rw [pulsesUpTo_between hs le_rfl hnext.lt, Numbered, if_neg hbusy] at h
  refine (hnext.distance.2.1 ?_).1
  rw [h]
  unfold frameSize OneAi.frameWidth OneAi.frameHeight
  omega

end Pulses

/-! ### A camera that never stops -/

/-- A frame is finished every other cycle, and the memory answers at once. -/
def steadyPorts (t : ℕ) : Ports := { Ports.silent with frameWriterIrq := t % 2 == 1 }

theorem irqD_steady (g : OneAi.Generics) (t : ℕ) :
    (OneAi.run g steadyPorts (t + 1)).irq.frameWriterIrqD = (t % 2 == 1) := by
  have hn : (steadyPorts t).resetN = true := rfl
  have hirq : (steadyPorts t).frameWriterIrq = (t % 2 == 1) := rfl
  show (OneAi.irqProcess (OneAi.run g steadyPorts t) (steadyPorts t)).frameWriterIrqD = _
  unfold OneAi.irqProcess
  rw [hn, hirq]
  cases OneAi.risingEdge (OneAi.run g steadyPorts t) (steadyPorts t) <;>
    cases OneAi.readingFirstWord (OneAi.run g steadyPorts t) <;> rfl

/-- After every odd cycle a frame is there, unless its first word is being read. -/
theorem newFrame_steady (g : OneAi.Generics) {t : ℕ} (ht : t % 2 = 1)
    (hs : (OneAi.run g steadyPorts t).pixel.state = .idleState) :
    (OneAi.run g steadyPorts (t + 1)).irq.newFrameAvailable = true := by
  obtain ⟨u, rfl⟩ : ∃ u, t = u + 1 := ⟨t - 1, by omega⟩
  have hd := irqD_steady g u
  have hlow : (u % 2 == 1) = false := by simp; omega
  have hhigh : (steadyPorts (u + 1)).frameWriterIrq = true := by
    simp only [steadyPorts, beq_iff_eq]
    exact ht
  have hn : (steadyPorts (u + 1)).resetN = true := rfl
  have hfirst : OneAi.readingFirstWord (OneAi.run g steadyPorts (u + 1)) = false := by
    simp [OneAi.readingFirstWord, hs]
  have hrise : OneAi.risingEdge (OneAi.run g steadyPorts (u + 1)) (steadyPorts (u + 1)) =
      true := by
    rw [OneAi.risingEdge, hd, hlow, hhigh]
    rfl
  show (OneAi.irqProcess (OneAi.run g steadyPorts (u + 1))
    (steadyPorts (u + 1))).newFrameAvailable = true
  unfold OneAi.irqProcess
  rw [hn, hrise, hfirst]
  rfl

theorem steadyPorts_resetN (t : ℕ) : (steadyPorts t).resetN = true := rfl

theorem pulse_of_reading (g : OneAi.Generics)
    (hs : (OneAi.run g steadyPorts t).pixel.state = .readWordState) :
    ∃ u, t ≤ u ∧ Pulse g steadyPorts u := by
  have hextract (u : ℕ) (hu : (OneAi.run g steadyPorts u).pixel.state = .extractPixelState) :
      Pulse g steadyPorts (u + 109) :=
    (OneAi.pulse_of_extract hu fun v _ _ => steadyPorts_resetN v).2.1
  have hleave (u : ℕ) (hu : (OneAi.run g steadyPorts u).pixel.state = .readWordState)
      (hr : (OneAi.run g steadyPorts u).pixel.avmRead = false) :
      Pulse g steadyPorts (u + 1 + 109) :=
    hextract (u + 1) (OneAi.withdrawn_pixel (steadyPorts_resetN u) hu hr).1
  cases hr : (OneAi.run g steadyPorts t).pixel.avmRead with
  | false => exact ⟨t + 1 + 109, by omega, hleave t hs hr⟩
  | true =>
    have hpixel : (OneAi.run g steadyPorts (t + 1)).pixel = _ :=
      OneAi.accept_pixel (g := g) (steadyPorts_resetN t) hs hr rfl
    refine ⟨t + 2 + 109, by omega, hleave (t + 1) ?_ ?_⟩
    · rw [hpixel]
      exact hs
    · rw [hpixel]

theorem pulse_of_idle (g : OneAi.Generics)
    (hs : (OneAi.run g steadyPorts t).pixel.state = .idleState) :
    ∃ u, t ≤ u ∧ Pulse g steadyPorts u := by
  have hstart (u : ℕ) (hu : (OneAi.run g steadyPorts u).pixel.state = .idleState)
      (hf : (OneAi.run g steadyPorts u).irq.newFrameAvailable = true) :
      (OneAi.run g steadyPorts (u + 1)).pixel.state = .readWordState := by
    rw [OneAi.run_pixel_succ]
    simp [OneAi.pixelProcess, steadyPorts_resetN, hu, hf]
  have hidle (u : ℕ) (hu : (OneAi.run g steadyPorts u).pixel.state = .idleState)
      (hf : (OneAi.run g steadyPorts u).irq.newFrameAvailable = false) :
      (OneAi.run g steadyPorts (u + 1)).pixel.state = .idleState := by
    rw [OneAi.run_pixel_succ]
    simp [OneAi.pixelProcess, steadyPorts_resetN, hu, hf]
  -- a frame is there in one of the next three cycles
  by_contra hnone
  have hno (u : ℕ) (hu : t ≤ u) (hi : (OneAi.run g steadyPorts u).pixel.state = .idleState) :
      (OneAi.run g steadyPorts u).irq.newFrameAvailable = false := by
    by_contra hf
    obtain ⟨w, hw, hpulse⟩ := pulse_of_reading g (hstart u hi (Bool.eq_true_of_not_eq_false hf))
    exact hnone ⟨w, by omega, hpulse⟩
  have h0 := hno t le_rfl hs
  have hi1 := hidle t hs h0
  have h1 := hno (t + 1) (by omega) hi1
  have hi2 := hidle (t + 1) hi1 h1
  have h2 := hno (t + 2) (by omega) hi2
  rcases Nat.mod_two_eq_zero_or_one t with ht | ht
  · have hframe := newFrame_steady g (t := t + 1) (by omega) hi1
    rw [h2] at hframe
    cases hframe
  · have hframe := newFrame_steady g ht hs
    rw [h1] at hframe
    cases hframe

theorem pulse_of_delay (g : OneAi.Generics) {n : ℕ}
    (hs : (OneAi.run g steadyPorts t).pixel.state = .pixelDelayState)
    (hn : (OneAi.run g steadyPorts t).pixel.cycleCounter + n = pixelDelayCycles) :
    ∃ u, t ≤ u ∧ Pulse g steadyPorts u := by
  induction n generalizing t with
  | zero =>
    have hemit := (OneAi.emit_next (g := g) (steadyPorts_resetN t) hs hn).1
    exact ⟨t + 1, Nat.le_succ t, hemit⟩
  | succ n ih =>
    have hcount : (OneAi.run g steadyPorts t).pixel.cycleCounter < pixelDelayCycles := by omega
    have hedge := OneAi.delay_next (g := g) (steadyPorts_resetN t) hs hcount
    have hpixel : (OneAi.run g steadyPorts (t + 1)).pixel = _ := hedge
    have hnext : (OneAi.run g steadyPorts (t + 1)).pixel.cycleCounter =
        (OneAi.run g steadyPorts t).pixel.cycleCounter + 1 := by
      rw [hpixel]
    obtain ⟨u, hu, hpulse⟩ := ih (t := t + 1) (by rw [hpixel]; exact hs) (by omega)
    exact ⟨u, by omega, hpulse⟩

theorem steadyPorts_streaming (g : OneAi.Generics) : Streaming g steadyPorts := by
  refine ⟨steadyPorts_resetN, Set.infinite_of_not_bddAbove ?_⟩
  rintro ⟨b, hb⟩
  have hlater : ∃ u, b + 1 ≤ u ∧ Pulse g steadyPorts u := by
    cases hs : (OneAi.run g steadyPorts (b + 1)).pixel.state with
    | idleState => exact pulse_of_idle g hs
    | readWordState => exact pulse_of_reading g hs
    | extractPixelState =>
      exact ⟨b + 1 + 109, by omega,
        (OneAi.pulse_of_extract hs fun v _ _ => steadyPorts_resetN v).2.1⟩
    | pixelDelayState =>
      have hcount := (held_run (b + 1) hs).count
      exact pulse_of_delay g hs (Nat.add_sub_of_le hcount)
  obtain ⟨u, hu, hpulse⟩ := hlater
  have hle := hb hpulse
  omega

end AlteraWorkshops.Cnn
