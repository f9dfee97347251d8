import AlteraWorkshops.Uart.Transmitter
import Mathlib.Tactic.FinCases

/-! What goes out on the line once the button is up: frames of sixteen periods of
`baud_out`, each with a start bit, the eight bits of the counter from the least significant
one up, a stop bit and six idle bits. -/

namespace AlteraWorkshops.Uart

open Clocked

variable {clksPerBit : ℕ} {s₀ : State} {inp : ℕ → Ports} {s : State} {i : Ports} {c : BitVec 8}

/-! ### The bits of a frame -/

def frameBit (c : BitVec 8) (j : ℕ) : Bool :=
  if j = 0 then false else if j ≤ 8 then c.getLsbD (j - 1) else true

/-- Bit 9 is the start bit, bit 0 the stop bit. -/
theorem dataPort_eq (c : BitVec 8) (k : Fin 10) : dataPort c k = frameBit c (9 - k.val) := by
  fin_cases k <;> rfl

/-- The shift register `j` edges after a load. -/
def shifted (data : Fin 10 → Bool) (j : ℕ) : Fin 10 → Bool := (fun q => shiftIn q true)^[j] data

@[simp] theorem shifted_zero (data : Fin 10 → Bool) : shifted data 0 = data := rfl

theorem shifted_succ (data : Fin 10 → Bool) (j : ℕ) :
    shifted data (j + 1) = shiftIn (shifted data j) true := Function.iterate_succ_apply' ..

theorem shifted_apply (data : Fin 10 → Bool) (j : ℕ) (k : Fin 10) :
    shifted data j k = if h : j ≤ k.val then data ⟨k.val - j, by omega⟩ else true := by
  induction j generalizing k with
  | zero => simp
  | succ j ih =>
    rw [shifted_succ, shiftIn]
    by_cases hk : k.val = 0
    · rw [dif_pos hk, dif_neg (by omega)]
    · rw [dif_neg hk, ih]
      by_cases hj : j + 1 ≤ k.val
      · rw [dif_pos (by simp only; omega), dif_pos hj]
        exact congrArg data (Fin.ext (by simp only; omega))
      · rw [dif_neg (by simp only; omega), dif_neg hj]

theorem shifted_line (c : BitVec 8) (j : ℕ) :
    shifted (dataPort c) j (Fin.last 9) = frameBit c j := by
  have h9 : (Fin.last 9).val = 9 := rfl
  rw [shifted_apply]
  by_cases hj : j ≤ 9
  · rw [dif_pos (by rw [h9]; exact hj), dataPort_eq]
    simp only [h9, Nat.sub_sub_self hj]
  · rw [dif_neg (by rw [h9]; exact hj), frameBit, if_neg (by omega), if_neg (by omega)]

/-! ### Between two edges of `baud_out` -/

/-- After `r` rising edges since the strobe began to run, with `c` the counter at that
point: the strobe has seen `r + 1` falling edges while `baud_out` is low, `r` while it is
high, and the shift register is `(r - 1) % 16` edges behind its last load. -/
structure Framing (c : BitVec 8) (r : ℕ) (s : State) : Prop where
  count : s.iDataCnt = c + BitVec.ofNat 8 r
  pos : s.baudOut = true → 0 < r
  delay : s.delay = BitVec.ofNat 4 (if s.baudOut then r - 1 else r)
  ctrl : s.iCtrl = decide ((if s.baudOut then r - 1 else r) % 16 = 0)
  shift : ∀ q, r = q + 1 →
    s.shift = shifted (dataPort (c + BitVec.ofNat 8 (q - q % 16))) (q % 16)

theorem delay_wraps (d : ℕ) : BitVec.ofNat 4 d = 0xF ↔ d % 16 = 15 := by
  rw [← BitVec.toNat_inj, BitVec.toNat_ofNat]
  rfl

/-- The strobe at a falling edge. -/
theorem load_fall {baudOut : Bool} (hbtn : i.btn = true) (hhigh : s.baudOut = true)
    (hlow : baudOut = false) {d : ℕ} (hd : s.delay = BitVec.ofNat 4 d) :
    load i baudOut s = (BitVec.ofNat 4 (d + 1), decide ((d + 1) % 16 = 0)) := by
  have hwrap := delay_wraps d
  simp only [load, hbtn, hhigh, hlow, hd, Bool.not_true, Bool.false_eq_true, ↓reduceIte,
    Bool.not_false, Bool.and_self]
  split_ifs with h
  · have hmod : (d + 1) % 16 = 0 := by
      have hd15 := hwrap.mp h
      omega
    have hzero : BitVec.ofNat 4 (d + 1) = 0x0 := by
      rw [← BitVec.toNat_inj, BitVec.toNat_ofNat]
      exact hmod
    rw [hmod, hzero]
    rfl
  · have hmod : (d + 1) % 16 ≠ 0 := by
      have hd15 := mt hwrap.mpr h
      omega
    rw [decide_eq_false hmod, BitVec.ofNat_add]
    rfl

/-- The strobe at any other instant. -/
theorem load_keep {baudOut : Bool} (hbtn : i.btn = true) (h : s.baudOut = true → baudOut = true) :
    load i baudOut s = (s.delay, s.iCtrl) := by
  cases hs : s.baudOut with
  | false => simp [load, hbtn, hs]
  | true => simp [load, hbtn, hs, h hs]

variable (clksPerBit s i)

/-- Where `baud_out` does not rise, the components keep what they hold. -/
theorem step_still (h : s.baudOut = false → (step clksPerBit s i).baudOut = false) :
    (step clksPerBit s i).iDataCnt = s.iDataCnt ∧ (step clksPerBit s i).shift = s.shift := by
  have hrise : (!s.baudOut && (baudRate clksPerBit i s).2) = false := by
    cases hs : s.baudOut with
    | false => exact h hs
    | true => rfl
  constructor <;> simp only [step, hrise, Bool.false_eq_true, ↓reduceIte]

/-- A rising edge: the counter counts whatever the button does, and the shift register loads
or shifts. -/
theorem step_rise (hlow : s.baudOut = false) (hhigh : (step clksPerBit s i).baudOut = true) :
    (step clksPerBit s i).iDataCnt = s.iDataCnt + 1 ∧
      (i.btn = true → (step clksPerBit s i).shift =
        if s.iCtrl then dataPort s.iDataCnt else shiftIn s.shift true) := by
  have hrise : (!s.baudOut && (baudRate clksPerBit i s).2) = true := by
    rw [hlow]
    exact hhigh
  constructor
  · simp only [step, hrise, counter, Bool.false_eq_true, ↓reduceIte]
  · intro hbtn
    simp only [step, hrise, hbtn, shiftRegister, Bool.not_true, Bool.false_eq_true, ↓reduceIte]

theorem step_strobe : ((step clksPerBit s i).delay, (step clksPerBit s i).iCtrl) =
    load i (step clksPerBit s i).baudOut s := rfl

variable {clksPerBit s i} {r : ℕ}

namespace Framing

theorem still (h : Framing c r s) (hbtn : i.btn = true)
    (hsame : (step clksPerBit s i).baudOut = s.baudOut) :
    Framing c r (step clksPerBit s i) := by
  obtain ⟨hcount, hshift⟩ := step_still clksPerBit s i hsame.trans
  have hload := step_strobe clksPerBit s i
  rw [load_keep hbtn hsame.trans, Prod.mk.injEq] at hload
  refine ⟨hcount.trans h.count, fun ht => h.pos (hsame.symm.trans ht), ?_, ?_, ?_⟩
  · rw [hload.1, h.delay, hsame]
  · rw [hload.2, h.ctrl, hsame]
  · rw [hshift]
    exact h.shift

theorem fall (h : Framing c r s) (hbtn : i.btn = true) (hhigh : s.baudOut = true)
    (hlow : (step clksPerBit s i).baudOut = false) : Framing c r (step clksPerBit s i) := by
  obtain ⟨hcount, hshift⟩ := step_still clksPerBit s i fun _ => hlow
  have hdelay := h.delay
  rw [hhigh, if_pos rfl] at hdelay
  have hload := step_strobe clksPerBit s i
  rw [load_fall hbtn hhigh hlow hdelay, Nat.sub_add_cancel (h.pos hhigh), Prod.mk.injEq] at hload
  refine ⟨hcount.trans h.count, fun ht => absurd (hlow.symm.trans ht) Bool.noConfusion, ?_, ?_, ?_⟩
  · rw [hload.1, hlow]
    rfl
  · rw [hload.2, hlow]
    rfl
  · rw [hshift]
    exact h.shift

theorem shift_rise (h : Framing c r s) (hlow : s.baudOut = false) :
    (if s.iCtrl then dataPort s.iDataCnt else shiftIn s.shift true) =
      shifted (dataPort (c + BitVec.ofNat 8 (r - r % 16))) (r % 16) := by
  have hctrl := h.ctrl
  rw [hlow] at hctrl
  simp only [Bool.false_eq_true, ↓reduceIte] at hctrl
  by_cases hr : r % 16 = 0
  · rw [hctrl, decide_eq_true hr, if_pos rfl, h.count, hr, Nat.sub_zero, shifted_zero]
  · obtain ⟨q, rfl⟩ : ∃ q, r = q + 1 := ⟨r - 1, by omega⟩
    have hmod : (q + 1) % 16 = q % 16 + 1 := by omega
    have hload : q + 1 - (q % 16 + 1) = q - q % 16 := by omega
    rw [hctrl, decide_eq_false hr, if_neg Bool.false_ne_true, h.shift q rfl, hmod, hload,
      shifted_succ]

/-- A rising edge: a frame starts where the strobe is up. -/
theorem rise (h : Framing c r s) (hbtn : i.btn = true) (hlow : s.baudOut = false)
    (hhigh : (step clksPerBit s i).baudOut = true) :
    Framing c (r + 1) (step clksPerBit s i) := by
  obtain ⟨hcount, hshift⟩ := step_rise clksPerBit s i hlow hhigh
  have hload := step_strobe clksPerBit s i
  rw [load_keep hbtn fun _ => hhigh, Prod.mk.injEq] at hload
  have hdelay := h.delay
  have hctrl := h.ctrl
  rw [hlow] at hdelay hctrl
  refine ⟨?_, fun _ => Nat.succ_pos r, ?_, ?_, ?_⟩
  · rw [hcount, h.count, BitVec.ofNat_add, BitVec.add_assoc]
    rfl
  · rw [hload.1, hdelay, hhigh]
    rfl
  · rw [hload.2, hctrl, hhigh]
    rfl
  · intro q hq
    obtain rfl : r = q := Nat.succ_injective hq
    rw [hshift hbtn, h.shift_rise hlow]

theorem next (h : Framing c r s) (hbtn : i.btn = true) :
    Framing c (r + if s.baudOut = false ∧ (step clksPerBit s i).baudOut = true then 1 else 0)
      (step clksPerBit s i) := by
  by_cases hsame : (step clksPerBit s i).baudOut = s.baudOut
  · rw [hsame, if_neg (fun hf => Bool.false_ne_true (hf.1.symm.trans hf.2))]
    exact h.still hbtn hsame
  · cases hs : s.baudOut with
    | false =>
      have hhigh : (step clksPerBit s i).baudOut = true := by
        rw [hs, Bool.not_eq_false] at hsame
        exact hsame
      rw [if_pos ⟨rfl, hhigh⟩]
      exact h.rise hbtn hs hhigh
    | true =>
      have hlow : (step clksPerBit s i).baudOut = false := by
        rw [hs, Bool.not_eq_true] at hsame
        exact hsame
      rw [if_neg (fun hf => Bool.false_ne_true hf.1.symm)]
      exact h.fall hbtn hs hlow

end Framing

/-! ### From the first falling edge on -/

/-- The button goes up after instant `t₀` and stays up; `f` is the first falling edge of
`baud_out` from there on. -/
structure Started (inp : ℕ → Ports) (s : ℕ → State) (t₀ f : ℕ) : Prop where
  down : (inp t₀).btn = false
  up : ∀ t, t₀ < t → (inp t).btn = true
  lt : t₀ < f
  fall : Fall s f
  first : ∀ t, t₀ < t → t < f → ¬Fall s t

theorem strobe_waits {t₀ f t : ℕ} (h : Started inp (run clksPerBit s₀ inp) t₀ f) (ht : t₀ < t)
    (htf : t ≤ f) :
    (run clksPerBit s₀ inp t).delay = 0xF ∧ (run clksPerBit s₀ inp t).iCtrl = false := by
  induction t, ht using Nat.le_induction with
  | base =>
    have hload := step_strobe clksPerBit (run clksPerBit s₀ inp t₀) (inp t₀)
    simp only [load, h.down, Bool.not_false, ↓reduceIte, Prod.mk.injEq] at hload
    exact hload
  | succ t ht ih =>
    have hkeep : (run clksPerBit s₀ inp t).baudOut = true →
        (step clksPerBit (run clksPerBit s₀ inp t) (inp t)).baudOut = true := by
      intro hhigh
      by_contra hlow
      exact h.first t ht htf ⟨hhigh, Bool.eq_false_iff.mpr hlow⟩
    have hload := step_strobe clksPerBit (run clksPerBit s₀ inp t) (inp t)
    rw [load_keep (h.up t ht) hkeep, Prod.mk.injEq] at hload
    obtain ⟨hdelay, hctrl⟩ := ih (Nat.le_of_succ_le htf)
    exact ⟨hload.1.trans hdelay, hload.2.trans hctrl⟩

theorem framing_start {t₀ f : ℕ} (h : Started inp (run clksPerBit s₀ inp) t₀ f) :
    Framing (run clksPerBit s₀ inp f).iDataCnt 0 (run clksPerBit s₀ inp (f + 1)) := by
  obtain ⟨hdelay, -⟩ := strobe_waits h h.lt le_rfl
  have hlow : (step clksPerBit (run clksPerBit s₀ inp f) (inp f)).baudOut = false := h.fall.2
  obtain ⟨hcount, -⟩ := step_still clksPerBit (run clksPerBit s₀ inp f) (inp f) fun _ => hlow
  have hload := step_strobe clksPerBit (run clksPerBit s₀ inp f) (inp f)
  have hfull : (run clksPerBit s₀ inp f).delay = BitVec.ofNat 4 15 := hdelay
  rw [load_fall (h.up f h.lt) h.fall.1 hlow hfull, Prod.mk.injEq] at hload
  refine ⟨?_, fun ht => absurd (h.fall.2.symm.trans ht) Bool.noConfusion, ?_, ?_, ?_⟩
  · show (step clksPerBit (run clksPerBit s₀ inp f) (inp f)).iDataCnt = _
    rw [hcount]
    exact (BitVec.add_zero _).symm
  · rw [h.fall.2]
    exact hload.1
  · rw [h.fall.2]
    exact hload.2
  · intro q hq
    exact absurd hq.symm (Nat.succ_ne_zero q)

theorem framing_run {t₀ f t : ℕ} (h : Started inp (run clksPerBit s₀ inp) t₀ f) (ht : f < t) :
    Framing (run clksPerBit s₀ inp f).iDataCnt
      (rises (run clksPerBit s₀ inp) t - rises (run clksPerBit s₀ inp) f)
      (run clksPerBit s₀ inp t) := by
  induction t, ht using Nat.le_induction with
  | base =>
    have hfall : ¬Rise (run clksPerBit s₀ inp) f := fun hr =>
      Bool.false_ne_true (hr.1.symm.trans h.fall.1)
    rw [rises_succ, if_neg hfall, add_zero, Nat.sub_self]
    exact framing_start h
  | succ t ht ih =>
    have hmono : rises (run clksPerBit s₀ inp) f ≤ rises (run clksPerBit s₀ inp) t :=
      rises_mono _ (Nat.le_of_succ_le ht)
    rw [rises_succ, Nat.sub_add_comm hmono]
    exact ih.next (h.up t (h.lt.trans ht))

/-- The counter counts the rising edges, whatever the button does. -/
theorem run_iDataCnt (clksPerBit : ℕ) (s₀ : State) (inp : ℕ → Ports) (t : ℕ) :
    (run clksPerBit s₀ inp t).iDataCnt =
      s₀.iDataCnt + BitVec.ofNat 8 (rises (run clksPerBit s₀ inp) t) := by
  induction t with
  | zero => exact (BitVec.add_zero _).symm
  | succ t ih =>
    rw [rises_succ]
    by_cases hr : Rise (run clksPerBit s₀ inp) t
    · have hcount : (run clksPerBit s₀ inp (t + 1)).iDataCnt =
          (run clksPerBit s₀ inp t).iDataCnt + 1 :=
        (step_rise clksPerBit (run clksPerBit s₀ inp t) (inp t) hr.1 hr.2).1
      rw [if_pos hr, hcount, ih, BitVec.ofNat_add, BitVec.add_assoc]
      rfl
    · have hcount := (step_still clksPerBit (run clksPerBit s₀ inp t) (inp t) fun hlow =>
        Bool.eq_false_iff.mpr fun hhigh => hr ⟨hlow, hhigh⟩).1
      rw [if_neg hr, add_zero, ← ih]
      exact hcount

/-! ### Frames -/

/-- From the first falling edge of `baud_out` with the button up on, period `j` of frame
`n` carries bit `j` of the counter value that was loaded, which is the one of the first load
plus `16 * n`; loads come with the edges that open a frame and no others. -/
theorem frames (clksPerBit : ℕ) (baudOut : Bool) (b : BitVec 8) (shift : Fin 10 → Bool)
    (inp : ℕ → Ports) (t₀ f : ℕ)
    (h : Started inp (run clksPerBit (.initial baudOut b shift) inp) t₀ f) :
    let s := run clksPerBit (.initial baudOut b shift) inp
    let b' := b + BitVec.ofNat 8 (rises s f)
    (∀ n j, j < 16 → ∀ t, rises s t = rises s f + 16 * n + j + 1 →
      (s t).uartTx = frameBit (b' + BitVec.ofNat 8 (16 * n)) j) ∧
    (∀ t, f < t → Rise s t → ((s t).iCtrl = true ↔ 16 ∣ rises s t - rises s f)) ∧
    ∀ n t, f < t → Rise s t → rises s t = rises s f + 16 * n →
      (s t).iDataCnt = b' + BitVec.ofNat 8 (16 * n) := by
  intro s b'
  have hb' : (s f).iDataCnt = b' := run_iDataCnt clksPerBit _ inp f
  have hrun : ∀ t, f < t → Framing b' (rises s t - rises s f) (s t) := fun t ht =>
    hb' ▸ framing_run h ht
  refine ⟨fun n j hj t ht => ?_, fun t ht hrise => ?_, fun n t ht _ hn => ?_⟩
  · have hft : f < t := by
      by_contra hle
      have hmono : rises s t ≤ rises s f := rises_mono _ (not_lt.mp hle)
      omega
    have hcount : rises s t - rises s f = 16 * n + j + 1 := by omega
    have hmod : (16 * n + j) % 16 = j := by omega
    have hshift := (hrun t hft).shift (16 * n + j) hcount
    rw [hmod, Nat.add_sub_cancel] at hshift
    rw [State.uartTx, hshift, shifted_line]
  · have hctrl := (hrun t ht).ctrl
    rw [hrise.1] at hctrl
    simp only [Bool.false_eq_true, ↓reduceIte] at hctrl
    rw [hctrl, decide_eq_true_iff, Nat.dvd_iff_mod_eq_zero]
  · rw [(hrun t ht).count, hn, Nat.add_sub_cancel_left]

/-- The fastest divider; the button goes up after instant 0 and `baud_out` falls at 2. -/
theorem frames_fastest :
    let inp : ℕ → Ports := fun t => ⟨true, t == 0, t != 0⟩
    let s := run 1 (.initial false 0x40 fun _ => true) inp
    ∀ n j, j < 16 → ∀ t, rises s t = rises s 2 + 16 * n + j + 1 →
      (s t).uartTx = frameBit (0x40 + BitVec.ofNat 8 (rises s 2) + BitVec.ofNat 8 (16 * n)) j :=
  (frames 1 false 0x40 (fun _ => true) (fun t => ⟨true, t == 0, t != 0⟩) 0 2
    { down := rfl
      up := fun _ ht => bne_iff_ne.mpr (Nat.ne_of_gt ht)
      lt := by decide
      fall := by decide
      first := fun t h0 h2 => by
        obtain rfl : t = 1 := by omega
        decide }).1

example : (List.range 16).map (frameBit 0x41) =
    [false, true, false, false, false, false, false, true, false, true,
      true, true, true, true, true, true] := by decide

end AlteraWorkshops.Uart
