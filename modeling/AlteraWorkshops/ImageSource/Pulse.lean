import AlteraWorkshops.ImageSource.Block
import Mathlib.Tactic

/-! The pulse generator over a run: the count is the cycle number modulo the period,
the pulse is high in the first part of every period, one cycle late, and it rises in
the cycles that are 1 modulo the period. -/

namespace AlteraWorkshops.ImageSource

open Clocked

/-! ### The width of the count -/

theorem lt_two_pow_shifts (value : ℕ) : value < 2 ^ shifts value := by
  induction value using shifts.induct with
  | case1 value hpos ih =>
    rw [shifts, if_pos hpos, pow_succ]
    omega
  | case2 value hpos =>
    rw [shifts, if_neg hpos]
    omega

theorem le_two_pow_cntW {p : ℕ} (hp : 0 < p) : p ≤ 2 ^ cntW p := by
  unfold cntW clog2
  split_ifs
  · have h := lt_two_pow_shifts (p - 1)
    omega
  · omega

/-! ### One edge -/

/-- The pulse as a function of the count, in every state that can be reached. -/
structure PulseGen.Valid {p : ℕ} (q : ℕ) (r : PulseGen p) : Prop where
  cnt : r.cnt.toNat < p
  pulse : r.pulseOut = decide (1 ≤ r.cnt.toNat ∧ r.cnt.toNat ≤ q)

section Generator

variable {p q : ℕ} {r : PulseGen p}

theorem PulseGen.valid_initial (hp : 0 < p) : (PulseGen.initial : PulseGen p).Valid q :=
  ⟨by simpa [PulseGen.initial] using hp, by simp [PulseGen.initial]⟩

/-- A count in range goes up and starts again after the last one. -/
theorem PulseGen.step_cnt_of_lt (hlt : r.cnt.toNat < p) :
    (r.step q true true).cnt.toNat = if r.cnt.toNat = p - 1 then 0 else r.cnt.toNat + 1 := by
  have hw := le_two_pow_cntW (Nat.zero_lt_of_lt hlt)
  unfold PulseGen.step
  simp only [Bool.not_true, Bool.false_eq_true, ↓reduceIte]
  split_ifs with hlast
  · exact BitVec.toNat_zero ..
  · have hone : (1 : BitVec (cntW p)).toNat = 1 % 2 ^ cntW p := BitVec.toNat_ofNat ..
    rw [BitVec.toNat_add, hone, Nat.add_mod_mod]
    exact Nat.mod_eq_of_lt (by omega)

theorem PulseGen.step_cnt (h : r.Valid q) :
    (r.step q true true).cnt.toNat = if r.cnt.toNat = p - 1 then 0 else r.cnt.toNat + 1 :=
  PulseGen.step_cnt_of_lt h.cnt

theorem PulseGen.valid_step (hq : q < p) (h : r.Valid q) :
    (r.step q true true).Valid q := by
  have hcnt := PulseGen.step_cnt h
  have hlt := h.cnt
  refine ⟨?_, ?_⟩
  · rw [hcnt]
    split_ifs <;> omega
  · rw [hcnt]
    show decide (r.cnt.toNat < q) = _
    rw [decide_eq_decide]
    split_ifs <;> omega

end Generator

/-! ### The pulse of the block -/

variable {inp : ℕ → Ports} {t : ℕ}

theorem periodCycles_pos : 0 < periodCycles := by decide

theorem pulseCycles_lt : pulseCycles < periodCycles := by decide

theorem run_succ (inp : ℕ → Ports) (t : ℕ) : run inp (t + 1) = step (run inp t) (inp t) := rfl

theorem step_pg {s : State} {i : Ports} (hn : i.resetN = true) :
    (step s i).pg = s.pg.step pulseCycles true true := by
  simp only [step, hn, Bool.not_true, Bool.false_eq_true, ↓reduceIte]

theorem step_pg_reset {s : State} {i : Ports} (hn : i.resetN = false) :
    (step s i).pg = .initial := by
  simp only [step, hn, Bool.not_false, ↓reduceIte]
  rfl

/-- In every run, resets included, the pulse is a function of the count. -/
theorem pg_valid (inp : ℕ → Ports) (t : ℕ) : (run inp t).pg.Valid pulseCycles := by
  refine trace_invariant (P := fun s : State => s.pg.Valid pulseCycles)
    (PulseGen.valid_initial periodCycles_pos) (fun t ih => ?_) t
  cases hn : (inp t).resetN with
  | true =>
    rw [step_pg hn]
    exact PulseGen.valid_step pulseCycles_lt ih
  | false =>
    rw [step_pg_reset hn]
    exact PulseGen.valid_initial periodCycles_pos

/-- Out of reset the count goes up and wraps. -/
theorem pg_cnt_add {a : ℕ} (hn : ∀ u, a ≤ u → (inp u).resetN = true) (n : ℕ) :
    (run inp (a + n)).pg.cnt.toNat = ((run inp a).pg.cnt.toNat + n) % periodCycles := by
  refine counter_add_mod (c := fun t => (run inp t).pg.cnt.toNat) (pg_valid inp a).cnt
    (fun t ht => ?_) n
  show (step (run inp t) (inp t)).pg.cnt.toNat = _
  rw [step_pg (hn t ht), PulseGen.step_cnt (pg_valid inp t)]

theorem pg_cnt (hn : ∀ u, (inp u).resetN = true) (t : ℕ) :
    (run inp t).pg.cnt.toNat = t % periodCycles := by
  simpa [run, State.initial, PulseGen.initial] using pg_cnt_add (fun u _ => hn u) (a := 0) t

/-- With IRQ_EN = 1 the interrupt is the pulse. -/
theorem irq_pulse {s : State} {i : Ports} (h : s.irqEn = 1) : irq s i = s.pg.pulseOut := by
  have hpulse : (1 : BitVec 2).getLsbD 0 = true := rfl
  have hext : (1 : BitVec 2).getLsbD 1 = false := rfl
  rw [irq, h, hpulse, hext, Bool.true_and, Bool.false_and, Bool.or_false]

/-- The phase of the period in which the pulse is high. -/
def pulseHigh (t : ℕ) : Prop := 1 ≤ t % periodCycles ∧ t % periodCycles ≤ pulseCycles

instance : DecidablePred pulseHigh := fun _ => inferInstanceAs (Decidable (_ ∧ _))

theorem pg_pulseOut (hn : ∀ u, (inp u).resetN = true) (t : ℕ) :
    (run inp t).pg.pulseOut = decide (pulseHigh t) := by
  rw [(pg_valid inp t).pulse, pg_cnt hn]
  rfl

/-- The pulse rises once in every period. -/
theorem pulse_rises_iff (hn : ∀ u, (inp u).resetN = true) {s : ℕ} :
    Rises (fun u => (run inp u).pg.pulseOut) s ↔ s % periodCycles = 1 := by
  simp only [Rises, pg_pulseOut hn, decide_eq_true_eq, decide_eq_false_iff_not]
  unfold pulseHigh periodCycles pulseCycles
  constructor
  · rintro ⟨hhigh, hlow⟩
    have hpos : s ≠ 0 := by rintro rfl; omega
    have := hlow (s - 1) (by omega)
    omega
  · intro h
    refine ⟨by omega, fun r hr => ?_⟩
    omega

end AlteraWorkshops.ImageSource
