import AlteraWorkshops.Clocked.Windows
import AlteraWorkshops.ImageSource.Pulse

/-! The pulse generator on its own, for any period, any pulse and any waveform of its
enable. Its count is the number of enabled cycles so far modulo the period, which the
width of the register always has room for, and the pulse says of the enabled cycle before
whether its count was below `pulseCycles`. -/

namespace AlteraWorkshops.ImageSource

open Clocked Finset

/-- `pulse_gen` out of reset. -/
def pulseGenRun (periodCycles pulseCycles : ℕ) (enable : ℕ → Bool) : ℕ → PulseGen periodCycles :=
  trace (fun r e => r.step pulseCycles true e) .initial enable

variable {p q : ℕ} {enable : ℕ → Bool}

theorem pulseGenRun_succ (t : ℕ) :
    pulseGenRun p q enable (t + 1) = (pulseGenRun p q enable t).step q true (enable t) := rfl

/-! ### The count -/

theorem pulseGenRun_cnt_lt (hp : 0 < p) (t : ℕ) : (pulseGenRun p q enable t).cnt.toNat < p := by
  refine trace_invariant (P := fun r : PulseGen p => r.cnt.toNat < p)
    (PulseGen.valid_initial (q := 0) hp).cnt (fun t hlt => ?_) t
  cases enable t with
  | false => exact hlt
  | true =>
    rw [PulseGen.step_cnt_of_lt hlt]
    split_ifs <;> omega

theorem pulseGenRun_cnt (hp : 0 < p) (t : ℕ) :
    (pulseGenRun p q enable t).cnt.toNat = Nat.count (fun u => enable u = true) t % p := by
  refine counter_count_mod (c := fun t => (pulseGenRun p q enable t).cnt.toNat) hp
    (BitVec.toNat_zero ..) (fun u => ?_) t
  show (pulseGenRun p q enable (u + 1)).cnt.toNat = _
  rw [pulseGenRun_succ]
  cases enable u with
  | false => rfl
  | true => exact PulseGen.step_cnt_of_lt (pulseGenRun_cnt_lt hp u)

/-! ### The pulse -/

theorem pulseGenRun_pulseOut (t : ℕ) :
    (pulseGenRun p q enable (t + 1)).pulseOut =
      (enable t && decide ((pulseGenRun p q enable t).cnt.toNat < q)) := by
  rw [pulseGenRun_succ]
  cases enable t <;> rfl

theorem pulseGenRun_high_iff (hp : 0 < p) (t : ℕ) :
    enable t = true ∧ (pulseGenRun p q enable (t + 1)).pulseOut = true ↔
      enable t = true ∧ Nat.count (fun u => enable u = true) t % p < q := by
  rw [pulseGenRun_pulseOut, pulseGenRun_cnt hp, Bool.and_eq_true, decide_eq_true_eq]
  tauto

/-- The count stays below the period and fits, and goes on by one modulo the period in the
enabled cycles only. The pulse is low after every disabled cycle, and in every window with
as many enabled cycles as the period has, as many of them as the pulse has are followed by
a high output. -/
theorem pulse_gen_duty (hp : 1 ≤ p) (hq : q ≤ p) (enable : ℕ → Bool) :
    (∀ t, (pulseGenRun p q enable t).cnt.toNat < p ∧ p ≤ 2 ^ cntW p ∧
      (pulseGenRun p q enable (t + 1)).cnt.toNat =
        if enable t then ((pulseGenRun p q enable t).cnt.toNat + 1) % p
        else (pulseGenRun p q enable t).cnt.toNat) ∧
    (∀ t, enable t = false → (pulseGenRun p q enable (t + 1)).pulseOut = false) ∧
    ∀ a b, a ≤ b → #{t ∈ Ico a b | enable t = true} = p →
      #{t ∈ Ico a b | enable t = true ∧ (pulseGenRun p q enable (t + 1)).pulseOut = true} = q := by
  refine ⟨fun t => ⟨pulseGenRun_cnt_lt hp t, le_two_pow_cntW hp, ?_⟩, fun t ht => ?_, ?_⟩
  · rw [pulseGenRun_cnt hp, pulseGenRun_cnt hp, Nat.count_succ]
    split_ifs
    · rw [Nat.mod_add_mod]
    · rw [add_zero]
  · rw [pulseGenRun_pulseOut, ht, Bool.false_and]
  · intro a b hab hwindow
    simp only [pulseGenRun_high_iff hp]
    exact card_filter_count_mod_lt hq hab hwindow

/-- A period that is a power of two, enabled in every other cycle. -/
theorem pulse_gen_duty_four :
    #{t ∈ Ico 3 11 | (t % 2 == 0) = true ∧
      (pulseGenRun 4 3 (fun t => t % 2 == 0) (t + 1)).pulseOut = true} = 3 :=
  (pulse_gen_duty (by decide) (by decide) fun t => t % 2 == 0).2.2 3 11 (by decide) (by decide)

end AlteraWorkshops.ImageSource
