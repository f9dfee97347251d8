import AlteraWorkshops.Clocked.Trace
import Mathlib.Data.Nat.Nth

/-! Registers behind one of several clocks. They move only at the edges of their clock, so
what they hold is a function of the number of such edges and of what each edge sampled. A
row of registers, whatever it holds at power-up, is the signal in front of it some edges
late. -/

namespace AlteraWorkshops.Clocked

variable {σ ι α : Type*} {L : ℕ}

/-! ### Edges of one clock -/

section Edges

variable {go : ℕ → Prop} [DecidablePred go]

noncomputable def sampled (go : ℕ → Prop) (x : ℕ → ι) (k : ℕ) : ι := x (Nat.nth go k)

/-- Registers that step at the edges of a clock run through the samples of its edges. -/
theorem eq_trace_sampled {step : σ → ι → σ} {s : ℕ → σ} {x : ℕ → ι}
    (hs : ∀ n, s (n + 1) = if go n then step (s n) (x n) else s n) (n : ℕ) :
    s n = trace step (s 0) (sampled go x) (Nat.count go n) := by
  induction n with
  | zero => rw [Nat.count_zero, trace_zero]
  | succ n ih =>
    rw [hs, Nat.count_succ]
    by_cases hgo : go n
    · have hx : sampled go x (Nat.count go n) = x n := by rw [sampled, Nat.nth_count hgo]
      rw [if_pos hgo, if_pos hgo, ih, trace, hx]
    · rw [if_neg hgo, if_neg hgo, add_zero]
      exact ih

end Edges

/-! ### Rows of registers -/

/-- One edge of a row of `L` registers: the first takes the input, each other one what the
register in front of it held. -/
def shiftIn (p : Fin L → α) (v : α) (i : Fin L) : α :=
  if h : i.val = 0 then v else p ⟨i.val - 1, by omega⟩

/-- The end of the row; without a register it is the input itself. -/
def rowOutput (p : Fin L → α) (v : α) : α := if h : L = 0 then v else p ⟨L - 1, by omega⟩

variable {p : ℕ → Fin L → α} {v : ℕ → α}

theorem shiftIn_reaches (hp : ∀ k, p (k + 1) = shiftIn (p k) (v k)) (k : ℕ) (i : Fin L) :
    p (k + i.val + 1) i = v k := by
  obtain ⟨i, hi⟩ := i
  induction i with
  | zero => rw [hp, shiftIn, dif_pos rfl, add_zero]
  | succ i ih =>
    rw [hp, shiftIn, dif_neg (Nat.succ_ne_zero i)]
    exact ih (Nat.lt_of_succ_lt hi)

/-- After `L` edges an input is at the end of the row, whatever the row held before. -/
theorem rowOutput_delay (hp : ∀ k, p (k + 1) = shiftIn (p k) (v k)) (k : ℕ) :
    rowOutput (p (k + L)) (v (k + L)) = v k := by
  cases L with
  | zero => rfl
  | succ L => exact shiftIn_reaches hp k ⟨L, Nat.lt_succ_self L⟩

theorem register_delay {q : ℕ → α} (hp : ∀ k, p (k + 1) = shiftIn (p k) (v k))
    (hq : ∀ k, q (k + 1) = rowOutput (p k) (v k)) (k : ℕ) : q (k + L + 1) = v k := by
  rw [hq, rowOutput_delay hp]

end AlteraWorkshops.Clocked
