import AlteraWorkshops.Clocked.Trace
import Mathlib.Data.Nat.Count
import Mathlib.Data.Nat.Periodic

/-! Counting with pauses. A counter that moves only in the enabled cycles and wraps holds
the number of enabled cycles so far modulo its period, and what a signal that depends on
the count does in a window is what the count does over the numbers that the window counts
through. Where a window has a whole period of enabled cycles, it does not matter where it
begins. -/

namespace AlteraWorkshops.Clocked

open Finset

variable {go P : ℕ → Prop} [DecidablePred go] [DecidablePred P] {a b p : ℕ}

/-- A counter with an enable that starts again after `p - 1`. -/
theorem counter_count_mod {c : ℕ → ℕ} (hp : 0 < p) (h0 : c 0 = 0)
    (hc : ∀ t, c (t + 1) = if go t then (if c t = p - 1 then 0 else c t + 1) else c t) (t : ℕ) :
    c t = Nat.count go t % p := by
  induction t with
  | zero => rw [h0, Nat.count_zero, Nat.zero_mod]
  | succ t ih =>
    have hmod := Nat.mod_lt (Nat.count go t) hp
    rw [hc, Nat.count_succ, ih]
    by_cases hgo : go t
    · have hadd : (Nat.count go t + 1) % p = (Nat.count go t % p + 1) % p := by
        rw [Nat.mod_add_mod]
      rw [if_pos hgo, if_pos hgo, hadd]
      split_ifs with hlast
      · rw [hlast, Nat.sub_add_cancel hp, Nat.mod_self]
      · exact (Nat.mod_eq_of_lt (by omega)).symm
    · rw [if_neg hgo, if_neg hgo, add_zero]

/-- The enabled cycles of a window in which the count has a property, one for each such
number that the window counts through. -/
theorem card_filter_count (hab : a ≤ b) :
    #{t ∈ Ico a b | go t ∧ P (Nat.count go t)} =
      #{n ∈ Ico (Nat.count go a) (Nat.count go b) | P n} := by
  induction b, hab using Nat.le_induction with
  | base => simp
  | succ b hab ih =>
    have hmono : Nat.count go a ≤ Nat.count go b := Nat.count_monotone go hab
    rw [Nat.Ico_succ_right_eq_insert_Ico hab, filter_insert, Nat.count_succ]
    by_cases hgo : go b
    · rw [if_pos hgo, Nat.Ico_succ_right_eq_insert_Ico hmono, filter_insert]
      simp only [hgo, true_and]
      split_ifs
      · rw [card_insert_of_notMem (by simp), card_insert_of_notMem (by simp), ih]
      · exact ih
    · rw [if_neg hgo, if_neg fun h => hgo h.1]
      exact ih

theorem card_filter_go (hab : a ≤ b) :
    #{t ∈ Ico a b | go t} = Nat.count go b - Nat.count go a := by
  have h : #{t ∈ Ico a b | go t ∧ True} = #{n ∈ Ico (Nat.count go a) (Nat.count go b) | True} :=
    card_filter_count (P := fun _ => True) hab
  simpa using h

/-- How often a wrapping count is below `q` in a window of one period. -/
theorem card_filter_count_mod_lt {q : ℕ} (hq : q ≤ p) (hab : a ≤ b)
    (hwindow : #{t ∈ Ico a b | go t} = p) :
    #{t ∈ Ico a b | go t ∧ Nat.count go t % p < q} = q := by
  have hmono : Nat.count go a ≤ Nat.count go b := Nat.count_monotone go hab
  have hend : Nat.count go b = Nat.count go a + p := by
    rw [card_filter_go hab] at hwindow
    omega
  have hperiodic : Function.Periodic (fun n => n % p < q) p := fun n => by
    simp only [Nat.add_mod_right]
  have hcount : Nat.count (fun n => n % p < q) p = q := by
    rw [Nat.count_eq_card_filter_range]
    have hset : {n ∈ range p | n % p < q} = range q := by
      ext n
      simp only [mem_filter, mem_range]
      constructor
      · rintro ⟨hn, h⟩
        rwa [Nat.mod_eq_of_lt hn] at h
      · intro h
        have hn : n < p := h.trans_le hq
        exact ⟨hn, by rwa [Nat.mod_eq_of_lt hn]⟩
    rw [hset, card_range]
  rw [card_filter_count (P := fun n => n % p < q) hab, hend,
    Nat.filter_Ico_card_eq_of_periodic _ _ _ hperiodic, hcount]

end AlteraWorkshops.Clocked
