import Mathlib.Data.Nat.Count
import Mathlib.Tactic

/-! Slots that are written in rounds, one slot for each strobe and the slots of a round
in order. What a slot holds depends on the number of strobes so far only: it is the value
of the last round that got to the slot. Nothing here names the slots or their values. -/

namespace AlteraWorkshops.Shared

variable {α : Type*} {p i m n u : ℕ}

/-- The last round that wrote slot `i` within the first `n` strobes. -/
def latest (p n i : ℕ) : Option ℕ := if n ≤ i then none else some ((n - 1 - i) / p)

theorem latest_zero (p i : ℕ) : latest p 0 i = none := if_pos (Nat.zero_le i)

/-- Round `m` is the last one that got to slot `i`. -/
theorem latest_eq_some_iff (hp : 0 < p) :
    latest p n i = some m ↔ p * m + i < n ∧ n ≤ p * (m + 1) + i := by
  have hdiv : (n - 1 - i) / p = m ↔ p * m ≤ n - 1 - i ∧ n - 1 - i < p * (m + 1) := by
    rw [Nat.div_eq_iff hp, Nat.mul_comm p m, Nat.mul_succ, Nat.mul_comm p m]
    omega
  unfold latest
  rw [Nat.mul_succ] at hdiv ⊢
  split_ifs with h
  · simp only [false_iff, not_and]
    omega
  · rw [Option.some_inj, hdiv]
    omega

/-- A strobe moves the slot it belongs to on to its round. -/
theorem latest_succ (hp : 0 < p) (hi : i < p) (n : ℕ) :
    latest p (n + 1) i = if n % p = i then some (n / p) else latest p n i := by
  have hsplit := Nat.div_add_mod n p
  split_ifs with h
  · rw [latest_eq_some_iff hp, Nat.mul_succ]
    omega
  · unfold latest
    by_cases hn : n ≤ i
    · have hlt : n < i := by
        apply Nat.lt_of_le_of_ne hn
        rintro rfl
        exact h (Nat.mod_eq_of_lt hi)
      rw [if_pos (by omega), if_pos hn]
    · rw [if_neg (by omega), if_neg hn, Option.some_inj]
      -- the round changes at the strobes of the slot only
      obtain ⟨d, rfl⟩ : ∃ d, n = i + (d + 1) := ⟨n - i - 1, by omega⟩
      have hndvd : ¬p ∣ d + 1 := by
        rintro ⟨e, he⟩
        rw [he, Nat.add_mul_mod_self_left] at h
        exact h (Nat.mod_eq_of_lt hi)
      rw [show i + (d + 1) + 1 - 1 - i = d + 1 by omega, show i + (d + 1) - 1 - i = d by omega,
        Nat.succ_div, if_neg hndvd, Nat.add_zero]

section Store

variable {strobe : ℕ → Bool} {x : ℕ → Fin p → α} {r : ℕ → Fin p → α}

/-- The strobes before cycle `u`. -/
def strobes (strobe : ℕ → Bool) (u : ℕ) : ℕ := Nat.count (fun v => strobe v = true) u

theorem strobes_succ (strobe : ℕ → Bool) (u : ℕ) :
    strobes strobe (u + 1) = strobes strobe u + if strobe u = true then 1 else 0 :=
  Nat.count_succ _ _

/-- Strobe `n` writes round `n / p` of slot `n % p`: every slot holds the last round that
got to it. -/
theorem slot_eq (hp : 0 < p)
    (hx : ∀ u i, x (u + 1) i =
      if strobe u = true ∧ strobes strobe u % p = i.val then r (strobes strobe u / p) i else x u i)
    (u : ℕ) (i : Fin p) :
    x u i = (latest p (strobes strobe u) i).elim (x 0 i) fun m => r m i := by
  induction u with
  | zero => simp [strobes, latest_zero]
  | succ u ih =>
    rw [hx, strobes_succ]
    by_cases hs : strobe u = true
    · rw [if_pos hs, latest_succ hp i.isLt]
      by_cases hslot : strobes strobe u % p = i.val
      · rw [if_pos ⟨hs, hslot⟩, if_pos hslot]
        rfl
      · rw [if_neg fun h => hslot h.2, if_neg hslot, ih]
    · rw [if_neg fun h => hs h.1, if_neg hs, ih]
      rfl

end Store

end AlteraWorkshops.Shared
