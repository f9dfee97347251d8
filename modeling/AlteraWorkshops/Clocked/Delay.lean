import AlteraWorkshops.Clocked.Trace
import Mathlib.Tactic.Ring

/-! Registers in a row, rising edges seen behind them, and counters that wrap. A
register that copies a signal is that signal one cycle late; a row of `d` registers
is the signal `d` cycles late. -/

namespace AlteraWorkshops.Clocked

variable {α : Type*} {a : α} {x : ℕ → α} {d t : ℕ}

/-! ### Delays -/

/-- `x` behind `d` registers that hold `a` at cycle 0. -/
def delayed (d : ℕ) (a : α) (x : ℕ → α) (t : ℕ) : α := if t < d then a else x (t - d)

@[simp] theorem delayed_zero : delayed 0 a x = x := by
  funext t
  rfl

theorem delayed_of_register {q : ℕ → α} (h0 : q 0 = a) (hq : ∀ t, q (t + 1) = x t) :
    q = delayed 1 a x := by
  funext t
  cases t with
  | zero => exact h0
  | succ t => exact hq t

/-- A register behind `d` registers. -/
theorem delayed_delayed : delayed 1 a (delayed d a x) = delayed (d + 1) a x := by
  funext t
  unfold delayed
  cases t with
  | zero => simp
  | succ t => simp

/-! ### Rising edges -/

/-- Sample `s` of `x` is high and the sample before it, if there is one, is low. -/
def Rises (x : ℕ → Bool) (s : ℕ) : Prop := x s = true ∧ ∀ r, s = r + 1 → x r = false

/-- Two edges with no edge between them. -/
structure Consecutive (x : ℕ → Bool) (e e' : ℕ) : Prop where
  first : Rises x e
  next : Rises x e'
  lt : e < e'
  none : ∀ u, e < u → u < e' → ¬Rises x u

theorem Consecutive.unique {x : ℕ → Bool} {e a b : ℕ} (h : Consecutive x e a)
    (h' : Consecutive x e b) : a = b := by
  rcases lt_trichotomy a b with hlt | heq | hgt
  · exact absurd h.next (h'.none a h.lt hlt)
  · exact heq
  · exact absurd h'.next (h.none b h'.lt hgt)

theorem rises_succ {x : ℕ → Bool} : Rises x (t + 1) ↔ x (t + 1) = true ∧ x t = false := by
  refine and_congr_right fun _ => ⟨fun h => h t rfl, ?_⟩
  rintro h r hr
  rwa [← Nat.succ_injective hr]

/-- The last two registers of the row differ exactly when an edge gets there. -/
theorem rise_delayed {x : ℕ → Bool} :
    (!delayed (d + 1) false x t && delayed d false x t) = true ↔ ∃ s, t = s + d ∧ Rises x s := by
  rw [Bool.and_eq_true, Bool.not_eq_true']
  unfold delayed
  constructor
  · rintro ⟨hq, hx⟩
    have ht : ¬t < d := fun h => by simp [h] at hx
    rw [if_neg ht] at hx
    refine ⟨t - d, by omega, hx, fun r hr => ?_⟩
    rw [if_neg (by omega)] at hq
    rwa [show r = t - (d + 1) by omega]
  · rintro ⟨s, rfl, hx, hlow⟩
    have hs : ¬s + d < d := by omega
    rw [if_neg hs, Nat.add_sub_cancel]
    refine ⟨?_, hx⟩
    cases s with
    | zero => simp
    | succ r =>
      rw [if_neg (by omega), show r + 1 + d - (d + 1) = r by omega]
      exact hlow r rfl

/-! ### Counters -/

/-- A counter that starts again after `p - 1` counts the cycles modulo `p`. -/
theorem counter_add_mod {c : ℕ → ℕ} {p a : ℕ} (hlt : c a < p)
    (hc : ∀ t, a ≤ t → c (t + 1) = if c t = p - 1 then 0 else c t + 1) (n : ℕ) :
    c (a + n) = (c a + n) % p := by
  induction n with
  | zero => exact (Nat.mod_eq_of_lt hlt).symm
  | succ n ih =>
    have hp : 0 < p := by omega
    have hmod := Nat.mod_lt (c a + n) hp
    have hadd : (c a + n + 1) % p = ((c a + n) % p + 1) % p := by rw [Nat.mod_add_mod]
    rw [← add_assoc, hc _ (Nat.le_add_right a n), ih, ← add_assoc, hadd]
    split_ifs with h
    · rw [h, Nat.sub_add_cancel hp, Nat.mod_self]
    · exact (Nat.mod_eq_of_lt (by omega)).symm

end AlteraWorkshops.Clocked
