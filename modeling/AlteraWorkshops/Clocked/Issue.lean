import Mathlib.Data.List.Basic
import Mathlib.Algebra.Order.Group.Nat
import Mathlib.Tactic.Common

/-! A list that is worked off one element at a time, in the cycles that a schedule
selects, and a state that each element updates: in every cycle the state is the fold of
the elements issued so far. Nothing here names a particular list or state. -/

namespace AlteraWorkshops.Clocked

variable {α σ : Type*} {go : ℕ → Bool} {l : List α} {a b t : ℕ}

/-- The number of selected cycles from `a` up to, not including, `t`. -/
def done (go : ℕ → Bool) (a t : ℕ) : ℕ := (List.range' a (t - a)).countP go

/-- The element issued in cycle `t`, if the list that starts at cycle `a` has one left. -/
def issued (l : List α) (go : ℕ → Bool) (a t : ℕ) : Option α :=
  if go t then l[done go a t]? else none

@[simp] theorem done_self (go : ℕ → Bool) (a : ℕ) : done go a a = 0 := by simp [done]

theorem done_succ (h : a ≤ t) : done go a (t + 1) = done go a t + if go t then 1 else 0 := by
  have hlen : t + 1 - a = t - a + 1 := by omega
  have hlast : a + 1 * (t - a) = t := by omega
  rw [done, done, hlen, List.range'_concat, List.countP_append, hlast, List.countP_singleton]

theorem done_mono (h : a ≤ b) (hbt : b ≤ t) : done go a b ≤ done go a t := by
  induction t, hbt using Nat.le_induction with
  | base => exact le_rfl
  | succ t ht ih =>
    rw [done_succ (h.trans ht)]
    omega

/-- No selected cycle, no progress. -/
theorem done_of_not (h : a ≤ b) (hbt : b ≤ t) (hgo : ∀ u, b ≤ u → u < t → go u = false) :
    done go a t = done go a b := by
  induction t, hbt using Nat.le_induction with
  | base => rfl
  | succ t ht ih =>
    rw [done_succ (h.trans ht), ih fun u h1 h2 => hgo u h1 (by omega), hgo t ht (by omega)]
    rfl

theorem take_done_succ (h : a ≤ t) :
    l.take (done go a (t + 1)) = l.take (done go a t) ++ (issued l go a t).toList := by
  rw [done_succ h, issued]
  cases go t with
  | false => simp
  | true => simp [List.take_add_one]

/-- The state after the elements issued so far. -/
theorem eq_foldl_issued {f : σ → α → σ} {x : ℕ → σ}
    (hx : ∀ t, a ≤ t → x (t + 1) = (issued l go a t).elim (x t) (f (x t))) (h : a ≤ t) :
    x t = (l.take (done go a t)).foldl f (x a) := by
  induction t, h using Nat.le_induction with
  | base => simp
  | succ t ht ih =>
    rw [hx t ht, take_done_succ ht, List.foldl_append, ← ih]
    cases issued l go a t <;> rfl

/-- The fold of the elements issued so far is such a state. -/
theorem foldl_issued_succ (f : σ → α → σ) (x : σ) (h : a ≤ t) :
    (l.take (done go a (t + 1))).foldl f x =
      (issued l go a t).elim ((l.take (done go a t)).foldl f x)
        (f ((l.take (done go a t)).foldl f x)) := by
  rw [take_done_succ h, List.foldl_append]
  cases issued l go a t <;> rfl

end AlteraWorkshops.Clocked
