import Mathlib.Data.List.Range
import Mathlib.Data.Nat.Find
import Mathlib.Order.Monotone.Basic
import Mathlib.Tactic.Common

/-! Synchronous machines: a step function fed with one input per clock edge, the
trace of states it produces, and the observations made along an interval of
cycles. Nothing here names a particular circuit. -/

namespace AlteraWorkshops.Clocked

variable {σ ι α ε : Type*}

/-- The state before every clock edge, with `inp t` sampled at edge `t`. -/
def trace (step : σ → ι → σ) (s : σ) (inp : ℕ → ι) : ℕ → σ
  | 0 => s
  | t + 1 => step (trace step s inp t) (inp t)

@[simp] theorem trace_zero (step : σ → ι → σ) (s : σ) (inp : ℕ → ι) :
    trace step s inp 0 = s := rfl

/-- A property of the initial state that every step keeps holds at every edge. -/
theorem trace_invariant {step : σ → ι → σ} {s : σ} {inp : ℕ → ι} {P : σ → Prop}
    (h0 : P s) (hstep : ∀ t, P (trace step s inp t) → P (step (trace step s inp t) (inp t)))
    (t : ℕ) : P (trace step s inp t) := by
  induction t with
  | zero => exact h0
  | succ t ih => exact hstep t ih

/-- The run of a step that can fail: the first failure ends it. -/
def checkedTrace (check : σ → ι → Except ε σ) (s : σ) (inp : ℕ → ι) : ℕ → Except ε σ
  | 0 => .ok s
  | t + 1 => (checkedTrace check s inp t).bind fun s => check s (inp t)

section Checked

variable {step : σ → ι → σ} {check : σ → ι → Except ε σ} {s s' : σ} {inp : ℕ → ι} {t : ℕ}

/-- Where the check passes it is the step, so a run without a failure is the trace. -/
theorem checkedTrace_eq_trace (h : ∀ s i s', check s i = .ok s' → s' = step s i)
    (ht : checkedTrace check s inp t = .ok s') : s' = trace step s inp t := by
  induction t generalizing s' with
  | zero => exact (Except.ok.inj ht).symm
  | succ t ih =>
    rw [checkedTrace] at ht
    cases hprev : checkedTrace check s inp t with
    | error e =>
      rw [hprev] at ht
      cases ht
    | ok r =>
      rw [hprev] at ht
      rw [trace, ← ih hprev]
      exact h _ _ _ ht

theorem checkedTrace_ok_iff (h : ∀ s i s', check s i = .ok s' → s' = step s i) :
    checkedTrace check s inp t = .ok (trace step s inp t) ↔
      ∀ u < t, check (trace step s inp u) (inp u) = .ok (trace step s inp (u + 1)) := by
  induction t with
  | zero => exact ⟨fun _ u hu => absurd hu (Nat.not_lt_zero u), fun _ => rfl⟩
  | succ t ih =>
    constructor
    · intro ht
      cases hprev : checkedTrace check s inp t with
      | error e =>
        rw [checkedTrace, hprev] at ht
        cases ht
      | ok r =>
        obtain rfl := checkedTrace_eq_trace h hprev
        rw [checkedTrace, hprev] at ht
        intro u hu
        rcases Nat.lt_succ_iff_lt_or_eq.mp hu with hlt | rfl
        · exact ih.mp hprev u hlt
        · exact ht
    · intro ht
      rw [checkedTrace, ih.mpr fun u hu => ht u (Nat.lt_succ_of_lt hu)]
      exact ht t (Nat.lt_succ_self t)

end Checked

/-- A condition that is met at some cycle from `t` on has a first such cycle. -/
theorem exists_first {P : ℕ → Prop} {t : ℕ} (h : ∃ u, t ≤ u ∧ P u) :
    ∃ u, t ≤ u ∧ P u ∧ ∀ v, t ≤ v → v < u → ¬P v := by
  classical
  obtain ⟨hu, hp⟩ := Nat.find_spec h
  exact ⟨Nat.find h, hu, hp, fun v hv hlt hpv => Nat.find_min h hlt ⟨hv, hpv⟩⟩

/-- Increasing instants divide the time from the first one on. -/
theorem exists_interval {time : ℕ → ℕ} (h : StrictMono time) {t : ℕ} (ht : time 0 ≤ t) :
    ∃ j, time j ≤ t ∧ t < time (j + 1) := by
  induction t, ht using Nat.le_induction with
  | base => exact ⟨0, le_rfl, h (Nat.zero_lt_one)⟩
  | succ t ht ih =>
    obtain ⟨j, h1, h2⟩ := ih
    rcases Nat.lt_or_ge (t + 1) (time (j + 1)) with hlt | hge
    · exact ⟨j, Nat.le_succ_of_le h1, hlt⟩
    · exact ⟨j + 1, hge, lt_of_le_of_lt h2 (h (Nat.lt_succ_self (j + 1)))⟩

/-! ### Observations -/

/-- What `f` reports in the cycles from `a` up to, not including, `b`. -/
def collect (f : ℕ → Option α) (a b : ℕ) : List α := (List.range' a (b - a)).filterMap f

@[simp] theorem collect_self (f : ℕ → Option α) (a : ℕ) : collect f a a = [] := by
  simp [collect]

theorem collect_append (f : ℕ → Option α) {a b c : ℕ} (hab : a ≤ b) (hbc : b ≤ c) :
    collect f a c = collect f a b ++ collect f b c := by
  have hlen : c - a = (b - a) + (c - b) := by omega
  have hb : a + (b - a) = b := by omega
  rw [collect, hlen, ← List.range'_append_1, hb, List.filterMap_append]
  rfl

theorem collect_one (f : ℕ → Option α) (a : ℕ) : collect f a (a + 1) = (f a).toList := by
  cases h : f a <;> simp [collect, h]

theorem collect_silent (f : ℕ → Option α) {a b : ℕ} (h : ∀ t, a ≤ t → t < b → f t = none) :
    collect f a b = [] := by
  simp only [collect, List.filterMap_eq_nil_iff, List.mem_range'_1]
  intro t ht
  exact h t ht.1 (by omega)

/-- The cycles from `a` to `b` report exactly `l`. -/
structure Observed (f : ℕ → Option α) (a b : ℕ) (l : List α) : Prop where
  le : a ≤ b
  eq : collect f a b = l

namespace Observed

variable {f : ℕ → Option α} {a b c : ℕ} {l m : List α}

theorem refl (f : ℕ → Option α) (a : ℕ) : Observed f a a [] := ⟨le_rfl, collect_self f a⟩

theorem trans (h : Observed f a b l) (k : Observed f b c m) : Observed f a c (l ++ m) :=
  ⟨h.le.trans k.le, by rw [collect_append f h.le k.le, h.eq, k.eq]⟩

theorem step (f : ℕ → Option α) (a : ℕ) : Observed f a (a + 1) (f a).toList :=
  ⟨Nat.le_succ a, collect_one f a⟩

theorem silent (hab : a ≤ b) (h : ∀ t, a ≤ t → t < b → f t = none) : Observed f a b [] :=
  ⟨hab, collect_silent f h⟩

end Observed

end AlteraWorkshops.Clocked
