import AlteraWorkshops.Uart.Transmitter
import Mathlib.Tactic.Ring

/-! The period of `baud_out`. The divider inverts `baud_out` every `clks_per_bit` edges of
`iCLK`, and a bit goes out with every rising edge of `baud_out`, which is every other
inversion. -/

namespace AlteraWorkshops.Uart

open Clocked

variable {clksPerBit : ℕ} (s₀ : State) {inp : ℕ → Ports} {t₀ t k : ℕ}

/-! ### The divider -/

@[simp] theorem step_clkCnt (s : State) (i : Ports) :
    (step clksPerBit s i).clkCnt = (baudRate clksPerBit i s).1 := rfl

@[simp] theorem step_baudOut (s : State) (i : Ports) :
    (step clksPerBit s i).baudOut = (baudRate clksPerBit i s).2 := rfl

/-- `init_done` releases the reset after instant `t₀`. -/
structure Released (inp : ℕ → Ports) (t₀ : ℕ) : Prop where
  held : (inp t₀).nInitDone = true
  free : ∀ t, t₀ < t → (inp t).nInitDone = false

/-- `c` edges of `iCLK` and `r` rising edges of `baud_out` after the release: `baud_out` was
inverted `q` times. -/
structure Divided (clksPerBit c r q : ℕ) (s : State) : Prop where
  clocks : c = clksPerBit * q + s.clkCnt
  lt : s.clkCnt < clksPerBit
  level : s.baudOut = decide (q % 2 = 1)
  rises : r = (q + 1) / 2

/-- What one instant does to the divider. -/
theorem Divided.step {c r q : ℕ} {s : State} (h : Divided clksPerBit c r q s) {i : Ports}
    (hi : i.nInitDone = false) :
    ∃ q', Divided clksPerBit (c + if i.iClk = true then 1 else 0)
      (r + if s.baudOut = false ∧ (step clksPerBit s i).baudOut = true then 1 else 0) q'
      (step clksPerBit s i) := by
  obtain ⟨hc, hlt, hlevel, hr⟩ := h
  cases hclk : i.iClk with
  | false =>
    have hbaud : baudRate clksPerBit i s = (s.clkCnt, s.baudOut) := by simp [baudRate, hi, hclk]
    exact ⟨q, by simpa [hbaud] using hc, by simpa [hbaud] using hlt, by simpa [hbaud] using hlevel,
      by cases hs : s.baudOut <;> simp [hbaud, hs, hr]⟩
  | true =>
    by_cases hwrap : s.clkCnt = clksPerBit - 1
    · have hbaud : baudRate clksPerBit i s = (0, !s.baudOut) := by simp [baudRate, hi, hclk, hwrap]
      have hmul : clksPerBit * (q + 1) = clksPerBit * q + clksPerBit := Nat.mul_succ ..
      refine ⟨q + 1, ?_, ?_, ?_, ?_⟩
      · simp only [step_clkCnt, hbaud, ↓reduceIte]
        omega
      · simp only [step_clkCnt, hbaud]
        omega
      · rcases Nat.mod_two_eq_zero_or_one q with hq | hq <;>
          simp [hbaud, hlevel, hq, Nat.add_mod]
      · -- the inversions with an odd number are the rising edges
        rcases Nat.mod_two_eq_zero_or_one q with hq | hq <;>
          simp only [step_baudOut, hbaud, hlevel, hq] <;> simp <;> omega
    · have hbaud : baudRate clksPerBit i s = (s.clkCnt + 1, s.baudOut) := by
        simp [baudRate, hi, hclk, hwrap]
      refine ⟨q, ?_, ?_, ?_, ?_⟩
      · simp only [step_clkCnt, hbaud, ↓reduceIte]
        omega
      · simp only [step_clkCnt, hbaud]
        omega
      · simpa [hbaud] using hlevel
      · cases hs : s.baudOut <;> simp [hbaud, hs, hr]

/-- The divider at every instant after the release. -/
theorem divided_run (hpos : 1 ≤ clksPerBit) (hrel : Released inp t₀) (ht : t₀ < t) :
    ∃ q, Divided clksPerBit (clocks inp t - clocks inp (t₀ + 1))
      (rises (run clksPerBit s₀ inp) t - rises (run clksPerBit s₀ inp) (t₀ + 1)) q
      (run clksPerBit s₀ inp t) := by
  induction t, ht using Nat.le_induction with
  | base =>
    refine ⟨0, ?_, ?_, ?_, ?_⟩ <;> simp [run, trace, baudRate, hrel.held]
    omega
  | succ t ht ih =>
    obtain ⟨q, hq⟩ := ih
    obtain ⟨q', hq'⟩ := hq.step (hrel.free t ht)
    have hclocks : clocks inp (t₀ + 1) ≤ clocks inp t := clocks_mono inp ht
    have hrises : rises (run clksPerBit s₀ inp) (t₀ + 1) ≤ rises (run clksPerBit s₀ inp) t :=
      rises_mono _ ht
    refine ⟨q', ?_⟩
    rw [clocks_succ, rises_succ, Nat.sub_add_comm hclocks, Nat.sub_add_comm hrises]
    exact hq'

/-! ### Rising edges -/

/-- `baud_out` rises only when the divider wraps. -/
theorem wraps_of_rise {s : State} {i : Ports} (hlow : s.baudOut = false)
    (hhigh : (step clksPerBit s i).baudOut = true) : s.clkCnt = clksPerBit - 1 := by
  by_contra hne
  have hkept : (baudRate clksPerBit i s).2 = false := by
    unfold baudRate
    split_ifs <;> first | rfl | exact hlow
  rw [step_baudOut, hkept] at hhigh
  exact Bool.false_ne_true hhigh

/-- The rising edge with number `k` comes with edge `clks_per_bit * (2 * k + 1)` of `iCLK`. -/
theorem rise_clock (hpos : 1 ≤ clksPerBit) (hrel : Released inp t₀) (ht : t₀ < t)
    (hrise : Rise (run clksPerBit s₀ inp) t) :
    clocks inp t - clocks inp (t₀ + 1) + 1 =
      clksPerBit *
        (2 * (rises (run clksPerBit s₀ inp) t - rises (run clksPerBit s₀ inp) (t₀ + 1)) + 1) := by
  obtain ⟨q, hc, hlt, hlevel, hr⟩ := divided_run s₀ hpos hrel ht
  have hwrap := wraps_of_rise hrise.1 hrise.2
  have heven : q % 2 = 0 := by
    rw [hrise.1, eq_comm, decide_eq_false_iff_not] at hlevel
    omega
  have hq : q = 2 * ((q + 1) / 2) := by omega
  rw [hr, ← hq, Nat.mul_succ]
  omega

/-- The next rising edge after `e` is the one with the next number. -/
theorem rises_next {s : ℕ → State} {e e' : ℕ} (he : Rise s e) (hlt : e < e')
    (hnone : ∀ u, e < u → u < e' → ¬Rise s u) : rises s e' = rises s e + 1 := by
  induction e', hlt using Nat.le_induction with
  | base => rw [rises_succ, if_pos he]
  | succ t ht ih =>
    rw [rises_succ, if_neg (hnone t ht (Nat.lt_succ_self t)), add_zero]
    exact ih fun u h1 h2 => hnone u h1 (h2.trans (Nat.lt_succ_self t))

/-- Two rising edges of `baud_out` with none between them. -/
structure NextRise (s : ℕ → State) (e e' : ℕ) : Prop where
  first : Rise s e
  next : Rise s e'
  lt : e < e'
  none : ∀ u, e < u → u < e' → ¬Rise s u

theorem clocks_nextRise (hpos : 1 ≤ clksPerBit) (hrel : Released inp t₀) {e e' : ℕ}
    (he : t₀ < e) (h : NextRise (run clksPerBit s₀ inp) e e') :
    clocks inp e' = clocks inp e + 2 * clksPerBit := by
  have hfirst := rise_clock s₀ hpos hrel he h.first
  have hnext := rise_clock s₀ hpos hrel (he.trans h.lt) h.next
  have hbase : clocks inp (t₀ + 1) ≤ clocks inp e := clocks_mono inp he
  have hmono : clocks inp e ≤ clocks inp e' := clocks_mono inp h.lt.le
  have hrises : rises (run clksPerBit s₀ inp) (t₀ + 1) ≤ rises (run clksPerBit s₀ inp) e :=
    rises_mono _ he
  rw [rises_next h.first h.lt h.none, Nat.sub_add_comm hrises] at hnext
  generalize rises (run clksPerBit s₀ inp) e - rises (run clksPerBit s₀ inp) (t₀ + 1) = k at *
  have hmul : clksPerBit * (2 * (k + 1) + 1) = clksPerBit * (2 * k + 1) + 2 * clksPerBit := by
    ring
  omega

/-! ### Every rising edge comes -/

/-- `iCLK` never stops. -/
def Ticking (inp : ℕ → Ports) : Prop := ∀ t, ∃ u, t ≤ u ∧ (inp u).iClk = true

theorem clocks_unbounded (hclk : Ticking inp) (a n : ℕ) :
    ∃ t, a ≤ t ∧ n ≤ clocks inp (t + 1) - clocks inp a := by
  induction n with
  | zero => exact ⟨a, le_rfl, Nat.zero_le _⟩
  | succ n ih =>
    obtain ⟨t, ht, hn⟩ := ih
    obtain ⟨u, hu, hrises⟩ := hclk (t + 1)
    have hmono : clocks inp (t + 1) ≤ clocks inp u := clocks_mono inp hu
    have hbase : clocks inp a ≤ clocks inp (t + 1) := clocks_mono inp (by omega)
    refine ⟨u, by omega, ?_⟩
    rw [clocks_succ, if_pos hrises]
    omega

theorem exists_rise (hpos : 1 ≤ clksPerBit) (hrel : Released inp t₀) (hclk : Ticking inp) (k : ℕ) :
    ∃ e, t₀ < e ∧ Rise (run clksPerBit s₀ inp) e ∧
      rises (run clksPerBit s₀ inp) e - rises (run clksPerBit s₀ inp) (t₀ + 1) = k := by
  obtain ⟨e, he, hreached, hfirst⟩ := exists_first
    (clocks_unbounded hclk (t₀ + 1) (clksPerBit * (2 * k + 1)))
  have hbefore : clocks inp e - clocks inp (t₀ + 1) < clksPerBit * (2 * k + 1) := by
    rcases Nat.eq_or_lt_of_le he with rfl | hlt
    · rw [Nat.sub_self]
      exact Nat.mul_pos hpos (Nat.succ_pos _)
    · have hlast := hfirst (e - 1) (by omega) (by omega)
      rwa [Nat.sub_add_cancel (by omega), not_le] at hlast
  have hbase : clocks inp (t₀ + 1) ≤ clocks inp e := clocks_mono inp he
  rw [clocks_succ] at hreached
  have htick : (inp e).iClk = true := by
    by_contra hno
    rw [if_neg hno] at hreached
    omega
  rw [if_pos htick] at hreached
  obtain ⟨q, hc, hlt, hlevel, hr⟩ := divided_run s₀ hpos hrel he
  have hq : q = 2 * k := by
    have h1 : q < 2 * k + 1 := Nat.lt_of_mul_lt_mul_left (a := clksPerBit) (by omega)
    have h2 : 2 * k + 1 < q + 2 := by
      apply Nat.lt_of_mul_lt_mul_left (a := clksPerBit)
      rw [Nat.mul_add clksPerBit q 2]
      omega
    omega
  rw [hq] at hc hlevel hr
  have hlow : (run clksPerBit s₀ inp e).baudOut = false := by
    rw [hlevel, Nat.mul_mod_right]
    rfl
  have hwrap : (run clksPerBit s₀ inp e).clkCnt = clksPerBit - 1 := by
    rw [Nat.mul_succ] at hreached hbefore
    omega
  refine ⟨e, he, ⟨hlow, ?_⟩, ?_⟩
  · show (baudRate clksPerBit (inp e) (run clksPerBit s₀ inp e)).2 = true
    simp [baudRate, hrel.free e he, htick, hwrap, hlow]
  · rw [hr]
    omega

/-- The rising edge with number `k` and the next one. -/
theorem exists_nextRise (hpos : 1 ≤ clksPerBit) (hrel : Released inp t₀) (hclk : Ticking inp)
    (k : ℕ) :
    ∃ e e', t₀ < e ∧ NextRise (run clksPerBit s₀ inp) e e' ∧
      rises (run clksPerBit s₀ inp) e - rises (run clksPerBit s₀ inp) (t₀ + 1) = k := by
  obtain ⟨e, he, hrise, hk⟩ := exists_rise s₀ hpos hrel hclk k
  obtain ⟨e₂, he₂, hrise₂, hk₂⟩ := exists_rise s₀ hpos hrel hclk (k + 1)
  have hlt : e < e₂ := by
    by_contra hle
    have : rises (run clksPerBit s₀ inp) e₂ ≤ rises (run clksPerBit s₀ inp) e :=
      rises_mono _ (not_lt.mp hle)
    omega
  obtain ⟨e', hlt', hrise', hnone⟩ := exists_first ⟨e₂, hlt, hrise₂⟩
  exact ⟨e, e', he, ⟨hrise, hrise', hlt', fun u h1 h2 => hnone u h1 h2⟩, hk⟩

/-! ### The bit time -/

/-- A bit lasts twice `clks_per_bit` edges of `iCLK`, for every divider, after every release
and from every rising edge on, and every rising edge comes when `iCLK` does not stop. -/
theorem bit_time (clksPerBit : ℕ) (hpos : 1 ≤ clksPerBit) (s₀ : State)
    (hrel : Released inp t₀) :
    (∀ e e', t₀ < e → NextRise (run clksPerBit s₀ inp) e e' →
      clocks inp e' - clocks inp e = 2 * clksPerBit ∧
        clocks inp e' - clocks inp e ≠ clksPerBit) ∧
    (Ticking inp → ∀ k, ∃ e e', t₀ < e ∧ NextRise (run clksPerBit s₀ inp) e e' ∧
      rises (run clksPerBit s₀ inp) e - rises (run clksPerBit s₀ inp) (t₀ + 1) = k) := by
  refine ⟨fun e e' he h => ?_, fun hclk k => exists_nextRise s₀ hpos hrel hclk k⟩
  have hclocks := clocks_nextRise s₀ hpos hrel he h
  omega

/-- The reset is held at instant 0; from then on every instant is an edge of `iCLK`. -/
def clocked (t : ℕ) : Ports := ⟨true, t == 0, true⟩

theorem released_clocked : Released clocked 0 where
  held := rfl
  free _ ht := beq_false_of_ne (Nat.ne_of_gt ht)

theorem ticking_clocked : Ticking clocked := fun t => ⟨t, le_rfl, rfl⟩

/-- With the divider of the design, 217. -/
theorem bit_time_217 :
    let s := run 217 (.initial false 0 fun _ => true) clocked
    (∀ e e', 0 < e → NextRise s e e' → clocks clocked e' - clocks clocked e = 2 * 217 ∧
        clocks clocked e' - clocks clocked e ≠ 217) ∧
      ∃ e e', 0 < e ∧ NextRise s e e' ∧ rises s e - rises s 1 = 0 :=
  have h := bit_time 217 (by decide) (.initial false 0 fun _ => true) released_clocked
  ⟨h.1, h.2 ticking_clocked 0⟩

/-- The comment and the clock constraint have one bit in 217 clocks; it lasts 434. -/
theorem bit_time_not_clksPerBit :
    ¬∀ (clksPerBit : ℕ) (s₀ : State) (inp : ℕ → Ports) (t₀ e e' : ℕ), 1 ≤ clksPerBit →
      Released inp t₀ → t₀ < e → NextRise (run clksPerBit s₀ inp) e e' →
        clocks inp e' - clocks inp e = clksPerBit := by
  intro h
  let s₀ : State := .initial false 0 fun _ => true
  have hpos : 1 ≤ 217 := by decide
  obtain ⟨e, e', he, hnext, -⟩ := exists_nextRise s₀ hpos released_clocked ticking_clocked 0
  have hclaim := h 217 s₀ clocked 0 e e' hpos released_clocked he hnext
  have hclocks := clocks_nextRise s₀ hpos released_clocked he hnext
  omega

end AlteraWorkshops.Uart
