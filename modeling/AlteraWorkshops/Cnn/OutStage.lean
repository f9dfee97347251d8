import AlteraWorkshops.Clocked.Trace
import AlteraWorkshops.Cnn.Mac
import AlteraWorkshops.Numbers.Digits

/-! The counters with which `CNN_Convolution` and `NN_Layer` send their results, and what
they count after each round of sums. -/

namespace AlteraWorkshops.Cnn

structure OutGenerics where
  /-- `Filter_Cycles`, `Output_Cycles` -/
  cycles : ℕ
  /-- `Filter_Delay`, `Output_Delay`: cycles between the values. -/
  delay : ℕ
  ramElements : ℕ

structure OutStage where
  /-- The variable `Out_Cycle_Cnt`, `Out_Filter_Cnt`. -/
  cnt : ℕ
  cntReg : ℕ
  delayCnt : ℕ
  ready : Bool
  rdAddr : ℕ

namespace OutStage

def initial (g : OutGenerics) : OutStage := ⟨g.cycles - 1, g.cycles - 1, g.delay - 1, false, 0⟩

/-- Count through the results of a round. -/
def step (g : OutGenerics) (s : OutStage) (lastInput : Bool) : OutStage :=
  let next :=
    if lastInput then (0, 0, true)
    else if s.delayCnt < g.delay - 1 then (s.cnt, s.delayCnt + 1, false)
    else if s.cntReg < g.cycles - 1 then (s.cntReg + 1, 0, true)
    else (s.cnt, s.delayCnt, false)
  { cnt := next.1
    cntReg := next.1
    delayCnt := next.2.1
    ready := next.2.2
    rdAddr := next.1 / (g.cycles / g.ramElements) }

/-- The results read from the memory that are sent at once. -/
def select (g : OutGenerics) (s : OutStage) (outValues : ℕ) (outRam : ℕ → ℕ → Result) (i : ℕ) :
    Result :=
  if g.cycles = g.ramElements then outRam s.rdAddr i
  else outRam s.rdAddr (i + s.cntReg % (g.cycles / g.ramElements) * outValues)

/-! ### Rounds -/

variable {g : OutGenerics} {s : ℕ → OutStage} {last : ℕ → Bool} {time : ℕ → ℕ} {o : OutStage}
  {d j k t u : ℕ}

/-- The counters `d` edges after the one that ended a round. -/
structure Counted (g : OutGenerics) (o : OutStage) (d : ℕ) : Prop where
  cnt : o.cnt = min (d / g.delay) (g.cycles - 1)
  cntReg : o.cntReg = o.cnt
  delayCnt : o.delayCnt = if d / g.delay < g.cycles then d % g.delay else g.delay - 1
  ready : o.ready = true ↔ d / g.delay < g.cycles ∧ d % g.delay = 0
  rdAddr : o.rdAddr = o.cnt / (g.cycles / g.ramElements)

theorem counted_start (hc : 0 < g.cycles) (o : OutStage) :
    Counted g (o.step g true) 0 := by
  have hdiv : 0 / g.delay = 0 := Nat.zero_div _
  refine ⟨?_, rfl, ?_, ?_, rfl⟩
  · rw [hdiv]
    exact (Nat.zero_min _).symm
  · rw [hdiv, if_pos hc]
    exact (Nat.zero_mod _).symm
  · rw [hdiv]
    exact ⟨fun _ => ⟨hc, Nat.zero_mod _⟩, fun _ => rfl⟩

theorem Counted.next (hd : 0 < g.delay) (hc : 0 < g.cycles) (h : Counted g o d) :
    Counted g (o.step g false) (d + 1) := by
  have hmod := Nat.mod_lt d hd
  have hreg := h.cntReg.trans h.cnt
  have hdelay := h.delayCnt
  -- wait between two results, go on to the next one, or stay at the last one
  by_cases hwait : o.delayCnt < g.delay - 1
  · have hin : d / g.delay < g.cycles := by
      by_contra hout
      rw [if_neg hout] at hdelay
      omega
    rw [if_pos hin] at hdelay
    obtain ⟨hdiv, hsucc⟩ := Numbers.div_mod_succ_of_lt (m := d) (q := g.delay) (by omega)
    unfold step
    simp only [Bool.false_eq_true, if_false, if_pos hwait]
    refine ⟨?_, rfl, ?_, ?_, rfl⟩
    · rw [hdiv]
      exact h.cnt
    · rw [hdiv, if_pos hin, hsucc, hdelay]
    · rw [hdiv, hsucc]
      simp
  · by_cases hmore : o.cntReg < g.cycles - 1
    · have hin : d / g.delay < g.cycles := by omega
      rw [if_pos hin] at hdelay
      obtain ⟨hdiv, hsucc⟩ := Numbers.div_mod_succ_of_eq (m := d) hd (by omega)
      unfold step
      simp only [Bool.false_eq_true, if_false, if_neg hwait, if_pos hmore]
      refine ⟨?_, rfl, ?_, ?_, rfl⟩
      · rw [hdiv]
        dsimp only
        omega
      · rw [hdiv, if_pos (by omega), hsucc]
      · rw [hdiv, hsucc]
        simp
        omega
    · have hlast : g.cycles ≤ (d + 1) / g.delay := by
        by_cases hin : d / g.delay < g.cycles
        · rw [if_pos hin] at hdelay
          rw [(Numbers.div_mod_succ_of_eq (m := d) hd (by omega)).1]
          omega
        · exact (not_lt.mp hin).trans (Nat.div_le_div_right (Nat.le_succ d))
      unfold step
      simp only [Bool.false_eq_true, if_false, if_neg hwait, if_neg hmore]
      refine ⟨?_, rfl, ?_, ?_, rfl⟩
      · have hcnt := h.cnt
        dsimp only
        omega
      · rw [if_neg (not_lt.mpr hlast)]
        dsimp only
        split_ifs at hdelay <;> omega
      · simp
        omega

/-- The counters of a run, with the ends of the rounds. -/
structure Rounds (g : OutGenerics) (s : ℕ → OutStage) (last : ℕ → Bool) (time : ℕ → ℕ) : Prop where
  init : s 0 = initial g
  next : ∀ t, s (t + 1) = (s t).step g (last t)
  delay : 0 < g.delay
  cycles : 0 < g.cycles
  room : ∀ j, time j + g.cycles * g.delay ≤ time (j + 1)
  last_iff : ∀ t, last t = true ↔ ∃ j, t = time j

namespace Rounds

theorem mono (h : Rounds g s last time) : StrictMono time := strictMono_nat_of_lt_succ fun j => by
  have hroom := h.room j
  have hpos := Nat.mul_pos h.cycles h.delay
  omega

theorem last_eq_false (h : Rounds g s last time) (h1 : time j < t) (h2 : t < time (j + 1)) :
    last t = false := by
  rw [← Bool.not_eq_true, h.last_iff]
  rintro ⟨i, rfl⟩
  have hlow := h.mono.lt_iff_lt.mp h1
  have hhigh := h.mono.lt_iff_lt.mp h2
  omega

theorem counted (h : Rounds g s last time) (hd : time j + d < time (j + 1)) :
    Counted g (s (time j + d + 1)) d := by
  induction d with
  | zero =>
    rw [h.next, (h.last_iff _).mpr ⟨j, rfl⟩]
    exact counted_start h.cycles _
  | succ d ih =>
    rw [h.next, h.last_eq_false (j := j) (by omega) hd]
    exact (ih (by omega)).next h.delay h.cycles

/-- Up to the end of the first round there is nothing to send. -/
theorem eq_init_of_le (h : Rounds g s last time) (ht : t ≤ time 0) :
    (s t).ready = false ∧ (s t).cnt = g.cycles - 1 ∧ (s t).cntReg = g.cycles - 1 ∧
      (s t).delayCnt = g.delay - 1 := by
  induction t with
  | zero =>
    rw [h.init]
    exact ⟨rfl, rfl, rfl, rfl⟩
  | succ t ih =>
    obtain ⟨-, hcnt, hreg, hdelay⟩ := ih (by omega)
    have hlast : last t = false := by
      rw [← Bool.not_eq_true, h.last_iff]
      rintro ⟨i, rfl⟩
      have hle := h.mono.monotone (Nat.zero_le i)
      omega
    rw [h.next, hlast, step, hcnt, hreg, hdelay]
    simp

/-- The results go out one by one, in their order. -/
theorem ready_iff (h : Rounds g s last time) (t : ℕ) :
    (s t).ready = true ↔ ∃ j, ∃ k < g.cycles, t = time j + k * g.delay + 1 := by
  constructor
  · intro ht
    rcases Nat.lt_or_ge (time 0) t with hlt | hle
    · obtain ⟨j, h1, h2⟩ := Clocked.exists_interval h.mono (show time 0 ≤ t - 1 by omega)
      obtain ⟨d, rfl⟩ : ∃ d, t = time j + d + 1 := ⟨t - time j - 1, by omega⟩
      obtain ⟨hin, hmod⟩ := (h.counted (j := j) (d := d) (by omega)).ready.mp ht
      refine ⟨j, d / g.delay, hin, ?_⟩
      have hdiv := Nat.div_add_mod' d g.delay
      omega
    · rw [(h.eq_init_of_le hle).1] at ht
      cases ht
  · rintro ⟨j, k, hk, rfl⟩
    have hroom := h.room j
    have hlt : k * g.delay < g.cycles * g.delay := Nat.mul_lt_mul_of_pos_right hk h.delay
    refine (h.counted (j := j) (d := k * g.delay) (by omega)).ready.mpr ?_
    rw [Nat.mul_div_cancel _ h.delay]
    exact ⟨hk, Nat.mul_mod_left _ _⟩

/-- The counters when result `k` goes out. -/
theorem cntReg_eq (h : Rounds g s last time) (j : ℕ) (hk : k < g.cycles) :
    (s (time j + k * g.delay + 1)).cntReg = k ∧ (s (time j + k * g.delay + 1)).delayCnt = 0 ∧
      (s (time j + k * g.delay + 1)).rdAddr = k / (g.cycles / g.ramElements) := by
  have hroom := h.room j
  have hlt : k * g.delay < g.cycles * g.delay := Nat.mul_lt_mul_of_pos_right hk h.delay
  have hc := h.counted (j := j) (d := k * g.delay) (by omega)
  have hdiv : k * g.delay / g.delay = k := Nat.mul_div_cancel _ h.delay
  have hcnt := hc.cnt
  have hdelay := hc.delayCnt
  rw [hdiv] at hcnt hdelay
  rw [if_pos hk, Nat.mul_mod_left] at hdelay
  rw [hc.cntReg, hc.rdAddr, hcnt, show min k (g.cycles - 1) = k by omega]
  exact ⟨rfl, hdelay, rfl⟩

end Rounds

end OutStage

end AlteraWorkshops.Cnn
