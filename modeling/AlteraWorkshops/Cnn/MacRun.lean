import AlteraWorkshops.Clocked.ReadModifyWrite
import AlteraWorkshops.Clocked.Trace
import AlteraWorkshops.Cnn.Mac
import AlteraWorkshops.Cnn.NeuronSums

/-! The pipeline of a layer over a whole run: inputs come one after the other, each is used
for all outputs, and after the last input of a sum the results are in their memory. -/

namespace AlteraWorkshops.Cnn

open Clocked (ReadModifyWrite Bursts Requests wordBefore)

namespace Neuron

/-- What the groups are added to does not depend on the buffer before. -/
theorem accumulate_groupSums {n : Neuron} (hn : n.Tiled) {x : CnnValues} {w : ℕ → ℤ}
    (hw : Bounded w) (b b' : ℕ → BitVec n.groupSumTotalBits) :
    n.accumulate (n.groupSums x w b) = n.accumulate (n.groupSums x w b') := by
  funext sum
  unfold accumulate
  have hsame : ∀ i ∈ List.range n.groupSumResults, n.groupSums x w b i = n.groupSums x w b' i := by
    intro i hi
    apply BitVec.eq_of_toInt_eq
    have hlt := List.mem_range.mp hi
    rw [toInt_groupSums hn hw b hlt, toInt_groupSums hn hw b' hlt]
  exact List.foldl_ext _ _ _ fun a i hi => by rw [hsame i hi]

end Neuron

namespace Mac

variable {g : MacGenerics}

/-- The states of a pipeline. -/
def run (i : ℕ → MacInput) : ℕ → Mac g
  | 0 => .initial g
  | t + 1 => (run i t).step (i t)

/-- Input `c` comes in edge `start c`; from the next one on the pipeline calculates, one
output per edge, each with its values and weights. Before the first input it rests. -/
structure Schedule (g : MacGenerics) (start : ℕ → ℕ) (i : ℕ → MacInput)
    (x : ℕ → ℕ → CnnValues) (w : ℕ → ℕ → ℕ → ℕ → ℤ) : Prop where
  tiled : g.neuron.Tiled
  bounded : ∀ c k o, Bounded (w c k o)
  calcCycles : 2 ≤ g.calcCycles
  inputCycles : 0 < g.inputCycles
  room : ∀ c, start c + g.calcCycles ≤ start (c + 1)
  idle : (i (start 0)).calcEn = false
  calcEn : ∀ c u, start c ≤ u → u < start (c + 1) →
    (i (u + 1)).calcEn = decide (u < start c + g.calcCycles)
  early : ∀ u, u + 1 = start 0 → (i u).cnt ≠ 0
  cnt : ∀ c u, start c ≤ u → u < start (c + 1) → (i u).cnt = min (u - start c) (g.calcCycles - 1)
  cnt2 : ∀ u, start 0 ≤ u → (i (u + 2)).cnt2 = (i u).cnt
  cycle2 : ∀ c u, start c ≤ u → u < start (c + 1) → (i (u + 2)).cycle2 = c % g.inputCycles
  data : ∀ c, ∀ k < g.calcCycles, (i (start c + k + 1)).data = x c k
  weights : ∀ c, ∀ k < g.calcCycles, (i (start c + k + 1)).weights = w (c % g.inputCycles) k

variable {start : ℕ → ℕ} {i : ℕ → MacInput} {x : ℕ → ℕ → CnnValues} {w : ℕ → ℕ → ℕ → ℕ → ℤ}
  {c j k o u : ℕ}

/-! ### Registers -/

theorem sumRdAddrReg_succ (t : ℕ) : (run (g := g) i (t + 1)).sumRdAddrReg = (i t).cnt := rfl

theorem calcEnSum_succ (t : ℕ) : (run (g := g) i (t + 1)).calcEnSum = (i t).calcEn := rfl

theorem sumWrData_succ (t : ℕ) :
    (run (g := g) i (t + 1)).sumWrData =
      if (run (g := g) i t).calcEnSum ∧ 1 < g.calcCycles then (run (g := g) i t).nextSum (i t)
      else (run (g := g) i t).sumWrData := rfl

/-! ### Sums -/

/-- What a request makes of the sums it finds. -/
def change (i : ℕ → MacInput) (u : ℕ) (last : ℕ → g.Sum) (o : ℕ) : g.Sum :=
  g.neuron.accumulate ((run i (u + 1)).prodBuf o) (if (i (u + 1)).cycle2 = 0 then 0 else last o)

section Run

variable (h : Schedule g start i x w)

include h in
theorem Schedule.mono : StrictMono start := strictMono_nat_of_lt_succ fun c => by
  have hroom := h.room c
  have hcalc := h.calcCycles
  omega

include h in
/-- Every edge from the first input on belongs to an input. -/
theorem Schedule.exists_input (hu : start 0 ≤ u) : ∃ c, start c ≤ u ∧ u < start (c + 1) :=
  Clocked.exists_interval h.mono hu

include h in
/-- The memory of the sums from the first input on. -/
theorem Schedule.readModifyWrite :
    ReadModifyWrite (fun t => (run (g := g) i (t + start 0)).sumRam)
      (fun t => (run (g := g) i (t + start 0)).sumWrAddr)
      (fun t => (run (g := g) i (t + start 0)).sumWrData) (fun t => (i (t + start 0)).calcEn)
      (fun t => (run (g := g) i (t + start 0)).sumRdAddrReg)
      (fun t => change i (t + start 0)) := by
  have hcalc := h.calcCycles
  refine ⟨fun t => ?_, fun t => ?_, fun t => ?_, fun t ht => ?_, fun t ht haddr => ?_⟩
  · rw [Nat.add_right_comm]
    rfl
  · rw [Nat.add_right_comm]
    rfl
  · rw [Nat.add_right_comm t 2, sumWrData_succ, Nat.add_right_comm t 1, calcEnSum_succ]
    simp only [show 1 < g.calcCycles by omega, and_true]
    congr 1
    funext o
    unfold nextSum change
    rw [if_pos (show 1 < g.calcCycles by omega)]
    rfl
  · have hu : start 0 ≤ t + start 0 := by omega
    rw [Nat.add_right_comm t 1] at ht ⊢
    generalize t + start 0 = u at hu ht ⊢
    obtain ⟨c, h1, h2⟩ := h.exists_input hu
    rw [h.calcEn c u h1 h2, decide_eq_false_iff_not] at ht
    obtain ⟨v, rfl⟩ : ∃ v, u = v + 1 := ⟨u - 1, by omega⟩
    rw [sumRdAddrReg_succ, sumRdAddrReg_succ, h.cnt c _ h1 h2, h.cnt c v (by omega) (by omega)]
    omega
  · have hu : start 0 ≤ t + start 0 := by omega
    rw [Nat.add_right_comm t 1] at ht haddr ⊢
    generalize t + start 0 = u at hu ht haddr ⊢
    obtain ⟨c, h1, h2⟩ := h.exists_input hu
    rw [h.calcEn c u h1 h2, decide_eq_true_eq] at ht
    rw [sumRdAddrReg_succ, h.cnt c u h1 h2] at haddr
    cases u with
    | zero =>
      have hzero : start 0 = 0 := Nat.le_zero.mp hu
      have hidle := h.idle
      rw [hzero] at hidle
      exact ⟨hidle, rfl⟩
    | succ v =>
      rw [sumRdAddrReg_succ] at haddr
      exfalso
      rcases Nat.lt_or_ge v (start c) with hlt | hge
      · -- an input that comes now starts with the first word
        cases c with
        | zero => exact h.early v (by omega) (by omega)
        | succ c =>
          have hroom := h.room c
          rw [h.cnt c v (by omega) (by omega)] at haddr
          omega
      · rw [h.cnt c v hge (by omega)] at haddr
        omega

include h in
theorem Schedule.requests : Requests g.calcCycles (fun c => start c + 1 - start 0)
    fun t => (i (t + start 0)).calcEn := by
  intro c t h1 h2
  dsimp only at h1 h2 ⊢
  have hle : start 0 ≤ start c := h.mono.monotone (Nat.zero_le c)
  obtain ⟨u, hu⟩ : ∃ u, t + start 0 = u + 1 := ⟨t + start 0 - 1, by omega⟩
  rw [hu, h.calcEn c u (by omega) (by omega)]
  exact decide_eq_decide.mpr (by omega)

include h in
theorem Schedule.bursts : Bursts g.calcCycles (fun c => start c + 1 - start 0)
    (fun t => (run (g := g) i (t + start 0)).sumRdAddrReg) := by
  have hcalc := h.calcCycles
  have hfirst (c : ℕ) : start 0 ≤ start c := h.mono.monotone (Nat.zero_le c)
  refine ⟨by omega, fun c => ?_, fun c t h1 h2 => ?_⟩
  · have hroom := h.room c
    have hle := hfirst c
    omega
  · have hle := hfirst c
    obtain ⟨u, hu⟩ : ∃ u, t + start 0 = u + 1 := ⟨t + start 0 - 1, by omega⟩
    rw [hu, sumRdAddrReg_succ, h.cnt c u (by omega) (by omega)]
    omega

include h in
/-- The products of a request are those of its input. -/
theorem Schedule.prodBuf_eq (hk : k < g.calcCycles) :
    (run (g := g) i (start c + k + 2)).prodBuf =
      fun o => g.neuron.groupSums (x c k) (w (c % g.inputCycles) k o)
        ((run (g := g) i (start c + k + 1)).prodBuf o) := by
  have hroom := h.room c
  have hen := h.calcEn c (start c + k) (by omega) (by omega)
  rw [decide_eq_true (by omega)] at hen
  show (if (i (start c + k + 1)).calcEn then _ else _) = _
  rw [hen, if_pos rfl, h.data c k hk, h.weights c k hk]

/-- The sum of output `o` of request `k` after input `c`, over the inputs of its round. -/
def sumAfter (g : MacGenerics) (x : ℕ → ℕ → CnnValues) (w : ℕ → ℕ → ℕ → ℕ → ℤ) (c k o : ℕ) :
    g.Sum :=
  g.neuron.totalSum (fun m => x (c / g.inputCycles * g.inputCycles + m) k) (fun m => w m k o)
    (c % g.inputCycles + 1)

include h in
/-- The words of the memory are the sums. -/
theorem Schedule.wordBefore_eq (v : ℕ → ℕ → g.Sum) (hk : k < g.calcCycles) :
    wordBefore (fun c k => change i (start c + 1 - start 0 + k + start 0)) v (c + 1) k o =
      sumAfter g x w c k o := by
  have hfirst (c : ℕ) : start 0 ≤ start c := h.mono.monotone (Nat.zero_le c)
  have hpos := h.inputCycles
  have hstep (c : ℕ) (last : ℕ → g.Sum) :
      change i (start c + 1 - start 0 + k + start 0) last o =
        g.neuron.accumulate (g.neuron.groupSums (x c k) (w (c % g.inputCycles) k o) fun _ => 0)
          (if c % g.inputCycles = 0 then 0 else last o) := by
    have hle := hfirst c
    have hroom := h.room c
    rw [show start c + 1 - start 0 + k + start 0 = start c + k + 1 by omega, change,
      h.prodBuf_eq hk, h.cycle2 c (start c + k) (by omega) (by omega)]
    exact congrFun (Neuron.accumulate_groupSums h.tiled (h.bounded _ _ _) _ _) _
  have hnext (c : ℕ) (last : ℕ → g.Sum) (hlast : c % g.inputCycles ≠ 0 →
      last o = g.neuron.totalSum (fun m => x (c / g.inputCycles * g.inputCycles + m) k)
        (fun m => w m k o) (c % g.inputCycles)) :
      change i (start c + 1 - start 0 + k + start 0) last o = sumAfter g x w c k o := by
    rw [hstep, sumAfter, Neuron.totalSum, Nat.div_add_mod' c g.inputCycles]
    congr 1
    split_ifs with hzero
    · rw [hzero]
      rfl
    · exact hlast hzero
  induction c with
  | zero => exact hnext 0 _ fun hne => absurd (Nat.zero_mod _) hne
  | succ c ih =>
    refine hnext (c + 1) _ fun hne => ih.trans ?_
    have hlt : c % g.inputCycles + 1 < g.inputCycles := by
      refine (Numbers.mod_succ_lt_or_eq hpos c).resolve_right fun heq => ?_
      exact hne (Numbers.div_mod_succ_of_eq hpos heq).2
    obtain ⟨hdiv, hmod⟩ := Numbers.div_mod_succ_of_lt hlt
    rw [sumAfter, hdiv, hmod]

include h in
/-- Two edges after the products of a request its sums are written. -/
theorem Schedule.sumWrData_eq (hk : k < g.calcCycles) :
    (run (g := g) i (start c + k + 3)).sumWrData o = sumAfter g x w c k o := by
  have hle : start 0 ≤ start c := h.mono.monotone (Nat.zero_le c)
  have hdata := h.bursts.wrData_eq h.requests h.readModifyWrite (by omega) (fun _ _ _ => rfl) hk
    (c := c)
  rw [show start c + 1 - start 0 + k + 2 + start 0 = start c + k + 3 by omega] at hdata
  rw [hdata]
  exact h.wordBefore_eq _ hk

include h in
theorem Schedule.calcEnSum_request (c : ℕ) (hk : k < g.calcCycles) :
    (run (g := g) i (start c + k + 2)).calcEnSum = true := by
  have hroom := h.room c
  rw [calcEnSum_succ, h.calcEn c (start c + k) (by omega) (by omega)]
  exact decide_eq_true (by omega)

include h in
/-- The bias register follows the requests. -/
theorem Schedule.biasReg_eq (c : ℕ) (hk : k < g.calcCycles) :
    (run (g := g) i (start c + k + 3)).biasReg = k := by
  have hle : start 0 ≤ start c := h.mono.monotone (Nat.zero_le _)
  have hroom := h.room c
  show (if (run (g := g) i (start c + k + 2)).calcEnSum then (i (start c + k + 2)).cnt2 else _) = k
  rw [h.calcEnSum_request c hk, if_pos rfl, h.cnt2 _ (by omega),
    h.cnt c (start c + k) (by omega) (by omega)]
  omega

/-! ### Results -/

/-- The last input of round `j`. -/
def lastInput (g : MacGenerics) (j : ℕ) : ℕ := j * g.inputCycles + (g.inputCycles - 1)

/-- The result of output `o` of request `k` in round `j`. -/
def result (g : MacGenerics) (x : ℕ → ℕ → CnnValues) (w : ℕ → ℕ → ℕ → ℕ → ℤ) (j k o : ℕ) : Result :=
  g.neuron.actSum
    (g.neuron.totalSum (fun m => x (j * g.inputCycles + m) k) (fun m => w m k o) g.inputCycles)
    (g.bias (o + k * g.calcOutputs))

include h in
theorem lastInput_div_mod (j : ℕ) :
    lastInput g j / g.inputCycles = j ∧ lastInput g j % g.inputCycles = g.inputCycles - 1 := by
  have hpos := h.inputCycles
  unfold lastInput
  rw [Nat.mul_comm, Nat.mul_add_div hpos, Nat.mul_add_mod, Nat.div_eq_of_lt (by omega),
    Nat.mod_eq_of_lt (by omega)]
  exact ⟨rfl, rfl⟩

include h in
theorem lastInput_lt (j : ℕ) : lastInput g j < lastInput g (j + 1) := by
  have hpos := h.inputCycles
  unfold lastInput
  rw [Nat.succ_mul]
  omega

include h in
theorem mod_ne_last (h1 : lastInput g j < c) (h2 : c < lastInput g (j + 1)) :
    c % g.inputCycles ≠ g.inputCycles - 1 := by
  have hpos := h.inputCycles
  unfold lastInput at h1 h2
  rw [Nat.succ_mul] at h2
  obtain ⟨m, rfl⟩ : ∃ m, c = g.inputCycles * (j + 1) + m := by
    refine ⟨c - g.inputCycles * (j + 1), ?_⟩
    rw [Nat.mul_succ, Nat.mul_comm]
    omega
  rw [Nat.mul_succ, Nat.mul_comm] at h2
  rw [Nat.mul_add_mod, Nat.mod_eq_of_lt (by omega)]
  omega

include h in
/-- The bias is added after the requests of the last input. -/
theorem Schedule.addBias_iff (h1 : start c ≤ u) (h2 : u < start (c + 1)) :
    (run (g := g) i (u + 3)).addBias = true ↔
      u < start c + g.calcCycles ∧ c % g.inputCycles = g.inputCycles - 1 := by
  show ((i (u + 1)).calcEn && decide ((i (u + 2)).cycle2 = g.inputCycles - 1)) = true ↔ _
  rw [h.calcEn c u h1 h2, h.cycle2 c u h1 h2, Bool.and_eq_true, decide_eq_true_iff,
    decide_eq_true_iff]

include h in
/-- If nothing is calculated up to the first input, a bias is added three edges after the
request of an input. -/
theorem Schedule.exists_of_addBias {t : ℕ} (hidle : ∀ t ≤ start 0, (i t).calcEn = false)
    (ht : (run (g := g) i (t + 2)).addBias = true) :
    ∃ c u, t = u + 1 ∧ start c ≤ u ∧ u < start (c + 1) := by
  have hen : (i t).calcEn = true := by
    have hboth : ((i t).calcEn && decide ((i (t + 1)).cycle2 = g.inputCycles - 1)) = true := ht
    exact (Bool.and_eq_true_iff.mp hboth).1
  have hlt : start 0 < t := by
    by_contra hle
    rw [hidle t (not_lt.mp hle)] at hen
    cases hen
  obtain ⟨c, h1, h2⟩ := h.exists_input (show start 0 ≤ t - 1 by omega)
  exact ⟨c, t - 1, by omega, h1, h2⟩

theorem lastInput_of_mod {c : ℕ} (hmod : c % g.inputCycles = g.inputCycles - 1) :
    c = lastInput g (c / g.inputCycles) := by
  have hdiv := Nat.div_add_mod' c g.inputCycles
  unfold lastInput
  omega

include h in
/-- Three edges after request `k` of the last input its result is on its way to the
memory. -/
theorem Schedule.nextOut_eq (hram : g.calcCycles = g.outRamElements) (hk : k < g.calcCycles)
    (ho : o < g.calcOutputs) :
    (run (g := g) i (start (lastInput g j) + k + 4)).outWrAddr = k ∧
      (run (g := g) i (start (lastInput g j) + k + 4)).outWrData o = result g x w j k o := by
  obtain ⟨hdiv, hmod⟩ := lastInput_div_mod h j
  have hcalc := h.calcCycles
  have hroom := h.room (lastInput g j)
  have hadd := (h.addBias_iff (c := lastInput g j) (u := start (lastInput g j) + k) (by omega)
    (by omega)).mpr ⟨by omega, hmod⟩
  have hen := h.calcEnSum_request (lastInput g j) hk
  have hbias := h.biasReg_eq (lastInput g j) hk
  have hsum : (run (g := g) i (start (lastInput g j) + k + 3)).sumReg o =
      g.neuron.totalSum (fun m => x (j * g.inputCycles + m) k) (fun m => w m k o)
        g.inputCycles := by
    have hdata := h.sumWrData_eq (c := lastInput g j) (o := o) hk
    have hcycle := h.cycle2 (lastInput g j) (start (lastInput g j) + k) (by omega) (by omega)
    rw [sumWrData_succ, hen, if_pos ⟨rfl, by omega⟩, sumAfter, hdiv, hmod] at hdata
    have hpos := h.inputCycles
    rw [show g.inputCycles - 1 + 1 = g.inputCycles by omega] at hdata
    rw [← hdata]
    show (if _ then _ else _ : ℕ → g.Sum) o = _
    rw [hen, hcycle, hmod, if_pos ⟨rfl, rfl⟩]
  have hnext : (run (g := g) i (start (lastInput g j) + k + 3)).nextOut =
      ⟨k, fun p => if p < g.calcOutputs then
          (run (g := g) i (start (lastInput g j) + k + 3)).act p
        else (run (g := g) i (start (lastInput g j) + k + 3)).outWrData p,
        (run (g := g) i (start (lastInput g j) + k + 3)).actSumBuf⟩ := by
    rw [nextOut, hadd, if_pos rfl, if_pos hram, hbias]
  constructor
  · show (run (g := g) i (start (lastInput g j) + k + 3)).nextOut.1 = k
    rw [hnext]
  · show (run (g := g) i (start (lastInput g j) + k + 3)).nextOut.2.1 o = _
    rw [hnext]
    show (if o < g.calcOutputs then _ else _) = _
    rw [if_pos ho, act, hsum, hbias]
    rfl

include h in
/-- The address and the data stay until the next result. -/
theorem Schedule.nextOut_held (hu1 : start (lastInput g j) + g.calcCycles ≤ u)
    (hu2 : u < start (lastInput g (j + 1))) :
    (run (g := g) i (u + 4)).outWrAddr = (run (g := g) i (u + 3)).outWrAddr ∧
      (run (g := g) i (u + 4)).outWrData = (run (g := g) i (u + 3)).outWrData := by
  have hno : (run (g := g) i (u + 3)).addBias = false := by
    obtain ⟨c, h1, h2⟩ := h.exists_input
      (show start 0 ≤ u from (h.mono.monotone (Nat.zero_le (lastInput g j))).trans (by omega))
    rw [← Bool.not_eq_true, h.addBias_iff h1 h2]
    rintro ⟨hlt, hmod⟩
    rcases lt_trichotomy c (lastInput g j) with hless | heq | hmore
    · have hle : start (c + 1) ≤ start (lastInput g j) := h.mono.monotone hless
      omega
    · rw [heq] at hlt
      omega
    · refine mod_ne_last h hmore ?_ hmod
      exact h.mono.lt_iff_lt.mp (by omega)
  constructor
  · show (run (g := g) i (u + 3)).nextOut.1 = _
    rw [nextOut, hno, if_neg Bool.false_ne_true]
  · show (run (g := g) i (u + 3)).nextOut.2.1 = _
    rw [nextOut, hno, if_neg Bool.false_ne_true]

include h in
/-- What is written to the memory of the results, from the first result of a round to that
of the next one. -/
theorem Schedule.outWr_eq (hram : g.calcCycles = g.outRamElements) (ho : o < g.calcOutputs)
    (hu1 : start (lastInput g j) ≤ u) (hu2 : u < start (lastInput g (j + 1))) :
    (run (g := g) i (u + 4)).outWrAddr = min (u - start (lastInput g j)) (g.calcCycles - 1) ∧
      (run (g := g) i (u + 4)).outWrData o =
        result g x w j (min (u - start (lastInput g j)) (g.calcCycles - 1)) o := by
  have hcalc := h.calcCycles
  have hdirect (v k : ℕ) (hk : k < g.calcCycles) (hv : v = start (lastInput g j) + k) :
      (run (g := g) i (v + 4)).outWrAddr = min (v - start (lastInput g j)) (g.calcCycles - 1) ∧
        (run (g := g) i (v + 4)).outWrData o =
          result g x w j (min (v - start (lastInput g j)) (g.calcCycles - 1)) o := by
    rw [hv, show min (start (lastInput g j) + k - start (lastInput g j)) (g.calcCycles - 1) = k by
      omega]
    exact h.nextOut_eq hram hk ho
  induction u, hu1 using Nat.le_induction with
  | base => exact hdirect _ 0 (by omega) rfl
  | succ u hu ih =>
    rcases Nat.lt_or_ge (u + 1) (start (lastInput g j) + g.calcCycles) with hlt | hge
    · exact hdirect _ (u + 1 - start (lastInput g j)) (by omega) (by omega)
    · obtain ⟨haddr, hdata⟩ := h.nextOut_held hge hu2
      have hlast := ih (by omega)
      have hmin : min (u + 1 - start (lastInput g j)) (g.calcCycles - 1) =
          min (u - start (lastInput g j)) (g.calcCycles - 1) := by omega
      rw [haddr, hdata, hmin]
      exact hlast

include h in
/-- Once written, a result is in the memory until that of the next round. -/
theorem Schedule.outRam_eq (hram : g.calcCycles = g.outRamElements) (ho : o < g.calcOutputs)
    (hk : k < g.calcCycles) (hu1 : start (lastInput g j) + k ≤ u)
    (hu2 : u < start (lastInput g (j + 1)) + k) :
    (run (g := g) i (u + 5)).outRam k o = result g x w j k o := by
  have hcalc := h.calcCycles
  have hroom (j : ℕ) : start (lastInput g j) + g.calcCycles ≤ start (lastInput g (j + 1)) :=
    (h.room _).trans (h.mono.monotone (lastInput_lt h j))
  have hburst : Bursts g.calcCycles (fun j => start (lastInput g j))
      fun u => (run (g := g) i (u + 4)).outWrAddr :=
    ⟨by omega, hroom, fun j u h1 h2 => (h.outWr_eq hram ho h1 h2).1⟩
  refine hburst.stored (fun d => d o) (fun j k => result g x w j k o)
    (fun u => (run (g := g) i (u + 4)).outRam) (fun u => (run (g := g) i (u + 4)).outWrData)
    (fun t => rfl) (fun j u h1 h2 => ?_) hk hu1 hu2
  obtain ⟨haddr, hdata⟩ := h.outWr_eq hram ho h1 h2
  rw [haddr]
  exact hdata

end Run

end Mac

end AlteraWorkshops.Cnn
