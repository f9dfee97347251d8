import AlteraWorkshops.Cnn.MacRun
import AlteraWorkshops.Cnn.NnLayer
import AlteraWorkshops.Cnn.Overflow

/-! A dense layer over a whole run: for each image its outputs come in their order, and
each is the rounded sum over all inputs of the image. -/

namespace AlteraWorkshops.Cnn.NnLayer

open OutStage (Rounds)
open Mac (Schedule lastInput result)

/-- The generics of a layer that calculates in the cycles in which it sends. -/
structure Generics.Valid (g : Generics) : Prop where
  calcCycles : 2 ≤ g.calcCycles
  inputCycles : 0 < g.inputCycles
  outputCycles : g.outputCycles = g.calcCycles
  outputDelay : 0 < g.outputDelay
  split : g.layout.Split g.calcCycles g.inputCycles
  tiled : g.neuron.Tiled

/-- Input after input of image after image, each time after the calculation for the one
before, and each image after the results of the one before. -/
structure Feeds (g : Generics) (inp : ℕ → Input) (start : ℕ → ℕ) (x : ℕ → CnnValues) : Prop where
  room : ∀ c, start c + g.calcCycles ≤ start (c + 1)
  outRoom : ∀ j, start (lastInput g.mac j) + g.outputCycles * g.outputDelay ≤
    start (lastInput g.mac (j + 1))
  dataValid : ∀ t, (inp t).dataValid = true ↔ ∃ c, t = start c
  cycle : ∀ c, (inp (start c)).cycle = c % g.inputCycles
  data : ∀ c, (inp (start c)).data = x c

variable {g : Generics} {inp : ℕ → Input} {start : ℕ → ℕ} {x : ℕ → CnnValues} {c j k t u : ℕ}

/-- The weights of output set `k` in step `c`. -/
def stepWeights (g : Generics) (c k : ℕ) : ℕ → ℕ → ℤ :=
  g.layout.weightsBuf (g.layout.element g.weights (c * g.calcSteps) (k * g.calcOutputs))

/-! ### Counters -/

/-- The element of the ROM behind `e`. -/
def nextElement (g : Generics) (e : ℕ) : ℕ := if e < g.elements - 1 then e + 1 else 0

/-- The registers one edge after edge `u`, in the time of input `c`. -/
structure Phase (g : Generics) (s : State g) (x : CnnValues) (c k : ℕ) : Prop where
  calcEn : s.calcEn = decide (k < g.calcCycles)
  iDataReg : s.iDataReg = x
  cycleReg : s.cycleReg = c % g.inputCycles
  outputCnt : s.outputCnt = min k (g.calcCycles - 1)
  elementCnt : s.elementCnt = c % g.inputCycles * g.calcCycles + min k (g.calcCycles - 1)
  romAddr : s.romAddr =
    nextElement g (c % g.inputCycles * g.calcCycles + min k (g.calcCycles - 1))

/-- The elements of a step are elements of the ROM. -/
theorem element_lt (hg : g.Valid) (c : ℕ) {m : ℕ} (hm : m < g.calcCycles) :
    c % g.inputCycles * g.calcCycles + m < g.elements := by
  calc c % g.inputCycles * g.calcCycles + m < g.inputCycles * g.calcCycles :=
        Numbers.digits_lt_mul hm (Nat.mod_lt c hg.inputCycles)
    _ = g.elements := Nat.mul_comm _ _

/-- Behind the last element of a step is the first one of the next step. -/
theorem nextElement_last (hg : g.Valid) (c : ℕ) :
    nextElement g (c % g.inputCycles * g.calcCycles + (g.calcCycles - 1)) =
      (c + 1) % g.inputCycles * g.calcCycles := by
  have hcalc := hg.calcCycles
  unfold nextElement Generics.elements
  rcases Numbers.mod_succ_lt_or_eq hg.inputCycles c with hlt | heq
  · have hle : (c % g.inputCycles + 2) * g.calcCycles ≤ g.inputCycles * g.calcCycles :=
      Nat.mul_le_mul_right _ hlt
    rw [Nat.add_mul] at hle
    rw [Nat.mul_comm g.calcCycles, if_pos (by omega), (Numbers.div_mod_succ_of_lt hlt).2,
      Nat.succ_mul]
    omega
  · have hall : g.inputCycles * g.calcCycles =
        c % g.inputCycles * g.calcCycles + g.calcCycles := by
      rw [← Nat.succ_mul, Nat.succ_eq_add_one, heq]
    rw [Nat.mul_comm g.calcCycles, hall, if_neg (by omega),
      (Numbers.div_mod_succ_of_eq hg.inputCycles heq).2, Nat.zero_mul]

/-- A new input begins a phase. -/
theorem phase_start (hg : g.Valid) {s : State g} {i : Input} (hv : i.dataValid = true)
    (hc : i.cycle = c % g.inputCycles)
    (he : c % g.inputCycles ≠ 0 → s.elementCnt + 1 = c % g.inputCycles * g.calcCycles) :
    Phase g (step g s i) i.data c 0 := by
  have hcalc := hg.calcCycles
  have helement : (count s i).2.2.2 = c % g.inputCycles * g.calcCycles := by
    rw [count, if_pos hv, hc]
    dsimp only
    split_ifs with hzero hlt
    · rw [hzero, Nat.zero_mul]
    · exact he hzero
    · have hin := element_lt hg c (show 0 < g.calcCycles by omega)
      have hlast := he hzero
      omega
  have hcount : count s i = (true, i.cycle, 0, (count s i).2.2.2) := by
    rw [count, if_pos hv]
  refine ⟨?_, ?_, ?_, ?_, ?_, ?_⟩
  · show (count s i).1 = _
    rw [hcount]
    exact (decide_eq_true (by omega)).symm
  · show (if i.dataValid then i.data else _) = _
    rw [if_pos hv]
  · show (count s i).2.1 = _
    rw [hcount]
    exact hc
  · show (count s i).2.2.1 = _
    rw [hcount]
    exact (Nat.zero_min _).symm
  · show (count s i).2.2.2 = _
    rw [helement, Nat.zero_min, Nat.add_zero]
  · show (if i.dataValid ∨ s.calcEn then nextElement g (count s i).2.2.2 else _) = _
    rw [if_pos (.inl hv), helement, Nat.zero_min, Nat.add_zero]

/-- Without a new input the phase goes on. -/
theorem Phase.next (hg : g.Valid) {s : State g} {i : Input} {y : CnnValues}
    (h : Phase g s y c k) (hv : i.dataValid = false) : Phase g (step g s i) y c (k + 1) := by
  have hcalc := hg.calcCycles
  have hn : ¬i.dataValid = true := by rw [hv]; exact Bool.false_ne_true
  have hin := element_lt hg c (show g.calcCycles - 1 < g.calcCycles by omega)
  have hout := h.outputCnt
  have helement := h.elementCnt
  by_cases hmore : k + 1 < g.calcCycles
  · have hcount : count s i = (s.calcEn, s.cycleReg, s.outputCnt + 1, s.elementCnt + 1) := by
      rw [count, if_neg hn, if_pos ⟨by omega, by omega⟩]
    have hmin : min (k + 1) (g.calcCycles - 1) = min k (g.calcCycles - 1) + 1 := by omega
    refine ⟨?_, ?_, ?_, ?_, ?_, ?_⟩
    · show (count s i).1 = _
      rw [hcount, h.calcEn]
      exact decide_eq_decide.mpr (by omega)
    · show (if i.dataValid then _ else s.iDataReg) = _
      rw [if_neg hn, h.iDataReg]
    · show (count s i).2.1 = _
      rw [hcount]
      exact h.cycleReg
    · show (count s i).2.2.1 = _
      rw [hcount, hmin]
      exact congrArg (· + 1) hout
    · show (count s i).2.2.2 = _
      rw [hcount, hmin, ← Nat.add_assoc]
      exact congrArg (· + 1) helement
    · have hen : s.calcEn = true := by
        rw [h.calcEn]
        exact decide_eq_true (by omega)
      show (if i.dataValid ∨ s.calcEn then nextElement g (count s i).2.2.2 else _) = _
      rw [if_pos (.inr hen), hcount, hmin, ← Nat.add_assoc]
      exact congrArg (fun e => nextElement g (e + 1)) helement
  · have hcount : count s i = (false, s.cycleReg, s.outputCnt, s.elementCnt) := by
      rw [count, if_neg hn, if_neg (by omega)]
    have hmin : min (k + 1) (g.calcCycles - 1) = min k (g.calcCycles - 1) := by omega
    refine ⟨?_, ?_, ?_, ?_, ?_, ?_⟩
    · show (count s i).1 = _
      rw [hcount]
      exact (decide_eq_false (by omega)).symm
    · show (if i.dataValid then _ else s.iDataReg) = _
      rw [if_neg hn, h.iDataReg]
    · show (count s i).2.1 = _
      rw [hcount]
      exact h.cycleReg
    · show (count s i).2.2.1 = _
      rw [hcount, hmin]
      exact hout
    · show (count s i).2.2.2 = _
      rw [hcount, hmin]
      exact helement
    · show (if i.dataValid ∨ s.calcEn then nextElement g (count s i).2.2.2 else s.romAddr) = _
      rw [hmin, hcount]
      split_ifs
      · exact congrArg (nextElement g) helement
      · exact h.romAddr

/-- Up to the first input the output counter counts once, and nothing is calculated. -/
structure Early (g : Generics) (s : State g) (t : ℕ) : Prop where
  calcEn : s.calcEn = false
  romAddr : s.romAddr = 0
  outputCnt : s.outputCnt = min t (g.calcCycles - 1)
  elementCnt : s.elementCnt = min t (g.calcCycles - 1)

section Run

variable (hg : g.Valid) (h : Feeds g inp start x)

include hg h in
theorem start_mono : StrictMono start := strictMono_nat_of_lt_succ fun c => by
  have hroom := h.room c
  have hcalc := hg.calcCycles
  omega

include hg h in
theorem not_valid_between (h1 : start c < u) (h2 : u < start (c + 1)) :
    (inp u).dataValid = false := by
  rw [← Bool.not_eq_true, h.dataValid]
  rintro ⟨d, rfl⟩
  have hlow := (start_mono hg h).lt_iff_lt.mp h1
  have hhigh := (start_mono hg h).lt_iff_lt.mp h2
  omega

include hg h in
theorem early_run (ht : t ≤ start 0) : Early g (run g inp t) t := by
  induction t with
  | zero => exact ⟨rfl, rfl, (Nat.zero_min _).symm, (Nat.zero_min _).symm⟩
  | succ t ih =>
    obtain ⟨hen, hrom, hout, helement⟩ := ih (by omega)
    have hn : ¬(inp t).dataValid = true := by
      rw [h.dataValid]
      rintro ⟨c, rfl⟩
      have hle := (start_mono hg h).monotone (Nat.zero_le c)
      omega
    have hcalc := hg.calcCycles
    have hin := element_lt hg 0 (show g.calcCycles - 1 < g.calcCycles by omega)
    rw [Nat.zero_mod, Nat.zero_mul, Nat.zero_add] at hin
    rw [run_succ]
    have haddr : (step g (run g inp t) (inp t)).romAddr = 0 := by
      show (if (inp t).dataValid ∨ (run g inp t).calcEn then _ else (run g inp t).romAddr) = 0
      rw [hen, if_neg (by simpa using hn), hrom]
    by_cases hmore : t < g.calcCycles - 1
    · have hcount : count (run g inp t) (inp t) = ((run g inp t).calcEn, (run g inp t).cycleReg,
          (run g inp t).outputCnt + 1, (run g inp t).elementCnt + 1) := by
        rw [count, if_neg hn, if_pos ⟨by omega, by omega⟩]
      refine ⟨?_, haddr, ?_, ?_⟩
      · show (count _ _).1 = false
        rw [hcount]
        exact hen
      · show (count _ _).2.2.1 = _
        rw [hcount]
        show (run g inp t).outputCnt + 1 = _
        omega
      · show (count _ _).2.2.2 = _
        rw [hcount]
        show (run g inp t).elementCnt + 1 = _
        omega
    · have hcount : count (run g inp t) (inp t) = (false, (run g inp t).cycleReg,
          (run g inp t).outputCnt, (run g inp t).elementCnt) := by
        rw [count, if_neg hn, if_neg (by omega)]
      refine ⟨?_, haddr, ?_, ?_⟩
      · show (count _ _).1 = false
        rw [hcount]
      · show (count _ _).2.2.1 = _
        rw [hcount]
        show (run g inp t).outputCnt = _
        omega
      · show (count _ _).2.2.2 = _
        rw [hcount]
        show (run g inp t).elementCnt = _
        omega

include hg h in
theorem phase_of_start (hfirst : Phase g (run g inp (start c + 1)) (x c) c 0) (h1 : start c ≤ u)
    (h2 : u < start (c + 1)) : Phase g (run g inp (u + 1)) (x c) c (u - start c) := by
  induction u, h1 using Nat.le_induction with
  | base =>
    rw [Nat.sub_self]
    exact hfirst
  | succ u hu ih =>
    have hnext := (ih (by omega)).next hg
      (not_valid_between hg h (show start c < u + 1 by omega) h2)
    rw [show u + 1 - start c = u - start c + 1 by omega]
    exact hnext

include hg h in
theorem phase_run (h1 : start c ≤ u) (h2 : u < start (c + 1)) :
    Phase g (run g inp (u + 1)) (x c) c (u - start c) := by
  have hbegin (c : ℕ) (he : c % g.inputCycles ≠ 0 →
      (run g inp (start c)).elementCnt + 1 = c % g.inputCycles * g.calcCycles) :
      Phase g (run g inp (start c + 1)) (x c) c 0 := by
    have hv := (h.dataValid (start c)).mpr ⟨c, rfl⟩
    have hfirst := phase_start hg hv (h.cycle c) he
    rw [h.data] at hfirst
    exact hfirst
  refine phase_of_start hg h ?_ h1 h2
  induction c generalizing u with
  | zero => exact hbegin 0 fun hne => absurd (Nat.zero_mod _) hne
  | succ c ih =>
    have hroom := h.room c
    have hcalc := hg.calcCycles
    have hlast := phase_of_start hg h
      (ih (u := start c) le_rfl (start_mono hg h (Nat.lt_succ_self c)))
      (u := start (c + 1) - 1) (by omega) (by omega)
    refine hbegin (c + 1) fun hne => ?_
    have hlt := (Numbers.mod_succ_lt_or_eq hg.inputCycles c).resolve_right fun heq =>
      hne (Numbers.div_mod_succ_of_eq hg.inputCycles heq).2
    have helement := hlast.elementCnt
    rw [Nat.sub_add_cancel (by omega)] at helement
    rw [helement, (Numbers.div_mod_succ_of_lt hlt).2, Nat.succ_mul]
    omega

/-! ### The pipeline -/

include hg h in
/-- The ROM shows the weights of each request. -/
theorem romData_eq (hk : k < g.calcCycles) :
    g.layout.weightsBuf (run g inp (start c + k + 1)).romData =
      stepWeights g (c % g.inputCycles) k := by
  have hroom := h.room c
  have haddr : (run g inp (start c + k)).romAddr = c % g.inputCycles * g.calcCycles + k := by
    cases k with
    | zero =>
      cases c with
      | zero =>
        rw [Nat.add_zero, (early_run hg h le_rfl).romAddr, Nat.zero_mod, Nat.zero_mul]
      | succ c =>
        have hbefore := h.room c
        have hlast := (phase_run hg h (c := c) (u := start (c + 1) - 1) (by omega)
          (by omega)).romAddr
        rw [Nat.sub_add_cancel (by omega),
          show min (start (c + 1) - 1 - start c) (g.calcCycles - 1) = g.calcCycles - 1 by omega,
          nextElement_last hg] at hlast
        exact hlast
    | succ k =>
      have hlast := (phase_run hg h (c := c) (u := start c + k) (by omega) (by omega)).romAddr
      have hin := element_lt hg c hk
      rw [show min (start c + k - start c) (g.calcCycles - 1) = k by omega, nextElement,
        if_pos (by omega)] at hlast
      exact hlast
  have hmod := Nat.mod_lt c hg.inputCycles
  show g.layout.weightsBuf (g.rom (run g inp (start c + k)).romAddr) = _
  rw [haddr, Generics.rom, RomLayout.initRom_eq hg.split hmod hk]
  rfl

theorem run_mac (t : ℕ) :
    (run g inp t).mac = Mac.run (fun u => macInput (run g inp u) (inp u)) t := by
  induction t with
  | zero => rfl
  | succ t ih =>
    rw [run_succ, Mac.run, ← ih]
    rfl

include hg h in
theorem schedule : Schedule g.mac start
    (fun u => macInput (run g inp u) (inp u)) (fun c _ => x c) fun c k => stepWeights g c k := by
  have hcalc := hg.calcCycles
  refine ⟨hg.tiled, fun c k o => RomLayout.bounded_weightsBuf o, hcalc, hg.inputCycles, h.room,
    (early_run hg h le_rfl).calcEn, fun c u h1 h2 => ?_, fun u hu => ?_, fun c u h1 h2 => ?_,
    fun u _ => rfl, fun c u h1 h2 => ?_, fun c k hk => ?_, fun c k hk => ?_⟩
  · refine (phase_run hg h h1 h2).calcEn.trans (decide_eq_decide.mpr ?_)
    show _ ↔ u < start c + g.calcCycles
    omega
  · show (run g inp (u + 1)).outputCnt ≠ 0
    rw [hu, (early_run hg h le_rfl).outputCnt]
    omega
  · exact (phase_run hg h h1 h2).outputCnt
  · exact (phase_run hg h h1 h2).cycleReg
  · have hroom := h.room c
    exact (phase_run hg h (show start c ≤ start c + k by omega)
      (lt_of_lt_of_le (Nat.add_lt_add_left hk _) hroom)).iDataReg
  · exact romData_eq hg h hk

/-! ### The outputs -/

include hg h in
/-- The last output of the last input ends a round. -/
theorem lastInput_iff (t : ℕ) :
    (run g inp t).lastInput = true ↔
      ∃ j, t = start (lastInput g.mac j) + g.calcCycles + 3 := by
  have hs := schedule hg h
  have hcalc := hg.calcCycles
  have hmac (u : ℕ) : (run g inp (u + 1)).lastInput =
      ((Mac.run (g := g.mac) (fun u => macInput (run g inp u) (inp u)) u).addBias &&
        decide ((Mac.run (g := g.mac) (fun u => macInput (run g inp u) (inp u)) u).biasReg =
          g.calcCycles - 1)) := by
    rw [← run_mac]
    rfl
  constructor
  · intro ht
    rcases t with _ | _ | _ | t
    · cases ht
    · cases ht
    · cases ht
    · rw [hmac, Bool.and_eq_true, decide_eq_true_iff] at ht
      obtain ⟨c, u, rfl, h1, h2⟩ := hs.exists_of_addBias
        (fun t ht => (early_run hg h ht).calcEn) ht.1
      obtain ⟨hlt, hmod⟩ := (hs.addBias_iff h1 h2).mp ht.1
      have hlt' : u < start c + g.calcCycles := hlt
      have hreg := hs.biasReg_eq c (k := u - start c) (show u - start c < g.calcCycles by omega)
      rw [show start c + (u - start c) + 3 = u + 1 + 2 by omega] at hreg
      refine ⟨c / g.inputCycles, ?_⟩
      have hlast : c = lastInput g.mac (c / g.inputCycles) := Mac.lastInput_of_mod hmod
      rw [← hlast]
      omega
  · rintro ⟨j, rfl⟩
    have hroom := h.room (lastInput g.mac j)
    rw [show start (lastInput g.mac j) + g.calcCycles + 3 =
      start (lastInput g.mac j) + (g.calcCycles - 1) + 3 + 1 by omega, hmac, Bool.and_eq_true,
      decide_eq_true_iff, hs.biasReg_eq _ (show g.calcCycles - 1 < g.mac.calcCycles from
        Nat.sub_lt (by omega) Nat.one_pos),
      hs.addBias_iff (c := lastInput g.mac j) (by omega) (by omega)]
    refine ⟨⟨?_, (Mac.lastInput_div_mod hs j).2⟩, rfl⟩
    show _ < start (lastInput g.mac j) + g.calcCycles
    omega

include hg h in
theorem rounds : Rounds g.out (fun t => (run g inp t).out) (fun t => (run g inp t).lastInput)
    fun j => start (lastInput g.mac j) + g.calcCycles + 3 := by
  have hcycles := hg.outputCycles
  have hcalc := hg.calcCycles
  refine ⟨rfl, fun t => rfl, hg.outputDelay, ?_, fun j => ?_, lastInput_iff hg h⟩
  · show 0 < g.outputCycles
    omega
  · have hroom := h.outRoom j
    show _ + g.outputCycles * g.outputDelay ≤ _
    omega

/-- The edge that samples output set `k` of image `j`. -/
def outputAt (g : Generics) (start : ℕ → ℕ) (j k : ℕ) : ℕ :=
  start (lastInput g.mac j) + g.calcCycles + k * g.outputDelay + 5

include hg h in
/-- The layer sends each output set of each image once, with its number. -/
theorem oDataValid_iff (t : ℕ) :
    (run g inp t).oDataValid = true ↔ ∃ j, ∃ k < g.outputCycles, t = outputAt g start j k := by
  have hr := rounds hg h
  cases t with
  | zero =>
    constructor
    · intro ht
      cases ht
    · rintro ⟨j, k, -, ht⟩
      unfold outputAt at ht
      omega
  | succ t =>
    have hready := hr.ready_iff t
    show (decide ((run g inp t).out.delayCnt = 0) && (run g inp t).out.ready) = true ↔ _
    rw [Bool.and_eq_true, decide_eq_true_iff]
    constructor
    · rintro ⟨-, ht⟩
      obtain ⟨j, k, hk, rfl⟩ := hready.mp ht
      refine ⟨j, k, hk, ?_⟩
      show _ = start (lastInput g.mac j) + g.calcCycles + k * g.outputDelay + 5
      show start (lastInput g.mac j) + g.calcCycles + 3 + k * g.outputDelay + 1 + 1 = _
      omega
    · rintro ⟨j, k, hk, ht⟩
      have heq : t = start (lastInput g.mac j) + g.calcCycles + 3 + k * g.out.delay + 1 := by
        unfold outputAt at ht
        show t = start (lastInput g.mac j) + g.calcCycles + 3 + k * g.outputDelay + 1
        omega
      rw [heq]
      exact ⟨(hr.cntReg_eq j hk).2.1, (hr.ready_iff _).mpr ⟨j, k, hk, rfl⟩⟩

include hg h in
/-- The outputs of an image are the sums over its inputs. -/
theorem oData_eq_result (j : ℕ) (hk : k < g.outputCycles) {v : ℕ} (hv : v < g.outValues) :
    (run g inp (outputAt g start j k)).oCycle = k ∧
      (run g inp (outputAt g start j k)).oData v =
        result g.mac (fun c _ => x c) (fun c k => stepWeights g c k) j k v := by
  have hr := rounds hg h
  obtain ⟨hreg, hdelay, haddr⟩ := hr.cntReg_eq j hk
  have hcycles := hg.outputCycles
  have hram : g.outRamElements = g.calcCycles := by
    unfold Generics.outRamElements
    omega
  have htime : outputAt g start j k =
      start (lastInput g.mac j) + g.calcCycles + 3 + k * g.out.delay + 1 + 1 := by
    unfold outputAt Generics.out
    dsimp only
    omega
  rw [htime]
  generalize ht : start (lastInput g.mac j) + g.calcCycles + 3 + k * g.out.delay + 1 = t at *
  constructor
  · show (if (run g inp t).out.delayCnt = 0 then (run g inp t).out.cntReg else _) = k
    rw [if_pos hdelay, hreg]
  · show (if (run g inp t).out.delayCnt = 0 then _ else _ : ℕ → Result) v = _
    rw [if_pos hdelay]
    show (if v < g.outValues then
      OutStage.select g.out (run g inp t).out g.outValues (run g inp t).mac.outRam v else _) = _
    have hone : g.out.cycles / g.out.ramElements = 1 := by
      show g.outputCycles / g.outRamElements = 1
      rw [hcycles, hram]
      exact Nat.div_self (by have := hg.calcCycles; omega)
    have hlater : g.calcCycles + k * g.outputDelay ≤ g.outputCycles * g.outputDelay + k := by
      obtain ⟨m, hm⟩ : ∃ m, g.outputCycles = k + m := ⟨g.outputCycles - k, by omega⟩
      have hscale : m * 1 ≤ m * g.outputDelay := Nat.mul_le_mul_left m hg.outputDelay
      rw [← hcycles, hm, Nat.add_mul]
      omega
    have hroom := h.outRoom j
    have hresult := (schedule hg h).outRam_eq (j := j) (k := k) (o := v)
      (u := start (lastInput g.mac j) + g.calcCycles - 1 + k * g.outputDelay) hram.symm
      (by
        show v < g.outputs / g.calcCycles
        rwa [← hcycles])
      (show k < g.calcCycles by omega) (by omega) (by omega)
    have hwhole : g.out.cycles = g.out.ramElements := hcycles.trans hram.symm
    rw [if_pos hv, OutStage.select, if_pos hwhole, haddr, hone, Nat.div_one, run_mac, ← hresult]
    congr 2
    rw [← ht]
    show _ + 3 + k * g.outputDelay + 1 = _
    have hcalc := hg.calcCycles
    omega

/-! ### Numbers -/

/-- The weights of output `r`, step after step. -/
def row (g : Generics) (r c s : ℕ) : ℤ := (g.weights r (c * g.calcSteps + s)).val

/-- The widths of the sums are enough for the weights of the layer. -/
structure Generics.Safe (g : Generics) : Prop where
  scaled : g.neuron.Scaled
  rescaled : g.neuron.Rescaled
  low : ∀ r < g.outputs, -2 ^ g.bitsMax + 128 < g.neuron.low (row g r) g.inputCycles
  high : ∀ r < g.outputs, g.neuron.high (row g r) g.inputCycles + 128 < 2 ^ g.bitsMax

theorem stepWeights_eq (k : ℕ) {v : ℕ} (hv : v < g.calcOutputs) (c : ℕ) :
    ∀ s < g.neuron.calcSteps, stepWeights g c k v s = row g (k * g.calcOutputs + v) c s := by
  intro s _
  have hdigits := Numbers.div_mod_eq (q := g.calcOutputs) (a := s) hv
  rw [Nat.mul_comm] at hdigits
  rw [stepWeights, RomLayout.weightsBuf_element]
  show (g.weights (k * g.calcOutputs + (s * g.calcOutputs + v) % g.calcOutputs)
    (c * g.calcSteps + (s * g.calcOutputs + v) / g.calcOutputs) : ℤ) = _
  rw [hdigits.1, hdigits.2]
  rfl

/-- The result of an output is the rescaled sum of its rounded products and its bias. -/
theorem toInt_result (hg : g.Valid) (hs : g.Safe) (x : ℕ → CnnValues) (j : ℕ)
    (hk : k < g.calcCycles) {v : ℕ} (hv : v < g.calcOutputs) :
    (result g.mac (fun c _ => x c) (fun c k => stepWeights g c k) j k v).toInt =
      g.neuron.output
        (g.neuron.total (fun c => x (j * g.inputCycles + c)) (row g (k * g.calcOutputs + v))
          g.inputCycles)
        (g.neuron.biasConst g.weights g.inputs (k * g.calcOutputs + v)) := by
  have hweights := stepWeights_eq k hv
  obtain ⟨hlow, hhigh⟩ := Neuron.extremes_congr hg.tiled hweights g.inputCycles
  have hr : k * g.calcOutputs + v < g.outputs := by
    calc k * g.calcOutputs + v < g.calcCycles * g.calcOutputs := Numbers.digits_lt_mul hv hk
      _ = g.outputs := hg.split.filters.symm
  have hl := hs.low _ hr
  have hh := hs.high _ hr
  rw [← hlow] at hl
  rw [← hhigh] at hh
  have hbias := g.neuron.abs_biasConst_le g.weights g.inputs (v + k * g.calcOutputs)
  have hresult := Neuron.toInt_actSum_totalSum hs.scaled hs.rescaled
    (fun c => RomLayout.bounded_weightsBuf (l := g.layout) v) hbias hl hh
    fun c => x (j * g.inputCycles + c)
  rw [Nat.add_comm v] at hresult
  refine Eq.trans ?_ (hresult.trans ?_)
  · rw [Nat.add_comm (k * g.calcOutputs)]
    rfl
  · rw [← Neuron.total_congr hg.tiled (fun _ _ _ _ => rfl) fun c _ => hweights c]
    rfl

include hg h in
/-- For each image the layer sends each output set once, and its values are the rescaled
sums of the rounded products and the biases. -/
theorem toInt_oData (hs : g.Safe) :
    (∀ t, (run g inp t).oDataValid = true ↔
      ∃ j, ∃ k < g.outputCycles, t = outputAt g start j k) ∧
    ∀ j, ∀ k < g.outputCycles, ∀ v < g.outValues,
      (run g inp (outputAt g start j k)).oCycle = k ∧
        ((run g inp (outputAt g start j k)).oData v).toInt =
          g.neuron.output
            (g.neuron.total (fun c => x (j * g.inputCycles + c)) (row g (k * g.outValues + v))
              g.inputCycles)
            (g.neuron.biasConst g.weights g.inputs (k * g.outValues + v)) := by
  refine ⟨oDataValid_iff hg h, fun j k hk v hv => ?_⟩
  obtain ⟨hcycle, hdata⟩ := oData_eq_result hg h j hk hv
  have hvalues : g.outValues = g.calcOutputs := by
    unfold Generics.outValues Generics.calcOutputs
    rw [hg.outputCycles]
  rw [hvalues] at hv ⊢
  rw [hdata]
  exact ⟨hcycle, toInt_result hg hs x j (by rwa [← hg.outputCycles]) hv⟩

end Run

/-! ### A small layer -/

/-- Two outputs of two inputs. -/
def small : Generics where
  inputs := 2
  outputs := 2
  activation := .relu
  inputCycles := 2
  calcCycles := 2
  outputCycles := 2
  outputDelay := 1
  offsetIn := 3
  offsetOut := 4
  offset := 0
  weights := fun r c => cnnWeight (20 - 9 * r + 3 * c)

def smallData (c : ℕ) : CnnValues := fun _ => Fin.ofNat 128 (37 * c + 11)

/-- An input every other edge. -/
def everyOther (t : ℕ) : Input := ⟨t % 2 == 0, t / 2 % 2, smallData (t / 2)⟩

theorem small_valid : small.Valid :=
  ⟨by decide, by decide, rfl, by decide, ⟨by decide, by decide, rfl, rfl⟩, by decide⟩

theorem small_safe : small.Safe :=
  ⟨⟨by decide, by decide, by decide⟩, ⟨rfl, by decide, by decide, by decide, by decide⟩,
    by decide, by decide⟩

theorem small_feeds : Feeds small everyOther (2 * ·) smallData := by
  refine ⟨fun c => le_rfl, fun j => ?_, fun t => ?_, fun c => ?_, fun c => ?_⟩
  · show 2 * (j * 2 + 1) + 2 * 1 ≤ 2 * ((j + 1) * 2 + 1)
    omega
  · rw [everyOther, beq_iff_eq]
    exact ⟨fun h => ⟨t / 2, by omega⟩, fun ⟨c, hc⟩ => by omega⟩
  · show 2 * c / 2 % 2 = c % 2
    rw [Nat.mul_div_cancel_left c (by decide)]
  · show smallData (2 * c / 2) = smallData c
    rw [Nat.mul_div_cancel_left c (by decide)]

theorem toInt_oData_small :
    (∀ t, (run small everyOther t).oDataValid = true ↔
      ∃ j, ∃ k < small.outputCycles, t = outputAt small (2 * ·) j k) ∧
    ∀ j, ∀ k < small.outputCycles, ∀ v < small.outValues,
      (run small everyOther (outputAt small (2 * ·) j k)).oCycle = k ∧
        ((run small everyOther (outputAt small (2 * ·) j k)).oData v).toInt =
          small.neuron.output
            (small.neuron.total (fun c => smallData (j * small.inputCycles + c))
              (row small (k * small.outValues + v)) small.inputCycles)
            (small.neuron.biasConst small.weights small.inputs (k * small.outValues + v)) :=
  toInt_oData small_valid small_feeds small_safe

end AlteraWorkshops.Cnn.NnLayer
