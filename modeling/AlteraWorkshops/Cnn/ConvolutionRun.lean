import AlteraWorkshops.Cnn.Convolution
import AlteraWorkshops.Cnn.MacRun
import AlteraWorkshops.Cnn.Overflow

/-! A convolution over a whole run: the results of each matrix come in their order, and
each is the rounded sum over all values of the matrix. -/

namespace AlteraWorkshops.Cnn.Convolution

open OutStage (Rounds)
open Mac (Schedule lastInput result)

/-- The generics of a convolution that calculates in the cycles in which it sends. -/
structure Generics.Valid (g : Generics) : Prop where
  calcCycles : 2 ≤ g.calcCycles
  matrixValueCycles : 0 < g.matrixValueCycles
  filterCycles : g.filterCycles = g.calcCycles
  filterDelay : 0 < g.filterDelay
  outRoom : g.filterCycles * g.filterDelay < g.elements
  split : g.layout.Split g.calcCycles g.matrixValueCycles
  tiled : g.neuron.Tiled

/-- Matrix after matrix, each without a gap and the next one after a gap. A matrix may stay
longer than the calculation for it. -/
structure Matrices (g : Generics) (inp : ℕ → Sample) (begins len : ℕ → ℕ) : Prop where
  long : ∀ p, g.elements ≤ len p
  room : ∀ p, begins p + len p < begins (p + 1)
  dataValid : ∀ t, (inp t).stream.dataValid = true ↔ ∃ p, begins p ≤ t ∧ t < begins p + len p

variable {g : Generics} {inp : ℕ → Sample} {begins len : ℕ → ℕ}
  {c d j k l m p q t u : ℕ}

theorem Matrices.spaced (h : Matrices g inp begins len) (p : ℕ) :
    begins p + g.elements < begins (p + 1) := by
  have hlong := h.long p
  have hroom := h.room p
  omega

/-- The values of edge `e` of a matrix. -/
def values (inp : ℕ → Sample) (begins : ℕ → ℕ) (p e : ℕ) : CnnValues := (inp (begins p + e)).data

/-- The position of a matrix. -/
def position (inp : ℕ → Sample) (begins : ℕ → ℕ) (p : ℕ) : ℕ × ℕ :=
  ((inp (begins p)).stream.column, (inp (begins p)).stream.row)

/-- The weights of filter set `k` in step `m`. -/
def stepWeights (g : Generics) (m k : ℕ) : ℕ → ℕ → ℤ :=
  g.layout.weightsBuf (g.layout.element g.weights (m * g.calcSteps) (k * g.calcFilters))

/-! ### Counters -/

/-- The element of the ROM behind `e`. -/
def nextElement (g : Generics) (e : ℕ) : ℕ := if e < g.elements - 1 then e + 1 else 0

/-- The registers one edge after edge `d` of a matrix of `l` edges. -/
structure Phase (g : Generics) (s : State g) (x : ℕ → CnnValues) (l d : ℕ) : Prop where
  calcEn : s.calcEn = decide (d < l)
  matrixValidReg : s.matrixValidReg = decide (d < l)
  data : d < l → s.matrixDataReg = x d
  cycleCnt : s.cycleCnt = min d (g.elements - 1) / g.calcCycles
  filterCnt : s.filterCnt = min d (g.elements - 1) % g.calcCycles
  elementCnt : s.elementCnt = min d (g.elements - 1)
  romAddr : s.romAddr = nextElement g (min d (g.elements - 1))

theorem elements_pos (hg : g.Valid) : 2 ≤ g.elements := by
  have hcalc := hg.calcCycles
  have hmatrix := hg.matrixValueCycles
  calc 2 = 2 * 1 := rfl
    _ ≤ g.calcCycles * g.matrixValueCycles := Nat.mul_le_mul hcalc hmatrix

/-- Filter set `k` of step `m` is an element. -/
theorem element_lt (hk : k < g.calcCycles) (hm : m < g.matrixValueCycles) :
    m * g.calcCycles + k < g.elements := by
  calc m * g.calcCycles + k < g.matrixValueCycles * g.calcCycles := Numbers.digits_lt_mul hk hm
    _ = g.elements := Nat.mul_comm _ _

theorem last_div_mod (hg : g.Valid) :
    (g.elements - 1) / g.calcCycles = g.matrixValueCycles - 1 ∧
      (g.elements - 1) % g.calcCycles = g.calcCycles - 1 := by
  have hcalc := hg.calcCycles
  have hmatrix := hg.matrixValueCycles
  have hlast : g.elements - 1 =
      (g.matrixValueCycles - 1) * g.calcCycles + (g.calcCycles - 1) := by
    obtain ⟨m, hm⟩ : ∃ m, g.matrixValueCycles = m + 1 := ⟨g.matrixValueCycles - 1, by omega⟩
    unfold Generics.elements
    rw [hm, Nat.mul_succ, Nat.add_sub_cancel, Nat.mul_comm m]
    omega
  rw [hlast]
  exact Numbers.div_mod_eq' (show g.calcCycles - 1 < g.calcCycles by omega)

/-- A matrix begins with its first value and the first filters. -/
theorem phase_start {s : State g} {i : Sample} (hv : i.stream.dataValid = true)
    (hr : s.matrixValidReg = false) {y : ℕ → CnnValues} (hx : i.data = y 0) (hl : 0 < l) :
    Phase g (step g s i) y l 0 := by
  have hcount : count s i = (0, 0, 0) := by
    rw [count, if_pos hv, if_pos hr]
  have hen : i.stream.dataValid = decide (0 < l) := by
    rw [hv]
    exact (decide_eq_true hl).symm
  refine ⟨hen, hen, fun _ => ?_, ?_, ?_, ?_, ?_⟩
  · show (if i.stream.dataValid then i.data else _) = _
    rw [if_pos hv, hx]
  · show (count s i).2.1 = _
    rw [hcount, Nat.zero_min, Nat.zero_div]
  · show (count s i).2.2 = _
    rw [hcount, Nat.zero_min, Nat.zero_mod]
  · show (count s i).1 = _
    rw [hcount, Nat.zero_min]
  · show (if i.stream.dataValid then nextElement g (count s i).1 else _) = _
    rw [if_pos hv, hcount, Nat.zero_min]

/-- The next filters with the same value, the first filters with the next value, or no
more than the last ones. -/
theorem Phase.next (hg : g.Valid) {s : State g} {i : Sample} {y : ℕ → CnnValues}
    (h : Phase g s y l d) (hd : d + 1 < l) (hv : i.stream.dataValid = true)
    (hx : i.data = y (d + 1)) : Phase g (step g s i) y l (d + 1) := by
  have hcalc := hg.calcCycles
  have hcycle := h.cycleCnt
  have hfilter := h.filterCnt
  have helement := h.elementCnt
  obtain ⟨hlast1, hlast2⟩ := last_div_mod hg
  have hr : ¬s.matrixValidReg = false := by
    rw [h.matrixValidReg, decide_eq_true (by omega)]
    exact Bool.noConfusion
  have hcount : count s i = (min (d + 1) (g.elements - 1),
      min (d + 1) (g.elements - 1) / g.calcCycles,
      min (d + 1) (g.elements - 1) % g.calcCycles) := by
    rw [count, if_pos hv, if_neg hr, helement, hcycle, hfilter]
    dsimp only
    by_cases hlt : d < g.elements - 1
    · have hmod := Nat.mod_lt d (show 0 < g.calcCycles by omega)
      rw [show min d (g.elements - 1) = d by omega,
        show min (d + 1) (g.elements - 1) = d + 1 by omega, if_pos hlt]
      split_ifs with hmore hstep
      · obtain ⟨hdiv, hmod⟩ := Numbers.div_mod_succ_of_lt (m := d) (q := g.calcCycles) (by omega)
        rw [hdiv, hmod]
      · obtain ⟨hdiv, hmod⟩ := Numbers.div_mod_succ_of_eq (m := d) (q := g.calcCycles) (by omega)
          (by omega)
        rw [hdiv, hmod]
      · exfalso
        have hdm := Nat.div_add_mod' d g.calcCycles
        have hle : (g.matrixValueCycles - 1) * g.calcCycles ≤ d / g.calcCycles * g.calcCycles :=
          Nat.mul_le_mul_right _ (by omega)
        have hlast := Nat.div_add_mod' (g.elements - 1) g.calcCycles
        rw [hlast1, hlast2] at hlast
        omega
    · rw [show min d (g.elements - 1) = g.elements - 1 by omega,
        show min (d + 1) (g.elements - 1) = g.elements - 1 by omega, hlast1, hlast2,
        if_neg (lt_irrefl _), if_neg (lt_irrefl _), if_neg (lt_irrefl _)]
  have hen : i.stream.dataValid = decide (d + 1 < l) := by
    rw [hv]
    exact (decide_eq_true hd).symm
  refine ⟨hen, hen, fun _ => ?_, ?_, ?_, ?_, ?_⟩
  · show (if i.stream.dataValid then i.data else _) = _
    rw [if_pos hv, hx]
  · show (count s i).2.1 = _
    rw [hcount]
  · show (count s i).2.2 = _
    rw [hcount]
  · show (count s i).1 = _
    rw [hcount]
  · show (if i.stream.dataValid then nextElement g (count s i).1 else _) = _
    rw [if_pos hv, hcount]

/-- Behind a matrix the counters stay. -/
theorem Phase.gap {s : State g} {i : Sample} {y : ℕ → CnnValues} (h : Phase g s y l d)
    (hl : g.elements ≤ l) (hd : l ≤ d + 1) (hv : i.stream.dataValid = false) :
    Phase g (step g s i) y l (d + 1) := by
  have hn : ¬i.stream.dataValid = true := by rw [hv]; exact Bool.false_ne_true
  have hcount : count s i = (s.elementCnt, s.cycleCnt, s.filterCnt) := by
    rw [count, if_neg hn]
  have hen : i.stream.dataValid = decide (d + 1 < l) := by
    rw [hv]
    exact (decide_eq_false (by omega)).symm
  have hmin : min (d + 1) (g.elements - 1) = min d (g.elements - 1) := by omega
  refine ⟨hen, hen, fun hlt => absurd hlt (by omega), ?_, ?_, ?_, ?_⟩
  · show (count s i).2.1 = _
    rw [hcount, hmin]
    exact h.cycleCnt
  · show (count s i).2.2 = _
    rw [hcount, hmin]
    exact h.filterCnt
  · show (count s i).1 = _
    rw [hcount, hmin]
    exact h.elementCnt
  · show (if i.stream.dataValid then _ else s.romAddr) = _
    rw [if_neg hn, hmin]
    exact h.romAddr

/-- Up to the first matrix nothing is calculated. -/
structure Early (g : Generics) (s : State g) : Prop where
  calcEn : s.calcEn = false
  matrixValidReg : s.matrixValidReg = false
  romAddr : s.romAddr = 0
  filterCnt : s.filterCnt = g.calcCycles - 1

section Run

variable (hg : g.Valid) (h : Matrices g inp begins len)

include h in
theorem begins_mono : StrictMono begins := strictMono_nat_of_lt_succ fun p => by
  have hroom := h.room p
  omega

include h in
theorem valid_eq (h1 : begins p ≤ u) (h2 : u < begins (p + 1)) :
    (inp u).stream.dataValid = decide (u < begins p + len p) := by
  rw [Bool.eq_iff_iff, h.dataValid, decide_eq_true_iff]
  constructor
  · rintro ⟨q, hq1, hq2⟩
    have hle : q ≤ p := Nat.lt_succ_iff.mp ((begins_mono h).lt_iff_lt.mp (hq1.trans_lt h2))
    rcases Nat.eq_or_lt_of_le hle with rfl | hlt
    · exact hq2
    · have hroom := h.room q
      have hmono := (begins_mono h).monotone (Nat.succ_le_of_lt hlt)
      rw [Nat.succ_eq_add_one] at hmono
      omega
  · exact fun hlt => ⟨p, h1, hlt⟩

include h in
theorem early_run (ht : t ≤ begins 0) : Early g (run g inp t) := by
  induction t with
  | zero => exact ⟨rfl, rfl, rfl, rfl⟩
  | succ t ih =>
    have hlast := ih (by omega)
    have hv : (inp t).stream.dataValid = false := by
      rw [← Bool.not_eq_true, h.dataValid]
      rintro ⟨p, hp, -⟩
      have hle := (begins_mono h).monotone (Nat.zero_le p)
      omega
    have hn : ¬(inp t).stream.dataValid = true := by rw [hv]; exact Bool.false_ne_true
    rw [run_succ]
    refine ⟨hv, hv, ?_, ?_⟩
    · show (if (inp t).stream.dataValid then _ else (run g inp t).romAddr) = 0
      rw [if_neg hn]
      exact hlast.romAddr
    · show (count _ _).2.2 = _
      rw [count, if_neg hn]
      exact hlast.filterCnt

include hg h in
theorem phase_of_start (hfirst : Phase g (run g inp (begins p + 1)) (values inp begins p) (len p) 0)
    (hd : begins p + d < begins (p + 1)) :
    Phase g (run g inp (begins p + d + 1)) (values inp begins p) (len p) d := by
  induction d with
  | zero => exact hfirst
  | succ d ih =>
    have hlast := ih (by omega)
    have hv := valid_eq h (p := p) (u := begins p + (d + 1)) (by omega) hd
    rw [← Nat.add_assoc] at hv hd ⊢
    by_cases hlt : d + 1 < len p
    · rw [decide_eq_true (by omega)] at hv
      exact hlast.next hg hlt hv rfl
    · rw [decide_eq_false (by omega)] at hv
      exact hlast.gap (h.long p) (by omega) hv

include hg h in
theorem phase_run (p : ℕ) (hd : begins p + d < begins (p + 1)) :
    Phase g (run g inp (begins p + d + 1)) (values inp begins p) (len p) d := by
  have hpos := elements_pos hg
  have hbegin (p : ℕ) (hr : (run g inp (begins p)).matrixValidReg = false) :
      Phase g (run g inp (begins p + 1)) (values inp begins p) (len p) 0 := by
    have hroom := h.room p
    have hlong := h.long p
    have hv := valid_eq h (p := p) (u := begins p) le_rfl (by omega)
    rw [decide_eq_true (by omega)] at hv
    exact phase_start hv hr rfl (by omega)
  refine phase_of_start hg h ?_ hd
  clear hd
  induction p with
  | zero => exact hbegin 0 (early_run h le_rfl).matrixValidReg
  | succ p ih =>
    have hroom := h.room p
    have hlast := phase_of_start hg h ih (d := begins (p + 1) - begins p - 1) (by omega)
    rw [show begins p + (begins (p + 1) - begins p - 1) + 1 = begins (p + 1) by omega] at hlast
    refine hbegin (p + 1) (hlast.matrixValidReg.trans ?_)
    exact decide_eq_false (by omega)

include hg h in
/-- When a matrix begins, the calculation for the one before is over. -/
theorem rest_run (p : ℕ) : Early g (run g inp (begins p)) := by
  cases p with
  | zero => exact early_run h le_rfl
  | succ p =>
    have hpos := elements_pos hg
    have hroom := h.room p
    have hlong := h.long p
    have hlast := phase_run hg h p (d := begins (p + 1) - begins p - 1) (by omega)
    have hmin : min (begins (p + 1) - begins p - 1) (g.elements - 1) = g.elements - 1 := by omega
    have hout : decide (begins (p + 1) - begins p - 1 < len p) = false :=
      decide_eq_false (by omega)
    obtain ⟨hen, hr, -, -, hfilter, -, haddr⟩ := hlast
    rw [show begins p + (begins (p + 1) - begins p - 1) + 1 = begins (p + 1) by omega] at *
    rw [hmin] at hfilter haddr
    refine ⟨hen.trans hout, hr.trans hout, haddr.trans ?_, hfilter.trans (last_div_mod hg).2⟩
    exact if_neg (lt_irrefl _)

/-! ### The pipeline -/

/-- The edge in which step `c` from matrix `q` on begins. -/
def stepBegins (g : Generics) (begins : ℕ → ℕ) (q c : ℕ) : ℕ :=
  begins (q + c / g.matrixValueCycles) + c % g.matrixValueCycles * g.calcCycles

include hg in
/-- A step lasts for all filters, the last one up to the next matrix. -/
theorem stepBegins_succ (begins : ℕ → ℕ) (q c : ℕ) :
    stepBegins g begins q (c + 1) = stepBegins g begins q c + g.calcCycles ∨
      c % g.matrixValueCycles = g.matrixValueCycles - 1 ∧
        stepBegins g begins q c + g.calcCycles =
          begins (q + c / g.matrixValueCycles) + g.elements ∧
        stepBegins g begins q (c + 1) = begins (q + c / g.matrixValueCycles + 1) := by
  have hpos := hg.matrixValueCycles
  unfold stepBegins
  rcases Numbers.mod_succ_lt_or_eq hpos c with hlt | heq
  · left
    obtain ⟨hdiv, hmod⟩ := Numbers.div_mod_succ_of_lt hlt
    rw [hdiv, hmod, Nat.succ_mul, Nat.add_assoc]
  · right
    obtain ⟨hdiv, hmod⟩ := Numbers.div_mod_succ_of_eq hpos heq
    refine ⟨by omega, ?_, ?_⟩
    · rw [Nat.add_assoc, ← Nat.succ_mul, Nat.succ_eq_add_one, heq, Nat.mul_comm]
      rfl
    · rw [hdiv, hmod, Nat.zero_mul, Nat.add_zero, Nat.add_assoc]

include hg h in
theorem stepBegins_room (q c : ℕ) :
    stepBegins g begins q c + g.calcCycles ≤ stepBegins g begins q (c + 1) := by
  rcases stepBegins_succ hg begins q c with heq | ⟨-, hend, heq⟩
  · exact heq.ge
  · have hroom := h.room (q + c / g.matrixValueCycles)
    have hlong := h.long (q + c / g.matrixValueCycles)
    omega

section Exact

variable (hq : ∀ p, q ≤ p → len p = g.elements)

include hg h hq in
/-- The registers in the time of a step. -/
theorem step_run (h1 : stepBegins g begins q c ≤ u) (h2 : u < stepBegins g begins q (c + 1)) :
    Phase g (run g inp (u + 1)) (values inp begins (q + c / g.matrixValueCycles)) g.elements
        (c % g.matrixValueCycles * g.calcCycles + (u - stepBegins g begins q c)) ∧
      min (c % g.matrixValueCycles * g.calcCycles + (u - stepBegins g begins q c))
          (g.elements - 1) =
        c % g.matrixValueCycles * g.calcCycles +
          min (u - stepBegins g begins q c) (g.calcCycles - 1) ∧
      (c % g.matrixValueCycles * g.calcCycles + (u - stepBegins g begins q c) < g.elements ↔
        u < stepBegins g begins q c + g.calcCycles) := by
  have hcalc := hg.calcCycles
  have hmod := Nat.mod_lt c hg.matrixValueCycles
  have hin := element_lt (g := g) (show g.calcCycles - 1 < g.calcCycles by omega) hmod
  have hroom := h.room (q + c / g.matrixValueCycles)
  have hlen := hq (q + c / g.matrixValueCycles) (Nat.le_add_right _ _)
  have hdef : stepBegins g begins q c =
    begins (q + c / g.matrixValueCycles) + c % g.matrixValueCycles * g.calcCycles := rfl
  generalize hb : c % g.matrixValueCycles * g.calcCycles = b at hin hdef ⊢
  have htime : u = begins (q + c / g.matrixValueCycles) +
      (b + (u - stepBegins g begins q c)) := by
    omega
  refine ⟨?_, ?_, ?_⟩
  · have hphase := phase_run hg h (q + c / g.matrixValueCycles)
      (d := b + (u - stepBegins g begins q c)) (by
        rcases stepBegins_succ hg begins q c with heq | ⟨-, -, heq⟩ <;> omega)
    rwa [← htime, hlen] at hphase
  · rcases stepBegins_succ hg begins q c with heq | ⟨-, hend, -⟩ <;> omega
  · rcases stepBegins_succ hg begins q c with heq | ⟨-, hend, -⟩ <;> omega

include hg h in
/-- The ROM shows the weights of each step and filter set. -/
theorem romData_eq (q c : ℕ) (hk : k < g.calcCycles) :
    g.layout.weightsBuf (run g inp (stepBegins g begins q c + k + 1)).romData =
      stepWeights g (c % g.matrixValueCycles) k := by
  have hmod := Nat.mod_lt c hg.matrixValueCycles
  have hin := element_lt (g := g) hk hmod
  have haddr : (run g inp (stepBegins g begins q c + k)).romAddr =
      c % g.matrixValueCycles * g.calcCycles + k := by
    unfold stepBegins
    rw [Nat.add_assoc]
    generalize c % g.matrixValueCycles * g.calcCycles + k = e at hin ⊢
    generalize q + c / g.matrixValueCycles = p
    have hroom := h.room p
    have hlong := h.long p
    cases e with
    | zero => exact (rest_run hg h p).romAddr
    | succ e =>
      have hlast := (phase_run hg h p (d := e) (by omega)).romAddr
      rw [show min e (g.elements - 1) = e by omega, nextElement, if_pos (by omega)] at hlast
      exact hlast
  show g.layout.weightsBuf (g.rom (run g inp (stepBegins g begins q c + k)).romAddr) = _
  rw [haddr, Generics.rom, RomLayout.initRom_eq hg.split hmod hk]
  rfl

theorem run_mac (t : ℕ) :
    (run g inp t).mac = Mac.run (fun u => macInput (run g inp u) (inp u)) t := by
  induction t with
  | zero => rfl
  | succ t ih =>
    rw [run_succ, Mac.run, ← ih]
    rfl

/-- The values of filter set `k` in step `c` from matrix `q` on. -/
def stepValues (g : Generics) (inp : ℕ → Sample) (begins : ℕ → ℕ) (q c k : ℕ) : CnnValues :=
  values inp begins (q + c / g.matrixValueCycles) (c % g.matrixValueCycles * g.calcCycles + k)

include hg h hq in
theorem schedule : Schedule g.mac (stepBegins g begins q)
    (fun u => macInput (run g inp u) (inp u)) (stepValues g inp begins q)
    fun m k => stepWeights g m k := by
  have hcalc := hg.calcCycles
  have hfirst : stepBegins g begins q 0 = begins q := by
    unfold stepBegins
    rw [Nat.zero_div, Nat.zero_mod, Nat.zero_mul, Nat.add_zero, Nat.add_zero]
  refine ⟨hg.tiled, fun m k o => RomLayout.bounded_weightsBuf o, hcalc, hg.matrixValueCycles,
    stepBegins_room hg h q, ?_, fun c u h1 h2 => ?_, fun u hu => ?_,
    fun c u h1 h2 => ?_, fun u _ => rfl, fun c u h1 h2 => ?_, fun c k hk => ?_,
    fun c k hk => romData_eq hg h q c hk⟩
  · rw [hfirst]
    exact (rest_run hg h q).calcEn
  · obtain ⟨hphase, -, hlt⟩ := step_run hg h hq h1 h2
    exact hphase.calcEn.trans (decide_eq_decide.mpr hlt)
  · rw [hfirst] at hu
    show (run g inp (u + 1)).filterCnt ≠ 0
    rw [hu, (rest_run hg h q).filterCnt]
    omega
  · obtain ⟨hphase, hmin, -⟩ := step_run hg h hq h1 h2
    refine hphase.filterCnt.trans ?_
    rw [hmin]
    exact (Numbers.div_mod_eq' (lt_of_le_of_lt (min_le_right _ _)
      (show g.calcCycles - 1 < g.calcCycles by omega))).2
  · obtain ⟨hphase, hmin, -⟩ := step_run hg h hq h1 h2
    refine hphase.cycleCnt.trans ?_
    rw [hmin]
    exact (Numbers.div_mod_eq' (lt_of_le_of_lt (min_le_right _ _)
      (show g.calcCycles - 1 < g.calcCycles by omega))).1
  · have hk' : k < g.calcCycles := hk
    have hroom := stepBegins_room hg h q c
    obtain ⟨hphase, -, hlt⟩ := step_run hg h hq (c := c) (u := stepBegins g begins q c + k)
      (Nat.le_add_right _ _) (by omega)
    refine (hphase.data (hlt.mpr (by omega))).trans ?_
    rw [Nat.add_sub_cancel_left]
    rfl

end Exact

/-! ### The outputs -/

include hg h in
/-- The sum of the last filter set after the last step, and as long as the matrix stays. -/
theorem atLast_iff (t : ℕ) : atLast (run g inp t) = true ↔
    ∃ p d, t = begins p + d + 2 ∧ g.elements ≤ d + 1 ∧ d < len p := by
  have hpos := elements_pos hg
  obtain ⟨hdiv, hmod⟩ := last_div_mod hg
  constructor
  · intro ht
    unfold atLast at ht
    rw [Bool.and_eq_true, Bool.and_eq_true, decide_eq_true_iff, decide_eq_true_iff] at ht
    obtain ⟨⟨hen, hcycle⟩, hfilter⟩ := ht
    cases t with
    | zero => cases hen
    | succ t =>
      have hen' : (run g inp t).calcEn = true := by
        rw [← hen]
        show _ = (run g inp (t + 1)).mac.calcEnSum
        rfl
      have hlt : begins 0 < t := by
        by_contra hle
        rw [(early_run h (not_lt.mp hle)).calcEn] at hen'
        cases hen'
      obtain ⟨p, hp1, hp2⟩ := Clocked.exists_interval (begins_mono h)
        (show begins 0 ≤ t - 1 by omega)
      obtain ⟨d, hd⟩ : ∃ d, t = begins p + d + 1 := ⟨t - 1 - begins p, by omega⟩
      have hphase := phase_run hg h p (d := d) (by omega)
      rw [← hd] at hphase
      have hcycle' : (run g inp t).cycleCnt = g.matrixValueCycles - 1 := hcycle
      have hfilter' : (run g inp t).filterCnt = g.calcCycles - 1 := hfilter
      rw [hphase.calcEn, decide_eq_true_iff] at hen'
      rw [hphase.cycleCnt, ← hdiv] at hcycle'
      rw [hphase.filterCnt, ← hmod] at hfilter'
      have hlast : min d (g.elements - 1) = g.elements - 1 := by
        rw [← Nat.div_add_mod (min d (g.elements - 1)) g.calcCycles, hcycle', hfilter',
          Nat.div_add_mod]
      exact ⟨p, d, by omega, by omega, hen'⟩
  · rintro ⟨p, d, rfl, hd, hlt⟩
    have hroom := h.room p
    have hphase := phase_run hg h p (d := d) (by omega)
    have hen := hphase.calcEn
    have hcycle := hphase.cycleCnt
    have hfilter := hphase.filterCnt
    rw [decide_eq_true hlt] at hen
    rw [show min d (g.elements - 1) = g.elements - 1 by omega] at hcycle hfilter
    rw [hdiv] at hcycle
    rw [hmod] at hfilter
    unfold atLast
    rw [Bool.and_eq_true, Bool.and_eq_true, decide_eq_true_iff, decide_eq_true_iff]
    exact ⟨⟨hen, hcycle⟩, hfilter⟩

include hg h in
/-- Once in each matrix. -/
theorem lastInput_iff (t : ℕ) :
    (run g inp t).lastInput = true ↔ ∃ p, t = begins p + g.elements + 2 := by
  have hlast := atLast_iff hg h
  have hpos := elements_pos hg
  rcases t with _ | _ | t
  · refine ⟨fun ht => ?_, fun ⟨p, hp⟩ => ?_⟩
    · cases ht
    · omega
  · refine ⟨fun ht => ?_, fun ⟨p, hp⟩ => ?_⟩
    · cases ht
    · omega
  · show (atLast (run g inp (t + 1)) && !atLast (run g inp t)) = true ↔ _
    rw [Bool.and_eq_true, Bool.not_eq_true', ← Bool.not_eq_true, hlast, hlast]
    constructor
    · rintro ⟨⟨p, d, hd1, hd2, hd3⟩, hnot⟩
      refine ⟨p, ?_⟩
      by_contra hne
      exact hnot ⟨p, d - 1, by omega, by omega, by omega⟩
    · rintro ⟨p, hp⟩
      have hlong := h.long p
      refine ⟨⟨p, g.elements - 1, by omega, by omega, by omega⟩, ?_⟩
      rintro ⟨q, d, hd1, hd2, hd3⟩
      rcases Nat.lt_or_ge q p with hlt | hge
      · have hroom := h.room q
        have hmono : begins (q + 1) ≤ begins p := (begins_mono h).monotone hlt
        omega
      · have hmono := (begins_mono h).monotone hge
        omega

include hg h in
theorem rounds : Rounds g.out (fun t => (run g inp t).out) (fun t => (run g inp t).lastInput)
    fun p => begins p + g.elements + 2 := by
  have hcycles := hg.filterCycles
  have hcalc := hg.calcCycles
  have houtRoom := hg.outRoom
  refine ⟨rfl, fun t => rfl, hg.filterDelay, ?_, fun p => ?_, lastInput_iff hg h⟩
  · show 0 < g.filterCycles
    omega
  · have hroom := h.spaced p
    show _ + g.filterCycles * g.filterDelay ≤ _
    omega

/-- The edge in which result set `k` of matrix `p` is read. -/
def readAt (g : Generics) (begins : ℕ → ℕ) (p k : ℕ) : ℕ :=
  begins p + g.elements + 2 + k * g.filterDelay + 1

include hg h in
theorem ready_iff (t : ℕ) : (run g inp t).out.ready = true ↔
    ∃ p, ∃ k < g.filterCycles, t = readAt g begins p k := (rounds hg h).ready_iff t

include hg h in
/-- The convolution sends each result set of each matrix once. -/
theorem output_dataValid_iff (t : ℕ) :
    (run g inp t).output.dataValid = true ↔
      ∃ p, ∃ k < g.filterCycles, t = readAt g begins p k + 1 := by
  cases t with
  | zero =>
    constructor
    · intro ht
      cases ht
    · rintro ⟨p, k, -, ht⟩
      cases ht
  | succ t =>
    have hvalid : (run g inp (t + 1)).output.dataValid = (run g inp t).out.ready := by
      show (if (run g inp t).out.ready then _ else _ : CnnStream).dataValid = _
      cases (run g inp t).out.ready <;> rfl
    rw [hvalid, ready_iff hg h]
    constructor
    · rintro ⟨p, k, hk, rfl⟩
      exact ⟨p, k, hk, rfl⟩
    · rintro ⟨p, k, hk, ht⟩
      exact ⟨p, k, hk, Nat.succ_injective ht⟩

section Exact

variable (hq : ∀ p, q ≤ p → len p = g.elements)

include hg in
theorem stepBegins_last (begins : ℕ → ℕ) (q j : ℕ) :
    stepBegins g begins q (lastInput g.mac j) + g.calcCycles = begins (q + j) + g.elements := by
  have hpos := hg.matrixValueCycles
  have hlast : lastInput g.mac j = j * g.matrixValueCycles + (g.matrixValueCycles - 1) := rfl
  obtain ⟨hdiv, hmod⟩ := Numbers.div_mod_eq' (a := j)
    (show g.matrixValueCycles - 1 < g.matrixValueCycles by omega)
  unfold stepBegins
  rw [hlast, hdiv, hmod, Nat.add_assoc, ← Nat.succ_mul,
    show (g.matrixValueCycles - 1).succ = g.matrixValueCycles by omega, Nat.mul_comm]
  rfl

include hg h hq in
/-- The results of a matrix are the sums over its steps. -/
theorem oData_eq_result (j : ℕ) (hk : k < g.filterCycles) {v : ℕ} (hv : v < g.outFilters) :
    (run g inp (readAt g begins (q + j) k + 1)).oData v =
      result g.mac (stepValues g inp begins q) (fun m k => stepWeights g m k) j k v := by
  have hcycles := hg.filterCycles
  have hcalc := hg.calcCycles
  have hready := (ready_iff hg h _).mpr ⟨q + j, k, hk, rfl⟩
  obtain ⟨hreg, -, haddr⟩ := (rounds hg h).cntReg_eq (q + j) hk
  have hram : g.outRamElements = g.calcCycles := by
    unfold Generics.outRamElements
    omega
  show (if (run g inp (readAt g begins (q + j) k)).out.ready then _ else _ : ℕ → Result) v = _
  rw [if_pos hready]
  show (if v < g.outFilters then OutStage.select g.out (run g inp (readAt g begins (q + j) k)).out
    g.outFilters (run g inp (readAt g begins (q + j) k)).mac.outRam v else _) = _
  have hone : g.out.cycles / g.out.ramElements = 1 := by
    show g.filterCycles / g.outRamElements = 1
    rw [hcycles, hram]
    exact Nat.div_self (by omega)
  have hwhole : g.out.cycles = g.out.ramElements := hcycles.trans hram.symm
  have hsmall : k * g.filterDelay + g.calcCycles ≤ g.filterCycles * g.filterDelay + k := by
    obtain ⟨m, hm⟩ : ∃ m, g.filterCycles = k + m := ⟨g.filterCycles - k, by omega⟩
    have hscale : m * 1 ≤ m * g.filterDelay := Nat.mul_le_mul_left m hg.filterDelay
    rw [← hcycles, hm, Nat.add_mul]
    omega
  have hlarge : k ≤ k * g.filterDelay := Nat.le_mul_of_pos_right k hg.filterDelay
  have houtRoom := hg.outRoom
  have hroom : begins (q + j) + g.elements < begins (q + (j + 1)) := h.spaced (q + j)
  have hnow := stepBegins_last hg begins q j
  have hnext := stepBegins_last hg begins q (j + 1)
  have hresult := (schedule hg h hq).outRam_eq (j := j) (k := k) (o := v)
    (u := begins (q + j) + g.elements - 2 + k * g.filterDelay) hram.symm
    (by
      show v < g.filters / g.calcCycles
      rwa [← hcycles])
    (show k < g.calcCycles by omega) (by omega) (by omega)
  have htime : readAt g begins (q + j) k =
      begins (q + j) + g.elements - 2 + k * g.filterDelay + 5 := by
    unfold readAt
    have hpos := elements_pos hg
    omega
  have haddr' : (run g inp (readAt g begins (q + j) k)).out.rdAddr = k :=
    haddr.trans (by rw [hone, Nat.div_one])
  rw [if_pos hv, OutStage.select, if_pos hwhole, haddr', run_mac, ← hresult, htime]

end Exact

/-! ### Positions -/

/-- The edge in which the last result set of matrix `p` is read. -/
def finish (g : Generics) (begins : ℕ → ℕ) (p : ℕ) : ℕ := readAt g begins p (g.filterCycles - 1)

include hg h in
theorem position_follows : OutPosition.Follows (fun t => (run g inp t).position)
    (fun t => (inp t).stream.dataValid && !(run g inp t).matrixValidReg)
    (fun t => atDone (run g inp t)) (fun t => ((inp t).stream.column, (inp t).stream.row))
    begins (finish g begins) := by
  have hcalc := hg.calcCycles
  have hcycles := hg.filterCycles
  have hpos := elements_pos hg
  have hdelay := hg.filterDelay
  have houtRoom := hg.outRoom
  have hlast := Numbers.pred_mul_add (show 0 < g.filterCycles by omega) g.filterDelay
  refine ⟨rfl, fun t => rfl, fun t => ?_, fun t => ?_, fun p => ?_, fun p => ?_, fun p => ?_,
    fun p => ?_⟩
  · have hlong := fun p => h.long p
    rw [Bool.and_eq_true]
    constructor
    · rintro ⟨hv, hr⟩
      obtain ⟨p, hp1, hp2⟩ := (h.dataValid t).mp hv
      rcases Nat.eq_or_lt_of_le hp1 with heq | hlt
      · exact ⟨p, heq.symm⟩
      · have hroom := h.room p
        have hreg := (phase_run hg h p (d := t - 1 - begins p) (by omega)).matrixValidReg
        rw [show begins p + (t - 1 - begins p) + 1 = t by omega, decide_eq_true (by omega)] at hreg
        rw [hreg] at hr
        cases hr
    · rintro ⟨p, rfl⟩
      have hp := hlong p
      refine ⟨(h.dataValid _).mpr ⟨p, le_rfl, by omega⟩, ?_⟩
      rw [(rest_run hg h p).matrixValidReg]
      rfl
  · unfold atDone
    rw [Bool.and_eq_true, decide_eq_true_iff, ready_iff hg h]
    constructor
    · rintro ⟨⟨p, k, hk, rfl⟩, hreg⟩
      have hsent := ((rounds hg h).cntReg_eq p hk).1
      have hk' : k = g.filterCycles - 1 := hsent.symm.trans hreg
      exact ⟨p, by rw [hk', finish]⟩
    · rintro ⟨p, rfl⟩
      have hk : g.filterCycles - 1 < g.filterCycles := by omega
      exact ⟨⟨p, _, hk, rfl⟩, ((rounds hg h).cntReg_eq p hk).1⟩
  · have hroom := h.spaced p
    omega
  · have hroom := h.spaced p
    unfold finish readAt
    omega
  · unfold finish readAt
    omega
  · have hroom := h.spaced p
    have hroom' : begins (p + 1) + g.elements < begins (p + 2) := h.spaced _
    unfold finish readAt
    omega

include hg h in
/-- The results of a matrix go out under its position, if no matrix begins in the edge of
the last result of the one before. -/
theorem output_position_eq (hne : ∀ q < p, finish g begins q ≠ begins (q + 1))
    (hk : k < g.filterCycles) :
    ((run g inp (readAt g begins p k + 1)).output.column,
      (run g inp (readAt g begins p k + 1)).output.row) = position inp begins p := by
  have hready := (ready_iff hg h _).mpr ⟨p, k, hk, rfl⟩
  have hle : k * g.filterDelay ≤ (g.filterCycles - 1) * g.filterDelay :=
    Nat.mul_le_mul_right _ (by omega)
  have hout := (position_follows hg h).out_eq hne (t := readAt g begins p k)
    (by
      cases p with
      | zero =>
        show begins 0 < _
        unfold readAt
        omega
      | succ p =>
        have hroom := h.spaced p
        have hlate := (position_follows hg h).own (p + 1)
        have houtRoom := hg.outRoom
        have hlast : (g.filterCycles - 1) * g.filterDelay ≤ g.filterCycles * g.filterDelay :=
          Nat.mul_le_mul_right _ (Nat.sub_le _ _)
        refine max_lt ?_ ?_
        · unfold readAt
          omega
        · unfold finish readAt
          omega)
    (by
      unfold finish readAt
      omega)
  show ((if (run g inp (readAt g begins p k)).out.ready then _ else _ : CnnStream).column,
    (if (run g inp (readAt g begins p k)).out.ready then _ else _ : CnnStream).row) = _
  rw [if_pos hready]
  exact hout

include hg h in
/-- Else they go out under the position of the matrix before or of the next one. -/
theorem output_position_of_finish_eq (hne : ∀ q < p, finish g begins q ≠ begins (q + 1))
    (heq : finish g begins p = begins (p + 1)) (hk : k < g.filterCycles) :
    ((run g inp (readAt g begins (p + 1) k + 1)).output.column,
      (run g inp (readAt g begins (p + 1) k + 1)).output.row) =
        if readAt g begins (p + 1) k ≤ begins (p + 2) then position inp begins p
        else position inp begins (p + 2) := by
  have hready := (ready_iff hg h _).mpr ⟨p + 1, k, hk, rfl⟩
  have hle : k * g.filterDelay ≤ (g.filterCycles - 1) * g.filterDelay :=
    Nat.mul_le_mul_right _ (by omega)
  have hout := (position_follows hg h).out_of_finish_eq hne heq (t := readAt g begins (p + 1) k)
    (by
      rw [heq]
      unfold readAt
      omega)
    (by
      unfold finish readAt
      omega)
  show ((if (run g inp (readAt g begins (p + 1) k)).out.ready then _ else _ : CnnStream).column,
    (if (run g inp (readAt g begins (p + 1) k)).out.ready then _ else _ : CnnStream).row) = _
  rw [if_pos hready]
  exact hout

include hg h in
/-- If every matrix has another position than the next one, the results go out under their
own positions exactly if no matrix begins in the edge of the last result of the one before. -/
theorem positions_iff (hp : ∀ p, position inp begins p ≠ position inp begins (p + 1)) :
    (∀ p, ∀ k < g.filterCycles, ((run g inp (readAt g begins p k + 1)).output.column,
      (run g inp (readAt g begins p k + 1)).output.row) = position inp begins p) ↔
      ∀ p, finish g begins p ≠ begins (p + 1) := by
  constructor
  · intro hall p
    -- the first matrix with such a successor
    induction p using Nat.strong_induction_on with
    | _ p ih =>
      intro heq
      have hk : 0 < g.filterCycles := by
        have hcycles := hg.filterCycles
        have hcalc := hg.calcCycles
        omega
      have hlost := output_position_of_finish_eq hg h ih heq hk
      rw [hall (p + 1) 0 hk] at hlost
      split_ifs at hlost
      · exact hp p hlost.symm
      · exact hp (p + 1) hlost
  · exact fun hne p k hk => output_position_eq hg h (fun q _ => hne q) hk

/-! ### Numbers -/

/-- The weights of filter `r`, step after step. -/
def row (g : Generics) (r m s : ℕ) : ℤ := (g.weights r (m * g.calcSteps + s)).val

/-- The shifts of the sums are within their widths. -/
structure Generics.Shifts (g : Generics) : Prop where
  scaled : g.neuron.Scaled
  rescaled : g.neuron.Rescaled

theorem sumInputValues_eq (hg : g.Valid) : g.sumInputValues = g.calcSteps := by
  have hpos : 0 < g.matrixValues := Nat.pos_of_mul_pos_right hg.matrixValueCycles
  unfold Generics.sumInputValues Generics.calcSteps Generics.matrixValueCycles
  rw [Nat.mul_comm g.inputValues, Nat.mul_div_mul_left _ _ hpos]

theorem stepWeights_eq (k : ℕ) {v : ℕ} (hv : v < g.calcFilters) (m : ℕ) :
    ∀ s < g.neuron.calcSteps, stepWeights g m k v s = row g (k * g.calcFilters + v) m s := by
  intro s _
  obtain ⟨hdiv, hmod⟩ := Numbers.div_mod_eq' (a := s) hv
  rw [stepWeights, RomLayout.weightsBuf_element]
  show (g.weights (k * g.calcFilters + (s * g.calcFilters + v) % g.calcFilters)
    (m * g.calcSteps + (s * g.calcFilters + v) / g.calcFilters) : ℤ) = _
  rw [hdiv, hmod]
  rfl

/-- The sums of a convolution always fit: the width counts every value of the matrix. -/
theorem abs_total_lt (hg : g.Valid) (hs : g.Shifts) {w : ℕ → ℕ → ℤ} (hw : ∀ c, Bounded (w c))
    (y : ℕ → CnnValues) :
    |g.neuron.total y w g.matrixValueCycles| + 128 < 2 ^ g.neuron.bitsMax := by
  have hnonneg := hs.scaled.nonneg
  have hshift : 5 ≤ (max g.offset 0).toNat + g.neuron.productShift.toNat := by
    have hproduct : g.neuron.productShift = 8 - g.offset - 1 - 2 := rfl
    rw [hproduct] at hnonneg ⊢
    omega
  have habs := Neuron.abs_total_le hg.tiled hw hshift y g.matrixValueCycles
  have hvalues : g.matrixValueCycles * g.neuron.calcSteps = g.matrixValues * g.inputValues := by
    have hinputs : g.inputValues * g.matrixValues = g.matrixValueCycles * g.calcSteps :=
      hg.split.inputs
    show g.matrixValueCycles * g.sumInputValues = _
    rw [sumInputValues_eq hg, ← hinputs, Nat.mul_comm]
  have hclog : g.matrixValues * g.inputValues + 1 ≤
      2 ^ Nat.clog 2 (g.matrixValues * g.inputValues + 1) := Nat.le_pow_clog one_lt_two _
  have hbits : g.neuron.bitsMax = 9 + (max g.offset 0).toNat +
      Nat.clog 2 (g.matrixValues * g.inputValues + 1) := by
    show cnnValueResolution - 1 + _ + _ + cnnSumOffset = _
    unfold cnnValueResolution cnnSumOffset
    omega
  generalize hn : g.matrixValues * g.inputValues = n at hvalues hclog hbits
  rw [← Nat.cast_mul, hvalues] at habs
  have hclog' : (n : ℤ) + 1 ≤ 2 ^ Nat.clog 2 (n + 1) := by exact_mod_cast hclog
  have hone : (1 : ℤ) ≤ 2 ^ (max g.offset 0).toNat := one_le_pow₀ one_le_two
  have hn0 : (0 : ℤ) ≤ n := Nat.cast_nonneg n
  calc |g.neuron.total y w g.matrixValueCycles| + 128
      ≤ 505 * 2 ^ (max g.offset 0).toNat * n + 128 := by linarith
    _ < 2 ^ 9 * 2 ^ (max g.offset 0).toNat * (n + 1) := by nlinarith
    _ ≤ 2 ^ 9 * 2 ^ (max g.offset 0).toNat * 2 ^ Nat.clog 2 (n + 1) :=
        mul_le_mul_of_nonneg_left hclog' (by positivity)
    _ = 2 ^ g.neuron.bitsMax := by rw [hbits, pow_add, pow_add]

/-- The result of a filter for any values is the rescaled sum of its rounded products and
its bias: nothing wraps. -/
theorem toInt_result (hg : g.Valid) (hs : g.Shifts) (y : ℕ → ℕ → CnnValues) (j k : ℕ) {v : ℕ}
    (hv : v < g.calcFilters) :
    (result g.mac y (fun m k => stepWeights g m k) j k v).toInt =
      g.neuron.output
        (g.neuron.total (fun m => y (j * g.matrixValueCycles + m) k)
          (row g (k * g.calcFilters + v)) g.matrixValueCycles)
        (g.neuron.biasConst g.weights (g.matrixValues * g.inputValues)
          (k * g.calcFilters + v)) := by
  have hweights := stepWeights_eq k hv
  have hbounded (m : ℕ) : Bounded (stepWeights g m k v) :=
    RomLayout.bounded_weightsBuf (l := g.layout) v
  have hlow := neg_le_of_abs_le (le_refl |g.neuron.low (fun m => stepWeights g m k v)
    g.matrixValueCycles|)
  have hhigh := le_abs_self (g.neuron.high (fun m => stepWeights g m k v) g.matrixValueCycles)
  have hsmall := abs_total_lt hg hs hbounded fun m => Neuron.onNegative (stepWeights g m k v)
  have hlarge := abs_total_lt hg hs hbounded fun m => Neuron.onPositive (stepWeights g m k v)
  have hbias := g.neuron.abs_biasConst_le g.weights (g.matrixValues * g.inputValues)
    (k * g.calcFilters + v)
  have hresult := Neuron.toInt_actSum_totalSum hs.scaled hs.rescaled hbounded hbias
    (by
      rw [Neuron.low] at hlow ⊢
      linarith)
    (by
      rw [Neuron.high] at hhigh ⊢
      linarith) fun m => y (j * g.matrixValueCycles + m) k
  rw [Neuron.total_congr hg.tiled (fun _ _ _ _ => rfl) fun c _ => hweights c] at hresult
  rw [← hresult]
  show (g.neuron.actSum (g.neuron.totalSum _ _ g.matrixValueCycles)
    (g.neuron.biasConst g.weights _ (v + k * g.calcFilters))).toInt = _
  rw [Nat.add_comm v]
  rfl

include hg h in
/-- For each matrix the convolution sends each result set once, under the position of the
matrix. From the first matrix on that all stay no longer than the calculation for them,
the values are the rescaled sums of the rounded products and the biases. -/
theorem output_eq_total (hs : g.Shifts) (hne : ∀ p, finish g begins p ≠ begins (p + 1))
    (hq : ∀ p, q ≤ p → len p = g.elements) :
    (∀ t, (run g inp t).output.dataValid = true ↔
      ∃ p, ∃ k < g.filterCycles, t = readAt g begins p k + 1) ∧
    (∀ p, ∀ k < g.filterCycles, (run g inp (readAt g begins p k + 1)).output =
      ⟨(position inp begins p).1, (position inp begins p).2, k, true⟩) ∧
    ∀ p, q ≤ p → ∀ k < g.filterCycles, ∀ v < g.outFilters,
      ((run g inp (readAt g begins p k + 1)).oData v).toInt =
        g.neuron.output
          (g.neuron.total (fun m => values inp begins p (m * g.calcCycles + k))
            (row g (k * g.outFilters + v)) g.matrixValueCycles)
          (g.neuron.biasConst g.weights (g.matrixValues * g.inputValues)
            (k * g.outFilters + v)) := by
  have hvalues : g.outFilters = g.calcFilters := by
    unfold Generics.outFilters Generics.calcFilters
    rw [hg.filterCycles]
  refine ⟨output_dataValid_iff hg h, fun p k hk => ?_, fun p hp k hk v hv => ?_⟩
  · have hready := (ready_iff hg h _).mpr ⟨p, k, hk, rfl⟩
    have hposition := output_position_eq hg h (p := p) (fun q _ => hne q) hk
    have hstream : (run g inp (readAt g begins p k + 1)).output =
        ⟨(run g inp (readAt g begins p k)).position.out.1,
          (run g inp (readAt g begins p k)).position.out.2,
          (run g inp (readAt g begins p k)).out.cntReg, true⟩ := by
      show (if (run g inp (readAt g begins p k)).out.ready then _ else _ : CnnStream) = _
      rw [if_pos hready]
      rfl
    have hcnt : (run g inp (readAt g begins p k)).out.cntReg = k := ((rounds hg h).cntReg_eq p hk).1
    rw [hstream] at hposition
    rw [hstream, hcnt, ← hposition]
  · obtain ⟨j, rfl⟩ := Nat.exists_eq_add_of_le hp
    have hdata := oData_eq_result hg h hq j hk hv
    rw [hvalues] at hv ⊢
    have hsteps (m : ℕ) (hm : m < g.matrixValueCycles) :
        stepValues g inp begins q (j * g.matrixValueCycles + m) k =
          values inp begins (q + j) (m * g.calcCycles + k) := by
      obtain ⟨hdiv, hmod⟩ := Numbers.div_mod_eq' (a := j) hm
      rw [stepValues, hdiv, hmod]
    rw [hdata, toInt_result hg hs _ j k hv,
      Neuron.total_congr hg.tiled (fun m hm s _ => congrFun (hsteps m hm) s) fun _ _ _ _ => rfl]

end Run

/-! ### A small convolution -/

/-- Two filters over two columns. -/
def small : Generics where
  inputColumns := 5
  inputRows := 1
  inputValues := 1
  filterColumns := 2
  filterRows := 1
  filters := 2
  strides := 1
  activation := .relu
  padding := .valid
  inputCycles := 1
  valueCycles := 1
  calcCycles := 2
  filterCycles := 2
  filterDelay := 1
  expandCycles := 0
  offsetIn := 0
  offsetOut := 3
  offset := 0
  weights := fun f i => cnnWeight (24 - 30 * f + 5 * i)

/-- A matrix every five edges. -/
def everyFive (t : ℕ) : Sample :=
  ⟨⟨t / 5, 0, 0, decide (t % 5 < 4)⟩, fun _ => Fin.ofNat 128 t⟩

theorem small_valid : small.Valid :=
  ⟨by decide, by decide, rfl, by decide, by decide, ⟨by decide, by decide, rfl, rfl⟩, by decide⟩

theorem small_matrices : Matrices small everyFive (5 * ·) fun _ => 4 := by
  refine ⟨fun p => le_rfl, fun p => ?_, fun t => ?_⟩
  · show 5 * p + 4 < 5 * (p + 1)
    omega
  · rw [everyFive, decide_eq_true_iff]
    exact ⟨fun h => ⟨t / 5, by omega, by omega⟩, fun ⟨p, h1, h2⟩ => by omega⟩

theorem positions_iff_small :
    (∀ p, ∀ k < small.filterCycles,
      ((run small everyFive (readAt small (5 * ·) p k + 1)).output.column,
        (run small everyFive (readAt small (5 * ·) p k + 1)).output.row) =
          position everyFive (5 * ·) p) ↔
      ∀ p, finish small (5 * ·) p ≠ 5 * (p + 1) :=
  positions_iff small_valid small_matrices fun p h => by
    have hcolumn : 5 * p / 5 = 5 * (p + 1) / 5 := congrArg Prod.fst h
    omega

end AlteraWorkshops.Cnn.Convolution
