import AlteraWorkshops.Cnn.Neuron

/-! The pipeline that `CNN_Convolution` and `NN_Layer` have in common behind their counters:
the products of a step, the sums in a memory, the bias, and the memory of the results. One
more edge each. -/

namespace AlteraWorkshops.Cnn

/-- The generics of the pipeline. -/
structure MacGenerics where
  neuron : Neuron
  /-- `Calc_Outputs`, `Calc_Filters` -/
  calcOutputs : ℕ
  calcCycles : ℕ
  /-- `Input_Cycles`, `Matrix_Value_Cycles`: the steps of a sum. -/
  inputCycles : ℕ
  outRamElements : ℕ
  /-- `Bias_Const` -/
  bias : ℕ → ℤ

namespace MacGenerics

variable (g : MacGenerics)

/-- An element of `sum_set_t`, of `prod_array_t` and of a result set. -/
abbrev Sum := BitVec (g.neuron.bitsMax + 1)
abbrev Product := BitVec g.neuron.groupSumTotalBits

end MacGenerics

/-- A value of `CNN_Value_Resolution` bits. -/
abbrev Result := BitVec cnnValueResolution

structure Mac (g : MacGenerics) where
  calcEnSum : Bool
  prodBuf : ℕ → ℕ → g.Product
  sumRam : ℕ → ℕ → g.Sum
  sumRdAddrReg : ℕ
  sumRdAddr : ℕ
  sumWrAddr : ℕ
  sumWrData : ℕ → g.Sum
  sum : ℕ → g.Sum
  sumReg : ℕ → g.Sum
  addBias : Bool
  /-- `Output_Bias_Reg`, `Filter_Bias_Reg` -/
  biasReg : ℕ
  outRam : ℕ → ℕ → Result
  outWrAddr : ℕ
  outWrData : ℕ → Result
  actSumBuf : ℕ → ℕ → Result

def Mac.initial (g : MacGenerics) : Mac g where
  calcEnSum := false
  prodBuf := fun _ _ => 0
  sumRam := fun _ _ => 0
  sumRdAddrReg := 0
  sumRdAddr := 0
  sumWrAddr := 0
  sumWrData := fun _ => 0
  sum := fun _ => 0
  sumReg := fun _ => 0
  addBias := false
  biasReg := 0
  outRam := fun _ _ => 0
  outWrAddr := 0
  outWrData := fun _ => 0
  actSumBuf := fun _ _ => 0

/-- What the counters of the component tell the pipeline in an edge. -/
structure MacInput where
  calcEn : Bool
  /-- `Output_Cnt`, `Filter_Cnt` as counted in this edge. -/
  cnt : ℕ
  /-- The counters of two edges before. -/
  cnt2 : ℕ
  cycle2 : ℕ
  data : CnnValues
  weights : ℕ → ℕ → ℤ

namespace Mac

variable {g : MacGenerics}

/-- The sums of this edge: the last ones, from the memory if the calculation is split, and
zero in the first step, plus the products. -/
def nextSum (s : Mac g) (i : MacInput) (o : ℕ) : g.Sum :=
  let last := if 1 < g.calcCycles then s.sumRam s.sumRdAddr o else s.sum o
  g.neuron.accumulate (s.prodBuf o) (if i.cycle2 = 0 then 0 else last)

/-- `Act_sum` -/
def act (s : Mac g) (o : ℕ) : Result :=
  g.neuron.actSum (s.sumReg o) (g.bias (o + s.biasReg * g.calcOutputs))

/-- The address and the data that are next for the memory of the results. -/
def nextOut (s : Mac g) : ℕ × (ℕ → Result) × (ℕ → ℕ → Result) :=
  if s.addBias then
    if g.calcCycles = g.outRamElements then
      ⟨s.biasReg, fun i => if i < g.calcOutputs then s.act i else s.outWrData i, s.actSumBuf⟩
    else
      let bufCycles := g.calcCycles / g.outRamElements
      let cnt := s.biasReg % bufCycles
      let buf := Function.update s.actSumBuf cnt s.act
      if cnt = bufCycles - 1 then
        ⟨s.biasReg / bufCycles, fun i =>
          if i < bufCycles * g.calcOutputs then buf (i / g.calcOutputs) (i % g.calcOutputs)
          else s.outWrData i, buf⟩
      else ⟨s.outWrAddr, s.outWrData, buf⟩
  else ⟨s.outWrAddr, s.outWrData, s.actSumBuf⟩

/-- One clock edge. -/
def step (s : Mac g) (i : MacInput) : Mac g :=
  let last := i.cycle2 = g.inputCycles - 1
  let biased := fun o =>
    if s.addBias then
      g.neuron.applyOffset (g.neuron.addBias (s.sumReg o) (g.bias (o + s.biasReg * g.calcOutputs)))
    else s.sumReg o
  { calcEnSum := i.calcEn
    prodBuf := if i.calcEn then
        fun o => g.neuron.groupSums i.data (i.weights o) (s.prodBuf o)
      else s.prodBuf
    sumRam := Function.update s.sumRam s.sumWrAddr s.sumWrData
    sumRdAddrReg := i.cnt
    sumRdAddr := s.sumRdAddrReg
    sumWrAddr := s.sumRdAddr
    sumWrData := if s.calcEnSum ∧ 1 < g.calcCycles then s.nextSum i else s.sumWrData
    sum := if s.calcEnSum then s.nextSum i else s.sum
    sumReg := if s.calcEnSum ∧ last then s.nextSum i else biased
    addBias := s.calcEnSum && last
    biasReg := if s.calcEnSum then i.cnt2 else s.biasReg
    outRam := Function.update s.outRam s.outWrAddr s.outWrData
    outWrAddr := s.nextOut.1
    outWrData := s.nextOut.2.1
    actSumBuf := s.nextOut.2.2 }

end Mac

end AlteraWorkshops.Cnn
