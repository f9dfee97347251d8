import AlteraWorkshops.Clocked.Trace
import AlteraWorkshops.Cnn.OutPosition
import AlteraWorkshops.Cnn.OutStage

/-! `CNN_Convolution` behind its row buffer: the values of the matrix of a pixel come one
after the other, each as long as it takes for all filters, and the results go out after the
last one, under the position that the matrix had. -/

namespace AlteraWorkshops.Cnn.Convolution

structure Generics where
  inputColumns : ℕ
  inputRows : ℕ
  inputValues : ℕ
  filterColumns : ℕ
  filterRows : ℕ
  filters : ℕ
  strides : ℕ
  activation : Activation
  padding : Padding
  inputCycles : ℕ
  valueCycles : ℕ
  calcCycles : ℕ
  filterCycles : ℕ
  filterDelay : ℕ
  expandCycles : ℕ
  offsetIn : ℤ
  offsetOut : ℤ
  offset : ℤ
  weights : CnnWeights

namespace Generics

variable (g : Generics)

/-- Pixels in the convolution. -/
def matrixValues : ℕ := g.filterColumns * g.filterRows

def matrixValueCycles : ℕ := g.matrixValues * g.valueCycles
def calcFilters : ℕ := g.filters / g.calcCycles
def outFilters : ℕ := g.filters / g.filterCycles
def calcSteps : ℕ := g.inputValues / g.valueCycles
def sumInputValues : ℕ := g.inputValues * g.matrixValues / g.matrixValueCycles
def outRamElements : ℕ := min g.calcCycles g.filterCycles

/-- Calculation steps overall. -/
def elements : ℕ := g.calcCycles * g.matrixValueCycles

/-- The widest sum without its offset. -/
def sumBits : ℕ :=
  cnnValueResolution - 1 + (max g.offset 0).toNat + Nat.clog 2 (g.matrixValues * g.inputValues + 1)

def neuron : Neuron where
  activation := g.activation
  offsetIn := g.offsetIn
  offsetOut := g.offsetOut
  offset := g.offset
  calcSteps := g.sumInputValues
  bitsMax := g.sumBits + cnnSumOffset
  maxBits := g.sumBits

def layout : RomLayout := ⟨g.filters, g.inputValues * g.matrixValues, g.calcFilters, g.calcSteps⟩

def rom : ℕ → ℕ → BitVec cnnWeightResolution := g.layout.initRom g.weights

def mac : MacGenerics where
  neuron := g.neuron
  calcOutputs := g.calcFilters
  calcCycles := g.calcCycles
  inputCycles := g.matrixValueCycles
  outRamElements := g.outRamElements
  bias := g.neuron.biasConst g.weights (g.matrixValues * g.inputValues)

def out : OutGenerics := ⟨g.filterCycles, g.filterDelay, g.outRamElements⟩

end Generics

/-! ### The component -/

structure State (g : Generics) where
  mac : Mac g.mac
  out : OutStage
  position : OutPosition
  romAddr : ℕ
  romData : ℕ → BitVec cnnWeightResolution
  calcEn : Bool
  matrixDataReg : CnnValues
  /-- `Matrix_Valid_Reg`, `Valid_Reg` -/
  matrixValidReg : Bool
  cycleCnt : ℕ
  cycleReg : ℕ
  filterCnt : ℕ
  filterReg : ℕ
  elementCnt : ℕ
  lastReg : Bool
  lastInput : Bool
  output : CnnStream
  oData : ℕ → Result

def State.initial (g : Generics) : State g where
  mac := .initial g.mac
  out := .initial g.out
  position := .initial
  romAddr := 0
  romData := fun _ => 0
  calcEn := false
  matrixDataReg := fun _ => 0
  matrixValidReg := false
  cycleCnt := 0
  cycleReg := 0
  filterCnt := g.calcCycles - 1
  filterReg := 0
  elementCnt := 0
  lastReg := false
  lastInput := false
  output := ⟨0, 0, 0, false⟩
  oData := fun _ => 0

variable {g : Generics}

/-- `Element_Cnt`, `Cycle_Cnt` and `Filter_Cnt` after the edge. -/
def count (s : State g) (i : Sample) : ℕ × ℕ × ℕ :=
  if i.stream.dataValid then
    if s.matrixValidReg = false then (0, 0, 0)
    else
      let element := if s.elementCnt < g.elements - 1 then s.elementCnt + 1 else s.elementCnt
      -- first the filters, with the same data and other weights
      if s.filterCnt < g.calcCycles - 1 then (element, s.cycleCnt, s.filterCnt + 1)
      else if s.cycleCnt < g.matrixValueCycles - 1 then (element, s.cycleCnt + 1, 0)
      else (element, s.cycleCnt, s.filterCnt)
  else (s.elementCnt, s.cycleCnt, s.filterCnt)

/-- What the counters tell the pipeline. -/
def macInput (s : State g) (i : Sample) : MacInput where
  calcEn := s.calcEn
  cnt := (count s i).2.2
  cnt2 := s.filterReg
  cycle2 := s.cycleReg
  data := s.matrixDataReg
  weights := g.layout.weightsBuf s.romData

/-- The last filter of the last step is in the sum. -/
def atLast (s : State g) : Bool :=
  s.mac.calcEnSum && s.cycleReg = g.matrixValueCycles - 1 && s.filterReg = g.calcCycles - 1

/-- The last result of a matrix goes out. -/
def atDone (s : State g) : Bool := s.out.ready && s.out.cntReg = g.filterCycles - 1

/-- One clock edge. -/
def step (g : Generics) (s : State g) (i : Sample) : State g :=
  let next := count s i
  { mac := s.mac.step (macInput s i)
    out := s.out.step g.out s.lastInput
    position := s.position.step (i.stream.dataValid && !s.matrixValidReg) (atDone s)
      (i.stream.column, i.stream.row)
    romAddr :=
      if i.stream.dataValid then if next.1 < g.elements - 1 then next.1 + 1 else 0
      else s.romAddr
    romData := g.rom s.romAddr
    calcEn := i.stream.dataValid
    matrixDataReg := if i.stream.dataValid then i.data else s.matrixDataReg
    matrixValidReg := i.stream.dataValid
    cycleCnt := next.2.1
    cycleReg := s.cycleCnt
    filterCnt := next.2.2
    filterReg := s.filterCnt
    elementCnt := next.1
    lastReg := atLast s
    lastInput := atLast s && !s.lastReg
    output :=
      if s.out.ready then ⟨s.position.out.1, s.position.out.2, s.out.cntReg, true⟩
      else { s.output with dataValid := false }
    oData :=
      if s.out.ready then fun v =>
        if v < g.outFilters then s.out.select g.out g.outFilters s.mac.outRam v else s.oData v
      else s.oData }

def run (g : Generics) (inp : ℕ → Sample) : ℕ → State g :=
  Clocked.trace (step g) (.initial g) inp

theorem run_succ (g : Generics) (inp : ℕ → Sample) (t : ℕ) :
    run g inp (t + 1) = step g (run g inp t) (inp t) := rfl

end AlteraWorkshops.Cnn.Convolution
