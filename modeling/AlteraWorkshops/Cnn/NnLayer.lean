import AlteraWorkshops.Clocked.Trace
import AlteraWorkshops.Cnn.OutStage

/-! `NN_Layer`: the outputs of a dense layer. The inputs come one after the other, and each
is used for all outputs before the next one comes. -/

namespace AlteraWorkshops.Cnn.NnLayer

structure Generics where
  inputs : ℕ
  outputs : ℕ
  activation : Activation
  inputCycles : ℕ
  calcCycles : ℕ
  outputCycles : ℕ
  outputDelay : ℕ
  offsetIn : ℤ
  offsetOut : ℤ
  offset : ℤ
  weights : CnnWeights

namespace Generics

variable (g : Generics)

def calcOutputs : ℕ := g.outputs / g.calcCycles
def calcSteps : ℕ := g.inputs / g.inputCycles
def outValues : ℕ := g.outputs / g.outputCycles
def outRamElements : ℕ := min g.calcCycles g.outputCycles

/-- Calculation steps overall. -/
def elements : ℕ := g.calcCycles * g.inputCycles

/-- Maximum bits for the sum. -/
def bitsMax : ℕ := cnnValueResolution - 1 + (max g.offset 0).toNat + Nat.clog 2 (g.inputs + 1)

def neuron : Neuron where
  activation := g.activation
  offsetIn := g.offsetIn
  offsetOut := g.offsetOut
  offset := g.offset
  calcSteps := g.calcSteps
  bitsMax := g.bitsMax
  maxBits := cnnValueResolution + (max g.offset 0).toNat + Nat.clog 2 (g.inputs + 1)

def layout : RomLayout := ⟨g.outputs, g.inputs, g.calcOutputs, g.calcSteps⟩

def rom : ℕ → ℕ → BitVec cnnWeightResolution := g.layout.initRom g.weights

def mac : MacGenerics where
  neuron := g.neuron
  calcOutputs := g.calcOutputs
  calcCycles := g.calcCycles
  inputCycles := g.inputCycles
  outRamElements := g.outRamElements
  bias := g.neuron.biasConst g.weights g.inputs

def out : OutGenerics := ⟨g.outputCycles, g.outputDelay, g.outRamElements⟩

end Generics

/-- What an edge samples: `iStream.Data_Valid`, `iCycle` and `iData`. -/
structure Input where
  dataValid : Bool
  cycle : ℕ
  data : CnnValues

structure State (g : Generics) where
  mac : Mac g.mac
  out : OutStage
  romAddr : ℕ
  romData : ℕ → BitVec cnnWeightResolution
  calcEn : Bool
  iDataReg : CnnValues
  cycleReg : ℕ
  cycleReg2 : ℕ
  outputCnt : ℕ
  outputCnt2 : ℕ
  elementCnt : ℕ
  lastInput : Bool
  oDataValid : Bool
  oCycle : ℕ
  oData : ℕ → Result

def State.initial (g : Generics) : State g where
  mac := .initial g.mac
  out := .initial g.out
  romAddr := 0
  romData := fun _ => 0
  calcEn := false
  iDataReg := fun _ => 0
  cycleReg := 0
  cycleReg2 := 0
  outputCnt := 0
  outputCnt2 := 0
  elementCnt := 0
  lastInput := false
  oDataValid := false
  oCycle := 0
  oData := fun _ => 0

variable {g : Generics}

/-- `Calc_En`, `Cycle_Reg`, `Output_Cnt` and `Element_Cnt` after the edge. -/
def count (s : State g) (i : Input) : Bool × ℕ × ℕ × ℕ :=
  if i.dataValid then
    (true, i.cycle, 0,
      if i.cycle = 0 then 0
      else if s.elementCnt < g.elements - 1 then s.elementCnt + 1
      else s.elementCnt)
  else if s.outputCnt < g.calcCycles - 1 ∧ s.elementCnt < g.elements - 1 then
    (s.calcEn, s.cycleReg, s.outputCnt + 1, s.elementCnt + 1)
  else (false, s.cycleReg, s.outputCnt, s.elementCnt)

/-- What the counters tell the pipeline. -/
def macInput (s : State g) (i : Input) : MacInput where
  calcEn := s.calcEn
  cnt := (count s i).2.2.1
  cnt2 := s.outputCnt2
  cycle2 := s.cycleReg2
  data := s.iDataReg
  weights := g.layout.weightsBuf s.romData

/-- One clock edge. -/
def step (g : Generics) (s : State g) (i : Input) : State g :=
  let next := count s i
  { mac := s.mac.step (macInput s i)
    out := s.out.step g.out s.lastInput
    romAddr :=
      if i.dataValid ∨ s.calcEn then
        if next.2.2.2 < g.elements - 1 then next.2.2.2 + 1 else 0
      else s.romAddr
    romData := g.rom s.romAddr
    calcEn := next.1
    iDataReg := if i.dataValid then i.data else s.iDataReg
    cycleReg := next.2.1
    cycleReg2 := s.cycleReg
    outputCnt := next.2.2.1
    outputCnt2 := s.outputCnt
    elementCnt := next.2.2.2
    lastInput := s.mac.addBias && s.mac.biasReg = g.calcCycles - 1
    oDataValid := s.out.delayCnt = 0 && s.out.ready
    oCycle := if s.out.delayCnt = 0 then s.out.cntReg else s.oCycle
    oData :=
      if s.out.delayCnt = 0 then fun v =>
        if v < g.outValues then s.out.select g.out g.outValues s.mac.outRam v else s.oData v
      else s.oData }

def run (g : Generics) (inp : ℕ → Input) : ℕ → State g :=
  Clocked.trace (step g) (.initial g) inp

theorem run_succ (g : Generics) (inp : ℕ → Input) (t : ℕ) :
    run g inp (t + 1) = step g (run g inp t) (inp t) := rfl

end AlteraWorkshops.Cnn.NnLayer
