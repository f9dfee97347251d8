import AlteraWorkshops.Clocked.ReadModifyWrite
import AlteraWorkshops.Clocked.Trace
import AlteraWorkshops.Cnn.Delivery
import AlteraWorkshops.Numbers.Digits

/-! `CNN_Pooling_Efficient`: the largest values of the blocks of an image. The maxima of the
blocks that the current rows cross are in a memory, one word for each block and cycle. -/

namespace AlteraWorkshops.Cnn.Pooling

structure Generics where
  inputColumns : ℕ
  inputRows : ℕ
  inputValues : ℕ
  filterColumns : ℕ
  filterRows : ℕ
  /-- Filter cycles of the convolution in front. -/
  inputCycles : ℕ
  /-- Cycles between filters. -/
  filterDelay : ℕ

namespace Generics

variable (g : Generics)

/-- Values to calculate at once for each pixel. -/
def calcSteps : ℕ := g.inputValues / g.inputCycles

def outRamElements : ℕ := g.inputCycles

/-- Blocks in a row. -/
def blocks : ℕ := g.inputColumns / g.filterColumns

end Generics

structure State where
  bufferRam : ℕ → CnnValues
  ramAddrOut : ℕ
  ramAddrIn : ℕ
  ramDataIn : CnnValues
  iStreamReg : CnnStream
  iDataReg : CnnValues
  outRam : ℕ → CnnValues
  outRdAddr : ℕ
  outWrAddr : ℕ
  outWrData : CnnValues
  /-- The variable `Out_Value_Cnt`. -/
  outValueCnt : ℕ
  outValueCntReg : ℕ
  outDelayCnt : ℕ
  oStream : CnnStream
  oData : CnnValues

def State.initial (g : Generics) : State where
  bufferRam := fun _ _ => 0
  ramAddrOut := 0
  ramAddrIn := 0
  ramDataIn := fun _ => 0
  iStreamReg := ⟨0, 0, 0, false⟩
  iDataReg := fun _ => 0
  outRam := fun _ _ => 0
  outRdAddr := 0
  outWrAddr := 0
  outWrData := fun _ => 0
  outValueCnt := 0
  outValueCntReg := 0
  outDelayCnt := g.filterDelay - 1
  oStream := ⟨0, 0, 0, false⟩
  oData := fun _ => 0

/-- The data is needed for the pooling. -/
def taken (g : Generics) (i : CnnStream) : Bool :=
  i.dataValid && decide (i.column < g.blocks * g.filterColumns)

/-- The word of a block. -/
def ramAddr (g : Generics) (i : CnnStream) : ℕ :=
  i.column / g.filterColumns * g.inputCycles + i.filter

/-- The first and the last position of a block. -/
def isFirst (g : Generics) (i : CnnStream) : Bool :=
  i.column % g.filterColumns == 0 && i.row % g.filterRows == 0

def isLast (g : Generics) (i : CnnStream) : Bool :=
  i.column % g.filterColumns == g.filterColumns - 1 && i.row % g.filterRows == g.filterRows - 1

/-- `RAM_MAX`: the current values if they are the first ones or bigger than the last ones. -/
def ramMax (g : Generics) (i : CnnStream) (data old : CnnValues) : CnnValues :=
  if isFirst g i then data else fun v => if old v < data v then data v else old v

/-- `Out_Value_Cnt` and `Out_Delay_Cnt` after the edge. -/
def outCount (g : Generics) (s : State) (lastInput : Bool) : ℕ × ℕ :=
  if lastInput then (0, 0)
  else if s.outDelayCnt < g.filterDelay - 1 then (s.outValueCnt, s.outDelayCnt + 1)
  else if s.outValueCntReg < g.inputCycles - 1 then (s.outValueCntReg + 1, 0)
  else (s.outValueCnt, s.outDelayCnt)

/-- One clock edge. -/
def step (g : Generics) (s : State) (i : Sample) : State :=
  let take := taken g i.stream
  let max := ramMax g s.iStreamReg s.iDataReg (s.bufferRam s.ramAddrOut)
  let done := s.iStreamReg.dataValid && isLast g s.iStreamReg
  let save := s.iStreamReg.dataValid && !isLast g s.iStreamReg
  -- with a delay between the output values they go into a memory
  let keep := done && decide (g.filterDelay ≠ 1)
  let outWrCalc := s.ramAddrOut % g.inputCycles
  let out := outCount g s (keep && outWrCalc == g.inputCycles - 1)
  let position : CnnStream :=
    if done then
      { s.oStream with
        column := s.iStreamReg.column / g.filterColumns
        row := s.iStreamReg.row / g.filterRows
        dataValid := false }
    else { s.oStream with dataValid := false }
  { bufferRam := Function.update s.bufferRam s.ramAddrIn s.ramDataIn
    ramAddrOut := if take then ramAddr g i.stream else s.ramAddrOut
    ramAddrIn := if save then s.ramAddrOut else s.ramAddrIn
    ramDataIn := if save then max else s.ramDataIn
    iStreamReg :=
      if take then { i.stream with dataValid := true } else { s.iStreamReg with dataValid := false }
    iDataReg := if take then i.data else s.iDataReg
    outRam := Function.update s.outRam s.outWrAddr s.outWrData
    outRdAddr := out.1 / (g.inputCycles / g.outRamElements)
    outWrAddr := if keep then outWrCalc else s.outWrAddr
    outWrData := if keep then max else s.outWrData
    outValueCnt := out.1
    outValueCntReg := out.1
    outDelayCnt := out.2
    oStream :=
      if 1 < g.filterDelay then
        if s.outDelayCnt = 0 then { position with filter := s.outValueCntReg, dataValid := true }
        else position
      else if done then { position with filter := s.iStreamReg.filter, dataValid := true }
      else position
    oData :=
      if 1 < g.filterDelay then
        if s.outDelayCnt = 0 then s.outRam s.outRdAddr else s.oData
      else if done then max else s.oData }

def run (g : Generics) (inp : ℕ → Sample) : ℕ → State :=
  Clocked.trace (step g) (.initial g) inp

/-- What the next component samples. -/
def output (g : Generics) (inp : ℕ → Sample) (t : ℕ) : Sample :=
  ⟨(run g inp t).oStream, (run g inp t).oData⟩

end AlteraWorkshops.Cnn.Pooling
