import AlteraWorkshops.Clocked.Trace
import AlteraWorkshops.Cnn.Delivery

/-! `CNN_Row_Expander`: a row is buffered and its pixels go on with more space between
them, so that the convolution can take more time for each. -/

namespace AlteraWorkshops.Cnn.RowExpander

structure Generics where
  inputColumns : ℕ
  inputCycles : ℕ
  /-- 2 = new data for every second clock edge -/
  outputCycles : ℕ

structure State where
  bufferRam : ℕ → CnnValues
  ramAddrIn : ℕ
  ramAddrOut : ℕ
  ramDataIn : CnnValues
  delayCnt : ℕ
  resetCol : Bool
  oStreamReg : CnnStream
  iDataReg : CnnValues
  validReg : Bool
  columnCnt : ℕ
  filterCnt : ℕ
  oStream : CnnStream
  oData : CnnValues

def State.initial : State where
  bufferRam := fun _ _ => 0
  ramAddrIn := 0
  ramAddrOut := 0
  ramDataIn := fun _ => 0
  delayCnt := 0
  resetCol := false
  oStreamReg := ⟨0, 0, 0, false⟩
  iDataReg := fun _ => 0
  validReg := false
  columnCnt := 0
  filterCnt := 0
  oStream := ⟨0, 0, 0, false⟩
  oData := fun _ => 0

/-- New data is available and a new row starts. -/
def startsRow (s : State) (i : Sample) : Bool :=
  i.stream.dataValid && !s.validReg && i.stream.column == 0

/-- The delay between output data. -/
def nextDelay (g : Generics) (s : State) (i : Sample) : ℕ :=
  if startsRow s i then 0
  else if s.delayCnt < g.outputCycles - 1 then s.delayCnt + 1
  else if s.columnCnt < i.stream.column then 0
  else s.delayCnt

/-- The position to output: column, filter, row and valid. -/
def nextOutput (g : Generics) (s : State) (i : Sample) : CnnStream :=
  if s.resetCol then ⟨0, i.stream.row, 0, true⟩
  else if s.delayCnt = 0 ∧ s.columnCnt < g.inputColumns - 1 then
    ⟨s.columnCnt + 1, s.oStreamReg.row, 0, true⟩
  else if s.filterCnt < g.inputCycles - 1 then
    ⟨s.columnCnt, s.oStreamReg.row, s.filterCnt + 1, s.oStreamReg.dataValid⟩
  else ⟨s.columnCnt, s.oStreamReg.row, s.filterCnt, false⟩

/-- One clock edge. -/
def step (g : Generics) (s : State) (i : Sample) : State :=
  let iDataReg := if i.stream.dataValid then i.data else s.iDataReg
  let next := nextOutput g s i
  { bufferRam := Function.update s.bufferRam s.ramAddrIn s.ramDataIn
    ramAddrIn := i.stream.column * g.inputCycles + i.stream.filter
    ramAddrOut := next.column * g.inputCycles + next.filter
    ramDataIn := iDataReg
    delayCnt := nextDelay g s i
    resetCol := startsRow s i
    oStreamReg := next
    iDataReg := iDataReg
    validReg := i.stream.dataValid
    columnCnt := next.column
    filterCnt := next.filter
    oStream := s.oStreamReg
    oData := s.bufferRam s.ramAddrOut }

def run (g : Generics) (inp : ℕ → Sample) : ℕ → State := Clocked.trace (step g) .initial inp

/-- What the next component samples. -/
def output (g : Generics) (inp : ℕ → Sample) (t : ℕ) : Sample :=
  ⟨(run g inp t).oStream, (run g inp t).oData⟩

end AlteraWorkshops.Cnn.RowExpander
