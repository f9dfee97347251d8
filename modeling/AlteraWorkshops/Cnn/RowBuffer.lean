import AlteraWorkshops.Clocked.Trace
import AlteraWorkshops.Cnn.Delivery

/-! `CNN_Row_Buffer`: the last rows of the image in a memory, and for each pixel that comes
the matrix of values around the pixel in whose middle it ends. -/

namespace AlteraWorkshops.Cnn.RowBuffer

structure Generics where
  inputColumns : ℕ
  inputRows : ℕ
  inputValues : ℕ
  filterColumns : ℕ
  filterRows : ℕ
  inputCycles : ℕ
  /-- Cycles in which the values of a pixel are sent. -/
  valueCycles : ℕ
  /-- Cycles for which each value stays. -/
  calcCycles : ℕ
  strides : ℕ
  padding : Padding

namespace Generics

variable (g : Generics)

/-- With two columns one more row is needed to have the data saved. -/
def ramRows : ℕ := if g.inputColumns = 2 then g.filterRows + 1 else g.filterRows

def stridesOffset : ℕ := if g.padding = .same ∧ 1 < g.strides then 1 else 0

/-- `(-1)*(Filter_Rows)/2`, with a division towards zero. -/
def firstRow : ℤ := -((g.filterRows / 2 : ℕ) : ℤ)
def firstColumn : ℤ := -((g.filterColumns / 2 : ℕ) : ℤ)

/-- `(Filter_Rows-1)/2` -/
def lastRow : ℕ := (g.filterRows - 1) / 2
def lastColumn : ℕ := (g.filterColumns - 1) / 2

end Generics

/-- `(a - b) mod m` -/
def subMod (a b m : ℕ) : ℕ := (((a : ℤ) - b) % m).toNat

/-- The outputs `oRow`, `oColumn` and `oInput`: the place in the matrix. -/
structure Place where
  row : ℕ
  column : ℕ
  input : ℕ

/-- `Row_Cntr`, `Column_Cntr`, `Value_Cntr`, `Calc_Cntr` and `Valid_Reg`. -/
structure Counters where
  rowCntr : ℤ
  columnCntr : ℤ
  valueCntr : ℕ
  calcCntr : ℕ
  validReg : Bool

structure State where
  bufferRam : ℕ → CnnValues
  ramAddrOut : ℕ
  ramAddrIn : ℕ
  ramDataIn : CnnValues
  ramEnable : Bool
  ramInRow : ℕ
  ramInAddrOffset : ℕ
  ramInDataPart : ℕ
  iRowReg : ℕ
  iValueReg : ℕ
  iColumnReg : ℕ
  outRowCenter : ℕ
  outColumnCenter : ℕ
  ramOutRowCenter : ℕ
  counters : Counters
  rowCalcBuf : ℤ
  columnCalcBuf : ℤ
  valueCalcBuf : ℕ
  oStreamReg : CnnStream
  oPlaceReg : Place
  oDataEnReg : Bool
  oStreamBuf : CnnStream
  oPlaceBuf : Place
  oDataEnBuf : Bool
  oStream : CnnStream
  oPlace : Place
  oData : CnnValues

def State.initial (g : Generics) : State where
  bufferRam := fun _ _ => 0
  ramAddrOut := 0
  ramAddrIn := 0
  ramDataIn := fun _ => 0
  ramEnable := false
  ramInRow := 0
  ramInAddrOffset := 0
  ramInDataPart := 0
  iRowReg := 0
  iValueReg := 0
  iColumnReg := 0
  outRowCenter := 0
  outColumnCenter := 0
  ramOutRowCenter := 0
  counters := ⟨g.firstRow, g.firstColumn, 0, 0, false⟩
  rowCalcBuf := 0
  columnCalcBuf := 0
  valueCalcBuf := 0
  oStreamReg := ⟨0, 0, 0, false⟩
  oPlaceReg := ⟨0, 0, 0⟩
  oDataEnReg := false
  oStreamBuf := ⟨0, 0, 0, false⟩
  oPlaceBuf := ⟨0, 0, 0⟩
  oDataEnBuf := false
  oStream := ⟨0, 0, 0, false⟩
  oPlace := ⟨0, 0, 0⟩
  oData := fun _ => 0

/-! ### The input -/

/-- `RAM_In_Row`: the current row in the memory. -/
def nextInRow (g : Generics) (s : State) (i : CnnStream) : ℕ :=
  if s.iRowReg ≠ i.row then if s.ramInRow < g.ramRows - 1 then s.ramInRow + 1 else 0
  else s.ramInRow

/-- `RAM_In_Addr_Offset` and `RAM_In_Data_Part`. -/
def nextInPart (g : Generics) (s : State) (i : CnnStream) : ℕ × ℕ :=
  if g.inputCycles = 1 then
    -- all values come at once
    let offset :=
      if 1 < g.inputColumns ∧ s.iColumnReg ≠ i.column ∨
          g.inputColumns ≤ 1 ∧ s.iRowReg ≠ i.row then 0
      else if s.ramInAddrOffset < g.valueCycles - 1 then s.ramInAddrOffset + 1
      else s.ramInAddrOffset
    (offset, offset)
  else if g.inputCycles ≤ g.valueCycles then
    -- they come in less or as many cycles as they are sent
    if s.iValueReg ≠ i.filter then (i.filter * (g.valueCycles / g.inputCycles), 0)
    else if s.ramInAddrOffset < (i.filter + 1) * (g.valueCycles / g.inputCycles) - 1 then
      (s.ramInAddrOffset + 1, s.ramInDataPart + 1)
    else (s.ramInAddrOffset, s.ramInDataPart)
  else
    -- they come in more cycles
    if s.iValueReg ≠ i.filter then
      (i.filter / (g.inputCycles / g.valueCycles), i.filter % (g.inputCycles / g.valueCycles))
    else (s.ramInAddrOffset, s.ramInDataPart)

/-- `RAM_Data_In`: the part that comes now. -/
def nextDataIn (g : Generics) (s : State) (part : ℕ) (d : CnnValues) : CnnValues :=
  if g.inputCycles = g.valueCycles then
    fun v => if v < g.inputValues / g.inputCycles then d v else s.ramDataIn v
  else if g.inputCycles < g.valueCycles then
    fun v =>
      if v < g.inputValues / g.valueCycles then d (v + part * (g.inputValues / g.valueCycles))
      else s.ramDataIn v
  else
    fun v =>
      if part * (g.inputValues / g.inputCycles) ≤ v ∧
          v < (part + 1) * (g.inputValues / g.inputCycles) then
        d (v - part * (g.inputValues / g.inputCycles))
      else s.ramDataIn v

/-! ### The output -/

/-- `Out_Row_Center`, `Out_Column_Center` and `RAM_Out_Row_Center`. -/
def nextCenter (g : Generics) (s : State) (i : CnnStream) (inRow : ℕ) : ℕ × ℕ × ℕ :=
  let row := subMod i.row g.lastRow g.inputRows
  let ramRow := subMod inRow g.lastRow g.ramRows
  if 1 < g.inputColumns then
    let column := subMod i.column g.lastColumn g.inputColumns
    if column < s.outColumnCenter then (row, column, ramRow)
    else (s.outRowCenter, column, s.ramOutRowCenter)
  else (row, 0, ramRow)

def moved (g : Generics) (s : State) : Bool :=
  (1 < g.inputColumns && s.outColumnCenter != s.oStreamReg.column) ||
    (g.inputColumns ≤ 1 && s.outRowCenter != s.oStreamReg.row)

/-- Count through the matrix, from the upper left corner on. -/
def count (g : Generics) (s : State) : Counters :=
  let c := s.counters
  if moved g s then ⟨g.firstRow, g.firstColumn, 0, 0, true⟩
  else if c.calcCntr < g.calcCycles - 1 then { c with calcCntr := c.calcCntr + 1 }
  else if c.valueCntr < g.valueCycles - 1 then
    { c with calcCntr := 0, valueCntr := c.valueCntr + 1 }
  else if c.columnCntr < g.lastColumn then
    { c with calcCntr := 0, valueCntr := 0, columnCntr := c.columnCntr + 1 }
  else if c.rowCntr < g.lastRow then
    { c with
      calcCntr := 0, valueCntr := 0, columnCntr := g.firstColumn, rowCntr := c.rowCntr + 1 }
  else { c with calcCntr := 0, valueCntr := 0, validReg := false }

/-- The center is one of those that the padding and the strides leave. -/
def chosen (g : Generics) (column row : ℕ) : Bool :=
  match g.padding with
  | .valid =>
    g.filterColumns / 2 ≤ column && (column : ℤ) < g.inputColumns - g.lastColumn &&
      g.filterRows / 2 ≤ row && (row : ℤ) < g.inputRows - g.lastRow &&
      (column - g.filterColumns / 2) % g.strides == g.stridesOffset &&
      (row - g.filterRows / 2) % g.strides == g.stridesOffset
  | .same => column % g.strides == g.stridesOffset && row % g.strides == g.stridesOffset

/-- The place is one of the image. -/
def inside (g : Generics) (column row : ℤ) : Bool :=
  0 ≤ column && column ≤ g.inputColumns - 1 && 0 ≤ row && row ≤ g.inputRows - 1

/-- Without padding the rows and columns of the edge are not counted. -/
def corrected (g : Generics) (s : CnnStream) : CnnStream :=
  match g.padding with
  | .valid => ⟨s.column - g.filterColumns / 2, s.row - g.filterRows / 2, s.filter, true⟩
  | .same => ⟨s.column, s.row, s.filter, true⟩

def step (g : Generics) (s : State) (i : Sample) : State :=
  let inRow := nextInRow g s i.stream
  let part := nextInPart g s i.stream
  let center := nextCenter g s i.stream inRow
  let c := count g s
  let row := s.outRowCenter + c.rowCntr
  let column := s.outColumnCenter + c.columnCntr
  { bufferRam :=
      if s.ramEnable then Function.update s.bufferRam s.ramAddrIn s.ramDataIn else s.bufferRam
    ramAddrOut := ((s.rowCalcBuf % g.ramRows * g.inputColumns +
      s.columnCalcBuf % g.inputColumns) * g.valueCycles + s.valueCalcBuf).toNat
    ramAddrIn := part.1 + (i.stream.column + inRow * g.inputColumns) * g.valueCycles
    ramDataIn := nextDataIn g s part.2 i.data
    ramEnable := i.stream.dataValid
    ramInRow := inRow
    ramInAddrOffset := part.1
    ramInDataPart := part.2
    iRowReg := i.stream.row
    iValueReg := i.stream.filter
    iColumnReg := i.stream.column
    outRowCenter := center.1
    outColumnCenter := center.2.1
    ramOutRowCenter := center.2.2
    counters := c
    rowCalcBuf := s.ramOutRowCenter + c.rowCntr
    columnCalcBuf := column
    valueCalcBuf := c.valueCntr
    oStreamReg :=
      ⟨s.outColumnCenter, s.outRowCenter, 0,
        c.validReg && chosen g s.outColumnCenter s.outRowCenter⟩
    oPlaceReg :=
      ⟨(c.rowCntr - g.firstRow).toNat, (c.columnCntr - g.firstColumn).toNat, c.valueCntr⟩
    oDataEnReg := inside g column row
    oStreamBuf :=
      if s.oStreamReg.dataValid then corrected g s.oStreamReg
      else { s.oStreamBuf with dataValid := false }
    oPlaceBuf := if s.oStreamReg.dataValid then s.oPlaceReg else s.oPlaceBuf
    oDataEnBuf := s.oDataEnReg
    oStream := { s.oStreamBuf with
      column := s.oStreamBuf.column / g.strides, row := s.oStreamBuf.row / g.strides }
    oPlace := s.oPlaceBuf
    oData :=
      if g.padding ≠ .valid ∧ s.oDataEnBuf = false then fun _ => 0
      else if s.oStreamBuf.dataValid then fun v =>
        if v < g.inputValues / g.valueCycles then s.bufferRam s.ramAddrOut v else s.oData v
      else s.oData }

def run (g : Generics) (inp : ℕ → Sample) : ℕ → State :=
  Clocked.trace (step g) (.initial g) inp

def output (g : Generics) (inp : ℕ → Sample) (t : ℕ) : Sample :=
  ⟨(run g inp t).oStream, (run g inp t).oData⟩

end AlteraWorkshops.Cnn.RowBuffer
