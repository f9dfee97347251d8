import AlteraWorkshops.Clocked.Trace
import AlteraWorkshops.Cnn.Delivery
import Mathlib.Algebra.Order.Round
import Mathlib.Data.Int.Log
import Mathlib.Data.Rat.Floor

/-! The filters in front of the network. Each is a process between an input and an output
register; what it computes is a step on its own variables. -/

namespace AlteraWorkshops.Cnn

open OneAi (CnnValue)

/-! ### Registers around a process -/

structure FilterGenerics where
  enInBuffer : Bool
  enOutBuffer : Bool

/-- `iStream_Reg`/`iData_Reg`, `oStream_Reg`/`oData_Reg`, the output ports, and the other
signals and variables of the process. -/
structure FilterState (σ : Type*) where
  iReg : Sample
  oReg : Sample
  output : Sample
  vars : σ

variable {σ : Type*}

def Sample.initial : Sample := ⟨⟨0, 0, 0, false⟩, fun _ => 0⟩

def FilterState.initial (v : σ) : FilterState σ := ⟨.initial, .initial, .initial, v⟩

/-- One clock edge around `process`. -/
def filterStep (c : FilterGenerics) (process : σ → Sample → σ × Sample) (s : FilterState σ)
    (i : Sample) : FilterState σ :=
  let sel := if c.enInBuffer then s.iReg else i
  let p := process s.vars sel
  { iReg := if c.enInBuffer then i else s.iReg
    oReg := if c.enOutBuffer then p.2 else s.oReg
    output := if c.enOutBuffer then s.oReg else p.2
    vars := p.1 }

def filterRun (c : FilterGenerics) (process : σ → Sample → σ × Sample) (v : σ)
    (inp : ℕ → Sample) : ℕ → FilterState σ :=
  Clocked.trace (filterStep c process) (.initial v) inp

def filterOutput (c : FilterGenerics) (process : σ → Sample → σ × Sample) (v : σ)
    (inp : ℕ → Sample) (t : ℕ) : Sample := (filterRun c process v inp t).output

/-- Both buffers, as every filter of the network has them. -/
def buffered : FilterGenerics := ⟨true, true⟩

/-! ### Inverse -/

/-- `Inverse_Filter`: 1.0 - value. -/
def inverseProcess (inputValues : ℕ) (maxValue : CnnValue) (_ : Unit) (i : Sample) :
    Unit × Sample :=
  ⟨(), i.stream, fun c =>
    if c < inputValues then ⟨maxValue.val - (i.data c).val, by omega⟩ else i.data c⟩

/-! ### Brightness and threshold -/

/-- `shift_bits` of an unsigned value of `width` bits: a positive amount is to the right. -/
def shiftBits (width value : ℕ) (shiftAmount : ℤ) : ℕ :=
  if 0 < shiftAmount then value / 2 ^ shiftAmount.toNat
  else value * 2 ^ shiftAmount.natAbs % 2 ^ width

/-- `unsigned_multiply_efficient`. The test for a power of two takes every tenth power only;
else the factor has seven fractional bits, and the product is shifted back. -/
def unsignedMultiplyEfficient (value : ℕ) (factor : ℚ) (resolutionVal resolutionFac : ℕ) : ℕ :=
  let valueUnsigned := value % 2 ^ (resolutionVal + 1)
  if factor = 2 ^ (10 * (Int.log 2 factor / 10)) then
    shiftBits (resolutionVal + 1) valueUnsigned (Int.log 2 factor)
  else
    let nFactor :=
      (round (factor * 2 ^ (cnnWeightResolution - 1))).toNat % 2 ^ (2 * resolutionFac + 1)
    valueUnsigned * nFactor / 2 ^ (cnnWeightResolution - 1)

def averageValue (inputValues : ℕ) (d : CnnValues) : ℕ :=
  unsignedMultiplyEfficient ((List.range inputValues).map fun c => (d c).val).sum (1 / inputValues)
    (cnnValueResolution + Nat.clog 2 inputValues - 1) (cnnValueResolution - 1)

inductive Threshold
  | binary | tozero | toone | tozeroInv | tooneInv
  deriving DecidableEq, Repr

structure ThresholdGenerics where
  inputValues : ℕ
  maxValue : CnnValue
  thresholdValue : ℕ
  /-- -1 = disabled -/
  thresholdValue2 : ℤ
  thresholdType : Threshold
  /-- -1 = average of all channels -/
  channel : ℤ
  applyAllChannels : Bool

def thresholdMet (g : ThresholdGenerics) (d : CnnValues) : Bool :=
  let value := if g.channel = -1 then averageValue g.inputValues d else (d g.channel.toNat).val
  if -1 < g.thresholdValue2 then g.thresholdValue < value && value < g.thresholdValue2.toNat
  else g.thresholdValue < value

/-- What a threshold type writes, if it writes at all. -/
def thresholdWrites (t : Threshold) (met : Bool) (maxValue : CnnValue) : Option CnnValue :=
  match t with
  | .binary => some (if met then maxValue else 0)
  | .tozero => if met then none else some 0
  | .toone => if met then some maxValue else none
  | .tozeroInv => if met then some 0 else none
  | .tooneInv => if met then none else some maxValue

/-- `Threshold_Filter` for one image. -/
def thresholdProcess (g : ThresholdGenerics) (_ : Unit) (i : Sample) : Unit × Sample :=
  ⟨(), i.stream, fun c =>
    if c < g.inputValues ∧ (g.applyAllChannels ∨ g.channel = -1 ∨ (c : ℤ) = g.channel) then
      (thresholdWrites g.thresholdType (thresholdMet g i.data) g.maxValue).getD (i.data c)
    else i.data c⟩

/-! ### Normalization -/

structure NormalizeGenerics where
  inputValues : ℕ
  /-- The number of shift additions that approximate the division. -/
  approxRes : ℕ

/-- `GLOBAL_MAX_VALUE` -/
def globalMaxValue : ℕ := 2 ^ (cnnValueResolution - 1) - 1

/-- The signals and variables of `Normalize_Filter`. -/
structure NormalizeVars where
  maxValue : ℕ
  minValue : ℕ
  difference : ℕ
  tempMax : ℕ
  tempMin : ℕ
  selOData : CnnValues

/-- The first image is not stretched. -/
def NormalizeVars.initial : NormalizeVars :=
  ⟨globalMaxValue, 0, globalMaxValue, globalMaxValue, 0, fun _ => 0⟩

/-- `Shift_L_LookUp`: the inverse log2 of the difference. -/
def shiftLLookUp (i : ℕ) : ℕ := Nat.log 2 (globalMaxValue / i)

/-- The loop that fills a row of `Shift_R_LookUp` from column `j` on. -/
def shiftRRow (flooredPower : ℕ) (defaultFactor currentFactor : ℚ) (j : ℕ) : ℕ → List Bool
  | 0 => []
  | n + 1 =>
    let defaultFactor := defaultFactor + 1 / 2 / 2 ^ j
    if flooredPower * currentFactor < defaultFactor * (1 / 2) * globalMaxValue then
      true :: shiftRRow flooredPower defaultFactor (currentFactor + 1 / 2 / 2 ^ j) (j + 1) n
    else false :: shiftRRow flooredPower defaultFactor currentFactor (j + 1) n

/-- `Shift_R_LookUp`: which right shifts are added. -/
def shiftRLookUp (approxRes i : ℕ) : List Bool :=
  shiftRRow (2 ^ shiftLLookUp i * i) 1 1 0 approxRes

/-- The shift approximation of `value * 127 / difference`, clipped. The left shift keeps
`CNN_Value_Resolution` bits. -/
def normalizeValue (approxRes difference value : ℕ) : CnnValue :=
  let shifted := value * 2 ^ shiftLLookUp difference % 2 ^ cnnValueResolution
  let sum := shifted + (((shiftRLookUp approxRes difference).zipIdx).map fun (b, a) =>
    if b then shifted / 2 ^ (a + 1) else 0).sum
  ⟨min sum globalMaxValue, by have h : globalMaxValue = 127 := rfl; omega⟩

/-- `Normalize_Filter` for one image by shift approximation, without parameter bounds. -/
def normalizeProcess (g : NormalizeGenerics) (v : NormalizeVars) (i : Sample) :
    NormalizeVars × Sample :=
  let v :=
    if i.stream.dataValid then
      let value := fun c => (i.data c).val
      let channels := List.range g.inputValues
      let thisDifference := if v.difference = 0 then 1 else v.difference
      { v with
        tempMax := channels.foldl (fun m c => max m (value c)) v.tempMax
        tempMin := channels.foldl (fun m c => min m (value c)) v.tempMin
        selOData := fun c =>
          if c < g.inputValues then
            if value c < v.minValue then 0
            else normalizeValue g.approxRes thisDifference (value c - v.minValue)
          else v.selOData c }
    else v
  let w :=
    if i.stream.column = 0 ∧ i.stream.row = 0 ∧ i.stream.dataValid then
      -- a new image: its first pixel is still counted for the image before it
      { v with
        maxValue := v.tempMax, minValue := v.tempMin, difference := v.tempMax - v.tempMin
        tempMax := 0, tempMin := globalMaxValue }
    else v
  ⟨w, i.stream, v.selOData⟩

end AlteraWorkshops.Cnn
