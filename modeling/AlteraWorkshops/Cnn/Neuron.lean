import AlteraWorkshops.Cnn.Package
import Mathlib.Algebra.BigOperators.Intervals
import Mathlib.Data.Nat.Log

/-! The arithmetic that `CNN_Convolution` and `NN_Layer` have in common: the products of a
step, the sum over the steps, the bias and the activation. -/

namespace AlteraWorkshops.Cnn

open Numbers (resize)

/-- The generics of a layer that its sums depend on. -/
structure Neuron where
  activation : Activation
  offsetIn : ℤ
  offsetOut : ℤ
  offset : ℤ
  /-- Values to calculate at once. -/
  calcSteps : ℕ
  bitsMax : ℕ
  /-- The last argument of `leaky_relu_f`. -/
  maxBits : ℕ

namespace Neuron

variable (n : Neuron)

/-! ### Offsets -/

def offsetDiff : ℤ := n.offsetOut - n.offsetIn

/-- General offset for the sum. -/
def biasOffset : ℤ := n.offsetIn - n.offset - cnnSumOffset

def biasOffsetFixed : ℤ := max n.biasOffset 0

/-- Offset of the sum for the bias addition. -/
def sumOffsetBias : ℤ := n.biasOffsetFixed - n.biasOffset

/-- Offset to correct after the sum. -/
def biasOffsetCorrection : ℤ := cnnSumOffset - n.sumOffsetBias

/-- The shift of a product. -/
def productShift : ℤ := cnnWeightResolution - n.offset - 1 - cnnSumOffset

/-- `Init_Bias`: the bias stands behind the weights. -/
def biasConst (weights : CnnWeights) (inputs i : ℕ) : ℤ :=
  adjustOffset (weights i inputs).val n.biasOffsetFixed

/-! ### Products -/

def groupSumResults : ℕ := (n.calcSteps + (cnnMultSumGroup - 1)) / cnnMultSumGroup

def realGroupSumSize : ℕ := n.calcSteps / n.groupSumResults

def productBits : ℕ := cnnValueResolution + cnnWeightResolution - 1

def groupSumTotalBits : ℕ := productBits + Nat.clog 2 n.realGroupSumSize

/-- The variables of the loop over the products of a step. -/
structure GroupSums (w : ℕ) where
  groupSumCounter : ℕ
  prodSumCntr : ℕ
  prodSumBuf : BitVec w
  prodBuf : ℕ → BitVec w

/-- One product. -/
def groupStep (x : CnnValues) (w : ℕ → ℤ) (s : GroupSums n.groupSumTotalBits) (i : ℕ) :
    GroupSums n.groupSumTotalBits :=
  let product := BitVec.ofInt productBits ((x i).val * w i)
  let prodSumBuf := s.prodSumBuf + product.signExtend _
  if i = n.calcSteps - 1 then
    { s with
      prodSumBuf := prodSumBuf
      prodBuf := Function.update s.prodBuf s.prodSumCntr prodSumBuf }
  else if s.groupSumCounter < n.realGroupSumSize - 1 then
    { s with prodSumBuf := prodSumBuf, groupSumCounter := s.groupSumCounter + 1 }
  else
    { groupSumCounter := 0
      prodSumCntr := s.prodSumCntr + 1
      prodSumBuf := 0
      prodBuf := Function.update s.prodBuf s.prodSumCntr prodSumBuf }

/-- The loop: `Prod_Buf` of one output. -/
def groupSums (x : CnnValues) (w : ℕ → ℤ) (prodBuf : ℕ → BitVec n.groupSumTotalBits) :
    ℕ → BitVec n.groupSumTotalBits :=
  ((List.range n.calcSteps).foldl (n.groupStep x w) ⟨0, 0, 0, prodBuf⟩).prodBuf

/-! ### Sums -/

/-- The products of a step are added to the sum, each group of them rounded. -/
def accumulate (prodBuf : ℕ → BitVec n.groupSumTotalBits) (sum : BitVec (n.bitsMax + 1)) :
    BitVec (n.bitsMax + 1) :=
  (List.range n.groupSumResults).foldl
    (fun sum i => sum + resize _ (shiftWithRounding (prodBuf i) n.productShift)) sum

def addBias (sum : BitVec (n.bitsMax + 1)) (bias : ℤ) : BitVec (n.bitsMax + 1) :=
  shiftWithRounding sum n.sumOffsetBias + BitVec.ofInt _ bias

/-- The output offset with the relative offset from this and the last layer. -/
def applyOffset (sum : BitVec (n.bitsMax + 1)) : BitVec (n.bitsMax + 1) :=
  shiftWithRounding sum (n.offsetDiff + n.biasOffsetCorrection)

/-- `Act_sum` of one output. -/
def actSum (sum : BitVec (n.bitsMax + 1)) (bias : ℤ) : BitVec cnnValueResolution :=
  activate n.activation n.maxBits (n.applyOffset (n.addBias sum bias))

end Neuron

/-! ### Weights -/

/-- The arguments of `Init_ROM`. -/
structure RomLayout where
  filters : ℕ
  inputs : ℕ
  calcFilters : ℕ
  calcSteps : ℕ

namespace RomLayout

variable (l : RomLayout) (weights : CnnWeights)

/-- The two inner loops: byte `s * calc_filters + f` is the weight of filter `f` and step `s`. -/
def element (inputsCnt filtersCnt byte : ℕ) : BitVec cnnWeightResolution :=
  BitVec.ofInt _
    (weights (filtersCnt + byte % l.calcFilters) (inputsCnt + byte / l.calcFilters)).val

/-- The elements of one step, filters after filters. -/
def filterLoop (inputsCnt filtersCnt : ℕ) : List (ℕ → BitVec cnnWeightResolution) :=
  if filtersCnt < l.filters ∧ 0 < l.calcFilters then
    l.element weights inputsCnt filtersCnt :: filterLoop inputsCnt (filtersCnt + l.calcFilters)
  else []
termination_by l.filters - filtersCnt

def inputLoop (inputsCnt : ℕ) : List (ℕ → BitVec cnnWeightResolution) :=
  if inputsCnt < l.inputs ∧ 0 < l.calcSteps then
    l.filterLoop weights inputsCnt 0 ++ inputLoop (inputsCnt + l.calcSteps)
  else []
termination_by l.inputs - inputsCnt

/-- `Init_ROM` -/
def initRom (elementCnt : ℕ) : ℕ → BitVec cnnWeightResolution :=
  (l.inputLoop weights 0).getD elementCnt fun _ => 0

/-- `Weights_Buf` from a word of the ROM. -/
def weightsBuf (romData : ℕ → BitVec cnnWeightResolution) (f s : ℕ) : ℤ :=
  (romData (s * l.calcFilters + f)).toInt

end RomLayout

end AlteraWorkshops.Cnn
