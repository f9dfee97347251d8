import AlteraWorkshops.Numbers.Signed
import AlteraWorkshops.OneAi.Interface

/-! The configuration package of the network: its constants and types, the rounding of
signed sums and of biases, and the activation functions. -/

namespace AlteraWorkshops.Cnn

open Numbers (Fits resize roundShift)
open OneAi (CnnValue)

/-! ### Constants and types -/

def cnnValueResolution : ℕ := 8
def cnnWeightResolution : ℕ := 8

/-- Save more bits for the sum to get higher resolution. -/
def cnnSumOffset : ℕ := 2

def cnnEfficientRounding : Bool := true

/-- Products that are added before the first rounding. -/
def cnnMultSumGroup : ℕ := 6

/-- `value_max`. -/
def valueMax : ℕ := 2 ^ (cnnValueResolution - 1) - 1

/-- `CNN_Weight_T`. -/
abbrev CnnWeight := {w : ℤ // -(2 ^ (cnnWeightResolution - 1) - 1) ≤ w ∧
  w ≤ 2 ^ (cnnWeightResolution - 1) - 1}

scoped instance neZero_values : NeZero 128 := ⟨by decide⟩

/-- `CNN_Values_T`: the values that come at once. -/
abbrev CnnValues := ℕ → CnnValue

/-- `CNN_Weights_T`: the weights of each output, the bias after the last one. -/
abbrev CnnWeights := ℕ → ℕ → CnnWeight

/-- The weight of a value; where the type has none, 0. -/
def cnnWeight (w : ℤ) : CnnWeight :=
  if h : -(2 ^ (cnnWeightResolution - 1) - 1) ≤ w ∧ w ≤ 2 ^ (cnnWeightResolution - 1) - 1 then
    ⟨w, h⟩
  else ⟨0, by decide⟩

/-- `CNN_Stream_T`; all components share the clock. -/
structure CnnStream where
  column : ℕ
  row : ℕ
  filter : ℕ
  dataValid : Bool
  deriving DecidableEq, Repr

/-- What one clock edge samples of a stream and its data. -/
structure Sample where
  stream : CnnStream
  data : CnnValues

inductive Activation
  | relu | linear | leakyRelu | stepFunc | signFunc
  deriving DecidableEq, Repr

inductive Padding
  | valid | same
  deriving DecidableEq, Repr

def leakyReluMult : ℤ := 2 ^ (cnnWeightResolution - 1) / 10

/-! ### Rounding -/

variable {n k : ℕ}

/-- `shift_with_rounding` of a signed value, with either setting of
`CNN_Efficient_Rounding`. -/
def shiftWithRoundingBy (efficient : Bool) (value : BitVec n) (shiftAmount : ℤ) : BitVec n :=
  if shiftAmount ≤ 0 then value <<< shiftAmount.natAbs
  else if shiftAmount < n then
    if efficient then
      (value.sshiftRight (shiftAmount - 1).toNat + BitVec.ofInt n 1).sshiftRight 1
    else
      (value + BitVec.ofInt n (2 ^ (shiftAmount - 1).toNat)).sshiftRight shiftAmount.toNat
  else if value.msb then BitVec.allOnes n else 0#n

def shiftWithRounding (value : BitVec n) (shiftAmount : ℤ) : BitVec n :=
  shiftWithRoundingBy cnnEfficientRounding value shiftAmount

/-- Integer division drops the fraction, towards zero. -/
def adjustOffset (value offset : ℤ) : ℤ :=
  if 0 < offset then (value + 2 ^ (offset - 1).toNat).tdiv (2 ^ offset.toNat)
  else if offset < 0 then value * 2 ^ (-offset).toNat
  else value

/-! ### Activation functions -/

def reluFInt (i max : ℤ) : ℤ := if 0 < i then (if i < max then i else max) else 0

def reluF (i : BitVec n) (max : ℤ) : BitVec n :=
  if 0 < i.toInt then
    if i.toInt < (BitVec.ofInt n max).toInt then i else BitVec.ofInt n max
  else 0#n

def linearFInt (i max : ℤ) : ℤ := if i < max then (if max * -1 < i then i else max * -1) else max

def linearF (i : BitVec n) (max : ℤ) : BitVec n :=
  if i.toInt < (BitVec.ofInt n max).toInt then
    if i.abs.toInt < (BitVec.ofInt n max).toInt then i else BitVec.ofInt n (max * -1)
  else BitVec.ofInt n max

/-- The width of the result is that of the argument or `maxBits`. -/
def leakyReluF (i : BitVec n) (max : ℤ) (maxBits : ℕ) : (w : ℕ) × BitVec w :=
  if 0 < i.toInt then
    if i.toInt < (BitVec.ofInt n max).toInt then ⟨n, i⟩ else ⟨n, BitVec.ofInt n max⟩
  else
    let bits := maxBits + cnnWeightResolution - 1
    let product : BitVec (bits + bits) :=
      BitVec.ofInt _ ((resize bits i).toInt * (BitVec.ofInt bits leakyReluMult).toInt)
    let iReg := resize maxBits (product.sshiftRight (cnnWeightResolution - 1))
    if (BitVec.ofInt n (max * -1)).toInt < iReg.toInt then ⟨maxBits, iReg⟩
    else ⟨n, BitVec.ofInt n (max * -1)⟩

def stepF (i : BitVec n) : BitVec n :=
  if 0 ≤ i.toInt then BitVec.ofInt n (2 ^ (cnnWeightResolution - 1)) else 0#n

def signF (i : BitVec n) : BitVec n :=
  if 0 < i.toInt then BitVec.ofInt n (2 ^ (cnnWeightResolution - 1))
  else if i.toInt < 0 then BitVec.ofInt n (2 ^ (cnnWeightResolution - 1) * -1)
  else 0#n

/-- The activation of a layer, resized to a value. -/
def activate (a : Activation) (maxBits : ℕ) (i : BitVec n) : BitVec cnnValueResolution :=
  match a with
  | .relu => resize _ (reluF i valueMax)
  | .linear => resize _ (linearF i valueMax)
  | .leakyRelu => resize _ (leakyReluF i valueMax maxBits).2
  | .stepFunc => resize _ (stepF i)
  | .signFunc => resize _ (signF i)

/-! ### Both ways to round -/

theorem shiftWithRoundingBy_of_le (e : Bool) (v : BitVec n) {a : ℤ} (ha : a ≤ 0) :
    shiftWithRoundingBy e v a = v <<< a.natAbs := if_pos ha

theorem shiftWithRoundingBy_efficient (hk : k + 1 < n) (v : BitVec n) :
    shiftWithRoundingBy true v (k + 1 : ℕ) =
      (v.sshiftRight k + BitVec.ofInt n 1).sshiftRight 1 := by
  have hpos : ¬((k + 1 : ℕ) : ℤ) ≤ 0 := by omega
  have hlt : ((k + 1 : ℕ) : ℤ) < n := by omega
  have hsub : (((k + 1 : ℕ) : ℤ) - 1).toNat = k := by omega
  rw [shiftWithRoundingBy, if_neg hpos, if_pos hlt, if_pos rfl, hsub]

theorem shiftWithRoundingBy_plain (hk : k + 1 < n) (v : BitVec n) :
    shiftWithRoundingBy false v (k + 1 : ℕ) =
      (v + BitVec.ofInt n (2 ^ k)).sshiftRight (k + 1) := by
  have hpos : ¬((k + 1 : ℕ) : ℤ) ≤ 0 := by omega
  have hlt : ((k + 1 : ℕ) : ℤ) < n := by omega
  have hsub : (((k + 1 : ℕ) : ℤ) - 1).toNat = k := by omega
  rw [shiftWithRoundingBy, if_neg hpos, if_pos hlt, if_neg Bool.false_ne_true, hsub,
    Int.toNat_natCast]

theorem toInt_sshiftRight_div (v : BitVec n) (k : ℕ) :
    (v.sshiftRight k).toInt = v.toInt / 2 ^ k := by
  rw [BitVec.toInt_sshiftRight, Int.shiftRight_eq_div_pow]
  norm_cast

end AlteraWorkshops.Cnn
