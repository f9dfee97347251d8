import AlteraWorkshops.Clocked.Gated
import Mathlib.Data.BitVec

/-! `top` and `top_answer` of the timing closure lab. Operands are captured with `clock1`,
everything else with `clock0`. At each instant either clock may rise, both, or none; a
register that rises samples what the others held before the instant. -/

namespace AlteraWorkshops.TimingClosure

open Clocked

/-! ### Signals -/

/-- The values of `std_ulogic`. -/
inductive StdLogic
  | U | X | zero | one | Z | W | L | H | dontCare
  deriving DecidableEq

abbrev StdLogicVector (n : ℕ) := Fin n → StdLogic

/-- A signal without a declared initial value. -/
def undriven (n : ℕ) : StdLogicVector n := fun _ => .U

/-- `(others => '0')` -/
def zeros (n : ℕ) : StdLogicVector n := fun _ => .zero

/-- The inputs at one instant: which clocks rise, and the data ports. -/
structure Ports where
  clock0 : Bool
  clock1 : Bool
  dataa : StdLogicVector 16
  datab : StdLogicVector 16
  denom : StdLogicVector 16

/-- The number of edges of `clock0` among the first `n` instants. -/
def edges (inp : ℕ → Ports) (n : ℕ) : ℕ := Nat.count (fun k => (inp k).clock0 = true) n

/-- `Mult16x16`, combinational. -/
abbrev Mult16x16 := StdLogicVector 16 → StdLogicVector 16 → StdLogicVector 32

/-- The quotient and the remainder that `Div32by16` computes of `numer` and `denom`. -/
abbrev Div32by16 := StdLogicVector 32 → StdLogicVector 16 → StdLogicVector 32 × StdLogicVector 16

/-- The registers inside a divider of latency `L`. -/
abbrev Pipeline (L : ℕ) := Fin L → StdLogicVector 32 × StdLogicVector 16

/-! ### Registers behind `clock1` -/

structure Operands where
  dataaR : StdLogicVector 16
  databR : StdLogicVector 16

def Operands.initial : Operands := ⟨undriven 16, undriven 16⟩

/-- `CAPTURE_DATA0`, the same in both designs. -/
def captureData0 (i : Ports) (r : Operands) : Operands :=
  if i.clock1 then ⟨i.dataa, i.datab⟩ else r

/-- What an edge of `clock0` finds: the operands captured before it, and the denominator. -/
structure Sample where
  operands : Operands
  denom : StdLogicVector 16

/-! ### `top` -/

namespace Top

/-- The registers behind `clock0`, with those inside the divider. -/
structure Regs (L : ℕ) where
  denomR : StdLogicVector 16
  denomR2 : StdLogicVector 16
  divider : Pipeline L
  result : StdLogicVector 32
  remain : StdLogicVector 16

def Regs.initial {L : ℕ} (divider : Pipeline L) : Regs L :=
  ⟨zeros 16, undriven 16, divider, undriven 32, undriven 16⟩

variable {L : ℕ} (mult : Mult16x16) (div : Div32by16)

/-- What goes into the divider: the product of the captured operands and `denom_r2`. -/
def dividerInput (x : Sample) (r : Regs L) : StdLogicVector 32 × StdLogicVector 16 :=
  let multResult := mult x.operands.dataaR x.operands.databR
  div multResult r.denomR2

/-- `CAPTURE_DATA1`, `CAPTURE_OUT0` and the divider at an edge of `clock0`. -/
def edge (r : Regs L) (x : Sample) : Regs L :=
  let u := rowOutput r.divider (dividerInput mult div x r)
  { denomR := x.denom
    denomR2 := r.denomR
    divider := shiftIn r.divider (dividerInput mult div x r)
    result := u.1
    remain := u.2 }

def step (s : Operands × Regs L) (i : Ports) : Operands × Regs L :=
  (captureData0 i s.1, if i.clock0 then edge mult div s.2 ⟨s.1, i.denom⟩ else s.2)

def run (divider : Pipeline L) (inp : ℕ → Ports) : ℕ → Operands × Regs L :=
  trace (step mult div) (.initial, .initial divider) inp

end Top

/-! ### `top_answer` -/

namespace TopAnswer

/-- The registers behind `clock0`, with those inside the divider. -/
structure Regs (L : ℕ) where
  dataaR1 : StdLogicVector 16
  databR1 : StdLogicVector 16
  multResultR : StdLogicVector 32
  denomR : StdLogicVector 16
  denomR0 : StdLogicVector 16
  denomR1 : StdLogicVector 16
  denomR2 : StdLogicVector 16
  divider : Pipeline L
  result : StdLogicVector 32
  remain : StdLogicVector 16

def Regs.initial {L : ℕ} (divider : Pipeline L) : Regs L :=
  ⟨undriven 16, undriven 16, undriven 32, zeros 16, undriven 16, undriven 16, undriven 16,
    divider, undriven 32, undriven 16⟩

variable {L : ℕ} (mult : Mult16x16) (div : Div32by16)

/-- What goes into the divider: the registered product and `denom_r2`. -/
def dividerInput (r : Regs L) : StdLogicVector 32 × StdLogicVector 16 :=
  div r.multResultR r.denomR2

/-- `CAPTURE_DATA1`, `CAPTURE_OUT0` and the divider at an edge of `clock0`. -/
def edge (r : Regs L) (x : Sample) : Regs L :=
  let multResult := mult r.dataaR1 r.databR1
  let u := rowOutput r.divider (dividerInput div r)
  { dataaR1 := x.operands.dataaR
    databR1 := x.operands.databR
    multResultR := multResult
    denomR := x.denom
    denomR0 := r.denomR
    denomR1 := r.denomR0
    denomR2 := r.denomR1
    divider := shiftIn r.divider (dividerInput div r)
    result := u.1
    remain := u.2 }

def step (s : Operands × Regs L) (i : Ports) : Operands × Regs L :=
  (captureData0 i s.1, if i.clock0 then edge mult div s.2 ⟨s.1, i.denom⟩ else s.2)

def run (divider : Pipeline L) (inp : ℕ → Ports) : ℕ → Operands × Regs L :=
  trace (step mult div) (.initial, .initial divider) inp

end TopAnswer

end AlteraWorkshops.TimingClosure
