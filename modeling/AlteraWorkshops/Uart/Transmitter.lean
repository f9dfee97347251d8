import AlteraWorkshops.Clocked.Gated
import Mathlib.Data.Fin.Tuple.Basic

/-! `uart_tx` of the SignalTap lab. The divider makes `baud_out` from `iCLK`; the counter and
the shift register are clocked by its rising edges, the load strobe by its falling edges.
One step is one instant: what the external signals become there, and what follows from it. -/

namespace AlteraWorkshops.Uart

open Clocked

/-- The external signals at one instant; `iClk` says that `iCLK` rises. -/
structure Ports where
  iClk : Bool
  nInitDone : Bool
  btn : Bool

structure State where
  clkCnt : ℕ
  baudOut : Bool
  delay : BitVec 4
  iCtrl : Bool
  /-- `iDATACNT`, the output of the counter. -/
  iDataCnt : BitVec 8
  /-- The bits of the shift register, from 9 down to 0. -/
  shift : Fin 10 → Bool

/-- At power-up `baud_out` and the two components hold anything. -/
def State.initial (baudOut : Bool) (b : BitVec 8) (shift : Fin 10 → Bool) : State :=
  ⟨0, baudOut, 0xF, false, b, shift⟩

/-! ### Components -/

/-- `datagen`: counts up, modulo 256. -/
def counter (cntEn sload : Bool) (data q : BitVec 8) : BitVec 8 :=
  if sload then data else if cntEn then q + 1 else q

/-- `serdes`: shifts left, with ones behind. -/
def shiftRegister (load sset : Bool) (data q : Fin 10 → Bool) : Fin 10 → Bool :=
  if sset then fun _ => true else if load then data else shiftIn q true

/-! ### Processes -/

/-- `baud_rate`: the next `clk_cnt` and `baud_out`. -/
def baudRate (clksPerBit : ℕ) (i : Ports) (s : State) : ℕ × Bool :=
  if i.nInitDone then (0, false)
  else if i.iClk then
    if s.clkCnt = clksPerBit - 1 then (0, !s.baudOut) else (s.clkCnt + 1, s.baudOut)
  else (s.clkCnt, s.baudOut)

/-- `load`, with the `baud_out` of this instant: the next `delay` and `iCTRL`. -/
def load (i : Ports) (baudOut : Bool) (s : State) : BitVec 4 × Bool :=
  if !i.btn then (0xF, false)
  else if s.baudOut && !baudOut then
    if s.delay = 0xF then (0x0, true) else (s.delay + 1, false)
  else (s.delay, s.iCtrl)

/-- `reverse`: element `i` of the ascending vector is bit `i` of the counter. -/
def iDataShft (iDataCnt : BitVec 8) (i : Fin 8) : Bool := iDataCnt.getLsbD i

/-- `'0' & iDATASHFT & '1'` -/
def iDataShftConcat (iDataCnt : BitVec 8) : Fin (1 + 8 + 1) → Bool :=
  Fin.append (Fin.append (fun _ : Fin 1 => false) (iDataShft iDataCnt)) (fun _ : Fin 1 => true)

/-- The ascending vector on the descending port: the leftmost element is bit 9. -/
def dataPort (iDataCnt : BitVec 8) (k : Fin 10) : Bool := iDataShftConcat iDataCnt k.rev

/-- One instant. The components sample what was there before `baud_out` rose. -/
def step (clksPerBit : ℕ) (s : State) (i : Ports) : State :=
  let baud := baudRate clksPerBit i s
  let strobe := load i baud.2 s
  let rise := !s.baudOut && baud.2
  { clkCnt := baud.1
    baudOut := baud.2
    delay := strobe.1
    iCtrl := strobe.2
    iDataCnt := if rise then counter true false 0x56 s.iDataCnt else s.iDataCnt
    shift := if rise then shiftRegister s.iCtrl (!i.btn) (dataPort s.iDataCnt) s.shift
      else s.shift }

def State.uartTx (s : State) : Bool := s.shift (Fin.last 9)

/-! ### Edges of `baud_out` -/

variable (s : ℕ → State)

def Rise (t : ℕ) : Prop := (s t).baudOut = false ∧ (s (t + 1)).baudOut = true

def Fall (t : ℕ) : Prop := (s t).baudOut = true ∧ (s (t + 1)).baudOut = false

instance : DecidablePred (Rise s) := fun _ => inferInstanceAs (Decidable (_ ∧ _))

instance : DecidablePred (Fall s) := fun _ => inferInstanceAs (Decidable (_ ∧ _))

/-- The number of rising edges among the first `t` instants. -/
def rises (t : ℕ) : ℕ := Nat.count (Rise s) t

theorem rises_succ (t : ℕ) : rises s (t + 1) = rises s t + if Rise s t then 1 else 0 :=
  Nat.count_succ ..

theorem rises_mono {t t' : ℕ} (h : t ≤ t') : rises s t ≤ rises s t' := Nat.count_monotone _ h

/-- The number of rising edges of `iCLK` among the first `t` instants. -/
def clocks (inp : ℕ → Ports) (t : ℕ) : ℕ := Nat.count (fun u => (inp u).iClk = true) t

theorem clocks_succ (inp : ℕ → Ports) (t : ℕ) :
    clocks inp (t + 1) = clocks inp t + if (inp t).iClk = true then 1 else 0 := Nat.count_succ ..

theorem clocks_mono (inp : ℕ → Ports) {t t' : ℕ} (h : t ≤ t') : clocks inp t ≤ clocks inp t' :=
  Nat.count_monotone _ h

def run (clksPerBit : ℕ) (s : State) (inp : ℕ → Ports) : ℕ → State :=
  trace (step clksPerBit) s inp

end AlteraWorkshops.Uart
