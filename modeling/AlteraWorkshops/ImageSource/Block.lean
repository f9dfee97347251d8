import AlteraWorkshops.Clocked.Delay

/-! The `image_source` block: a register with one software bit, an interrupt enable
and an interrupt status register, a synchronizer for the external interrupt and the
pulse generator that stands in for the camera's frame interrupt. -/

namespace AlteraWorkshops.ImageSource

/-! ### Pulse generator -/

/-- The number of shifts after which a value is zero. -/
def shifts (value : ℕ) : ℕ := if 0 < value then shifts (value / 2) + 1 else 0

def clog2 (value : ℕ) : ℕ := shifts (value - 1)

def cntW (periodCycles : ℕ) : ℕ := if 1 < periodCycles then clog2 periodCycles else 1

structure PulseGen (periodCycles : ℕ) where
  cnt : BitVec (cntW periodCycles)
  pulseOut : Bool

def PulseGen.initial {periodCycles : ℕ} : PulseGen periodCycles := ⟨0, false⟩

/-- `pulse_gen`, with the comparison of the old count registered as the pulse. -/
def PulseGen.step {periodCycles : ℕ} (pulseCycles : ℕ) (r : PulseGen periodCycles)
    (rstN enable : Bool) : PulseGen periodCycles :=
  if !rstN then .initial
  else if enable then
    { cnt := if r.cnt.toNat = periodCycles - 1 then 0 else r.cnt + 1
      pulseOut := r.cnt.toNat < pulseCycles }
  else { r with pulseOut := false }

def periodCycles : ℕ := 2000000
def pulseCycles : ℕ := 1000000

/-! ### Ports and registers -/

structure Ports where
  resetN : Bool
  s0Address : BitVec 2
  s0Write : Bool
  s0Read : Bool
  s0Chipselect : Bool
  s0Writedata : BitVec 32
  s0Byteenable : BitVec 4
  irqIn : Bool

structure State where
  pioBit : Bool
  pioBitQ : Bool
  /-- bit 0 = PIO, bit 1 = EXT -/
  irqEn : BitVec 2
  /-- bit 0 = PIO pending, bit 1 = EXT pending -/
  irqStatus : BitVec 2
  extMeta : Bool
  extSync : Bool
  extQ : Bool
  /-- `u_pg_a`; `pg` is its output -/
  pg : PulseGen periodCycles

/-- The registers after a reset. -/
def State.initial : State := ⟨false, false, 0, 0, false, false, false, .initial⟩

def Ports.csW (i : Ports) : Bool := i.s0Chipselect && i.s0Write

/-- Readback, without a clock edge. -/
def s0Readdata (s : State) (i : Ports) : BitVec 32 :=
  match i.s0Address with
  | 0#2 => (BitVec.ofBool s.pioBit).setWidth 32
  | 1#2 => s.irqEn.setWidth 32
  | 2#2 => s.irqStatus.setWidth 32
  | _ => 0

def extRise (s : State) : Bool := !s.extQ && s.extSync

/-- The writes; only byte 0 of a register exists. -/
def write (s : State) (i : Ports) : State :=
  if i.csW && i.s0Byteenable.getLsbD 0 then
    match i.s0Address with
    | 0#2 => { s with pioBit := i.s0Writedata.getLsbD 0 }
    | 1#2 => { s with irqEn := i.s0Writedata.extractLsb' 0 2 }
    | 2#2 => { s with irqStatus := s.irqStatus &&& ~~~i.s0Writedata.extractLsb' 0 2 }
    | _ => s
  else s

/-- The clocked block and the pulse generator. The status bits are set after the
writes, so a set wins over a clear; the history of the software bit is taken from
the pulse. -/
def step (s : State) (i : Ports) : State :=
  if !i.resetN then .initial
  else
    let n := write s i
    let status := if !s.pioBitQ && s.pg.pulseOut then n.irqStatus ||| 0b01 else n.irqStatus
    let status := if extRise s then status ||| 0b10 else status
    { n with
      pioBitQ := s.pg.pulseOut
      irqStatus := status
      extMeta := i.irqIn
      extSync := s.extMeta
      extQ := s.extSync
      pg := s.pg.step pulseCycles i.resetN true }

/-- The interrupt output: the live sources, not the status bits. -/
def irq (s : State) (i : Ports) : Bool :=
  s.irqEn.getLsbD 0 && s.pg.pulseOut || s.irqEn.getLsbD 1 && i.irqIn

/-- Out of reset with nothing on the bus. -/
def Ports.silent : Ports := ⟨true, 0, false, false, false, 0, 0, false⟩

/-- A run from reset: the state before every clock edge. -/
def run (inp : ℕ → Ports) : ℕ → State := Clocked.trace step .initial inp

end AlteraWorkshops.ImageSource
