import AlteraWorkshops.Camera.RegisterTable

/-! The MIPI firmware from the moment the push-button interrupt is unmasked:
`init_MIRA220` statement by statement, with `PB_isr` running to completion between any
two statements. Both call `poke`, and `poke` fills the one global `wData`. -/

namespace AlteraWorkshops.Camera

/-! ### Data -/

/-- The three bytes handed to `alt_avalon_i2c_master_tx`. -/
abbrev Triple := BitVec 8 × BitVec 8 × BitVec 8

inductive Sender
  | initMira220 | pbIsr
  deriving DecidableEq

/-- The globals that `poke` and `PB_isr` share, the arguments of the `poke` that
`init_MIRA220` is in, and what was transmitted so far. -/
structure Machine where
  wData0 : BitVec 8
  wData1 : BitVec 8
  wData2 : BitVec 8
  expTimeIndex : BitVec 8
  addr : BitVec 16
  val : BitVec 8
  sent : List (Sender × Triple)

/-- `(alt_u8)(x >> 8)` and `(alt_u8)(x & 0x0FF)` -/
def highByte (x : BitVec 16) : BitVec 8 := (x >>> 8).setWidth 8

def lowByte (x : BitVec 16) : BitVec 8 := (x &&& 0x0FF).setWidth 8

/-- `exp_time` has 12 entries and the index goes up to 12; `past` is what the memory
behind the array holds. -/
def expTime (past : BitVec 16) (index : BitVec 8) : BitVec 16 :=
  [0x016C, 0x02D8, 0x0445, 0x05B1, 0x071D, 0x0889, 0x09F5, 0x0B61, 0x0CCE, 0x0E3A, 0x0FA6,
    0x10C9].getD index.toNat past

def mira220RegExposure : BitVec 16 := 0x100C
def mira220ImagerStateReg : BitVec 16 := 0x1003
def mira220MasterExposure : BitVec 8 := 0x10
def mira220ImagerRunReg : BitVec 16 := 0x10F0
def mira220ImagerRunStart : BitVec 8 := 0x01
def mira220MipiSoftResetReg : BitVec 16 := 0x5004
def mira220MipiSoftResetDphy : BitVec 8 := 0x01
def mira220MipiSoftResetNone : BitVec 8 := 0x00

/-! ### Statements -/

/-- A value argument of a `poke` call: a constant, or a byte of
`exp_time[exp_time_index]`. -/
inductive ValArg
  | const (v : BitVec 8)
  | exposureLow
  | exposureHigh

/-- The argument when the exposure time is `exposure`. -/
def ValArg.eval (exposure : BitVec 16) : ValArg → BitVec 8
  | .const v => v
  | .exposureLow => lowByte exposure
  | .exposureHigh => highByte exposure

/-- Statements of `init_MIRA220` and of `poke`. `other` touches none of the globals:
register writes, sleeps, console output, loop control, the status check. -/
inductive Statement
  | other
  | call (addr : BitVec 16) (val : ValArg)
  | wData0
  | wData1
  | wData2
  | tx

def Machine.step (past : BitVec 16) (m : Machine) : Statement → Machine
  | .other => m
  | .call addr val =>
    { m with addr := addr, val := val.eval (expTime past m.expTimeIndex) }
  | .wData0 => { m with wData0 := highByte m.addr }
  | .wData1 => { m with wData1 := lowByte m.addr }
  | .wData2 => { m with wData2 := m.val &&& 0xFF }
  | .tx => { m with sent := m.sent ++ [(.initMira220, m.wData0, m.wData1, m.wData2)] }

/-- `poke`: the call, its three assignments, the transmission and the check. -/
def poke (addr : BitVec 16) (val : ValArg) : List Statement :=
  [.call addr val, .wData0, .wData1, .wData2, .tx, .other]

/-! ### The interrupt -/

/-- A `poke` of the interrupt, which nothing interrupts. -/
def Machine.isrPoke (m : Machine) (addr : BitVec 16) (val : BitVec 8) : Machine :=
  { m with
    wData0 := highByte addr
    wData1 := lowByte addr
    wData2 := val &&& 0xFF
    sent := m.sent ++ [(.pbIsr, highByte addr, lowByte addr, val &&& 0xFF)] }

/-- The index that a press selects. -/
def nextIndex (index : BitVec 8) : BitVec 8 := if index ≠ 12 then index + 1 else 0

/-- `PB_isr`; `pressed` says whether the button is still pressed after debouncing. -/
def Machine.pbIsr (past : BitVec 16) (m : Machine) (pressed : Bool) : Machine :=
  if pressed then
    let m := { m with expTimeIndex := nextIndex m.expTimeIndex }
    let m := m.isrPoke mira220RegExposure (lowByte (expTime past m.expTimeIndex))
    m.isrPoke (mira220RegExposure + 1) (highByte (expTime past m.expTimeIndex))
  else m

/-- The interrupts that run in front of one statement, in order. -/
def Machine.interrupts (past : BitVec 16) (m : Machine) (l : List Bool) : Machine :=
  l.foldl (Machine.pbIsr past) m

/-- Statements from position `k` on, each after the interrupts scheduled there. -/
def Machine.run (past : BitVec 16) (schedule : ℕ → List Bool) :
    ℕ → List Statement → Machine → Machine
  | k, [], m => m.interrupts past (schedule k)
  | k, s :: rest, m =>
    Machine.run past schedule (k + 1) rest ((m.interrupts past (schedule k)).step past s)

/-! ### `init_MIRA220` -/

/-- A piece of `init_MIRA220`. -/
inductive Piece
  | other
  | poke (addr : BitVec 16) (val : ValArg)

def Piece.statements : Piece → List Statement
  | .other => [.other]
  | .poke addr val => Camera.poke addr val

def statements (l : List Piece) : List Statement := l.flatMap Piece.statements

/-- The soft reset, between the set-up of the video components and the sleeps. -/
def softReset : List Piece :=
  List.replicate 28 .other ++
    [.poke mira220MipiSoftResetReg (.const mira220MipiSoftResetDphy), .other,
      .poke mira220MipiSoftResetReg (.const mira220MipiSoftResetNone), .other]

/-- The loop over the table: the counter is set, tested and advanced. -/
def upload (table : List Mira220Reg) : List Piece :=
  .other :: table.flatMap (fun reg => [.other, .poke reg.address (.const reg.val), .other]) ++
    [.other]

def setExposure : List Piece :=
  [.poke mira220RegExposure .exposureLow, .poke (mira220RegExposure + 1) .exposureHigh]

def startImager : List Piece :=
  [.poke mira220ImagerStateReg (.const mira220MasterExposure),
    .poke mira220ImagerRunReg (.const mira220ImagerRunStart), .other, .other, .other, .other]

/-- `init_MIRA220` with a register table. -/
def initWith (table : List Mira220Reg) : List Piece :=
  softReset ++ upload table ++ setExposure ++ startImager

def initMira220 : List Piece := initWith full1500mbps1280x720Reg

/-- After `main` has set the exposure index and unmasked the interrupt, with whatever
`wData` holds. -/
def Machine.start (w0 w1 w2 : BitVec 8) : Machine := ⟨w0, w1, w2, 6, 0, 0, []⟩

/-- What the calls of `init_MIRA220` itself have handed to the transmission. -/
def Machine.own (m : Machine) : List Triple :=
  m.sent.filterMap fun e => if e.1 = .initMira220 then some e.2 else none

end AlteraWorkshops.Camera
