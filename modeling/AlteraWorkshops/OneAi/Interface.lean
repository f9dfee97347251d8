import AlteraWorkshops.Clocked.Trace

/-! The `ONE_AI_Interface` entity: its ports, its registers, and its four clocked
processes. All processes read the registers as they were before the edge, so one
clock cycle is the four processes applied to the same old state. The CNN
component appears as the input ports its output stream drives. Registers that no
process reads (`read_offset`, `current_output_position`) are left out. -/

namespace AlteraWorkshops.OneAi

/-! ### Constants and types -/

def frameWidth : ℕ := 128
def frameHeight : ℕ := 128
def frameSize : ℕ := frameWidth * frameHeight

/-- 112 cycles in total per pixel. -/
def pixelDelayCycles : ℕ := 112 - 5

def outputs : ℕ := 1

structure OutputRange where
  maxHeight : ℕ
  maxWidth : ℕ
  maxObjects : ℕ
  maxClasses : ℕ

/-- `OUTPUT_DIMENSIONS`; there is one output, so the index is always 0. -/
def outputDimensions (_ : ℕ) : OutputRange := ⟨1, 1, 1, 10⟩

def fps : ℕ := 62

def lastPixel : BitVec 14 := BitVec.ofNat 14 (frameSize - 1)

/-- `CNN_Value_T`. -/
abbrev CnnValue := Fin 128

/-- `output_data`; the height, width and object dimensions have one entry each. -/
abbrev OutputData := Fin 10 → CnnValue

/-- The generic of the entity, and the word the result multiplexer yields for a
class index past `output_data`, which neither the design nor VHDL defines. -/
structure Generics where
  bufferBaseAddr : BitVec 32
  pastOutputData : ℕ → BitVec 32

inductive FsmState
  | idleState | readWordState | extractPixelState | pixelDelayState
  deriving DecidableEq, Repr

/-- `output_position_t`, as the integers that a process reads and assigns. -/
structure OutputPosition where
  currentHeight : ℕ
  currentWidth : ℕ
  currentObjects : ℕ
  currentClasses : ℕ
  deriving DecidableEq

/-- The ranges of the record, which are the dimensions of the output. -/
structure OutputPosition.InBounds (p : OutputPosition) : Prop where
  height : p.currentHeight < (outputDimensions 0).maxHeight
  width : p.currentWidth < (outputDimensions 0).maxWidth
  objects : p.currentObjects < (outputDimensions 0).maxObjects
  classes : p.currentClasses < (outputDimensions 0).maxClasses

instance : DecidablePred OutputPosition.InBounds := fun _ =>
  decidable_of_iff (_ ∧ _ ∧ _ ∧ _)
    ⟨fun h => ⟨h.1, h.2.1, h.2.2.1, h.2.2.2⟩, fun h => ⟨h.height, h.width, h.objects, h.classes⟩⟩

/-- The registers of a position. A signal of `natural range 0 to hi` is synthesized
into the bits that `hi` needs: none for `0 to 0`, four for the classes `0 to 9`. -/
structure PositionRegs where
  currentHeight : BitVec 0
  currentWidth : BitVec 0
  currentObjects : BitVec 0
  currentClasses : BitVec 4
  deriving DecidableEq

def PositionRegs.value (p : PositionRegs) : OutputPosition :=
  ⟨p.currentHeight.toNat, p.currentWidth.toNat, p.currentObjects.toNat, p.currentClasses.toNat⟩

/-- What the registers keep of an assigned position: the low bits. -/
def OutputPosition.bits (p : OutputPosition) : PositionRegs :=
  ⟨BitVec.ofNat 0 p.currentHeight, BitVec.ofNat 0 p.currentWidth,
    BitVec.ofNat 0 p.currentObjects, BitVec.ofNat 4 p.currentClasses⟩

/-! ### Ports and registers -/

/-- The input ports, and the stream ports driven by the CNN component. -/
structure Ports where
  resetN : Bool
  avmReaddata : BitVec 32
  avmWaitrequest : Bool
  avsAddress : BitVec 8
  avsRead : Bool
  avsWrite : Bool
  avsWritedata : BitVec 32
  frameWriterIrq : Bool
  /-- `oStream_1.Data_Valid` -/
  oDataValid : Bool
  /-- `oData_1(0)` -/
  oData1 : CnnValue
  oCycle1 : ℕ

structure ResultRegs where
  outputData : OutputData
  newImageReady : Bool

structure IrqRegs where
  frameCounter : BitVec 24
  frameWriterIrqD : Bool
  newFrameAvailable : Bool

structure PixelRegs where
  avmAddress : BitVec 32
  avmRead : Bool
  state : FsmState
  pixelAddr : BitVec 14
  wordAddr : BitVec 32
  currentWord : BitVec 32
  cachedR : BitVec 8
  cachedG : BitVec 8
  cachedB : BitVec 8
  /-- 0 = none, 1 = have r, 2 = have rg, 3 = have rgb -/
  cacheState : BitVec 2
  pixelRReg : BitVec 8
  pixelGReg : BitVec 8
  pixelBReg : BitVec 8
  cycleCounter : ℕ
  pixelR : ℕ
  pixelG : ℕ
  pixelB : ℕ
  pixelColumn : ℕ
  pixelRow : ℕ
  pixelValid : Bool

/-- The slave's registers, with the position as its registers or as the integers that
the process assigns. -/
structure SlaveRegs (P : Type) where
  avsReaddata : BitVec 32
  currentOutput : BitVec 0
  currentUserPosition : P
  newImageRead : Bool
  /-- The process variable that marks a read of 0x04 in progress. -/
  avsReadReg : Bool

def SlaveRegs.map {P Q : Type} (f : P → Q) (r : SlaveRegs P) : SlaveRegs Q :=
  ⟨r.avsReaddata, r.currentOutput, f r.currentUserPosition, r.newImageRead, r.avsReadReg⟩

structure State where
  result : ResultRegs
  irq : IrqRegs
  pixel : PixelRegs
  slave : SlaveRegs PositionRegs

def ResultRegs.initial : ResultRegs := ⟨fun _ => 0, false⟩

def IrqRegs.initial : IrqRegs := ⟨0, false, false⟩

def PixelRegs.initial : PixelRegs :=
  ⟨0, false, .idleState, 0, 0, 0, 0, 0, 0, 0, 0, 0, 0, 0, 0, 0, 0, 0, 0, false⟩

def SlaveRegs.initial : SlaveRegs PositionRegs := ⟨0, 0, ⟨0, 0, 0, 0⟩, false, false⟩

/-- The declared initial values. -/
def State.initial : State := ⟨.initial, .initial, .initial, .initial⟩

/-! ### Result store -/

/-- `oCycle_1` strobes the last class: the inference is complete. -/
def Ports.completes (i : Ports) : Bool :=
  i.oDataValid && i.oCycle1 == (outputDimensions 0).maxClasses - 1

/-- CNN results are stored class by class; the last class sets the ready flag,
after and therefore over the clear. -/
def resultProcess (s : State) (i : Ports) : ResultRegs :=
  let r := s.result
  if !i.resetN then .initial
  else
    let r := if s.slave.newImageRead then { r with newImageReady := false } else r
    if i.oDataValid then
      let r :=
        if i.oCycle1 < (outputDimensions 0).maxClasses then
          { r with outputData :=
              fun c => if c.val = i.oCycle1 then i.oData1 else r.outputData c }
        else r
      if i.oCycle1 = (outputDimensions 0).maxClasses - 1 then { r with newImageReady := true }
      else r
    else r

/-! ### Interrupt detection -/

/-- A rising edge of `frame_writer_irq` against its registered copy. -/
def risingEdge (s : State) (i : Ports) : Bool := i.frameWriterIrq && !s.irq.frameWriterIrqD

/-- The clear condition: the first word of a frame is being read. -/
def readingFirstWord (s : State) : Bool :=
  s.pixel.state == .readWordState && s.pixel.pixelAddr == 0

/-- Frame writer edges set the flag; the clear comes last in the process. -/
def irqProcess (s : State) (i : Ports) : IrqRegs :=
  let r := s.irq
  if !i.resetN then .initial
  else
    let r := { r with frameWriterIrqD := i.frameWriterIrq }
    let r :=
      if risingEdge s i then
        { r with
          frameCounter := if s.irq.frameCounter < 0xFFFFFF then s.irq.frameCounter + 1 else 0
          newFrameAvailable := true }
      else r
    if readingFirstWord s then { r with newFrameAvailable := false } else r

/-! ### Pixel reader -/

/-- Byte `k` of a word, little end first. -/
def byteOf (w : BitVec 32) (k : ℕ) : BitVec 8 := w.extractLsb' (8 * k) 8

/-- The case on `cache_state`: the pixel's bytes come from the cache and from the
current word, and the rest of the word refills the cache. -/
def extractBytes (r : PixelRegs) : PixelRegs :=
  let w := r.currentWord
  match r.cacheState with
  | 0#2 => { r with
      pixelRReg := byteOf w 0, pixelGReg := byteOf w 1, pixelBReg := byteOf w 2
      cachedR := byteOf w 3, cacheState := 1 }
  | 1#2 => { r with
      pixelRReg := r.cachedR, pixelGReg := byteOf w 0, pixelBReg := byteOf w 1
      cachedR := byteOf w 2, cachedG := byteOf w 3, cacheState := 2 }
  | 2#2 => { r with
      pixelRReg := r.cachedR, pixelGReg := r.cachedG, pixelBReg := byteOf w 0
      cachedR := byteOf w 1, cachedG := byteOf w 2, cachedB := byteOf w 3, cacheState := 3 }
  | 3#2 => { r with
      pixelRReg := r.cachedR, pixelGReg := r.cachedG, pixelBReg := r.cachedB
      cacheState := 0 }

/-- The main FSM. -/
def pixelProcess (g : Generics) (s : State) (i : Ports) : PixelRegs :=
  let r := s.pixel
  if !i.resetN then .initial
  else
    let n := { r with pixelValid := false }
    match r.state with
    | .idleState =>
      if s.irq.newFrameAvailable then
        { n with
          pixelAddr := 0, cycleCounter := 0, cacheState := 0
          wordAddr := g.bufferBaseAddr, avmAddress := g.bufferBaseAddr
          avmRead := true, state := .readWordState }
      else n
    | .readWordState =>
      let n :=
        if !i.avmWaitrequest then { n with avmRead := false, currentWord := i.avmReaddata }
        else n
      if !r.avmRead then { n with state := .extractPixelState } else n
    | .extractPixelState =>
      { extractBytes n with
        pixelColumn := r.pixelAddr.toNat % frameWidth
        pixelRow := r.pixelAddr.toNat / frameWidth
        cycleCounter := 0, state := .pixelDelayState }
    | .pixelDelayState =>
      if pixelDelayCycles ≤ r.cycleCounter then
        -- bits 7 downto 1 of each byte
        let n := { n with
          pixelR := r.pixelRReg.toNat / 2, pixelG := r.pixelGReg.toNat / 2
          pixelB := r.pixelBReg.toNat / 2, pixelValid := true }
        if r.pixelAddr = lastPixel then { n with state := .idleState }
        else
          let n := { n with pixelAddr := r.pixelAddr + 1 }
          if r.cacheState = 3 then { n with state := .extractPixelState }
          else { n with
            wordAddr := r.wordAddr + 4, avmAddress := r.wordAddr + 4
            avmRead := true, state := .readWordState }
      else { n with cycleCounter := r.cycleCounter + 1 }

/-! ### Register slave -/

/-- The write case: 0x01 guards its operand, the position takes whole halves. -/
def slaveWrite (r : SlaveRegs OutputPosition) (address : BitVec 8) (data : BitVec 32) :
    SlaveRegs OutputPosition :=
  let addrInt := address.toNat
  let low := (data.extractLsb' 0 16).toNat
  let high := (data.extractLsb' 16 16).toNat
  if addrInt = 1 then
    if data.toNat < outputs then { r with currentOutput := BitVec.ofNat 0 data.toNat } else r
  else if 16 ≤ addrInt ∧ addrInt ≤ 31 then
    { r with currentUserPosition := { r.currentUserPosition with
        currentWidth := low, currentHeight := high } }
  else if 32 ≤ addrInt ∧ addrInt ≤ 47 then
    { r with currentUserPosition := { r.currentUserPosition with
        currentObjects := low, currentClasses := high } }
  else r

/-- `output_data` at a position, as a bus word. -/
def outputAt (g : Generics) (d : OutputData) (p : OutputPosition) : BitVec 32 :=
  if h : p.currentClasses < 10 then BitVec.ofNat 32 (d ⟨p.currentClasses, h⟩).val
  else g.pastOutputData p.currentClasses

/-- The nested carry of the auto-increment read: classes, objects, width, height. -/
def nextPosition (d : OutputRange) (p : OutputPosition) : OutputPosition :=
  if p.currentClasses < d.maxClasses - 1 then
    { p with currentClasses := p.currentClasses + 1 }
  else
    let p := { p with currentClasses := 0 }
    if p.currentObjects < d.maxObjects - 1 then
      { p with currentObjects := p.currentObjects + 1 }
    else
      let p := { p with currentObjects := 0 }
      if p.currentWidth < d.maxWidth - 1 then
        { p with currentWidth := p.currentWidth + 1 }
      else
        let p := { p with currentWidth := 0 }
        if p.currentHeight < d.maxHeight - 1 then
          { p with currentHeight := p.currentHeight + 1 }
        else { p with currentHeight := 0 }

/-- Two 16-bit halves, the first one high. -/
def halves (high low : ℕ) : BitVec 32 := BitVec.ofNat 16 high ++ BitVec.ofNat 16 low

/-- The read case. `o` and `p` are the registers as the process found them, `r`
those it has assigned so far. -/
def slaveRead (g : Generics) (s : State) (address : BitVec 8) (r : SlaveRegs OutputPosition) :
    SlaveRegs OutputPosition :=
  let addrInt := address.toNat
  let o := s.slave
  let p := o.currentUserPosition.value
  let word := if o.currentOutput = 0 then outputAt g s.result.outputData p else 0
  if addrInt = 0 then
    { r with avsReaddata := BitVec.ofNat 32 s.result.newImageReady.toNat, newImageRead := true }
  else if addrInt = 1 then { r with avsReaddata := BitVec.ofNat 32 outputs }
  else if addrInt = 2 then { r with avsReaddata := BitVec.ofNat 32 fps }
  else if addrInt = 3 then { r with avsReaddata := word }
  else if addrInt = 4 then
    let r := { r with avsReaddata := word }
    if !o.avsReadReg then
      { r with
        currentUserPosition := nextPosition (outputDimensions o.currentOutput.toNat) p
        avsReadReg := true }
    else r
  else if 16 ≤ addrInt ∧ addrInt ≤ 31 then
    if addrInt - 16 < outputs then
      { r with avsReaddata := halves p.currentWidth p.currentHeight }
    else r
  else if 32 ≤ addrInt ∧ addrInt ≤ 47 then
    if addrInt - 32 < outputs then
      { r with avsReaddata := halves p.currentObjects p.currentClasses }
    else r
  else if 48 ≤ addrInt ∧ addrInt ≤ 63 then
    if addrInt - 48 < outputs then
      let d := outputDimensions (addrInt - 48)
      { r with avsReaddata := halves d.maxHeight d.maxWidth }
    else r
  else if 64 ≤ addrInt ∧ addrInt ≤ 79 then
    if addrInt - 64 < outputs then
      let d := outputDimensions (addrInt - 64)
      { r with avsReaddata := halves d.maxClasses d.maxObjects }
    else r
  else { r with avsReaddata := 0 }

/-- The Avalon-MM slave: writes first, then the read flag, then reads. The reset
branch leaves `new_image_read` and the variable `avs_read_reg` alone. -/
def slaveProcess (g : Generics) (s : State) (i : Ports) : SlaveRegs OutputPosition :=
  let r := s.slave.map PositionRegs.value
  if !i.resetN then
    { r with avsReaddata := 0, currentOutput := 0, currentUserPosition := ⟨0, 0, 0, 0⟩ }
  else
    let r := { r with avsReaddata := 0 }
    let r := if i.avsWrite then slaveWrite r i.avsAddress i.avsWritedata else r
    let r := { r with newImageRead := false }
    if i.avsRead then slaveRead g s i.avsAddress r else { r with avsReadReg := false }

/-! ### One clock cycle -/

/-- Every process sees the registers as they were before the rising edge. -/
def step (g : Generics) (s : State) (i : Ports) : State :=
  ⟨resultProcess s i, irqProcess s i, pixelProcess g s i,
    (slaveProcess g s i).map OutputPosition.bits⟩

/-- The same edge with the range checks of the language: a position outside its ranges
is an error. An edge assigns the position once at most, since the writes and the advance
have different addresses. -/
def checkedStep (g : Generics) (s : State) (i : Ports) : Except OutputPosition State :=
  let p := (slaveProcess g s i).currentUserPosition
  if p.InBounds then .ok (step g s i) else .error p

/-- Out of reset with nothing on any bus; the buffer memory answers at once. -/
def Ports.silent : Ports := ⟨true, 0, false, 0, false, false, 0, false, false, 0, 0⟩

/-- A run from the declared initial values. -/
def run (g : Generics) (inp : ℕ → Ports) : ℕ → State := Clocked.trace (step g) .initial inp

/-- The run with range checks, up to the first error. -/
def checkedRun (g : Generics) (inp : ℕ → Ports) : ℕ → Except OutputPosition State :=
  Clocked.checkedTrace (checkedStep g) .initial inp

end AlteraWorkshops.OneAi
