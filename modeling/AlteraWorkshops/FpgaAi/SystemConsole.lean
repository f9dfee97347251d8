import AlteraWorkshops.Effects.Script
import Mathlib.Algebra.Group.Int.Defs

/-! `system_console_lib.tcl`: the procedures behind a functional run and a performance run.
What a run does on the board and to its files is a list of events; the board answers a read
as it likes, depending on everything that happened before. Messages that only tell about
progress are left out. -/

namespace AlteraWorkshops.FpgaAi

open Effects Script

abbrev Bytes := List (BitVec 8)

/-! ### Constants -/

def axiStreamDataWidthBytes : ℤ := 16
def ingressOnChipMemorySizeBytes : ℤ := 4096
def egressOnChipMemorySizeBytes : ℤ := 1024

def dlaIp0CsrAddr : ℤ := 0x00038000
def ingressSgdmaCsrAddr : ℤ := 0x00030000
def ingressSgdmaDescriptorAddr : ℤ := 0x00030020
def egressSgdmaCsrAddr : ℤ := 0x00030040
def egressSgdmaDescriptorAddr : ℤ := 0x00030060

/-! ### Events -/

/-- A file by its path; without `data` there is no such file. -/
structure File where
  path : String
  data : Option Bytes

/-- Messages that do not stop the run. -/
inductive Warning
  | inputPartitioned (inputFile : String)
  | outputPartitioned
  deriving DecidableEq

inductive Event
  | masterWrite32 (address value : ℤ)
  | masterRead32 (address value : ℤ)
  | masterWriteFromFile (data : Bytes) (address : ℤ)
  | masterReadToFile (address size : ℤ) (data : Bytes)
  | isspWriteSourceData (value : ℤ)
  | puts (warning : Warning)
  /-- `output$i.bin` is created, empty. -/
  | openOutput (i : ℕ)
  /-- `data` is appended to `output$i.bin`. -/
  | putsOutput (i : ℕ) (data : Bytes)
  deriving DecidableEq

/-- Why a run stops: `exit 1` after a message, or an error that nothing catches. -/
inductive Stop
  | numberOfInferences
  | noSuchFile (inputFile : String)
  | inputNotAligned
  | noCvec
  | egressTransferCalculation
  | inputTooLarge (inputFile : String)
  | seek (offset : ℤ)
  | registerPollingTimeout (registerAddr registerVal registerValAssert : ℤ)
  | completionCounter (formattedCounterAssert completionCounterResult : ℤ)
  | egressDescriptorFull
  | ingressDescriptorFull
  | divideByZero
  deriving DecidableEq

abbrev Proc := Script Event Stop

/-- The board: what a register holds and what the on-chip memory holds, after the events
so far. -/
structure Hardware where
  register : List Event → ℤ → ℤ
  memory : List Event → ℤ → ℤ → Bytes

variable (hw : Hardware)

def masterWrite32 (address value : ℤ) : Proc Unit := emit (.masterWrite32 address value)

def masterRead32 (address : ℤ) : Proc ℤ :=
  ask (fun l => hw.register l address) fun value => .masterRead32 address value

/-! ### Arguments -/

/-- `%`, which takes the sign of the divisor. -/
def remainder (a b : ℤ) : Proc ℤ := if b = 0 then stop .divideByZero else pure (a.fmod b)

/-- Returns the size of the input file. -/
def validateArgs (inputFile : File) (numInferences : ℤ) : Proc ℤ := do
  when (numInferences < 0) (stop .numberOfInferences)
  match inputFile.data with
  | none => stop (.noSuchFile inputFile.path)
  | some data => do
    let fileSize : ℤ := data.length
    when (fileSize.fmod axiStreamDataWidthBytes ≠ 0) (stop .inputNotAligned)
    return fileSize

/-- The `c_vector` entry of an architecture file, if it has one. -/
def parseCvec (archFile : Option ℤ) : Proc ℤ :=
  match archFile with
  | none => stop .noCvec
  | some cvec => pure cvec

/-- The further transfer of a pixel: `&&` does not look at `C % CVEC` unless its left side
holds. -/
def furtherTransfer (C CVEC axiStreamDataWidthElements : ℤ) : Proc ℤ :=
  if C.fmod axiStreamDataWidthElements = 0 then do
    let r ← remainder C CVEC
    return if r = 0 then 0 else 1
  else pure 0

def calulateEgressAxiTransfers (C H W CVEC : ℤ) : Proc ℤ := do
  let axiStreamDataWidthElements := axiStreamDataWidthBytes.fdiv 2
  let N := H * W
  let further ← furtherTransfer C CVEC axiStreamDataWidthElements
  let perPixel :=
    (C + axiStreamDataWidthElements - 1).fdiv axiStreamDataWidthElements + further
  let lastPixel := (C + axiStreamDataWidthElements - 1).fdiv axiStreamDataWidthElements
  let totalValidTransfers := (N - 1) * perPixel + lastPixel
  let outputStreamerTransfersBytes := totalValidTransfers * axiStreamDataWidthBytes
  when (outputStreamerTransfersBytes ≤ 0 ∨
      outputStreamerTransfersBytes.fmod axiStreamDataWidthBytes ≠ 0)
    (stop .egressTransferCalculation)
  when (outputStreamerTransfersBytes > egressOnChipMemorySizeBytes)
    (emit (.puts .outputPartitioned))
  return outputStreamerTransfersBytes

/-! ### The board -/

def assertReset : Proc Unit := do
  emit (.isspWriteSourceData 0x0)
  emit (.isspWriteSourceData 0x1)

def initializeCoredla : Proc Unit := do
  masterWrite32 (dlaIp0CsrAddr + 0x220) 0
  masterWrite32 (dlaIp0CsrAddr + 0x204) 0
  masterWrite32 (dlaIp0CsrAddr + 0x200) 3
  masterWrite32 (dlaIp0CsrAddr + 0x22c) 1
  masterWrite32 (egressSgdmaCsrAddr + 0x4) 0x2
  masterWrite32 (ingressSgdmaCsrAddr + 0x4) 0x2

def stopSgdmas : Proc Unit := do
  masterWrite32 (egressSgdmaCsrAddr + 0x4) 0x20
  masterWrite32 (ingressSgdmaCsrAddr + 0x4) 0x20

def startSgdmas : Proc Unit := do
  masterWrite32 (egressSgdmaCsrAddr + 0x4) 0x00
  masterWrite32 (ingressSgdmaCsrAddr + 0x4) 0x00

def stageInput (inputFile : File) : Proc Unit :=
  match inputFile.data with
  | none => stop (.noSuchFile inputFile.path)
  | some data => emit (.masterWriteFromFile data 0x00200000)

def queueEgressDescriptor (size : ℤ) : Proc Unit := do
  masterWrite32 (egressSgdmaDescriptorAddr + 0x4) 0x00280000
  masterWrite32 (egressSgdmaDescriptorAddr + 0x8) size
  masterWrite32 (egressSgdmaDescriptorAddr + 0xc) 0x80000000

def queueIngressDescriptor (size : ℤ) : Proc Unit := do
  masterWrite32 ingressSgdmaDescriptorAddr 0x00200000
  masterWrite32 (ingressSgdmaDescriptorAddr + 0x8) size
  masterWrite32 (ingressSgdmaDescriptorAddr + 0xc) 0x80000000

/-- The file that is written is what the procedure returns. -/
def readOutput (outputFile : String) (size : ℤ) : Proc File := do
  let data ← ask (fun l => hw.memory l 0x00280000 size) fun data =>
    .masterReadToFile 0x00280000 size data
  return ⟨outputFile, some data⟩

/-- Both sides are compared as 32-bit numbers. -/
def checkInferenceCount (iteration : ℤ) : Proc Unit := do
  let formattedCounterAssert := iteration.fmod (2 ^ 32)
  let completionCounterResult ← masterRead32 hw (dlaIp0CsrAddr + 0x224)
  when (completionCounterResult ≠ formattedCounterAssert)
    (stop (.completionCounter formattedCounterAssert completionCounterResult))

/-- The file with one partition of the input. -/
def createInputBin (partitionData : Bytes) (index : ℕ) : File :=
  ⟨s!"chunk_{index}.bin", some partitionData⟩

/-- The loop of `poll_register` with `timeoutCount` rounds left; `last` was read last. -/
def pollLoop (registerAddr registerValAssert : ℤ) : ℕ → ℤ → Proc Unit
  | 0, last => stop (.registerPollingTimeout registerAddr last registerValAssert)
  | timeoutCount + 1, _ => do
    let registerVal ← masterRead32 hw registerAddr
    if registerVal = registerValAssert then pure ()
    else pollLoop registerAddr registerValAssert timeoutCount registerVal

def pollRegister (registerAddr registerValAssert : ℤ) : Proc Unit :=
  pollLoop hw registerAddr registerValAssert 3000 0

/-- The counters that are read; what is computed of them is only printed. -/
def getPerformance (useCoreClock : Bool) : Proc Unit := do
  let _ ← masterRead32 hw (dlaIp0CsrAddr + if useCoreClock then 0x27c else 0x240)
  let _ ← masterRead32 hw (dlaIp0CsrAddr + if useCoreClock then 0x280 else 0x244)
  let _ ← masterRead32 hw (dlaIp0CsrAddr + 0x248)
  let _ ← masterRead32 hw (dlaIp0CsrAddr + 0x24c)
  let _ ← masterRead32 hw (dlaIp0CsrAddr + 0x27c)
  let _ ← masterRead32 hw (dlaIp0CsrAddr + 0x280)

/-- Bit 2 of a status register. -/
def full (status : ℤ) : Bool := status.toNat.testBit 2

def checkDescriptorBufferFull : Proc Unit := do
  let egressDescriptorStatus ← masterRead32 hw egressSgdmaCsrAddr
  let ingressDescriptorStatus ← masterRead32 hw ingressSgdmaCsrAddr
  when (full egressDescriptorStatus) (stop .egressDescriptorFull)
  when (full ingressDescriptorStatus) (stop .ingressDescriptorFull)

/-! ### Functional run -/

/-- The number of partitions of `size` bytes in a memory of `memory` bytes. -/
def numPartition (size memory : ℤ) : ℕ := ((size + memory - 1).fdiv memory).toNat

/-- The size of partition `j`. -/
def partitionSize (size memory : ℤ) (j : ℕ) : ℤ :=
  let offset := j * memory
  if size - offset < memory then size - offset else memory

/-- One round of the loop over the input. -/
def inputPartition (input : Bytes) (fileSize : ℤ) (j : ℕ) : Proc Unit := do
  let offset := j * ingressOnChipMemorySizeBytes
  let size := partitionSize fileSize ingressOnChipMemorySizeBytes j
  when (offset < 0) (stop (.seek offset))
  let partitionData := (input.drop offset.toNat).take size.toNat
  stageInput (createInputBin partitionData j)
  queueIngressDescriptor size
  pollRegister hw ingressSgdmaCsrAddr 0x00000002

/-- One round of the loop over the output of inference `i`. -/
def outputPartition (outputStreamerTransfers : ℤ) (i j : ℕ) : Proc Unit := do
  let size := partitionSize outputStreamerTransfers egressOnChipMemorySizeBytes j
  queueEgressDescriptor size
  pollRegister hw egressSgdmaCsrAddr 0x00000002
  let outputFile ← readOutput hw s!"partition_out_{j}.bin" size
  emit (.putsOutput i (outputFile.data.getD []))

/-- One inference. -/
def inference (input : Bytes) (fileSize outputStreamerTransfers : ℤ) (i : ℕ) : Proc Unit := do
  emit (.openOutput i)
  forRange (numPartition fileSize ingressOnChipMemorySizeBytes) fun j =>
    inputPartition hw input fileSize j
  forRange (numPartition outputStreamerTransfers egressOnChipMemorySizeBytes) fun j =>
    outputPartition hw outputStreamerTransfers i j
  checkInferenceCount hw i

/-- `main_functional` from `assert_reset` on. -/
def runFunctional (numInferences : ℤ) (inputFile : File)
    (fileSize outputStreamerTransfers : ℤ) : Proc Unit := do
  assertReset
  initializeCoredla
  forRange numInferences.toNat fun i =>
    inference hw (inputFile.data.getD []) fileSize outputStreamerTransfers (i + 1)

def mainFunctional (numInferences : ℤ) (inputFile : File) (C H W : ℤ) (archFile : Option ℤ) :
    Proc Unit := do
  let cvec ← parseCvec archFile
  let fileSize ← validateArgs inputFile numInferences
  when (fileSize > ingressOnChipMemorySizeBytes) (emit (.puts (.inputPartitioned inputFile.path)))
  let outputStreamerTransfers ← calulateEgressAxiTransfers C H W cvec
  runFunctional hw numInferences inputFile fileSize outputStreamerTransfers

/-! ### Performance run -/

/-- One round of the loop that queues the descriptors. -/
def queueDescriptors (fileSize outputStreamerTransfers : ℤ) : Proc Unit := do
  checkDescriptorBufferFull hw
  queueEgressDescriptor outputStreamerTransfers
  queueIngressDescriptor fileSize

/-- `main_performance` from `assert_reset` on. -/
def runPerformance (numInferences : ℕ) (inputFile : File) (fileSize outputStreamerTransfers : ℤ)
    (measureCoreIpThroughput : Bool) : Proc Unit := do
  assertReset
  stageInput inputFile
  initializeCoredla
  stopSgdmas
  forRange numInferences fun _ => queueDescriptors hw fileSize outputStreamerTransfers
  let startCoreStreaming := dlaIp0CsrAddr + 0x284
  when measureCoreIpThroughput (masterWrite32 startCoreStreaming 0)
  startSgdmas
  when measureCoreIpThroughput (masterWrite32 startCoreStreaming 1)
  pollRegister hw (dlaIp0CsrAddr + 0x224) numInferences
  pollRegister hw egressSgdmaCsrAddr 0x00000002
  getPerformance hw measureCoreIpThroughput
  let _ ← readOutput hw "output0.bin" outputStreamerTransfers

def mainPerformance (inputFile : File) (C H W : ℤ) (measureCoreIpThroughput : Bool)
    (archFile : Option ℤ) : Proc Unit := do
  let cvec ← parseCvec archFile
  let numInferences : ℕ := if measureCoreIpThroughput then 1 else 32
  let fileSize ← validateArgs inputFile numInferences
  when (fileSize > ingressOnChipMemorySizeBytes) (stop (.inputTooLarge inputFile.path))
  let outputStreamerTransfers ← calulateEgressAxiTransfers C H W cvec
  runPerformance hw numInferences inputFile fileSize outputStreamerTransfers
    measureCoreIpThroughput

end AlteraWorkshops.FpgaAi
