import AlteraWorkshops.ImageSource.Status
import AlteraWorkshops.OneAi.PixelPhases

/-! The Tcl procedures of the System Console as lists of bus writes, and what these
writes do: to the registers of `image_source`, to the run register of the video frame
writer and to the video memory. Paint and camera leave their configurations behind
whatever was there before, and paint leaves the file in the memory. -/

namespace AlteraWorkshops.Lab

open OneAi (setWord bufferWord byteOf_bufferWord)

/-! ### The Tcl procedures -/

/-- `master_write_32` with one value. -/
structure BusWrite where
  address : ℕ
  data : BitVec 32
  deriving DecidableEq

def vvpVfwRunAddr : ℕ := 0x2216C
def vvpVfwCommitAddr : ℕ := 0x22164
def pio2IrqAddr : ℕ := 0x10400

/-- The start of the image in the video memory. -/
def imageBufferAddr : ℕ := 0x80000

def disableVfw : List BusWrite :=
  [⟨pio2IrqAddr + 0x04, 0⟩, ⟨vvpVfwRunAddr, 0⟩, ⟨vvpVfwCommitAddr, 0⟩, ⟨pio2IrqAddr + 0x08, 2⟩]

def enableVfw : List BusWrite :=
  [⟨pio2IrqAddr + 0x04, 2⟩, ⟨vvpVfwRunAddr, 1⟩, ⟨vvpVfwCommitAddr, 0⟩]

def enableJfw : List BusWrite := [⟨pio2IrqAddr + 0x04, 1⟩]

/-- Byte `i` of a file. -/
def fileByte (chan : List (BitVec 8)) (i : ℕ) : BitVec 8 := chan.getD i 0

/-- Word `j` of a file on its way to the image buffer. -/
def imageWrite (chan : List (BitVec 8)) (j : ℕ) : BusWrite :=
  ⟨imageBufferAddr + 4 * j, bufferWord (fileByte chan) j⟩

/-- `master_write_from_file`: the whole words of the file, in order. -/
def importRGB (chan : List (BitVec 8)) : List BusWrite :=
  (List.range (chan.length / 4)).map (imageWrite chan)

def paint (digit : List (BitVec 8)) : List BusWrite := disableVfw ++ enableJfw ++ importRGB digit

def camera : List BusWrite := enableVfw

/-! ### The addressed hardware -/

structure Hardware where
  source : ImageSource.State
  vfwRun : BitVec 32
  /-- from `imageBufferAddr` on -/
  memory : ℕ → BitVec 8

def BusWrite.toSource (w : BusWrite) : Bool :=
  pio2IrqAddr ≤ w.address && w.address < pio2IrqAddr + 0x10

/-- The ports of `image_source` in the cycle of a write. -/
def BusWrite.sourcePorts (w : BusWrite) : ImageSource.Ports :=
  { ImageSource.Ports.silent with
    s0Address := BitVec.ofNat 2 ((w.address - pio2IrqAddr) / 4)
    s0Write := w.toSource
    s0Chipselect := w.toSource
    s0Writedata := w.data
    s0Byteenable := 0b1111#4 }

/-- A write to the video memory changes one word, any other write none. -/
def store (memory : ℕ → BitVec 8) (w : BusWrite) : ℕ → BitVec 8 :=
  if imageBufferAddr ≤ w.address then setWord memory ((w.address - imageBufferAddr) / 4) w.data
  else memory

def Hardware.write (h : Hardware) (w : BusWrite) : Hardware where
  source := ImageSource.write h.source w.sourcePorts
  vfwRun := if w.address = vvpVfwRunAddr then w.data else h.vfwRun
  memory := store h.memory w

def Hardware.perform (h : Hardware) (ws : List BusWrite) : Hardware := ws.foldl Hardware.write h

/-- `exportRGB`: `master_read_to_file` of 65536 bytes. -/
def exportRGB (h : Hardware) : List (BitVec 8) := (List.range 65536).map h.memory

/-- The pulse is the only interrupt source and the frame writer is stopped. -/
structure PaintConfig (h : Hardware) : Prop where
  irqEn : h.source.irqEn = 1
  vfwRun : h.vfwRun = 0

/-- The interrupt of the frame writer is passed on and the frame writer runs. -/
structure CameraConfig (h : Hardware) : Prop where
  irqEn : h.source.irqEn = 2
  vfwRun : h.vfwRun = 1

theorem PaintConfig.not_camera {h : Hardware} (hp : PaintConfig h) : ¬CameraConfig h := by
  intro hc
  exact absurd (hp.irqEn.symm.trans hc.irqEn) (by decide)

/-! ### Performing the procedures -/

theorem Hardware.perform_append (h : Hardware) (ws ws' : List BusWrite) :
    h.perform (ws ++ ws') = (h.perform ws).perform ws' := List.foldl_append

theorem Hardware.perform_cons (h : Hardware) (w : BusWrite) (ws : List BusWrite) :
    h.perform (w :: ws) = (h.write w).perform ws := rfl

theorem store_imageWrite (memory : ℕ → BitVec 8) (chan : List (BitVec 8)) (j : ℕ) :
    store memory (imageWrite chan j) = setWord memory j (bufferWord (fileByte chan) j) := by
  have hj : (imageBufferAddr + 4 * j - imageBufferAddr) / 4 = j := by omega
  rw [store, imageWrite, if_pos (Nat.le_add_right ..), hj]

/-- A write to the image leaves the registers alone. -/
theorem write_imageWrite (h : Hardware) (chan : List (BitVec 8)) (j : ℕ) :
    h.write (imageWrite chan j) =
      { h with memory := setWord h.memory j (bufferWord (fileByte chan) j) } := by
  have hsource : (imageWrite chan j).toSource = false := by
    have hle : pio2IrqAddr + 0x10 ≤ imageBufferAddr := by decide
    rw [BusWrite.toSource, Bool.and_eq_false_iff]
    exact .inr (decide_eq_false (show ¬imageBufferAddr + 4 * j < pio2IrqAddr + 0x10 by omega))
  have hvfw : (imageWrite chan j).address ≠ vvpVfwRunAddr := by
    have hlt : vvpVfwRunAddr < imageBufferAddr := by decide
    simp only [imageWrite]
    omega
  have hsilent : ImageSource.write h.source (imageWrite chan j).sourcePorts = h.source := by
    simp [ImageSource.write, ImageSource.Ports.csW, BusWrite.sourcePorts, hsource]
  rw [Hardware.write, hsilent, if_neg hvfw, store_imageWrite]

theorem Hardware.perform_memory (h : Hardware) (ws : List BusWrite) :
    (h.perform ws).memory = ws.foldl store h.memory := by
  induction ws generalizing h with
  | nil => rfl
  | cons w ws ih => exact ih (h.write w)

/-- What a write leaves in IRQ_EN. -/
def writeIrqEn (irqEn : BitVec 2) (w : BusWrite) : BitVec 2 :=
  if w.sourcePorts.writes 1 then w.data.extractLsb' 0 2 else irqEn

theorem Hardware.perform_irqEn (h : Hardware) (ws : List BusWrite) :
    (h.perform ws).source.irqEn = ws.foldl writeIrqEn h.source.irqEn := by
  induction ws generalizing h with
  | nil => rfl
  | cons w ws ih =>
    rw [Hardware.perform_cons, ih, List.foldl_cons, Hardware.write, ImageSource.write_irqEn]
    rfl

/-- After the first `n` words of the file the memory holds the file so far. -/
theorem store_imageWrites (memory : ℕ → BitVec 8) (chan : List (BitVec 8)) (n : ℕ) :
    ((List.range n).map (imageWrite chan)).foldl store memory =
      fun o => if o < 4 * n then fileByte chan o else memory o := by
  induction n with
  | zero => simp
  | succ n ih =>
    rw [List.range_succ, List.map_append, List.foldl_append, ih]
    show store _ (imageWrite chan n) = _
    rw [store_imageWrite]
    funext o
    show (if o / 4 = n then _ else if o < 4 * n then fileByte chan o else memory o) = _
    have hbyte := byteOf_bufferWord (fileByte chan) (o / 4) (o % 4) (Nat.mod_lt o (by decide))
    rw [Nat.div_add_mod] at hbyte
    by_cases hword : o / 4 = n
    · rw [if_pos hword, if_pos (by omega), ← hword, hbyte]
    · rw [if_neg hword]
      split_ifs <;> first | rfl | omega

/-- The import leaves the registers alone. -/
theorem perform_imageWrites (h : Hardware) (chan : List (BitVec 8)) (js : List ℕ) :
    h.perform (js.map (imageWrite chan)) =
      { h with memory := (js.map (imageWrite chan)).foldl store h.memory } := by
  induction js generalizing h with
  | nil => rfl
  | cons j js ih =>
    rw [List.map_cons, Hardware.perform_cons, ih, write_imageWrite, List.foldl_cons,
      store_imageWrite]

theorem perform_importRGB (h : Hardware) (chan : List (BitVec 8)) :
    h.perform (importRGB chan) = { h with
      memory := fun o => if o < 4 * (chan.length / 4) then fileByte chan o else h.memory o } := by
  rw [importRGB, perform_imageWrites, store_imageWrites]

/-- The registers before the import. -/
theorem perform_enableJfw (h : Hardware) :
    ((h.perform disableVfw).perform enableJfw).source.irqEn = 1 ∧
      ((h.perform disableVfw).perform enableJfw).vfwRun = 0 ∧
      ((h.perform disableVfw).perform enableJfw).memory = h.memory := by
  refine ⟨?_, rfl, rfl⟩
  rw [Hardware.perform_irqEn]
  rfl

/-- `paint` leaves the paint configuration and the file in the memory. -/
theorem perform_paint (h : Hardware) (digit : List (BitVec 8)) :
    PaintConfig (h.perform (paint digit)) ∧
      (h.perform (paint digit)).memory = fun o =>
        if o < 4 * (digit.length / 4) then fileByte digit o else h.memory o := by
  obtain ⟨hirq, hrun, hmemory⟩ := perform_enableJfw h
  rw [paint, Hardware.perform_append, Hardware.perform_append, perform_importRGB]
  exact ⟨⟨hirq, hrun⟩, by rw [hmemory]⟩

/-- `camera` leaves the camera configuration. -/
theorem perform_camera (h : Hardware) : CameraConfig (h.perform camera) := by
  refine ⟨?_, rfl⟩
  rw [Hardware.perform_irqEn]
  rfl

end AlteraWorkshops.Lab
