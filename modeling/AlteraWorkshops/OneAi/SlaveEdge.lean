import AlteraWorkshops.OneAi.PixelEdge

/-! What one clock edge can do to the register slave. There is one output with one
row, column and object, so the registers of the position are its class register. -/

namespace AlteraWorkshops.OneAi

variable {g : Generics} {s : State} {i : Ports}

@[simp] theorem step_slave (g : Generics) (s : State) (i : Ports) :
    (step g s i).slave = (slaveProcess g s i).map OutputPosition.bits := rfl

@[simp] theorem step_result (g : Generics) (s : State) (i : Ports) :
    (step g s i).result = resultProcess s i := rfl

/-! ### The user position -/

@[simp] theorem PositionRegs.currentHeight_toNat (p : PositionRegs) :
    p.currentHeight.toNat = 0 := by
  rw [Subsingleton.elim p.currentHeight 0]
  rfl

@[simp] theorem PositionRegs.currentWidth_toNat (p : PositionRegs) :
    p.currentWidth.toNat = 0 := by
  rw [Subsingleton.elim p.currentWidth 0]
  rfl

@[simp] theorem PositionRegs.currentObjects_toNat (p : PositionRegs) :
    p.currentObjects.toNat = 0 := by
  rw [Subsingleton.elim p.currentObjects 0]
  rfl

theorem PositionRegs.value_eq (p : PositionRegs) :
    p.value = ⟨0, 0, 0, p.currentClasses.toNat⟩ := by
  simp only [PositionRegs.value, currentHeight_toNat, currentWidth_toNat, currentObjects_toNat]

/-- The registers hold every position in its ranges. -/
theorem OutputPosition.InBounds.value_bits {p : OutputPosition} (h : p.InBounds) :
    p.bits.value = p := by
  obtain ⟨height, width, objects, classes⟩ := p
  obtain ⟨hh, hw, ho, hc⟩ := h
  simp only [outputDimensions] at hh hw ho hc
  obtain ⟨rfl, rfl, rfl⟩ : height = 0 ∧ width = 0 ∧ objects = 0 := by omega
  have hmod : classes % 2 ^ 4 = classes := Nat.mod_eq_of_lt (by omega)
  rw [PositionRegs.value_eq, OutputPosition.bits, BitVec.toNat_ofNat, hmod]

/-- The auto-increment advances the class alone: the carries into the other counters
find them at their ends. -/
theorem nextPosition_value (n : ℕ) (p : PositionRegs) :
    nextPosition (outputDimensions n) p.value =
      ⟨0, 0, 0, if p.currentClasses.toNat < 9 then p.currentClasses.toNat + 1 else 0⟩ := by
  rw [PositionRegs.value_eq]
  by_cases h9 : p.currentClasses.toNat < 9
  · rw [if_pos h9]
    exact if_pos h9
  · rw [if_neg h9]
    exact if_neg h9

/-- The advance counts modulo the classes. -/
theorem nextClass_toNat {c : BitVec 4} (hc : c.toNat < 10) :
    (if c.toNat < 9 then c + 1 else 0).toNat = (c.toNat + 1) % 10 := by
  have h1 : (1 : BitVec 4).toNat = 1 := rfl
  have h0 : (0 : BitVec 4).toNat = 0 := rfl
  split_ifs with h9
  · rw [BitVec.toNat_add]
    omega
  · omega

/-! ### Bus cycles -/

/-- A read of the register at `address` in this cycle. -/
def Ports.reads (i : Ports) (address : BitVec 8) : Bool := i.avsRead && i.avsAddress == address

/-- A write to the width and height register, which answers at 0x10 to 0x1F. -/
def Ports.writesHeight (i : Ports) : Bool :=
  i.avsWrite && decide (16 ≤ i.avsAddress.toNat ∧ i.avsAddress.toNat ≤ 31)

/-- A write to the objects and classes register, which answers at 0x20 to 0x2F. -/
def Ports.writesClasses (i : Ports) : Bool :=
  i.avsWrite && decide (32 ≤ i.avsAddress.toNat ∧ i.avsAddress.toNat ≤ 47)

/-- A write to one of the position registers, 0x10 to 0x2F. -/
def Ports.writesPosition (i : Ports) : Bool :=
  i.avsWrite && decide (16 ≤ i.avsAddress.toNat ∧ i.avsAddress.toNat ≤ 47)

/-- The halves of the write data. -/
def Ports.writeLow (i : Ports) : ℕ := (i.avsWritedata.extractLsb' 0 16).toNat

def Ports.writeHigh (i : Ports) : ℕ := (i.avsWritedata.extractLsb' 16 16).toNat

theorem Ports.reads_iff {a : BitVec 8} :
    i.reads a = true ↔ i.avsRead = true ∧ i.avsAddress = a := by
  simp [Ports.reads]

theorem Ports.writesPosition_of_writesClasses (h : i.writesClasses = true) :
    i.writesPosition = true := by
  simp only [Ports.writesClasses, Ports.writesPosition, Bool.and_eq_true, decide_eq_true_eq] at h ⊢
  exact ⟨h.1, by omega, h.2.2⟩

theorem slaveWrite_position (r : SlaveRegs OutputPosition) (a : BitVec 8) (w : BitVec 32) :
    (slaveWrite r a w).currentUserPosition =
      let p := r.currentUserPosition
      if 16 ≤ a.toNat ∧ a.toNat ≤ 31 then
        { p with
          currentWidth := (w.extractLsb' 0 16).toNat
          currentHeight := (w.extractLsb' 16 16).toNat }
      else if 32 ≤ a.toNat ∧ a.toNat ≤ 47 then
        { p with
          currentObjects := (w.extractLsb' 0 16).toNat
          currentClasses := (w.extractLsb' 16 16).toNat }
      else p := by
  unfold slaveWrite
  dsimp only
  split_ifs <;> first | rfl | omega

/-- A write leaves everything else of the slave alone. -/
theorem slaveWrite_frame (r : SlaveRegs OutputPosition) (a : BitVec 8) (w : BitVec 32) :
    (slaveWrite r a w).newImageRead = r.newImageRead ∧
      (slaveWrite r a w).avsReadReg = r.avsReadReg := by
  unfold slaveWrite
  dsimp only
  split_ifs <;> exact ⟨rfl, rfl⟩

theorem slaveRead_newImageRead (a : BitVec 8) (r : SlaveRegs OutputPosition) :
    (slaveRead g s a r).newImageRead = if a.toNat = 0 then true else r.newImageRead := by
  simp only [slaveRead, apply_ite SlaveRegs.newImageRead, ite_self]

/-- Only a read of 0x04 touches the position and the variable. -/
theorem slaveRead_frame {a : BitVec 8} (r : SlaveRegs OutputPosition) (h4 : a.toNat ≠ 4) :
    (slaveRead g s a r).currentUserPosition = r.currentUserPosition ∧
      (slaveRead g s a r).avsReadReg = r.avsReadReg := by
  simp only [slaveRead, h4, ↓reduceIte, apply_ite SlaveRegs.currentUserPosition,
    apply_ite SlaveRegs.avsReadReg, ite_self, and_self]

/-- A read of 0x04 advances the position when it is not already in progress. -/
theorem slaveRead_auto (r : SlaveRegs OutputPosition) :
    slaveRead g s 4 r =
      let p := s.slave.currentUserPosition.value
      if s.slave.avsReadReg then { r with avsReaddata := outputAt g s.result.outputData p }
      else
        { r with
          avsReaddata := outputAt g s.result.outputData p
          currentUserPosition := nextPosition (outputDimensions 0) p
          avsReadReg := true } := by
  have hout : s.slave.currentOutput = 0 := Subsingleton.elim _ _
  unfold slaveRead
  dsimp only
  rw [hout]
  cases hr : s.slave.avsReadReg <;> rfl

/-! ### One edge out of reset -/

/-- The registers as the read case finds them: the word cleared, the write done and
the read flag lowered. -/
def afterWrite (s : State) (i : Ports) : SlaveRegs OutputPosition :=
  let r := { s.slave.map PositionRegs.value with avsReaddata := 0 }
  { (if i.avsWrite then slaveWrite r i.avsAddress i.avsWritedata else r) with
    newImageRead := false }

@[simp] theorem afterWrite_avsReadReg : (afterWrite s i).avsReadReg = s.slave.avsReadReg := by
  unfold afterWrite
  by_cases hw : i.avsWrite = true
  · simp only [hw, ↓reduceIte]
    exact (slaveWrite_frame _ _ _).2
  · simp only [hw, Bool.false_eq_true, ↓reduceIte]
    rfl

/-- The position after the write case. -/
def Ports.writtenPosition (i : Ports) (p : OutputPosition) : OutputPosition :=
  if i.writesHeight then { p with currentWidth := i.writeLow, currentHeight := i.writeHigh }
  else if i.writesClasses then
    { p with currentObjects := i.writeLow, currentClasses := i.writeHigh }
  else p

theorem afterWrite_position :
    (afterWrite s i).currentUserPosition =
      i.writtenPosition s.slave.currentUserPosition.value := by
  unfold afterWrite Ports.writtenPosition Ports.writesHeight Ports.writesClasses
  by_cases hw : i.avsWrite = true
  · simp only [hw, ↓reduceIte, slaveWrite_position, Bool.true_and, decide_eq_true_eq]
    rfl
  · simp only [hw, Bool.false_eq_true, ↓reduceIte, Bool.false_and]
    rfl

theorem Ports.writtenPosition_classes (p : OutputPosition) :
    (i.writtenPosition p).currentClasses =
      if i.writesClasses then i.writeHigh else p.currentClasses := by
  unfold Ports.writtenPosition
  by_cases hh : i.writesHeight = true
  · have hc : i.writesClasses = false := by
      simp only [Ports.writesHeight, Bool.and_eq_true, decide_eq_true_eq] at hh
      rw [Ports.writesClasses, decide_eq_false (by omega), Bool.and_false]
    rw [if_pos hh, hc]
    rfl
  · rw [if_neg hh, apply_ite OutputPosition.currentClasses]

theorem slaveProcess_of_read (hn : i.resetN = true) (hr : i.avsRead = true) :
    slaveProcess g s i = slaveRead g s i.avsAddress (afterWrite s i) := by
  simp only [slaveProcess, hn, hr, Bool.not_true, Bool.false_eq_true, ↓reduceIte]
  rfl

theorem slaveProcess_of_idle (hn : i.resetN = true) (hr : i.avsRead = false) :
    slaveProcess g s i = { afterWrite s i with avsReadReg := false } := by
  simp only [slaveProcess, hn, hr, Bool.not_true, Bool.false_eq_true, ↓reduceIte]
  rfl

/-- Reads are told apart by the address as a number in the process. -/
theorem avsAddress_toNat_ne {a : BitVec 8} (h : i.avsAddress ≠ a) :
    i.avsAddress.toNat ≠ a.toNat := fun h' => h (BitVec.eq_of_toNat_eq h')

theorem slave_newImageRead (hn : i.resetN = true) :
    (slaveProcess g s i).newImageRead = i.reads 0 := by
  unfold Ports.reads
  cases hr : i.avsRead with
  | false =>
    rw [slaveProcess_of_idle hn hr]
    rfl
  | true =>
    rw [slaveProcess_of_read hn hr, slaveRead_newImageRead, Bool.true_and]
    by_cases h0 : i.avsAddress = 0
    · rw [h0]
      rfl
    · have h0' : i.avsAddress.toNat ≠ 0 := avsAddress_toNat_ne h0
      rw [if_neg h0', beq_eq_false_iff_ne.mpr h0]
      rfl

theorem slave_avsReadReg (hn : i.resetN = true) :
    (slaveProcess g s i).avsReadReg =
      (i.avsRead && (i.avsAddress == 4 || s.slave.avsReadReg)) := by
  cases hr : i.avsRead with
  | false =>
    rw [slaveProcess_of_idle hn hr]
    rfl
  | true =>
    rw [slaveProcess_of_read hn hr, Bool.true_and]
    by_cases h4 : i.avsAddress = 4
    · rw [h4, slaveRead_auto, beq_self_eq_true, Bool.true_or]
      split_ifs with hv
      · exact afterWrite_avsReadReg.trans hv
      · rfl
    · rw [(slaveRead_frame _ (avsAddress_toNat_ne h4)).2, beq_eq_false_iff_ne.mpr h4,
        Bool.false_or, afterWrite_avsReadReg]

/-- The position after one edge: advanced by the start of an auto-increment read, and
written otherwise. -/
theorem slave_position (hn : i.resetN = true) :
    (slaveProcess g s i).currentUserPosition =
      let p := s.slave.currentUserPosition.value
      if i.reads 4 && !s.slave.avsReadReg then nextPosition (outputDimensions 0) p
      else i.writtenPosition p := by
  dsimp only
  cases hr : i.avsRead with
  | false =>
    rw [slaveProcess_of_idle hn hr, ← afterWrite_position]
    simp only [Ports.reads, hr, Bool.false_and, Bool.false_eq_true, ↓reduceIte]
  | true =>
    rw [slaveProcess_of_read hn hr]
    by_cases h4 : i.avsAddress = 4
    · have hread : i.reads 4 = true := Ports.reads_iff.mpr ⟨hr, h4⟩
      rw [h4, slaveRead_auto, hread, Bool.true_and]
      cases hv : s.slave.avsReadReg with
      | false => rfl
      | true => exact afterWrite_position
    · have hread : i.reads 4 = false := by
        rw [Ports.reads, beq_eq_false_iff_ne.mpr h4, Bool.and_false]
      rw [(slaveRead_frame _ (avsAddress_toNat_ne h4)).1, afterWrite_position, hread]
      rfl

/-- The class register after one edge: advanced by the start of an auto-increment
read, loaded by a write of the objects and classes register, and kept otherwise. -/
theorem step_classes (hn : i.resetN = true) :
    (step g s i).slave.currentUserPosition.currentClasses =
      let c := s.slave.currentUserPosition.currentClasses
      if i.reads 4 && !s.slave.avsReadReg then if c.toNat < 9 then c + 1 else 0
      else if i.writesClasses then BitVec.ofNat 4 i.writeHigh
      else c := by
  show BitVec.ofNat 4 (slaveProcess g s i).currentUserPosition.currentClasses = _
  rw [slave_position hn]
  dsimp only
  split_ifs with ha h9 hw
  · rw [nextPosition_value, if_pos h9, BitVec.ofNat_add, BitVec.ofNat_toNat, BitVec.setWidth_eq]
    rfl
  · rw [nextPosition_value, if_neg h9]
    rfl
  · rw [Ports.writtenPosition_classes, if_pos hw]
  · rw [Ports.writtenPosition_classes, if_neg hw, PositionRegs.value, BitVec.ofNat_toNat,
      BitVec.setWidth_eq]

/-- The bus words that the registers answer with. -/
theorem slave_readdata_ready (hn : i.resetN = true) (h : i.reads 0 = true) :
    (slaveProcess g s i).avsReaddata = BitVec.ofNat 32 s.result.newImageReady.toNat := by
  obtain ⟨hr, ha⟩ := Ports.reads_iff.mp h
  rw [slaveProcess_of_read hn hr, ha]
  rfl

theorem slave_readdata_output (hn : i.resetN = true)
    (h : i.reads 3 = true ∨ i.reads 4 = true) :
    (slaveProcess g s i).avsReaddata =
      outputAt g s.result.outputData s.slave.currentUserPosition.value := by
  have hout : s.slave.currentOutput = 0 := Subsingleton.elim _ _
  rcases h with h | h <;> obtain ⟨hr, ha⟩ := Ports.reads_iff.mp h <;>
    rw [slaveProcess_of_read hn hr, ha]
  · unfold slaveRead
    dsimp only
    rw [hout]
    rfl
  · rw [slaveRead_auto]
    split_ifs <;> rfl

theorem slave_readdata_widthHeight (hn : i.resetN = true) (h : i.reads 0x10 = true) :
    (slaveProcess g s i).avsReaddata = 0 := by
  obtain ⟨hr, ha⟩ := Ports.reads_iff.mp h
  rw [slaveProcess_of_read hn hr, ha]
  simp only [slaveRead, PositionRegs.value_eq]
  rfl

/-- The read path has the objects in the upper half and the classes in the lower. -/
theorem slave_readdata_objectsClasses (hn : i.resetN = true) (h : i.reads 0x20 = true) :
    (slaveProcess g s i).avsReaddata =
      halves 0 s.slave.currentUserPosition.currentClasses.toNat := by
  obtain ⟨hr, ha⟩ := Ports.reads_iff.mp h
  rw [slaveProcess_of_read hn hr, ha]
  simp only [slaveRead, PositionRegs.value_eq]
  rfl

end AlteraWorkshops.OneAi
