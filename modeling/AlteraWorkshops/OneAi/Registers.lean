import AlteraWorkshops.OneAi.SlaveEdge

/-! The position registers 0x10 and 0x20 over whole bus histories: which histories
keep the position inside `OUTPUT_DIMENSIONS`, and what the registers read back. The
write path has the classes in the upper half of 0x20, the read path in the lower. -/

namespace AlteraWorkshops.OneAi

variable {g : Generics} {inp : ℕ → Ports} {t r : ℕ}

/-! ### The position along a run -/

/-- The class register before cycle `t`. -/
def classesAt (g : Generics) (inp : ℕ → Ports) (t : ℕ) : BitVec 4 :=
  (run g inp t).slave.currentUserPosition.currentClasses

theorem classesAt_succ (hn : (inp t).resetN = true) :
    classesAt g inp (t + 1) =
      if (inp t).reads 4 && !(run g inp t).slave.avsReadReg then
        if (classesAt g inp t).toNat < 9 then classesAt g inp t + 1 else 0
      else if (inp t).writesClasses then BitVec.ofNat 4 (inp t).writeHigh
      else classesAt g inp t := step_classes hn

theorem reads_four_of_writesClasses {i : Ports} (h : i.writesClasses = true) :
    i.reads 4 = false := by
  rw [Bool.eq_false_iff, ne_eq, Ports.reads_iff]
  rintro ⟨-, ha⟩
  simp [Ports.writesClasses, ha] at h

theorem classesAt_written (hn : (inp t).resetN = true) (hw : (inp t).writesClasses = true) :
    classesAt g inp (t + 1) = BitVec.ofNat 4 (inp t).writeHigh := by
  rw [classesAt_succ hn, reads_four_of_writesClasses hw, hw, Bool.false_and]
  rfl

/-- A cycle that neither writes the position nor reads 0x04, out of reset. -/
structure Ports.Quiet (i : Ports) : Prop where
  resetN : i.resetN = true
  noWrite : i.writesPosition = false
  noAuto : i.reads 4 = false

theorem Ports.Quiet.writesClasses {i : Ports} (h : i.Quiet) : i.writesClasses = false := by
  by_contra hw
  have := i.writesPosition_of_writesClasses (by simpa using hw)
  rw [h.noWrite] at this
  exact absurd this (by decide)

theorem classesAt_quiet (h : (inp t).Quiet) : classesAt g inp (t + 1) = classesAt g inp t := by
  rw [classesAt_succ h.resetN, h.noAuto, h.writesClasses, Bool.false_and]
  rfl

theorem classesAt_held (htr : t ≤ r) (h : ∀ u, t ≤ u → u < r → (inp u).Quiet) :
    classesAt g inp r = classesAt g inp t := by
  induction r, htr using Nat.le_induction with
  | base => rfl
  | succ n hn ih =>
    rw [classesAt_quiet (h n hn (by omega)), ih fun u h1 h2 => h u h1 (by omega)]

/-! ### Bounds

A cycle keeps the position in its ranges unless it writes a half past the range of its
component. -/

/-- A word written to 0x10 to 0x1F or to 0x20 to 0x2F has both halves in the ranges of the
components they are assigned to. -/
structure Ports.PositionInRange (i : Ports) : Prop where
  width : i.writesHeight = true → i.writeLow < (outputDimensions 0).maxWidth
  height : i.writesHeight = true → i.writeHigh < (outputDimensions 0).maxHeight
  objects : i.writesClasses = true → i.writeLow < (outputDimensions 0).maxObjects
  classes : i.writesClasses = true → i.writeHigh < (outputDimensions 0).maxClasses

theorem writesClasses_of_not_writesHeight {i : Ports} (h : i.writesClasses = true) :
    i.writesHeight = false := by
  simp only [Ports.writesClasses, Bool.and_eq_true, decide_eq_true_eq] at h
  rw [Ports.writesHeight, decide_eq_false (by omega), Bool.and_false]

/-- A read of 0x04 writes nothing: one address serves both. -/
theorem positionInRange_of_reads_four {i : Ports} (h : i.reads 4 = true) :
    i.PositionInRange := by
  obtain ⟨-, ha⟩ := Ports.reads_iff.mp h
  have hh : i.writesHeight = false := by
    rw [Ports.writesHeight, ha]
    exact Bool.and_false _
  have hc : i.writesClasses = false := by
    rw [Ports.writesClasses, ha]
    exact Bool.and_false _
  exact ⟨fun hw => by simp [hh] at hw, fun hw => by simp [hh] at hw,
    fun hw => by simp [hc] at hw, fun hw => by simp [hc] at hw⟩

theorem inBounds_writtenPosition {i : Ports} {p : OutputPosition} (hp : p.InBounds) :
    (i.writtenPosition p).InBounds ↔ i.PositionInRange := by
  unfold Ports.writtenPosition
  by_cases hh : i.writesHeight = true
  · have hc : ¬i.writesClasses = true := fun hc => by
      rw [writesClasses_of_not_writesHeight hc] at hh
      cases hh
    rw [if_pos hh]
    exact ⟨fun h => ⟨fun _ => h.width, fun _ => h.height, fun hw => absurd hw hc,
      fun hw => absurd hw hc⟩, fun h => ⟨h.height hh, h.width hh, hp.objects, hp.classes⟩⟩
  · rw [if_neg hh]
    by_cases hc : i.writesClasses = true
    · rw [if_pos hc]
      exact ⟨fun h => ⟨fun hw => absurd hw hh, fun hw => absurd hw hh, fun _ => h.objects,
        fun _ => h.classes⟩, fun h => ⟨hp.height, hp.width, h.objects hc, h.classes hc⟩⟩
    · rw [if_neg hc]
      exact ⟨fun _ => ⟨fun hw => absurd hw hh, fun hw => absurd hw hh, fun hw => absurd hw hc,
        fun hw => absurd hw hc⟩, fun _ => hp⟩

/-- The advance stays in the ranges from wherever it starts. -/
theorem inBounds_nextPosition (p : PositionRegs) :
    (nextPosition (outputDimensions 0) p.value).InBounds := by
  rw [nextPosition_value]
  refine ⟨Nat.zero_lt_one, Nat.zero_lt_one, Nat.zero_lt_one, ?_⟩
  show (if p.currentClasses.toNat < 9 then p.currentClasses.toNat + 1 else 0) < 10
  split_ifs <;> omega

/-- From a position in its ranges an edge assigns one exactly when it is in reset or writes
no half out of range. -/
theorem inBounds_slaveProcess {s : State} {i : Ports}
    (hp : s.slave.currentUserPosition.value.InBounds) :
    (slaveProcess g s i).currentUserPosition.InBounds ↔
      (i.resetN = true → i.PositionInRange) := by
  cases hn : i.resetN with
  | false =>
    have hzero : (slaveProcess g s i).currentUserPosition = ⟨0, 0, 0, 0⟩ := by
      simp only [slaveProcess, hn, Bool.not_false, ↓reduceIte]
    rw [hzero]
    exact ⟨fun _ h => absurd h Bool.false_ne_true, fun _ => by decide⟩
  | true =>
    rw [slave_position hn, ← inBounds_writtenPosition hp]
    dsimp only
    by_cases ha : (i.reads 4 && !s.slave.avsReadReg) = true
    · have h4 : i.reads 4 = true := ((Bool.and_eq_true _ _).mp ha).1
      rw [if_pos ha, inBounds_writtenPosition hp]
      exact ⟨fun _ _ => positionInRange_of_reads_four h4, fun _ => inBounds_nextPosition _⟩
    · rw [if_neg ha]
      exact ⟨fun h _ => h, fun h => h rfl⟩

theorem checkedStep_ok_iff {s : State} {i : Ports} :
    checkedStep g s i = .ok (step g s i) ↔
      (slaveProcess g s i).currentUserPosition.InBounds := by
  unfold checkedStep
  dsimp only
  split_ifs with h
  · exact iff_of_true rfl h
  · exact iff_of_false (fun hok => by cases hok) h

/-- Where the check passes it is the step of the registers. -/
theorem eq_step_of_checkedStep {s s' : State} {i : Ports} (h : checkedStep g s i = .ok s') :
    s' = step g s i := by
  unfold checkedStep at h
  dsimp only at h
  split_ifs at h
  exact (Except.ok.inj h).symm

theorem checkedRun_ok_iff : checkedRun g inp t = .ok (run g inp t) ↔
    ∀ u < t, (slaveProcess g (run g inp u) (inp u)).currentUserPosition.InBounds := by
  refine (Clocked.checkedTrace_ok_iff fun s i s' => eq_step_of_checkedStep).trans ?_
  exact forall₂_congr fun u _ => checkedStep_ok_iff

/-- The registers hold the position that the last edge assigned, if it is in its ranges. -/
theorem inBounds_succ
    (h : (slaveProcess g (run g inp t) (inp t)).currentUserPosition.InBounds) :
    (run g inp (t + 1)).slave.currentUserPosition.value.InBounds := by
  show (slaveProcess g (run g inp t) (inp t)).currentUserPosition.bits.value.InBounds
  rw [h.value_bits]
  exact h

theorem inBounds_of_inRange (h : ∀ u < t, (inp u).resetN = true → (inp u).PositionInRange) :
    (run g inp t).slave.currentUserPosition.value.InBounds := by
  induction t with
  | zero => exact ⟨Nat.zero_lt_one, Nat.zero_lt_one, Nat.zero_lt_one, Nat.zero_lt_succ 9⟩
  | succ t ih =>
    have hp := ih fun u hu => h u (Nat.lt_succ_of_lt hu)
    exact inBounds_succ ((inBounds_slaveProcess hp).mpr (h t (Nat.lt_succ_self t)))

/-- The run goes on without a range error, with the position inside the dimensions in every
cycle and every read of 0x03 and 0x04 the entry of `output_data` at it, exactly when no
write to 0x10 to 0x2F has a half past the range of its component. -/
theorem position_inBounds_iff (g : Generics) (inp : ℕ → Ports) :
    (∀ t, checkedRun g inp t = .ok (run g inp t) ∧
        (run g inp t).slave.currentUserPosition.value.InBounds ∧
        ((inp t).resetN = true → (inp t).reads 3 = true ∨ (inp t).reads 4 = true →
          ∃ c : Fin 10, c.val = (run g inp t).slave.currentUserPosition.value.currentClasses ∧
            (run g inp (t + 1)).slave.avsReaddata =
              BitVec.ofNat 32 ((run g inp t).result.outputData c).val)) ↔
      ∀ t, (inp t).resetN = true → (inp t).PositionInRange := by
  constructor
  · intro h t
    exact (inBounds_slaveProcess (h t).2.1).mp
      (checkedRun_ok_iff.mp (h (t + 1)).1 t (Nat.lt_succ_self t))
  · intro h t
    have hp : ∀ u, (run g inp u).slave.currentUserPosition.value.InBounds :=
      fun u => inBounds_of_inRange fun v _ => h v
    refine ⟨checkedRun_ok_iff.mpr fun u _ => (inBounds_slaveProcess (hp u)).mpr (h u), hp t,
      fun hn hread => ⟨⟨_, (hp t).classes⟩, rfl, ?_⟩⟩
    exact (slave_readdata_output hn hread).trans (dif_pos (hp t).classes)

/-- One write of `w` to `address` in cycle 0, then a read of `back` in cycle 1. -/
def writeReadPorts (address : BitVec 8) (w : BitVec 32) (back : BitVec 8) (t : ℕ) : Ports :=
  { Ports.silent with
    avsAddress := if t = 0 then address else back, avsRead := t == 1, avsWrite := t == 0
    avsWritedata := w }

/-- Class 10 written to 0x20 is a range error, and the registers hold a position past
`output_data`. -/
theorem position_out_of_bounds :
    (¬∀ (g : Generics) (inp : ℕ → Ports) (t : ℕ), checkedRun g inp t = .ok (run g inp t)) ∧
      ¬∀ (g : Generics) (inp : ℕ → Ports) (t : ℕ),
        (run g inp t).slave.currentUserPosition.value.InBounds := by
  constructor
  · intro h
    have h1 := h ⟨0x80000, fun _ => 0⟩ (writeReadPorts 0x20 0x000A0000 0) 1
    exact absurd (checkedRun_ok_iff.mp h1 0 Nat.zero_lt_one) (by decide)
  · intro h
    have h1 := h ⟨0x80000, fun _ => 0⟩ (writeReadPorts 0x20 0x000A0000 0) 1
    exact absurd h1.classes (by decide)

/-! ### Reading back -/

/-- The halves of a bus word, as the firmware and the register map name them. -/
def lowHalf (v : BitVec 32) : BitVec 32 := v &&& 0xFFFF

def highHalf (v : BitVec 32) : BitVec 32 := (v >>> 16) &&& 0xFFFF

theorem lowHalf_toNat (v : BitVec 32) : (lowHalf v).toNat = v.toNat % 65536 := by
  rw [lowHalf, BitVec.toNat_and]
  exact Nat.and_two_pow_sub_one_eq_mod v.toNat 16

theorem highHalf_toNat (v : BitVec 32) : (highHalf v).toNat = v.toNat / 65536 := by
  rw [highHalf, BitVec.toNat_and, BitVec.toNat_ushiftRight, Nat.shiftRight_eq_div_pow]
  have h : v.toNat / 2 ^ 16 < 2 ^ 16 := by have := v.isLt; omega
  exact (Nat.and_two_pow_sub_one_eq_mod _ 16).trans (Nat.mod_eq_of_lt h)

/-- The components that a word written to 0x10 or 0x20 carries are in range. -/
def PositionWord (address : BitVec 8) (w : BitVec 32) : Prop :=
  if address = 0x10 then
    (lowHalf w).toNat < (outputDimensions 0).maxWidth ∧
      (highHalf w).toNat < (outputDimensions 0).maxHeight
  else
    (lowHalf w).toNat < (outputDimensions 0).maxObjects ∧
      (highHalf w).toNat < (outputDimensions 0).maxClasses

instance (address : BitVec 8) (w : BitVec 32) : Decidable (PositionWord address w) :=
  inferInstanceAs (Decidable (if address = 0x10 then _ else _))

/-- In cycle `t` the register at `address` is written and in cycle `r` it is read,
with neither a position write nor a read of 0x04 in between. -/
structure WriteThenRead (inp : ℕ → Ports) (address : BitVec 8) (t r : ℕ) : Prop where
  register : address = 0x10 ∨ address = 0x20
  later : t < r
  resetN : (inp t).resetN = true
  write : (inp t).avsWrite = true
  writeAt : (inp t).avsAddress = address
  between : ∀ u, t < u → u < r → (inp u).Quiet
  resetN' : (inp r).resetN = true
  read : (inp r).reads address = true

theorem toNat_eq_halves (v : BitVec 32) :
    v.toNat = 65536 * (highHalf v).toNat + (lowHalf v).toNat := by
  rw [lowHalf_toNat, highHalf_toNat]
  omega

theorem halves_toNat {high low : ℕ} (h1 : high < 65536) (h2 : low < 65536) :
    (halves high low).toNat = 65536 * high + low := by
  rw [halves, BitVec.toNat_append, BitVec.toNat_ofNat, BitVec.toNat_ofNat, Nat.mod_eq_of_lt h1,
    Nat.mod_eq_of_lt h2, Nat.shiftLeft_eq, Nat.mul_comm high, ← Nat.two_pow_add_eq_or_of_lt h2]

theorem writeHigh_eq (i : Ports) : i.writeHigh = (highHalf i.avsWritedata).toNat := by
  rw [highHalf_toNat, Ports.writeHigh, BitVec.extractLsb'_toNat, Nat.shiftRight_eq_div_pow]
  have := i.avsWritedata.isLt
  exact Nat.mod_eq_of_lt (by omega)

/-- The word 0x20 reads: the class in its lower half. -/
theorem readdata_objectsClasses (hn : (inp r).resetN = true) (hr : (inp r).reads 0x20 = true) :
    ((run g inp (r + 1)).slave.avsReaddata).toNat = (classesAt g inp r).toNat := by
  show (slaveProcess g (run g inp r) (inp r)).avsReaddata.toNat = _
  have hlt := (classesAt g inp r).isLt
  unfold classesAt at hlt ⊢
  rw [slave_readdata_objectsClasses hn hr, halves_toNat (by omega) (by omega), Nat.mul_zero,
    Nat.zero_add]

theorem readdata_widthHeight (hn : (inp r).resetN = true) (hr : (inp r).reads 0x10 = true) :
    (run g inp (r + 1)).slave.avsReaddata = 0 := slave_readdata_widthHeight hn hr

/-- A word in range that was written to a position register reads back as itself
exactly when it is zero. -/
theorem readback_iff {address : BitVec 8} (h : WriteThenRead inp address t r)
    (hw : PositionWord address (inp t).avsWritedata) :
    (run g inp (r + 1)).slave.avsReaddata = (inp t).avsWritedata ↔ (inp t).avsWritedata = 0 := by
  have hsplit := toNat_eq_halves (inp t).avsWritedata
  rcases h.register with rfl | rfl
  · rw [readdata_widthHeight h.resetN' h.read]
    exact eq_comm
  · have hwc : (inp t).writesClasses = true := by
      simp only [Ports.writesClasses, h.write, h.writeAt]
      decide
    obtain ⟨hlow, hhigh⟩ : (lowHalf (inp t).avsWritedata).toNat < 1 ∧
      (highHalf (inp t).avsWritedata).toNat < 10 := hw
    have hclass : (classesAt g inp r).toNat = (highHalf (inp t).avsWritedata).toNat := by
      rw [classesAt_held h.later fun u h1 h2 => h.between u h1 h2,
        classesAt_written h.resetN hwc, BitVec.toNat_ofNat, writeHigh_eq]
      exact Nat.mod_eq_of_lt (by omega)
    have h0 : (0 : BitVec 32).toNat = 0 := rfl
    rw [← BitVec.toNat_inj, readdata_objectsClasses h.resetN' h.read, hclass, ← BitVec.toNat_inj]
    omega

/-- What `display_ai_status` makes of the words read from 0x10 and 0x20 are the
components of the position: the low halves are the width and the objects, the high
halves the height and the classes. -/
structure Decodes (widthHeight objectsClasses : BitVec 32) (p q : PositionRegs) : Prop where
  width : (lowHalf widthHeight).toNat = p.currentWidth.toNat
  height : (highHalf widthHeight).toNat = p.currentHeight.toNat
  objects : (lowHalf objectsClasses).toNat = q.currentObjects.toNat
  classes : (highHalf objectsClasses).toNat = q.currentClasses.toNat

theorem decodes_iff {r₁ r₂ : ℕ} (hn₁ : (inp r₁).resetN = true) (hn₂ : (inp r₂).resetN = true)
    (h₁ : (inp r₁).reads 0x10 = true) (h₂ : (inp r₂).reads 0x20 = true) :
    Decodes (run g inp (r₁ + 1)).slave.avsReaddata (run g inp (r₂ + 1)).slave.avsReaddata
        (run g inp r₁).slave.currentUserPosition (run g inp r₂).slave.currentUserPosition ↔
      classesAt g inp r₂ = 0 := by
  have hlt := (classesAt g inp r₂).isLt
  have hword := readdata_objectsClasses (g := g) hn₂ h₂
  rw [← BitVec.toNat_inj]
  constructor
  · intro h
    have hc : (classesAt g inp r₂).toNat = _ := h.classes.symm
    rw [highHalf_toNat, hword] at hc
    show (classesAt g inp r₂).toNat = 0
    omega
  · intro h
    have h0 : (classesAt g inp r₂).toNat = 0 := h
    refine ⟨?_, ?_, ?_, ?_⟩
    · rw [readdata_widthHeight hn₁ h₁, PositionRegs.currentWidth_toNat]
      rfl
    · rw [readdata_widthHeight hn₁ h₁, PositionRegs.currentHeight_toNat]
      rfl
    · rw [lowHalf_toNat, hword, h0, PositionRegs.currentObjects_toNat]
    · rw [highHalf_toNat, hword, h0]
      exact h0.symm

/-- Both directions of the packing agree exactly for class 0: of the words in range
only zero reads back as written, and the firmware decodes the position exactly when
its class is 0. -/
theorem position_format_iff (g : Generics) (inp : ℕ → Ports) :
    (∀ address t r, WriteThenRead inp address t r →
        PositionWord address (inp t).avsWritedata →
        ((run g inp (r + 1)).slave.avsReaddata = (inp t).avsWritedata ↔
          (inp t).avsWritedata = 0)) ∧
      ∀ r₁ r₂, (inp r₁).resetN = true → (inp r₂).resetN = true →
        (inp r₁).reads 0x10 = true → (inp r₂).reads 0x20 = true →
        (Decodes (run g inp (r₁ + 1)).slave.avsReaddata (run g inp (r₂ + 1)).slave.avsReaddata
            (run g inp r₁).slave.currentUserPosition (run g inp r₂).slave.currentUserPosition ↔
          classesAt g inp r₂ = 0) :=
  ⟨fun _ _ _ h hw => readback_iff h hw, fun _ _ hn₁ hn₂ h₁ h₂ => decodes_iff hn₁ hn₂ h₁ h₂⟩

theorem writeReadPorts_writeThenRead (w : BitVec 32) :
    WriteThenRead (writeReadPorts 0x20 w 0x20) 0x20 0 1 where
  register := .inr rfl
  later := by decide
  resetN := rfl
  write := rfl
  writeAt := rfl
  between u h1 h2 := by omega
  resetN' := rfl
  read := rfl

/-- Class 5 is written to 0x20 in cycle 0 and class 0 in cycle 4. The register is read in
the cycles 2 and 6, and 0x10 in cycle 3. -/
def twoClassesPorts (t : ℕ) : Ports :=
  { Ports.silent with
    avsAddress := if t = 3 then 0x10 else 0x20
    avsRead := t == 2 || t == 3 || t == 6
    avsWrite := t == 0 || t == 4
    avsWritedata := if t = 0 then 0x00050000 else 0 }

theorem twoClassesPorts_writeThenRead (ht : t = 0 ∨ t = 4) :
    WriteThenRead twoClassesPorts 0x20 t (t + 2) where
  register := .inr rfl
  later := by omega
  resetN := rfl
  write := by rcases ht with rfl | rfl <;> rfl
  writeAt := by rcases ht with rfl | rfl <;> rfl
  between u h1 h2 := by
    obtain rfl : u = t + 1 := by omega
    rcases ht with rfl | rfl <;> exact ⟨rfl, rfl, rfl⟩
  resetN' := rfl
  read := by rcases ht with rfl | rfl <;> rfl

/-- Class 5 does not come back and is not decoded, class 0 is. -/
theorem position_format_two :
    let s := run ⟨0x80000, fun _ => 0⟩ twoClassesPorts
    let p (t : ℕ) := (s t).slave.currentUserPosition
    let word (t : ℕ) := (twoClassesPorts t).avsWritedata
    ((s 3).slave.avsReaddata = word 0 ↔ word 0 = 0) ∧
      ((s 7).slave.avsReaddata = word 4 ↔ word 4 = 0) ∧
      (Decodes (s 4).slave.avsReaddata (s 3).slave.avsReaddata (p 3) (p 2) ↔
        (p 2).currentClasses = 0) ∧
      (Decodes (s 4).slave.avsReaddata (s 7).slave.avsReaddata (p 3) (p 6) ↔
        (p 6).currentClasses = 0) ∧
      word 0 ≠ 0 ∧ word 4 = 0 ∧ (p 2).currentClasses = 5 ∧ (p 6).currentClasses = 0 := by
  obtain ⟨hback, hdecodes⟩ := position_format_iff ⟨0x80000, fun _ => 0⟩ twoClassesPorts
  exact ⟨hback 0x20 0 2 (twoClassesPorts_writeThenRead (.inl rfl)) (by decide),
    hback 0x20 4 6 (twoClassesPorts_writeThenRead (.inr rfl)) (by decide),
    hdecodes 3 2 rfl rfl rfl rfl, hdecodes 3 6 rfl rfl rfl rfl, by decide⟩

/-- Class 5 written to 0x20 comes back in the lower half. -/
theorem position_format_swapped :
    ¬∀ (g : Generics) (inp : ℕ → Ports),
      (∀ address t r, WriteThenRead inp address t r →
        PositionWord address (inp t).avsWritedata →
        (run g inp (r + 1)).slave.avsReaddata = (inp t).avsWritedata) ∧
      ∀ r₁ r₂, (inp r₁).resetN = true → (inp r₂).resetN = true →
        (inp r₁).reads 0x10 = true → (inp r₂).reads 0x20 = true →
        Decodes (run g inp (r₁ + 1)).slave.avsReaddata (run g inp (r₂ + 1)).slave.avsReaddata
          (run g inp r₁).slave.currentUserPosition (run g inp r₂).slave.currentUserPosition := by
  intro h
  have hback := (h ⟨0x80000, fun _ => 0⟩ (writeReadPorts 0x20 0x00050000 0x20)).1 0x20 0 1
    (writeReadPorts_writeThenRead _) (by decide)
  exact absurd hback (by decide)

end AlteraWorkshops.OneAi
