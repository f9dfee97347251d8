import AlteraWorkshops.OneAi.SlaveEdge

/-! Single bus transfers. A read holds the bus for two cycles, its word is sampled in
the second, and a cycle without a read follows; a write takes one cycle. Between the
transfers the bus may idle for any time. What a transfer does to the slave is stated
once here, from its first cycle to the state after it. -/

namespace AlteraWorkshops.OneAi

variable {g : Generics} {s : State} {i i₁ i₂ i₃ : Ports} {a : BitVec 8} {w : BitVec 32}

inductive BusOp
  | read (address : BitVec 8)
  | write (address : BitVec 8) (data : BitVec 32)
  deriving DecidableEq

/-! ### Cycles -/

structure Ports.Idles (i : Ports) : Prop where
  resetN : i.resetN = true
  noRead : i.avsRead = false
  noWrite : i.avsWrite = false

structure Ports.ReadsAt (i : Ports) (address : BitVec 8) : Prop where
  resetN : i.resetN = true
  read : i.avsRead = true
  noWrite : i.avsWrite = false
  address : i.avsAddress = address

structure Ports.WritesAt (i : Ports) (address : BitVec 8) (data : BitVec 32) : Prop where
  resetN : i.resetN = true
  noRead : i.avsRead = false
  write : i.avsWrite = true
  address : i.avsAddress = address
  data : i.avsWritedata = data

/-- From `s` the transfers are performed in order, one after the other, while
`output_data` reads `d`; each read yields the word sampled in its second cycle. -/
inductive Performs (g : Generics) (d : OutputData) :
    State → List BusOp → List (Option (BitVec 32)) → Prop
  | done (s : State) : Performs g d s [] []
  | idle {s : State} {i : Ports} {ops : List BusOp} {vs : List (Option (BitVec 32))}
      (hi : i.Idles) (h : Performs g d (step g s i) ops vs) : Performs g d s ops vs
  | read {s : State} {i₁ i₂ i₃ : Ports} {address : BitVec 8} {ops : List BusOp}
      {vs : List (Option (BitVec 32))} (hd : s.result.outputData = d)
      (h₁ : i₁.ReadsAt address) (h₂ : i₂.ReadsAt address) (h₃ : i₃.Idles)
      (h : Performs g d (step g (step g (step g s i₁) i₂) i₃) ops vs) :
      Performs g d s (.read address :: ops) (some (step g s i₁).slave.avsReaddata :: vs)
  | write {s : State} {i : Ports} {address : BitVec 8} {data : BitVec 32} {ops : List BusOp}
      {vs : List (Option (BitVec 32))} (hi : i.WritesAt address data)
      (h : Performs g d (step g s i) ops vs) :
      Performs g d s (.write address data :: ops) (none :: vs)

/-! ### The class register -/

/-- The class register of a state. -/
def State.classes (s : State) : BitVec 4 := s.slave.currentUserPosition.currentClasses

/-- No read of 0x04 is in progress. -/
def State.Released (s : State) : Prop := s.slave.avsReadReg = false

theorem Ports.reads_of_idle (hr : i.avsRead = false) (a : BitVec 8) : i.reads a = false := by
  rw [Ports.reads, hr, Bool.false_and]

theorem Ports.ReadsAt.reads_four (h : i.ReadsAt a) : i.reads 4 = (a == 4) := by
  rw [Ports.reads, h.read, h.address, Bool.true_and]

theorem Ports.writesClasses_of_noWrite (h : i.avsWrite = false) : i.writesClasses = false := by
  rw [Ports.writesClasses, h, Bool.false_and]

theorem released_of_noRead (hn : i.resetN = true) (hr : i.avsRead = false) :
    (step g s i).Released := by
  show (slaveProcess g s i).avsReadReg = false
  rw [slave_avsReadReg hn, hr, Bool.false_and]

theorem classes_idle (h : i.Idles) : (step g s i).classes = s.classes := by
  show (step g s i).slave.currentUserPosition.currentClasses = _
  rw [step_classes h.resetN, Ports.reads_of_idle h.noRead,
    Ports.writesClasses_of_noWrite h.noWrite]
  rfl

/-- The first cycle of a read of 0x04 advances the class register. -/
theorem classes_auto (h : i.ReadsAt 4) (hs : s.Released) :
    (step g s i).classes = if s.classes.toNat < 9 then s.classes + 1 else 0 := by
  show (step g s i).slave.currentUserPosition.currentClasses = _
  rw [step_classes h.resetN, h.reads_four, hs]
  rfl

/-- Neither the second cycle nor a read of another register does. -/
theorem classes_read (h : i.ReadsAt a) (ha : a ≠ 4 ∨ s.slave.avsReadReg = true) :
    (step g s i).classes = s.classes := by
  show (step g s i).slave.currentUserPosition.currentClasses = _
  have hadv : ((a == 4) && !s.slave.avsReadReg) = false := by
    rcases ha with ha | ha
    · rw [beq_eq_false_iff_ne.mpr ha, Bool.false_and]
    · rw [ha, Bool.not_true, Bool.and_false]
  rw [step_classes h.resetN, h.reads_four, hadv, Ports.writesClasses_of_noWrite h.noWrite]
  rfl

theorem avsReadReg_auto (h : i.ReadsAt 4) : (step g s i).slave.avsReadReg = true := by
  show (slaveProcess g s i).avsReadReg = true
  rw [slave_avsReadReg h.resetN, h.read, h.address]
  rfl

/-! ### Transfers -/

/-- A read of 0x04 samples the entry before the advance and advances once. -/
theorem transfer_auto (hs : s.Released) (h₁ : i₁.ReadsAt 4) (h₂ : i₂.ReadsAt 4)
    (h₃ : i₃.Idles) :
    (step g s i₁).slave.avsReaddata =
        outputAt g s.result.outputData s.slave.currentUserPosition.value ∧
      (step g (step g (step g s i₁) i₂) i₃).classes =
        (if s.classes.toNat < 9 then s.classes + 1 else 0) ∧
      (step g (step g (step g s i₁) i₂) i₃).Released := by
  refine ⟨?_, ?_, released_of_noRead h₃.resetN h₃.noRead⟩
  · exact slave_readdata_output h₁.resetN (.inr (Ports.reads_iff.mpr ⟨h₁.read, h₁.address⟩))
  · rw [classes_idle h₃, classes_read h₂ (.inr (avsReadReg_auto h₁)), classes_auto h₁ hs]

/-- A read of another register leaves the class register alone. -/
theorem transfer_read (ha : a ≠ 4) (h₁ : i₁.ReadsAt a) (h₂ : i₂.ReadsAt a) (h₃ : i₃.Idles) :
    (step g (step g (step g s i₁) i₂) i₃).classes = s.classes ∧
      (step g (step g (step g s i₁) i₂) i₃).Released := by
  refine ⟨?_, released_of_noRead h₃.resetN h₃.noRead⟩
  rw [classes_idle h₃, classes_read h₂ (.inl ha), classes_read h₁ (.inl ha)]

/-- Writing zero to 0x20 selects class 0. -/
theorem transfer_reset (h : i.WritesAt 0x20 0) :
    (step g s i).classes = 0 ∧ (step g s i).Released := by
  refine ⟨?_, released_of_noRead h.resetN h.noRead⟩
  have hw : i.writesClasses = true := by
    rw [Ports.writesClasses, h.write, h.address]
    rfl
  have hhigh : i.writeHigh = 0 := by
    rw [Ports.writeHigh, h.data]
    rfl
  show (step g s i).slave.currentUserPosition.currentClasses = 0
  rw [step_classes h.resetN, Ports.reads_of_idle h.noRead, hw, hhigh]
  rfl

/-! ### Every sequence can be performed -/

/-- The ports in a cycle of a transfer, without a strobe from the CNN. -/
def busPorts (read write : Bool) (address : BitVec 8) (data : BitVec 32) : Ports :=
  { Ports.silent with
    avsAddress := address, avsRead := read, avsWrite := write, avsWritedata := data }

theorem outputData_busPorts (read write : Bool) :
    (step g s (busPorts read write a w)).result.outputData = s.result.outputData := by
  show (resultProcess s (busPorts read write a w)).outputData = _
  simp only [resultProcess, busPorts, Ports.silent, Bool.not_true, Bool.false_eq_true, ↓reduceIte]
  split_ifs <;> rfl

theorem exists_performs (g : Generics) (s : State) (ops : List BusOp) :
    ∃ vs, Performs g s.result.outputData s ops vs := by
  induction ops generalizing s with
  | nil => exact ⟨[], .done s⟩
  | cons op ops ih =>
    cases op with
    | read address =>
      obtain ⟨vs, h⟩ := ih (step g (step g (step g s (busPorts true false address 0))
        (busPorts true false address 0)) (busPorts false false address 0))
      simp only [outputData_busPorts] at h
      exact ⟨_, .read rfl ⟨rfl, rfl, rfl, rfl⟩ ⟨rfl, rfl, rfl, rfl⟩ ⟨rfl, rfl, rfl⟩ h⟩
    | write address data =>
      obtain ⟨vs, h⟩ := ih (step g s (busPorts false true address data))
      rw [outputData_busPorts] at h
      exact ⟨_, .write ⟨rfl, rfl, rfl, rfl, rfl⟩ h⟩

end AlteraWorkshops.OneAi
