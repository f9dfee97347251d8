import AlteraWorkshops.FpgaAi.SystemConsole
import AlteraWorkshops.Blocks.Tiling
import Mathlib.Data.Int.Lemmas

/-! The transfers among the events of a run: what is staged, what the descriptors say, what
is read back and what goes to the output files; and for every procedure which of them it
makes. -/

namespace AlteraWorkshops.FpgaAi

open Effects Script Blocks

/-! ### Transfers -/

inductive Op
  | stage (data : Bytes)
  | queueIngress (size : ℤ)
  | queueEgress (size : ℤ)
  | read (size : ℤ) (data : Bytes)
  | openOutput (i : ℕ)
  | putsOutput (i : ℕ) (data : Bytes)
  deriving DecidableEq

/-- The length register of a descriptor tells which descriptor is queued. -/
def Event.op : Event → Option Op
  | .masterWrite32 address value =>
    if address = ingressSgdmaDescriptorAddr + 0x8 then some (.queueIngress value)
    else if address = egressSgdmaDescriptorAddr + 0x8 then some (.queueEgress value)
    else none
  | .masterWriteFromFile data _ => some (.stage data)
  | .masterReadToFile _ size data => some (.read size data)
  | .openOutput i => some (.openOutput i)
  | .putsOutput i data => some (.putsOutput i data)
  | _ => none

def ops (e : List Event) : List Op := e.filterMap Event.op

@[simp] theorem ops_append (e e' : List Event) : ops (e ++ e') = ops e ++ ops e' :=
  List.filterMap_append

theorem mem_ops_append_left {o : Op} {e : List Event} (e' : List Event) (h : o ∈ ops e) :
    o ∈ ops (e ++ e') := by
  rw [ops_append]
  exact List.mem_append_left _ h

theorem mem_ops_append_right {o : Op} (e : List Event) {e' : List Event} (h : o ∈ ops e') :
    o ∈ ops (e ++ e') := by
  rw [ops_append]
  exact List.mem_append_right _ h

theorem ops_silent {e : List Event} (h : ∀ x ∈ e, x.op = none) : ops e = [] :=
  List.filterMap_eq_nil_iff.mpr h

/-- A procedure that makes no transfer. -/
abbrev Silent {α : Type} (m : Proc α) : Prop := Emits (fun x => x.op = none) m

/-! ### Procedures without a transfer -/

variable {hw : Hardware} {l : List Event}

theorem silent_masterRead32 (address : ℤ) : Silent (masterRead32 hw address) :=
  Emits.ask fun _ => rfl

/-- A register that is not the length of a descriptor. -/
theorem silent_masterWrite32 {address : ℤ} (value : ℤ)
    (hi : address ≠ ingressSgdmaDescriptorAddr + 0x8)
    (he : address ≠ egressSgdmaDescriptorAddr + 0x8) : Silent (masterWrite32 address value) := by
  apply Emits.emit
  rw [Event.op, if_neg hi, if_neg he]

theorem silent_isspWriteSourceData (value : ℤ) :
    Silent (emit (.isspWriteSourceData value) : Proc Unit) := Emits.emit rfl

theorem silent_puts (warning : Warning) : Silent (emit (.puts warning) : Proc Unit) :=
  Emits.emit rfl

theorem silent_assertReset : Silent assertReset :=
  (silent_isspWriteSourceData _).bind fun _ => silent_isspWriteSourceData _

theorem silent_initializeCoredla : Silent initializeCoredla :=
  (silent_masterWrite32 _ (by decide) (by decide)).bind fun _ =>
    (silent_masterWrite32 _ (by decide) (by decide)).bind fun _ =>
      (silent_masterWrite32 _ (by decide) (by decide)).bind fun _ =>
        (silent_masterWrite32 _ (by decide) (by decide)).bind fun _ =>
          (silent_masterWrite32 _ (by decide) (by decide)).bind fun _ =>
            silent_masterWrite32 _ (by decide) (by decide)

theorem silent_stopSgdmas : Silent stopSgdmas :=
  (silent_masterWrite32 _ (by decide) (by decide)).bind fun _ =>
    silent_masterWrite32 _ (by decide) (by decide)

theorem silent_startSgdmas : Silent startSgdmas :=
  (silent_masterWrite32 _ (by decide) (by decide)).bind fun _ =>
    silent_masterWrite32 _ (by decide) (by decide)

theorem silent_parseCvec (archFile : Option ℤ) : Silent (parseCvec archFile) := by
  cases archFile with
  | none => exact Emits.stop _
  | some cvec => exact Emits.pure _

theorem silent_validateArgs (inputFile : File) (numInferences : ℤ) :
    Silent (validateArgs inputFile numInferences) := by
  refine (Emits.when fun _ => Emits.stop _).bind fun _ => ?_
  cases inputFile.data with
  | none => exact Emits.stop _
  | some data => exact (Emits.when fun _ => Emits.stop _).bind fun _ => Emits.pure _

theorem silent_remainder (a b : ℤ) : Silent (remainder a b) := by
  unfold remainder
  split_ifs
  · exact Emits.stop _
  · exact Emits.pure _

theorem silent_furtherTransfer (C CVEC axiStreamDataWidthElements : ℤ) :
    Silent (furtherTransfer C CVEC axiStreamDataWidthElements) := by
  unfold furtherTransfer
  split_ifs
  · exact (silent_remainder _ _).bind fun _ => Emits.pure _
  · exact Emits.pure _

theorem silent_calulateEgressAxiTransfers (C H W CVEC : ℤ) :
    Silent (calulateEgressAxiTransfers C H W CVEC) := by
  refine (silent_furtherTransfer _ _ _).bind fun _ => ?_
  refine Emits.bind (Emits.when fun _ => Emits.stop _) fun _ => ?_
  exact Emits.bind (Emits.when fun _ => silent_puts _) fun _ => Emits.pure _

theorem silent_pollLoop (registerAddr registerValAssert : ℤ) (n : ℕ) (last : ℤ) :
    Silent (pollLoop hw registerAddr registerValAssert n last) := by
  induction n generalizing last with
  | zero => exact Emits.stop _
  | succ n ih =>
    apply (silent_masterRead32 _).bind
    intro value
    split_ifs
    · exact Emits.pure _
    · exact ih value

theorem silent_pollRegister (registerAddr registerValAssert : ℤ) :
    Silent (pollRegister hw registerAddr registerValAssert) := silent_pollLoop _ _ _ _

theorem silent_checkInferenceCount (iteration : ℤ) : Silent (checkInferenceCount hw iteration) :=
  (silent_masterRead32 _).bind fun _ => Emits.when fun _ => Emits.stop _

theorem silent_checkDescriptorBufferFull : Silent (checkDescriptorBufferFull hw) :=
  (silent_masterRead32 _).bind fun _ => (silent_masterRead32 _).bind fun _ =>
    (Emits.when fun _ => Emits.stop _).bind fun _ => Emits.when fun _ => Emits.stop _

theorem silent_getPerformance (useCoreClock : Bool) : Silent (getPerformance hw useCoreClock) :=
  (silent_masterRead32 _).bind fun _ => (silent_masterRead32 _).bind fun _ =>
    (silent_masterRead32 _).bind fun _ => (silent_masterRead32 _).bind fun _ =>
      (silent_masterRead32 _).bind fun _ => (silent_masterRead32 _).bind fun _ => Emits.pure _

/-! ### Procedures with a transfer -/

/-- A procedure without a transfer adds none to a run. -/
theorem Silent.ends {α : Type} {m : Proc α} (h : Silent m) (l : List Event) :
    Ends m l fun r e => ops e = [] ∧ r = (m l).1 :=
  (Ends.and (h l) (show Ends m l fun r _ => r = (m l).1 from ⟨rfl⟩)).mono fun _ _ he =>
    ⟨ops_silent he.1, he.2⟩

theorem ends_queueIngressDescriptor (size : ℤ) (l : List Event) :
    Ends (queueIngressDescriptor size) l fun r e => r = .ok () ∧ ops e = [.queueIngress size] := by
  apply Ends.emit_bind
  apply Ends.emit_bind
  exact Ends.emit ⟨rfl, rfl⟩

theorem ends_queueEgressDescriptor (size : ℤ) (l : List Event) :
    Ends (queueEgressDescriptor size) l fun r e => r = .ok () ∧ ops e = [.queueEgress size] := by
  apply Ends.emit_bind
  apply Ends.emit_bind
  exact Ends.emit ⟨rfl, rfl⟩

theorem ends_stageInput (path : String) (data : Bytes) (l : List Event) :
    Ends (stageInput ⟨path, some data⟩) l fun r e => r = .ok () ∧ ops e = [.stage data] :=
  Ends.emit ⟨rfl, rfl⟩

theorem ends_readOutput (outputFile : String) (size : ℤ) (l : List Event) :
    Ends (readOutput hw outputFile size) l fun r e =>
      ∃ data, r = .ok ⟨outputFile, some data⟩ ∧ ops e = [.read size data] := by
  apply Ends.ask_bind
  exact Ends.pure ⟨_, rfl, rfl⟩

/-! ### The size of a partition -/

theorem partitionSize_eq_min (size memory : ℤ) (j : ℕ) :
    partitionSize size memory j = min (size - j * memory) memory := (min_def_lt _ _).symm

/-- A partition is no larger than the memory, however much there is to transfer. -/
theorem partitionSize_le (size memory : ℤ) (j : ℕ) : partitionSize size memory j ≤ memory := by
  rw [partitionSize_eq_min]
  exact min_le_right _ _

end AlteraWorkshops.FpgaAi
