import AlteraWorkshops.FpgaAi.OutputSize

/-! Descriptors and reads against the on-chip memories. A functional run cuts both ways of a
transfer to the memories, whatever its arguments are; a performance run looks at the input
only, and queues the whole output. -/

namespace AlteraWorkshops.FpgaAi

open Effects Script

/-- No descriptor and no read is larger than its memory. -/
def Op.Fits : Op → Prop
  | .queueIngress size => size ≤ ingressOnChipMemorySizeBytes
  | .queueEgress size => size ≤ egressOnChipMemorySizeBytes
  | .read size _ => size ≤ egressOnChipMemorySizeBytes
  | .stage _ => True
  | .openOutput _ => True
  | .putsOutput _ _ => True

def Event.Fits (x : Event) : Prop := ∀ o, x.op = some o → o.Fits

variable {hw : Hardware} {size : ℤ}

theorem fits_ops {e : List Event} : (∀ o ∈ ops e, o.Fits) ↔ ∀ x ∈ e, x.Fits := by
  simp only [ops, List.mem_filterMap, Event.Fits]
  exact ⟨fun h x hx o ho => h o ⟨x, hx, ho⟩, fun h o ⟨x, hx, ho⟩ => h x hx o ho⟩

theorem fits_of_silent {α : Type} {m : Proc α} (h : Silent m) : Emits Event.Fits m :=
  h.mono fun x hx o ho => by rw [hx] at ho; cases ho

theorem fits_of_op {α : Type} {m : Proc α} {o : Op}
    (h : ∀ l, Ends m l fun _ e => ops e = [o]) (ho : o.Fits) : Emits Event.Fits m := fun l =>
  (h l).mono fun _ e he => fits_ops.mp fun o' ho' => by
    rw [he, List.mem_singleton] at ho'
    exact ho' ▸ ho

/-! ### The procedures -/

theorem fits_stageInput (path : String) (data : Bytes) :
    Emits Event.Fits (stageInput ⟨path, some data⟩) :=
  fits_of_op (fun l => (ends_stageInput path data l).mono fun _ _ he => he.2) trivial

theorem fits_queueIngressDescriptor (h : size ≤ ingressOnChipMemorySizeBytes) :
    Emits Event.Fits (queueIngressDescriptor size) :=
  fits_of_op (fun l => (ends_queueIngressDescriptor size l).mono fun _ _ he => he.2) h

theorem fits_queueEgressDescriptor (h : size ≤ egressOnChipMemorySizeBytes) :
    Emits Event.Fits (queueEgressDescriptor size) :=
  fits_of_op (fun l => (ends_queueEgressDescriptor size l).mono fun _ _ he => he.2) h

theorem fits_readOutput (outputFile : String) (h : size ≤ egressOnChipMemorySizeBytes) :
    Emits Event.Fits (readOutput hw outputFile size) := fun l => by
  apply (ends_readOutput outputFile size l).mono
  rintro _ e ⟨data, -, he⟩
  apply fits_ops.mp
  intro o ho
  rw [he, List.mem_singleton] at ho
  exact ho ▸ h

/-! ### A functional run -/

theorem fits_inputPartition (input : Bytes) (fileSize : ℤ) (j : ℕ) :
    Emits Event.Fits (inputPartition hw input fileSize j) := by
  refine (Emits.when fun _ => Emits.stop _).bind fun _ => ?_
  refine (fits_stageInput _ _).bind fun _ => ?_
  exact (fits_queueIngressDescriptor (partitionSize_le _ _ j)).bind fun _ =>
    fits_of_silent (silent_pollRegister _ _)

theorem fits_outputPartition (outputStreamerTransfers : ℤ) (i j : ℕ) :
    Emits Event.Fits (outputPartition hw outputStreamerTransfers i j) := by
  refine (fits_queueEgressDescriptor (partitionSize_le _ _ j)).bind fun _ => ?_
  refine (fits_of_silent (silent_pollRegister _ _)).bind fun _ => ?_
  refine (fits_readOutput _ (partitionSize_le _ _ j)).bind fun _ => ?_
  exact fits_of_op (o := .putsOutput i _) (fun _ => Ends.emit rfl) trivial

theorem fits_inference (input : Bytes) (fileSize outputStreamerTransfers : ℤ) (i : ℕ) :
    Emits Event.Fits (inference hw input fileSize outputStreamerTransfers i) := by
  refine (fits_of_op (o := .openOutput i) (fun _ => Ends.emit rfl) trivial).bind fun _ => ?_
  refine (Emits.forRange fun j _ => fits_inputPartition input fileSize j).bind fun _ => ?_
  refine (Emits.forRange fun j _ => fits_outputPartition _ i j).bind fun _ => ?_
  exact fits_of_silent (silent_checkInferenceCount _)

/-- Any functional run, whatever its arguments are. -/
theorem fits_mainFunctional (numInferences : ℤ) (inputFile : File) (C H W : ℤ)
    (archFile : Option ℤ) :
    Emits Event.Fits (mainFunctional hw numInferences inputFile C H W archFile) := by
  refine (fits_of_silent (silent_parseCvec _)).bind fun _ => ?_
  refine (fits_of_silent (silent_validateArgs _ _)).bind fun _ => ?_
  refine Emits.bind (Emits.when fun _ => fits_of_silent (silent_puts _)) fun _ => ?_
  refine (fits_of_silent (silent_calulateEgressAxiTransfers _ _ _ _)).bind fun _ => ?_
  refine (fits_of_silent silent_assertReset).bind fun _ => ?_
  refine (fits_of_silent silent_initializeCoredla).bind fun _ => ?_
  exact Emits.forRange fun i _ => fits_inference _ _ _ _

/-! ### A performance run -/

theorem fits_queueDescriptors {fileSize outputStreamerTransfers : ℤ}
    (hin : fileSize ≤ ingressOnChipMemorySizeBytes)
    (hout : outputStreamerTransfers ≤ egressOnChipMemorySizeBytes) :
    Emits Event.Fits (queueDescriptors hw fileSize outputStreamerTransfers) := by
  refine (fits_of_silent silent_checkDescriptorBufferFull).bind fun _ => ?_
  exact (fits_queueEgressDescriptor hout).bind fun _ => fits_queueIngressDescriptor hin

theorem fits_runPerformance {fileSize outputStreamerTransfers : ℤ}
    (hin : fileSize ≤ ingressOnChipMemorySizeBytes)
    (hout : outputStreamerTransfers ≤ egressOnChipMemorySizeBytes) (numInferences : ℕ)
    (path : String) (input : Bytes) (measure : Bool) :
    Emits Event.Fits
      (runPerformance hw numInferences ⟨path, some input⟩ fileSize outputStreamerTransfers
        measure) := by
  have hstart (value : ℤ) : Silent (when measure (masterWrite32 (dlaIp0CsrAddr + 0x284) value)) :=
    Emits.when fun _ => silent_masterWrite32 value (by decide) (by decide)
  refine (fits_of_silent silent_assertReset).bind fun _ => ?_
  refine (fits_stageInput path input).bind fun _ => ?_
  refine (fits_of_silent silent_initializeCoredla).bind fun _ => ?_
  refine (fits_of_silent silent_stopSgdmas).bind fun _ => ?_
  refine (Emits.forRange fun _ _ => fits_queueDescriptors hin hout).bind fun _ => ?_
  refine (fits_of_silent (hstart 0)).bind fun _ => ?_
  refine (fits_of_silent silent_startSgdmas).bind fun _ => ?_
  refine (fits_of_silent (hstart 1)).bind fun _ => ?_
  refine (fits_of_silent (silent_pollRegister _ _)).bind fun _ => ?_
  refine (fits_of_silent (silent_pollRegister _ _)).bind fun _ => ?_
  refine (fits_of_silent (silent_getPerformance _)).bind fun _ => ?_
  exact (fits_readOutput _ hout).bind fun _ => Emits.pure _

/-- A round that finds room in the queues queues the egress descriptor. -/
theorem queueEgress_of_queueDescriptors
    (hfull : ∀ l address, full (hw.register l address) = false)
    (fileSize outputStreamerTransfers : ℤ) (l : List Event) :
    Ends (queueDescriptors hw fileSize outputStreamerTransfers) l fun _ e =>
      .queueEgress outputStreamerTransfers ∈ ops e := by
  have hroom (l : List Event) (address : ℤ) : ¬full (hw.register l address) = true :=
    Bool.eq_false_iff.mp (hfull l address)
  have hcheck : Ends (checkDescriptorBufferFull hw) l fun r _ => r = .ok () := by
    apply Ends.ask_bind
    apply Ends.ask_bind
    rw [when_bind_of_not (hroom _ _)]
    exact Ends.when (fun h => absurd h (hroom _ _)) fun _ => rfl
  refine Ends.bind_of_result hcheck.holds (fun e => ?_) fun _ e e' => mem_ops_append_right e
  refine Ends.bind_of_append ?_ fun e e' => mem_ops_append_left e'
  apply (ends_queueEgressDescriptor _ _).mono
  intro _ e he
  rw [he.2]
  exact List.mem_singleton_self _

/-- So does the run, before it is known whether the board ever answers. -/
theorem queueEgress_of_runPerformance {numInferences : ℕ} (hn : 0 < numInferences)
    (hfull : ∀ l address, full (hw.register l address) = false) (path : String) (input : Bytes)
    (fileSize outputStreamerTransfers : ℤ) (measure : Bool) (l : List Event) :
    Ends (runPerformance hw numInferences ⟨path, some input⟩ fileSize outputStreamerTransfers
      measure) l fun _ e => .queueEgress outputStreamerTransfers ∈ ops e := by
  refine Ends.bind_of_result (a := ()) rfl (fun _ => ?_) fun _ e e' => mem_ops_append_right e
  refine Ends.bind_of_result (a := ()) rfl (fun _ => ?_) fun _ e e' => mem_ops_append_right e
  refine Ends.bind_of_result (a := ()) rfl (fun _ => ?_) fun _ e e' => mem_ops_append_right e
  refine Ends.bind_of_result (a := ()) rfl (fun _ => ?_) fun _ e e' => mem_ops_append_right e
  refine Ends.bind_of_append ?_ fun e e' => mem_ops_append_left e'
  refine Ends.mono (Ends.forRange
    (I := fun j e => 0 < j → .queueEgress outputStreamerTransfers ∈ ops e)
    (E := fun e => .queueEgress outputStreamerTransfers ∈ ops e)
    (fun h => absurd h (Nat.lt_irrefl 0)) fun j e _ _ => ?_) ?_
  · apply (queueEgress_of_queueDescriptors hfull fileSize _ _).mono
    rintro (_ | _) e' he'
    · exact mem_ops_append_right e he'
    · exact fun _ => mem_ops_append_right e he'
  · rintro (_ | _) e he
    · exact he
    · exact he hn

/-! ### Both runs -/

/-- A board whose registers read as zero. -/
def idle : Hardware := ⟨fun _ _ => 0, fun _ _ _ => []⟩

theorem full_zero : full 0 = false := by decide

theorem queueEgress_of_mainPerformance (path : String) {input : Bytes} {C H W cvec T : ℤ}
    (hdvd : 16 ∣ input.length) (hle : (input.length : ℤ) ≤ ingressOnChipMemorySizeBytes)
    (hT : (calulateEgressAxiTransfers C H W cvec []).1 = .ok T) (measure : Bool) :
    Ends (mainPerformance idle ⟨path, some input⟩ C H W measure (some cvec)) [] fun _ e =>
      .queueEgress T ∈ ops e := by
  have hn : 0 < if measure then 1 else 32 := by split_ifs <;> decide
  rw [mainPerformance_eq hdvd hle hT]
  refine Ends.bind_of_result (warning_result (T > egressOnChipMemorySizeBytes) .outputPartitioned)
    (fun e => ?_) fun _ e e' => mem_ops_append_right e
  exact queueEgress_of_runPerformance hn (fun _ _ => full_zero) path input input.length T measure e

/-- On every board, in both kinds of run, exactly when the input keeps a performance run from
starting or the whole output has room in its memory. -/
theorem descriptors_fit_iff (path : String) (input : Bytes) {C H W cvec T : ℤ}
    (hdvd : 16 ∣ input.length) (hT : (calulateEgressAxiTransfers C H W cvec []).1 = .ok T) :
    (∀ hw,
      (∀ numInferences, ∀ o ∈ ops
        (mainFunctional hw numInferences ⟨path, some input⟩ C H W (some cvec) []).2, o.Fits) ∧
      ∀ measure, ∀ o ∈ ops
        (mainPerformance hw ⟨path, some input⟩ C H W measure (some cvec) []).2, o.Fits) ↔
    ingressOnChipMemorySizeBytes < input.length ∨
      egressBeats C H W cvec * 16 ≤ egressOnChipMemorySizeBytes := by
  have hsize : T = egressBeats C H W cvec * 16 := (calulateEgressAxiTransfers_returns hT).2.1
  rw [← hsize]
  constructor
  · intro h
    by_contra hnot
    obtain ⟨hle, hlarge⟩ := not_or.mp hnot
    exact hlarge ((h idle).2 false _
      (queueEgress_of_mainPerformance path hdvd (not_lt.mp hle) hT false).holds)
  · intro h hw
    refine ⟨fun n => fits_ops.mpr (fits_mainFunctional n _ C H W _ []).holds, fun measure => ?_⟩
    by_cases hlt : ingressOnChipMemorySizeBytes < input.length
    · rw [mainPerformance_of_large hdvd hlt]
      exact fun o ho => absurd ho List.not_mem_nil
    · rw [mainPerformance_eq hdvd (not_lt.mp hlt) hT]
      refine fits_ops.mpr (Emits.bind (Emits.when fun _ => fits_of_silent (silent_puts _))
        (fun _ => ?_) []).holds
      exact fits_runPerformance (not_lt.mp hlt) (h.resolve_left hlt) _ path input measure

theorem descriptors_fit_one_pixel :
    (calulateEgressAxiTransfers 8 1 1 8 []).1 = .ok 16 ∧ ∀ hw,
      (∀ numInferences, ∀ o ∈ ops (mainFunctional hw numInferences
        ⟨"input.bin", some (List.replicate 16 0)⟩ 8 1 1 (some 8) []).2, o.Fits) ∧
      ∀ measure, ∀ o ∈ ops (mainPerformance hw
        ⟨"input.bin", some (List.replicate 16 0)⟩ 8 1 1 measure (some 8) []).2, o.Fits :=
  ⟨rfl, (descriptors_fit_iff "input.bin" (List.replicate 16 0) (by decide) rfl).mpr
    (.inr (by decide))⟩

/-- A performance run with an output of 129 pixels. -/
theorem performance_descriptor_too_large :
    (calulateEgressAxiTransfers 8 129 1 8 []).1 = .ok 2064 ∧
      ¬∀ o ∈ ops (mainPerformance idle ⟨"input.bin", some (List.replicate 16 0)⟩ 8 129 1 false
        (some 8) []).2, o.Fits :=
  ⟨rfl, fun h => absurd (h (.queueEgress 2064)
    (queueEgress_of_mainPerformance "input.bin" (by decide) (by decide) rfl false).holds)
    (by decide : ¬(2064 : ℤ) ≤ egressOnChipMemorySizeBytes)⟩

end AlteraWorkshops.FpgaAi
