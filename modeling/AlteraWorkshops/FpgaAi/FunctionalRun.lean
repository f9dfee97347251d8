import AlteraWorkshops.FpgaAi.Partitions

/-! A whole functional run: one inference after the other, each with its output file. A run
that stops has made all the transfers of the inferences before, and some of those of one more;
it stops only where the board fails a check. -/

namespace AlteraWorkshops.FpgaAi

open Effects Script

variable {input : Bytes} {outputSize : ℤ} {hw : Hardware} {l : List Event} {i : ℕ}

/-! ### The output files -/

/-- The number of the output file that a transfer is about. -/
def Op.file : Op → Option ℕ
  | .openOutput i => some i
  | .putsOutput i _ => some i
  | .stage _ => none
  | .queueIngress _ => none
  | .queueEgress _ => none
  | .read _ _ => none

/-- What a transfer makes of `output$i.bin`; opening it empties it. -/
def writeOutput (i : ℕ) (file : Bytes) : Op → Bytes
  | .openOutput k => if k = i then [] else file
  | .putsOutput k data => if k = i then file ++ data else file
  | .stage _ => file
  | .queueIngress _ => file
  | .queueEgress _ => file
  | .read _ _ => file

def outputFile (i : ℕ) (os : List Op) : Bytes := os.foldl (writeOutput i) []

theorem foldl_writeOutput_of_other {os : List Op} (h : ∀ o ∈ os, o.file ≠ some i) (file : Bytes) :
    os.foldl (writeOutput i) file = file := by
  induction os with
  | nil => rfl
  | cons o os ih =>
    have hother : writeOutput i file o = file := by
      have ho := h o List.mem_cons_self
      cases o with
      | openOutput k => exact if_neg fun hk => ho (congrArg some hk)
      | putsOutput k data => exact if_neg fun hk => ho (congrArg some hk)
      | _ => rfl
    rw [List.foldl_cons, hother]
    exact ih fun o' ho' => h o' (List.mem_cons_of_mem o ho')

theorem Transfer.foldl_writeOutput (t : Transfer input outputSize) (file : Bytes) :
    (t.ops i).foldl (writeOutput i) file = t.output := by
  have hchunks : (t.chunks.flatMap inputOps).foldl (writeOutput i) [] = [] := by
    refine foldl_writeOutput_of_other (fun o ho => ?_) []
    obtain ⟨c, -, ho⟩ := List.mem_flatMap.mp ho
    simp only [inputOps, List.mem_cons, List.not_mem_nil, or_false] at ho
    rcases ho with rfl | rfl <;> nofun
  have hreads (rs : List (ℤ × Bytes)) (file : Bytes) :
      (rs.flatMap (outputOps i)).foldl (writeOutput i) file = file ++ rs.flatMap Prod.snd := by
    induction rs generalizing file with
    | nil => exact (List.append_nil file).symm
    | cons r rs ih =>
      have hput : (outputOps i r).foldl (writeOutput i) file = file ++ r.2 := if_pos rfl
      rw [List.flatMap_cons, List.foldl_append, hput, ih, List.append_assoc, List.flatMap_cons]
  have hopen : writeOutput i file (.openOutput i) = [] := if_pos rfl
  rw [Transfer.ops, List.foldl_cons, hopen, List.foldl_append, hchunks, hreads, List.nil_append]
  rfl

/-- An inference leaves the files of the others alone. -/
theorem Transfer.file_ne_of_mem_ops {t : Transfer input outputSize} {o : Op} {k : ℕ}
    (ho : o ∈ t.ops i) (hk : i ≠ k) : o.file ≠ some k := by
  simp only [Transfer.ops, inputOps, outputOps, List.mem_cons, List.mem_append, List.mem_flatMap,
    List.not_mem_nil, or_false] at ho
  rcases ho with rfl | ⟨c, -, rfl | rfl⟩ | ⟨r, -, rfl | rfl | rfl⟩
  · exact fun h => hk (Option.some.inj h)
  · exact (Option.some_ne_none k).symm
  · exact (Option.some_ne_none k).symm
  · exact (Option.some_ne_none k).symm
  · exact (Option.some_ne_none k).symm
  · exact fun h => hk (Option.some.inj h)

/-- The file of an inference that is done stays as it is. -/
theorem outputFile_runOps {ts : List (Transfer input outputSize)} {t : Transfer input outputSize}
    {k : ℕ} {rest : List Op} (ht : ts[k]? = some t) (hrest : ∀ o ∈ rest, o.file ≠ some (k + 1)) :
    outputFile (k + 1) (runOps ts ++ rest) = t.output := by
  induction ts using List.reverseRecOn generalizing rest with
  | nil => cases ht
  | append_singleton ts last ih =>
    rw [runOps_snoc]
    rcases Nat.lt_or_ge k ts.length with hk | hk
    · rw [List.getElem?_append_left hk] at ht
      rw [List.append_assoc]
      apply ih ht
      intro o ho
      rcases List.mem_append.mp ho with ho | ho
      · exact Transfer.file_ne_of_mem_ops ho (by omega)
      · exact hrest o ho
    · have hlt : k < (ts ++ [last]).length := (List.getElem?_eq_some_iff.mp ht).1
      rw [List.length_append, List.length_singleton] at hlt
      obtain rfl : k = ts.length := by omega
      rw [List.getElem?_concat_length] at ht
      rw [outputFile, List.foldl_append, foldl_writeOutput_of_other hrest, List.foldl_append,
        Transfer.foldl_writeOutput, Option.some.inj ht]

/-! ### The checks -/

/-- The stops of a poll that runs out of time and of a count that differs. -/
inductive FailedCheck : Stop → Prop
  | poll (registerAddr registerVal registerValAssert : ℤ) :
    FailedCheck (.registerPollingTimeout registerAddr registerVal registerValAssert)
  | count (formattedCounterAssert completionCounterResult : ℤ) :
    FailedCheck (.completionCounter formattedCounterAssert completionCounterResult)

/-- No poll and no count check has stopped the run. -/
def ChecksSucceed {α : Type} (r : Except Stop α) : Prop :=
  ∀ reason, r = .error reason → ¬FailedCheck reason

/-- Only a failed check can stop the procedure. -/
abbrev Checked {α : Type} (m : Proc α) : Prop := StopsFor FailedCheck m

theorem checked_masterWrite32 (address value : ℤ) : Checked (masterWrite32 address value) :=
  StopsFor.emit _

theorem checked_stageInput (path : String) (data : Bytes) :
    Checked (stageInput ⟨path, some data⟩) := StopsFor.emit _

theorem checked_queueIngressDescriptor (size : ℤ) : Checked (queueIngressDescriptor size) :=
  (checked_masterWrite32 _ _).bind fun _ => (checked_masterWrite32 _ _).bind fun _ =>
    checked_masterWrite32 _ _

theorem checked_queueEgressDescriptor (size : ℤ) : Checked (queueEgressDescriptor size) :=
  (checked_masterWrite32 _ _).bind fun _ => (checked_masterWrite32 _ _).bind fun _ =>
    checked_masterWrite32 _ _

theorem checked_readOutput (outputFile : String) (size : ℤ) :
    Checked (readOutput hw outputFile size) :=
  (StopsFor.ask _ _).bind fun _ => StopsFor.pure _

theorem checked_pollRegister (registerAddr registerValAssert : ℤ) :
    Checked (pollRegister hw registerAddr registerValAssert) := by
  unfold pollRegister
  generalize 3000 = n
  generalize (0 : ℤ) = last
  induction n generalizing last with
  | zero => exact StopsFor.stop (.poll _ _ _)
  | succ n ih =>
    apply (StopsFor.ask _ _).bind
    intro value
    split_ifs
    · exact StopsFor.pure _
    · exact ih value

theorem checked_checkInferenceCount (iteration : ℤ) : Checked (checkInferenceCount hw iteration) :=
  (StopsFor.ask _ _).bind fun _ => StopsFor.when fun _ => StopsFor.stop (.count _ _)

theorem checked_inputPartition (fileSize : ℤ) (j : ℕ) :
    Checked (inputPartition hw input fileSize j) := by
  rw [inputPartition_eq]
  exact (checked_stageInput _ _).bind fun _ => (checked_queueIngressDescriptor _).bind fun _ =>
    checked_pollRegister _ _

theorem checked_outputPartition (j : ℕ) : Checked (outputPartition hw outputSize i j) :=
  (checked_queueEgressDescriptor _).bind fun _ => (checked_pollRegister _ _).bind fun _ =>
    (checked_readOutput _ _).bind fun _ => StopsFor.emit _

theorem checked_inference (fileSize : ℤ) :
    Checked (inference hw input fileSize outputSize i) :=
  (StopsFor.emit _).bind fun _ =>
    (StopsFor.forRange fun _ _ => checked_inputPartition _ _).bind fun _ =>
      (StopsFor.forRange fun _ _ => checked_outputPartition _).bind fun _ =>
        checked_checkInferenceCount _

theorem checked_assertReset : Checked assertReset :=
  (StopsFor.emit _).bind fun _ => StopsFor.emit _

theorem checked_initializeCoredla : Checked initializeCoredla :=
  (checked_masterWrite32 _ _).bind fun _ => (checked_masterWrite32 _ _).bind fun _ =>
    (checked_masterWrite32 _ _).bind fun _ => (checked_masterWrite32 _ _).bind fun _ =>
      (checked_masterWrite32 _ _).bind fun _ => checked_masterWrite32 _ _

theorem checked_runFunctional (hw : Hardware) (input : Bytes) (outputSize : ℤ) (n : ℕ)
    (path : String) (fileSize : ℤ) :
    Checked (runFunctional hw n ⟨path, some input⟩ fileSize outputSize) :=
  checked_assertReset.bind fun _ => checked_initializeCoredla.bind fun _ =>
    StopsFor.forRange fun _ _ => checked_inference _

/-! ### A board that answers -/

/-- The board after `k` reads of a register and nothing else. -/
def afterReads (hw : Hardware) (address : ℤ) : ℕ → List Event → List Event
  | 0, l => l
  | k + 1, l => afterReads hw address k (l ++ [.masterRead32 address (hw.register l address)])

def Op.queuesEgress : Op → Bool
  | .queueEgress _ => true
  | _ => false

/-- The number of egress descriptors that the board has been given. -/
def egressDescriptors (l : List Event) : ℕ := (ops l).countP Op.queuesEgress

/-- Each transfer is through before a poll runs out of time, and the board counts an
inference with every `m` egress descriptors. -/
structure Responsive (hw : Hardware) (m : ℕ) : Prop where
  ingress : ∀ l, ∃ k < 3000,
    hw.register (afterReads hw ingressSgdmaCsrAddr k l) ingressSgdmaCsrAddr = 2
  egress : ∀ l, ∃ k < 3000,
    hw.register (afterReads hw egressSgdmaCsrAddr k l) egressSgdmaCsrAddr = 2
  counter : ∀ l,
    hw.register l (dlaIp0CsrAddr + 0x224) = ((egressDescriptors l / m : ℕ) : ℤ).fmod (2 ^ 32)

theorem egressDescriptors_append (e e' : List Event) :
    egressDescriptors (e ++ e') = egressDescriptors e + egressDescriptors e' := by
  rw [egressDescriptors, ops_append, List.countP_append]
  rfl

theorem countP_chunkOps (input : Bytes) (j : ℕ) :
    (chunkOps input j).countP Op.queuesEgress = 0 := by
  induction j with
  | zero => rfl
  | succ j ih => rw [chunkOps_succ, List.countP_append, ih]; rfl

theorem countP_readOps (outputSize : ℤ) (i : ℕ) (data : ℕ → Bytes) (j : ℕ) :
    (readOps outputSize i data j).countP Op.queuesEgress = j := by
  induction j with
  | zero => rfl
  | succ j ih => rw [readOps_succ, List.countP_append, ih]; rfl

/-- A poll ends when one of its reads brings the value. -/
theorem pollLoop_result {address value : ℤ} {n k : ℕ} (hk : k < n) (last : ℤ)
    (h : hw.register (afterReads hw address k l) address = value) :
    Ends (pollLoop hw address value n last) l fun r _ => r = .ok () := by
  induction n generalizing k l last with
  | zero => exact absurd hk (Nat.not_lt_zero k)
  | succ n ih =>
    apply Ends.ask_bind
    split_ifs with hvalue
    · exact Ends.pure rfl
    · cases k with
      | zero => exact absurd h hvalue
      | succ k => exact ih (Nat.lt_of_succ_lt_succ hk) _ h

variable {m : ℕ}

theorem Responsive.ingress_poll (h : Responsive hw m) (l : List Event) :
    Ends (pollRegister hw ingressSgdmaCsrAddr 2) l fun r _ => r = .ok () := by
  obtain ⟨k, hk, hvalue⟩ := h.ingress l
  exact pollLoop_result hk 0 hvalue

theorem Responsive.egress_poll (h : Responsive hw m) (l : List Event) :
    Ends (pollRegister hw egressSgdmaCsrAddr 2) l fun r _ => r = .ok () := by
  obtain ⟨k, hk, hvalue⟩ := h.egress l
  exact pollLoop_result hk 0 hvalue

theorem Responsive.inputPartition (h : Responsive hw m) (fileSize : ℤ) (j : ℕ) (l : List Event) :
    Ends (inputPartition hw input fileSize j) l fun r _ => r = .ok () := by
  rw [inputPartition_eq]
  refine Ends.bind_ok (ends_stageInput _ _ _) fun _ _ => ?_
  refine Ends.bind_ok (ends_queueIngressDescriptor _ _) fun _ _ => ?_
  exact h.ingress_poll _

theorem Responsive.outputPartition (h : Responsive hw m) (j : ℕ) (l : List Event) :
    Ends (outputPartition hw outputSize i j) l fun r _ => r = .ok () := by
  refine Ends.bind_ok (ends_queueEgressDescriptor _ _) fun _ _ => ?_
  refine Ends.bind_of_result (h.egress_poll _).holds (fun _ => ?_) fun _ _ _ hr => hr
  refine Ends.bind (ends_readOutput _ _ _) (fun _ e _ => ?_) fun _ _ ⟨_, hs, _⟩ => nomatch hs
  exact Ends.emit rfl

/-- The board has counted this inference by the time its counter is read. -/
theorem Responsive.inference (h : Responsive hw m) (hm : 0 < m)
    (hparts : numPartition outputSize egressOnChipMemorySizeBytes = m)
    (hi : egressDescriptors l + m = i * m) :
    Ends (inference hw input input.length outputSize i) l fun r e =>
      r = .ok () ∧ egressDescriptors (l ++ e) = i * m := by
  unfold FpgaAi.inference
  generalize hn : numPartition input.length ingressOnChipMemorySizeBytes = n
  rw [hparts]
  have hopen : Ends (emit (.openOutput i) : Proc Unit) l fun r e =>
      r = .ok () ∧ egressDescriptors e = 0 := Ends.emit ⟨rfl, rfl⟩
  apply Ends.bind_ok hopen
  intro e he
  refine Ends.bind ((ends_inputPartitions hn.symm).and
    (Ends.forRange_ok fun j l => h.inputPartition input.length j l)) ?_ fun _ _ hs => nomatch hs.2
  rintro _ e' ⟨he', -⟩
  refine Ends.bind ((ends_outputPartitions m).and
    (Ends.forRange_ok fun j l => h.outputPartition j l)) ?_ fun _ _ hs => nomatch hs.2
  rintro _ e'' ⟨⟨data, he''⟩, -⟩
  have hin : egressDescriptors e' = 0 := (congrArg _ he').trans (countP_chunkOps input n)
  have hout : egressDescriptors e'' = m :=
    (congrArg _ he'').trans (countP_readOps outputSize i data m)
  have hcount : egressDescriptors (l ++ e ++ e' ++ e'') = i * m := by
    rw [egressDescriptors_append, egressDescriptors_append, egressDescriptors_append, he, hin,
      hout]
    exact hi
  apply Ends.ask_bind
  refine Ends.when (fun hne => absurd ?_ hne) fun _ => ⟨rfl, ?_⟩
  · rw [h.counter, hcount, Nat.mul_div_cancel i hm]
  · simp only [← List.append_assoc]
    rw [List.append_nil, egressDescriptors_append, hcount]
    rfl

/-! ### The run -/

theorem ends_assertReset : Ends assertReset l fun r e => r = .ok () ∧ ops e = [] := ⟨rfl, rfl⟩

theorem ends_initializeCoredla : Ends initializeCoredla l fun r e => r = .ok () ∧ ops e = [] :=
  ⟨rfl, rfl⟩

/-- The board is set up, then one inference follows the other. -/
theorem ends_runFunctional_of_loop {Q : Except Stop Unit → List Event → Prop} {n : ℕ}
    {path : String}
    (h : ∀ e₀, ops e₀ = [] → Ends (forRange n fun k =>
      inference hw input input.length outputSize (k + 1)) (l ++ e₀) fun r e => Q r (e₀ ++ e)) :
    Ends (runFunctional hw n ⟨path, some input⟩ input.length outputSize) l Q := by
  apply Ends.bind_ok ends_assertReset
  intro e he
  apply Ends.bind_ok ends_initializeCoredla
  intro e' he'
  have hops : ops (e ++ e') = [] := by rw [ops_append, he, he', List.append_nil]
  rw [Int.toNat_natCast, List.append_assoc]
  apply (h (e ++ e') hops).mono
  intro r e'' hq
  rw [← List.append_assoc]
  exact hq

/-- Some of `n` inferences are done, and a run that stops has made some of the transfers of the
next one. -/
def RunTransfers (input : Bytes) (outputSize : ℤ) (n : ℕ) (r : Except Stop Unit) (os : List Op)
    (done : List (Transfer input outputSize)) (rest : List Op) : Prop :=
  os = runOps done ++ rest ∧
    (r = .ok () → done.length = n ∧ rest = []) ∧
    (r ≠ .ok () → done.length < n ∧
      ∃ t : Transfer input outputSize, rest <+: t.ops (done.length + 1))

theorem ends_runFunctional (hin : 16 ∣ input.length) (hout : 16 ∣ outputSize)
    (hpos : 0 ≤ outputSize) (n : ℕ) (path : String) :
    Ends (runFunctional hw n ⟨path, some input⟩ input.length outputSize) l fun r e =>
      ∃ done rest, RunTransfers input outputSize n r (ops e) done rest := by
  apply ends_runFunctional_of_loop
  intro e₀ h₀
  refine Ends.mono (Ends.forRange
    (I := fun k e => ∃ done : List (Transfer input outputSize),
      done.length = k ∧ ops e = runOps done)
    (E := fun e => ∃ (done : List (Transfer input outputSize)) (t : Transfer input outputSize)
      (rest : List Op), done.length < n ∧ ops e = runOps done ++ rest ∧
        rest <+: t.ops (done.length + 1))
    ⟨[], rfl, rfl⟩ ?_) fun r e he => ?_
  · rintro k e hk ⟨done, rfl, he⟩
    apply (ends_inference hin hout hpos).mono
    intro r e' he'
    cases r with
    | ok _ =>
      obtain ⟨t, ht⟩ := he'
      refine ⟨done ++ [t], by rw [List.length_append, List.length_singleton], ?_⟩
      rw [ops_append, he, ht, runOps_snoc]
    | error _ =>
      obtain ⟨t, ht⟩ := he'
      exact ⟨done, t, ops e', hk, by rw [ops_append, he], ht⟩
  · rw [ops_append, h₀, List.nil_append]
    cases r with
    | ok _ =>
      obtain ⟨done, hlen, hops⟩ := he
      exact ⟨done, [], hops.trans (List.append_nil _).symm, fun _ => ⟨hlen, rfl⟩,
        fun h => absurd rfl h⟩
    | error _ =>
      obtain ⟨done, t, rest, hlen, hops, hrest⟩ := he
      exact ⟨done, rest, hops, nofun, fun _ => ⟨hlen, t, hrest⟩⟩

theorem Responsive.runFunctional (h : Responsive hw m) (hm : 0 < m)
    (hparts : numPartition outputSize egressOnChipMemorySizeBytes = m) (n : ℕ) (path : String)
    (hl : egressDescriptors l = 0) :
    Ends (runFunctional hw n ⟨path, some input⟩ input.length outputSize) l fun r _ =>
      r = .ok () := by
  apply ends_runFunctional_of_loop
  intro e₀ h₀
  have hstart : egressDescriptors (l ++ e₀) = 0 := by
    rw [egressDescriptors_append, hl, egressDescriptors, h₀]
    rfl
  refine Ends.mono (Ends.forRange (I := fun k e => egressDescriptors (l ++ e₀ ++ e) = k * m)
    (E := fun _ => False) (by rw [List.append_nil, hstart, Nat.zero_mul]) fun k e _ he => ?_)
    fun r e he => ?_
  · apply (h.inference hm hparts (by rw [he, Nat.succ_mul])).mono
    rintro r e' ⟨rfl, he'⟩
    rw [List.append_assoc] at he'
    exact he'
  · cases r with
    | ok _ => rfl
    | error _ => exact he.elim

theorem ends_warning (c : Prop) [Decidable c] (warning : Warning) :
    Ends (when c (emit (.puts warning)) : Proc Unit) l fun r e => r = .ok () ∧ ops e = [] :=
  Ends.when (fun _ => Ends.emit ⟨rfl, rfl⟩) fun _ => ⟨rfl, rfl⟩

/-- A run with good arguments only warns before it touches the board. -/
theorem ends_mainFunctional (hw : Hardware) (path : String) {C H W cvec T : ℤ} {n : ℕ}
    {Q : Except Stop Unit → List Op → Prop} (hdvd : 16 ∣ input.length)
    (hT : (calulateEgressAxiTransfers C H W cvec []).1 = .ok T)
    (h : ∀ e₀, ops e₀ = [] → Ends (runFunctional hw n ⟨path, some input⟩ input.length T) e₀
      fun r e => Q r (ops e)) :
    Ends (mainFunctional hw n ⟨path, some input⟩ C H W (some cvec)) [] fun r e => Q r (ops e) := by
  rw [mainFunctional_eq hdvd (Int.natCast_nonneg n) hT]
  apply Ends.bind_ok (ends_warning _ _)
  intro e he
  apply Ends.bind_ok (ends_warning _ _)
  intro e' he'
  have hops : ops ([] ++ e ++ e') = [] := by rw [List.nil_append, ops_append, he, he']; rfl
  apply (h _ hops).mono
  intro r e'' hq
  rw [ops_append, ops_append, he, he']
  exact hq

/-- Whatever the board answers, an inference that is done has staged the whole input and read
the whole output in partitions that fit, its output file is what was read, and nothing else
was transferred but part of one inference more where the run stops. If every check of the run
succeeds, it comes to its end. -/
theorem functional_run_transfers (hw : Hardware) (path : String) (input : Bytes) (n : ℕ)
    {C H W cvec T : ℤ} (hdvd : 16 ∣ input.length)
    (hT : (calulateEgressAxiTransfers C H W cvec []).1 = .ok T) :
    let run := mainFunctional hw n ⟨path, some input⟩ C H W (some cvec) []
    (∃ (done : List (Transfer input T)) (rest : List Op),
      ops run.2 = runOps done ++ rest ∧
      (run.1 = .ok () → done.length = n ∧ rest = []) ∧
      (run.1 ≠ .ok () → done.length < n ∧
        ∃ t : Transfer input T, rest <+: t.ops (done.length + 1)) ∧
      ∀ k t, done[k]? = some t → outputFile (k + 1) (ops run.2) = t.output) ∧
    (ChecksSucceed run.1 → run.1 = .ok ()) := by
  obtain ⟨hpos, hsize, -⟩ := calulateEgressAxiTransfers_returns hT
  have hout : 16 ∣ T := ⟨egressBeats C H W cvec, hsize.trans (Int.mul_comm _ _)⟩
  have hnonneg : 0 ≤ T := by omega
  constructor
  · obtain ⟨done, rest, hops, hok, herr⟩ := (ends_mainFunctional hw path
      (Q := fun r os => ∃ done rest, RunTransfers input T n r os done rest) hdvd hT fun _ _ =>
        ends_runFunctional hdvd hout hnonneg n path).holds
    refine ⟨done, rest, hops, hok, herr, fun k t ht => ?_⟩
    rw [hops]
    apply outputFile_runOps ht
    intro o ho
    by_cases hr : (mainFunctional hw n ⟨path, some input⟩ C H W (some cvec) []).1 = .ok ()
    · rw [(hok hr).2] at ho
      exact absurd ho List.not_mem_nil
    · obtain ⟨-, t', hinit⟩ := herr hr
      have hk : k < done.length := (List.getElem?_eq_some_iff.mp ht).1
      exact Transfer.file_ne_of_mem_ops (hinit.subset ho) (by omega)
  · intro hsucceed
    have hchecked : ∀ reason, (mainFunctional hw n ⟨path, some input⟩ C H W (some cvec) []).1 =
        .error reason → FailedCheck reason :=
      (ends_mainFunctional hw path (Q := fun r _ => ∀ reason, r = .error reason →
        FailedCheck reason) hdvd hT fun e₀ _ => checked_runFunctional hw input T n path _ e₀).holds
    rcases hr : (mainFunctional hw n ⟨path, some input⟩ C H W (some cvec) []).1 with reason | _
    · exact absurd (hchecked reason hr) (hsucceed reason hr)
    · rfl

/-- A board that is always ready and counts an inference with every `m` egress
descriptors. -/
def ready (m : ℕ) : Hardware where
  register l address :=
    if address = dlaIp0CsrAddr + 0x224 then ((egressDescriptors l / m : ℕ) : ℤ).fmod (2 ^ 32)
    else 2
  memory _ _ size := List.replicate size.toNat 0

theorem ready_register {address : ℤ} (h : address ≠ dlaIp0CsrAddr + 0x224) :
    (ready m).register l address = 2 := if_neg h

theorem responsive_ready (m : ℕ) : Responsive (ready m) m where
  ingress _ := ⟨0, by decide, ready_register (by decide)⟩
  egress _ := ⟨0, by decide, ready_register (by decide)⟩
  counter l := by
    change (if dlaIp0CsrAddr + 0x224 = dlaIp0CsrAddr + 0x224
      then ((egressDescriptors l / m : ℕ) : ℤ).fmod (2 ^ 32) else 2) = _
    exact if_pos rfl

theorem checksSucceed_ready {C H W cvec T : ℤ} (path : String) (n : ℕ)
    (hdvd : 16 ∣ input.length) (hT : (calulateEgressAxiTransfers C H W cvec []).1 = .ok T)
    (hm : 0 < m) (hparts : numPartition T egressOnChipMemorySizeBytes = m) :
    ChecksSucceed (mainFunctional (ready m) n ⟨path, some input⟩ C H W (some cvec) []).1 := by
  have hok : (mainFunctional (ready m) n ⟨path, some input⟩ C H W (some cvec) []).1 = .ok () :=
    (ends_mainFunctional (ready m) path (Q := fun r _ => r = .ok ()) hdvd hT fun e₀ h₀ =>
      (responsive_ready m).runFunctional hm hparts n path
        (by rw [egressDescriptors, h₀]; rfl)).holds
  rw [hok]
  exact fun _ h => by cases h

theorem functional_run_transfers_two :
    ∃ (done : List (Transfer (List.replicate 4112 0) 1040)),
      ops (mainFunctional (ready 2) 2 ⟨"input.bin", some (List.replicate 4112 0)⟩ 8 65 1
        (some 8) []).2 = runOps done ∧ done.length = 2 := by
  have hT : (calulateEgressAxiTransfers 8 65 1 8 []).1 = .ok 1040 := rfl
  have hdvd : 16 ∣ (List.replicate 4112 (0 : BitVec 8)).length := by
    rw [List.length_replicate]
    decide
  obtain ⟨⟨done, rest, hops, hok, -⟩, hend⟩ :=
    functional_run_transfers (ready 2) "input.bin" (List.replicate 4112 0) 2 hdvd hT
  obtain ⟨hlen, hrest⟩ := hok (hend (checksSucceed_ready _ 2 hdvd hT Nat.two_pos rfl))
  rw [hrest, List.append_nil] at hops
  exact ⟨done, hops, hlen⟩

end AlteraWorkshops.FpgaAi
