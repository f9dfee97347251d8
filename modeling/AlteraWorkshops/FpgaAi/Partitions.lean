import AlteraWorkshops.FpgaAi.OutputSize
import Mathlib.Algebra.BigOperators.Ring.Finset

/-! A functional run cuts the input and the output of every inference into partitions that
fit the on-chip memories. Nothing is lost and nothing repeated: the partitions of the input
are the input file, the reads have the size of the output together, and the output file holds
what was read. -/

namespace AlteraWorkshops.FpgaAi

open Effects Script Blocks

/-! ### The transfers of an inference -/

/-- An input of `input` and an output of `outputSize` bytes in partitions. A read is the size
that was asked for and the data that came. -/
structure Transfer (input : Bytes) (outputSize : ℤ) where
  chunks : List Bytes
  chunk_ne_nil : ∀ c ∈ chunks, c ≠ []
  chunk_aligned : ∀ c ∈ chunks, 16 ∣ c.length
  chunk_le : ∀ c ∈ chunks, (c.length : ℤ) ≤ ingressOnChipMemorySizeBytes
  flatten_chunks : chunks.flatten = input
  reads : List (ℤ × Bytes)
  read_pos : ∀ r ∈ reads, 0 < r.1
  read_aligned : ∀ r ∈ reads, 16 ∣ r.1
  read_le : ∀ r ∈ reads, r.1 ≤ egressOnChipMemorySizeBytes
  sum_reads : (reads.map Prod.fst).sum = outputSize

variable {input : Bytes} {outputSize : ℤ}

namespace Transfer

def inputOps (c : Bytes) : List Op := [.stage c, .queueIngress c.length]

def outputOps (i : ℕ) (r : ℤ × Bytes) : List Op :=
  [.queueEgress r.1, .read r.1 r.2, .putsOutput i r.2]

/-- The transfers of inference `i`. -/
def ops (t : Transfer input outputSize) (i : ℕ) : List Op :=
  .openOutput i :: (t.chunks.flatMap inputOps ++ t.reads.flatMap (outputOps i))

/-- What was read. -/
def output (t : Transfer input outputSize) : Bytes := t.reads.flatMap Prod.snd

end Transfer

/-- The transfers of one inference after the other. -/
def runOps (ts : List (Transfer input outputSize)) : List Op :=
  (ts.zipIdx 1).flatMap fun t => t.1.ops t.2

theorem runOps_snoc (ts : List (Transfer input outputSize)) (t : Transfer input outputSize) :
    runOps (ts ++ [t]) = runOps ts ++ t.ops (ts.length + 1) := by
  rw [runOps, List.zipIdx_append, List.flatMap_append, Nat.add_comm]
  simp [runOps]

/-! ### The partitions -/

theorem lt_numPartition {size memory : ℤ} (hmem : 0 < memory) (j : ℕ) :
    j < numPartition size memory ↔ j * memory < size := by
  rw [numPartition, Int.fdiv_eq_ediv_of_nonneg _ hmem.le, Int.lt_toNat, ← Int.add_one_le_iff,
    Int.le_ediv_iff_mul_le hmem, Int.add_mul, Int.one_mul]
  omega

/-- There are enough partitions. -/
theorem le_numPartition_mul {size memory : ℤ} (hmem : 0 < memory) :
    size ≤ numPartition size memory * memory :=
  not_lt.mp fun h => lt_irrefl _ ((lt_numPartition hmem _).mpr h)

theorem length_le_numPartition_mul {L n : ℕ} (hn : 0 < n) : L ≤ numPartition L n * n := by
  have h : (L : ℤ) ≤ numPartition L n * n := le_numPartition_mul (Int.natCast_pos.mpr hn)
  exact_mod_cast h

theorem partitionSize_pos {size memory : ℤ} (hmem : 0 < memory) {j : ℕ}
    (hj : j < numPartition size memory) : 0 < partitionSize size memory j := by
  have hlt := (lt_numPartition hmem j).mp hj
  rw [partitionSize_eq_min]
  omega

theorem dvd_partitionSize {d size memory : ℤ} (hsize : d ∣ size) (hmem : d ∣ memory) (j : ℕ) :
    d ∣ partitionSize size memory j := by
  rw [partitionSize_eq_min]
  rcases min_choice (size - j * memory) memory with h | h
  · rw [h]
    exact dvd_sub hsize (Dvd.dvd.mul_left hmem _)
  · rw [h]
    exact hmem

/-- The partitions of a size add up to it. -/
theorem sum_partitionSize {size memory : ℕ} (hmem : 0 < memory) :
    ((List.range (numPartition size memory)).map (partitionSize size memory)).sum = size := by
  have hmem' : (0 : ℤ) < memory := Int.natCast_pos.mpr hmem
  have hcast : (List.range (numPartition size memory)).map (partitionSize size memory) =
      ((List.range (numPartition size memory)).map fun j => min memory (size - j * memory)).map
        ((↑) : ℕ → ℤ) := by
    rw [List.map_map]
    apply List.map_congr_left
    intro j hj
    have hlt := (lt_numPartition hmem' j).mp (List.mem_range.mp hj)
    rw [partitionSize_eq_min, Function.comp_apply]
    push_cast
    omega
  rw [hcast, ← Nat.cast_list_sum, sum_length_block (length_le_numPartition_mul hmem)]

/-- The chunk that is staged has the size that is queued. -/
theorem length_chunk {j : ℕ} (hj : j < numPartition input.length ingressOnChipMemorySizeBytes) :
    ((block 4096 input j).length : ℤ) =
      partitionSize input.length ingressOnChipMemorySizeBytes j := by
  have hlt : (j : ℤ) * 4096 < input.length := (lt_numPartition (by decide) j).mp hj
  rw [partitionSize_eq_min, length_block]
  unfold ingressOnChipMemorySizeBytes
  omega

/-- The transfer in which read `j` brings `data j`. -/
def transfer (hin : 16 ∣ input.length) (hout : 16 ∣ outputSize) (hpos : 0 ≤ outputSize)
    (data : ℕ → Bytes) : Transfer input outputSize where
  chunks := (List.range (numPartition input.length ingressOnChipMemorySizeBytes)).map
    (block 4096 input)
  chunk_ne_nil := by
    simp only [List.mem_map, List.mem_range]
    rintro _ ⟨j, hj, rfl⟩
    have hpos := partitionSize_pos (by decide) hj
    rw [← length_chunk hj, Int.natCast_pos] at hpos
    exact List.ne_nil_of_length_pos hpos
  chunk_aligned := by
    simp only [List.mem_map, List.mem_range]
    rintro _ ⟨j, hj, rfl⟩
    rw [← Int.natCast_dvd_natCast, length_chunk hj]
    exact dvd_partitionSize (Int.natCast_dvd_natCast.mpr hin) (by decide) j
  chunk_le := by
    simp only [List.mem_map, List.mem_range]
    rintro _ ⟨j, hj, rfl⟩
    rw [length_chunk hj]
    exact partitionSize_le _ _ j
  flatten_chunks := by
    rw [← List.flatMap_def]
    exact flatMap_block_eq (length_le_numPartition_mul (n := 4096) (by decide))
  reads := (List.range (numPartition outputSize egressOnChipMemorySizeBytes)).map fun j =>
    (partitionSize outputSize egressOnChipMemorySizeBytes j, data j)
  read_pos := by
    simp only [List.mem_map, List.mem_range]
    rintro _ ⟨j, hj, rfl⟩
    exact partitionSize_pos (by decide) hj
  read_aligned := by
    simp only [List.mem_map, List.mem_range]
    rintro _ ⟨j, hj, rfl⟩
    exact dvd_partitionSize hout (by decide) j
  read_le := by
    simp only [List.mem_map, List.mem_range]
    rintro _ ⟨j, hj, rfl⟩
    exact partitionSize_le _ _ j
  sum_reads := by
    rw [List.map_map, ← Int.toNat_of_nonneg hpos]
    exact sum_partitionSize (by decide)

/-! ### One inference -/

variable {hw : Hardware} {l : List Event} {i : ℕ}

/-- The transfers of the first `j` partitions of the input. -/
def chunkOps (input : Bytes) (j : ℕ) : List Op :=
  (List.range j).flatMap fun k => Transfer.inputOps (block 4096 input k)

/-- The transfers of the first `j` partitions of the output. -/
def readOps (outputSize : ℤ) (i : ℕ) (data : ℕ → Bytes) (j : ℕ) : List Op :=
  (List.range j).flatMap fun k =>
    Transfer.outputOps i (partitionSize outputSize egressOnChipMemorySizeBytes k, data k)

theorem ops_transfer (hin : 16 ∣ input.length) (hout : 16 ∣ outputSize) (hpos : 0 ≤ outputSize)
    (data : ℕ → Bytes) (i : ℕ) :
    (transfer hin hout hpos data).ops i =
      .openOutput i ::
        (chunkOps input (numPartition input.length ingressOnChipMemorySizeBytes) ++
          readOps outputSize i data (numPartition outputSize egressOnChipMemorySizeBytes)) := by
  simp only [Transfer.ops, transfer, List.flatMap_map, chunkOps, readOps]

theorem chunkOps_zero : chunkOps input 0 = [] := rfl

theorem chunkOps_succ (j : ℕ) :
    chunkOps input (j + 1) = chunkOps input j ++ Transfer.inputOps (block 4096 input j) := by
  rw [chunkOps, List.range_succ, List.flatMap_append, List.flatMap_singleton]
  rfl

theorem readOps_succ (data : ℕ → Bytes) (j : ℕ) :
    readOps outputSize i data (j + 1) = readOps outputSize i data j ++
      Transfer.outputOps i (partitionSize outputSize egressOnChipMemorySizeBytes j, data j) := by
  rw [readOps, List.range_succ, List.flatMap_append, List.flatMap_singleton]
  rfl

theorem readOps_congr {data data' : ℕ → Bytes} {j : ℕ} (h : ∀ k < j, data k = data' k) :
    readOps outputSize i data j = readOps outputSize i data' j :=
  List.flatMap_congr fun k hk => by rw [h k (List.mem_range.mp hk)]

theorem range_prefix_of_le {j m : ℕ} (h : j ≤ m) : List.range j <+: List.range m := by
  obtain ⟨d, rfl⟩ := Nat.exists_eq_add_of_le h
  exact ⟨_, (List.range_add).symm⟩

theorem chunkOps_prefix_of_le {j m : ℕ} (h : j ≤ m) : chunkOps input j <+: chunkOps input m :=
  (range_prefix_of_le h).flatMap _

theorem readOps_prefix_of_le {data : ℕ → Bytes} {j m : ℕ} (h : j ≤ m) :
    readOps outputSize i data j <+: readOps outputSize i data m := (range_prefix_of_le h).flatMap _

/-- The offset of a partition is never negative. -/
theorem inputPartition_eq (input : Bytes) (fileSize : ℤ) (j : ℕ) :
    inputPartition hw input fileSize j = (do
      stageInput (createInputBin ((input.drop (j * ingressOnChipMemorySizeBytes).toNat).take
        (partitionSize fileSize ingressOnChipMemorySizeBytes j).toNat) j)
      queueIngressDescriptor (partitionSize fileSize ingressOnChipMemorySizeBytes j)
      pollRegister hw ingressSgdmaCsrAddr 0x00000002) := by
  have hoffset : ¬(j : ℤ) * ingressOnChipMemorySizeBytes < 0 :=
    not_lt.mpr (Int.mul_nonneg (Int.natCast_nonneg j) (by decide))
  unfold inputPartition
  rw [when_bind_of_not hoffset]

theorem ends_inputPartition {j : ℕ}
    (hj : j < numPartition input.length ingressOnChipMemorySizeBytes) :
    Ends (inputPartition hw input input.length j) l fun _ e =>
      ops e = Transfer.inputOps (block 4096 input j) := by
  have hdata : (input.drop ((j : ℤ) * ingressOnChipMemorySizeBytes).toNat).take
      (partitionSize input.length ingressOnChipMemorySizeBytes j).toNat = block 4096 input j := by
    have hdrop : ((j : ℤ) * ingressOnChipMemorySizeBytes).toNat = j * 4096 := by
      unfold ingressOnChipMemorySizeBytes
      omega
    rw [← length_chunk hj, Int.toNat_natCast, hdrop]
    exact (List.prefix_iff_eq_take.mp (List.take_prefix _ _)).symm
  rw [inputPartition_eq, hdata, ← length_chunk hj]
  apply Ends.bind_ok (ends_stageInput _ _ _)
  intro e he
  apply Ends.bind_ok (ends_queueIngressDescriptor _ _)
  intro e' he'
  apply ((silent_pollRegister _ _).ends _).mono
  intro _ e'' he''
  rw [ops_append, ops_append, he, he', he''.1]
  rfl

/-- A board that stops answering leaves a descriptor without a read. -/
theorem ends_outputPartition (j : ℕ) :
    Ends (outputPartition hw outputSize i j) l fun r e => ∃ d, Outcome
      (fun e => ops e = Transfer.outputOps i
        (partitionSize outputSize egressOnChipMemorySizeBytes j, d))
      (fun e => ops e <+: Transfer.outputOps i
        (partitionSize outputSize egressOnChipMemorySizeBytes j, d)) r e := by
  apply Ends.bind_ok (ends_queueEgressDescriptor _ _)
  intro e he
  refine Ends.bind ((silent_pollRegister _ _).ends _) (fun _ e' he' => ?_) fun s e' he' => ?_
  · refine Ends.bind (ends_readOutput _ _ _) ?_ fun _ _ ⟨_, hs, _⟩ => nomatch hs
    rintro _ e'' ⟨d, ⟨⟩, he''⟩
    refine Ends.emit ⟨d, ?_⟩
    simp only [Outcome, ops_append, he, he'.1, he'']
    rfl
  · refine ⟨[], ?_⟩
    simp only [Outcome, ops_append, he, he'.1]
    exact ⟨_, rfl⟩

theorem ends_inputPartitions {m : ℕ}
    (hm : m = numPartition input.length ingressOnChipMemorySizeBytes) :
    Ends (forRange m fun j => inputPartition hw input input.length j) l (Outcome
      (fun e => ops e = chunkOps input m) fun e => ops e <+: chunkOps input m) := by
  refine Ends.forRange (I := fun j e => ops e = chunkOps input j) chunkOps_zero.symm
    fun j e hj he => ?_
  apply (ends_inputPartition (hm ▸ hj)).mono
  intro r e' he'
  have hops : ops (e ++ e') = chunkOps input (j + 1) := by
    rw [ops_append, he, he', chunkOps_succ]
  cases r with
  | ok _ => exact hops
  | error _ =>
    simp only [Outcome, hops]
    exact chunkOps_prefix_of_le hj

theorem ends_outputPartitions (m : ℕ) :
    Ends (forRange m fun j => outputPartition hw outputSize i j) l (Outcome
      (fun e => ∃ data, ops e = readOps outputSize i data m)
      fun e => ∃ data, ops e <+: readOps outputSize i data m) := by
  refine Ends.forRange (I := fun j e => ∃ data, ops e = readOps outputSize i data j)
    ⟨fun _ => [], rfl⟩ ?_
  rintro j e hj ⟨data, he⟩
  apply (ends_outputPartition j).mono
  rintro r e' ⟨d, he'⟩
  -- the reads so far stay as they are, read `j` brought `d`
  have hdata : readOps outputSize i data j = readOps outputSize i (Function.update data j d) j :=
    readOps_congr fun k hk => (Function.update_of_ne hk.ne d data).symm
  have hsucc : readOps outputSize i (Function.update data j d) (j + 1) =
      readOps outputSize i data j ++ Transfer.outputOps i
        (partitionSize outputSize egressOnChipMemorySizeBytes j, d) := by
    rw [readOps_succ, Function.update_self, hdata]
  cases r with
  | ok _ =>
    refine ⟨Function.update data j d, ?_⟩
    rw [ops_append, he, he', hsucc]
  | error _ =>
    refine ⟨Function.update data j d, ?_⟩
    have hinit : ops (e ++ e') <+: readOps outputSize i (Function.update data j d) (j + 1) := by
      rw [ops_append, he, hsucc]
      exact (List.prefix_append_right_inj _).mpr he'
    exact hinit.trans (readOps_prefix_of_le hj)

/-- An inference makes all its transfers, or stops in the middle of them. -/
theorem ends_inference (hin : 16 ∣ input.length) (hout : 16 ∣ outputSize) (hpos : 0 ≤ outputSize) :
    Ends (inference hw input input.length outputSize i) l (Outcome
      (fun e => ∃ t : Transfer input outputSize, ops e = t.ops i)
      fun e => ∃ t : Transfer input outputSize, ops e <+: t.ops i) := by
  unfold inference
  generalize hm : numPartition input.length ingressOnChipMemorySizeBytes = m
  generalize hm' : numPartition outputSize egressOnChipMemorySizeBytes = m'
  have hopen : Ends (emit (.openOutput i) : Proc Unit) l fun r e =>
      r = .ok () ∧ ops e = [.openOutput i] := Ends.emit ⟨rfl, rfl⟩
  apply Ends.bind_ok hopen
  intro e he
  refine Ends.bind (ends_inputPartitions hm.symm) (fun _ e' he' => ?_) fun _ e' he' => ?_
  · refine Ends.bind (ends_outputPartitions m') ?_ ?_
    · rintro _ e'' ⟨data, he''⟩
      apply ((silent_checkInferenceCount _).ends _).mono
      intro r e₃ h₃
      have hops : ops (e ++ (e' ++ (e'' ++ e₃))) = (transfer hin hout hpos data).ops i := by
        rw [ops_transfer, hm, hm', ops_append, ops_append, ops_append, he, he', he'', h₃.1,
          List.append_nil]
        rfl
      cases r with
      | ok _ => exact ⟨_, hops⟩
      | error _ =>
        refine ⟨transfer hin hout hpos data, ?_⟩
        rw [hops]
    · rintro _ e'' ⟨data, he''⟩
      refine ⟨transfer hin hout hpos data, ?_⟩
      rw [ops_transfer, hm, hm', ops_append, ops_append, he, he', List.singleton_append,
        List.cons_prefix_cons, List.prefix_append_right_inj]
      exact ⟨rfl, he''⟩
  · refine ⟨transfer hin hout hpos fun _ => [], ?_⟩
    rw [ops_transfer, hm, ops_append, he, List.singleton_append, List.cons_prefix_cons]
    exact ⟨rfl, he'.trans (List.prefix_append _ _)⟩

end AlteraWorkshops.FpgaAi
