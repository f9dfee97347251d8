import AlteraWorkshops.Cnn.ConvolutionRun
import AlteraWorkshops.Cnn.ImageWindows
import Mathlib.Data.Nat.Nth

/-! A layer of the network: the convolution behind its row buffer, for a raster image. -/

namespace AlteraWorkshops.Cnn.RowBuffer

variable {g : Generics} {inp : ℕ → Sample} {time column : ℕ → ℕ} {k p t : ℕ}

/-! ### The matrices that are sent -/

/-- The matrix of position `k` is sent as a whole. -/
def Whole (g : Generics) (inp : ℕ → Sample) (time column : ℕ → ℕ) (k : ℕ) : Prop :=
  0 < k ∧ sent g inp time column k = true

/-- From the second position on the input stays long enough for a matrix. The first one may
be cut, then the matrix of the second one follows it without a gap. -/
structure Spaced (g : Generics) (inp : ℕ → Sample) (time column : ℕ → ℕ) : Prop where
  cut : time 1 ≤ g.elements
  room : ∀ k, 0 < k → time k + g.elements < time (k + 1)
  start : sent g inp time column 0 = true → sent g inp time column 1 = true
  infinite : {k | Whole g inp time column k}.Infinite

/-- The position whose matrix is the one of number `p`. -/
noncomputable def positionOf (g : Generics) (inp : ℕ → Sample) (time column : ℕ → ℕ) (p : ℕ) : ℕ :=
  Nat.nth (Whole g inp time column) p

/-- The first matrix begins with the one that is cut. -/
def Merged (g : Generics) (inp : ℕ → Sample) (time column : ℕ → ℕ) (p : ℕ) : Prop :=
  p = 0 ∧ sent g inp time column 0 = true

instance (g : Generics) (inp : ℕ → Sample) (time column : ℕ → ℕ) :
    DecidablePred (Merged g inp time column) := fun p =>
  inferInstanceAs (Decidable (p = 0 ∧ sent g inp time column 0 = true))

/-- The edge with which matrix `p` begins, and its length. -/
noncomputable def beginsAt (g : Generics) (inp : ℕ → Sample) (time column : ℕ → ℕ) (p : ℕ) : ℕ :=
  if Merged g inp time column p then 4 else time (positionOf g inp time column p) + 4

def lengthAt (g : Generics) (inp : ℕ → Sample) (time column : ℕ → ℕ) (p : ℕ) : ℕ :=
  if Merged g inp time column p then time 1 + g.elements else g.elements

section Sent

variable (hs : Spaced g inp time column)

include hs in
theorem whole_positionOf (p : ℕ) : Whole g inp time column (positionOf g inp time column p) :=
  Nat.nth_mem_of_infinite hs.infinite p

include hs in
theorem positionOf_strictMono : StrictMono (positionOf g inp time column) :=
  Nat.nth_strictMono hs.infinite

theorem exists_positionOf (hk : Whole g inp time column k) :
    ∃ p, positionOf g inp time column p = k := by
  classical
  exact ⟨Nat.count (Whole g inp time column) k, Nat.nth_count hk⟩

include hs in
/-- If the first matrix is cut the next one is the first that is whole. -/
theorem positionOf_merged (hp : Merged g inp time column p) :
    positionOf g inp time column p = 1 := by
  obtain ⟨rfl, hsent⟩ := hp
  obtain ⟨q, hq⟩ := exists_positionOf (k := 1) ⟨Nat.zero_lt_one, hs.start hsent⟩
  have hle := (positionOf_strictMono hs).monotone (Nat.zero_le q)
  have hpos := (whole_positionOf hs 0).1
  omega

include hs in
/-- A matrix ends a length after its position has come. -/
theorem ends_eq (p : ℕ) : beginsAt g inp time column p + lengthAt g inp time column p =
    time (positionOf g inp time column p) + 4 + g.elements := by
  unfold beginsAt lengthAt
  split_ifs with hp
  · rw [positionOf_merged hs hp]
    omega
  · rfl

include hs in
theorem beginsAt_room (h : Moves g inp time column) (p : ℕ) :
    beginsAt g inp time column p + lengthAt g inp time column p <
      beginsAt g inp time column (p + 1) := by
  have hmono := strictMono_nat_of_lt_succ h.lt
  have hnext : ¬Merged g inp time column (p + 1) := fun hm => absurd hm.1 p.succ_ne_zero
  have hlt := positionOf_strictMono hs (Nat.lt_succ_self p)
  have hroom := hs.room _ (whole_positionOf hs p).1
  have hle : time (positionOf g inp time column p + 1) ≤
      time (positionOf g inp time column (p + 1)) := hmono.monotone hlt
  rw [ends_eq hs, beginsAt, if_neg hnext]
  omega

include hs in
/-- The output is valid while one of the matrices is sent. -/
theorem dataValid_matrices (hg : g.Counts) (h : Moves g inp time column) (t : ℕ) :
    (output g inp t).stream.dataValid = true ↔ ∃ p, beginsAt g inp time column p ≤ t ∧
      t < beginsAt g inp time column p + lengthAt g inp time column p := by
  have hfirst := h.first
  have hcut := hs.cut
  rw [dataValid_iff hg h]
  constructor
  · rintro ⟨k, h1, h2, h3, hsent⟩
    rcases Nat.eq_zero_or_pos k with rfl | hk
    · have hm : Merged g inp time column 0 := ⟨rfl, hsent⟩
      refine ⟨0, ?_, ?_⟩
      · rw [beginsAt, if_pos hm]
        omega
      · rw [ends_eq hs, positionOf_merged hs hm]
        omega
    · obtain ⟨p, rfl⟩ := exists_positionOf ⟨hk, hsent⟩
      refine ⟨p, ?_, ?_⟩
      · unfold beginsAt
        split_ifs <;> omega
      · rw [ends_eq hs]
        omega
  · rintro ⟨p, h1, h2⟩
    obtain ⟨hpos, hsent⟩ := whole_positionOf hs p
    have hroom := hs.room _ hpos
    rw [ends_eq hs] at h2
    rcases Nat.lt_or_ge t (time (positionOf g inp time column p) + 4) with hlt | hge
    · -- the cut matrix
      have hm : Merged g inp time column p := by
        by_contra hne
        rw [beginsAt, if_neg hne] at h1
        omega
      rw [beginsAt, if_pos hm] at h1
      rw [positionOf_merged hs hm] at hlt
      exact ⟨0, by omega, hlt, by omega, hm.2⟩
    · exact ⟨_, hge, by omega, h2, hsent⟩

end Sent

end AlteraWorkshops.Cnn.RowBuffer

namespace AlteraWorkshops.Cnn.Convolution

def Generics.rowBuffer (g : Generics) : RowBuffer.Generics where
  inputColumns := g.inputColumns
  inputRows := g.inputRows
  inputValues := g.inputValues
  filterColumns := g.filterColumns
  filterRows := g.filterRows
  inputCycles := g.inputCycles
  valueCycles := g.valueCycles
  calcCycles := g.calcCycles
  strides := g.strides
  padding := g.padding

/-- The convolution behind its row buffer. -/
def buffered (g : Generics) (inp : ℕ → Sample) : ℕ → State g :=
  run g (RowBuffer.output g.rowBuffer inp)

open RowBuffer (Raster Spaced Moves window chosen positionOf beginsAt lengthAt Merged sent)

variable {g : Generics} {inp : ℕ → Sample} {time column : ℕ → ℕ} {word : ℕ → ℕ → CnnValues}
  {k m o p t : ℕ}

theorem rowBuffer_elements (g : Generics) : g.rowBuffer.elements = g.elements := by
  show g.filterRows * g.filterColumns * g.valueCycles * g.calcCycles =
    g.calcCycles * (g.filterColumns * g.filterRows * g.valueCycles)
  ring

section Matrices

variable (hg : g.rowBuffer.Counts) (h : Moves g.rowBuffer inp time column)
  (hs : Spaced g.rowBuffer inp time column)

include hg h hs in
/-- What the row buffer sends are matrices for the convolution. -/
theorem matrices : Matrices g (RowBuffer.output g.rowBuffer inp)
    (beginsAt g.rowBuffer inp time column) (lengthAt g.rowBuffer inp time column) := by
  refine ⟨fun p => ?_, fun p => RowBuffer.beginsAt_room hs h p,
    fun t => RowBuffer.dataValid_matrices hs hg h t⟩
  rw [← rowBuffer_elements, lengthAt]
  split_ifs <;> omega

end Matrices

/-- Edges from the position with which a matrix is sent to its result set `k`. -/
def Generics.latency (g : Generics) (k : ℕ) : ℕ := g.elements + 8 + k * g.filterDelay

/-- Edges from the beginning of a matrix to the one in which its last result is read. -/
def Generics.hold (g : Generics) : ℕ :=
  g.elements + 2 + (g.filterCycles - 1) * g.filterDelay + 1

theorem finish_eq (begins : ℕ → ℕ) (p : ℕ) : finish g begins p = begins p + g.hold := by
  unfold finish readAt Generics.hold
  omega

/-- What the layer makes of pixel `m` for value `v` of result set `k`. -/
def imageResult (g : Generics) (word : ℕ → ℕ → CnnValues) (m k v : ℕ) : ℤ :=
  g.neuron.output
    (g.neuron.total (window g.rowBuffer word m) (row g (k * g.outFilters + v))
      g.matrixValueCycles)
    (g.neuron.biasConst g.weights (g.matrixValues * g.inputValues) (k * g.outFilters + v))

section Image

variable (hg : g.Valid) (hf : g.rowBuffer.Frames) (hs : Spaced g.rowBuffer inp time column)
  (h : Raster g.rowBuffer inp time column o word)

include hf h in
theorem sent_iff (m : ℕ) : sent g.rowBuffer inp time column (o + (m + g.rowBuffer.lag)) =
    chosen g.rowBuffer (g.rowBuffer.format.column m) (g.rowBuffer.format.row m) := by
  obtain ⟨hcolumn, hrow, -⟩ := RowBuffer.centers_lag hf h m
  unfold sent
  rw [hcolumn, hrow]

include hf hs h in
theorem exists_matrix (ho : 2 ≤ o) (m : ℕ)
    (hm : chosen g.rowBuffer (g.rowBuffer.format.column m) (g.rowBuffer.format.row m) = true) :
    ∃ p, ¬Merged g.rowBuffer inp time column p ∧
      positionOf g.rowBuffer inp time column p = o + (m + g.rowBuffer.lag) := by
  have hwhole : RowBuffer.Whole g.rowBuffer inp time column (o + (m + g.rowBuffer.lag)) :=
    ⟨by omega, by rw [sent_iff hf h, hm]⟩
  obtain ⟨p, hp⟩ := RowBuffer.exists_positionOf hwhole
  refine ⟨p, fun hmerged => ?_, hp⟩
  rw [RowBuffer.positionOf_merged hs hmerged] at hp
  omega

theorem beginsAt_of_not_merged (hp : ¬Merged g.rowBuffer inp time column p) :
    beginsAt g.rowBuffer inp time column p =
      time (positionOf g.rowBuffer inp time column p) + 4 := if_neg hp

include hf hs h in
theorem values_eq {m : ℕ}
    (hm : chosen g.rowBuffer (g.rowBuffer.format.column m) (g.rowBuffer.format.row m) = true)
    (ho : 2 ≤ o) (hmerged : ¬Merged g.rowBuffer inp time column p)
    (hp : positionOf g.rowBuffer inp time column p = o + (m + g.rowBuffer.lag)) {c s : ℕ}
    (hk : k < g.calcCycles) (hc : c < g.matrixValueCycles) (hv : s < g.calcSteps) :
    values (RowBuffer.output g.rowBuffer inp) (beginsAt g.rowBuffer inp time column) p
      (c * g.calcCycles + k) s = window g.rowBuffer word m c s := by
  have hlt : c * g.calcCycles + k < g.rowBuffer.elements :=
    (element_lt hk hc).trans_eq (rowBuffer_elements g).symm
  have hread := RowBuffer.oData_run hf h m hm (hs.room _ (by omega)) hlt hv
  have hstep : (c * g.calcCycles + k) / g.rowBuffer.calcCycles = c := (Numbers.div_mod_eq' hk).1
  rw [hstep] at hread
  rw [← hread, ← hp]
  unfold values
  rw [beginsAt_of_not_merged hmerged]
  show (RowBuffer.run _ _ _).oData s = _
  congr 2
  omega

include hg hf hs h in
/-- The result sets of a pixel, under its position without the pixels that are left out. -/
theorem image_results (hsh : g.Shifts) (ho : 2 ≤ o) {m : ℕ}
    (hne : ∀ q, finish g (beginsAt g.rowBuffer inp time column) q ≠
      beginsAt g.rowBuffer inp time column (q + 1))
    (hm : chosen g.rowBuffer (g.rowBuffer.format.column m) (g.rowBuffer.format.row m) = true)
    (hk : k < g.filterCycles) :
    (buffered g inp (time (o + (m + g.rowBuffer.lag)) + g.latency k)).output =
        ⟨(RowBuffer.sentPosition g.rowBuffer (g.rowBuffer.format.column m)
            (g.rowBuffer.format.row m)).1,
          (RowBuffer.sentPosition g.rowBuffer (g.rowBuffer.format.column m)
            (g.rowBuffer.format.row m)).2, k, true⟩ ∧
      ∀ v < g.outFilters,
        ((buffered g inp (time (o + (m + g.rowBuffer.lag)) + g.latency k)).oData v).toInt =
          imageResult g word m k v := by
  have hcounts := hf.toCounts
  have hmatrices := matrices hcounts h.toMoves hs
  obtain ⟨p, hmerged, hp⟩ := exists_matrix hf hs h ho m hm
  have hbegins := beginsAt_of_not_merged hmerged
  rw [hp] at hbegins
  have hread : time (o + (m + g.rowBuffer.lag)) + g.latency k =
      readAt g (beginsAt g.rowBuffer inp time column) p k + 1 := by
    unfold readAt Generics.latency
    rw [hbegins]
    omega
  have hlen : ∀ q, p ≤ q → lengthAt g.rowBuffer inp time column q = g.elements := fun q hq => by
    have hnot : ¬Merged g.rowBuffer inp time column q := fun hm => by
      obtain rfl : p = q := by
        have hzero := hm.1
        omega
      exact hmerged hm
    rw [lengthAt, if_neg hnot, rowBuffer_elements]
  have hsent := RowBuffer.oStream_run hcounts h.toMoves (o + (m + g.rowBuffer.lag)) (d := 0)
    (h.lt _)
  obtain ⟨hcolumn, hrow, -⟩ := RowBuffer.centers_lag hf h m
  have hposition : position (RowBuffer.output g.rowBuffer inp)
      (beginsAt g.rowBuffer inp time column) p = RowBuffer.sentPosition g.rowBuffer
        (g.rowBuffer.format.column m) (g.rowBuffer.format.row m) := by
    have hstream := hsent.2 (RowBuffer.elements_pos hcounts) (by rw [sent_iff hf h, hm])
    unfold position RowBuffer.output
    rw [hbegins]
    dsimp only
    rw [show time (o + (m + g.rowBuffer.lag)) + 4 = time (o + (m + g.rowBuffer.lag)) + 0 + 4 from
      rfl, hstream, hcolumn, hrow]
  obtain ⟨-, hout, hdata⟩ := output_eq_total hg hmatrices hsh hne hlen
  rw [hread]
  refine ⟨?_, fun v hv => ?_⟩
  · have hstream := hout p k hk
    rw [hposition] at hstream
    exact hstream
  · have hvalue := hdata p le_rfl k hk v hv
    refine hvalue.trans ?_
    unfold imageResult
    congr 1
    refine Neuron.total_congr hg.tiled (fun c hc s hs' => ?_) fun _ _ _ _ => rfl
    refine values_eq hf hs h hm ho hmerged hp ?_ hc ?_
    · rw [← hg.filterCycles]
      exact hk
    · rw [← sumInputValues_eq hg]
      exact hs'

include hg hf hs h in
/-- From the result for the first pixel on nothing else is sent. -/
theorem image_sends (ho : 2 ≤ o) (ht : time (o + g.rowBuffer.lag) + g.latency 0 ≤ t) :
    (buffered g inp t).output.dataValid = true ↔
      ∃ m, chosen g.rowBuffer (g.rowBuffer.format.column m) (g.rowBuffer.format.row m) = true ∧
        ∃ k < g.filterCycles, t = time (o + (m + g.rowBuffer.lag)) + g.latency k := by
  have hmatrices := matrices hf.toCounts h.toMoves hs
  have hmono := (strictMono_nat_of_lt_succ h.lt).monotone
  have helements := rowBuffer_elements g
  have houtRoom := hg.outRoom
  have hearly (k : ℕ) (hk : k < g.filterCycles) : k * g.filterDelay < g.elements :=
    (Nat.mul_le_mul_right _ hk.le).trans_lt houtRoom
  unfold Generics.latency at ht ⊢
  refine (output_dataValid_iff hg hmatrices t).trans ?_
  unfold readAt
  constructor
  · rintro ⟨p, k, hk, rfl⟩
    have hlt := hearly k hk
    by_cases hmerged : Merged g.rowBuffer inp time column p
    · -- the cut matrix is over
      have hroom := hs.room 1 Nat.zero_lt_one
      have hle := hmono (show 1 + 1 ≤ o + g.rowBuffer.lag by omega)
      rw [beginsAt, if_pos hmerged] at ht
      omega
    · rw [beginsAt_of_not_merged hmerged] at ht ⊢
      obtain ⟨hpos, hsent⟩ := RowBuffer.whole_positionOf hs p
      rcases Nat.lt_or_ge (positionOf g.rowBuffer inp time column p) (o + g.rowBuffer.lag) with
        hbefore | hlag
      · have hroom := hs.room _ hpos
        have hle : time (positionOf g.rowBuffer inp time column p + 1) ≤ _ := hmono hbefore
        omega
      · obtain ⟨m, hm⟩ := Nat.exists_eq_add_of_le hlag
        have hposition : positionOf g.rowBuffer inp time column p =
            o + (m + g.rowBuffer.lag) := by omega
        rw [hposition] at hsent ⊢
        rw [sent_iff hf h] at hsent
        exact ⟨m, hsent, k, hk, by omega⟩
  · rintro ⟨m, hm, k, hk, rfl⟩
    obtain ⟨p, hmerged, hp⟩ := exists_matrix hf hs h ho m hm
    refine ⟨p, k, hk, ?_⟩
    rw [beginsAt_of_not_merged hmerged, hp]
    omega

end Image

end AlteraWorkshops.Cnn.Convolution
