import AlteraWorkshops.Cnn.ExpandedLayer
import AlteraWorkshops.Cnn.PoolingRun

/-! A layer whose results are pooled: a convolution that keeps every pixel, and the pooling
behind it. -/

namespace AlteraWorkshops.Cnn.Convolution

open RowBuffer (Dense chosen chosen_of_dense sentPosition)
open RowExpander (released)

def sample {g : Generics} (s : State g) : Sample :=
  ⟨s.output, fun v => Fin.ofNat 128 (s.oData v).toNat⟩

def Generics.pooling (g : Generics) (columns rows : ℕ) : Pooling.Generics where
  inputColumns := g.inputColumns
  inputRows := g.inputRows
  inputValues := g.filters
  filterColumns := columns
  filterRows := rows
  inputCycles := g.filterCycles
  filterDelay := g.filterDelay

def resultTime (g : Generics) (lead arrive : ℕ → ℕ) (m k : ℕ) : ℕ :=
  sendTime g lead arrive (m + g.rowBuffer.lag) + g.latency k

def resultValue (g : Generics) (word : ℕ → ℕ → CnnValues) (m k : ℕ) : CnnValues := fun v =>
  if v < g.outFilters then Fin.ofNat 128 (imageResult g word m k v).toNat else 0

variable {g : Generics} {inp : ℕ → Sample} {lead arrive : ℕ → ℕ} {word : ℕ → ℕ → CnnValues}
  {columns rows k m t : ℕ}

theorem oData_eq_zero (t : ℕ) {v : ℕ} (hv : g.outFilters ≤ v) : (run g inp t).oData v = 0 := by
  induction t with
  | zero => rfl
  | succ t ih =>
    show (if (run g inp t).out.ready then fun v => if v < g.outFilters then
        (run g inp t).out.select g.out g.outFilters (run g inp t).mac.outRam v
      else (run g inp t).oData v else (run g inp t).oData) v = 0
    split_ifs
    · exact (if_neg (not_lt.mpr hv)).trans ih
    · exact ih

section Results

variable (hg : g.Valid) (hs : g.Sized) (h : Fed g inp lead arrive word) (hsh : g.Shifts)
  (hdense : Dense g.rowBuffer)

theorem sentPosition_of_dense (hdense : Dense g.rowBuffer) (c r : ℕ) :
    sentPosition g.rowBuffer c r = (c, r) := by
  obtain ⟨hpad, hstrides⟩ := hdense
  unfold sentPosition RowBuffer.corrected
  rw [hpad, hstrides, Nat.div_one, Nat.div_one]

include hg h in
/-- The results of a pixel are out before those of the next one. -/
theorem resultTime_lt (m : ℕ) (hk : k < g.filterCycles) :
    resultTime g lead arrive m k < resultTime g lead arrive (m + 1) 0 := by
  have hroom := sendTime_room h (m + g.rowBuffer.lag)
  have hout := hg.outRoom
  have hmul := Nat.mul_le_mul_right g.filterDelay hk.le
  unfold resultTime Generics.latency
  rw [Nat.add_right_comm m 1, Nat.zero_mul]
  omega

include hg hs h hsh hdense in
/-- What the layer sends are the results for every pixel. -/
theorem pooling_results : Pooling.Results (g.pooling columns rows)
    (fun t => sample (component g inp t)) (resultTime g lead arrive)
    (resultValue g (released g.format g.outputCycles lead arrive word)) where
  next := fun m k _ => by
    have hdelay := hg.filterDelay
    unfold resultTime Generics.latency
    rw [Nat.succ_mul]
    omega
  nextPixel := fun m k hk => resultTime_lt hg h m hk
  apart := fun m k _ => by
    have hroom := sendTime_room h (m + g.rowBuffer.lag)
    have helements := elements_gt_two hg
    unfold resultTime
    rw [Nat.add_right_comm m 1]
    omega
  dataValid := fun t ht => by
    have hsends := component_sends hg hs h (t := t) (by
      rw [resultTime, Nat.zero_add] at ht
      exact ht)
    refine hsends.trans ⟨?_, ?_⟩
    · rintro ⟨m, -, hm⟩
      exact ⟨m, hm⟩
    · rintro ⟨m, hm⟩
      exact ⟨m, chosen_of_dense hdense _ _, hm⟩
  stream := fun m k hk => by
    have hstream := (component_results hg hs h hsh (m := m) (chosen_of_dense hdense _ _) hk).1
    rw [sentPosition_of_dense hdense] at hstream
    exact hstream
  data := fun m k hk => by
    have hdata := (component_results hg hs h hsh (m := m) (chosen_of_dense hdense _ _) hk).2
    funext v
    show Fin.ofNat 128 ((component g inp (resultTime g lead arrive m k)).oData v).toNat = _
    unfold resultValue
    split_ifs with hv
    · exact congrArg _ (Numbers.toNat_of_toInt (hdata v hv) (g.neuron.output_range _ _).1)
    · have hzero : (component g inp (resultTime g lead arrive m k)).oData v = 0 :=
        oData_eq_zero _ (not_lt.mp hv)
      rw [hzero]
      rfl

end Results

end AlteraWorkshops.Cnn.Convolution
