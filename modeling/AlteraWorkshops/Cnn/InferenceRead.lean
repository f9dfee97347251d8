import AlteraWorkshops.Cnn.NnLayerRun
import AlteraWorkshops.OneAi.Methods

/-! The way of a result from the last layer of the network to the bus: the layer sends the
classes one after the other, the interface stores each, and a client reads them. -/

namespace AlteraWorkshops.Cnn.NnLayer

open OneAi (OutputData PacedReads Ports WritesClass autoReads startsAuto)

/-- `oStream_1`, `oCycle_1` and `oData_1` of the interface are the outputs of the layer, one
value at a time. -/
structure Drives (n : Generics) (feed : ℕ → Input) (inp : ℕ → Ports) : Prop where
  dataValid : ∀ t, (inp t).oDataValid = (run n feed t).oDataValid
  cycle : ∀ t, (inp t).oCycle1 = (run n feed t).oCycle
  data : ∀ t, (inp t).oData1 = Fin.ofNat 128 ((run n feed t).oData 0).toNat
  resetN : ∀ t, (inp t).resetN = true

/-- Output `k` of image `j` as a value. -/
def classValue (n : Generics) (x : ℕ → CnnValues) (j k : ℕ) : OneAi.CnnValue :=
  Fin.ofNat 128 (n.neuron.output
    (n.neuron.total (fun c => x (j * n.inputCycles + c)) (row n k) n.inputCycles)
    (n.neuron.biasConst n.weights n.inputs k)).toNat

/-- A layer with an output for each class, one value at a time. -/
structure Generics.Classes (n : Generics) : Prop extends n.Valid, n.Safe where
  outputs : n.outputs = 10
  cycles : n.outputCycles = 10

variable {n : Generics} {g : OneAi.Generics} {feed : ℕ → Input} {inp : ℕ → Ports} {start : ℕ → ℕ}
  {x : ℕ → CnnValues} {starts : ℕ → Bool} {c j k r t u : ℕ}

section Store

variable (hn : n.Classes) (h : Feeds n feed start x) (hd : Drives n feed inp)

include hn in
theorem outValues_eq_one : n.outValues = 1 := by
  unfold Generics.outValues
  rw [hn.outputs, hn.cycles]

include hn h in
theorem outputAt_lt (j k : ℕ) : outputAt n start j k < outputAt n start (j + 1) k := by
  have hroom := h.outRoom j
  have hpos : 0 < n.outputCycles * n.outputDelay :=
    Nat.mul_pos (by rw [hn.cycles]; decide) hn.outputDelay
  unfold outputAt
  omega

include hn h hd in
/-- What the interface gets with output `k` of image `j`. -/
theorem drives_output (j : ℕ) (hk : k < 10) :
    (inp (outputAt n start j k)).oDataValid = true ∧
      (inp (outputAt n start j k)).oCycle1 = k ∧
      (inp (outputAt n start j k)).oData1 = classValue n x j k := by
  have hcycles := hn.cycles
  have hvalues := outValues_eq_one hn
  have hk' : k < n.outputCycles := by omega
  have hv : 0 < n.outValues := by omega
  obtain ⟨hcycle, hdata⟩ := oData_eq_result hn.toValid h j hk' hv
  have hresult := toInt_result hn.toValid hn.toSafe x j (k := k) (v := 0)
    (by rw [← hn.outputCycles]; exact hk')
    (by unfold Generics.calcOutputs; rw [← hn.outputCycles]; exact hv)
  have hone : n.calcOutputs = 1 := by
    unfold Generics.calcOutputs
    rw [← hn.outputCycles]
    exact hvalues
  rw [← hdata, hone, Nat.mul_one, Nat.add_zero] at hresult
  refine ⟨?_, ?_, ?_⟩
  · rw [hd.dataValid]
    exact (oDataValid_iff hn.toValid h _).mpr ⟨j, k, hk', rfl⟩
  · rw [hd.cycle, hcycle]
  · rw [hd.data, Numbers.toNat_of_toInt hresult (n.neuron.output_range _ _).1]
    rfl

include hn h hd in
/-- Only the outputs with the number of a class are stored for it. -/
theorem eq_outputAt (ht : (inp t).oDataValid = true) : ∃ j, ∃ k < 10, (inp t).oCycle1 = k ∧
    t = outputAt n start j k := by
  rw [hd.dataValid, oDataValid_iff hn.toValid h] at ht
  obtain ⟨j, k, hk, rfl⟩ := ht
  rw [hn.cycles] at hk
  exact ⟨j, k, hk, (drives_output hn h hd j hk).2.1, rfl⟩

theorem outputData_succ (hr : (inp t).resetN = true) (i : Fin 10) :
    (OneAi.run g inp (t + 1)).result.outputData i =
      if (inp t).oDataValid = true ∧ (inp t).oCycle1 = i.val then (inp t).oData1
      else (OneAi.run g inp t).result.outputData i := by
  show (OneAi.resultProcess (OneAi.run g inp t) (inp t)).outputData i = _
  have hmax : (OneAi.outputDimensions 0).maxClasses = 10 := rfl
  have hi := i.isLt
  by_cases hw : (inp t).oDataValid = true ∧ (inp t).oCycle1 = i.val
  · obtain ⟨hvalid, hcycle⟩ := hw
    have hin : (inp t).oCycle1 < 10 := by omega
    rw [if_pos ⟨hvalid, hcycle⟩]
    simp only [OneAi.resultProcess, hr, hvalid, hmax, hin, Bool.not_true, Bool.false_eq_true,
      ↓reduceIte]
    split_ifs <;> exact if_pos hcycle.symm
  · rw [if_neg hw]
    have hother (hvalid : (inp t).oDataValid = true) : i.val ≠ (inp t).oCycle1 :=
      fun hcycle => hw ⟨hvalid, hcycle.symm⟩
    simp only [OneAi.resultProcess, hr, hmax, Bool.not_true, Bool.false_eq_true, ↓reduceIte]
    split_ifs with hclear hvalid <;> first | rfl | exact if_neg (hother ‹_›)

include hn h hd in
/-- From its output on a class is stored until the next image. -/
theorem stored (g : OneAi.Generics) (j : ℕ) (hk : k < 10) (h1 : outputAt n start j k < t)
    (h2 : t ≤ outputAt n start (j + 1) k) :
    (OneAi.run g inp t).result.outputData ⟨k, hk⟩ = classValue n x j k := by
  induction t, h1 using Nat.le_induction with
  | base =>
    obtain ⟨hvalid, hcycle, hdata⟩ := drives_output hn h hd j hk
    rw [outputData_succ (hd.resetN _), if_pos ⟨hvalid, hcycle⟩, hdata]
  | succ t ht ih =>
    have hmono : StrictMono fun j => outputAt n start j k :=
      strictMono_nat_of_lt_succ fun j => outputAt_lt hn h j k
    rw [outputData_succ (hd.resetN _), if_neg, ih (by omega)]
    rintro ⟨hvalid, hcycle⟩
    obtain ⟨i, k', -, hk', hi⟩ := eq_outputAt hn h hd hvalid
    obtain rfl : k' = k := hk'.symm.trans hcycle
    have hlow : j < i := hmono.lt_iff_lt.mp (by omega)
    have hhigh : i < j + 1 := hmono.lt_iff_lt.mp (by omega)
    omega

end Store

/-- What a client reads: after class `c` was written each read of 0x04 returns the class
after that of the read before, and its value is that of the last image whose output for this
class was stored before the read. -/
theorem read_results (g : OneAi.Generics) (hn : n.Classes) (h : Feeds n feed start x)
    (hd : Drives n feed inp) (hw : WritesClass inp t c) (hc : c < 10)
    (hp : PacedReads inp starts t) (m : ℕ) (hs : startsAuto inp starts (t + 1 + m)) (j : ℕ)
    (h1 : outputAt n start j ((c + autoReads inp starts t m) % 10) < t + 1 + m)
    (h2 : t + 1 + m ≤ outputAt n start (j + 1) ((c + autoReads inp starts t m) % 10)) :
    (OneAi.run g inp (t + 1 + m + 1)).slave.avsReaddata =
      BitVec.ofNat 32 (classValue n x j ((c + autoReads inp starts t m) % 10)).val := by
  have hlt : (c + autoReads inp starts t m) % 10 < 10 := Nat.mod_lt _ (by decide)
  have hread : (inp (t + 1 + m)).reads 4 = true :=
    Ports.reads_iff.mpr ⟨hp.read_of_start (by omega) hs.1, hs.2⟩
  have hclass := hp.classesAt_count (g := g) hw hc m
  rw [← stored hn h hd g j hlt h1 h2]
  exact OneAi.readdata_class (hd.resetN _) (.inr hread) rfl ⟨_, hlt⟩ hclass

/-! ### A small layer with ten classes -/

def ten : Generics where
  inputs := 2
  outputs := 10
  activation := .relu
  inputCycles := 2
  calcCycles := 10
  outputCycles := 10
  outputDelay := 1
  offsetIn := 3
  offsetOut := 4
  offset := 0
  weights := fun r c => cnnWeight (4 * r + 3 * c - 10)

def tenData (c : ℕ) : CnnValues := fun _ => Fin.ofNat 128 c

/-- An input every ten edges. -/
def tenFeed (t : ℕ) : Input := ⟨t % 10 == 0, t / 10 % 2, tenData (t / 10)⟩

/-- The outputs of an image are out when class 4 is written and two classes are read. -/
def tenStarts (u : ℕ) : Bool := u == 37 || u == 40

def tenPorts (t : ℕ) : Ports :=
  { Ports.silent with
    oDataValid := (run ten tenFeed t).oDataValid
    oCycle1 := (run ten tenFeed t).oCycle
    oData1 := Fin.ofNat 128 ((run ten tenFeed t).oData 0).toNat
    avsAddress := if t = 35 then 0x20 else 4
    avsRead := t == 37 || t == 38 || t == 40 || t == 41
    avsWrite := t == 35
    avsWritedata := 0x00040000 }

theorem ten_classes : ten.Classes :=
  ⟨⟨by decide, by decide, rfl, by decide, ⟨by decide, by decide, rfl, rfl⟩, by decide⟩,
    ⟨⟨by decide, by decide, by decide⟩, ⟨rfl, by decide, by decide, by decide, by decide⟩,
      by decide, by decide⟩, rfl, rfl⟩

theorem ten_feeds : Feeds ten tenFeed (10 * ·) tenData := by
  refine ⟨fun c => le_rfl, fun j => ?_, fun t => ?_, fun c => ?_, fun c => ?_⟩
  · show 10 * (j * 2 + 1) + 10 * 1 ≤ 10 * ((j + 1) * 2 + 1)
    omega
  · show (t % 10 == 0) = true ↔ _
    rw [beq_iff_eq]
    exact ⟨fun h => ⟨t / 10, by omega⟩, fun ⟨c, hc⟩ => by omega⟩
  · show 10 * c / 10 % 2 = c % 2
    rw [Nat.mul_div_cancel_left c (by decide)]
  · show tenData (10 * c / 10) = tenData c
    rw [Nat.mul_div_cancel_left c (by decide)]

theorem ten_drives : Drives ten tenFeed tenPorts :=
  ⟨fun _ => rfl, fun _ => rfl, fun _ => rfl, fun _ => rfl⟩

theorem tenPorts_paced : PacedReads tenPorts tenStarts 35 where
  idle := rfl
  noStart := rfl
  resetN _ _ := rfl
  noWrite u hu := by
    have hwrite : (tenPorts u).avsWrite = false := beq_eq_false_iff_ne.mpr (by omega)
    rw [Ports.writesPosition, hwrite]
    rfl
  read u _ := by
    rw [Bool.eq_iff_iff]
    simp [tenPorts, tenStarts]
    omega
  address u hs := by
    have hstart : u = 37 ∨ u = 40 := by simpa [tenStarts] using hs
    rcases hstart with rfl | rfl <;> rfl
  apart u hs := by
    have hstart : u = 37 ∨ u = 40 := by simpa [tenStarts] using hs
    rcases hstart with rfl | rfl <;> exact ⟨rfl, rfl⟩

theorem read_results_ten :
    (OneAi.run ⟨0x80000, fun _ => 0⟩ tenPorts 41).slave.avsReaddata =
      BitVec.ofNat 32 (classValue ten tenData 0 5).val := by
  have hclass : (4 + autoReads tenPorts tenStarts 35 4) % 10 = 5 := by decide
  have hread := read_results ⟨0x80000, fun _ => 0⟩ ten_classes ten_feeds
    ten_drives (t := 35) (c := 4) ⟨rfl, rfl, rfl, rfl⟩ (by decide) tenPorts_paced 4 ⟨rfl, rfl⟩ 0
  rw [hclass] at hread
  exact hread (by decide) (by decide)

end AlteraWorkshops.Cnn.NnLayer
