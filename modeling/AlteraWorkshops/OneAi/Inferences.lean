import AlteraWorkshops.OneAi.Methods
import AlteraWorkshops.Shared.Rounds

/-! The ten values of `display_ai_status` while the CNN stores results. An inference
stores its classes one by one, in order, and the firmware reads them one by one, with
text output in between: each value is that of the last inference that got to its class
before it was read. -/

namespace AlteraWorkshops.OneAi

open Shared (latest strobes)

variable {g : Generics} {inp : ℕ → Ports} {starts : ℕ → Bool} {t u : ℕ} {r : ℕ → OutputData}

/-- The strobes before cycle `u`. -/
def stored (inp : ℕ → Ports) (u : ℕ) : ℕ := strobes (fun v => (inp v).oDataValid) u

/-- Inference after inference, the strobes carry the results of the classes in order;
`r m` are the results of inference `m`. -/
def Infers (inp : ℕ → Ports) (r : ℕ → OutputData) : Prop :=
  ∀ u, (inp u).oDataValid = true →
    (inp u).oCycle1 = stored inp u % 10 ∧
      ∀ c : Fin 10, stored inp u % 10 = c.val → (inp u).oData1 = r (stored inp u / 10) c

/-- One run of the ten reads: class 0 is selected in cycle `t`, and read `i` of 0x04
starts in cycle `ρ i`. -/
structure TenReads (inp : ℕ → Ports) (starts : ℕ → Bool) (t : ℕ) (ρ : Fin 10 → ℕ) : Prop where
  select : WritesClass inp t 0
  paced : PacedReads inp starts t
  later : ∀ i, t < ρ i
  start : ∀ i, startsAuto inp starts (ρ i)
  index : ∀ i, autoReads inp starts t (ρ i - (t + 1)) = i

/-- The value printed for class `i`, sampled in the second cycle of its read. -/
def printed (g : Generics) (inp : ℕ → Ports) (ρ : Fin 10 → ℕ) (i : Fin 10) : BitVec 32 :=
  (run g inp (ρ i + 1)).slave.avsReaddata

/-! ### The store -/

theorem outputData_next (hn : (inp u).resetN = true) (c : Fin 10) :
    (run g inp (u + 1)).result.outputData c =
      if (inp u).oDataValid = true ∧ c.val = (inp u).oCycle1 then (inp u).oData1
      else (run g inp u).result.outputData c := by
  show (resultProcess (run g inp u) (inp u)).outputData c = _
  have hlast : (outputDimensions 0).maxClasses = 10 := rfl
  simp only [resultProcess, hn, hlast, Bool.not_true, Bool.false_eq_true, ↓reduceIte]
  by_cases hv : (inp u).oDataValid = true
  · by_cases hslot : c.val = (inp u).oCycle1
    · have hc : (inp u).oCycle1 < 10 := hslot ▸ c.isLt
      cases (run g inp u).slave.newImageRead <;> simp [hv, hc, hslot] <;> split_ifs <;> simp [hslot]
    · cases (run g inp u).slave.newImageRead <;> simp [hv, hslot] <;> split_ifs <;> simp [hslot]
  · cases (run g inp u).slave.newImageRead <;> simp [hv]

/-- A class holds the result of the last inference that got to it. -/
theorem outputData_latest (hn : ∀ u, (inp u).resetN = true) (hr : Infers inp r) (u : ℕ)
    (c : Fin 10) :
    (run g inp u).result.outputData c =
      (latest 10 (stored inp u) c).elim 0 fun m => r m c := by
  refine Shared.slot_eq (x := fun u => (run g inp u).result.outputData) (by decide)
    (fun u c => ?_) u c
  show (run g inp (u + 1)).result.outputData c = _
  rw [outputData_next (hn u)]
  by_cases hv : (inp u).oDataValid = true
  · obtain ⟨hcycle, hdata⟩ := hr u hv
    rw [hcycle]
    by_cases hc : stored inp u % 10 = c.val
    · rw [if_pos ⟨hv, hc.symm⟩, if_pos ⟨hv, hc⟩]
      exact hdata c hc
    · rw [if_neg fun h => hc h.2.symm, if_neg fun h => hc h.2]
  · rw [if_neg fun h => hv h.1, if_neg fun h => hv h.1]

/-! ### The reads -/

/-- The value printed for class `i` is the one stored when its read starts. -/
theorem TenReads.printed_eq {ρ : Fin 10 → ℕ} (h : TenReads inp starts t ρ)
    (hn : ∀ u, (inp u).resetN = true) (hr : Infers inp r) (i : Fin 10) :
    printed g inp ρ i =
      BitVec.ofNat 32 ((latest 10 (stored inp (ρ i)) i).elim 0 fun m => r m i).val := by
  have hlater := h.later i
  have hread : (inp (ρ i)).reads 4 = true :=
    Ports.reads_iff.mpr ⟨h.paced.read_of_start hlater.le (h.start i).1, (h.start i).2⟩
  have hclass : (classesAt g inp (ρ i)).toNat = i.val := by
    have hcount := h.paced.classesAt_count (g := g) h.select (by decide) (ρ i - (t + 1))
    rw [h.index i, Nat.zero_add, Nat.mod_eq_of_lt i.isLt] at hcount
    rwa [show t + 1 + (ρ i - (t + 1)) = ρ i by omega] at hcount
  rw [printed, readdata_class (hn _) (.inr hread) rfl i hclass, outputData_latest hn hr]

theorem ofNat_value_inj {a b : CnnValue} (h : BitVec.ofNat 32 a.val = BitVec.ofNat 32 b.val) :
    a = b := by
  have hval := congrArg BitVec.toNat h
  rw [BitVec.toNat_ofNat, BitVec.toNat_ofNat, Nat.mod_eq_of_lt (by omega),
    Nat.mod_eq_of_lt (by omega)] at hval
  exact Fin.ext hval

/-- Inference `m` is the last one that got to class `i` before read `i`, for every
class. -/
def OneInference (inp : ℕ → Ports) (ρ : Fin 10 → ℕ) (m : ℕ) : Prop :=
  ∀ i : Fin 10, 10 * m + i < stored inp (ρ i) ∧ stored inp (ρ i) ≤ 10 * (m + 1) + i

/-- Inference `m` got to class `i` before read `i`, for some class. -/
def Begun (inp : ℕ → Ports) (ρ : Fin 10 → ℕ) (m : ℕ) : Prop :=
  ∃ i : Fin 10, 10 * m + i < stored inp (ρ i)

/-- The results tell the inferences apart, class by class, and from the reset value. -/
structure Distinct (inp : ℕ → Ports) (ρ : Fin 10 → ℕ) (r : ℕ → OutputData) : Prop where
  ne_zero : ∀ m, Begun inp ρ m → ∀ i, r m i ≠ 0
  inj : ∀ m m', Begun inp ρ m → Begun inp ρ m' → ∀ i, r m i = r m' i → m = m'

/-! ### A schedule

Inference 0 stores ten ones in the cycles 0 to 9 and inference 1 ten twos in the cycles
14 to 23. Class 0 is selected in cycle 10 and read in cycle 12, class 1 in cycle 15 and
so on. -/

def mixedStarts (u : ℕ) : Bool := decide (12 ≤ u ∧ u ≤ 39 ∧ u % 3 = 0)

def mixedPorts (u : ℕ) : Ports :=
  { Ports.silent with
    oDataValid := decide (u < 10 ∨ 14 ≤ u ∧ u < 24)
    oCycle1 := if u < 10 then u else u - 14
    oData1 := if u < 10 then ⟨1, by decide⟩ else ⟨2, by decide⟩
    avsAddress := if u = 10 then 0x20 else 4
    avsWrite := u == 10
    avsRead := mixedStarts u || mixedStarts (u - 1) }

def mixedResults (m : ℕ) : OutputData :=
  fun _ => if m = 0 then ⟨1, by decide⟩ else ⟨2, by decide⟩

def mixedReads (i : Fin 10) : ℕ := 12 + 3 * i

theorem mixed_infers : Infers mixedPorts mixedResults := by
  have hearly : ∀ u < 24, (mixedPorts u).oDataValid = true →
      (mixedPorts u).oCycle1 = stored mixedPorts u % 10 ∧
        (mixedPorts u).oData1 = mixedResults (stored mixedPorts u / 10) 0 := by
    decide
  intro u hv
  have hu : u < 24 := by
    have hlt : u < 10 ∨ 14 ≤ u ∧ u < 24 := of_decide_eq_true hv
    omega
  obtain ⟨hcycle, hdata⟩ := hearly u hu hv
  exact ⟨hcycle, fun c _ => hdata⟩

theorem mixed_paced : PacedReads mixedPorts mixedStarts 10 where
  idle := rfl
  noStart := rfl
  resetN _ _ := rfl
  noWrite u hu := by
    have hne : ¬u = 10 := by omega
    simp [Ports.writesPosition, mixedPorts, hne]
  read u _ := Bool.or_comm ..
  address u hs := by
    have hstart : 12 ≤ u ∧ u ≤ 39 ∧ u % 3 = 0 := of_decide_eq_true hs
    have hne : ¬u = 10 ∧ ¬u + 1 = 10 := by omega
    simp [mixedPorts, hne]
  apart u hs := by
    have hstart : 12 ≤ u ∧ u ≤ 39 ∧ u % 3 = 0 := of_decide_eq_true hs
    exact ⟨decide_eq_false (by omega), decide_eq_false (by omega)⟩

theorem mixed_tenReads : TenReads mixedPorts mixedStarts 10 mixedReads where
  select := ⟨rfl, rfl, rfl, rfl⟩
  paced := mixed_paced
  later := by decide
  start := by decide
  index := by decide

/-! ### One inference -/

/-- Each value is that of the last inference that got to its class before its read. They
belong to inference `m` if it is that one for every class, and, when the results tell the
inferences apart, only then. -/
structure PrintedValues (g : Generics) (inp : ℕ → Ports) (ρ : Fin 10 → ℕ) (r : ℕ → OutputData) :
    Prop where
  value : ∀ i, printed g inp ρ i =
    BitVec.ofNat 32 ((latest 10 (stored inp (ρ i)) i).elim 0 fun m => r m i).val
  one : ∀ m, OneInference inp ρ m → ∀ i, printed g inp ρ i = BitVec.ofNat 32 (r m i).val
  only : Distinct inp ρ r → ∀ m, Begun inp ρ m →
    (∀ i, printed g inp ρ i = BitVec.ofNat 32 (r m i).val) → OneInference inp ρ m

/-- For every interleaving of the stores with the ten reads. -/
theorem printed_values (g : Generics) (inp : ℕ → Ports) (starts : ℕ → Bool) (t : ℕ)
    (r : ℕ → OutputData) (ρ : Fin 10 → ℕ) (hn : ∀ u, (inp u).resetN = true) (hr : Infers inp r)
    (h : TenReads inp starts t ρ) : PrintedValues g inp ρ r := by
  have hvalue := h.printed_eq (g := g) hn hr
  refine ⟨hvalue, fun m hm i => ?_, fun hd m hbegun hm i => ?_⟩
  · rw [hvalue i, (Shared.latest_eq_some_iff (by decide)).mpr (hm i)]
    rfl
  · have heq := ofNat_value_inj ((hvalue i).symm.trans (hm i))
    cases hl : latest 10 (stored inp (ρ i)) i with
    | none =>
      rw [hl] at heq
      exact absurd heq.symm (hd.ne_zero m hbegun i)
    | some m' =>
      rw [hl] at heq
      have hlast := (Shared.latest_eq_some_iff (by decide)).mp hl
      obtain rfl := hd.inj m' m ⟨i, hlast.1⟩ hbegun i heq
      exact hlast

/-- The stores of inference 1 fall between the first and the last read. -/
theorem printed_values_mixed :
    PrintedValues ⟨0x80000, fun _ => 0⟩ mixedPorts mixedReads mixedResults :=
  printed_values ⟨0x80000, fun _ => 0⟩ mixedPorts mixedStarts 10 mixedResults mixedReads
    (fun _ => rfl) mixed_infers mixed_tenReads

/-- Class 0 is printed with a result of inference 0 and class 9 with one of inference 1. -/
theorem printed_not_one_inference :
    ¬∀ (g : Generics) (inp : ℕ → Ports) (starts : ℕ → Bool) (t : ℕ) (r : ℕ → OutputData)
      (ρ : Fin 10 → ℕ), (∀ u, (inp u).resetN = true) → Infers inp r → TenReads inp starts t ρ →
        ∃ m, ∀ i, printed g inp ρ i = BitVec.ofNat 32 (r m i).val := by
  intro h
  have hvalue := fun i => mixed_tenReads.printed_eq (g := ⟨0x80000, fun _ => 0⟩)
    (fun _ => rfl) mixed_infers i
  obtain ⟨m, hm⟩ := h ⟨0x80000, fun _ => 0⟩ mixedPorts mixedStarts 10 mixedResults mixedReads
    (fun _ => rfl) mixed_infers mixed_tenReads
  have hfirst := ofNat_value_inj ((hvalue 0).symm.trans (hm 0))
  have hlast := ofNat_value_inj ((hvalue 9).symm.trans (hm 9))
  have hone : stored mixedPorts (mixedReads 0) = 10 := by decide
  have htwo : stored mixedPorts (mixedReads 9) = 20 := by decide
  rw [hone] at hfirst
  rw [htwo] at hlast
  have hsame : mixedResults m 0 = mixedResults m 9 := rfl
  rw [← hfirst, ← hlast] at hsame
  exact absurd hsame (by decide)

end AlteraWorkshops.OneAi
