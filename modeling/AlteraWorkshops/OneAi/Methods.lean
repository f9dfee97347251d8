import AlteraWorkshops.OneAi.Registers
import Mathlib.Data.Nat.Count

/-! The two ways of reading the CNN results. Method 1 writes a class to 0x20 and
reads 0x03; Method 2 writes the start class and reads 0x04 repeatedly, each read
advancing the class register once although it is on the bus for two cycles. -/

namespace AlteraWorkshops.OneAi

variable {g : Generics} {inp : ℕ → Ports} {starts : ℕ → Bool} {t c n : ℕ}

/-! ### Schedules -/

/-- Class `c` and object 0 are written to 0x20, as the firmware writes
`(class_index << 16)`. -/
structure WritesClass (inp : ℕ → Ports) (t c : ℕ) : Prop where
  resetN : (inp t).resetN = true
  write : (inp t).avsWrite = true
  writeAt : (inp t).avsAddress = 0x20
  writedata : (inp t).avsWritedata = BitVec.ofNat 32 c <<< 16

/-- Bus traffic from the write in cycle `t` on. The reads that start in the cycles
marked by `starts` hold the bus for two cycles at one address and leave it for at
least one; the registers 0x10 to 0x2F are not written. -/
structure PacedReads (inp : ℕ → Ports) (starts : ℕ → Bool) (t : ℕ) : Prop where
  idle : (inp t).avsRead = false
  noStart : starts t = false
  resetN : ∀ u, t < u → (inp u).resetN = true
  noWrite : ∀ u, t < u → (inp u).writesPosition = false
  read : ∀ u, t ≤ u → (inp (u + 1)).avsRead = (starts u || starts (u + 1))
  address : ∀ u, starts u = true → (inp (u + 1)).avsAddress = (inp u).avsAddress
  apart : ∀ u, starts u = true → starts (u + 1) = false ∧ starts (u + 2) = false

/-- A read of 0x04 starts in cycle `u`. -/
def startsAuto (inp : ℕ → Ports) (starts : ℕ → Bool) (u : ℕ) : Prop :=
  starts u = true ∧ (inp u).avsAddress = 4

instance : DecidablePred (startsAuto inp starts) :=
  fun _ => inferInstanceAs (Decidable (_ ∧ _))

/-- The reads of 0x04 started in the `n` cycles after cycle `t`. -/
def autoReads (inp : ℕ → Ports) (starts : ℕ → Bool) (t n : ℕ) : ℕ :=
  Nat.count (fun m => startsAuto inp starts (t + 1 + m)) n

theorem autoReads_zero : autoReads inp starts t 0 = 0 := Nat.count_zero _

theorem autoReads_succ : autoReads inp starts t (n + 1) =
    autoReads inp starts t n + if startsAuto inp starts (t + 1 + n) then 1 else 0 :=
  Nat.count_succ _ _

/-! ### Method 1 -/

theorem WritesClass.writesClasses (h : WritesClass inp t c) : (inp t).writesClasses = true := by
  simp only [Ports.writesClasses, h.write, h.writeAt]
  decide

theorem classesAt_writesClass (h : WritesClass inp t c) (hc : c < 10) :
    (classesAt g inp (t + 1)).toNat = c := by
  have hword : (inp t).avsWritedata.toNat = 65536 * c := by
    rw [h.writedata, BitVec.toNat_shiftLeft, BitVec.toNat_ofNat, Nat.shiftLeft_eq]
    omega
  have hhigh : (inp t).writeHigh = c := by
    rw [writeHigh_eq, highHalf_toNat, hword]
    omega
  rw [classesAt_written h.resetN h.writesClasses, hhigh, BitVec.toNat_ofNat]
  exact Nat.mod_eq_of_lt (by omega)

/-- A read of either output register yields the entry of the class register. -/
theorem readdata_class {r : ℕ} {d : OutputData} (hn : (inp r).resetN = true)
    (hr : (inp r).reads 3 = true ∨ (inp r).reads 4 = true)
    (hd : (run g inp r).result.outputData = d) (k : Fin 10)
    (hk : (classesAt g inp r).toNat = k.val) :
    (run g inp (r + 1)).slave.avsReaddata = BitVec.ofNat 32 (d k).val := by
  subst hd
  have hlt : (classesAt g inp r).toNat < 10 := hk ▸ k.isLt
  have hidx : (⟨(classesAt g inp r).toNat, hlt⟩ : Fin 10) = k := Fin.ext hk
  refine (slave_readdata_output hn hr).trans ((dif_pos hlt).trans ?_)
  exact congrArg (fun k' => BitVec.ofNat 32 ((run g inp r).result.outputData k').val) hidx

/-- Method 1: class `c` is written in cycle `t` and 0x03 is read in cycle `r`. -/
structure TargetedRead (g : Generics) (inp : ℕ → Ports) (d : OutputData) (t r c : ℕ) : Prop where
  write : WritesClass inp t c
  later : t < r
  between : ∀ u, t < u → u < r → (inp u).Quiet
  resetN : (inp r).resetN = true
  read : (inp r).reads 3 = true
  outputData : (run g inp r).result.outputData = d

theorem targeted_read {d : OutputData} {r : ℕ} (h : TargetedRead g inp d t r c) (hc : c < 10) :
    (run g inp (r + 1)).slave.avsReaddata = BitVec.ofNat 32 (d ⟨c, hc⟩).val := by
  refine readdata_class h.resetN (.inl h.read) h.outputData ⟨c, hc⟩ ?_
  rw [classesAt_held h.later fun u h1 h2 => h.between u h1 h2]
  exact classesAt_writesClass h.write hc

/-! ### Method 2 -/

theorem PacedReads.read_of_start (h : PacedReads inp starts t) {u : ℕ} (htu : t ≤ u)
    (hs : starts u = true) : (inp u).avsRead = true := by
  rcases htu.eq_or_lt with rfl | hlt
  · exact absurd hs (by simp [h.noStart])
  · obtain ⟨v, rfl⟩ : ∃ v, u = v + 1 := ⟨u - 1, by omega⟩
    rw [h.read v (by omega), hs, Bool.or_true]

/-- Before a start the bus is free. -/
theorem PacedReads.free_before_start (h : PacedReads inp starts t) {u : ℕ} (htu : t ≤ u)
    (hs : starts (u + 1) = true) : (inp u).avsRead = false := by
  rcases htu.eq_or_lt with rfl | hlt
  · exact h.idle
  · obtain ⟨v, rfl⟩ : ∃ v, u = v + 1 := ⟨u - 1, by omega⟩
    rw [h.read v (by omega), Bool.or_eq_false_iff]
    constructor
    · by_contra hv
      exact absurd hs (by simp [(h.apart v (by simpa using hv)).2])
    · by_contra hv
      exact absurd hs (by simp [(h.apart (v + 1) (by simpa using hv)).1])

/-- Two read cycles in a row belong to one read. -/
theorem PacedReads.start_of_read_read (h : PacedReads inp starts t) {u : ℕ} (htu : t ≤ u)
    (h1 : (inp u).avsRead = true) (h2 : (inp (u + 1)).avsRead = true) : starts u = true := by
  rw [h.read u htu, Bool.or_eq_true] at h2
  rcases h2 with hs | hs
  · exact hs
  · exact absurd h1 (by simp [h.free_before_start htu hs])

/-- The process variable says that 0x04 was on the bus in the cycle before. -/
theorem PacedReads.avsReadReg (h : PacedReads inp starts t) (hn : (inp t).resetN = true)
    {u : ℕ} (htu : t ≤ u) : (run g inp (u + 1)).slave.avsReadReg = (inp u).reads 4 := by
  induction u, htu using Nat.le_induction with
  | base =>
    show (slaveProcess g (run g inp t) (inp t)).avsReadReg = _
    rw [slave_avsReadReg hn, Ports.reads, h.idle, Bool.false_and, Bool.false_and]
  | succ u hu ih =>
    show (slaveProcess g (run g inp (u + 1)) (inp (u + 1))).avsReadReg = _
    have hreads : (inp (u + 1)).reads 4 =
      ((inp (u + 1)).avsRead && (inp (u + 1)).avsAddress == 4) := rfl
    rw [slave_avsReadReg (h.resetN (u + 1) (by omega)), ih, hreads]
    by_cases hprev : (inp u).reads 4 = true
    · obtain ⟨hr, ha⟩ := Ports.reads_iff.mp hprev
      by_cases hr' : (inp (u + 1)).avsRead = true
      · have ha' := (h.address u (h.start_of_read_read hu hr hr')).trans ha
        rw [ha', beq_self_eq_true, Bool.true_or]
      · rw [Bool.eq_false_iff.mpr hr', Bool.false_and, Bool.false_and]
    · rw [Bool.eq_false_iff.mpr hprev, Bool.or_false]

/-- The class register advances in the first cycle of a read of 0x04 only. -/
theorem PacedReads.advances_iff (h : PacedReads inp starts t) (hn : (inp t).resetN = true)
    {u : ℕ} (htu : t ≤ u) :
    ((inp (u + 1)).reads 4 && !(run g inp (u + 1)).slave.avsReadReg) = true ↔
      startsAuto inp starts (u + 1) := by
  rw [h.avsReadReg hn htu, Bool.and_eq_true, Bool.not_eq_true', Ports.reads_iff]
  constructor
  · rintro ⟨⟨hr, ha⟩, hprev⟩
    refine ⟨?_, ha⟩
    by_contra hs
    rw [h.read u htu, Bool.eq_false_iff.mpr hs, Bool.or_false] at hr
    have hon : (inp u).reads 4 = true :=
      Ports.reads_iff.mpr ⟨h.read_of_start htu hr, (h.address u hr).symm.trans ha⟩
    exact absurd (hon.symm.trans hprev) (by decide)
  · rintro ⟨hs, ha⟩
    refine ⟨⟨h.read_of_start (by omega) hs, ha⟩, ?_⟩
    rw [Ports.reads, h.free_before_start htu hs, Bool.false_and]

/-- The class register counts the reads of 0x04, modulo the classes. -/
theorem PacedReads.classesAt_count (h : PacedReads inp starts t) (hw : WritesClass inp t c)
    (hc : c < 10) (n : ℕ) :
    (classesAt g inp (t + 1 + n)).toNat = (c + autoReads inp starts t n) % 10 := by
  induction n with
  | zero =>
    simp only [autoReads_zero, Nat.add_zero]
    rw [classesAt_writesClass hw hc, Nat.mod_eq_of_lt hc]
  | succ n ih =>
    have hn := h.resetN (t + 1 + n) (by omega)
    have hadv := h.advances_iff (g := g) hw.resetN (show t ≤ t + n by omega)
    rw [show t + n + 1 = t + 1 + n by omega] at hadv
    have hnowrite : (inp (t + 1 + n)).writesClasses = false := by
      by_contra hwc
      have := Ports.writesPosition_of_writesClasses (Bool.eq_true_of_not_eq_false hwc)
      rw [h.noWrite _ (by omega)] at this
      exact absurd this (by decide)
    rw [← Nat.add_assoc, classesAt_succ hn, hnowrite, autoReads_succ]
    by_cases hs : startsAuto inp starts (t + 1 + n)
    · rw [if_pos (hadv.mpr hs), if_pos hs, nextClass_toNat (by omega), ih]
      omega
    · rw [if_neg fun ha => hs (hadv.mp ha), if_neg hs, Nat.add_zero]
      exact ih

/-- The two methods agree: after class `c` was written, the read of 0x04 that comes
after `k` others returns the entry of class `(c + k) mod 10`, and so does a targeted
read of that class. -/
theorem methods_agree (g : Generics) (inp : ℕ → Ports) (starts : ℕ → Bool) (d : OutputData)
    (t c : ℕ) (hc : c < 10) (hw : WritesClass inp t c) (hp : PacedReads inp starts t)
    (n : ℕ) (hd : ∀ u, t < u → u ≤ t + 1 + n → (run g inp u).result.outputData = d)
    (hs : startsAuto inp starts (t + 1 + n)) :
    let k : Fin 10 := ⟨(c + autoReads inp starts t n) % 10, Nat.mod_lt _ (by decide)⟩
    (run g inp (t + 1 + n + 1)).slave.avsReaddata = BitVec.ofNat 32 (d k).val ∧
      ∀ inp' t' r', TargetedRead g inp' d t' r' k →
        (run g inp' (r' + 1)).slave.avsReaddata =
          (run g inp (t + 1 + n + 1)).slave.avsReaddata := by
  intro k
  have hread : (inp (t + 1 + n)).reads 4 = true :=
    Ports.reads_iff.mpr ⟨hp.read_of_start (by omega) hs.1, hs.2⟩
  have hauto := readdata_class (hp.resetN _ (by omega)) (.inr hread) (hd _ (by omega) le_rfl) k
    (hp.classesAt_count hw hc n)
  exact ⟨hauto, fun inp' t' r' h => (targeted_read h k.isLt).trans hauto.symm⟩

/-! ### Two schedules

In both the CNN delivers the ten classes in the cycles 0 to 9. In the first, class 8 is
written in cycle 10 and 0x04 is read in the cycles 12, 16 and 20 and the ones after
them, with a write to register 1 in between. In the second, class 0 is written in cycle
10 and 0x03 is read in cycle 12. -/

def scores (c : Fin 10) : CnnValue := ⟨3 * c.val + 1, by omega⟩

def scorePorts (u : ℕ) : Ports :=
  { Ports.silent with
    oDataValid := decide (u < 10), oCycle1 := u, oData1 := ⟨(3 * u + 1) % 128, by omega⟩ }

def methodStarts (u : ℕ) : Bool := u == 12 || u == 16 || u == 20

def methodPorts (u : ℕ) : Ports :=
  { scorePorts u with
    avsAddress := if u = 10 then 0x20 else if u = 14 then 1 else 4
    avsRead := methodStarts u || methodStarts (u - 1)
    avsWrite := u == 10 || u == 14
    avsWritedata := 0x00080000 }

def targetedPorts (u : ℕ) : Ports :=
  { scorePorts u with
    avsAddress := if u = 10 then 0x20 else 3, avsRead := u == 12 || u == 13
    avsWrite := u == 10 }

theorem methodPorts_paced : PacedReads methodPorts methodStarts 10 where
  idle := rfl
  noStart := rfl
  resetN _ _ := rfl
  noWrite u hu := by
    by_cases h14 : u = 14
    · subst h14
      rfl
    · have : ¬u = 10 := by omega
      simp [Ports.writesPosition, methodPorts, h14, this]
  read u _ := Bool.or_comm ..
  address u hs := by
    have hstart : (u = 12 ∨ u = 16) ∨ u = 20 := by simpa [methodStarts] using hs
    rcases hstart with (rfl | rfl) | rfl <;> rfl
  apart u hs := by
    have hstart : (u = 12 ∨ u = 16) ∨ u = 20 := by simpa [methodStarts] using hs
    rcases hstart with (rfl | rfl) | rfl <;> exact ⟨rfl, rfl⟩

/-- Without strobes the result store stays as it was. -/
theorem outputData_kept {u : ℕ} (htu : t ≤ u)
    (h : ∀ v, t ≤ v → (inp v).resetN = true ∧ (inp v).oDataValid = false) :
    (run g inp u).result.outputData = (run g inp t).result.outputData := by
  induction u, htu using Nat.le_induction with
  | base => rfl
  | succ u hu ih =>
    rw [← ih]
    show (resultProcess _ (inp u)).outputData = _
    simp only [resultProcess, (h u hu).1, (h u hu).2, Bool.not_true, Bool.false_eq_true,
      ↓reduceIte]
    split_ifs <;> rfl

/-- In both schedules the scores are stored from cycle 10 on. -/
theorem outputData_scores {u : ℕ} (hu : 10 ≤ u) (h : ∀ v, (inp v).resetN = true)
    (hv : ∀ v, (inp v).oDataValid = decide (v < 10))
    (h10 : (run g inp 10).result.outputData = scores) :
    (run g inp u).result.outputData = scores :=
  (outputData_kept hu fun v hv10 => ⟨h v, (hv v).trans (decide_eq_false (by omega))⟩).trans h10

/-- The third read wraps around to class 0, and so reads the targeted one. -/
theorem methods_agree_wrap :
    let g : Generics := ⟨0x80000, fun _ => 0⟩
    let k : Fin 10 :=
      ⟨(8 + autoReads methodPorts methodStarts 10 9) % 10, Nat.mod_lt _ (by decide)⟩
    k = 0 ∧ (run g methodPorts 21).slave.avsReaddata = BitVec.ofNat 32 (scores k).val ∧
      (run g targetedPorts 13).slave.avsReaddata = (run g methodPorts 21).slave.avsReaddata := by
  intro g k
  have hmethod : (run g methodPorts 10).result.outputData = scores := by
    funext c
    fin_cases c <;> rfl
  have htargeted : (run g targetedPorts 10).result.outputData = scores := by
    funext c
    fin_cases c <;> rfl
  have hk : k = 0 := by decide
  obtain ⟨hauto, hagree⟩ := methods_agree g methodPorts methodStarts scores 10 8 (by decide)
    ⟨rfl, rfl, rfl, rfl⟩ methodPorts_paced 9
    (fun u hu _ => outputData_scores hu.le (fun _ => rfl) (fun _ => rfl) hmethod) ⟨rfl, rfl⟩
  refine ⟨hk, hauto, hagree targetedPorts 10 12 ⟨?_, by decide, fun u h1 h2 => ?_, rfl, rfl,
    outputData_scores (by decide) (fun _ => rfl) (fun _ => rfl) htargeted⟩⟩
  · rw [show (⟨(8 + autoReads methodPorts methodStarts 10 9) % 10, _⟩ : Fin 10) = 0 from hk]
    exact ⟨rfl, rfl, rfl, rfl⟩
  · obtain rfl : u = 11 := by omega
    exact ⟨rfl, rfl, rfl⟩

end AlteraWorkshops.OneAi
