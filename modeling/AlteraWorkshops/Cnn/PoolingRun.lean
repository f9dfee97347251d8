import AlteraWorkshops.Cnn.Pooling
import Mathlib.Data.Finset.Lattice.Fold
import Mathlib.Order.Lattice.Nat

/-! What the pooling sends for the results of a convolution: for each block of the image
the largest values, with the last pixel of the block. -/

namespace AlteraWorkshops.Cnn.Pooling

open Clocked (ReadModifyWrite)

variable {g : Generics} {inp : ℕ → Sample} {time : ℕ → ℕ → ℕ} {value : ℕ → ℕ → CnnValues}
  {c e f j k m r t u v : ℕ}

/-! ### The memory -/

/-- The data of edge `t` changes a maximum. -/
def saves (g : Generics) (inp : ℕ → Sample) (t : ℕ) : Bool :=
  taken g (inp t).stream && !isLast g (inp t).stream

/-- What becomes of a maximum with the data of edge `t`. -/
def change (g : Generics) (inp : ℕ → Sample) (t : ℕ) (old : CnnValues) : CnnValues :=
  ramMax g (inp t).stream (inp t).data old

theorem taken_run (ht : taken g (inp t).stream = true) :
    (run g inp (t + 1)).iStreamReg = (inp t).stream ∧ (run g inp (t + 1)).iDataReg = (inp t).data ∧
      (run g inp (t + 1)).ramAddrOut = ramAddr g (inp t).stream := by
  have hvalid : (inp t).stream.dataValid = true := (Bool.and_eq_true_iff.mp ht).1
  have hstream : (run g inp (t + 1)).iStreamReg = if taken g (inp t).stream then
      { (inp t).stream with dataValid := true }
    else { (run g inp t).iStreamReg with dataValid := false } := rfl
  have hdata : (run g inp (t + 1)).iDataReg =
      if taken g (inp t).stream then (inp t).data else (run g inp t).iDataReg := rfl
  have haddr : (run g inp (t + 1)).ramAddrOut = if taken g (inp t).stream then
      ramAddr g (inp t).stream else (run g inp t).ramAddrOut := rfl
  rw [hstream, hdata, haddr, if_pos ht, if_pos ht, if_pos ht, ← hvalid]
  exact ⟨rfl, rfl, rfl⟩

theorem not_taken_run (ht : taken g (inp t).stream = false) :
    (run g inp (t + 1)).iStreamReg.dataValid = false := by
  have hstream : (run g inp (t + 1)).iStreamReg = if taken g (inp t).stream then
      { (inp t).stream with dataValid := true }
    else { (run g inp t).iStreamReg with dataValid := false } := rfl
  rw [hstream, ht]
  rfl

/-- One edge after the data its maximum goes to the memory. -/
theorem write_run (g : Generics) (inp : ℕ → Sample) (t : ℕ) :
    (run g inp (t + 2)).ramAddrIn = (if saves g inp t then ramAddr g (inp t).stream
      else (run g inp (t + 1)).ramAddrIn) ∧
    (run g inp (t + 2)).ramDataIn = if saves g inp t then
        change g inp t ((run g inp (t + 1)).bufferRam (ramAddr g (inp t).stream))
      else (run g inp (t + 1)).ramDataIn := by
  have haddr : (run g inp (t + 2)).ramAddrIn =
      if (run g inp (t + 1)).iStreamReg.dataValid && !isLast g (run g inp (t + 1)).iStreamReg then
        (run g inp (t + 1)).ramAddrOut
      else (run g inp (t + 1)).ramAddrIn := rfl
  have hdata : (run g inp (t + 2)).ramDataIn =
      if (run g inp (t + 1)).iStreamReg.dataValid && !isLast g (run g inp (t + 1)).iStreamReg then
        ramMax g (run g inp (t + 1)).iStreamReg (run g inp (t + 1)).iDataReg
          ((run g inp (t + 1)).bufferRam (run g inp (t + 1)).ramAddrOut)
      else (run g inp (t + 1)).ramDataIn := rfl
  rw [haddr, hdata]
  unfold saves
  cases ht : taken g (inp t).stream with
  | true =>
    have hvalid : (inp t).stream.dataValid = true := (Bool.and_eq_true_iff.mp ht).1
    obtain ⟨h1, h2, h3⟩ := taken_run ht
    rw [h1, h2, h3, hvalid]
    exact ⟨rfl, rfl⟩
  | false =>
    rw [not_taken_run ht]
    exact ⟨rfl, rfl⟩

/-- With the last pixel of a block its maximum goes out. -/
theorem output_run (inp : ℕ → Sample) (hdelay : g.filterDelay = 1) (t : ℕ) :
    ((run g inp (t + 2)).oStream.dataValid = true ↔
      taken g (inp t).stream = true ∧ isLast g (inp t).stream = true) ∧
    (taken g (inp t).stream = true → isLast g (inp t).stream = true →
      (run g inp (t + 2)).oStream = ⟨(inp t).stream.column / g.filterColumns,
          (inp t).stream.row / g.filterRows, (inp t).stream.filter, true⟩ ∧
        (run g inp (t + 2)).oData =
          change g inp t ((run g inp (t + 1)).bufferRam (ramAddr g (inp t).stream))) := by
  have hnot : ¬1 < g.filterDelay := by omega
  have hdata : (run g inp (t + 2)).oData =
      if 1 < g.filterDelay then
        if (run g inp (t + 1)).outDelayCnt = 0 then
          (run g inp (t + 1)).outRam (run g inp (t + 1)).outRdAddr
        else (run g inp (t + 1)).oData
      else if (run g inp (t + 1)).iStreamReg.dataValid && isLast g (run g inp (t + 1)).iStreamReg
        then ramMax g (run g inp (t + 1)).iStreamReg (run g inp (t + 1)).iDataReg
          ((run g inp (t + 1)).bufferRam (run g inp (t + 1)).ramAddrOut)
      else (run g inp (t + 1)).oData := rfl
  have hstream : (run g inp (t + 2)).oStream = (step g (run g inp (t + 1)) (inp (t + 1))).oStream :=
    rfl
  unfold step at hstream
  dsimp only at hstream
  rw [if_neg hnot] at hdata hstream
  rw [hdata, hstream]
  cases ht : taken g (inp t).stream with
  | true =>
    have hvalid : (inp t).stream.dataValid = true := (Bool.and_eq_true_iff.mp ht).1
    obtain ⟨h1, h2, h3⟩ := taken_run ht
    rw [h1, h2, h3, hvalid]
    cases hlast : isLast g (inp t).stream with
    | true => exact ⟨⟨fun _ => ⟨rfl, rfl⟩, fun _ => rfl⟩, fun _ _ => ⟨rfl, rfl⟩⟩
    | false =>
      exact ⟨⟨fun h => absurd h Bool.false_ne_true, fun h => absurd h.2 Bool.false_ne_true⟩,
        fun _ h => absurd h Bool.false_ne_true⟩
  | false =>
    rw [not_taken_run ht]
    exact ⟨⟨fun h => absurd h Bool.false_ne_true, fun h => absurd h.1 Bool.false_ne_true⟩,
      fun h => absurd h Bool.false_ne_true⟩

/-! ### The image -/

/-- The images that are pooled. -/
def Generics.format (g : Generics) : Format := ⟨g.inputColumns, g.inputRows, g.inputCycles⟩

/-- The results for the pixels of the images, set `k` of pixel `m` in edge `time m k`. What
is in front of them does not matter. -/
structure Results (g : Generics) (inp : ℕ → Sample) (time : ℕ → ℕ → ℕ)
    (value : ℕ → ℕ → CnnValues) : Prop where
  next : ∀ m k, k + 1 < g.inputCycles → time m k < time m (k + 1)
  nextPixel : ∀ m, ∀ k < g.inputCycles, time m k < time (m + 1) 0
  apart : ∀ m, ∀ k < g.inputCycles, time m k + 2 ≤ time (m + 1) k
  dataValid : ∀ t, time 0 0 ≤ t →
    ((inp t).stream.dataValid = true ↔ ∃ m, ∃ k < g.inputCycles, t = time m k)
  stream : ∀ m, ∀ k < g.inputCycles,
    (inp (time m k)).stream = ⟨g.format.column m, g.format.row m, k, true⟩
  data : ∀ m, ∀ k < g.inputCycles, (inp (time m k)).data = value m k

structure Generics.Valid (g : Generics) : Prop where
  inputRows : 0 < g.inputRows
  filterColumns : 0 < g.filterColumns
  filterRows : 0 < g.filterRows
  inputCycles : 0 < g.inputCycles
  filterDelay : g.filterDelay = 1

/-- Pixel `e` of block `c` of row `r` of blocks, in frame `f`. -/
def blockPixel (g : Generics) (f r c e : ℕ) : ℕ :=
  (f * g.inputRows + (r * g.filterRows + e / g.filterColumns)) * g.inputColumns +
    (c * g.filterColumns + e % g.filterColumns)

/-- The largest values of the first pixels up to `e`. -/
def blockMax (x : ℕ → CnnValues) : ℕ → CnnValues
  | 0 => x 0
  | e + 1 => fun v => if blockMax x e v < x (e + 1) v then x (e + 1) v else blockMax x e v

theorem blockMax_val (x : ℕ → CnnValues) (e v : ℕ) :
    (blockMax x e v).val = (Finset.range (e + 1)).sup fun i => (x i v).val := by
  induction e with
  | zero => simp [blockMax]
  | succ e ih =>
    rw [Finset.range_add_one, Finset.sup_insert, ← ih, blockMax]
    dsimp only
    split_ifs with hlt
    · exact (max_eq_left (Fin.le_def.mp hlt.le)).symm
    · exact (max_eq_right (Fin.le_def.mp (not_lt.mp hlt))).symm

section Blocks

variable (hg : g.Valid)

include hg in
theorem block_place (hc : c < g.blocks) (hr : (r + 1) * g.filterRows ≤ g.inputRows)
    (he : e < g.filterRows * g.filterColumns) :
    g.format.column (blockPixel g f r c e) = c * g.filterColumns + e % g.filterColumns ∧
      g.format.row (blockPixel g f r c e) = r * g.filterRows + e / g.filterColumns ∧
      blockPixel g f r c e / g.inputColumns =
        f * g.inputRows + (r * g.filterRows + e / g.filterColumns) ∧
      c * g.filterColumns + e % g.filterColumns < g.blocks * g.filterColumns := by
  have hmod := Nat.mod_lt e hg.filterColumns
  have hdiv : e / g.filterColumns < g.filterRows :=
    (Nat.div_lt_iff_lt_mul hg.filterColumns).mpr he
  have hblock : (c + 1) * g.filterColumns ≤ g.blocks * g.filterColumns :=
    Nat.mul_le_mul_right _ hc
  have hwidth : g.blocks * g.filterColumns ≤ g.inputColumns := Nat.div_mul_le_self _ _
  rw [Nat.succ_mul] at hblock hr
  have hcolumn : c * g.filterColumns + e % g.filterColumns < g.inputColumns := by omega
  obtain ⟨h1, h2⟩ := Numbers.div_mod_eq'
    (a := f * g.inputRows + (r * g.filterRows + e / g.filterColumns)) hcolumn
  refine ⟨h2, ?_, h1, by omega⟩
  show blockPixel g f r c e / g.inputColumns % g.inputRows = _
  unfold blockPixel
  rw [h1]
  exact (Numbers.div_mod_eq' (by omega)).2

include hg in
/-- Between two pixels of a block there is none of the same column of blocks. -/
theorem block_between (hc : c < g.blocks) (hr : (r + 1) * g.filterRows ≤ g.inputRows)
    (he : e + 1 < g.filterRows * g.filterColumns) (h1 : blockPixel g f r c e < m)
    (h2 : m < blockPixel g f r c (e + 1)) : g.format.column m / g.filterColumns ≠ c := by
  intro hcolumn
  have hpos := hg.filterColumns
  obtain ⟨hcol, -, hrow, -⟩ := block_place hg (f := f) hc hr (show e < _ by omega)
  obtain ⟨hcol', -, hrow', -⟩ := block_place hg (f := f) hc hr he
  have hblock := Nat.div_add_mod (g.format.column m) g.filterColumns
  have hplace := Nat.mod_lt (g.format.column m) hpos
  rw [hcolumn, Nat.mul_comm] at hblock
  rcases Numbers.mod_succ_lt_or_eq hpos e with hless | hwrap
  · -- in a row they are neighbours
    obtain ⟨hdiv, hmod⟩ := Numbers.div_mod_succ_of_lt hless
    unfold blockPixel at h1 h2
    rw [hdiv, hmod] at h2
    omega
  · obtain ⟨hdiv, hmod⟩ := Numbers.div_mod_succ_of_eq hpos hwrap
    have hm := Nat.div_add_mod' m g.inputColumns
    have hm' : g.format.column m = m % g.inputColumns := rfl
    have hlow := Nat.div_le_div_right (c := g.inputColumns) h1.le
    have hhigh := Nat.div_le_div_right (c := g.inputColumns) h2.le
    rw [hrow] at hlow
    rw [hrow', hdiv] at hhigh
    unfold blockPixel at h1 h2
    rw [hdiv, hmod] at h2
    rcases Nat.eq_or_lt_of_le hlow with heq | hlt
    · rw [← heq] at hm
      omega
    · have heq : m / g.inputColumns =
          f * g.inputRows + (r * g.filterRows + (e / g.filterColumns + 1)) := by omega
      rw [heq] at hm
      omega

include hg in
theorem exists_block (htaken : taken g ⟨g.format.column m, g.format.row m, k, true⟩ = true)
    (hlast : isLast g ⟨g.format.column m, g.format.row m, k, true⟩ = true) :
    ∃ r, (r + 1) * g.filterRows ≤ g.inputRows ∧ ∃ c < g.blocks,
      m = blockPixel g (m / g.inputColumns / g.inputRows) r c
        (g.filterRows * g.filterColumns - 1) := by
  have hin : g.format.column m < g.blocks * g.filterColumns :=
    of_decide_eq_true (Bool.and_eq_true_iff.mp htaken).2
  obtain ⟨hcolumn, hrow⟩ := Bool.and_eq_true_iff.mp hlast
  replace hcolumn : g.format.column m % g.filterColumns = g.filterColumns - 1 :=
    beq_iff_eq.mp hcolumn
  replace hrow : g.format.row m % g.filterRows = g.filterRows - 1 := beq_iff_eq.mp hrow
  have hcolumns := Nat.div_add_mod' (g.format.column m) g.filterColumns
  have hrows := Nat.div_add_mod' (g.format.row m) g.filterRows
  have hc : g.format.column m / g.filterColumns < g.blocks :=
    (Nat.div_lt_iff_lt_mul hg.filterColumns).mpr hin
  have hpos := hg.filterColumns
  have hpos' := hg.filterRows
  have hheight : g.format.row m < g.inputRows := Nat.mod_lt _ hg.inputRows
  refine ⟨g.format.row m / g.filterRows, ?_, g.format.column m / g.filterColumns, hc, ?_⟩
  · rw [Nat.succ_mul]
    omega
  · have hrest : (g.filterRows - 1) * g.filterColumns + (g.filterColumns - 1) =
        g.filterRows * g.filterColumns - 1 := by
      have hlast := Numbers.pred_mul_add (show 0 < g.filterRows by omega) g.filterColumns
      omega
    obtain ⟨hd, hm⟩ := Numbers.div_mod_eq' (a := g.filterRows - 1)
      (show g.filterColumns - 1 < g.filterColumns by omega)
    rw [← hrest]
    unfold blockPixel
    rw [hd, hm, ← hcolumn, hcolumns, ← hrow, hrows]
    have hframe := Nat.div_add_mod' (m / g.inputColumns) g.inputRows
    have hpixel := Nat.div_add_mod' m g.inputColumns
    have hrow' : g.format.row m = m / g.inputColumns % g.inputRows := rfl
    have hcolumn' : g.format.column m = m % g.inputColumns := rfl
    rw [hrow', hframe, hcolumn', hpixel]

end Blocks

/-! ### Runs -/

section Run

variable (hg : g.Valid) (h : Results g inp time value)

include hg h in
theorem time_mono (m : ℕ) : time m 0 < time (m + 1) 0 := h.nextPixel m 0 hg.inputCycles

include h in
theorem first_le (m : ℕ) (hk : k < g.inputCycles) : time m 0 ≤ time m k := by
  induction k with
  | zero => exact le_rfl
  | succ k ih => exact (ih (by omega)).trans (h.next m k hk).le

include hg h in
theorem time_lt (hmj : m < j) {i : ℕ} (hi : i < g.inputCycles) (hk : k < g.inputCycles) :
    time m i < time j k := by
  have hmono := (strictMono_nat_of_lt_succ (time_mono hg h)).monotone
  have h1 := h.nextPixel m i hi
  have h2 : time (m + 1) 0 ≤ time j 0 := hmono hmj
  have h3 := first_le h j hk
  omega

include hg h in
/-- The results of one set come in the order of the pixels. -/
theorem lt_iff (hk : k < g.inputCycles) : time m k < time j k ↔ m < j := by
  constructor
  · intro hlt
    by_contra hge
    rcases Nat.eq_or_lt_of_le (not_lt.mp hge) with heq | hjm
    · rw [heq] at hlt
      exact lt_irrefl _ hlt
    · exact absurd (time_lt hg h hjm hk hk) (by omega)
  · exact fun hmj => time_lt hg h hmj hk hk

include h in
/-- The result that comes with an edge that is taken. -/
theorem exists_result (ht : time 0 0 ≤ t) (htaken : taken g (inp t).stream = true) :
    ∃ m, ∃ k < g.inputCycles, t = time m k ∧
      ramAddr g (inp t).stream = g.format.column m / g.filterColumns * g.inputCycles + k := by
  have hvalid : (inp t).stream.dataValid = true := (Bool.and_eq_true_iff.mp htaken).1
  obtain ⟨m, k, hk, rfl⟩ := (h.dataValid t ht).mp hvalid
  refine ⟨m, k, hk, rfl, ?_⟩
  rw [h.stream m k hk]
  rfl

include hg h in
/-- From the first result on the memory changes the maxima one after the other. -/
theorem readModifyWrite : ReadModifyWrite (fun t => (run g inp (time 0 0 + t)).bufferRam)
    (fun t => (run g inp (time 0 0 + t)).ramAddrIn) (fun t => (run g inp (time 0 0 + t)).ramDataIn)
    (fun t => saves g inp (time 0 0 + t))
    (fun t => (run g inp (time 0 0 + t + 2)).ramAddrIn)
    (fun t => change g inp (time 0 0 + t)) := by
  refine ⟨fun t => rfl, fun t => rfl, fun t => ?_, fun t ht => ?_, fun t ht heq => ?_⟩
  · obtain ⟨haddr, hdata⟩ := write_run g inp (time 0 0 + t)
    show (run g inp (time 0 0 + t + 2)).ramDataIn = _
    rw [hdata]
    split_ifs with hs
    · rw [haddr, if_pos hs]
      rfl
    · rfl
  · have haddr := (write_run g inp (time 0 0 + (t + 1))).1
    have hoff : saves g inp (time 0 0 + (t + 1)) = false := ht
    rw [hoff, if_neg Bool.false_ne_true] at haddr
    exact haddr
  · have hon : saves g inp (time 0 0 + (t + 1)) = true := ht
    have haddr := (write_run g inp (time 0 0 + (t + 1))).1
    have haddr' := (write_run g inp (time 0 0 + t)).1
    have heq' : (run g inp (time 0 0 + (t + 1) + 2)).ramAddrIn =
      (run g inp (time 0 0 + t + 2)).ramAddrIn := heq
    rw [hon, if_pos rfl] at haddr
    -- two edges in a row are for different words
    have hoff : saves g inp (time 0 0 + t) = false := by
      apply Bool.eq_false_of_not_eq_true
      intro hs
      rw [hs, if_pos rfl] at haddr'
      obtain ⟨m, k, hk, ht1, hm⟩ :=
        exists_result h (by omega) (Bool.and_eq_true_iff.mp hs).1
      obtain ⟨j, i, hi, ht2, hj⟩ :=
        exists_result h (by omega) (Bool.and_eq_true_iff.mp hon).1
      rw [haddr, haddr', hm, hj] at heq'
      obtain ⟨-, rfl⟩ := Numbers.digits_inj hi hk heq'
      have hlt : m < j := (lt_iff hg h hk).mp (by omega)
      have hapart := h.apart m i hk
      have hle : time (m + 1) i ≤ time j i := by
        rcases Nat.eq_or_lt_of_le (Nat.succ_le_of_lt hlt) with heq | hfar
        · rw [← heq]
        · exact (time_lt hg h hfar hk hk).le
      omega
    rw [hoff, if_neg Bool.false_ne_true] at haddr'
    exact ⟨hoff, haddr'.symm⟩

section Block

variable (hc : c < g.blocks) (hr : (r + 1) * g.filterRows ≤ g.inputRows) (hk : k < g.inputCycles)

include hg h hc hr hk in
/-- What the pooling does with the pixels of a block. -/
theorem block_edge (he : e < g.filterRows * g.filterColumns) :
    taken g (inp (time (blockPixel g f r c e) k)).stream = true ∧
      ramAddr g (inp (time (blockPixel g f r c e) k)).stream = c * g.inputCycles + k ∧
      isFirst g (inp (time (blockPixel g f r c e) k)).stream = (e == 0) ∧
      isLast g (inp (time (blockPixel g f r c e) k)).stream =
        (e + 1 == g.filterRows * g.filterColumns) ∧
      (inp (time (blockPixel g f r c e) k)).stream.column / g.filterColumns = c ∧
      (inp (time (blockPixel g f r c e) k)).stream.row / g.filterRows = r := by
  have hpos := hg.filterColumns
  have hpos' := hg.filterRows
  have hdivmod := Nat.div_add_mod e g.filterColumns
  have hmod := Nat.mod_lt e hpos
  have hdiv : e / g.filterColumns < g.filterRows := (Nat.div_lt_iff_lt_mul hpos).mpr he
  obtain ⟨hcol, hrow, -, hin⟩ := block_place hg (f := f) hc hr he
  obtain ⟨h1, h2⟩ := Numbers.div_mod_eq' (a := c) hmod
  obtain ⟨h3, h4⟩ := Numbers.div_mod_eq' (a := r) hdiv
  rw [h.stream _ k hk, hcol, hrow]
  refine ⟨?_, ?_, ?_, ?_, h1, h3⟩
  · rw [taken, Bool.true_and]
    exact decide_eq_true hin
  · show (c * g.filterColumns + e % g.filterColumns) / g.filterColumns * g.inputCycles + k = _
    rw [h1]
  · rw [isFirst, h2, h4, Bool.eq_iff_iff, Bool.and_eq_true, beq_iff_eq, beq_iff_eq, beq_iff_eq]
    constructor
    · rintro ⟨hm, hd⟩
      rw [hm, hd, Nat.mul_zero] at hdivmod
      exact hdivmod.symm
    · rintro rfl
      exact ⟨Nat.zero_mod _, Nat.zero_div _⟩
  · rw [isLast, h2, h4, Bool.eq_iff_iff, Bool.and_eq_true, beq_iff_eq, beq_iff_eq, beq_iff_eq]
    constructor
    · rintro ⟨hm, hd⟩
      rw [hm, hd] at hdivmod
      have hrows : g.filterColumns * (g.filterRows - 1) + g.filterColumns =
          g.filterRows * g.filterColumns := by
        rw [← Nat.mul_succ, show (g.filterRows - 1).succ = g.filterRows by omega, Nat.mul_comm]
      omega
    · intro hlast
      obtain ⟨hd, hm⟩ := Numbers.div_mod_eq' (a := g.filterRows - 1)
        (show g.filterColumns - 1 < g.filterColumns by omega)
      have hrows := Numbers.pred_mul_add (show 0 < g.filterRows by omega) g.filterColumns
      rw [show (g.filterRows - 1) * g.filterColumns + (g.filterColumns - 1) = e by omega] at hd hm
      exact ⟨hm, hd⟩

include hg h hc hr hk in
/-- With a pixel of a block the maximum of those in front of it is read. -/
theorem read_run (he : e + 1 < g.filterRows * g.filterColumns) :
    (run g inp (time (blockPixel g f r c (e + 1)) k + 1)).bufferRam (c * g.inputCycles + k) =
      (run g inp (time (blockPixel g f r c e) k + 2)).ramDataIn := by
  have hmemory := readModifyWrite hg h
  obtain ⟨htaken, haddr, -, hlast, -⟩ := block_edge hg h (f := f) hc hr hk (show e < _ by omega)
  have hfirst : time 0 0 ≤ time (blockPixel g f r c e) k :=
    ((strictMono_nat_of_lt_succ (time_mono hg h)).monotone (Nat.zero_le _)).trans
      (first_le h _ hk)
  have hlt : blockPixel g f r c e < blockPixel g f r c (e + 1) := by
    by_contra hge
    obtain ⟨hcol, -, hrow, -⟩ := block_place hg (f := f) hc hr (show e < _ by omega)
    obtain ⟨hcol', -, hrow', -⟩ := block_place hg (f := f) hc hr he
    unfold blockPixel at hge
    rcases Numbers.mod_succ_lt_or_eq hg.filterColumns e with hless | hwrap
    · obtain ⟨hdiv, hmod⟩ := Numbers.div_mod_succ_of_lt hless
      rw [hdiv, hmod] at hge
      omega
    · obtain ⟨hdiv, hmod⟩ := Numbers.div_mod_succ_of_eq hg.filterColumns hwrap
      have hin := Format.column_lt (g := g.format) (show 0 < g.inputColumns by
        have hwidth : g.blocks * g.filterColumns ≤ g.inputColumns := Nat.div_mul_le_self _ _
        have hblock := (block_place hg (f := f) hc hr (show e < _ by omega)).2.2.2
        omega) (blockPixel g f r c e)
      rw [hcol] at hin
      have hw : g.format.width = g.inputColumns := rfl
      have hnext : f * g.inputRows + (r * g.filterRows + (e / g.filterColumns + 1)) =
          f * g.inputRows + (r * g.filterRows + e / g.filterColumns) + 1 := by omega
      rw [hdiv, hmod, hnext, Nat.succ_mul] at hge
      omega
  have hapart : time (blockPixel g f r c e) k + 2 ≤ time (blockPixel g f r c (e + 1)) k := by
    have hnext := h.apart (blockPixel g f r c e) k hk
    rcases Nat.eq_or_lt_of_le (Nat.succ_le_of_lt hlt) with heq | hfar
    · rw [← heq]
      exact hnext
    · exact hnext.trans (time_lt hg h hfar hk hk).le
  have hsaves : saves g inp (time (blockPixel g f r c e) k) = true := by
    rw [saves, htaken, hlast, beq_eq_false_iff_ne.mpr he.ne]
    rfl
  have hword := (write_run g inp (time (blockPixel g f r c e) k)).1
  rw [hsaves, if_pos rfl, haddr] at hword
  obtain ⟨s, hs⟩ := Nat.exists_eq_add_of_le hfirst
  obtain ⟨u, hu⟩ := Nat.exists_eq_add_of_le (hfirst.trans (hapart.trans' (Nat.le_add_right _ 2)))
  have hfound := hmemory.found (t := s) (u := u) (by omega) fun v h1 h2 => ?_
  · have hfound' : (run g inp (time 0 0 + (u + 1))).bufferRam
        (run g inp (time 0 0 + s + 2)).ramAddrIn = (run g inp (time 0 0 + s + 2)).ramDataIn :=
      hfound
    rw [← hs, hword, ← Nat.add_assoc, ← hu] at hfound'
    exact hfound'
  · rw [← hs, hword]
    by_cases hv : saves g inp (time 0 0 + v) = true
    · right
      obtain ⟨m, i, hi, ht, hm⟩ :=
        exists_result h (Nat.le_add_right _ v) (Bool.and_eq_true_iff.mp hv).1
      have hwrite := (write_run g inp (time 0 0 + v)).1
      rw [hv, if_pos rfl, hm] at hwrite
      rw [hwrite]
      intro heq
      obtain ⟨hcolumn, rfl⟩ := Numbers.digits_inj hi hk heq
      have hafter : blockPixel g f r c e < m := (lt_iff hg h hk).mp (by omega)
      have hbefore : m < blockPixel g f r c (e + 1) := (lt_iff hg h hk).mp (by omega)
      exact block_between hg hc hr he hafter hbefore hcolumn
    · left
      exact Bool.eq_false_of_not_eq_true hv

include hg h hc hr hk in
/-- Pixel after pixel the maximum of the block so far. -/
theorem change_run (he : e < g.filterRows * g.filterColumns) :
    change g inp (time (blockPixel g f r c e) k)
        ((run g inp (time (blockPixel g f r c e) k + 1)).bufferRam (c * g.inputCycles + k)) =
      blockMax (fun i => value (blockPixel g f r c i) k) e := by
  induction e with
  | zero =>
    obtain ⟨-, -, hfirst, -⟩ := block_edge hg h (f := f) hc hr hk he
    rw [change, ramMax, hfirst, h.data _ k hk]
    rfl
  | succ e ih =>
    obtain ⟨-, -, hfirst, -⟩ := block_edge hg h (f := f) hc hr hk he
    obtain ⟨htaken, haddr, -, hlast, -⟩ := block_edge hg h (f := f) hc hr hk (show e < _ by omega)
    have hsaves : saves g inp (time (blockPixel g f r c e) k) = true := by
      rw [saves, htaken, hlast, beq_eq_false_iff_ne.mpr he.ne]
      rfl
    have hdata := (write_run g inp (time (blockPixel g f r c e) k)).2
    rw [hsaves, if_pos rfl, haddr, ih (by omega)] at hdata
    rw [read_run hg h hc hr hk he, hdata, change, ramMax, hfirst, h.data _ k hk]
    rfl

end Block

include hg in
theorem area_pos : 0 < g.filterRows * g.filterColumns := Nat.mul_pos hg.filterRows hg.filterColumns

def lastTime (g : Generics) (time : ℕ → ℕ → ℕ) (f r c k : ℕ) : ℕ :=
  time (blockPixel g f r c (g.filterRows * g.filterColumns - 1)) k

include hg h in
/-- From the first result on the output is valid two edges after the last pixels of the blocks. -/
theorem output_dataValid_iff (ht : time 0 0 ≤ t) : (output g inp (t + 2)).stream.dataValid = true ↔
    ∃ f r c k, (r + 1) * g.filterRows ≤ g.inputRows ∧ c < g.blocks ∧ k < g.inputCycles ∧
      t = lastTime g time f r c k := by
  have hpos := area_pos hg
  have hend : g.filterRows * g.filterColumns - 1 + 1 = g.filterRows * g.filterColumns := by omega
  have hout : (output g inp (t + 2)).stream.dataValid = (run g inp (t + 2)).oStream.dataValid := rfl
  rw [hout, (output_run inp hg.filterDelay t).1]
  constructor
  · rintro ⟨htaken, hlast⟩
    obtain ⟨m, k, hk, rfl, -⟩ := exists_result h ht htaken
    rw [h.stream m k hk] at htaken hlast
    obtain ⟨r, hr, c, hc, hm⟩ := exists_block hg htaken hlast
    exact ⟨m / g.inputColumns / g.inputRows, r, c, k, hr, hc, hk, by rw [lastTime, ← hm]⟩
  · rintro ⟨f, r, c, k, hr, hc, hk, rfl⟩
    obtain ⟨htaken, -, -, hlast, -⟩ := block_edge hg h (f := f) hc hr hk
      (show g.filterRows * g.filterColumns - 1 < _ by omega)
    rw [hend, beq_self_eq_true] at hlast
    exact ⟨htaken, hlast⟩

include hg h in
/-- The result set of a block: its position and the largest values. -/
theorem output_eq_blockMax (f : ℕ) (hr : (r + 1) * g.filterRows ≤ g.inputRows) (hc : c < g.blocks)
    (hk : k < g.inputCycles) :
    (output g inp (lastTime g time f r c k + 2)).stream = ⟨c, r, k, true⟩ ∧
      ∀ v, ((output g inp (lastTime g time f r c k + 2)).data v).val =
        (Finset.range (g.filterRows * g.filterColumns)).sup fun e =>
          (value (blockPixel g f r c e) k v).val := by
  have hpos := area_pos hg
  have hlt : g.filterRows * g.filterColumns - 1 < g.filterRows * g.filterColumns := by omega
  have hend : g.filterRows * g.filterColumns - 1 + 1 = g.filterRows * g.filterColumns := by omega
  obtain ⟨htaken, haddr, -, hlast, hcolumn, hrow⟩ := block_edge hg h (f := f) hc hr hk hlt
  rw [hend, beq_self_eq_true] at hlast
  obtain ⟨hstream, hdata⟩ := (output_run inp hg.filterDelay _).2 htaken hlast
  rw [hcolumn, hrow] at hstream
  rw [haddr, change_run hg h hc hr hk hlt] at hdata
  refine ⟨?_, fun v => ?_⟩
  · rw [h.stream _ k hk] at hstream
    exact hstream
  · show ((run g inp (lastTime g time f r c k + 2)).oData v).val = _
    rw [lastTime, hdata, blockMax_val, hend]

include hg h in
/-- The pooling sends for each block of each image each result set once, two edges after
that of the last pixel of the block, and its values are the largest ones of the block. -/
theorem output_eq_max :
    (∀ t, time 0 0 ≤ t → ((output g inp (t + 2)).stream.dataValid = true ↔
      ∃ f r c k, (r + 1) * g.filterRows ≤ g.inputRows ∧ c < g.blocks ∧ k < g.inputCycles ∧
        t = lastTime g time f r c k)) ∧
    ∀ f r c k, (r + 1) * g.filterRows ≤ g.inputRows → c < g.blocks → k < g.inputCycles →
      (output g inp (lastTime g time f r c k + 2)).stream = ⟨c, r, k, true⟩ ∧
      ∀ v, ((output g inp (lastTime g time f r c k + 2)).data v).val =
        (Finset.range (g.filterRows * g.filterColumns)).sup fun e =>
          (value (blockPixel g f r c e) k v).val :=
  ⟨fun _ ht => output_dataValid_iff hg h ht,
    fun f _ _ _ hr hc hk => output_eq_blockMax hg h f hr hc hk⟩

end Run

/-! ### A small pooling -/

/-- Blocks of two times two in images of five times three. -/
def little : Generics where
  inputColumns := 5
  inputRows := 3
  inputValues := 1
  filterColumns := 2
  filterRows := 2
  inputCycles := 1
  filterDelay := 1

theorem little_valid : little.Valid := ⟨by decide, by decide, by decide, by decide, rfl⟩

def littleValue (m _k : ℕ) : CnnValues := fun _ => Fin.ofNat 128 (m * 35)

/-- A pixel every third edge. -/
def littleInput (t : ℕ) : Sample where
  stream := ⟨little.format.column (t / 3), little.format.row (t / 3), 0, t % 3 == 0⟩
  data := littleValue (t / 3) 0

theorem little_results : Results little littleInput (fun m _ => 3 * m) littleValue := by
  have hone : little.inputCycles = 1 := rfl
  refine ⟨fun m k hk => ?_, fun m k hk => ?_, fun m k hk => ?_, fun t _ => ?_, fun m k hk => ?_,
    fun m k hk => ?_⟩
  · omega
  · omega
  · omega
  · show (t % 3 == 0) = true ↔ _
    rw [beq_iff_eq]
    constructor
    · exact fun h => ⟨t / 3, 0, by omega, by omega⟩
    · rintro ⟨m, k, -, rfl⟩
      exact Nat.mul_mod_right 3 m
  · obtain rfl : k = 0 := by omega
    show (⟨_, _, 0, 3 * m % 3 == 0⟩ : CnnStream) = _
    rw [Nat.mul_div_cancel_left m (by decide), Nat.mul_mod_right]
    rfl
  · show littleValue (3 * m / 3) 0 = littleValue m 0
    rw [Nat.mul_div_cancel_left m (by decide)]

theorem output_eq_max_little :
    (∀ t, 0 ≤ t → ((output little littleInput (t + 2)).stream.dataValid = true ↔
      ∃ f r c k, (r + 1) * 2 ≤ 3 ∧ c < 2 ∧ k < 1 ∧
        t = lastTime little (fun m _ => 3 * m) f r c k)) ∧
    ∀ f r c k, (r + 1) * 2 ≤ 3 → c < 2 → k < 1 →
      (output little littleInput (lastTime little (fun m _ => 3 * m) f r c k + 2)).stream =
        ⟨c, r, k, true⟩ ∧
      ∀ v, ((output little littleInput (lastTime little (fun m _ => 3 * m) f r c k + 2)).data
          v).val =
        (Finset.range 4).sup fun e => (littleValue (blockPixel little f r c e) k v).val :=
  output_eq_max little_valid little_results

end AlteraWorkshops.Cnn.Pooling
