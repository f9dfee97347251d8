import AlteraWorkshops.Clocked.ReadModifyWrite
import AlteraWorkshops.Cnn.MatrixCounters

/-! What the memory of the row buffer holds: each pixel of the last rows in a cell of its
own, from the edge in which its values are complete to the edge in which the pixel that
takes its place comes. -/

namespace AlteraWorkshops.Cnn.RowBuffer

variable {g : Generics} {inp : ℕ → Sample} {time : ℕ → ℕ} {word : ℕ → ℕ → CnnValues} {s : State}
  {f i j t u v : ℕ}

/-- The images that come in. -/
def Generics.format (g : Generics) : Format := ⟨g.inputColumns, g.inputRows, g.inputCycles⟩

/-- Input cycles that make one output cycle. -/
def Generics.parts (g : Generics) : ℕ := g.inputCycles / g.valueCycles

/-- Values of an input cycle. -/
def Generics.partValues (g : Generics) : ℕ := g.inputValues / g.inputCycles

/-- Rows of several pixels, and values that come in as many or more cycles than they are
sent. -/
structure Generics.Stores (g : Generics) : Prop extends g.Counts where
  height : 2 ≤ g.inputRows
  inputCycles : 0 < g.inputCycles
  cycles : g.valueCycles ∣ g.inputCycles
  values : g.inputCycles ∣ g.inputValues

theorem ramRows_pos (hg : g.Counts) : 0 < g.ramRows := by
  have hrows := hg.filterRows
  unfold Generics.ramRows
  split_ifs <;> omega

theorem parts_pos (hg : g.Stores) : 0 < g.parts :=
  Nat.div_pos (Nat.le_of_dvd hg.inputCycles hg.cycles) hg.valueCycles

theorem parts_mul (hg : g.Stores) : g.valueCycles * g.parts = g.inputCycles :=
  Nat.mul_div_cancel' hg.cycles

/-- Values that are sent at once are those of the parts. -/
theorem partValues_mul (hg : g.Stores) :
    g.inputValues / g.valueCycles = g.parts * g.partValues := by
  obtain ⟨n, hn⟩ := hg.values
  have hparts := parts_mul hg
  have hpos := hg.valueCycles
  have hcycles := hg.inputCycles
  unfold Generics.partValues
  rw [hn, Nat.mul_div_cancel_left n hcycles, ← hparts, Nat.mul_assoc,
    Nat.mul_div_cancel_left _ hpos]

/-! ### Rows -/

/-- The row of the memory for the row of pixel `j`, from the one of pixel 0 on. -/
def slot (g : Generics) (inp : ℕ → Sample) (time : ℕ → ℕ) (j : ℕ) : ℕ :=
  ((run g inp (time 0 + 1)).ramInRow + j / g.inputColumns) % g.ramRows

theorem ramInRow_lt (hg : g.Counts) (t : ℕ) : (run g inp t).ramInRow < g.ramRows := by
  have hpos := ramRows_pos hg
  induction t with
  | zero => exact hpos
  | succ t ih =>
    show nextInRow g (run g inp t) (inp t).stream < _
    unfold nextInRow
    split_ifs <;> omega

section Rows

variable (hg : g.Stores) (hd : Delivers g.format inp time time word)

include hd in
theorem row_eq (h1 : time j ≤ t) (h2 : t < time (j + 1)) :
    (inp t).stream.row = g.format.row j := by
  rw [hd.stream j t h1 h2]

include hg hd in
theorem ramInRow_run (h1 : time j ≤ t) (h2 : t < time (j + 1)) :
    (run g inp (t + 1)).ramInRow = slot g inp time j := by
  have hlt := hd.lead_lt (show 0 < g.format.cycles from hg.inputCycles)
  -- inside a pixel the row stays
  have hstay (j t : ℕ) (hfirst : (run g inp (time j + 1)).ramInRow = slot g inp time j)
      (h1 : time j ≤ t) (h2 : t < time (j + 1)) :
      (run g inp (t + 1)).ramInRow = slot g inp time j := by
    induction t, h1 using Nat.le_induction with
    | base => exact hfirst
    | succ t ht ih =>
      have hsame : (run g inp (t + 1)).iRowReg = (inp (t + 1)).stream.row := by
        show (inp t).stream.row = _
        rw [row_eq hd ht (by omega), row_eq hd (by omega) h2]
      show nextInRow g (run g inp (t + 1)) (inp (t + 1)).stream = _
      rw [nextInRow, if_neg (not_not.mpr hsame)]
      exact ih (by omega)
  refine hstay j t ?_ h1 h2
  clear h1 h2
  induction j with
  | zero =>
    have hrow : (run g inp (time 0 + 1)).ramInRow < g.ramRows := ramInRow_lt hg.toCounts _
    unfold slot
    rw [Nat.zero_div]
    exact (Nat.mod_eq_of_lt hrow).symm
  | succ j ih =>
    have htime := hlt j
    obtain ⟨u, hu⟩ : ∃ u, time (j + 1) = u + 1 := ⟨time (j + 1) - 1, by omega⟩
    have hlast := hstay j u ih (by omega) (by omega)
    have hreg : (run g inp (u + 1)).iRowReg = g.format.row j := row_eq hd (by omega) (by omega)
    have hrow := row_eq hd (j := j + 1) (t := u + 1) hu.le (by rw [← hu]; exact hlt (j + 1))
    rw [hu]
    show nextInRow g (run g inp (u + 1)) (inp (u + 1)).stream = _
    rw [nextInRow, hreg, hrow, hlast]
    by_cases hcol : g.format.column (j + 1) = 0
    · -- the next row of the image, and of the memory
      obtain ⟨-, hdiv⟩ := Format.succ_of_column_eq hcol
      have hdiv' : (j + 1) / g.inputColumns = j / g.inputColumns + 1 := hdiv
      have hheight : 0 < g.inputRows := by have := hg.height; omega
      have hne : g.format.row j ≠ g.format.row (j + 1) := by
        show j / g.inputColumns % g.inputRows ≠ (j + 1) / g.inputColumns % g.inputRows
        have htwo := hg.height
        rw [hdiv']
        rcases Numbers.mod_succ_lt_or_eq hheight (j / g.inputColumns) with hless | hwrap
        · rw [(Numbers.div_mod_succ_of_lt hless).2]
          omega
        · rw [(Numbers.div_mod_succ_of_eq hheight hwrap).2]
          omega
      have hpos := ramRows_pos hg.toCounts
      rw [if_pos hne]
      unfold slot
      rw [hdiv', ← Nat.add_assoc]
      generalize (run g inp (time 0 + 1)).ramInRow + j / g.inputColumns = m
      rcases Numbers.mod_succ_lt_or_eq hpos m with hless | hwrap
      · rw [(Numbers.div_mod_succ_of_lt hless).2, if_pos (by omega)]
      · rw [(Numbers.div_mod_succ_of_eq hpos hwrap).2, if_neg (by omega)]
    · obtain ⟨-, hdiv⟩ := Format.succ_of_column_ne hcol
      have hdiv' : (j + 1) / g.inputColumns = j / g.inputColumns := hdiv
      rw [Format.row_congr hdiv, if_neg (not_not.mpr rfl)]
      unfold slot
      rw [hdiv']

end Rows

/-! ### Parts -/

/-- The offset and the part follow the number of the input cycle. -/
def AtPart (g : Generics) (s : State) : Prop :=
  let value := if g.inputCycles = 1 then 0 else s.iValueReg
  s.ramInAddrOffset = value / g.parts ∧ s.ramInDataPart = value % g.parts

theorem nextInPart_eq (hg : g.Stores) (h : AtPart g s) (i : CnnStream) :
    nextInPart g s i =
      ((if g.inputCycles = 1 then 0 else i.filter) / g.parts,
        (if g.inputCycles = 1 then 0 else i.filter) % g.parts) := by
  have hparts := parts_mul hg
  have hpos := parts_pos hg
  unfold AtPart at h
  unfold nextInPart
  by_cases hone : g.inputCycles = 1
  · have hvalue : g.valueCycles = 1 := Nat.dvd_one.mp (hone ▸ hg.cycles)
    simp only [if_pos hone, Nat.zero_div, Nat.zero_mod] at h ⊢
    rw [h.1, hvalue]
    split_ifs <;> first | rfl | omega
  · simp only [if_neg hone] at h ⊢
    by_cases hle : g.inputCycles ≤ g.valueCycles
    · have hsame : g.valueCycles = g.inputCycles :=
        le_antisymm (Nat.le_of_dvd hg.inputCycles hg.cycles) hle
      have hpart : g.parts = 1 := by
        unfold Generics.parts
        rw [hsame]
        exact Nat.div_self hg.inputCycles
      have hratio : g.valueCycles / g.inputCycles = 1 := by
        rw [hsame]
        exact Nat.div_self hg.inputCycles
      rw [hpart, Nat.div_one, Nat.mod_one] at h
      rw [if_pos hle, hratio, hpart, Nat.mul_one, Nat.mul_one, Nat.div_one, Nat.mod_one, h.1, h.2]
      by_cases hne : s.iValueReg ≠ i.filter
      · rw [if_pos hne]
      · rw [if_neg hne, if_neg (by omega), not_not.mp hne]
    · rw [if_neg hle, show g.inputCycles / g.valueCycles = g.parts from rfl, h.1, h.2]
      by_cases hne : s.iValueReg ≠ i.filter
      · rw [if_pos hne]
      · rw [if_neg hne, not_not.mp hne]

theorem atPart_run (hg : g.Stores) (t : ℕ) : AtPart g (run g inp t) := by
  induction t with
  | zero =>
    show 0 = _ ∧ 0 = _
    have hzero : (if g.inputCycles = 1 then 0 else 0 : ℕ) = 0 := ite_self 0
    constructor
    · exact (congrArg (· / g.parts) hzero).trans (Nat.zero_div _) |>.symm
    · exact (congrArg (· % g.parts) hzero).trans (Nat.zero_mod _) |>.symm
  | succ t ih =>
    have hnext := nextInPart_eq hg ih (inp t).stream
    exact ⟨congrArg Prod.fst hnext, congrArg Prod.snd hnext⟩

/-- A part is put to its place among the values. -/
theorem nextDataIn_eq (hg : g.Stores) (s : State) {part : ℕ} (hpart : part < g.parts)
    (d : CnnValues) (v : ℕ) :
    nextDataIn g s part d v =
      if part * g.partValues ≤ v ∧ v < (part + 1) * g.partValues then d (v - part * g.partValues)
      else s.ramDataIn v := by
  have hdvd := Nat.le_of_dvd hg.inputCycles hg.cycles
  unfold nextDataIn
  by_cases hsame : g.inputCycles = g.valueCycles
  · have hone : g.parts = 1 := by
      unfold Generics.parts
      rw [← hsame]
      exact Nat.div_self hg.inputCycles
    obtain rfl : part = 0 := by omega
    rw [if_pos hsame, Nat.zero_mul, Nat.zero_add, Nat.one_mul, Nat.sub_zero]
    exact if_congr (by simp [Generics.partValues]) rfl rfl
  · rw [if_neg hsame, if_neg (by omega)]
    rfl

section Contents

variable (hg : g.Stores) (hd : Delivers g.format inp time time word)

include hd in
/-- The edge of an input cycle. -/
theorem inp_eq (j : ℕ) (hf : f < g.inputCycles) : (inp (time j + f)).stream.filter = f ∧
    (inp (time j + f)).stream.dataValid = true ∧
    (inp (time j + f)).stream.column = g.format.column j ∧ (inp (time j + f)).data = word j f := by
  have hroom : time j + g.inputCycles ≤ time (j + 1) := hd.room j
  have hfilter : min (time j + f - time j) (g.inputCycles - 1) = f := by omega
  have hstream : (inp (time j + f)).stream = _ := hd.stream j _ (by omega) (by omega)
  rw [hstream]
  exact ⟨hfilter, decide_eq_true ⟨by omega, Nat.add_lt_add_left hf _⟩, rfl, hd.data j f hf⟩

include hg hd in
/-- The offset and the part of input cycle `f`. -/
theorem part_run (j : ℕ) (hf : f < g.inputCycles) :
    nextInPart g (run g inp (time j + f)) (inp (time j + f)).stream =
      (f / g.parts, f % g.parts) := by
  have hvalue : (if g.inputCycles = 1 then 0 else f) = f := by
    split_ifs with hone
    · omega
    · rfl
  rw [nextInPart_eq hg (atPart_run hg _), (inp_eq hd j hf).1, hvalue]

include hg hd in
/-- The register collects the parts of a cycle of the memory. -/
theorem dataIn_run (j : ℕ) (hf : f < g.inputCycles) (hv : v < (f % g.parts + 1) * g.partValues) :
    (run g inp (time j + f + 1)).ramDataIn v =
      word j (f - f % g.parts + v / g.partValues) (v % g.partValues) := by
  have hparts := parts_pos hg
  have hdata (f : ℕ) (hf : f < g.inputCycles) (v : ℕ) :
      (run g inp (time j + f + 1)).ramDataIn v =
        if f % g.parts * g.partValues ≤ v ∧ v < (f % g.parts + 1) * g.partValues then
          word j f (v - f % g.parts * g.partValues)
        else (run g inp (time j + f)).ramDataIn v := by
    show nextDataIn g _ (nextInPart g (run g inp (time j + f)) _).2 _ v = _
    rw [part_run hg hd j hf, nextDataIn_eq hg _ (Nat.mod_lt f hparts), (inp_eq hd j hf).2.2.2]
    rfl
  induction f with
  | zero =>
    rw [Nat.zero_mod] at hv ⊢
    obtain ⟨hdiv, hmod⟩ := Numbers.div_mod_eq' (a := 0) (q := g.partValues) (b := v) (by omega)
    rw [Nat.zero_mul, Nat.zero_add] at hdiv hmod
    rw [hdata 0 hf, Nat.zero_mod, Nat.zero_mul, if_pos ⟨Nat.zero_le v, hv⟩, hdiv, hmod]
    rfl
  | succ f ih =>
    rw [hdata (f + 1) hf]
    generalize hp : (f + 1) % g.parts = p at *
    have hle := Nat.mod_le (f + 1) g.parts
    by_cases hnew : p * g.partValues ≤ v
    · obtain ⟨u, rfl⟩ := Nat.exists_eq_add_of_le hnew
      rw [Nat.succ_mul] at hv
      obtain ⟨hdiv, hmod⟩ := Numbers.div_mod_eq' (a := p) (q := g.partValues) (b := u) (by omega)
      rw [if_pos ⟨hnew, by rw [Nat.succ_mul]; exact hv⟩, hdiv, hmod, Nat.add_sub_cancel_left,
        show f + 1 - p + p = f + 1 by omega]
    · -- the value came with an earlier part
      rw [if_neg fun h => hnew h.1]
      have hpos : p ≠ 0 := fun hzero => hnew (by rw [hzero, Nat.zero_mul]; exact Nat.zero_le v)
      rcases Numbers.mod_succ_lt_or_eq hparts f with hless | hwrap
      · have hmod := (Numbers.div_mod_succ_of_lt hless).2
        rw [hp] at hmod
        rw [hmod] at hnew
        have hprev := ih (by omega) (not_le.mp hnew)
        rw [show f + 1 - p = f - f % g.parts by omega]
        exact hprev
      · exact absurd (hp.symm.trans (Numbers.div_mod_succ_of_eq hparts hwrap).2) hpos

/-! ### Cells -/

theorem bufferRam_succ (t : ℕ) : (run g inp (t + 1)).bufferRam =
    if (run g inp t).ramEnable then Function.update (run g inp t).bufferRam
      (run g inp t).ramAddrIn (run g inp t).ramDataIn
    else (run g inp t).bufferRam := rfl

/-- The cell for the values of cycle `v` of pixel `j`. -/
def cell (g : Generics) (inp : ℕ → Sample) (time : ℕ → ℕ) (j v : ℕ) : ℕ :=
  (slot g inp time j * g.inputColumns + g.format.column j) * g.valueCycles + v

include hg in
/-- No two of the pixels in the last rows have a cell in common. -/
theorem cell_inj (hji : j ≤ i) (hi : i < j + g.ramRows * g.inputColumns) (hu : u < g.valueCycles)
    (hv : v < g.valueCycles) (h : cell g inp time i u = cell g inp time j v) : i = j ∧ u = v := by
  have hwidth : 0 < g.inputColumns := by
    have hw := hg.width
    omega
  obtain ⟨hplace, hcycle⟩ := Numbers.digits_inj hu hv h
  obtain ⟨hslot, hcolumn⟩ :=
    Numbers.digits_inj (Nat.mod_lt i hwidth) (Nat.mod_lt j hwidth) hplace
  refine ⟨?_, hcycle⟩
  have h1 := Nat.div_add_mod i g.inputColumns
  have h2 := Nat.div_add_mod j g.inputColumns
  -- the rows are less than a round of the memory apart
  have hrow : i / g.inputColumns = j / g.inputColumns := by
    have hle := Nat.div_le_div_right (c := g.inputColumns) hji
    obtain ⟨n, hn⟩ := Nat.exists_eq_add_of_le hle
    have hmod : n % g.ramRows = 0 := by
      unfold slot at hslot
      rw [hn, ← Nat.add_assoc] at hslot
      exact Nat.ModEq.add_left_cancel' (b := 0) _ hslot
    have hlt : n < g.ramRows := by
      by_contra hge
      have hmul := Nat.mul_le_mul_left g.inputColumns (not_lt.mp hge)
      rw [hn, Nat.mul_add, hcolumn] at h1
      rw [Nat.mul_comm g.ramRows] at hi
      omega
    rw [Nat.mod_eq_of_lt hlt] at hmod
    omega
  rw [← h1, ← h2, hrow, hcolumn]

include hg hd in
theorem addrIn_run (j : ℕ) (hf : f < g.inputCycles) :
    (run g inp (time j + f + 1)).ramAddrIn = cell g inp time j (f / g.parts) := by
  have hroom : time j + g.inputCycles ≤ time (j + 1) := hd.room j
  have hrow := ramInRow_run hg hd (j := j) (t := time j + f) (by omega) (by omega)
  show (nextInPart g (run g inp (time j + f)) _).1 +
    (_ + (run g inp (time j + f + 1)).ramInRow * _) * _ = _
  rw [part_run hg hd j hf, hrow, (inp_eq hd j hf).2.2.1]
  unfold cell
  ring

include hg hd in
/-- A cycle of a pixel is in its cell from the edge after its last part on, up to the edge
in which the pixel of a round later comes. -/
theorem bufferRam_eq (hv : v < g.valueCycles) (hu : u < g.parts * g.partValues)
    (h1 : time j + (v + 1) * g.parts + 1 ≤ t)
    (h2 : t ≤ time (j + g.ramRows * g.inputColumns) + 1) :
    (run g inp t).bufferRam (cell g inp time j v) u =
      word j (v * g.parts + u / g.partValues) (u % g.partValues) := by
  have hparts := parts_pos hg
  have hmul := parts_mul hg
  have hin : (v + 1) * g.parts ≤ g.inputCycles := by
    rw [← hmul]
    exact Nat.mul_le_mul_right _ hv
  -- the last part
  obtain ⟨f, hf⟩ : ∃ f, (v + 1) * g.parts = f + 1 :=
    Nat.exists_eq_succ_of_ne_zero (Nat.mul_pos v.succ_pos hparts).ne'
  rw [hf] at h1 hin
  rw [Nat.succ_mul] at hf
  have hlast : f = v * g.parts + (g.parts - 1) := by omega
  obtain ⟨hdiv, hmod⟩ := Numbers.div_mod_eq' (a := v) (q := g.parts) (b := g.parts - 1) (by omega)
  rw [← hlast] at hdiv hmod
  have haddr := addrIn_run hg hd j (f := f) (by omega)
  rw [hdiv] at haddr
  have hbase : (run g inp (time j + f + 1 + 1)).bufferRam (cell g inp time j v) u =
      word j (v * g.parts + u / g.partValues) (u % g.partValues) := by
    have hen : (run g inp (time j + f + 1)).ramEnable = true := (inp_eq hd j (by omega)).2.1
    have hram : (run g inp (time j + f + 1 + 1)).bufferRam = _ := bufferRam_succ _
    have hdata := dataIn_run hg hd j (f := f) (v := u) (by omega)
      (by rw [hmod, Nat.sub_add_cancel hparts]; exact hu)
    rw [hram, if_pos hen, haddr, Function.update_self, hdata, hmod,
      show f - (g.parts - 1) = v * g.parts by omega]
  rw [← hbase]
  refine congrFun (Clocked.kept (fun t => (run g inp t).bufferRam) bufferRam_succ (by omega) ?_) u
  intro w hw1 hw2 hen hcell
  -- a write between the two edges is for another pixel
  obtain ⟨x, rfl⟩ : ∃ x, w = x + 1 := ⟨w - 1, by omega⟩
  have hvalid : (inp x).stream.dataValid = true := hen
  obtain ⟨i, hi1, hi2, hi3, hi4⟩ := hd.exists_pixel_between hg.inputCycles
    (show time j ≤ x by omega) (show x < time (j + g.ramRows * g.inputColumns) by omega)
  rw [hd.stream i x hi3 hi4, decide_eq_true_iff] at hvalid
  obtain ⟨e, rfl⟩ := Nat.exists_eq_add_of_le hi3
  have he : e < g.inputCycles := Nat.lt_of_add_lt_add_left hvalid.2
  rw [addrIn_run hg hd i he] at hcell
  have hcycle : e / g.parts < g.valueCycles := by
    rw [Nat.div_lt_iff_lt_mul hparts, hmul]
    exact he
  obtain ⟨rfl, hsame⟩ := cell_inj hg hi1 hi2 hcycle hv hcell
  have hlt : e < (v + 1) * g.parts := (Nat.div_lt_iff_lt_mul hparts).mp (by omega)
  rw [Nat.succ_mul] at hlt
  omega

end Contents

end AlteraWorkshops.Cnn.RowBuffer
