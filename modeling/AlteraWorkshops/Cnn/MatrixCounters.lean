import AlteraWorkshops.Cnn.RowBuffer
import AlteraWorkshops.Numbers.Digits

/-! When the row buffer sends a matrix: its counters from one move of the center to the
next, for any positions that come in. -/

namespace AlteraWorkshops.Cnn.RowBuffer

variable {g : Generics} {inp : ℕ → Sample} {s : State} {c : Counters} {d k t u : ℕ}

/-- Edges for a matrix. -/
def Generics.elements (g : Generics) : ℕ :=
  g.filterRows * g.filterColumns * g.valueCycles * g.calcCycles

/-- A matrix has values. -/
structure Generics.Counts (g : Generics) : Prop where
  filterRows : 0 < g.filterRows
  filterColumns : 0 < g.filterColumns
  valueCycles : 0 < g.valueCycles
  calcCycles : 0 < g.calcCycles
  width : 2 ≤ g.inputColumns
  strides : 0 < g.strides

/-! ### Counting -/

/-- The counters in edge `d` of a matrix: rows, columns, values and cycles as the digits
of `d`. -/
def countersAt (g : Generics) (d : ℕ) : Counters where
  rowCntr := g.firstRow + (d / g.calcCycles / g.valueCycles / g.filterColumns : ℕ)
  columnCntr := g.firstColumn + (d / g.calcCycles / g.valueCycles % g.filterColumns : ℕ)
  valueCntr := d / g.calcCycles % g.valueCycles
  calcCntr := d % g.calcCycles
  validReg := true

/-- The counters `d` edges after the one that began a matrix. -/
structure Counted (g : Generics) (c : Counters) (d : ℕ) : Prop where
  now : d < g.elements → c = countersAt g d
  after : g.elements ≤ d →
    c.validReg = false ∧ c.rowCntr = g.lastRow ∧ c.columnCntr = g.lastColumn

theorem firstRow_add (hg : g.Counts) : g.firstRow + (g.filterRows - 1 : ℕ) = g.lastRow := by
  have hpos := hg.filterRows
  unfold Generics.firstRow Generics.lastRow
  omega

theorem firstColumn_add (hg : g.Counts) :
    g.firstColumn + (g.filterColumns - 1 : ℕ) = g.lastColumn := by
  have hpos := hg.filterColumns
  unfold Generics.firstColumn Generics.lastColumn
  omega

/-- The digits of the number of edges. -/
theorem elements_digits (hg : g.Counts) :
    g.elements % g.calcCycles = 0 ∧ g.elements / g.calcCycles % g.valueCycles = 0 ∧
      g.elements / g.calcCycles / g.valueCycles % g.filterColumns = 0 ∧
      g.elements / g.calcCycles / g.valueCycles / g.filterColumns = g.filterRows := by
  have h1 : g.elements / g.calcCycles = g.filterRows * g.filterColumns * g.valueCycles :=
    Nat.mul_div_cancel _ hg.calcCycles
  have h2 : g.elements / g.calcCycles / g.valueCycles = g.filterRows * g.filterColumns := by
    rw [h1]
    exact Nat.mul_div_cancel _ hg.valueCycles
  rw [h2, h1]
  exact ⟨Nat.mul_mod_left _ _, Nat.mul_mod_left _ _, Nat.mul_mod_left _ _,
    Nat.mul_div_cancel _ hg.filterColumns⟩

theorem elements_pos (hg : g.Counts) : 0 < g.elements :=
  Nat.mul_pos (Nat.mul_pos (Nat.mul_pos hg.filterRows hg.filterColumns) hg.valueCycles)
    hg.calcCycles

/-- The row of an edge of a matrix is one of the matrix. -/
theorem row_lt (hd : d < g.elements) :
    d / g.calcCycles / g.valueCycles / g.filterColumns < g.filterRows := by
  unfold Generics.elements at hd
  rw [Nat.div_div_eq_div_mul, Nat.div_div_eq_div_mul]
  refine Nat.div_lt_of_lt_mul (hd.trans_eq ?_)
  ring

theorem counted_start (hg : g.Counts) (hm : moved g s = true) : Counted g (count g s) 0 := by
  refine ⟨fun _ => ?_, fun hle => absurd hle (not_le.mpr (elements_pos hg))⟩
  rw [count, if_pos hm, countersAt, Nat.zero_div, Nat.zero_div, Nat.zero_div, Nat.zero_mod,
    Nat.zero_mod, Nat.zero_mod, Nat.cast_zero, add_zero, add_zero]

/-- In the last edge of a matrix every digit is the last one. -/
theorem last_digits (hg : g.Counts) (h : d + 1 = g.elements) :
    d % g.calcCycles + 1 = g.calcCycles ∧
      d / g.calcCycles % g.valueCycles + 1 = g.valueCycles ∧
      d / g.calcCycles / g.valueCycles % g.filterColumns + 1 = g.filterColumns ∧
      d / g.calcCycles / g.valueCycles / g.filterColumns + 1 = g.filterRows := by
  obtain ⟨hcalc, hvalue, hcolumn, hrow⟩ := elements_digits hg
  rw [← h] at hcalc hvalue hcolumn hrow
  obtain ⟨hcalc', hcarry⟩ := Numbers.div_mod_of_succ_mod_eq_zero hg.calcCycles hcalc
  rw [hcarry] at hvalue hcolumn hrow
  obtain ⟨hvalue', hcarry'⟩ := Numbers.div_mod_of_succ_mod_eq_zero hg.valueCycles hvalue
  rw [hcarry'] at hcolumn hrow
  obtain ⟨hcolumn', hcarry''⟩ := Numbers.div_mod_of_succ_mod_eq_zero hg.filterColumns hcolumn
  rw [hcarry''] at hrow
  exact ⟨hcalc', hvalue', hcolumn', hrow⟩

section Carry

variable (hm : moved g s = false) (hc : s.counters = countersAt g d)

include hm hc in
theorem count_calc (hcalc : d % g.calcCycles + 1 < g.calcCycles) :
    count g s = countersAt g (d + 1) := by
  obtain ⟨hdiv, hmod⟩ := Numbers.div_mod_succ_of_lt hcalc
  rw [count, if_neg (Bool.not_eq_true _ ▸ hm), hc, countersAt]
  dsimp only
  rw [if_pos (by omega), countersAt, hdiv, hmod]

include hm hc in
theorem count_value (hg : g.Counts) (hcalc : d % g.calcCycles + 1 = g.calcCycles)
    (hvalue : d / g.calcCycles % g.valueCycles + 1 < g.valueCycles) :
    count g s = countersAt g (d + 1) := by
  obtain ⟨hdiv, hmod⟩ := Numbers.div_mod_succ_of_eq hg.calcCycles hcalc
  obtain ⟨hdiv', hmod'⟩ := Numbers.div_mod_succ_of_lt hvalue
  rw [count, if_neg (Bool.not_eq_true _ ▸ hm), hc, countersAt]
  dsimp only
  rw [if_neg (by omega), if_pos (by omega), countersAt, hdiv, hdiv', hmod, hmod']

include hm hc in
theorem count_column (hg : g.Counts) (hcalc : d % g.calcCycles + 1 = g.calcCycles)
    (hvalue : d / g.calcCycles % g.valueCycles + 1 = g.valueCycles)
    (hcolumn : d / g.calcCycles / g.valueCycles % g.filterColumns + 1 < g.filterColumns) :
    count g s = countersAt g (d + 1) := by
  have hlast := firstColumn_add hg
  obtain ⟨hdiv, hmod⟩ := Numbers.div_mod_succ_of_eq hg.calcCycles hcalc
  obtain ⟨hdiv', hmod'⟩ := Numbers.div_mod_succ_of_eq hg.valueCycles hvalue
  obtain ⟨hdiv'', hmod''⟩ := Numbers.div_mod_succ_of_lt hcolumn
  rw [count, if_neg (Bool.not_eq_true _ ▸ hm), hc, countersAt]
  dsimp only
  rw [if_neg (by omega), if_neg (by omega), if_pos (by omega), countersAt, hdiv, hdiv', hdiv'',
    hmod, hmod', hmod'', Nat.cast_succ, add_assoc]

include hm hc in
theorem count_row (hg : g.Counts) (hcalc : d % g.calcCycles + 1 = g.calcCycles)
    (hvalue : d / g.calcCycles % g.valueCycles + 1 = g.valueCycles)
    (hcolumn : d / g.calcCycles / g.valueCycles % g.filterColumns + 1 = g.filterColumns)
    (hrow : d / g.calcCycles / g.valueCycles / g.filterColumns + 1 < g.filterRows) :
    count g s = countersAt g (d + 1) := by
  have hlastRow := firstRow_add hg
  have hlast := firstColumn_add hg
  obtain ⟨hdiv, hmod⟩ := Numbers.div_mod_succ_of_eq hg.calcCycles hcalc
  obtain ⟨hdiv', hmod'⟩ := Numbers.div_mod_succ_of_eq hg.valueCycles hvalue
  obtain ⟨hdiv'', hmod''⟩ := Numbers.div_mod_succ_of_eq hg.filterColumns hcolumn
  rw [count, if_neg (Bool.not_eq_true _ ▸ hm), hc, countersAt]
  dsimp only
  rw [if_neg (by omega), if_neg (by omega), if_neg (by omega), if_pos (by omega), countersAt, hdiv,
    hdiv', hdiv'', hmod, hmod', hmod'', Nat.cast_succ, Nat.cast_zero, add_zero, add_assoc]

include hm hc in
theorem count_succ (hg : g.Counts) (hd : d + 1 < g.elements) :
    count g s = countersAt g (d + 1) := by
  rcases Numbers.mod_succ_lt_or_eq hg.calcCycles d with hcalc | hcalc
  · exact count_calc hm hc hcalc
  rcases Numbers.mod_succ_lt_or_eq hg.valueCycles (d / g.calcCycles) with hvalue | hvalue
  · exact count_value hm hc hg hcalc hvalue
  rcases Numbers.mod_succ_lt_or_eq hg.filterColumns (d / g.calcCycles / g.valueCycles)
    with hcolumn | hcolumn
  · exact count_column hm hc hg hcalc hvalue hcolumn
  · -- the carry is not past the last row, or the matrix would be over
    refine count_row hm hc hg hcalc hvalue hcolumn ?_
    have hrow := row_lt hd
    obtain ⟨hdiv, -⟩ := Numbers.div_mod_succ_of_eq hg.calcCycles hcalc
    obtain ⟨hdiv', -⟩ := Numbers.div_mod_succ_of_eq hg.valueCycles hvalue
    obtain ⟨hdiv'', -⟩ := Numbers.div_mod_succ_of_eq hg.filterColumns hcolumn
    rwa [hdiv, hdiv', hdiv''] at hrow

include hm hc in
/-- The counters stay at the last value. -/
theorem count_last (hg : g.Counts) (hd : d + 1 = g.elements) :
    (count g s).validReg = false ∧ (count g s).rowCntr = g.lastRow ∧
      (count g s).columnCntr = g.lastColumn := by
  have hlastRow := firstRow_add hg
  have hlastColumn := firstColumn_add hg
  obtain ⟨hcalc, hvalue, hcolumn, hrow⟩ := last_digits hg hd
  rw [← hrow, Nat.add_sub_cancel] at hlastRow
  rw [← hcolumn, Nat.add_sub_cancel] at hlastColumn
  rw [count, if_neg (Bool.not_eq_true _ ▸ hm), hc, countersAt]
  dsimp only
  rw [if_neg (by omega), if_neg (by omega), if_neg (by rw [hlastColumn]; exact lt_irrefl _),
    if_neg (by rw [hlastRow]; exact lt_irrefl _)]
  exact ⟨rfl, hlastRow, hlastColumn⟩

end Carry

theorem count_after (hm : moved g s = false) (hvalid : s.counters.validReg = false)
    (hrow : s.counters.rowCntr = g.lastRow) (hcolumn : s.counters.columnCntr = g.lastColumn) :
    (count g s).validReg = false ∧ (count g s).rowCntr = g.lastRow ∧
      (count g s).columnCntr = g.lastColumn := by
  have hrow' : ¬s.counters.rowCntr < g.lastRow := by omega
  have hcolumn' : ¬s.counters.columnCntr < g.lastColumn := by omega
  rw [count, if_neg (Bool.not_eq_true _ ▸ hm), if_neg hcolumn', if_neg hrow']
  split_ifs
  · exact ⟨hvalid, hrow, hcolumn⟩
  · exact ⟨hvalid, hrow, hcolumn⟩
  · exact ⟨rfl, hrow, hcolumn⟩

/-- One more edge without a move of the center. -/
theorem Counted.next (hg : g.Counts) (hm : moved g s = false) (h : Counted g s.counters d) :
    Counted g (count g s) (d + 1) := by
  rcases Nat.lt_or_ge d g.elements with hd | hd
  · have hc := h.now hd
    refine ⟨fun hlt => count_succ hm hc hg hlt, fun hle => count_last hm hc hg (by omega)⟩
  · obtain ⟨hvalid, hrow, hcolumn⟩ := h.after hd
    exact ⟨fun hlt => absurd hlt (by omega), fun _ => count_after hm hvalid hrow hcolumn⟩

/-! ### Moves of the center -/

/-- The middle column of the matrices that end in column `column`. -/
def columnCenter (g : Generics) (column : ℕ) : ℕ := subMod column g.lastColumn g.inputColumns

/-- From edge `time k` on the input is in column `column k`, and the center moves with it. -/
structure Moves (g : Generics) (inp : ℕ → Sample) (time column : ℕ → ℕ) : Prop where
  first : time 0 = 0
  lt : ∀ k, time k < time (k + 1)
  shows : ∀ k t, time k ≤ t → t < time (k + 1) → (inp t).stream.column = column k
  start : columnCenter g (column 0) ≠ 0
  moves : ∀ k, columnCenter g (column (k + 1)) ≠ columnCenter g (column k)

variable {time column : ℕ → ℕ}

section Run

variable (hg : g.Counts) (h : Moves g inp time column)

theorem outColumnCenter_succ (hg : g.Counts) (t : ℕ) :
    (run g inp (t + 1)).outColumnCenter = columnCenter g (inp t).stream.column := by
  have hw := hg.width
  show (nextCenter g (run g inp t) (inp t).stream _).2.1 = _
  rw [nextCenter, if_pos (by omega)]
  dsimp only
  split_ifs <;> rfl

theorem oStreamReg_succ (t : ℕ) : (run g inp (t + 1)).oStreamReg =
    ⟨(run g inp t).outColumnCenter, (run g inp t).outRowCenter, 0,
      (run g inp (t + 1)).counters.validReg &&
        chosen g (run g inp t).outColumnCenter (run g inp t).outRowCenter⟩ := rfl

include hg h in
theorem outColumnCenter_eq (h1 : time k < t) (h2 : t ≤ time (k + 1)) :
    (run g inp t).outColumnCenter = columnCenter g (column k) := by
  obtain ⟨u, rfl⟩ : ∃ u, t = u + 1 := ⟨t - 1, by omega⟩
  rw [outColumnCenter_succ hg, h.shows k u (by omega) (by omega)]

/-- With more than one column the columns tell whether the center has moved. -/
theorem moved_eq (hg : g.Counts) (s : State) :
    moved g s = (s.outColumnCenter != s.oStreamReg.column) := by
  have hw := hg.width
  unfold moved
  rw [decide_eq_true (show 1 < g.inputColumns by omega),
    decide_eq_false (show ¬g.inputColumns ≤ 1 by omega), Bool.true_and, Bool.false_and,
    Bool.or_false]

include hg h in
/-- The center moves one edge after the input. -/
theorem moved_run (h1 : time k < t) (h2 : t ≤ time (k + 1)) :
    moved g (run g inp t) = decide (t = time k + 1) := by
  have hnow := outColumnCenter_eq hg h h1 h2
  obtain ⟨u, rfl⟩ : ∃ u, t = u + 1 := ⟨t - 1, by omega⟩
  rw [moved_eq hg, hnow, oStreamReg_succ]
  dsimp only
  by_cases heq : u = time k
  · have hbefore : columnCenter g (column k) ≠ (run g inp u).outColumnCenter := by
      cases k with
      | zero =>
        rw [heq, h.first]
        exact h.start
      | succ k =>
        rw [outColumnCenter_eq hg h (k := k) (by have := h.lt k; omega) (by omega)]
        exact h.moves k
    rw [decide_eq_true (by omega), bne_iff_ne]
    exact hbefore
  · rw [outColumnCenter_eq hg h (k := k) (by omega) (by omega), bne_self_eq_false]
    exact (decide_eq_false (by omega)).symm

include hg h in
theorem counted_run (k : ℕ) (hd : time k + d < time (k + 1)) :
    Counted g (run g inp (time k + d + 2)).counters d := by
  induction d with
  | zero =>
    have hm := moved_run hg h (k := k) (t := time k + 1) (by omega) (by omega)
    rw [decide_eq_true rfl] at hm
    exact counted_start hg hm
  | succ d ih =>
    have hm := moved_run hg h (k := k) (t := time k + d + 2) (by omega) (by omega)
    rw [decide_eq_false (by omega)] at hm
    exact (ih (by omega)).next hg hm

/-- The middle row of the matrices of position `k`, in the image and in the memory. -/
def rowCenter (g : Generics) (inp : ℕ → Sample) (time : ℕ → ℕ) (k : ℕ) : ℕ :=
  (run g inp (time k + 1)).outRowCenter

def ramRowCenter (g : Generics) (inp : ℕ → Sample) (time : ℕ → ℕ) (k : ℕ) : ℕ :=
  (run g inp (time k + 1)).ramOutRowCenter

/-- The rows are those of the edge before unless the center goes back. -/
theorem centers_succ (hg : g.Counts) (hle : (run g inp t).outColumnCenter ≤
    columnCenter g (inp t).stream.column) :
    (run g inp (t + 1)).outRowCenter = (run g inp t).outRowCenter ∧
      (run g inp (t + 1)).ramOutRowCenter = (run g inp t).ramOutRowCenter := by
  have hw := hg.width
  have hcenter : nextCenter g (run g inp t) (inp t).stream
      (nextInRow g (run g inp t) (inp t).stream) =
      ((run g inp t).outRowCenter, columnCenter g (inp t).stream.column,
        (run g inp t).ramOutRowCenter) := by
    rw [nextCenter, if_pos (by omega)]
    exact if_neg (not_lt.mpr hle)
  exact ⟨congrArg Prod.fst hcenter, congrArg (fun c => c.2.2) hcenter⟩

include hg h in
theorem centers_eq (h1 : time k < t) (h2 : t ≤ time (k + 1)) :
    (run g inp t).outRowCenter = rowCenter g inp time k ∧
      (run g inp t).ramOutRowCenter = ramRowCenter g inp time k := by
  induction t, h1 using Nat.le_induction with
  | base => exact ⟨rfl, rfl⟩
  | succ t ht ih =>
    obtain ⟨hrow, hram⟩ := ih (by omega)
    have hle : (run g inp t).outColumnCenter ≤ columnCenter g (inp t).stream.column := by
      rw [outColumnCenter_eq hg h (k := k) (by omega) (by omega), h.shows k t (by omega) (by omega)]
    obtain ⟨hrow', hram'⟩ := centers_succ hg hle
    exact ⟨hrow'.trans hrow, hram'.trans hram⟩

/-! ### What is sent -/

/-- The matrices of position `k` are sent. -/
def sent (g : Generics) (inp : ℕ → Sample) (time column : ℕ → ℕ) (k : ℕ) : Bool :=
  chosen g (columnCenter g (column k)) (rowCenter g inp time k)

include hg h in
theorem validReg_run (k : ℕ) (hd : time k + d < time (k + 1)) :
    (run g inp (time k + d + 2)).counters.validReg = decide (d < g.elements) := by
  have hc := counted_run hg h k hd
  rcases Nat.lt_or_ge d g.elements with hlt | hge
  · rw [hc.now hlt, decide_eq_true hlt]
    rfl
  · rw [(hc.after hge).1, decide_eq_false (not_lt.mpr hge)]

include hg h in
theorem oStreamReg_run (k : ℕ) (hd : time k + d < time (k + 1)) :
    (run g inp (time k + d + 2)).oStreamReg =
      ⟨columnCenter g (column k), rowCenter g inp time k, 0,
        decide (d < g.elements) && sent g inp time column k⟩ := by
  have hcolumn := outColumnCenter_eq hg h (k := k) (t := time k + d + 1) (by omega) (by omega)
  have hrow := (centers_eq hg h (k := k) (t := time k + d + 1) (by omega) (by omega)).1
  rw [oStreamReg_succ, validReg_run hg h k hd, hcolumn, hrow]
  rfl

/-- The position under which the matrices of a center are sent. -/
def sentPosition (g : Generics) (column row : ℕ) : ℕ × ℕ :=
  ((corrected g ⟨column, row, 0, true⟩).column / g.strides,
    (corrected g ⟨column, row, 0, true⟩).row / g.strides)

theorem oStream_succ (t : ℕ) : (run g inp (t + 2)).oStream =
    if (run g inp t).oStreamReg.dataValid then
      ⟨(corrected g (run g inp t).oStreamReg).column / g.strides,
        (corrected g (run g inp t).oStreamReg).row / g.strides,
        (corrected g (run g inp t).oStreamReg).filter,
        (corrected g (run g inp t).oStreamReg).dataValid⟩
    else
      ⟨(run g inp t).oStreamBuf.column / g.strides, (run g inp t).oStreamBuf.row / g.strides,
        (run g inp t).oStreamBuf.filter, false⟩ := by
  have hbuf : (run g inp (t + 2)).oStream = { (run g inp (t + 1)).oStreamBuf with
      column := (run g inp (t + 1)).oStreamBuf.column / g.strides
      row := (run g inp (t + 1)).oStreamBuf.row / g.strides } := rfl
  have hreg : (run g inp (t + 1)).oStreamBuf = if (run g inp t).oStreamReg.dataValid then
      corrected g (run g inp t).oStreamReg
    else { (run g inp t).oStreamBuf with dataValid := false } := rfl
  rw [hbuf, hreg]
  split_ifs <;> rfl

theorem corrected_eq (g : Generics) (column row : ℕ) (b : Bool) :
    corrected g ⟨column, row, 0, b⟩ = ⟨(corrected g ⟨column, row, 0, true⟩).column,
      (corrected g ⟨column, row, 0, true⟩).row, 0, true⟩ := by
  unfold corrected
  cases g.padding <;> rfl

include hg h in
/-- Four edges after the input comes to a position the first value of its matrix is sent. -/
theorem oStream_run (k : ℕ) (hd : time k + d < time (k + 1)) :
    ((run g inp (time k + d + 4)).oStream.dataValid =
      (decide (d < g.elements) && sent g inp time column k)) ∧
    (d < g.elements → sent g inp time column k = true →
      (run g inp (time k + d + 4)).oStream =
        ⟨(sentPosition g (columnCenter g (column k)) (rowCenter g inp time k)).1,
          (sentPosition g (columnCenter g (column k)) (rowCenter g inp time k)).2, 0, true⟩) := by
  rw [oStream_succ, oStreamReg_run hg h k hd, corrected_eq]
  dsimp only
  constructor
  · split_ifs with hv
    · exact hv.symm
    · exact (Bool.not_eq_true _ ▸ hv).symm
  · intro hlt hsent
    rw [hsent, decide_eq_true hlt, Bool.and_self, if_pos rfl]
    rfl

/-- Before that nothing is sent. -/
theorem oStream_early (hg : g.Counts) (ht : t < 4) : (run g inp t).oStream.dataValid = false := by
  rcases t with _ | _ | t
  · rfl
  · rfl
  · have hreg : (run g inp t).oStreamReg.dataValid = false := by
      rcases t with _ | _ | t
      · rfl
      · have hm : moved g (run g inp 0) = false := by
          rw [moved_eq hg]
          rfl
        have hvalid : (count g (run g inp 0)).validReg = false := by
          rw [count, if_neg (by rw [hm]; exact Bool.false_ne_true)]
          split_ifs <;> rfl
        show ((count g (run g inp 0)).validReg && _) = false
        rw [hvalid, Bool.false_and]
      · omega
    rw [oStream_succ, if_neg (by rw [hreg]; exact Bool.false_ne_true)]

include hg h in
theorem dataValid_iff (t : ℕ) : (output g inp t).stream.dataValid = true ↔
    ∃ k, time k + 4 ≤ t ∧ t < time (k + 1) + 4 ∧ t < time k + 4 + g.elements ∧
      sent g inp time column k = true := by
  constructor
  · intro ht
    have hge : 4 ≤ t := by
      by_contra hlt
      have hearly : (run g inp t).oStream.dataValid = true := ht
      rw [oStream_early hg (by omega)] at hearly
      cases hearly
    have hfirst := h.first
    obtain ⟨k, h1, h2⟩ := Clocked.exists_interval (strictMono_nat_of_lt_succ h.lt)
      (show time 0 ≤ t - 4 by omega)
    have hrun := (oStream_run hg h k (d := t - 4 - time k) (by omega)).1
    rw [show time k + (t - 4 - time k) + 4 = t by omega] at hrun
    have ht' : (run g inp t).oStream.dataValid = true := ht
    rw [hrun, Bool.and_eq_true, decide_eq_true_iff] at ht'
    exact ⟨k, by omega, by omega, by omega, ht'.2⟩
  · rintro ⟨k, h1, h2, h3, hsent⟩
    have hrun := (oStream_run hg h k (d := t - 4 - time k) (by omega)).1
    rw [show time k + (t - 4 - time k) + 4 = t by omega, hsent, decide_eq_true (by omega)] at hrun
    exact hrun

end Run

end AlteraWorkshops.Cnn.RowBuffer
