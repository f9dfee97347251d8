import AlteraWorkshops.Cnn.RowMemory

/-! Which values the row buffer sends for a raster image: when a pixel comes, the matrix
around the pixel `lag` before it, with zeros for the places outside of the image. -/

namespace AlteraWorkshops.Cnn.RowBuffer

variable {g : Generics} {inp : ℕ → Sample} {time column : ℕ → ℕ} {word : ℕ → ℕ → CnnValues}
  {d e k m o t u : ℕ}

/-- From position `o` on the input is a raster image, pixel after pixel. -/
structure Raster (g : Generics) (inp : ℕ → Sample) (time column : ℕ → ℕ) (o : ℕ)
    (word : ℕ → ℕ → CnnValues) : Prop extends Moves g inp time column where
  delivers : Delivers g.format inp (fun k => time (o + k)) (fun k => time (o + k)) word

/-- Pixels from the middle of a matrix to its end. -/
def Generics.lag (g : Generics) : ℕ := g.lastColumn + g.lastRow * g.inputColumns

/-- The matrices are no wider than the image, and their last pixel is there when it is sent. -/
structure Generics.Frames (g : Generics) : Prop extends g.Stores where
  filterWidth : g.filterColumns ≤ g.inputColumns
  arrived : g.inputCycles ≤
    (g.filterRows * g.filterColumns - 1) * g.valueCycles * g.calcCycles + 2

/-! ### Centers -/

theorem subMod_add (a b m : ℕ) : subMod ((a + b) % m) b m = a % m := by
  have hcast : (((a + b) % m : ℕ) : ℤ) - b = ((a + b : ℕ) : ℤ) % m - b := by rw [Int.natCast_mod]
  rw [subMod, hcast, Int.sub_emod, Int.emod_emod, ← Int.sub_emod]
  push_cast
  rw [add_sub_cancel_right, ← Int.natCast_mod, Int.toNat_natCast]

theorem lastColumn_lt (hg : g.Frames) : g.lastColumn < g.inputColumns := by
  have hwidth := hg.filterWidth
  have hpos := hg.filterColumns
  unfold Generics.lastColumn
  omega

/-- When the center goes back, it takes over the rows of the input. -/
theorem centers_wrap (hg : g.Counts) (hlt : columnCenter g (inp t).stream.column <
    (run g inp t).outColumnCenter) :
    (run g inp (t + 1)).outRowCenter = subMod (inp t).stream.row g.lastRow g.inputRows ∧
      (run g inp (t + 1)).ramOutRowCenter =
        subMod (run g inp (t + 1)).ramInRow g.lastRow g.ramRows := by
  have hw := hg.width
  have hcenter : nextCenter g (run g inp t) (inp t).stream
      (nextInRow g (run g inp t) (inp t).stream) =
      (subMod (inp t).stream.row g.lastRow g.inputRows, columnCenter g (inp t).stream.column,
        subMod (nextInRow g (run g inp t) (inp t).stream) g.lastRow g.ramRows) := by
    rw [nextCenter, if_pos (by omega)]
    exact if_pos hlt
  exact ⟨congrArg Prod.fst hcenter, congrArg (fun c => c.2.2) hcenter⟩

section Centers

variable (hg : g.Frames) (h : Raster g inp time column o word)

include h in
theorem Raster.column_eq (k : ℕ) : column (o + k) = k % g.inputColumns := by
  have hlt := h.lt (o + k)
  rw [← h.shows (o + k) (time (o + k)) le_rfl hlt, h.delivers.stream k _ le_rfl hlt]
  rfl

include h in
theorem columnCenter_raster (hk : g.lastColumn ≤ k) :
    columnCenter g (column (o + k)) = (k - g.lastColumn) % g.inputColumns := by
  obtain ⟨l, rfl⟩ := Nat.exists_eq_add_of_le' hk
  rw [h.column_eq, columnCenter, subMod_add, Nat.add_sub_cancel]

include hg h in
/-- A center in column 0 is reached from one in another column. -/
theorem outColumnCenter_pos (hk : columnCenter g (column k) = 0) :
    0 < (run g inp (time k)).outColumnCenter := by
  cases k with
  | zero => exact absurd hk h.start
  | succ k =>
    have hlt := h.lt k
    have hmoves := h.moves k
    rw [outColumnCenter_eq hg.toCounts h.toMoves (k := k) hlt le_rfl]
    omega

include hg h in
theorem centers_start (hk : columnCenter g (column (o + k)) = 0) :
    rowCenter g inp time (o + k) = subMod (g.format.row k) g.lastRow g.inputRows ∧
      ramRowCenter g inp time (o + k) =
        subMod (slot g inp (fun k => time (o + k)) k) g.lastRow g.ramRows := by
  have hlt := h.lt (o + k)
  have hcolumn := h.shows (o + k) (time (o + k)) le_rfl hlt
  have hwrap : columnCenter g (inp (time (o + k))).stream.column <
      (run g inp (time (o + k))).outColumnCenter := by
    rw [hcolumn, hk]
    exact outColumnCenter_pos hg h hk
  obtain ⟨hrow, hram⟩ := centers_wrap hg.toCounts hwrap
  have hslot := ramInRow_run hg.toStores h.delivers (j := k) (t := time (o + k)) le_rfl hlt
  rw [row_eq h.delivers (j := k) le_rfl hlt] at hrow
  rw [hslot] at hram
  exact ⟨hrow, hram⟩

include hg h in
/-- The rows of the center are those in which its column was 0 last. -/
theorem centers_raster (k : ℕ) :
    rowCenter g inp time (o + (k + g.lastColumn)) =
        subMod (k / g.inputColumns % g.inputRows) g.lastRow g.inputRows ∧
      ramRowCenter g inp time (o + (k + g.lastColumn)) =
        subMod (((run g inp (time o + 1)).ramInRow + k / g.inputColumns) % g.ramRows) g.lastRow
          g.ramRows := by
  have hlast := lastColumn_lt hg
  have hwidth : 0 < g.inputColumns := by omega
  -- the first pixel of a row of centers
  have hfirst (k : ℕ) (hk : k % g.inputColumns = 0) :
      rowCenter g inp time (o + (k + g.lastColumn)) =
          subMod (k / g.inputColumns % g.inputRows) g.lastRow g.inputRows ∧
        ramRowCenter g inp time (o + (k + g.lastColumn)) =
          subMod (((run g inp (time o + 1)).ramInRow + k / g.inputColumns) % g.ramRows) g.lastRow
            g.ramRows := by
    have hdiv : (k + g.lastColumn) / g.inputColumns = k / g.inputColumns := by
      have hdivmod := Nat.div_add_mod k g.inputColumns
      rw [hk, Nat.add_zero] at hdivmod
      rw [← hdivmod, (Numbers.div_mod_eq hlast).1, Nat.mul_div_cancel_left _ hwidth]
    have hcenter := columnCenter_raster h (k := k + g.lastColumn) (by omega)
    rw [Nat.add_sub_cancel, hk] at hcenter
    have hrows := centers_start hg h hcenter
    unfold Format.row slot at hrows
    rw [show g.format.width = g.inputColumns from rfl, hdiv] at hrows
    exact hrows
  induction k with
  | zero => exact hfirst 0 (Nat.zero_mod _)
  | succ k ih =>
    rcases Numbers.mod_succ_lt_or_eq hwidth k with hless | hwrap
    · obtain ⟨hdiv, hmod⟩ := Numbers.div_mod_succ_of_lt hless
      obtain ⟨hrow, hram⟩ := ih
      have hlt := h.lt (o + (k + g.lastColumn))
      have hlt' := h.lt (o + (k + g.lastColumn) + 1)
      obtain ⟨hrow', hram'⟩ := centers_eq hg.toCounts h.toMoves hlt le_rfl
      have hcenter := outColumnCenter_eq hg.toCounts h.toMoves hlt le_rfl
      rw [columnCenter_raster h (by omega), Nat.add_sub_cancel] at hcenter
      have hnext := columnCenter_raster h (k := k + g.lastColumn + 1) (by omega)
      rw [show k + g.lastColumn + 1 - g.lastColumn = k + 1 by omega, hmod] at hnext
      have hle : (run g inp (time (o + (k + g.lastColumn) + 1))).outColumnCenter ≤
          columnCenter g (inp (time (o + (k + g.lastColumn) + 1))).stream.column := by
        rw [hcenter, h.shows _ _ le_rfl hlt', Nat.add_assoc, hnext]
        omega
      obtain ⟨hrow'', hram''⟩ := centers_succ hg.toCounts hle
      rw [hdiv, show k + 1 + g.lastColumn = k + g.lastColumn + 1 by omega]
      exact ⟨(hrow''.trans hrow').trans hrow, (hram''.trans hram').trans hram⟩
    · exact hfirst (k + 1) (Numbers.div_mod_succ_of_eq hwidth hwrap).2

include hg h in
/-- The center is the pixel `lag` before the one that comes. -/
theorem centers_lag (m : ℕ) :
    columnCenter g (column (o + (m + g.lag))) = g.format.column m ∧
      rowCenter g inp time (o + (m + g.lag)) = g.format.row m ∧
      ramRowCenter g inp time (o + (m + g.lag)) = slot g inp (fun k => time (o + k)) m := by
  have hwidth : 0 < g.inputColumns := by
    have hlast := lastColumn_lt hg
    omega
  have hlag : m + g.lag = m + g.lastRow * g.inputColumns + g.lastColumn := by
    unfold Generics.lag
    omega
  obtain ⟨hrow, hram⟩ := centers_raster hg h (m + g.lastRow * g.inputColumns)
  rw [Nat.add_mul_div_right _ _ hwidth] at hrow hram
  rw [subMod_add] at hrow
  rw [← Nat.add_assoc (run g inp (time o + 1)).ramInRow, subMod_add] at hram
  rw [hlag]
  refine ⟨?_, hrow, hram⟩
  rw [columnCenter_raster h (by omega), Nat.add_sub_cancel, Nat.add_mul_mod_self_right]
  rfl

end Centers

/-! ### Values -/

def Generics.steps (g : Generics) : ℕ := g.filterRows * g.filterColumns * g.valueCycles

/-- The place in the matrix in step `e`, seen from its middle. -/
def rowAt (g : Generics) (e : ℕ) : ℤ := g.firstRow + (e / g.valueCycles / g.filterColumns : ℕ)
def columnAt (g : Generics) (e : ℕ) : ℤ :=
  g.firstColumn + (e / g.valueCycles % g.filterColumns : ℕ)

/-- The place of step `e` of the matrix around pixel `m` is one of the image. -/
def covered (g : Generics) (m e : ℕ) : Bool :=
  inside g (g.format.column m + columnAt g e) (g.format.row m + rowAt g e)

/-- The pixel in step `e` of the matrix around pixel `m`. -/
def matrixPixel (g : Generics) (m e : ℕ) : ℕ :=
  ((m : ℤ) + rowAt g e * g.inputColumns + columnAt g e).toNat

/-- The values in step `e` of the matrix around pixel `m`. -/
def window (g : Generics) (word : ℕ → ℕ → CnnValues) (m e : ℕ) : CnnValues := fun u =>
  if covered g m e then
    word (matrixPixel g m e) (e % g.valueCycles * g.parts + u / g.partValues) (u % g.partValues)
  else 0

theorem step_lt (hd : d < g.elements) : d / g.calcCycles < g.steps :=
  Nat.div_lt_of_lt_mul (hd.trans_eq (Nat.mul_comm _ _))

theorem place_between (hg : g.Counts) (he : e < g.steps) :
    g.firstRow ≤ rowAt g e ∧ rowAt g e ≤ g.lastRow ∧ g.firstColumn ≤ columnAt g e ∧
      columnAt g e ≤ g.lastColumn := by
  have hrow : e / g.valueCycles / g.filterColumns < g.filterRows := by
    rw [Nat.div_div_eq_div_mul]
    refine Nat.div_lt_of_lt_mul (he.trans_eq ?_)
    unfold Generics.steps
    ring
  have hcolumn := Nat.mod_lt (e / g.valueCycles) hg.filterColumns
  have hfirstRow := firstRow_add hg
  have hfirstColumn := firstColumn_add hg
  unfold rowAt columnAt
  generalize e / g.valueCycles / g.filterColumns = a at *
  generalize e / g.valueCycles % g.filterColumns = b at *
  omega

/-- In the last place of a matrix all but one of its pixels are over. -/
theorem last_place (hg : g.Counts) (hrow : rowAt g e = g.lastRow)
    (hcolumn : columnAt g e = g.lastColumn) :
    (g.filterRows * g.filterColumns - 1) * g.valueCycles ≤ e := by
  have hfirstRow := firstRow_add hg
  have hfirstColumn := firstColumn_add hg
  have hpos := hg.filterRows
  have hdivmod := Nat.div_add_mod (e / g.valueCycles) g.filterColumns
  unfold rowAt at hrow
  unfold columnAt at hcolumn
  have hrows : e / g.valueCycles / g.filterColumns + 1 = g.filterRows := by omega
  rw [← Nat.le_div_iff_mul_le hg.valueCycles, ← hdivmod, ← hrows, Nat.succ_mul, Nat.mul_comm]
  omega

/-- Without padding the matrices that are sent lie in the image. -/
theorem covered_of_chosen (hg : g.Counts) (he : e < g.steps) (hpad : g.padding = .valid) {m : ℕ}
    (hsent : chosen g (g.format.column m) (g.format.row m) = true) : covered g m e = true := by
  obtain ⟨h1, h2, h3, h4⟩ := place_between hg he
  simp only [chosen, hpad, Bool.and_eq_true, decide_eq_true_eq] at hsent
  obtain ⟨⟨⟨⟨⟨h5, h6⟩, h7⟩, h8⟩, -⟩, -⟩ := hsent
  unfold Generics.firstRow at h1
  unfold Generics.firstColumn at h3
  simp only [covered, inside, Bool.and_eq_true, decide_eq_true_eq]
  omega

/-- A place in the image is that of a pixel. -/
theorem matrixPixel_eq (m : ℕ) (hin : covered g m e = true) :
    ∃ q p : ℕ, (q : ℤ) = (m / g.inputColumns : ℕ) + rowAt g e ∧
      (p : ℤ) = g.format.column m + columnAt g e ∧ p < g.inputColumns ∧
      matrixPixel g m e = q * g.inputColumns + p := by
  simp only [covered, inside, Bool.and_eq_true, decide_eq_true_eq] at hin
  obtain ⟨⟨⟨h1, h2⟩, h3⟩, -⟩ := hin
  have hrow : 0 ≤ ((m / g.inputColumns : ℕ) : ℤ) + rowAt g e := by
    have hle : g.format.row m ≤ m / g.inputColumns := Nat.mod_le _ _
    omega
  obtain ⟨q, hq⟩ := Int.eq_ofNat_of_zero_le hrow
  obtain ⟨p, hp⟩ := Int.eq_ofNat_of_zero_le h1
  refine ⟨q, p, hq.symm, hp.symm, by omega, ?_⟩
  have hm : (m : ℤ) = (m / g.inputColumns : ℕ) * g.inputColumns + g.format.column m := by
    exact_mod_cast (Nat.div_add_mod' m g.inputColumns).symm
  have hpixel : (m : ℤ) + rowAt g e * g.inputColumns + columnAt g e =
      (q * g.inputColumns + p : ℕ) := by
    push_cast
    rw [← hq, ← hp, hm]
    ring
  unfold matrixPixel
  rw [hpixel, Int.toNat_natCast]

/-- The pixels of the matrix around pixel `m` are not behind the one that comes with it, and
less than a round of the memory in front of it. -/
theorem matrixPixel_between (hg : g.Frames) (he : e < g.steps) (m : ℕ)
    (hin : covered g m e = true) :
    matrixPixel g m e ≤ m + g.lag ∧
      m + g.lag < matrixPixel g m e + g.ramRows * g.inputColumns ∧
      (matrixPixel g m e = m + g.lag →
        (g.filterRows * g.filterColumns - 1) * g.valueCycles ≤ e) := by
  obtain ⟨q, p, hq, hp, hlt, hpixel⟩ := matrixPixel_eq m hin
  obtain ⟨h1, h2, h3, h4⟩ := place_between hg.toCounts he
  have hfirstRow := firstRow_add hg.toCounts
  have hfirstColumn := firstColumn_add hg.toCounts
  have hfilterRows := hg.filterRows
  have hfilterColumns := hg.filterColumns
  have hwidth := hg.filterWidth
  have hrows : g.filterRows ≤ g.ramRows := by
    unfold Generics.ramRows
    split_ifs <;> omega
  have hdivmod := Nat.div_add_mod' m g.inputColumns
  have hcolumn : (p : ℤ) = (m % g.inputColumns : ℕ) + columnAt g e := hp
  -- the rows in front of the last one of the matrix
  obtain ⟨n, hn⟩ : ∃ n, m / g.inputColumns + g.lastRow = q + n :=
    Nat.exists_eq_add_of_le (by omega)
  have hlag : m + g.lag =
      (q + n) * g.inputColumns + (m % g.inputColumns + g.lastColumn) := by
    unfold Generics.lag
    rw [← hn, Nat.add_mul]
    omega
  rw [hlag, hpixel, Nat.add_mul]
  have hround : (n + 1) * g.inputColumns ≤ g.ramRows * g.inputColumns :=
    Nat.mul_le_mul_right _ (by omega)
  rw [Nat.succ_mul] at hround
  refine ⟨by omega, by omega, fun heq => ?_⟩
  have hzero : n = 0 := by
    by_contra hne
    have hmul := Nat.mul_le_mul_right g.inputColumns (Nat.one_le_iff_ne_zero.mpr hne)
    omega
  rw [hzero, Nat.zero_mul] at heq
  exact last_place hg.toCounts (by omega) (by omega)

theorem addr_eq (m : ℕ) (hin : covered g m e = true) :
    (((slot g inp (fun k => time (o + k)) m + rowAt g e) % g.ramRows * g.inputColumns +
      (g.format.column m + columnAt g e) % g.inputColumns) * g.valueCycles +
        (e % g.valueCycles : ℕ) : ℤ).toNat =
      cell g inp (fun k => time (o + k)) (matrixPixel g m e) (e % g.valueCycles) := by
  obtain ⟨q, p, hq, hp, hlt, hpixel⟩ := matrixPixel_eq m hin
  obtain ⟨hdiv, hmod⟩ := Numbers.div_mod_eq' (a := q) hlt
  have hslot : ((slot g inp (fun k => time (o + k)) m + rowAt g e) % g.ramRows : ℤ) =
      (slot g inp (fun k => time (o + k)) (matrixPixel g m e) : ℕ) := by
    unfold slot
    rw [hpixel, hdiv]
    push_cast
    rw [hq, Int.emod_add_emod]
    push_cast
    rw [add_assoc]
  have hcolumn : ((p : ℕ) : ℤ) % g.inputColumns = p := Int.emod_eq_of_lt (by omega) (by omega)
  unfold cell
  rw [hslot, ← hp, hcolumn, show g.format.column (matrixPixel g m e) = p by rw [hpixel]; exact hmod]
  norm_cast

section Values

variable (hg : g.Frames) (h : Raster g inp time column o word)

theorem oData_succ (t : ℕ) : (run g inp (t + 2)).oData =
    if g.padding ≠ .valid ∧ (run g inp t).oDataEnReg = false then fun _ => 0
    else if (run g inp t).oStreamReg.dataValid then fun v =>
      if v < g.inputValues / g.valueCycles then
        (run g inp (t + 1)).bufferRam (run g inp (t + 1)).ramAddrOut v
      else (run g inp (t + 1)).oData v
    else (run g inp (t + 1)).oData := by
  have hvalid : (run g inp (t + 1)).oStreamBuf.dataValid = (run g inp t).oStreamReg.dataValid := by
    show (if (run g inp t).oStreamReg.dataValid then corrected g (run g inp t).oStreamReg
      else { (run g inp t).oStreamBuf with dataValid := false }).dataValid = _
    cases hv : (run g inp t).oStreamReg.dataValid with
    | true =>
      rw [if_pos rfl, corrected]
      cases g.padding <;> rfl
    | false => rw [if_neg Bool.false_ne_true]
  rw [← hvalid]
  rfl

include hg h in
theorem read_run (m : ℕ) (hd : time (o + (m + g.lag)) + d < time (o + (m + g.lag) + 1))
    (hlt : d < g.elements) :
    (run g inp (time (o + (m + g.lag)) + d + 2)).oDataEnReg =
        covered g m (d / g.calcCycles) ∧
      (run g inp (time (o + (m + g.lag)) + d + 3)).ramAddrOut =
        (((slot g inp (fun k => time (o + k)) m + rowAt g (d / g.calcCycles)) % g.ramRows *
          g.inputColumns + (g.format.column m + columnAt g (d / g.calcCycles)) %
            g.inputColumns) * g.valueCycles +
              (d / g.calcCycles % g.valueCycles : ℕ) : ℤ).toNat := by
  obtain ⟨hcolumn, hrow, hram⟩ := centers_lag hg h m
  have hcounters := (counted_run hg.toCounts h.toMoves (o + (m + g.lag)) hd).now hlt
  generalize hk : o + (m + g.lag) = k at *
  have hcolumn' := outColumnCenter_eq hg.toCounts h.toMoves (k := k) (t := time k + d + 1)
    (by omega) (by omega)
  obtain ⟨hrow', hram'⟩ := centers_eq hg.toCounts h.toMoves (k := k) (t := time k + d + 1)
    (by omega) (by omega)
  rw [hcolumn] at hcolumn'
  rw [hrow] at hrow'
  rw [hram] at hram'
  have hen : (run g inp (time k + d + 2)).oDataEnReg =
      inside g ((run g inp (time k + d + 1)).outColumnCenter +
          (run g inp (time k + d + 2)).counters.columnCntr)
        ((run g inp (time k + d + 1)).outRowCenter +
          (run g inp (time k + d + 2)).counters.rowCntr) := rfl
  have haddr : (run g inp (time k + d + 3)).ramAddrOut =
      ((((run g inp (time k + d + 1)).ramOutRowCenter +
          (run g inp (time k + d + 2)).counters.rowCntr) % g.ramRows * g.inputColumns +
        ((run g inp (time k + d + 1)).outColumnCenter +
          (run g inp (time k + d + 2)).counters.columnCntr) % g.inputColumns) *
        g.valueCycles + (run g inp (time k + d + 2)).counters.valueCntr).toNat := rfl
  rw [hcolumn', hrow', hcounters] at hen
  rw [hcolumn', hram', hcounters] at haddr
  exact ⟨hen, haddr⟩

include hg h in
/-- The values that are sent for a pixel are those of the matrix around the one `lag` before. -/
theorem oData_run (m : ℕ) (hsent : chosen g (g.format.column m) (g.format.row m) = true)
    (hroom : time (o + (m + g.lag)) + g.elements < time (o + (m + g.lag) + 1))
    (hd : d < g.elements) (hu : u < g.inputValues / g.valueCycles) :
    (run g inp (time (o + (m + g.lag)) + d + 4)).oData u =
      window g word m (d / g.calcCycles) u := by
  obtain ⟨hen, haddr⟩ := read_run hg h m (d := d) (by omega) hd
  have hstream := oStreamReg_run hg.toCounts h.toMoves (o + (m + g.lag)) (d := d) (by omega)
  have hchosen : sent g inp time column (o + (m + g.lag)) = true := by
    obtain ⟨hcolumn, hrow, -⟩ := centers_lag hg h m
    unfold sent
    rw [hcolumn, hrow]
    exact hsent
  have hstep := step_lt hd
  have hstart := Nat.div_mul_le_self d g.calcCycles
  rw [hchosen, decide_eq_true hd] at hstream
  rw [oData_succ, hen, hstream, show (true && true) = true from rfl, if_pos rfl]
  generalize d / g.calcCycles = e at *
  unfold window
  by_cases hin : covered g m e = true
  · obtain ⟨h1, h2, h3⟩ := matrixPixel_between hg hstep m hin
    have hcycle : e % g.valueCycles < g.valueCycles := Nat.mod_lt _ hg.valueCycles
    have hin' : (e % g.valueCycles + 1) * g.parts ≤ g.inputCycles := by
      rw [← parts_mul hg.toStores]
      exact Nat.mul_le_mul_right _ hcycle
    have hmono := h.delivers.lead_mono (show 0 < g.format.cycles from hg.inputCycles)
    -- the pixel that is read has come
    have harrived : time (o + matrixPixel g m e) + (e % g.valueCycles + 1) * g.parts + 1 ≤
        time (o + (m + g.lag)) + d + 3 := by
      rcases Nat.lt_or_ge (matrixPixel g m e) (m + g.lag) with hlt | hge
      · have hpixel : time (o + matrixPixel g m e) + g.inputCycles ≤
            time (o + (matrixPixel g m e + 1)) := h.delivers.room (matrixPixel g m e)
        have hle : time (o + (matrixPixel g m e + 1)) ≤ time (o + (m + g.lag)) :=
          hmono.monotone hlt
        omega
      · have heq : matrixPixel g m e = m + g.lag := by omega
        have hplace := Nat.mul_le_mul_right g.calcCycles (h3 heq)
        have hfill := hg.arrived
        rw [heq]
        omega
    -- and the one that takes its place has not
    have hlater : time (o + (m + g.lag + 1)) ≤
        time (o + (matrixPixel g m e + g.ramRows * g.inputColumns)) := hmono.monotone h2
    rw [← Nat.add_assoc] at hlater
    have hread := bufferRam_eq hg.toStores h.delivers hcycle (partValues_mul hg.toStores ▸ hu)
      harrived (by omega)
    rw [if_neg (fun hpad => absurd hin (by rw [hpad.2]; exact Bool.false_ne_true)), if_pos hu,
      if_pos hin, haddr, addr_eq m hin]
    exact hread
  · rw [if_neg hin]
    by_cases hpad : g.padding = .valid
    · exact absurd (covered_of_chosen hg.toCounts hstep hpad hsent) hin
    · rw [if_pos ⟨hpad, Bool.not_eq_true _ ▸ hin⟩]

end Values

end AlteraWorkshops.Cnn.RowBuffer
