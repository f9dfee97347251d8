import AlteraWorkshops.Cnn.Expansion
import AlteraWorkshops.Cnn.Layer

/-! `CNN_Convolution` as a whole, with the row expander in front of its row buffer, from
power-up on. Before the first pixel the expander shows the first two columns, and the
convolution sends what it makes of the empty memory. -/

namespace AlteraWorkshops.Cnn.RowExpander

variable {g : Format} {oc : ℕ} {inp : ℕ → Sample} {lead arrive : ℕ → ℕ}
  {word : ℕ → ℕ → CnnValues} {k t : ℕ}

/-! ### Before the first pixel -/

/-- The expander has gone on to column 1 and waits. -/
structure Waiting (s : State) : Prop where
  reset : s.resetCol = false
  delay : s.delayCnt ≠ 0
  column : s.columnCnt = 1

section Start

variable (hd : Delivers g inp lead arrive word) (hs : Spreads g oc inp lead arrive)
  (hq : Quiet inp lead)

include hd hq in
theorem quiet_arrive (ht : t < arrive 0) :
    (inp t).stream.dataValid = false ∧ (inp t).stream.column = 0 := by
  rcases Nat.lt_or_ge t (lead 0) with hlt | hge
  · exact hq t hlt
  · have hroom := hd.room 0
    rw [hd.stream 0 t hge (by omega)]
    exact ⟨decide_eq_false (by omega), Nat.zero_mod _⟩

include hd hs hq in
theorem waiting_run (h1 : 1 ≤ t) (h2 : t ≤ arrive 0) : Waiting (run (generics g oc) inp t) := by
  have hspace := hs.space
  have hwidth := hs.width
  induction t, h1 using Nat.le_induction with
  | base =>
    obtain ⟨hvalid, -⟩ := quiet_arrive hd hq (t := 0) (by omega)
    have hstart : startsRow .initial (inp 0) = false := by
      unfold startsRow
      rw [hvalid, Bool.false_and, Bool.false_and]
    have hnext : nextOutput (generics g oc) .initial (inp 0) = ⟨1, 0, 0, true⟩ := by
      rw [nextOutput, if_neg (by exact Bool.false_ne_true), if_pos]
      · rfl
      · exact ⟨rfl, by show 0 < g.width - 1; omega⟩
    have hdelay : nextDelay (generics g oc) .initial (inp 0) = 1 := by
      rw [nextDelay, hstart, if_neg Bool.false_ne_true, if_pos]
      · rfl
      · show 0 < oc - 1
        omega
    exact ⟨hstart, hdelay.trans_ne one_ne_zero, congrArg CnnStream.column hnext⟩
  | succ t ht ih =>
    obtain ⟨hreset, hdelay, hcolumn⟩ := ih (by omega)
    obtain ⟨hvalid, hzero⟩ := quiet_arrive hd hq (t := t) (by omega)
    have hstart : startsRow (run (generics g oc) inp t) (inp t) = false := by
      unfold startsRow
      rw [hvalid, Bool.false_and, Bool.false_and]
    refine ⟨hstart, ?_, ?_⟩
    · rw [delayCnt_succ, nextDelay, hstart, if_neg Bool.false_ne_true, hcolumn, hzero]
      split_ifs <;> omega
    · show (nextOutput _ (run (generics g oc) inp t) _).column = 1
      rw [nextOutput, hreset, if_neg Bool.false_ne_true, if_neg fun h => hdelay h.1]
      split_ifs <;> exact hcolumn

include hd hs hq in
theorem output_start (h0 : 0 < arrive 0) (h1 : 2 ≤ t) (h2 : t < arrive 0 + 3) :
    (output (generics g oc) inp t).stream.column = 1 := by
  obtain ⟨u, rfl⟩ : ∃ u, t = u + 1 := ⟨t - 1, by omega⟩
  show (run (generics g oc) inp u).oStreamReg.column = 1
  rcases Nat.lt_or_ge (arrive 0) u with hlt | hge
  · -- the row starts one edge later
    obtain rfl : u = arrive 0 + 1 := by omega
    obtain ⟨hreset, hdelay, hcolumn⟩ := waiting_run hd hs hq (t := arrive 0) h0 le_rfl
    show (nextOutput _ (run (generics g oc) inp (arrive 0)) _).column = 1
    rw [nextOutput, hreset, if_neg Bool.false_ne_true, if_neg fun h => hdelay h.1]
    split_ifs <;> exact hcolumn
  · rw [← (counters_eq inp (generics g oc) u).1]
    exact (waiting_run hd hs hq (by omega) hge).column

end Start

end AlteraWorkshops.Cnn.RowExpander

namespace AlteraWorkshops.Cnn.RowBuffer

variable {g : Generics} {inp : ℕ → Sample} {time : ℕ → ℕ} {word : ℕ → ℕ → CnnValues} {k : ℕ}

/-- The edges in which the column changes behind an expander that sends pixel `k` from edge
`time k` on, and the columns. -/
def startTime (time : ℕ → ℕ) : ℕ → ℕ
  | 0 => 0
  | 1 => 2
  | k + 2 => time k

def startColumn (g : Generics) : ℕ → ℕ
  | 0 => 0
  | 1 => 1
  | k + 2 => g.format.column k

/-- The columns before the first pixel. -/
structure Powered (inp : ℕ → Sample) (time : ℕ → ℕ) : Prop where
  late : 2 < time 0
  zero : ∀ t < 2, (inp t).stream.column = 0
  one : ∀ t, 2 ≤ t → t < time 0 → (inp t).stream.column = 1

/-- Different columns are the ends of matrices with different middles. -/
theorem columnCenter_inj {a b : ℕ} (ha : a < g.inputColumns) (hb : b < g.inputColumns)
    (h : columnCenter g a = columnCenter g b) : a = b := by
  have hw : (0 : ℤ) < g.inputColumns := by omega
  have ha' := Int.emod_nonneg ((a : ℤ) - g.lastColumn) hw.ne'
  have hb' := Int.emod_nonneg ((b : ℤ) - g.lastColumn) hw.ne'
  unfold columnCenter subMod at h
  have hmod : ((a : ℤ) - g.lastColumn) % g.inputColumns =
      ((b : ℤ) - g.lastColumn) % g.inputColumns := by omega
  rw [Int.emod_sub_cancel_right, Int.emod_eq_of_lt (by omega) (by omega),
    Int.emod_eq_of_lt (by omega) (by omega)] at hmod
  omega

theorem columnCenter_lt (hw : 0 < g.inputColumns) (c : ℕ) : columnCenter g c < g.inputColumns := by
  have hmod := Int.emod_lt_of_pos (c - (g.lastColumn : ℤ))
    (show (0 : ℤ) < g.inputColumns by omega)
  unfold columnCenter subMod
  omega

theorem columnCenter_of_lt {a : ℕ} (ha : a < g.lastColumn)
    (hw : g.lastColumn ≤ g.inputColumns) :
    columnCenter g a = a + g.inputColumns - g.lastColumn := by
  have hmod : ((a : ℤ) - g.lastColumn) % g.inputColumns = a + g.inputColumns - g.lastColumn := by
    rw [← Int.add_emod_right, Int.emod_eq_of_lt (by omega) (by omega)]
    omega
  unfold columnCenter subMod
  rw [hmod]
  omega

section Raster

variable (hg : g.Frames) (hd : Delivers g.format inp time time word) (hp : Powered inp time)

include hg hd hp in
theorem raster_start (hmiddle : 0 < g.lastColumn) :
    Raster g inp (startTime time) (startColumn g) 2 word := by
  have hlast := lastColumn_lt hg
  have hwidth : 0 < g.format.width := by
    show 0 < g.inputColumns
    omega
  have htwo := hg.width
  have hlt := hd.lead_lt (show 0 < g.format.cycles from hg.inputCycles)
  have hmoves (k : ℕ) : startColumn g (k + 1) ≠ startColumn g k ∧
      startColumn g k < g.inputColumns := by
    rcases k with _ | _ | k
    · exact ⟨one_ne_zero, by show 0 < _; omega⟩
    · refine ⟨?_, by show 1 < _; omega⟩
      show g.format.column 0 ≠ 1
      rw [Format.column, Nat.zero_mod]
      exact zero_ne_one
    · refine ⟨?_, Format.column_lt hwidth k⟩
      show g.format.column (k + 1) ≠ g.format.column k
      by_cases hcol : g.format.column (k + 1) = 0
      · have h := (Format.succ_of_column_eq hcol).1
        have hw : g.format.width = g.inputColumns := rfl
        omega
      · have h := (Format.succ_of_column_ne hcol).1
        omega
  refine { first := rfl, lt := ?_, shows := ?_, start := ?_, moves := ?_, delivers := ?_ }
  · intro k
    rcases k with _ | _ | k
    · exact Nat.two_pos
    · exact hp.late
    · exact hlt k
  · intro k t h1 h2
    rcases k with _ | _ | k
    · exact hp.zero t h2
    · exact hp.one t h1 h2
    · rw [hd.stream k t h1 h2]
      rfl
  · show columnCenter g 0 ≠ 0
    rw [columnCenter_of_lt hmiddle hlast.le]
    omega
  · intro k heq
    exact (hmoves k).1 (columnCenter_inj (hmoves (k + 1)).2 (hmoves k).2 heq)
  · have htime : (fun k => startTime time (2 + k)) = time := by
      funext k
      rw [Nat.add_comm]
      rfl
    rw [htime]
    exact hd

/-! ### The matrices before the first pixel -/

/-- Every matrix is sent. -/
def Dense (g : Generics) : Prop := g.padding = .same ∧ g.strides = 1

theorem chosen_of_dense (hdense : Dense g) (c r : ℕ) : chosen g c r = true := by
  obtain ⟨hpad, hstrides⟩ := hdense
  have hoffset : g.stridesOffset = 0 := if_neg (by omega)
  simp [chosen, hpad, hoffset, hstrides, Nat.mod_one]

theorem stridesOffset_of_same (hg : g.Counts) (hn : ¬Dense g) (hpad : g.padding = .same) :
    2 ≤ g.strides ∧ g.stridesOffset = 1 := by
  have hpos := hg.strides
  have htwo : 2 ≤ g.strides := by
    by_contra hlt
    exact hn ⟨hpad, by omega⟩
  exact ⟨htwo, if_pos ⟨hpad, by omega⟩⟩

/-- The last columns of the first row are not the middle of a matrix that is sent. -/
theorem not_chosen_row (hg : g.Counts) (hn : ¬Dense g) {c : ℕ}
    (hc : g.inputColumns ≤ c + g.lastColumn) : chosen g c 0 = false := by
  apply Bool.eq_false_of_not_eq_true
  intro h
  cases hpad : g.padding with
  | valid =>
    simp only [chosen, hpad, Bool.and_eq_true, decide_eq_true_eq] at h
    omega
  | same =>
    obtain ⟨htwo, hoffset⟩ := stridesOffset_of_same hg hn hpad
    simp only [chosen, hpad, hoffset, Bool.and_eq_true, beq_iff_eq, Nat.zero_mod] at h
    omega

theorem not_chosen_column (hg : g.Counts) (hn : ¬Dense g) (hmiddle : 0 < g.lastColumn) (r : ℕ) :
    chosen g 0 r = false := by
  apply Bool.eq_false_of_not_eq_true
  intro h
  cases hpad : g.padding with
  | valid =>
    simp only [chosen, hpad, Bool.and_eq_true, decide_eq_true_eq] at h
    unfold Generics.lastColumn at hmiddle
    omega
  | same =>
    obtain ⟨htwo, hoffset⟩ := stridesOffset_of_same hg hn hpad
    simp only [chosen, hpad, hoffset, Bool.and_eq_true, beq_iff_eq, Nat.zero_mod] at h
    omega

include hg hd hp in
/-- If not every matrix is sent, none is before the first pixel. -/
theorem sent_start (hmiddle : 0 < g.lastColumn) (hn : ¬Dense g) :
    sent g inp (startTime time) (startColumn g) 0 = false ∧
      sent g inp (startTime time) (startColumn g) 1 = false := by
  have hlast := lastColumn_lt hg
  have hraster := raster_start hg hd hp hmiddle
  have hzero : columnCenter g 0 = g.inputColumns - g.lastColumn := by
    rw [columnCenter_of_lt hmiddle hlast.le, Nat.zero_add]
  have hrow : (run g inp 1).outRowCenter = 0 := (centers_succ hg.toCounts (Nat.zero_le _)).1
  constructor
  · unfold sent rowCenter
    show chosen g (columnCenter g 0) (run g inp 1).outRowCenter = false
    rw [hrow, hzero]
    exact not_chosen_row hg.toCounts hn (by omega)
  · show chosen g (columnCenter g 1) _ = false
    rcases Nat.lt_or_ge 1 g.lastColumn with hlt | hge
    · -- the center is still in the first row
      have hone : columnCenter g 1 = 1 + g.inputColumns - g.lastColumn :=
        columnCenter_of_lt hlt hlast.le
      have hrow' : rowCenter g inp (startTime time) 1 = 0 := by
        have hcolumn := outColumnCenter_eq hg.toCounts hraster.toMoves (k := 0) (t := 2)
          Nat.two_pos le_rfl
        have hbefore := (centers_eq hg.toCounts hraster.toMoves (k := 0) (t := 2) Nat.two_pos
          le_rfl).1
        have hle : (run g inp 2).outColumnCenter ≤ columnCenter g (inp 2).stream.column := by
          rw [hcolumn, hp.one 2 le_rfl hp.late, hone]
          show columnCenter g 0 ≤ _
          omega
        have hnow := (centers_succ hg.toCounts hle).1
        exact (hnow.trans hbefore).trans hrow
      rw [hrow', hone]
      exact not_chosen_row hg.toCounts hn (by omega)
    · have hone : columnCenter g 1 = 0 := by
        have hsub := subMod_add 0 g.lastColumn g.inputColumns
        obtain hl : g.lastColumn = 1 := by omega
        rw [hl, Nat.zero_add, Nat.mod_eq_of_lt (by omega), Nat.zero_mod] at hsub
        unfold columnCenter
        rw [hl]
        exact hsub
      rw [hone]
      exact not_chosen_column hg.toCounts hn hmiddle _

/-- Some pixel is the middle of a matrix that is sent. -/
theorem exists_chosen (hg : g.Frames) (hheight : g.filterRows ≤ g.inputRows) :
    ∃ c < g.inputColumns, ∃ r < g.inputRows, chosen g c r = true := by
  have hcolumns := hg.filterColumns
  have hrows := hg.filterRows
  have hwidth := hg.filterWidth
  have htwo := hg.width
  have htwo' := hg.height
  cases hpad : g.padding with
  | valid =>
    have hoffset : g.stridesOffset = 0 := if_neg fun h => by
      rw [hpad] at h
      cases h.1
    refine ⟨g.filterColumns / 2, by omega, g.filterRows / 2, by omega, ?_⟩
    have hlastColumn : ((g.filterColumns / 2 : ℕ) : ℤ) < g.inputColumns - g.lastColumn := by
      unfold Generics.lastColumn
      omega
    have hlastRow : ((g.filterRows / 2 : ℕ) : ℤ) < g.inputRows - g.lastRow := by
      unfold Generics.lastRow
      omega
    simp only [chosen, hpad, hoffset, le_refl, Nat.sub_self, Nat.zero_mod, hlastColumn, hlastRow,
      decide_true, beq_self_eq_true, Bool.and_self]
  | same =>
    by_cases hdense : Dense g
    · exact ⟨0, by omega, 0, by omega, chosen_of_dense hdense 0 0⟩
    · obtain ⟨hstrides, hoffset⟩ := stridesOffset_of_same hg.toCounts hdense hpad
      refine ⟨1, by omega, 1, by omega, ?_⟩
      rw [chosen, hpad, hoffset, Nat.mod_eq_of_lt (show 1 < g.strides by omega)]
      rfl

include hg hd hp in
theorem spaced_start (hmiddle : 0 < g.lastColumn) (hheight : g.filterRows ≤ g.inputRows)
    (hcut : 2 ≤ g.elements) (hlate : 2 + g.elements < time 0)
    (hroom : ∀ k, time k + g.elements < time (k + 1)) :
    Spaced g inp (startTime time) (startColumn g) := by
  have hraster := raster_start hg hd hp hmiddle
  refine ⟨hcut, fun k hk => ?_, fun hsent => ?_, ?_⟩
  · rcases k with _ | _ | k
    · omega
    · exact hlate
    · exact hroom k
  · have hdense : Dense g := by
      by_contra hn
      rw [(sent_start hg hd hp hmiddle hn).1] at hsent
      cases hsent
    exact chosen_of_dense hdense _ _
  · obtain ⟨c, hc, r, hr, hchosen⟩ := exists_chosen hg hheight
    refine Set.infinite_of_injective_forall_mem
      (f := fun n => 2 + (((n * g.inputRows + r) * g.inputColumns + c) + g.lag)) ?_ ?_
    · intro a b hab
      have hwidth : 0 < g.inputColumns := by omega
      have hheight' : 0 < g.inputRows := by omega
      have heq :
          (a * g.inputRows + r) * g.inputColumns = (b * g.inputRows + r) * g.inputColumns := by
        have hab' : 2 + (((a * g.inputRows + r) * g.inputColumns + c) + g.lag) =
          2 + (((b * g.inputRows + r) * g.inputColumns + c) + g.lag) := hab
        omega
      have hrows := Nat.eq_of_mul_eq_mul_right hwidth heq
      exact Nat.eq_of_mul_eq_mul_right hheight' (by omega)
    · intro n
      obtain ⟨hcolumn, hrow, -⟩ :=
        centers_lag hg hraster ((n * g.inputRows + r) * g.inputColumns + c)
      obtain ⟨hdiv, hmod⟩ := Numbers.div_mod_eq' (a := n * g.inputRows + r) hc
      refine ⟨by omega, ?_⟩
      unfold sent
      rw [hcolumn, hrow, Format.column, Format.row, show g.format.width = g.inputColumns from rfl,
        show g.format.height = g.inputRows from rfl, hdiv, hmod, (Numbers.div_mod_eq' hr).2]
      exact hchosen

end Raster

/-! ### Neighbours -/

theorem columnCenter_succ (hw : 2 ≤ g.inputColumns) (k : ℕ) :
    columnCenter g (g.format.column (k + 1)) =
      (columnCenter g (g.format.column k) + 1) % g.inputColumns := by
  have hpos : (0 : ℤ) < g.inputColumns := by omega
  have hmod (k : ℕ) : (columnCenter g (g.format.column k) : ℤ) =
      ((k : ℤ) - g.lastColumn) % g.inputColumns := by
    have hnonneg := Int.emod_nonneg ((k % g.inputColumns : ℕ) - (g.lastColumn : ℤ)) hpos.ne'
    unfold columnCenter subMod
    rw [Format.column, show g.format.width = g.inputColumns from rfl, Int.toNat_of_nonneg hnonneg,
      Int.natCast_mod, Int.emod_sub_emod]
  apply Int.natCast_inj.mp
  rw [hmod]
  push_cast
  rw [hmod, Int.emod_add_emod]
  congr 1
  ring

/-- With wider strides no two neighbours are the middle of a matrix that is sent. -/
theorem not_chosen_succ (hg : g.Counts) (hmiddle : 0 < g.lastColumn) (hstrides : g.strides ≠ 1)
    {c r r' : ℕ} (hc : c < g.inputColumns) (h : chosen g c r = true) :
    chosen g ((c + 1) % g.inputColumns) r' = false := by
  have hpos := hg.strides
  have hn : ¬Dense g := fun hdense => hstrides hdense.2
  rcases Nat.lt_or_ge (c + 1) g.inputColumns with hlt | hge
  · rw [Nat.mod_eq_of_lt hlt]
    apply Bool.eq_false_of_not_eq_true
    intro h'
    cases hpad : g.padding with
    | valid =>
      have hoffset : g.stridesOffset = 0 := if_neg fun hsame => by
        rw [hpad] at hsame
        cases hsame.1
      simp only [chosen, hpad, hoffset, Bool.and_eq_true, decide_eq_true_eq, beq_iff_eq] at h h'
      obtain ⟨⟨⟨⟨⟨hle, -⟩, -⟩, -⟩, hmod⟩, -⟩ := h
      obtain ⟨⟨-, hmod'⟩, -⟩ := h'
      have hnext := (Numbers.div_mod_succ_of_lt (m := c - g.filterColumns / 2) (q := g.strides)
        (by omega)).2
      rw [show c - g.filterColumns / 2 + 1 = c + 1 - g.filterColumns / 2 by omega] at hnext
      omega
    | same =>
      obtain ⟨htwo, hoffset⟩ := stridesOffset_of_same hg hn hpad
      simp only [chosen, hpad, hoffset, Bool.and_eq_true, beq_iff_eq] at h h'
      rcases Numbers.mod_succ_lt_or_eq hpos c with hless | hwrap
      · have hnext := (Numbers.div_mod_succ_of_lt hless).2
        omega
      · have hnext := (Numbers.div_mod_succ_of_eq hpos hwrap).2
        omega
  · have heq : c + 1 = g.inputColumns := by omega
    rw [heq, Nat.mod_self]
    exact not_chosen_column hg hn hmiddle r'

section Distance

variable (hg : g.Frames) (hd : Delivers g.format inp time time word) (hp : Powered inp time)
  (hs : Spaced g inp (startTime time) (startColumn g))

include hg hd hp in
/-- If the first position is sent, every one is. -/
theorem dense_of_sent_start (hmiddle : 0 < g.lastColumn)
    (h : sent g inp (startTime time) (startColumn g) 0 = true ∨
      sent g inp (startTime time) (startColumn g) 1 = true) : Dense g := by
  by_contra hn
  obtain ⟨hzero, hone⟩ := sent_start hg hd hp hmiddle hn
  rw [hzero, hone] at h
  rcases h with h | h <;> cases h

include hg hd hp hs in
/-- The matrix after those before the first pixel is that of the first pixel, or begins
later than two matrices. -/
theorem beginsAt_merged_add_ne (hmiddle : 0 < g.lastColumn) {x p : ℕ}
    (hx : x ≤ 2 * g.elements + 1) (hfirst : g.strides = 1 → time 0 ≠ x)
    (hm : Merged g inp (startTime time) (startColumn g) p) :
    beginsAt g inp (startTime time) (startColumn g) p + x ≠
      beginsAt g inp (startTime time) (startColumn g) (p + 1) := by
  intro heq
  have hmono := (strictMono_nat_of_lt_succ (raster_start hg hd hp hmiddle).lt).monotone
  have hlt : positionOf g inp (startTime time) (startColumn g) p <
      positionOf g inp (startTime time) (startColumn g) (p + 1) :=
    positionOf_strictMono hs (Nat.lt_succ_self p)
  have hnot : ¬Merged g inp (startTime time) (startColumn g) (p + 1) :=
    fun hm' => absurd hm'.1 p.succ_ne_zero
  have hone := positionOf_merged hs hm
  have htwo : startTime time 2 = time 0 := rfl
  have hfirstRoom : 2 + g.elements < startTime time 2 := hs.room 1 Nat.zero_lt_one
  have hsecondRoom := hs.room 2 Nat.two_pos
  rw [beginsAt, beginsAt, if_neg hnot, if_pos hm] at heq
  rcases Nat.lt_or_ge 2 (positionOf g inp (startTime time) (startColumn g) (p + 1)) with h3 | h2
  · have hle : startTime time (2 + 1) ≤ _ := hmono h3
    omega
  · have hposition : positionOf g inp (startTime time) (startColumn g) (p + 1) = 2 := by omega
    rw [hposition] at heq
    have hne := hfirst (dense_of_sent_start hg hd hp hmiddle (.inl hm.2)).2
    omega

include hg hd hp hs in
/-- The first two positions are sent together or not at all. -/
theorem two_le_positionOf (hmiddle : 0 < g.lastColumn) {p : ℕ}
    (hm : ¬Merged g inp (startTime time) (startColumn g) p) :
    2 ≤ positionOf g inp (startTime time) (startColumn g) p := by
  by_contra hle
  obtain ⟨hpos, hsent⟩ := whole_positionOf hs p
  have hone : positionOf g inp (startTime time) (startColumn g) p = 1 := by omega
  rw [hone] at hsent
  have hzero : sent g inp (startTime time) (startColumn g) 0 = true :=
    chosen_of_dense (dense_of_sent_start hg hd hp hmiddle (.inr hsent)) _ _
  have hfirst := positionOf_merged hs ⟨rfl, hzero⟩
  have hp0 : p = 0 := (positionOf_strictMono hs).injective (hone.trans hfirst.symm)
  exact hm ⟨hp0, hzero⟩

include hg in
/-- With wider strides the matrix of the next pixel is not sent. -/
theorem not_sent_succ (hmiddle : 0 < g.lastColumn) (hstrides : g.strides ≠ 1)
    (hsent : sent g inp (startTime time) (startColumn g) (k + 2) = true) :
    sent g inp (startTime time) (startColumn g) (k + 1 + 2) = false := by
  have hw := hg.width
  show chosen g (columnCenter g (g.format.column (k + 1))) _ = false
  rw [columnCenter_succ hw k]
  exact not_chosen_succ hg.toCounts hmiddle hstrides (columnCenter_lt (by omega) _) hsent

include hg hd hp hs in
/-- No matrix begins `x` edges after the one before, for an `x` less than two matrices that
is not the distance of two pixels, or with wider strides. -/
theorem beginsAt_add_ne (hmiddle : 0 < g.lastColumn) {x : ℕ} (hx : x ≤ 2 * g.elements + 1)
    (hfirst : g.strides = 1 → time 0 ≠ x)
    (hnext : g.strides = 1 → ∀ k, time (k + 1) ≠ time k + x) (p : ℕ) :
    beginsAt g inp (startTime time) (startColumn g) p + x ≠
      beginsAt g inp (startTime time) (startColumn g) (p + 1) := by
  by_cases hmerged : Merged g inp (startTime time) (startColumn g) p
  · exact beginsAt_merged_add_ne hg hd hp hs hmiddle hx hfirst hmerged
  intro heq
  have hmono := (strictMono_nat_of_lt_succ (raster_start hg hd hp hmiddle).lt).monotone
  have hlt : positionOf g inp (startTime time) (startColumn g) p <
      positionOf g inp (startTime time) (startColumn g) (p + 1) :=
    positionOf_strictMono hs (Nat.lt_succ_self p)
  have hnot : ¬Merged g inp (startTime time) (startColumn g) (p + 1) :=
    fun hm => absurd hm.1 p.succ_ne_zero
  rw [beginsAt, beginsAt, if_neg hnot, if_neg hmerged] at heq
  obtain ⟨-, hsent⟩ := whole_positionOf hs p
  obtain ⟨-, hsent'⟩ := whole_positionOf hs (p + 1)
  obtain ⟨k, hk⟩ := Nat.exists_eq_add_of_le' (two_le_positionOf hg hd hp hs hmiddle hmerged)
  have hroom1 := hs.room (k + 2) (by omega)
  have hroom2 := hs.room (k + 2 + 1) (by omega)
  rw [hk] at heq hsent hlt
  rcases Nat.lt_or_ge (k + 2 + 1) (positionOf g inp (startTime time) (startColumn g) (p + 1))
    with hfar | hnear
  · have hle : startTime time (k + 2 + 1 + 1) ≤ _ := hmono hfar
    omega
  · have hposition : positionOf g inp (startTime time) (startColumn g) (p + 1) = k + 1 + 2 := by
      omega
    rw [hposition] at heq hsent'
    have htime : time k + x = time (k + 1) := by
      have h1 : startTime time (k + 2) = time k := rfl
      have h2 : startTime time (k + 1 + 2) = time (k + 1) := rfl
      omega
    by_cases hstrides : g.strides = 1
    · exact hnext hstrides k htime.symm
    · rw [not_sent_succ hg hmiddle hstrides hsent] at hsent'
      cases hsent'

end Distance

end AlteraWorkshops.Cnn.RowBuffer

namespace AlteraWorkshops.Cnn.Convolution

open RowBuffer (startTime startColumn Dense positionOf beginsAt Merged sent chosen)
open RowExpander (release released Spreads)

variable {g : Generics} {inp : ℕ → Sample} {lead arrive : ℕ → ℕ} {word : ℕ → ℕ → CnnValues}
  {k m t : ℕ}

/-- The images that the layer gets. -/
def Generics.format (g : Generics) : Format := g.rowBuffer.format

/-- `max_val(Matrix_Value_Cycles*Calc_Cycles+1, Expand_Cycles)` -/
def Generics.outputCycles (g : Generics) : ℕ :=
  max (g.matrixValueCycles * g.calcCycles + 1) g.expandCycles

def Generics.expander (g : Generics) : RowExpander.Generics where
  inputColumns := g.inputColumns
  inputCycles := g.inputCycles
  outputCycles := g.outputCycles

/-- The component, with `Expand`. -/
def component (g : Generics) (inp : ℕ → Sample) : ℕ → State g :=
  buffered g (RowExpander.output g.expander inp)

/-- A layer with matrices in the image. -/
structure Generics.Sized (g : Generics) : Prop extends g.rowBuffer.Frames where
  middle : 3 ≤ g.filterColumns
  filterHeight : g.filterRows ≤ g.inputRows

/-- The edge with which pixel `k` goes to the row buffer. -/
def sendTime (g : Generics) (lead arrive : ℕ → ℕ) (k : ℕ) : ℕ :=
  release g.format g.outputCycles lead arrive k + 3

/-- Images that the layer has the time for. With strides of one the pixels must not come in
a certain distance. -/
structure Fed (g : Generics) (inp : ℕ → Sample) (lead arrive : ℕ → ℕ)
    (word : ℕ → ℕ → CnnValues) : Prop where
  delivers : Delivers g.format inp lead arrive word
  spreads : Spreads g.format g.outputCycles inp lead arrive
  quiet : Quiet inp lead
  late : g.elements ≤ arrive 0
  rows : ∀ k, g.format.column (k + 1) = 0 →
    release g.format g.outputCycles lead arrive k + g.elements < arrive (k + 1)
  first : g.strides = 1 → sendTime g lead arrive 0 ≠ g.hold
  hold : g.strides = 1 → ∀ k, sendTime g lead arrive (k + 1) ≠ sendTime g lead arrive k + g.hold

section Component

variable (hg : g.Valid) (hs : g.Sized) (h : Fed g inp lead arrive word)

include hg in
theorem elements_gt_two : 2 < g.elements := by
  have hcalc := hg.calcCycles
  have hcycles := hg.filterCycles
  have hroom := hg.outRoom
  have hmul := Nat.mul_le_mul_left g.filterCycles hg.filterDelay
  omega

include hg in
/-- The results of a matrix are read before the one after the next begins. -/
theorem hold_le : g.hold ≤ 2 * g.elements + 1 := by
  have hroom := hg.outRoom
  have hdelay := hg.filterDelay
  have hcalc := hg.calcCycles
  have hcycles := hg.filterCycles
  have hlast := Numbers.pred_mul_add (show 0 < g.filterCycles by omega) g.filterDelay
  unfold Generics.hold
  omega

include h in
theorem sendTime_room (k : ℕ) : sendTime g lead arrive k + g.elements <
    sendTime g lead arrive (k + 1) := by
  unfold sendTime
  by_cases hcol : g.format.column (k + 1) = 0
  · have hrows := h.rows k hcol
    rw [RowExpander.release_of_zero hcol]
    omega
  · have hle : g.elements + 1 ≤ g.outputCycles := by
      have helements : g.matrixValueCycles * g.calcCycles = g.elements := Nat.mul_comm _ _
      rw [← helements]
      exact le_max_left _ _
    rw [RowExpander.release_succ_of_ne hcol]
    omega

include hg h in
theorem powered : RowBuffer.Powered (RowExpander.output g.expander inp)
    (sendTime g lead arrive) := by
  have helements := elements_gt_two hg
  have hlate := h.late
  have hzero : sendTime g lead arrive 0 = arrive 0 + 3 := rfl
  refine ⟨by omega, fun t ht => ?_, fun t h1 h2 => ?_⟩
  · match t, ht with
    | 0, _ => rfl
    | 1, _ => rfl
  · exact RowExpander.output_start h.delivers h.spreads h.quiet (by omega) h1 (by omega)

include h in
theorem sent_delivers : Delivers g.format (RowExpander.output g.expander inp)
    (sendTime g lead arrive) (sendTime g lead arrive)
    (released g.format g.outputCycles lead arrive word) :=
  RowExpander.delivers h.delivers h.spreads

include hs in
theorem lastColumn_pos : 0 < g.rowBuffer.lastColumn := by
  have hmiddle := hs.middle
  show 0 < (g.filterColumns - 1) / 2
  omega

include hg hs h in
theorem spaced : RowBuffer.Spaced g.rowBuffer (RowExpander.output g.expander inp)
    (startTime (sendTime g lead arrive)) (startColumn g.rowBuffer) := by
  have helements := elements_gt_two hg
  have hlate := h.late
  have hzero : sendTime g lead arrive 0 = arrive 0 + 3 := rfl
  refine RowBuffer.spaced_start hs.toFrames (sent_delivers h) (powered hg h) (lastColumn_pos hs)
    hs.filterHeight ?_ ?_ ?_
  · rw [rowBuffer_elements]
    omega
  · rw [rowBuffer_elements]
    omega
  · intro k
    rw [rowBuffer_elements]
    exact sendTime_room h k

include hg hs h in
/-- The positions of the results are not lost: no matrix begins with the last result of the
one before. -/
theorem finish_ne (p : ℕ) :
    finish g (beginsAt g.rowBuffer (RowExpander.output g.expander inp)
        (startTime (sendTime g lead arrive)) (startColumn g.rowBuffer)) p ≠
      beginsAt g.rowBuffer (RowExpander.output g.expander inp)
        (startTime (sendTime g lead arrive)) (startColumn g.rowBuffer) (p + 1) := by
  have hhold := hold_le hg
  rw [finish_eq]
  exact RowBuffer.beginsAt_add_ne hs.toFrames (sent_delivers h) (powered hg h) (spaced hg hs h)
    (lastColumn_pos hs) (by rw [rowBuffer_elements]; exact hhold) h.first h.hold p

theorem startTime_add (time : ℕ → ℕ) (k : ℕ) : startTime time (2 + k) = time k := by
  rw [Nat.add_comm]
  rfl

include hg hs h in
/-- From the result for the first pixel on the output is valid with the results of the
pixels that the strides leave. -/
theorem component_sends (ht : sendTime g lead arrive g.rowBuffer.lag + g.latency 0 ≤ t) :
    (component g inp t).output.dataValid = true ↔
      ∃ m, chosen g.rowBuffer (g.format.column m) (g.format.row m) = true ∧
        ∃ k < g.filterCycles, t = sendTime g lead arrive (m + g.rowBuffer.lag) + g.latency k := by
  have hraster := RowBuffer.raster_start hs.toFrames (sent_delivers h) (powered hg h)
    (lastColumn_pos hs)
  have hsends := image_sends hg hs.toFrames (spaced hg hs h) hraster le_rfl (t := t)
    (by rw [startTime_add]; exact ht)
  simp only [startTime_add] at hsends
  exact hsends

include hg hs h in
/-- The result set of a pixel: its position among those that are left, and its values. -/
theorem component_results (hsh : g.Shifts)
    (hm : chosen g.rowBuffer (g.format.column m) (g.format.row m) = true)
    (hk : k < g.filterCycles) :
    (component g inp (sendTime g lead arrive (m + g.rowBuffer.lag) + g.latency k)).output =
        ⟨(RowBuffer.sentPosition g.rowBuffer (g.format.column m) (g.format.row m)).1,
          (RowBuffer.sentPosition g.rowBuffer (g.format.column m) (g.format.row m)).2, k, true⟩ ∧
      ∀ v < g.outFilters,
        ((component g inp (sendTime g lead arrive (m + g.rowBuffer.lag) + g.latency k)).oData
            v).toInt =
          imageResult g (released g.format g.outputCycles lead arrive word) m k v := by
  have hraster := RowBuffer.raster_start hs.toFrames (sent_delivers h) (powered hg h)
    (lastColumn_pos hs)
  have hresults := image_results hg hs.toFrames (spaced hg hs h) hraster hsh le_rfl
    (finish_ne hg hs h) hm hk
  rw [startTime_add] at hresults
  exact hresults

include hg hs h in
/-- The layer sends for each pixel that its strides leave each result set once, under the
position of the pixel among those, and its values are the rescaled sums of the rounded
products over the matrix around the pixel, with zeros outside of the image. -/
theorem component_convolves (hsh : g.Shifts) :
    (∀ t, sendTime g lead arrive g.rowBuffer.lag + g.latency 0 ≤ t →
      ((component g inp t).output.dataValid = true ↔
        ∃ m, chosen g.rowBuffer (g.format.column m) (g.format.row m) = true ∧
          ∃ k < g.filterCycles, t = sendTime g lead arrive (m + g.rowBuffer.lag) + g.latency k)) ∧
    ∀ m, chosen g.rowBuffer (g.format.column m) (g.format.row m) = true → ∀ k < g.filterCycles,
      (component g inp (sendTime g lead arrive (m + g.rowBuffer.lag) + g.latency k)).output =
          ⟨(RowBuffer.sentPosition g.rowBuffer (g.format.column m) (g.format.row m)).1,
            (RowBuffer.sentPosition g.rowBuffer (g.format.column m) (g.format.row m)).2, k, true⟩ ∧
        ∀ v < g.outFilters,
          ((component g inp (sendTime g lead arrive (m + g.rowBuffer.lag) + g.latency k)).oData
              v).toInt =
            imageResult g (released g.format g.outputCycles lead arrive word) m k v :=
  ⟨fun _ ht => component_sends hg hs h ht, fun _ hm _ hk => component_results hg hs h hsh hm hk⟩

end Component

/-! ### A small layer -/

/-- Two filters of three times three for images of four times four. -/
def tiny : Generics where
  inputColumns := 4
  inputRows := 4
  inputValues := 1
  filterColumns := 3
  filterRows := 3
  filters := 2
  strides := 1
  activation := .relu
  padding := .same
  inputCycles := 1
  valueCycles := 1
  calcCycles := 2
  filterCycles := 2
  filterDelay := 1
  expandCycles := 0
  offsetIn := 0
  offsetOut := 3
  offset := 0
  weights := fun f i => cnnWeight (16 - 9 * f + 3 * i)

def tinyWord (k _f : ℕ) : CnnValues := fun _ => Fin.ofNat 128 (29 * k + 5)

/-- A pixel every twenty edges, after twenty edges of rest. -/
def tinyInput : ℕ → Sample :=
  Clocked.delayed 20 ⟨⟨0, 0, 0, false⟩, fun _ => 0⟩ (paced tiny.format 20 tinyWord)

theorem tiny_valid : tiny.Valid :=
  ⟨by decide, by decide, rfl, by decide, by decide, ⟨by decide, by decide, rfl, rfl⟩, by decide⟩

theorem tiny_shifts : tiny.Shifts :=
  ⟨⟨by decide, by decide, by decide⟩, ⟨rfl, by decide, by decide, by decide, by decide⟩⟩

theorem tiny_sized : tiny.Sized where
  filterRows := by decide
  filterColumns := by decide
  valueCycles := by decide
  calcCycles := by decide
  width := by decide
  strides := by decide
  height := by decide
  inputCycles := by decide
  cycles := by decide
  values := by decide
  filterWidth := by decide
  arrived := by decide
  middle := by decide
  filterHeight := by decide

theorem tiny_release (k : ℕ) :
    release tiny.format tiny.outputCycles (20 * · + 20) (20 * · + 20) k = 20 * k + 20 := by
  rw [RowExpander.release_delayed, RowExpander.release_paced (by decide)]

theorem tiny_fed : Fed tiny tinyInput (20 * · + 20) (20 * · + 20) tinyWord where
  delivers := (paced_delivers (by decide) (by decide)).delayed 20 _
  spreads := (RowExpander.paced_spreads (by decide) (by decide) (by decide) (by decide)
    (by decide)).delayed 20 rfl
  quiet := fun t ht => by
    have hlt : t < 20 := ht
    unfold tinyInput Clocked.delayed
    rw [if_pos hlt]
    exact ⟨rfl, rfl⟩
  late := by decide
  rows := fun k _ => by
    have helements : tiny.elements = 18 := rfl
    rw [tiny_release, helements]
    omega
  first := fun _ => by decide
  hold := fun _ k => by
    have hhold : tiny.hold = 22 := rfl
    unfold sendTime
    rw [tiny_release, tiny_release, hhold]
    omega

theorem component_convolves_tiny :
    (∀ t, sendTime tiny (20 * · + 20) (20 * · + 20) tiny.rowBuffer.lag + tiny.latency 0 ≤ t →
      ((component tiny tinyInput t).output.dataValid = true ↔
        ∃ m, chosen tiny.rowBuffer (tiny.format.column m) (tiny.format.row m) = true ∧
          ∃ k < tiny.filterCycles, t =
            sendTime tiny (20 * · + 20) (20 * · + 20) (m + tiny.rowBuffer.lag) + tiny.latency k)) ∧
    ∀ m, chosen tiny.rowBuffer (tiny.format.column m) (tiny.format.row m) = true →
      ∀ k < tiny.filterCycles,
        (component tiny tinyInput (sendTime tiny (20 * · + 20) (20 * · + 20)
            (m + tiny.rowBuffer.lag) + tiny.latency k)).output =
          ⟨(RowBuffer.sentPosition tiny.rowBuffer (tiny.format.column m) (tiny.format.row m)).1,
            (RowBuffer.sentPosition tiny.rowBuffer (tiny.format.column m) (tiny.format.row m)).2,
            k, true⟩ ∧
        ∀ v < tiny.outFilters,
          ((component tiny tinyInput (sendTime tiny (20 * · + 20) (20 * · + 20)
              (m + tiny.rowBuffer.lag) + tiny.latency k)).oData v).toInt =
            imageResult tiny (released tiny.format tiny.outputCycles (20 * · + 20) (20 * · + 20)
              tinyWord) m k v :=
  component_convolves tiny_valid tiny_sized tiny_fed tiny_shifts

end AlteraWorkshops.Cnn.Convolution
