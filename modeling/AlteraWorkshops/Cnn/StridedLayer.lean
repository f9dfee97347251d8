import AlteraWorkshops.Cnn.PooledLayer

/-! A layer with strides or without padding: what it sends is again an image, of the pixels
that are left. -/

namespace AlteraWorkshops.Cnn.RowBuffer

variable {g : Generics} {column row c r x : ℕ}

/-- Pixels that are left out at the near edge and at the far edge of an axis, for a filter
of this length. -/
def Generics.nearEdge (g : Generics) (filter : ℕ) : ℕ :=
  match g.padding with
  | .valid => filter / 2
  | .same => 0

def Generics.farEdge (g : Generics) (filter : ℕ) : ℕ :=
  match g.padding with
  | .valid => (filter - 1) / 2
  | .same => 0

/-- The place on an axis that becomes place `c`. -/
def Generics.kept (g : Generics) (filter c : ℕ) : ℕ :=
  g.nearEdge filter + g.stridesOffset + c * g.strides

/-- The image has this place. -/
def Generics.Keeps (g : Generics) (filter size c : ℕ) : Prop :=
  g.kept filter c + g.farEdge filter < size

theorem Generics.Keeps.lt {filter size : ℕ} (h : g.Keeps filter size c) :
    g.kept filter c < size := (Nat.le_add_right _ _).trans_lt h

theorem Generics.kept_lt (hs : 0 < g.strides) (filter : ℕ) {c' : ℕ} (h : c < c') :
    g.kept filter c < g.kept filter c' :=
  Nat.add_lt_add_left (Nat.mul_lt_mul_of_pos_right h hs) _

theorem stridesOffset_lt (hs : 0 < g.strides) : g.stridesOffset < g.strides := by
  unfold Generics.stridesOffset
  split_ifs with h
  · exact h.2
  · exact hs

theorem exists_kept_iff (hs : 0 < g.strides) (filter x : ℕ) :
    g.nearEdge filter ≤ x ∧ (x - g.nearEdge filter) % g.strides = g.stridesOffset ↔
      ∃ c, x = g.kept filter c := by
  have hoff := stridesOffset_lt hs
  unfold Generics.kept
  constructor
  · rintro ⟨hle, hmod⟩
    have hdiv := Nat.mod_add_div (x - g.nearEdge filter) g.strides
    refine ⟨(x - g.nearEdge filter) / g.strides, ?_⟩
    rw [Nat.mul_comm] at hdiv
    omega
  · rintro ⟨c, rfl⟩
    refine ⟨by omega, ?_⟩
    rw [Nat.add_assoc, Nat.add_sub_cancel_left, Nat.add_mul_mod_self_right, Nat.mod_eq_of_lt hoff]

/-- The centers that are sent are the places that are kept. -/
theorem chosen_iff (hs : 0 < g.strides) (hcolumn : column < g.inputColumns)
    (hrow : row < g.inputRows) : chosen g column row = true ↔
      ∃ c r, column = g.kept g.filterColumns c ∧ row = g.kept g.filterRows r ∧
        g.Keeps g.filterColumns g.inputColumns c ∧ g.Keeps g.filterRows g.inputRows r := by
  have hplaces : chosen g column row = true ↔
      ((g.nearEdge g.filterColumns ≤ column ∧
          (column - g.nearEdge g.filterColumns) % g.strides = g.stridesOffset) ∧
        column + g.farEdge g.filterColumns < g.inputColumns) ∧
      ((g.nearEdge g.filterRows ≤ row ∧
          (row - g.nearEdge g.filterRows) % g.strides = g.stridesOffset) ∧
        row + g.farEdge g.filterRows < g.inputRows) := by
    unfold chosen Generics.nearEdge Generics.farEdge Generics.lastColumn Generics.lastRow
    cases g.padding with
    | valid =>
      simp only [Bool.and_eq_true, decide_eq_true_eq, beq_iff_eq]
      omega
    | same =>
      simp only [Bool.and_eq_true, beq_iff_eq, Nat.sub_zero]
      omega
  rw [hplaces, exists_kept_iff hs, exists_kept_iff hs]
  constructor
  · rintro ⟨⟨⟨c, rfl⟩, hc⟩, ⟨⟨r, rfl⟩, hr⟩⟩
    exact ⟨c, r, rfl, rfl, hc, hr⟩
  · rintro ⟨c, r, rfl, rfl, hc, hr⟩
    exact ⟨⟨⟨c, rfl⟩, hc⟩, ⟨⟨r, rfl⟩, hr⟩⟩

/-- They are sent under the numbers of their places. -/
theorem sentPosition_kept (hs : 0 < g.strides) (c r : ℕ) :
    sentPosition g (g.kept g.filterColumns c) (g.kept g.filterRows r) = (c, r) := by
  have hoff := stridesOffset_lt hs
  have hplace : ∀ filter c, (g.kept filter c - g.nearEdge filter) / g.strides = c := by
    intro filter c
    unfold Generics.kept
    rw [Nat.add_assoc, Nat.add_sub_cancel_left, Nat.add_mul_div_right _ _ hs,
      Nat.div_eq_of_lt hoff, Nat.zero_add]
  have hcorrected : sentPosition g (g.kept g.filterColumns c) (g.kept g.filterRows r) =
      ((g.kept g.filterColumns c - g.nearEdge g.filterColumns) / g.strides,
        (g.kept g.filterRows r - g.nearEdge g.filterRows) / g.strides) := by
    unfold sentPosition corrected Generics.nearEdge
    cases g.padding <;> rfl
  rw [hcorrected, hplace, hplace]

end AlteraWorkshops.Cnn.RowBuffer

namespace AlteraWorkshops.Cnn.Convolution

open RowBuffer (chosen chosen_iff sentPosition sentPosition_kept)
open RowExpander (released)

variable {g : Generics} {inp : ℕ → Sample} {lead arrive : ℕ → ℕ} {word : ℕ → ℕ → CnnValues}
  {f r c k f' r' c' k' m m' t : ℕ}

/-- Place `c` of row `r` of frame `f` comes before the other one. -/
def Before (f r c f' r' c' : ℕ) : Prop := f < f' ∨ f = f' ∧ (r < r' ∨ r = r' ∧ c < c')

/-- The image that is sent has place `c` in row `r`. -/
def Generics.Keeps (g : Generics) (r c : ℕ) : Prop :=
  g.rowBuffer.Keeps g.filterColumns g.inputColumns c ∧
    g.rowBuffer.Keeps g.filterRows g.inputRows r

/-- The pixel in the middle of the matrix for place `c` of row `r`, in frame `f`. -/
def keptPixel (g : Generics) (f r c : ℕ) : ℕ :=
  (f * g.inputRows + g.rowBuffer.kept g.filterRows r) * g.inputColumns +
    g.rowBuffer.kept g.filterColumns c

theorem keptPixel_position (hkeeps : g.Keeps r c) (f : ℕ) :
    g.format.column (keptPixel g f r c) = g.rowBuffer.kept g.filterColumns c ∧
      g.format.row (keptPixel g f r c) = g.rowBuffer.kept g.filterRows r := by
  obtain ⟨hcolumn, hrow⟩ := hkeeps
  have hc : g.rowBuffer.kept g.filterColumns c < g.inputColumns := hcolumn.lt
  have hr : g.rowBuffer.kept g.filterRows r < g.inputRows := hrow.lt
  obtain ⟨hdiv, hmod⟩ :=
    Numbers.div_mod_eq' (a := f * g.inputRows + g.rowBuffer.kept g.filterRows r) hc
  refine ⟨hmod, ?_⟩
  show keptPixel g f r c / g.inputColumns % g.inputRows = _
  rw [keptPixel, hdiv]
  exact (Numbers.div_mod_eq' hr).2

theorem keptPixel_lt (hs : 0 < g.strides) (hkeeps : g.Keeps r c)
    (hbefore : Before f r c f' r' c') : keptPixel g f r c < keptPixel g f' r' c' := by
  have hc := hkeeps.1.lt
  have hr := hkeeps.2.lt
  rcases hbefore with hf | ⟨rfl, hlt | ⟨rfl, hlt⟩⟩
  · exact Numbers.digits_lt hc (Numbers.digits_lt hr hf _) _
  · exact Numbers.digits_lt hc (Nat.add_lt_add_left (RowBuffer.Generics.kept_lt hs _ hlt) _) _
  · exact Nat.add_lt_add_left (RowBuffer.Generics.kept_lt hs _ hlt) _

section Image

variable (hg : g.Valid) (hs : g.Sized) (h : Fed g inp lead arrive word)

include hs in
theorem chosen_keptPixel (hkeeps : g.Keeps r c) (f : ℕ) :
    chosen g.rowBuffer (g.format.column (keptPixel g f r c))
      (g.format.row (keptPixel g f r c)) = true := by
  obtain ⟨hcolumn, hrow⟩ := keptPixel_position hkeeps f
  rw [hcolumn, hrow]
  exact (chosen_iff hs.strides hkeeps.1.lt hkeeps.2.lt).mpr
    ⟨c, r, rfl, rfl, hkeeps.1, hkeeps.2⟩

include hg h in
/-- The results of a pixel are out before those of any later one. -/
theorem resultTime_lt_of_lt (hm : m < m') (hk : k < g.filterCycles) (k' : ℕ) :
    resultTime g lead arrive m k < resultTime g lead arrive m' k' := by
  have hmono : StrictMono (sendTime g lead arrive) :=
    strictMono_nat_of_lt_succ fun j => (Nat.le_add_right _ _).trans_lt (sendTime_room h j)
  have hnext := resultTime_lt hg h m hk
  have hle : sendTime g lead arrive (m + 1 + g.rowBuffer.lag) ≤
      sendTime g lead arrive (m' + g.rowBuffer.lag) := hmono.monotone (by omega)
  have hlatency : g.latency 0 ≤ g.latency k' := by
    unfold Generics.latency
    omega
  unfold resultTime at *
  omega

include hs in
/-- Every pixel that is left has its place. -/
theorem exists_keptPixel
    (hm : chosen g.rowBuffer (g.format.column m) (g.format.row m) = true) :
    ∃ f r c, g.Keeps r c ∧ m = keptPixel g f r c := by
  have hcolumn : g.format.column m < g.inputColumns :=
    Nat.mod_lt _ (Nat.zero_lt_two.trans_le hs.width)
  have hrow : g.format.row m < g.inputRows := Nat.mod_lt _ (Nat.zero_lt_two.trans_le hs.height)
  obtain ⟨c, r, hc, hr, hkc, hkr⟩ := (chosen_iff hs.strides hcolumn hrow).mp hm
  refine ⟨m / g.inputColumns / g.inputRows, r, c, ⟨hkc, hkr⟩, ?_⟩
  have hpixel := Nat.div_add_mod' m g.inputColumns
  have hline := Nat.div_add_mod' (m / g.inputColumns) g.inputRows
  show m = (_ * _ + g.rowBuffer.kept g.rowBuffer.filterRows r) * _ +
    g.rowBuffer.kept g.rowBuffer.filterColumns c
  rw [← hc, ← hr]
  show m = (_ * _ + m / g.inputColumns % g.inputRows) * _ + m % g.inputColumns
  rw [hline, hpixel]

include hg hs h in
/-- The layer sends an image again: in each frame each result set of each place once, under
this place and in raster order, and its values are the rescaled sums of the rounded products
over the matrix around the pixel that the place stands for. -/
theorem sends_image (hsh : g.Shifts) :
    (∀ t, resultTime g lead arrive 0 0 ≤ t → ((component g inp t).output.dataValid = true ↔
      ∃ f r c k, g.Keeps r c ∧ k < g.filterCycles ∧
        t = resultTime g lead arrive (keptPixel g f r c) k)) ∧
    ∀ f r c k, g.Keeps r c → k < g.filterCycles →
      (component g inp (resultTime g lead arrive (keptPixel g f r c) k)).output = ⟨c, r, k, true⟩ ∧
        (∀ v < g.outFilters,
          ((component g inp (resultTime g lead arrive (keptPixel g f r c) k)).oData v).toInt =
            imageResult g (released g.format g.outputCycles lead arrive word)
              (keptPixel g f r c) k v) ∧
        ∀ f' r' c' k', Before f r c f' r' c' →
          resultTime g lead arrive (keptPixel g f r c) k <
            resultTime g lead arrive (keptPixel g f' r' c') k' := by
  constructor
  · intro t ht
    rw [resultTime, Nat.zero_add] at ht
    rw [component_sends hg hs h ht]
    constructor
    · rintro ⟨m, hm, k, hk, rfl⟩
      obtain ⟨f, r, c, hkeeps, rfl⟩ := exists_keptPixel hs hm
      exact ⟨f, r, c, k, hkeeps, hk, rfl⟩
    · rintro ⟨f, r, c, k, hkeeps, hk, rfl⟩
      exact ⟨keptPixel g f r c, chosen_keptPixel hs hkeeps f, k, hk, rfl⟩
  · intro f r c k hkeeps hk
    obtain ⟨hstream, hdata⟩ := component_results hg hs h hsh (chosen_keptPixel hs hkeeps f) hk
    obtain ⟨hcolumn, hrow⟩ := keptPixel_position hkeeps f
    have hposition := sentPosition_kept (g := g.rowBuffer) hs.strides c r
    rw [hcolumn, hrow] at hstream
    refine ⟨hstream.trans ?_, hdata, fun f' r' c' k' hbefore => ?_⟩
    · show CnnStream.mk (sentPosition g.rowBuffer _ _).1 (sentPosition g.rowBuffer _ _).2 k true = _
      exact congrArg (fun p : ℕ × ℕ => CnnStream.mk p.1 p.2 k true) hposition
    · exact resultTime_lt_of_lt hg h (keptPixel_lt hs.strides hkeeps hbefore) hk k'

end Image

/-! ### A layer that leaves every other pixel -/

/-- `tiny` with strides of two: images of two times two. -/
def halved : Generics := { tiny with strides := 2 }

theorem halved_valid : halved.Valid := { tiny_valid with }

theorem halved_sized : halved.Sized := { tiny_sized with strides := by decide }

theorem halved_fed : Fed halved tinyInput (20 * · + 20) (20 * · + 20) tinyWord :=
  { tiny_fed with
    first := fun hone => absurd hone (by decide)
    hold := fun hone => absurd hone (by decide) }

theorem sends_image_halved :
    (∀ t, resultTime halved (20 * · + 20) (20 * · + 20) 0 0 ≤ t →
      ((component halved tinyInput t).output.dataValid = true ↔
        ∃ f r c k, halved.Keeps r c ∧ k < halved.filterCycles ∧
          t = resultTime halved (20 * · + 20) (20 * · + 20) (keptPixel halved f r c) k)) ∧
    ∀ f r c k, halved.Keeps r c → k < halved.filterCycles →
      (component halved tinyInput (resultTime halved (20 * · + 20) (20 * · + 20)
          (keptPixel halved f r c) k)).output = ⟨c, r, k, true⟩ ∧
        (∀ v < halved.outFilters,
          ((component halved tinyInput (resultTime halved (20 * · + 20) (20 * · + 20)
              (keptPixel halved f r c) k)).oData v).toInt =
            imageResult halved (released halved.format halved.outputCycles (20 * · + 20)
              (20 * · + 20) tinyWord) (keptPixel halved f r c) k v) ∧
        ∀ f' r' c' k', Before f r c f' r' c' →
          resultTime halved (20 * · + 20) (20 * · + 20) (keptPixel halved f r c) k <
            resultTime halved (20 * · + 20) (20 * · + 20) (keptPixel halved f' r' c') k' :=
  sends_image halved_valid halved_sized halved_fed ⟨tiny_shifts.1, tiny_shifts.2⟩

end AlteraWorkshops.Cnn.Convolution
