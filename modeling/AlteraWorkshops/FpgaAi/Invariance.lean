import AlteraWorkshops.FpgaAi.Converter

/-! What the image converter does not depend on: whether the digit is drawn dark on bright or
bright on dark, and where in the bitmap it is. -/

namespace AlteraWorkshops.FpgaAi.Converter

open Raster

variable {h w : ℕ}

/-! ### Polarity -/

def negative (pil : Image h w (BitVec 8)) : Image h w (BitVec 8) := fun p => 255 - pil p

/-- The intensities of the negative. -/
def complement (img : Image h w ℚ) : Image h w ℚ := fun p => 1 - img p

theorem img01_negative (pil : Image h w (BitVec 8)) :
    img01 (negative pil) = complement (img01 pil) := by
  funext p
  have hbyte : (pil p).toNat < 256 := (pil p).isLt
  have hnegative : (negative pil p).toNat = 255 - (pil p).toNat := by
    rw [negative, BitVec.toNat_sub]
    change (256 - (pil p).toNat + 255) % 256 = _
    omega
  rw [img01, hnegative, Nat.cast_sub (by omega), complement, img01, sub_div]
  norm_num

theorem sum_complement (values : List ℚ) :
    (values.map fun v => 1 - v).sum = values.length - values.sum := by
  induction values with
  | nil => simp
  | cons v values ih =>
    rw [List.map_cons, List.sum_cons, ih, List.sum_cons, List.length_cons, Nat.cast_add_one]
    ring

theorem mean_complement {values : List ℚ} (hne : values ≠ []) :
    mean (values.map fun v => 1 - v) = 1 - mean values := by
  have hlength : (values.length : ℚ) ≠ 0 :=
    Nat.cast_ne_zero.mpr (List.length_pos_iff.mpr hne).ne'
  rw [mean, List.length_map, sum_complement, sub_div, div_self hlength, mean]

theorem border_complement (img : Image h w ℚ) (b : ℤ) :
    border (complement img) b = (border img b).map fun v => 1 - v := by
  simp only [border, List.map_append, ← Image.ravel_map]
  rfl

theorem border_ne_nil (img : Image h w ℚ) (hh : 0 < h) (hw : 0 < w) {b : ℤ} (hb : 0 < b) :
    border img b ≠ [] := by
  have hrows : 0 < (Slice.before b).length h := by
    change 0 < clip h b - 0
    rw [clip, if_neg hb.not_gt]
    omega
  have hpos : 0 < (img.window (.before b) .all).ravel.length := by
    rw [Image.ravel_length]
    exact Nat.mul_pos hrows hw
  intro hempty
  simp only [border, List.append_eq_nil_iff] at hempty
  rw [hempty.1.1.1] at hpos
  exact hpos.false

/-- The decision is the other one for the complement. -/
theorem autoInvertNeeded_complement (img : Image h w ℚ) (hh : 4 ≤ h) (hw : 4 ≤ w)
    (hmean : mean (border img (borderWidth h w)) ≠ 1 / 2) :
    autoInvertNeeded (complement img) = !autoInvertNeeded img := by
  have hb : 0 < borderWidth h w := by
    unfold borderWidth
    omega
  have hcomplement := mean_complement (border_ne_nil img (by omega) (by omega) hb)
  simp only [autoInvertNeeded, if_neg hb.not_ge]
  rw [border_complement, hcomplement, ← decide_not]
  refine decide_eq_decide.mpr ⟨fun h => ?_, fun h => ?_⟩
  · linarith
  · have := lt_of_le_of_ne (not_lt.mp h) hmean
    linarith

theorem inverted_complement (invert : Bool) (img : Image h w ℚ) :
    inverted (!invert) (complement img) = inverted invert img := by
  funext p
  cases invert with
  | true => rfl
  | false => exact sub_sub_cancel 1 (img p)

/-- The foreground of the negative, if nothing but the image decides. -/
theorem foreground_negative (options : Options) (hinvert : options.invert = false)
    (hauto : options.noAutoInvert = false) (pil : Image h w (BitVec 8)) (hh : 4 ≤ h) (hw : 4 ≤ w)
    (hmean : mean (border (img01 pil) (borderWidth h w)) ≠ 1 / 2) :
    foreground options (negative pil) = foreground options pil := by
  have hdecision := autoInvertNeeded_complement (img01 pil) hh hw hmean
  simp only [foreground, doInvert, hinvert, hauto, img01_negative, hdecision, Bool.false_or,
    Bool.not_false, Bool.true_and]
  exact inverted_complement _ _

/-- A bitmap and its negative give the same values. -/
theorem converter_negative (resize : Resizer) (fgThresh : ℚ) (target : ℤ) (resample : Resample)
    (pil : Image h w (BitVec 8)) (hh : 4 ≤ h) (hw : 4 ≤ w)
    (hmean : mean (border (img01 pil) (borderWidth h w)) ≠ 1 / 2) :
    let options : Options := { fgThresh, target, resample }
    ∃ values, main resize options pil = .ok values ∧
      main resize options (negative pil) = .ok values ∧ values.length = 784 := by
  intro options
  have hsize : options.Accepts h w := fun hstrict => Bool.noConfusion hstrict
  obtain ⟨values, hvalues⟩ := convert_isSome resize options pil (by omega) (by omega)
  have hforeground := foreground_negative options rfl rfl pil hh hw hmean
  refine ⟨values, main_ok hsize hvalues, main_ok hsize ?_, draw_length hvalues⟩
  rw [convert, hforeground]
  exact hvalues

theorem converter_negative_dot :
    let dot : Image 4 4 (BitVec 8) := fun p => if p = (1, 2) then 255 else 0
    ∃ values, main nearest {} dot = .ok values ∧ main nearest {} (negative dot) = .ok values ∧
      values.length = 784 :=
  converter_negative nearest _ _ _ _ (by decide) (by decide) (by decide +kernel)

/-! ### Placement -/

/-- The glyph is in the image, with its first row and column at `y` and `x`. -/
structure Placed {α : Type*} [Zero α] {gh gw : ℕ} (glyph : Image gh gw α) (img : Image h w α)
    (y x : ℕ) : Prop where
  height : y + gh ≤ h
  width : x + gw ≤ w
  agrees : ∀ p : Fin gh × Fin gw, img.get (y + p.1.val) (x + p.2.val) = glyph p

/-- The pixel is not one of the glyph. -/
def Background (gh gw y x : ℕ) (p : Fin h × Fin w) : Prop :=
  ¬Inside gh gw (p.1.val - y) (p.2.val - x)

instance (gh gw y x : ℕ) : DecidablePred (Background gh gw y x : Fin h × Fin w → Prop) := fun _ =>
  inferInstanceAs (Decidable (¬_))

section Placement

variable {gh gw y x : ℕ} {glyph : Image gh gw ℚ} {fg : Image h w ℚ} {thresh : ℚ}

theorem Placed.get_eq (hplaced : Placed glyph fg y x) {i j : ℤ} (hin : Inside gh gw i j) :
    fg.get (y + i) (x + j) = glyph.get i j := by
  rw [Image.get_of_inside hin, ← hplaced.agrees, place_row, place_column]

theorem placesOf_mask_iff (i j : ℤ) :
    Box.placesOf (mask fg thresh) i j ↔ Inside h w i j ∧ thresh < fg.get i j := by
  simp only [placesOf_mask]
  constructor
  · rintro ⟨p, hp, rfl, rfl⟩
    rw [Image.get_pixel]
    exact ⟨inside_pixel p, hp⟩
  · rintro ⟨hin, hbright⟩
    rw [Image.get_of_inside hin] at hbright
    exact ⟨place hin, hbright, place_row hin, place_column hin⟩

theorem Placed.inside (hplaced : Placed glyph fg y x) {i j : ℤ}
    (hin : Inside gh gw (i - y) (j - x)) : Inside h w i j := by
  have hheight := hplaced.height
  have hwidth := hplaced.width
  unfold Inside at *
  omega

/-- The pixels above the threshold are those of the glyph. -/
theorem Placed.placesOf_mask (hplaced : Placed glyph fg y x)
    (hback : ∀ p, Background gh gw y x p → fg p ≤ thresh) (i j : ℤ) :
    Box.placesOf (mask fg thresh) i j ↔ Box.placesOf (mask glyph thresh) (i - y) (j - x) := by
  have hget (hin : Inside gh gw (i - y) (j - x)) :
      fg.get i j = glyph.get (i - y) (j - x) := by
    rw [← hplaced.get_eq hin, add_sub_cancel, add_sub_cancel]
  rw [placesOf_mask_iff, placesOf_mask_iff]
  constructor
  · rintro ⟨hin, hbright⟩
    have hglyph : Inside gh gw (i - y) (j - x) := by
      by_contra hout
      have hplace : Background gh gw y x (place hin) := by
        rwa [Background, place_row, place_column]
      rw [Image.get_of_inside hin] at hbright
      exact (hback _ hplace).not_gt hbright
    exact ⟨hglyph, hget hglyph ▸ hbright⟩
  · rintro ⟨hglyph, hbright⟩
    exact ⟨hplaced.inside hglyph, (hget hglyph).symm ▸ hbright⟩

/-- The box moves with the glyph. -/
theorem Placed.cropBbox (hplaced : Placed glyph fg y x)
    (hback : ∀ p, Background gh gw y x p → fg p ≤ thresh) (hany : ∃ p, thresh < glyph p) :
    cropBbox fg thresh = (cropBbox glyph thresh).moved y x := by
  have hplaces : Box.placesOf (mask fg thresh) =
      fun i j => Box.placesOf (mask glyph thresh) (i - y) (j - x) := by
    funext i j
    exact propext (hplaced.placesOf_mask hback i j)
  have hmoved : ((Converter.cropBbox glyph thresh).moved y x).Bounds
      (Box.placesOf (mask fg thresh)) := hplaces ▸ (cropBbox_bounds hany).moved y x
  obtain ⟨_, q, hq, -⟩ := hmoved.top
  exact (cropBbox_bounds ⟨q, (mem_mask fg thresh q).mp hq⟩).unique hmoved

theorem draw_congr (resize : Resizer) (options : Options) {ch cw ch' cw' : ℕ}
    {crop : Image ch cw ℚ} {crop' : Image ch' cw' ℚ} (hheight : ch = ch') (hwidth : cw = cw')
    (hagree : ∀ i j, Inside ch cw i j → crop.get i j = crop'.get i j) :
    draw resize options crop = draw resize options crop' := by
  subst hheight hwidth
  have hcrop : crop = crop' := by
    funext p
    rw [← crop.get_pixel, ← crop'.get_pixel]
    exact hagree _ _ (inside_pixel p)
  rw [hcrop]

/-- What becomes of a glyph does not depend on the image it is in. -/
theorem Placed.draw (resize : Resizer) (options : Options) (hplaced : Placed glyph fg y x)
    (hback : ∀ p, Background gh gw y x p → fg p ≤ thresh) (hany : ∃ p, thresh < glyph p) :
    draw resize options (cropped fg (Converter.cropBbox fg thresh)) =
      draw resize options (cropped glyph (Converter.cropBbox glyph thresh)) := by
  have hinside := (cropBbox_bounds hany).inside
  have hnonempty := (cropBbox_bounds hany).nonempty
  rw [hplaced.cropBbox hback hany]
  generalize Converter.cropBbox glyph thresh = box at hinside hnonempty ⊢
  obtain ⟨⟨hy0, hy1⟩, hx0, hx1⟩ := hinside
  have hheight := hplaced.height
  have hwidth := hplaced.width
  have hrows : Slice.Within gh box.y0 box.y1 := ⟨hy0, hnonempty.1.le, hy1⟩
  have hcolumns : Slice.Within gw box.x0 box.x1 := ⟨hx0, hnonempty.2.le, hx1⟩
  have hrows' : Slice.Within h (box.moved y x).y0 (box.moved y x).y1 := by
    constructor <;> simp only [Box.moved] <;> omega
  have hcolumns' : Slice.Within w (box.moved y x).x0 (box.moved y x).x1 := by
    constructor <;> simp only [Box.moved] <;> omega
  have hch : ((Slice.between (box.moved y x).y0 (box.moved y x).y1).length h : ℤ) =
      box.y1 - box.y0 := hrows'.length_eq.trans (add_sub_add_right_eq_sub _ _ _)
  have hcw : ((Slice.between (box.moved y x).x0 (box.moved y x).x1).length w : ℤ) =
      box.x1 - box.x0 := hcolumns'.length_eq.trans (add_sub_add_right_eq_sub _ _ _)
  have hch' := hrows.length_eq
  have hcw' := hcolumns.length_eq
  refine draw_congr resize options (by omega) (by omega) fun i j hin => ?_
  have hcrop : Inside ((Slice.between box.y0 box.y1).length gh)
      ((Slice.between box.x0 box.x1).length gw) i j := by
    unfold Inside at *
    omega
  have hglyph : Inside gh gw (box.y0 + i) (box.x0 + j) := by
    unfold Inside at *
    omega
  rw [cropped, cropped, Image.get_window _ hrows' hcolumns' hin,
    Image.get_window _ hrows hcolumns hcrop, ← hplaced.get_eq hglyph]
  congr 1 <;> simp only [Box.moved] <;> omega

end Placement

theorem Placed.map {α β : Type*} [Zero α] [Zero β] {gh gw y x : ℕ} {glyph : Image gh gw α}
    {img : Image h w α} (f : α → β) (hplaced : Placed glyph img y x) :
    Placed (fun p => f (glyph p)) (fun p => f (img p)) y x := by
  obtain ⟨hheight, hwidth, hagrees⟩ := hplaced
  refine ⟨hheight, hwidth, fun p => ?_⟩
  have hin : Inside h w (y + p.1.val) (x + p.2.val) := by
    have := p.1.isLt
    have := p.2.isLt
    unfold Inside
    omega
  rw [← hagrees p, Image.get_of_inside hin, Image.get_of_inside hin]

theorem Placed.inverted {gh gw y x : ℕ} {glyph : Image gh gw (BitVec 8)}
    {img : Image h w (BitVec 8)} (invert : Bool) (hplaced : Placed glyph img y x) :
    Placed (inverted invert (img01 glyph)) (inverted invert (img01 img)) y x :=
  (hplaced.map fun v : BitVec 8 => (v.toNat / 255 : ℚ)).map fun v => if invert then 1 - v else v

/-- Where the glyph is, how large the bitmap is and what is in its background does not matter, as
long as nothing of the background is above the threshold. -/
theorem converter_placement (resize : Resizer) (options : Options) {gh gw h w h' w' : ℕ}
    (glyph : Image gh gw (BitVec 8)) (img : Image h w (BitVec 8)) (img' : Image h' w' (BitVec 8))
    {y x y' x' : ℕ} (hplaced : Placed glyph img y x) (hplaced' : Placed glyph img' y' x')
    (hdecision : doInvert options (img01 img) = doInvert options (img01 img'))
    (hback : ∀ p, Background gh gw y x p → foreground options img p ≤ options.fgThresh)
    (hback' : ∀ p, Background gh gw y' x' p → foreground options img' p ≤ options.fgThresh)
    (hany : ∃ p, options.fgThresh < inverted (doInvert options (img01 img)) (img01 glyph) p)
    (hsize : options.Accepts h w) (hsize' : options.Accepts h' w') :
    ∃ values, main resize options img = .ok values ∧ main resize options img' = .ok values ∧
      values.length = 784 := by
  have hfg : Placed _ (foreground options img) y x := hplaced.inverted _
  have hfg' : Placed _ (foreground options img') y' x' := hplaced'.inverted _
  rw [← hdecision] at hfg'
  obtain ⟨p, -⟩ := id hany
  have hheight := hplaced.height
  have hwidth := hplaced.width
  have := p.1.isLt
  have := p.2.isLt
  obtain ⟨values, hvalues⟩ := convert_isSome resize options img (by omega) (by omega)
  refine ⟨values, main_ok hsize hvalues, main_ok hsize' ?_, draw_length hvalues⟩
  rw [← hvalues, convert, convert, hfg.draw resize options hback hany,
    hfg'.draw resize options hback' hany]

/-! ### A glyph in two bitmaps -/

/-- A bright seven. -/
def seven : Image 6 4 (BitVec 8) := fun p => if p.1.val = 0 ∨ p.2.val = 3 then 225 else 0

/-- The glyph at row `y` and column `x` of a bitmap whose background is below the threshold. -/
def stamped {gh gw : ℕ} (glyph : Image gh gw (BitVec 8)) (h w y x : ℕ) : Image h w (BitVec 8) :=
  fun p =>
    if hin : Inside gh gw (p.1.val - y) (p.2.val - x) then glyph (place hin)
    else BitVec.ofNat 8 ((p.1.val + p.2.val) % 13)

section Stamped

variable {gh gw y x : ℕ} {glyph : Image gh gw (BitVec 8)}

theorem stamped_placed (hheight : y + gh ≤ h) (hwidth : x + gw ≤ w) :
    Placed glyph (stamped glyph h w y x) y x where
  height := hheight
  width := hwidth
  agrees p := by
    have hrow := p.1.isLt
    have hcolumn := p.2.isLt
    have hframe : Inside h w (y + p.1.val) (x + p.2.val) := by
      unfold Inside
      omega
    rw [Image.get_of_inside hframe, stamped]
    simp only [place_row, place_column, add_sub_cancel_left]
    rw [dif_pos (inside_pixel p)]
    rfl

theorem stamped_background {options : Options} (hthresh : 1 / 20 ≤ options.fgThresh)
    (hplain : doInvert options (img01 (stamped glyph h w y x)) = false) (p : Fin h × Fin w)
    (hp : Background gh gw y x p) :
    foreground options (stamped glyph h w y x) p ≤ options.fgThresh := by
  have hmod : (BitVec.ofNat 8 ((p.1.val + p.2.val) % 13)).toNat ≤ 12 := by
    rw [BitVec.toNat_ofNat]
    omega
  have hle : (((BitVec.ofNat 8 ((p.1.val + p.2.val) % 13)).toNat : ℕ) : ℚ) ≤ 12 := by
    exact_mod_cast hmod
  rw [foreground, hplain, inverted, if_neg Bool.false_ne_true, img01, stamped, dif_neg hp]
  linarith

end Stamped

theorem converter_placement_seven :
    ∃ values, main nearest {} (stamped seven 8 6 1 1) = .ok values ∧
      main nearest {} (stamped seven 12 14 5 7) = .ok values ∧ values.length = 784 := by
  have hplain : doInvert {} (img01 (stamped seven 8 6 1 1)) = false := by decide +kernel
  have hplain' : doInvert {} (img01 (stamped seven 12 14 5 7)) = false := by decide +kernel
  refine converter_placement nearest {} seven _ _ (stamped_placed (by decide) (by decide))
    (stamped_placed (by decide) (by decide)) (hplain.trans hplain'.symm)
    (stamped_background le_rfl hplain) (stamped_background le_rfl hplain') ⟨(0, 0), ?_⟩
    (by rintro ⟨⟩) (by rintro ⟨⟩)
  rw [hplain]
  decide +kernel

end AlteraWorkshops.FpgaAi.Converter
