import AlteraWorkshops.Numbers.Rounding
import AlteraWorkshops.Numbers.WeightedMean
import AlteraWorkshops.Raster.Image
import Mathlib.Algebra.Order.Ring.Rat

/-! The digit of a bitmap in its frame of 28 by 28 pixels: the scaled glyph is pasted in the
middle and then moved so that its centre of mass is there. Small glyphs stay in the frame;
of the larger ones a pixel is cut off that is too far from the centre of mass. -/

namespace AlteraWorkshops.FpgaAi

open Numbers Raster

variable {h w : ℕ}

/-! ### The script -/

def centerOfMass (a : Image h w ℚ) : ℚ × ℚ :=
  let m := a.total
  if m ≤ 1 / 10 ^ 12 then (27 / 2, 27 / 2)
  else ((∑ p, p.1.val * a p) / m, (∑ p, p.2.val * a p) / m)

/-- `sy1` and `sx1` only make the slice of `img` as large as that of `out`. -/
def shiftInteger (img : Image h w ℚ) (dy dx : ℤ) : Image h w ℚ :=
  let out : Image h w ℚ := fun _ => 0
  let y0 := max 0 dy
  let x0 := max 0 dx
  let y1 := if dy < 0 then min (h : ℤ) (h + dy) else h
  let x1 := if dx < 0 then min (w : ℤ) (w + dx) else w
  let sy0 := max 0 (-dy)
  let sx0 := max 0 (-dx)
  if y1 - y0 > 0 ∧ x1 - x0 > 0 then out.assign y0 y1 x0 x1 (img.slice sy0 sx0) else out

/-- `target` -/
def clampTarget (target : ℤ) : ℤ := max 1 (min 27 target)

/-- What the sides of the crop are scaled by. -/
def scale (target : ℤ) (ch cw : ℕ) : ℚ :=
  if max ch cw > 0 then clampTarget target / (max ch cw : ℕ) else 1

/-- `new_h` and `new_w` -/
def newSide (target : ℤ) (ch cw side : ℕ) : ℕ :=
  (max 1 (roundHalfEven (side * scale target ch cw))).toNat

/-- The resized crop, a byte for each pixel. -/
abbrev Glyph (target : ℤ) (ch cw : ℕ) :=
  Image (newSide target ch cw ch) (newSide target ch cw cw) (BitVec 8)

def resized (glyph : Image h w (BitVec 8)) : Image h w ℚ := fun p => (glyph p).toNat / 255

/-- The canvas with the glyph on it. -/
def paste (glyph : Image h w ℚ) : Image 28 28 ℚ :=
  let canvas : Image 28 28 ℚ := fun _ => 0
  let top : ℤ := (28 - h : ℤ).fdiv 2
  let left : ℤ := (28 - w : ℤ).fdiv 2
  canvas.assign top (top + h) left (left + w) (glyph.slice 0 0)

/-- How far the canvas is moved: `dy` and `dx`. -/
def centerOffset (canvas : Image 28 28 ℚ) : ℤ × ℤ :=
  let c := centerOfMass canvas
  (roundHalfEven (27 / 2 - c.1), roundHalfEven (27 / 2 - c.2))

def centered (canvas : Image 28 28 ℚ) : Image 28 28 ℚ :=
  shiftInteger canvas (centerOffset canvas).1 (centerOffset canvas).2

/-! ### The shift -/

theorem shiftInteger_eq (img : Image h w ℚ) (dy dx : ℤ) :
    shiftInteger img dy dx = img.moved dy dx := by
  funext p
  have hend (side : ℕ) (d : ℤ) :
      (if d < 0 then min (side : ℤ) (side + d) else side) = min (side : ℤ) (side + d) := by
    split_ifs <;> omega
  obtain ⟨⟨hy, hy'⟩, hx, hx'⟩ := inside_pixel p
  simp only [shiftInteger, hend]
  by_cases hs : Stays (-dy) (-dx) p
  · obtain ⟨⟨hrow, hrow'⟩, hcolumn, hcolumn'⟩ := id hs
    rw [if_pos (by omega), Image.assign, if_pos (by omega), Image.slice]
    congr 1 <;> omega
  · rw [Image.moved_of_not_stays hs]
    split_ifs with hguard
    · refine if_neg fun hin => hs ?_
      unfold Stays Inside
      omega
    · rfl

/-! ### The canvas -/

theorem paste_apply (glyph : Image h w ℚ) (p : Fin 28 × Fin 28) : paste glyph p =
    glyph.get (p.1.val - (28 - h : ℤ).fdiv 2) (p.2.val - (28 - w : ℤ).fdiv 2) := by
  simp only [paste, Image.assign, Image.slice, zero_add]
  split_ifs with hin
  · rfl
  · refine (Image.get_of_not_inside fun h => hin ?_).symm
    unfold Inside at h
    omega

theorem inside_of_paste_ne_zero {glyph : Image h w ℚ} {p : Fin 28 × Fin 28}
    (hp : paste glyph p ≠ 0) :
    Inside h w (p.1.val - (28 - h : ℤ).fdiv 2) (p.2.val - (28 - w : ℤ).fdiv 2) := by
  rw [paste_apply] at hp
  by_contra hout
  exact hp (Image.get_of_not_inside hout)

theorem paste_nonneg {glyph : Image h w ℚ} (hglyph : ∀ p, 0 ≤ glyph p) (p : Fin 28 × Fin 28) :
    0 ≤ paste glyph p := by
  rw [paste_apply, Image.get]
  split_ifs
  · exact hglyph _
  · exact le_rfl

theorem resized_nonneg (glyph : Image h w (BitVec 8)) (p : Fin h × Fin w) :
    0 ≤ resized glyph p := div_nonneg (Nat.cast_nonneg _) (by norm_num)

/-! ### The centre of mass -/

/-- The middle of the frame counts as the centre of mass of an empty image. -/
theorem centerOfMass_eq (a : Image h w ℚ) : centerOfMass a =
    if a.total ≤ 1 / 10 ^ 12 then (27 / 2, 27 / 2)
    else (weightedMean (fun p : Fin h × Fin w => (p.1.val : ℚ)) a,
      weightedMean (fun p : Fin h × Fin w => (p.2.val : ℚ)) a) := rfl

/-- Close enough to the centre of mass to stay in the frame: less than 14 pixels away, or 14
pixels where the tie is rounded inwards. -/
def Near (x : ℤ) (c : ℚ) : Prop :=
  (c < x + 14 ∨ c = x + 14 ∧ Even x) ∧ (x - 14 < c ∨ c = x - 14 ∧ Odd x)

theorem near_iff (x : ℤ) (c : ℚ) :
    Near x c ↔ 0 ≤ x + roundHalfEven (27 / 2 - c) ∧ x + roundHalfEven (27 / 2 - c) < 28 := by
  have hlow : 0 ≤ x + roundHalfEven (27 / 2 - c) ↔ c < x + 14 ∨ c = x + 14 ∧ Even x := by
    rw [← neg_le_iff_add_nonneg', le_roundHalfEven_iff, even_neg, Int.cast_neg]
    refine or_congr ?_ (and_congr_left' ?_) <;> constructor <;> intro h <;> linarith
  have hhigh : x + roundHalfEven (27 / 2 - c) < 28 ↔ x - 14 < c ∨ c = x - 14 ∧ Odd x := by
    have hodd : Even (27 - x) ↔ Odd x := by
      have h27 : ¬Even (27 : ℤ) := by decide
      rw [Int.even_sub, iff_false_left h27, Int.not_even_iff_odd]
    have hle : x + roundHalfEven (27 / 2 - c) < 28 ↔ roundHalfEven (27 / 2 - c) ≤ 27 - x := by
      omega
    rw [hle, roundHalfEven_le_iff, hodd, Int.cast_sub, Int.cast_ofNat]
    refine or_congr ?_ (and_congr_left' ?_) <;> constructor <;> intro h <;> linarith
  rw [Near, hlow, hhigh]

/-- A pixel with the others less than 15 rows or columns away. -/
theorem near_weightedMean {a : Image h w ℚ} (position : Fin h × Fin w → ℤ) (ha : ∀ p, 0 ≤ a p)
    {p : Fin h × Fin w} (hp : a p ≠ 0)
    (hspan : ∀ q, a q ≠ 0 → position q ≤ position p + 14 ∧ position p - 14 ≤ position q) :
    Near (position p) (weightedMean (fun q => (position q : ℚ)) a) := by
  constructor
  · refine .inl (weightedMean_lt ha (fun q hq => ?_) hp ?_)
    · exact_mod_cast (hspan q hq).1
    · exact lt_add_of_pos_right _ (by norm_num)
  · refine .inl (lt_weightedMean ha (fun q hq => ?_) hp ?_)
    · exact_mod_cast (hspan q hq).2
    · exact sub_lt_self _ (by norm_num)

/-! ### Digits that stay whole -/

/-- No pixel of the digit leaves the frame. -/
def Kept (canvas : Image 28 28 ℚ) : Prop :=
  ∀ p, canvas p ≠ 0 → Stays (centerOffset canvas).1 (centerOffset canvas).2 p

theorem total_centered_iff {canvas : Image 28 28 ℚ} (hcanvas : ∀ p, 0 ≤ canvas p) :
    (centered canvas).total = canvas.total ↔ Kept canvas := by
  rw [centered, shiftInteger_eq, Image.total_moved_eq_iff hcanvas]
  rfl

theorem kept_iff (canvas : Image 28 28 ℚ) : Kept canvas ↔ ∀ p, canvas p ≠ 0 →
    Near p.1.val (centerOfMass canvas).1 ∧ Near p.2.val (centerOfMass canvas).2 := by
  simp only [near_iff]
  rfl

/-- The digit takes no more than 15 rows and 15 columns. -/
def Compact (canvas : Image 28 28 ℚ) : Prop :=
  ∀ p q, canvas p ≠ 0 → canvas q ≠ 0 →
    (p.1.val : ℤ) ≤ q.1.val + 14 ∧ (p.2.val : ℤ) ≤ q.2.val + 14

theorem near_middle (i : Fin 28) : Near i.val (27 / 2) := by
  have hlow : (0 : ℚ) ≤ (i.val : ℤ) := by exact_mod_cast Nat.zero_le _
  have hhigh : ((i.val : ℤ) : ℚ) ≤ 27 := by exact_mod_cast Nat.le_of_lt_succ i.isLt
  exact ⟨.inl (by linarith), .inl (by linarith)⟩

theorem Compact.kept {canvas : Image 28 28 ℚ} (h : Compact canvas) (hcanvas : ∀ p, 0 ≤ canvas p) :
    Kept canvas := by
  rw [kept_iff, centerOfMass_eq]
  intro p hp
  split_ifs with hempty
  · exact ⟨near_middle p.1, near_middle p.2⟩
  · constructor
    · apply near_weightedMean (fun q => (q.1.val : ℤ)) hcanvas hp
      intro q hq
      exact ⟨(h q p hq hp).1, sub_le_iff_le_add.mpr (h p q hp hq).1⟩
    · apply near_weightedMean (fun q => (q.2.val : ℤ)) hcanvas hp
      intro q hq
      exact ⟨(h q p hq hp).2, sub_le_iff_le_add.mpr (h p q hp hq).2⟩

theorem compact_paste (glyph : Image h w ℚ) (hh : h ≤ 15) (hw : w ≤ 15) :
    Compact (paste glyph) := by
  intro p q hp hq
  obtain ⟨hrow, hcolumn⟩ := inside_of_paste_ne_zero hp
  obtain ⟨hrow', hcolumn'⟩ := inside_of_paste_ne_zero hq
  omega

/-- The sides of the scaled glyph are at most the target. -/
theorem newSide_le (target : ℤ) {ch cw side : ℕ} (hside : side ≤ max ch cw) :
    (newSide target ch cw side : ℤ) ≤ clampTarget target := by
  have hone : 1 ≤ clampTarget target := le_max_left _ _
  have hscaled : side * scale target ch cw ≤ clampTarget target := by
    have hpos : (0 : ℚ) ≤ clampTarget target := by exact_mod_cast zero_le_one.trans hone
    unfold scale
    split_ifs with hmax
    · have hmax' : (0 : ℚ) < (max ch cw : ℕ) := Nat.cast_pos.mpr hmax
      rw [mul_div_left_comm]
      refine mul_le_of_le_one_right hpos ((div_le_one hmax').mpr (Nat.cast_le.mpr hside))
    · obtain rfl : side = 0 := by omega
      rw [Nat.cast_zero, zero_mul]
      exact hpos
  have hround : roundHalfEven (side * scale target ch cw) ≤ clampTarget target :=
    (roundHalfEven_le_iff _ _).mpr (.inl (by linarith))
  unfold newSide
  omega

/-- A digit that is scaled to 15 pixels at most stays whole, and so does any digit that takes
no more than 15 rows and columns. A larger one stays whole exactly if no pixel is too far from
the centre of mass, and exactly then the sum of the intensities stays the same. -/
theorem centering_keeps_digit (target : ℤ) (ch cw : ℕ) (glyph : Glyph target ch cw) :
    let canvas := paste (resized glyph)
    (clampTarget target ≤ 15 → Kept canvas ∧ (centered canvas).total = canvas.total) ∧
      (Compact canvas → Kept canvas ∧ (centered canvas).total = canvas.total) ∧
      (Kept canvas ↔ ∀ p, canvas p ≠ 0 →
        Near p.1.val (centerOfMass canvas).1 ∧ Near p.2.val (centerOfMass canvas).2) ∧
      ((centered canvas).total = canvas.total ↔ Kept canvas) := by
  intro canvas
  have hcanvas : ∀ p, 0 ≤ canvas p := paste_nonneg (resized_nonneg glyph)
  have htotal := total_centered_iff hcanvas
  have hcompact : Compact canvas → Kept canvas ∧ (centered canvas).total = canvas.total :=
    fun h => ⟨h.kept hcanvas, htotal.mpr (h.kept hcanvas)⟩
  refine ⟨fun hsmall => hcompact ?_, hcompact, kept_iff canvas, htotal⟩
  have hheight := newSide_le target (le_max_left ch cw)
  have hwidth := newSide_le target (le_max_right ch cw)
  exact compact_paste _ (by omega) (by omega)

/-! ### Digits that are cut -/

/-- A line whose first pixel is just bright enough for the crop. -/
def line : Image h w (BitVec 8) := fun p =>
  if p.2.val = 0 then 13 else if p.2.val + 1 = w then 255 else 0

theorem newSide_of_max {target ch cw side : ℕ} (hlow : 1 ≤ target) (hhigh : target ≤ 27)
    (hmax : max ch cw = target) : newSide target ch cw side = max 1 side := by
  have htarget : clampTarget target = target := by
    unfold clampTarget
    omega
  have hpos : (target : ℚ) ≠ 0 := by
    rw [Nat.cast_ne_zero]
    omega
  have hscale : scale target ch cw = 1 := by
    rw [scale, if_pos (by omega), hmax, htarget, Int.cast_natCast, div_self hpos]
  have hside : roundHalfEven (side : ℚ) = side := roundHalfEven_intCast side
  rw [newSide, hscale, mul_one, hside]
  omega

theorem paste_line (hh : h = 1) (hlow : 16 ≤ w) (hhigh : w ≤ 27) :
    paste (resized (line : Image h w (BitVec 8))) =
      Pi.single (13, ⟨(28 - w) / 2, by omega⟩) (13 / 255) +
        Pi.single (13, ⟨(28 - w) / 2 + w - 1, by omega⟩) 1 := by
  subst hh
  funext p
  have htop : (28 - (1 : ℕ) : ℤ).fdiv 2 = 13 := rfl
  have hleft : (28 - w : ℤ).fdiv 2 = ((28 - w) / 2 : ℕ) := by
    rw [Int.fdiv_eq_ediv_of_nonneg _ (by decide)]
    omega
  rw [paste_apply, htop, hleft, Pi.add_apply, Pi.single_apply, Pi.single_apply]
  simp only [Prod.ext_iff, Fin.ext_iff]
  have hmiddle : ((13 : Fin 28) : ℕ) = 13 := rfl
  by_cases hin : Inside 1 w (p.1.val - 13) (p.2.val - ((28 - w) / 2 : ℕ))
  · have hcolumn := place_column hin
    have hrow : p.1.val = 13 := by
      have := hin.1
      omega
    rw [Image.get_of_inside hin]
    generalize place hin = q at hcolumn ⊢
    simp only [hrow, hmiddle, true_and, resized, line]
    by_cases hfirst : p.2.val = (28 - w) / 2
    · rw [if_pos (by omega), if_pos hfirst, if_neg (by omega), add_zero]
      rfl
    · by_cases hlast : p.2.val = (28 - w) / 2 + w - 1
      · rw [if_neg (by omega), if_pos (by omega), if_neg hfirst, if_pos hlast, zero_add]
        exact div_self (show (255 : ℚ) ≠ 0 by norm_num)
      · rw [if_neg (by omega), if_neg (by omega), if_neg hfirst, if_neg hlast, zero_add]
        exact zero_div _
  · rw [Image.get_of_not_inside hin, if_neg, if_neg, add_zero]
    all_goals
      rintro ⟨hrow, hcolumn⟩
      apply hin
      unfold Inside
      omega

/-- Two pixels at least 15 columns apart, the far one much brighter. -/
theorem not_kept_two {a b : Fin 28 × Fin 28} (hab : a.2.val + 15 ≤ b.2.val) :
    ¬Kept (Pi.single a (13 / 255) + Pi.single b 1) := by
  have hne : a ≠ b := by
    rintro rfl
    omega
  have htotal : Image.total (Pi.single a (13 / 255) + Pi.single b 1 : Image 28 28 ℚ) =
      268 / 255 := by
    simp only [Image.total, Pi.add_apply, Finset.sum_add_distrib, Finset.sum_pi_single',
      Finset.mem_univ, if_true]
    norm_num
  have hmass : (Pi.single a (13 / 255) + Pi.single b 1 : Image 28 28 ℚ) a ≠ 0 := by
    rw [Pi.add_apply, Pi.single_eq_same, Pi.single_eq_of_ne hne, add_zero]
    norm_num
  have hcolumns : (a.2.val : ℚ) + 15 ≤ b.2.val := by exact_mod_cast hab
  have hcenter : (centerOfMass (Pi.single a (13 / 255) + Pi.single b 1)).2 =
      (a.2.val * (13 / 255) + b.2.val * 1) / (13 / 255 + 1) := by
    rw [centerOfMass_eq, htotal, if_neg (by norm_num)]
    exact weightedMean_single_add_single _ _ _ _ _
  rw [kept_iff]
  intro hnear
  have hfirst := (hnear a hmass).2.1
  rw [hcenter, Int.cast_natCast, div_lt_iff₀ (by norm_num), div_eq_iff (by norm_num)] at hfirst
  rcases hfirst with h | ⟨h, -⟩ <;> linarith

/-- The line is cut, since its mass is at the far end. -/
theorem not_kept_line (hh : h = 1) (hlow : 16 ≤ w) (hhigh : w ≤ 27) :
    ¬Kept (paste (resized (line : Image h w (BitVec 8)))) := by
  rw [paste_line hh hlow hhigh]
  apply not_kept_two
  dsimp only
  omega

theorem exists_cut {target : ℕ} (hlow : 16 ≤ target) (hhigh : target ≤ 27) :
    ∃ glyph : Glyph target 1 target, ¬Kept (paste (resized glyph)) := by
  have hmax : max 1 target = target := by omega
  refine ⟨line, not_kept_line ?_ ?_ ?_⟩
  · rw [newSide_of_max (by omega) hhigh hmax, max_self]
  · rw [newSide_of_max (by omega) hhigh hmax, hmax]
    exact hlow
  · rw [newSide_of_max (by omega) hhigh hmax, hmax]
    exact hhigh

theorem centering_cuts_digit :
    ¬∀ (target : ℤ) (ch cw : ℕ) (glyph : Glyph target ch cw), 1 ≤ target → target ≤ 27 →
      Kept (paste (resized glyph)) ∧
        (centered (paste (resized glyph))).total = (paste (resized glyph)).total := by
  intro h
  obtain ⟨glyph, hcut⟩ := exists_cut (show 16 ≤ 20 by decide) (by decide)
  exact hcut (h (20 : ℕ) 1 20 glyph (by decide) (by decide)).1

end AlteraWorkshops.FpgaAi
