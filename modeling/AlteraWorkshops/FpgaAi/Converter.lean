import Mathlib.Data.BitVec
import AlteraWorkshops.FpgaAi.Shift
import AlteraWorkshops.Raster.BoundingBox

/-! The image converter from the pixels of a bitmap to the values for the network. The glyph is
made bright on a dark background, cropped, scaled, pasted in the middle of the frame and moved to
its centre of mass. The resampling of the image library is a parameter. -/

namespace AlteraWorkshops.FpgaAi.Converter

open Raster

variable {h w ch cw : ℕ}

inductive Resample
  | nearest
  | bilinear
  | bicubic
  | lanczos

/-- The options of the command line. -/
structure Options where
  noAutoInvert : Bool := false
  invert : Bool := false
  fgThresh : ℚ := 1 / 20
  target : ℤ := 20
  resample : Resample := .bilinear
  strict128 : Bool := false

/-- The resampling of an image to a new height and width. -/
abbrev Resizer :=
  Resample → {h w : ℕ} → Image h w (BitVec 8) → (newH newW : ℕ) → Image newH newW (BitVec 8)

/-! ### The script -/

/-- From 0, which is black, to 1, which is white. -/
def img01 (pil : Image h w (BitVec 8)) : Image h w ℚ := fun p => (pil p).toNat / 255

def mean (values : List ℚ) : ℚ := values.sum / values.length

/-- `b` -/
def borderWidth (h w : ℕ) : ℤ := min 8 (min (h / 4) (w / 4))

/-- The rows above and below and the columns on the left and on the right. The corners count
twice. -/
def border (img : Image h w ℚ) (b : ℤ) : List ℚ :=
  (img.window (.before b) .all).ravel ++ (img.window (.after (-b)) .all).ravel ++
    (img.window .all (.before b)).ravel ++ (img.window .all (.after (-b))).ravel

def autoInvertNeeded (img : Image h w ℚ) : Bool :=
  let b := borderWidth h w
  if b ≤ 0 then false else mean (border img b) > 1 / 2

def doInvert (options : Options) (img : Image h w ℚ) : Bool :=
  options.invert || (!options.noAutoInvert && autoInvertNeeded img)

/-- `1.0 - img01` if the image is to be inverted. -/
def inverted (invert : Bool) (img : Image h w ℚ) : Image h w ℚ := fun p =>
  if invert then 1 - img p else img p

/-- The image with a bright foreground and a dark background. -/
def foreground (options : Options) (pil : Image h w (BitVec 8)) : Image h w ℚ :=
  inverted (doInvert options (img01 pil)) (img01 pil)

def mask (fg : Image h w ℚ) (thresh : ℚ) : Finset (Fin h × Fin w) :=
  Finset.univ.filter fun p => fg p > thresh

def cropBbox (fg : Image h w ℚ) (thresh : ℚ) : Box :=
  if hany : (mask fg thresh).Nonempty then Box.around (mask fg thresh) hany
  else ⟨0, 0, w, h⟩

/-- `cropped`, given the box -/
def cropped (fg : Image h w ℚ) (box : Box) : Image ((Slice.between box.y0 box.y1).length h)
    ((Slice.between box.x0 box.x1).length w) ℚ :=
  fg.window (.between box.y0 box.y1) (.between box.x0 box.x1)

/-- `(cropped * 255.0).astype(np.uint8)` -/
def bytes (img : Image h w ℚ) : Image h w (BitVec 8) := fun p => BitVec.ofInt 8 ⌊img p * 255⌋

/-- The image library refuses an image without pixels. -/
def resized (resize : Resizer) (options : Options) (cropped : Image ch cw ℚ) :
    Option (Image (newSide options.target ch cw ch) (newSide options.target ch cw cw) ℚ) :=
  let newW := newSide options.target ch cw cw
  let newH := newSide options.target ch cw ch
  if (0 < ch ∧ 0 < cw) ∧ 0 < newH ∧ 0 < newW then
    some (FpgaAi.resized (resize options.resample (bytes cropped) newH newW))
  else none

def paste (glyph : Image h w ℚ) : Option (Image 28 28 ℚ) :=
  let canvas : Image 28 28 ℚ := fun _ => 0
  let top : ℤ := (28 - h : ℤ).fdiv 2
  let left : ℤ := (28 - w : ℤ).fdiv 2
  canvas.setWindow (.between top (top + h)) (.between left (left + w)) glyph

/-- `norm` -/
def norm (canvas : Image 28 28 ℚ) : Image 28 28 ℚ := fun p =>
  (canvas p - 1307 / 10000) / (3081 / 10000)

/-- What becomes of the crop. -/
def draw (resize : Resizer) (options : Options) (cropped : Image ch cw ℚ) : Option (List ℚ) := do
  let glyph ← resized resize options cropped
  let canvas ← paste glyph
  let (dy, dx) := centerOffset canvas
  let canvas ← shiftInteger canvas dy dx
  pure (norm canvas).ravel

/-- The values of the file, or nothing if an exception is raised. -/
def convert (resize : Resizer) (options : Options) (pil : Image h w (BitVec 8)) :
    Option (List ℚ) :=
  let fg := foreground options pil
  draw resize options (cropped fg (cropBbox fg options.fgThresh))

inductive Exit
  | inputSize (w h : ℕ)
  | exception

/-- The values of the file that is written. -/
def main (resize : Resizer) (options : Options) (pil : Image h w (BitVec 8)) :
    Except Exit (List ℚ) :=
  if options.strict128 ∧ (w ≠ 128 ∨ h ≠ 128) then .error (.inputSize w h)
  else (convert resize options pil).elim (.error .exception) .ok

/-- The size of the image is accepted. -/
def Options.Accepts (options : Options) (h w : ℕ) : Prop :=
  options.strict128 = true → w = 128 ∧ h = 128

/-! ### The crop -/

section Crop

variable (fg : Image h w ℚ) (thresh : ℚ)

theorem mem_mask (p : Fin h × Fin w) : p ∈ mask fg thresh ↔ thresh < fg p :=
  Finset.mem_filter_univ p

theorem placesOf_mask : Box.placesOf (mask fg thresh) = fun y x =>
    ∃ p : Fin h × Fin w, thresh < fg p ∧ (p.1.val : ℤ) = y ∧ (p.2.val : ℤ) = x := by
  funext y x
  exact propext (exists_congr fun p => and_congr_left' (mem_mask fg thresh p))

theorem mask_nonempty_iff : (mask fg thresh).Nonempty ↔ ∃ p, thresh < fg p :=
  exists_congr (mem_mask fg thresh)

variable {fg thresh}

/-- The box of the pixels above the threshold, if there are any. -/
theorem cropBbox_bounds (hany : ∃ p, thresh < fg p) :
    (cropBbox fg thresh).Bounds (Box.placesOf (mask fg thresh)) := by
  rw [cropBbox, dif_pos ((mask_nonempty_iff fg thresh).mpr hany)]
  exact Box.bounds_around _ _

theorem cropBbox_of_none (hnone : ¬∃ p, thresh < fg p) :
    cropBbox fg thresh = ⟨0, 0, w, h⟩ :=
  dif_neg (mt (mask_nonempty_iff fg thresh).mp hnone)

/-- The box is inside the image. -/
theorem cropBbox_inside (fg : Image h w ℚ) (thresh : ℚ) (hh : 0 < h) (hw : 0 < w) :
    let box := cropBbox fg thresh
    (0 ≤ box.y0 ∧ box.y0 < box.y1 ∧ box.y1 ≤ h) ∧ 0 ≤ box.x0 ∧ box.x0 < box.x1 ∧ box.x1 ≤ w := by
  intro box
  by_cases hany : ∃ p, thresh < fg p
  · have hbox : box.Bounds (Box.placesOf (mask fg thresh)) := cropBbox_bounds hany
    have hinside := hbox.inside
    have hnonempty := hbox.nonempty
    omega
  · have hbox : box = ⟨0, 0, w, h⟩ := cropBbox_of_none hany
    simp only [hbox]
    omega

end Crop

/-! ### The scaled glyph -/

theorem newSide_pos (target : ℤ) (ch cw side : ℕ) : 0 < newSide target ch cw side := by
  unfold newSide
  omega

/-- The longer side is as long as the target. -/
theorem newSide_longer (target : ℤ) {ch cw side : ℕ} (hpos : 0 < side) (hside : side = max ch cw) :
    (newSide target ch cw side : ℤ) = clampTarget target := by
  have hone : 1 ≤ clampTarget target := le_max_left _ _
  have hside' : (side : ℚ) ≠ 0 := Nat.cast_ne_zero.mpr hpos.ne'
  rw [newSide, scale, if_pos (hside ▸ hpos), ← hside, mul_div_cancel₀ _ hside',
    Numbers.roundHalfEven_intCast]
  omega

theorem clampTarget_le (target : ℤ) : clampTarget target ≤ 27 := by
  unfold clampTarget
  omega

/-- The part of an axis of the frame that the glyph takes. -/
theorem pasteWindow {n : ℕ} (hn : n ≤ 28) :
    Slice.Within 28 ((28 - n : ℤ).fdiv 2) ((28 - n : ℤ).fdiv 2 + n) := by
  rw [Int.fdiv_eq_ediv_of_nonneg _ (by decide)]
  constructor <;> omega

/-- A glyph that is no larger than the frame is pasted into it. -/
theorem paste_eq (glyph : Image h w ℚ) (hh : h ≤ 28) (hw : w ≤ 28) :
    paste glyph = some (FpgaAi.paste glyph) := by
  rw [paste, Image.setWindow_eq _ _ (pasteWindow hh) (pasteWindow hw) (by omega) (by omega),
    FpgaAi.paste]
  congr 2
  funext y x
  rw [Image.slice, zero_add, zero_add]

theorem draw_eq (resize : Resizer) (options : Options) (crop : Image ch cw ℚ) (hch : 0 < ch)
    (hcw : 0 < cw) : draw resize options crop = some (norm (centered (FpgaAi.paste
      (FpgaAi.resized (resize options.resample (bytes crop) (newSide options.target ch cw ch)
        (newSide options.target ch cw cw)))))).ravel := by
  have hsize := clampTarget_le options.target
  have hheight := newSide_le options.target (le_max_left ch cw)
  have hwidth := newSide_le options.target (le_max_right ch cw)
  rw [draw, resized, if_pos ⟨⟨hch, hcw⟩, newSide_pos _ _ _ _, newSide_pos _ _ _ _⟩]
  simp only [Option.bind_eq_bind, Option.bind_some]
  rw [paste_eq _ (by omega) (by omega), Option.bind_some]
  rw [shiftInteger_eq_some]
  rfl

/-! ### The whole script -/

theorem main_ok {resize : Resizer} {options : Options} {pil : Image h w (BitVec 8)}
    {values : List ℚ} (hsize : options.Accepts h w)
    (hconvert : convert resize options pil = some values) :
    main resize options pil = .ok values := by
  have haccepted : ¬(options.strict128 = true ∧ (w ≠ 128 ∨ h ≠ 128)) := by
    rintro ⟨hstrict, hrefused⟩
    have hsize' := hsize hstrict
    omega
  rw [main, if_neg haccepted, hconvert]
  rfl

/-- Everything that is written is a value for a pixel of the frame. -/
theorem draw_length {resize : Resizer} {options : Options} {crop : Image ch cw ℚ}
    {values : List ℚ} (hdraw : draw resize options crop = some values) : values.length = 784 := by
  simp only [draw, Option.bind_eq_bind, Option.bind_eq_some_iff, Option.pure_def,
    Option.some.injEq] at hdraw
  obtain ⟨_, _, _, _, canvas, _, rfl⟩ := hdraw
  exact Image.ravel_length _

/-- The sides of the crop. -/
theorem crop_sides (fg : Image h w ℚ) (thresh : ℚ) (hh : 0 < h) (hw : 0 < w) :
    let box := cropBbox fg thresh
    ((Slice.between box.y0 box.y1).length h : ℤ) = box.y1 - box.y0 ∧
      ((Slice.between box.x0 box.x1).length w : ℤ) = box.x1 - box.x0 := by
  intro box
  obtain ⟨⟨hy0, hy, hy1⟩, hx0, hx, hx1⟩ : (0 ≤ box.y0 ∧ box.y0 < box.y1 ∧ box.y1 ≤ h) ∧
      0 ≤ box.x0 ∧ box.x0 < box.x1 ∧ box.x1 ≤ w := cropBbox_inside _ _ hh hw
  exact ⟨Slice.Within.length_eq ⟨hy0, hy.le, hy1⟩, Slice.Within.length_eq ⟨hx0, hx.le, hx1⟩⟩

theorem convert_isSome (resize : Resizer) (options : Options) (pil : Image h w (BitVec 8))
    (hh : 0 < h) (hw : 0 < w) : ∃ values, convert resize options pil = some values := by
  have hinside := cropBbox_inside (foreground options pil) options.fgThresh hh hw
  have hsides := crop_sides (foreground options pil) options.fgThresh hh hw
  dsimp only at hinside hsides
  refine ⟨_, draw_eq resize options _ ?_ ?_⟩ <;> omega

/-- A side of the scaled glyph fits in its place in the frame. -/
theorem newSide_fits (target : ℤ) {ch cw side : ℕ} (hside : side ≤ max ch cw) :
    let newSide := newSide target ch cw side
    let margin : ℤ := (28 - newSide : ℤ).fdiv 2
    (1 ≤ newSide ∧ (newSide : ℤ) ≤ clampTarget target) ∧ 0 ≤ margin ∧ margin + newSide ≤ 28 := by
  have hle := newSide_le target hside
  have hsize := clampTarget_le target
  have hwindow := @pasteWindow (newSide target ch cw side) (by omega)
  exact ⟨⟨newSide_pos _ _ _ _, hle⟩, hwindow.nonneg, hwindow.le⟩

/-- An image that is accepted is converted: the box of the crop is that of the foreground, the
glyph scaled to the target fits in the frame, the shift reads and writes slices of one shape,
and there is a value for each pixel of the frame. -/
theorem converter_total (resize : Resizer) (options : Options) (pil : Image h w (BitVec 8))
    (hh : 0 < h) (hw : 0 < w) (hsize : options.Accepts h w) :
    let fg := foreground options pil
    let box := cropBbox fg options.fgThresh
    let ch := (Slice.between box.y0 box.y1).length h
    let cw := (Slice.between box.x0 box.x1).length w
    let newH := newSide options.target ch cw ch
    let newW := newSide options.target ch cw cw
    let top : ℤ := (28 - newH : ℤ).fdiv 2
    let left : ℤ := (28 - newW : ℤ).fdiv 2
    ((0 ≤ box.y0 ∧ box.y0 < box.y1 ∧ box.y1 ≤ h) ∧ 0 ≤ box.x0 ∧ box.x0 < box.x1 ∧ box.x1 ≤ w) ∧
      ((∃ p, options.fgThresh < fg p) → box.Bounds fun y x => ∃ p : Fin h × Fin w,
        options.fgThresh < fg p ∧ (p.1.val : ℤ) = y ∧ (p.2.val : ℤ) = x) ∧
      ((¬∃ p, options.fgThresh < fg p) → box = ⟨0, 0, w, h⟩) ∧
      ((ch : ℤ) = box.y1 - box.y0 ∧ (cw : ℤ) = box.x1 - box.x0) ∧
      ((1 ≤ newH ∧ (newH : ℤ) ≤ clampTarget options.target) ∧ 0 ≤ top ∧ top + newH ≤ 28) ∧
      ((1 ≤ newW ∧ (newW : ℤ) ≤ clampTarget options.target) ∧ 0 ≤ left ∧ left + newW ≤ 28) ∧
      ((cw ≤ ch → (newH : ℤ) = clampTarget options.target) ∧
        (ch ≤ cw → (newW : ℤ) = clampTarget options.target)) ∧
      (∀ d, 0 < extent 28 d → (targetSlice 28 d).length 28 = (sourceSlice 28 d).length 28) ∧
      ∃ values, main resize options pil = .ok values ∧ values.length = 784 := by
  intro fg box ch cw newH newW top left
  have hinside : (0 ≤ box.y0 ∧ box.y0 < box.y1 ∧ box.y1 ≤ h) ∧
      0 ≤ box.x0 ∧ box.x0 < box.x1 ∧ box.x1 ≤ w := cropBbox_inside _ _ hh hw
  have hsides : (ch : ℤ) = box.y1 - box.y0 ∧ (cw : ℤ) = box.x1 - box.x0 := crop_sides _ _ hh hw
  have hch : 0 < ch := by omega
  have hcw : 0 < cw := by omega
  refine ⟨hinside, fun hany => ?_, cropBbox_of_none, hsides, ?_, ?_, ⟨fun hle => ?_, fun hle => ?_⟩,
    fun d => length_targetSlice, ?_⟩
  · rw [← placesOf_mask]
    exact cropBbox_bounds hany
  · exact newSide_fits options.target (le_max_left ch cw)
  · exact newSide_fits options.target (le_max_right ch cw)
  · exact newSide_longer options.target hch (max_eq_left hle).symm
  · exact newSide_longer options.target hcw (max_eq_right hle).symm
  · obtain ⟨values, hvalues⟩ := convert_isSome resize options pil hh hw
    exact ⟨values, main_ok hsize hvalues, draw_length hvalues⟩

/-- The resampling that takes the pixel in the middle of what is scaled to one. -/
def nearest : Resizer := fun _ h w img newH newW p =>
  img.get ((2 * p.1.val + 1) * h / (2 * newH)) ((2 * p.2.val + 1) * w / (2 * newW))

/-- A seven, dark on a light ground. -/
def darkSeven : Image 8 6 (BitVec 8) := fun p =>
  if p.1.val = 1 ∧ 1 ≤ p.2.val ∧ p.2.val ≤ 4 ∨ p.2.val = 4 ∧ 1 ≤ p.1.val ∧ p.1.val ≤ 6 then 30
  else 250

theorem converter_total_seven :
    (∃ p, 1 / 20 < foreground {} darkSeven p) ∧ ∃ values,
      main nearest {} darkSeven = .ok values ∧ values.length = 784 := by
  refine ⟨⟨(1, 1), by decide +kernel⟩, ?_⟩
  exact (converter_total nearest {} darkSeven (by decide) (by decide)
    (by rintro ⟨⟩)).2.2.2.2.2.2.2.2

end AlteraWorkshops.FpgaAi.Converter
