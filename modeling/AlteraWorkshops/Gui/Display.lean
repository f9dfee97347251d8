import AlteraWorkshops.Gui.App
import Mathlib.Data.List.GetD

/-! The viewer of the video memory: `load_rgb_image` cuts or pads a file of any length
to the image size and reads it in row-major order. Behind Save, the import and the
export it shows the pixel buffer of the paint application. -/

namespace AlteraWorkshops.Gui

/-! ### `load_rgb_image` -/

/-- A C-ordered array of shape `(height, width, 3)`. -/
structure RgbImage (height width : ℕ) where
  data : List (BitVec 8)
  size : data.length = height * width * 3

theorem offset_lt {height width : ℕ} (y : Fin height) (x : Fin width) (c : Fin 3) :
    (y * width + x) * 3 + c < height * width * 3 := by
  have hrow : (y + 1) * width ≤ height * width := Nat.mul_le_mul_right width y.isLt
  have hx := x.isLt
  have hc := c.isLt
  rw [Nat.succ_mul] at hrow
  omega

def RgbImage.get {height width : ℕ} (image : RgbImage height width) (y : Fin height)
    (x : Fin width) (c : Fin 3) : BitVec 8 :=
  image.data.get ⟨(y * width + x) * 3 + c, image.size ▸ offset_lt y x c⟩

def reshape (data : List (BitVec 8)) (height width : ℕ) : Option (RgbImage height width) :=
  if h : data.length = height * width * 3 then some ⟨data, h⟩ else none

/-- The four cases of the length. -/
def fitted (rgbData : List (BitVec 8)) (expectedSize : ℕ) : List (BitVec 8) :=
  if rgbData.length ≠ expectedSize then
    if rgbData.length = expectedSize + 2 then rgbData.take (rgbData.length - 2)
    else if rgbData.length < expectedSize then
      rgbData ++ List.replicate (expectedSize - rgbData.length) 0
    else rgbData.take expectedSize
  else rgbData

/-- `none` is both a missing file and a failed reshape. -/
def loadRgbImage (file : Option (List (BitVec 8))) (width height : ℕ) :
    Option (RgbImage height width) :=
  file.bind fun rgbData => reshape (fitted rgbData (width * height * 3)) height width

/-- All four cases are one law. -/
theorem fitted_eq (rgbData : List (BitVec 8)) (n : ℕ) :
    fitted rgbData n = (rgbData ++ List.replicate n 0).take n := by
  unfold fitted
  rw [List.take_append, List.take_replicate]
  split_ifs with hne hextra hshort
  · have hn : rgbData.length - 2 = n := by omega
    rw [hn, Nat.sub_eq_zero_of_le (by omega), Nat.zero_min]
    simp
  · rw [List.take_of_length_le hshort.le, Nat.min_eq_left (Nat.sub_le ..)]
  · rw [Nat.sub_eq_zero_of_le (by omega), Nat.zero_min]
    simp
  · rw [List.take_of_length_le (by omega), Nat.sub_eq_zero_of_le (by omega), Nat.zero_min]
    simp

theorem length_fitted (rgbData : List (BitVec 8)) (n : ℕ) : (fitted rgbData n).length = n := by
  rw [fitted_eq]
  simp

theorem fitted_getD {rgbData : List (BitVec 8)} {n i : ℕ} (hi : i < n) :
    (fitted rgbData n).getD i 0 = rgbData.getD i 0 := by
  rw [fitted_eq, List.getD_eq_getElem?_getD, List.getElem?_take_of_lt hi]
  by_cases h : i < rgbData.length
  · rw [List.getElem?_append_left h, List.getD_eq_getElem?_getD]
  · rw [List.getElem?_append_right (by omega), List.getD_eq_default _ _ (by omega),
      List.getElem?_replicate, if_pos (by omega)]
    rfl

/-- A file of any length loads as its bytes, followed by zeros, in row-major order. -/
theorem loadRgbImage_some (content : List (BitVec 8)) (width height : ℕ) :
    ∃ image, loadRgbImage (some content) width height = some image ∧
      image.data = (content ++ List.replicate (width * height * 3) 0).take (width * height * 3) ∧
      ∀ y x c, image.get y x c = content.getD ((y * width + x) * 3 + c) 0 := by
  have hsize : (fitted content (width * height * 3)).length = height * width * 3 := by
    rw [length_fitted, Nat.mul_comm width height]
  refine ⟨⟨fitted content (width * height * 3), hsize⟩, ?_, fitted_eq _ _, fun y x c => ?_⟩
  · exact dif_pos hsize
  · have hlt := offset_lt y x c
    rw [Nat.mul_comm height width] at hlt
    rw [← fitted_getD hlt, List.getD_eq_getElem]
    rfl

/-! ### What is painted is what is displayed -/

def Session.exportRGB (s : Session) : Session :=
  { s with vfbContent := some (Lab.exportRGB s.hardware) }

/-- The start of the export is the saved buffer. -/
theorem exportRGB_onSave (s : Session) {i : ℕ} (hi : i < width * height * 3) :
    (Lab.exportRGB s.onSave.hardware).getD i 0 = s.app.pixels.toList.getD i 0 := by
  have hlength : s.app.pixels.toList.length = width * height * 3 := s.app.pixels.length_toList
  have hwhole : 4 * (s.app.pixels.toList.length / 4) = width * height * 3 := by
    rw [hlength]
    decide
  have hwindow : width * height * 3 ≤ 65536 := by decide
  have hmemory := (Lab.perform_paint s.hardware s.app.pixels.toList).2
  show ((List.range 65536).map (s.hardware.perform (Lab.paint s.app.pixels.toList)).memory).getD i 0
    = _
  rw [hmemory, List.getD_eq_getElem _ _ (by rw [List.length_map, List.length_range]; omega),
    List.getElem_map, List.getElem_range, hwhole, if_pos hi, Lab.fileByte]

/-- Saving, exporting and loading shows the pixel buffer; and a file of any length
loads as its bytes followed by zeros. -/
theorem painted_is_displayed :
    (∀ s : Session, ∃ image,
      loadRgbImage s.onSave.exportRGB.vfbContent width height = some image ∧
        ∀ (y : Fin height) (x : Fin width) (c : Fin 3),
          image.get y x c = s.app.pixels.toList.getD (3 * (width * y + x) + c) 0) ∧
      ∀ (content : List (BitVec 8)) (width height : ℕ), ∃ image,
        loadRgbImage (some content) width height = some image ∧
          image.data =
            (content ++ List.replicate (width * height * 3) 0).take (width * height * 3) ∧
          ∀ y x c, image.get y x c = content.getD ((y * width + x) * 3 + c) 0 := by
  refine ⟨fun s => ?_, loadRgbImage_some⟩
  obtain ⟨image, hload, -, hget⟩ :=
    loadRgbImage_some (Lab.exportRGB s.onSave.hardware) width height
  refine ⟨image, hload, fun y x c => ?_⟩
  have hlt := offset_lt y x c
  rw [Nat.mul_comm height width] at hlt
  have hindex : 3 * (width * y + x) + c = (y * width + x) * 3 + c := by ring
  rw [hget, exportRGB_onSave s hlt, hindex]

end AlteraWorkshops.Gui
