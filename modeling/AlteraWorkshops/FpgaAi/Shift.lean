import AlteraWorkshops.FpgaAi.Centering
import AlteraWorkshops.Raster.Slices

/-! The shift of the image converter, with the slices as the array library takes them. They are
read and written only where both windows lie in the image and have one shape, so the shift never
fails, however far it goes. -/

namespace AlteraWorkshops.FpgaAi.Converter

open Raster

variable {h w : ℕ} {α : Type*} [Zero α]

def shiftInteger (img : Image h w α) (dy dx : ℤ) : Option (Image h w α) :=
  let out : Image h w α := fun _ => 0
  let y0 := max 0 dy
  let x0 := max 0 dx
  let y1 := if dy < 0 then min (h : ℤ) (h + dy) else h
  let x1 := if dx < 0 then min (w : ℤ) (w + dx) else w
  let sy0 := max 0 (-dy)
  let sx0 := max 0 (-dx)
  let sy1 := sy0 + (y1 - y0)
  let sx1 := sx0 + (x1 - x0)
  if y1 - y0 > 0 ∧ x1 - x0 > 0 then
    out.setWindow (.between y0 y1) (.between x0 x1)
      (img.window (.between sy0 sy1) (.between sx0 sx1))
  else some out

/-! ### The slices of an axis -/

/-- `y1` or `x1` -/
def axisStop (n : ℕ) (d : ℤ) : ℤ := if d < 0 then min (n : ℤ) (n + d) else n

/-- How much of the axis is moved. Nothing is if it is not positive. -/
def extent (n : ℕ) (d : ℤ) : ℤ := axisStop n d - max 0 d

def targetSlice (n : ℕ) (d : ℤ) : Slice := .between (max 0 d) (axisStop n d)

def sourceSlice (n : ℕ) (d : ℤ) : Slice := .between (max 0 (-d)) (max 0 (-d) + extent n d)

theorem shiftInteger_slices (img : Image h w α) (dy dx : ℤ) : shiftInteger img dy dx =
    if extent h dy > 0 ∧ extent w dx > 0 then
      Image.setWindow (fun _ => 0) (targetSlice h dy) (targetSlice w dx)
        (img.window (sourceSlice h dy) (sourceSlice w dx))
    else some fun _ => 0 := rfl

variable {n : ℕ} {d : ℤ}

theorem axisStop_eq (n : ℕ) (d : ℤ) : axisStop n d = min (n : ℤ) (n + d) := by
  unfold axisStop
  split_ifs <;> omega

theorem within_target (hextent : 0 < extent n d) : Slice.Within n (max 0 d) (axisStop n d) := by
  unfold extent at hextent
  rw [axisStop_eq] at *
  constructor <;> omega

theorem within_source (hextent : 0 < extent n d) :
    Slice.Within n (max 0 (-d)) (max 0 (-d) + extent n d) := by
  unfold extent at *
  rw [axisStop_eq] at *
  constructor <;> omega

/-- The shapes agree. -/
theorem length_targetSlice (hextent : 0 < extent n d) :
    (targetSlice n d).length n = (sourceSlice n d).length n := by
  have htarget := (within_target hextent).length_eq
  have hsource := (within_source hextent).length_eq
  unfold targetSlice sourceSlice
  unfold extent at *
  omega

/-- The entries that are written are those that come from the image. -/
theorem written_iff (d : ℤ) (i : Fin n) :
    (max 0 d ≤ i.val ∧ i.val < axisStop n d) ↔ 0 ≤ i.val - d ∧ i.val - d < n := by
  rw [axisStop_eq]
  omega

/-! ### The shift -/

theorem shiftInteger_eq_moved (img : Image h w α) (dy dx : ℤ) :
    shiftInteger img dy dx = some (img.moved dy dx) := by
  have hwritten (p : Fin h × Fin w) :
      ((max 0 dy ≤ p.1.val ∧ p.1.val < axisStop h dy) ∧
        max 0 dx ≤ p.2.val ∧ p.2.val < axisStop w dx) ↔
        Inside h w (p.1.val - dy) (p.2.val - dx) :=
    and_congr (written_iff dy p.1) (written_iff dx p.2)
  rw [shiftInteger_slices]
  split_ifs with hguard
  · obtain ⟨hheight, hwidth⟩ := hguard
    have hrows : ((sourceSlice h dy).length h : ℤ) = axisStop h dy - max 0 dy :=
      (within_source hheight).length_eq.trans (add_sub_cancel_left _ _)
    have hcolumns : ((sourceSlice w dx).length w : ℤ) = axisStop w dx - max 0 dx :=
      (within_source hwidth).length_eq.trans (add_sub_cancel_left _ _)
    rw [targetSlice, targetSlice,
      Image.setWindow_eq _ _ (within_target hheight) (within_target hwidth) hrows hcolumns]
    congr 1
    funext p
    rw [Image.assign, Image.moved]
    split_ifs with hin
    · have hsource : Inside ((sourceSlice h dy).length h) ((sourceSlice w dx).length w)
          (p.1.val - max 0 dy) (p.2.val - max 0 dx) := by
        unfold Inside
        omega
      rw [sourceSlice, sourceSlice,
        Image.get_window _ (within_source hheight) (within_source hwidth) hsource]
      congr 1 <;> omega
    · exact (Image.get_of_not_inside fun h => hin ((hwritten p).mpr h)).symm
  · congr 1
    funext p
    refine (Image.get_of_not_inside fun h => hguard ?_).symm
    have hin := (hwritten p).mpr h
    unfold extent
    omega

/-- The shift never fails. Each entry comes from `dy` rows above and `dx` columns to the left,
or is zero if there is none. -/
theorem shiftInteger_spec (img : Image h w α) (dy dx : ℤ) :
    ∃ out : Image h w α, shiftInteger img dy dx = some out ∧ ∀ p : Fin h × Fin w,
      (∀ q : Fin h × Fin w, (q.1.val : ℤ) = p.1.val - dy → (q.2.val : ℤ) = p.2.val - dx →
        out p = img q) ∧
      (¬Inside h w (p.1.val - dy) (p.2.val - dx) → out p = 0) := by
  refine ⟨_, shiftInteger_eq_moved img dy dx, fun p => ⟨fun q hrow hcolumn => ?_, fun hout => ?_⟩⟩
  · exact Image.get_eq img hrow hcolumn
  · exact Image.get_of_not_inside hout

/-- The shift as the centring uses it. -/
theorem shiftInteger_eq_some (img : Image h w ℚ) (dy dx : ℤ) :
    shiftInteger img dy dx = some (FpgaAi.shiftInteger img dy dx) := by
  rw [shiftInteger_eq_moved, FpgaAi.shiftInteger_eq]

end AlteraWorkshops.FpgaAi.Converter
