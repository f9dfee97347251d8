import Mathlib.Algebra.Order.BigOperators.Group.Finset
import Mathlib.Data.Fintype.Prod
import Mathlib.Tactic.Common

/-! Images as arrays of rows, with the slices of an array library, and what becomes of an image
that is moved in its frame: what leaves the frame is lost, and the sum of the values tells
whether anything was. -/

namespace AlteraWorkshops.Raster

variable {h w : ℕ} {α : Type*}

/-- A pixel is given by its row and its column. -/
abbrev Image (h w : ℕ) (α : Type*) := Fin h × Fin w → α

/-! ### Slices -/

def Inside (h w : ℕ) (y x : ℤ) : Prop := (0 ≤ y ∧ y < h) ∧ 0 ≤ x ∧ x < w

instance (y x : ℤ) : Decidable (Inside h w y x) := inferInstanceAs (Decidable (_ ∧ _))

def place {y x : ℤ} (hin : Inside h w y x) : Fin h × Fin w :=
  (⟨y.toNat, by have := hin.1; omega⟩, ⟨x.toNat, by have := hin.2; omega⟩)

variable {y x : ℤ} {p q : Fin h × Fin w}

@[simp]
theorem place_row (hin : Inside h w y x) : ((place hin).1.val : ℤ) = y :=
  Int.toNat_of_nonneg hin.1.1

@[simp]
theorem place_column (hin : Inside h w y x) : ((place hin).2.val : ℤ) = x :=
  Int.toNat_of_nonneg hin.2.1

theorem inside_pixel (p : Fin h × Fin w) : Inside h w p.1.val p.2.val :=
  ⟨⟨Int.natCast_nonneg _, Int.ofNat_lt.mpr p.1.isLt⟩,
    Int.natCast_nonneg _, Int.ofNat_lt.mpr p.2.isLt⟩

namespace Image

/-- Zero outside. -/
def get [Zero α] (img : Image h w α) (y x : ℤ) : α :=
  if hin : Inside h w y x then img (place hin) else 0

theorem get_of_inside [Zero α] {img : Image h w α} (hin : Inside h w y x) :
    img.get y x = img (place hin) := dif_pos hin

theorem get_of_not_inside [Zero α] {img : Image h w α} (hout : ¬Inside h w y x) :
    img.get y x = 0 := dif_neg hout

/-- The slice that starts at row `y0` and column `x0`. -/
def slice [Zero α] (img : Image h w α) (y0 x0 y x : ℤ) : α := img.get (y0 + y) (x0 + x)

/-- `out[y0:y1, x0:x1] = source` -/
def assign (out : Image h w α) (y0 y1 x0 x1 : ℤ) (source : ℤ → ℤ → α) : Image h w α := fun p =>
  if (y0 ≤ p.1.val ∧ p.1.val < y1) ∧ x0 ≤ p.2.val ∧ p.2.val < x1 then
    source (p.1.val - y0) (p.2.val - x0)
  else out p

/-- The image moved down by `dy` and to the right by `dx`. -/
def moved [Zero α] (img : Image h w α) (dy dx : ℤ) : Image h w α := fun p =>
  img.get (p.1.val - dy) (p.2.val - dx)

def total [AddCommMonoid α] (img : Image h w α) : α := ∑ p, img p

end Image

/-! ### Moving -/

/-- The pixel is still in the frame after the move. -/
def Stays (dy dx : ℤ) (p : Fin h × Fin w) : Prop := Inside h w (p.1.val + dy) (p.2.val + dx)

instance (dy dx : ℤ) : DecidablePred (Stays dy dx : Fin h × Fin w → Prop) := fun _ =>
  inferInstanceAs (Decidable (Inside _ _ _ _))

variable {img : Image h w α} {dy dx : ℤ}

/-- Where the pixel is after the move. -/
def moveTo (hs : Stays dy dx p) : Fin h × Fin w := place hs

theorem moveTo_row (hs : Stays dy dx p) : ((moveTo hs).1.val : ℤ) = p.1.val + dy := place_row hs

theorem moveTo_column (hs : Stays dy dx p) : ((moveTo hs).2.val : ℤ) = p.2.val + dx :=
  place_column hs

/-- The way back. -/
theorem stays_moveTo {dy' dx' : ℤ} (hs : Stays dy dx p) (hy : dy' = -dy) (hx : dx' = -dx) :
    Stays dy' dx' (moveTo hs) := by
  rw [Stays, moveTo_row, moveTo_column, hy, hx, add_neg_cancel_right, add_neg_cancel_right]
  exact inside_pixel p

theorem moveTo_eq_iff (hs : Stays dy dx p) :
    moveTo hs = q ↔ (p.1.val : ℤ) + dy = q.1.val ∧ (p.2.val : ℤ) + dx = q.2.val := by
  rw [← moveTo_row hs, ← moveTo_column hs, Prod.ext_iff, Fin.ext_iff, Fin.ext_iff, Int.ofNat_inj,
    Int.ofNat_inj]

theorem Image.moved_moveTo [Zero α] (hs : Stays dy dx p) : img.moved dy dx (moveTo hs) = img p := by
  have hback : Stays (-dy) (-dx) (moveTo hs) := stays_moveTo hs rfl rfl
  have hvalue : img.moved dy dx (moveTo hs) = img (moveTo hback) := get_of_inside hback
  rw [hvalue, (moveTo_eq_iff hback).mpr ⟨?_, ?_⟩]
  · rw [moveTo_row, add_neg_cancel_right]
  · rw [moveTo_column, add_neg_cancel_right]

theorem Image.moved_of_not_stays [Zero α] (hs : ¬Stays (-dy) (-dx) p) : img.moved dy dx p = 0 :=
  get_of_not_inside hs

/-- The pixels that stay are those that fill the moved image. -/
theorem Image.total_moved [AddCommMonoid α] (img : Image h w α) (dy dx : ℤ) :
    (img.moved dy dx).total = ∑ p with Stays dy dx p, img p := by
  have hfilled : (img.moved dy dx).total =
      ∑ p : Fin h × Fin w with Stays (-dy) (-dx) p, img.moved dy dx p := by
    refine (Finset.sum_subset (Finset.filter_subset _ _) fun p _ hp => ?_).symm
    rw [Finset.mem_filter, not_and] at hp
    exact Image.moved_of_not_stays (hp (Finset.mem_univ p))
  rw [hfilled, eq_comm]
  refine Finset.sum_bij (fun p hp => moveTo (Finset.mem_filter.mp hp).2) (fun p hp => ?_)
    (fun p hp q hq hpq => ?_) (fun q hq => ?_) fun p hp => ?_
  · exact Finset.mem_filter.mpr ⟨Finset.mem_univ _, stays_moveTo _ rfl rfl⟩
  · rw [moveTo_eq_iff, moveTo_row, moveTo_column, add_left_inj, add_left_inj, Int.ofNat_inj,
      Int.ofNat_inj, ← Fin.ext_iff, ← Fin.ext_iff] at hpq
    exact Prod.ext hpq.1 hpq.2
  · have hq' := (Finset.mem_filter.mp hq).2
    have hs : Stays dy dx (moveTo hq') :=
      stays_moveTo hq' (neg_neg dy).symm (neg_neg dx).symm
    refine ⟨moveTo hq', Finset.mem_filter.mpr ⟨Finset.mem_univ _, hs⟩, ?_⟩
    rw [moveTo_eq_iff, moveTo_row, moveTo_column, neg_add_cancel_right, neg_add_cancel_right]
    exact ⟨rfl, rfl⟩
  · exact (Image.moved_moveTo _).symm

variable [AddCommMonoid α] [PartialOrder α] [IsOrderedCancelAddMonoid α]

/-- Nothing of the sum is lost if and only if nothing that counts leaves the frame. -/
theorem Image.total_moved_eq_iff (hnonneg : ∀ p, 0 ≤ img p) :
    (img.moved dy dx).total = img.total ↔ ∀ p, img p ≠ 0 → Stays dy dx p := by
  have hsplit : img.total =
      (img.moved dy dx).total + ∑ p with ¬Stays dy dx p, img p := by
    rw [Image.total_moved, Image.total, Finset.sum_filter_add_sum_filter_not]
  rw [hsplit, left_eq_add, Finset.sum_eq_zero_iff_of_nonneg fun p _ => hnonneg p]
  simp only [Finset.mem_filter, Finset.mem_univ, true_and]
  exact forall_congr' fun p => not_imp_comm

end AlteraWorkshops.Raster
