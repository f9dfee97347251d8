import AlteraWorkshops.Raster.Image

/-! Slices of arrays whose ends may be left out, negative or beyond the array. A slice can always
be read. It can be written only if the shape of the source is that of the slice, where an axis
of length one is repeated. -/

namespace AlteraWorkshops.Raster

/-- A negative index counts from the end, and none leaves the array. -/
def clip (n : ℕ) (i : ℤ) : ℕ := min n (if i < 0 then i + n else i).toNat

theorem clip_le (n : ℕ) (i : ℤ) : clip n i ≤ n := min_le_left _ _

/-- `start:stop` -/
structure Slice where
  start : Option ℤ
  stop : Option ℤ

namespace Slice

/-- `:` -/
def all : Slice := ⟨none, none⟩

/-- `start:` -/
def after (start : ℤ) : Slice := ⟨some start, none⟩

/-- `:stop` -/
def before (stop : ℤ) : Slice := ⟨none, some stop⟩

def between (start stop : ℤ) : Slice := ⟨some start, some stop⟩

variable (s : Slice) {n : ℕ}

def first (n : ℕ) : ℕ := s.start.elim 0 (clip n)

def last (n : ℕ) : ℕ := s.stop.elim n (clip n)

def length (n : ℕ) : ℕ := s.last n - s.first n

theorem last_le (n : ℕ) : s.last n ≤ n := by
  unfold last
  cases s.stop with
  | none => exact le_rfl
  | some stop => exact clip_le n stop

/-- The place of an entry of the slice in the array. -/
def index (i : Fin (s.length n)) : Fin n :=
  ⟨s.first n + i.val, by
    have hi : i.val < s.last n - s.first n := i.isLt
    have := s.last_le n
    omega⟩

def Covers (i : Fin n) : Prop := s.first n ≤ i.val ∧ i.val < s.last n

instance : DecidablePred (s.Covers : Fin n → Prop) := fun _ => inferInstanceAs (Decidable (_ ∧ _))

variable {s}

/-- The place of an entry of the array in the slice. -/
def offset {i : Fin n} (hi : s.Covers i) : Fin (s.length n) :=
  ⟨i.val - s.first n, by
    obtain ⟨hfirst, hlast⟩ := hi
    unfold length
    omega⟩

end Slice

/-- An axis of length one is repeated. -/
def Fits (m n : ℕ) : Prop := m = n ∨ m = 1

instance (m n : ℕ) : Decidable (Fits m n) := inferInstanceAs (Decidable (_ ∨ _))

def Fits.index {m n : ℕ} (hfits : Fits m n) (i : Fin n) : Fin m :=
  if hone : m = 1 then ⟨0, by omega⟩ else ⟨i.val, (hfits.resolve_right hone).symm ▸ i.isLt⟩

theorem Fits.index_of_eq {m n : ℕ} (hmn : m = n) (hfits : Fits m n) (i : Fin n) :
    (hfits.index i).val = i.val := by
  unfold Fits.index
  split_ifs with hone
  · have := i.isLt
    dsimp only
    omega
  · rfl

variable {h w h' w' : ℕ} {α : Type*}

namespace Image

/-- `img[rows, columns]` -/
def window (img : Image h w α) (rows columns : Slice) :
    Image (rows.length h) (columns.length w) α := fun p => img (rows.index p.1, columns.index p.2)

/-- `out[rows, columns] = source`, and nothing if that is an error. -/
def setWindow (out : Image h w α) (rows columns : Slice) (source : Image h' w' α) :
    Option (Image h w α) :=
  if hfits : Fits h' (rows.length h) ∧ Fits w' (columns.length w) then
    some fun p =>
      if hin : rows.Covers p.1 ∧ columns.Covers p.2 then
        source (hfits.1.index (Slice.offset hin.1), hfits.2.index (Slice.offset hin.2))
      else out p
  else none

/-- The entries row by row. -/
def ravel (img : Image h w α) : List α :=
  (List.finRange h).flatMap fun y => (List.finRange w).map fun x => img (y, x)

theorem ravel_length (img : Image h w α) : img.ravel.length = h * w := by
  simp [ravel, List.length_flatMap]

theorem ravel_map {β : Type*} (f : α → β) (img : Image h w α) :
    ravel (fun p => f (img p)) = img.ravel.map f := by
  simp only [ravel, List.map_flatMap, List.map_map]
  rfl

end Image

/-! ### Ends inside the array -/

/-- A slice that needs no clipping. -/
structure Slice.Within (n : ℕ) (start stop : ℤ) : Prop where
  nonneg : 0 ≤ start
  ordered : start ≤ stop
  le : stop ≤ n

section Within

variable {n : ℕ} {start stop : ℤ}

theorem clip_of_mem {i : ℤ} (h0 : 0 ≤ i) (hn : i ≤ n) : (clip n i : ℤ) = i := by
  rw [clip, if_neg h0.not_gt]
  omega

namespace Slice.Within

theorem first_eq (hs : Slice.Within n start stop) :
    ((Slice.between start stop).first n : ℤ) = start :=
  clip_of_mem hs.nonneg (hs.ordered.trans hs.le)

theorem last_eq (hs : Slice.Within n start stop) :
    ((Slice.between start stop).last n : ℤ) = stop :=
  clip_of_mem (hs.nonneg.trans hs.ordered) hs.le

theorem length_eq (hs : Slice.Within n start stop) :
    ((Slice.between start stop).length n : ℤ) = stop - start := by
  have hfirst := hs.first_eq
  have hlast := hs.last_eq
  have hordered := hs.ordered
  unfold Slice.length
  omega

theorem covers_iff (hs : Slice.Within n start stop) (i : Fin n) :
    (Slice.between start stop).Covers i ↔ start ≤ i.val ∧ (i.val : ℤ) < stop := by
  have hfirst := hs.first_eq
  have hlast := hs.last_eq
  unfold Slice.Covers
  omega

theorem index_val (hs : Slice.Within n start stop) (i : Fin ((Slice.between start stop).length n)) :
    (((Slice.between start stop).index i).val : ℤ) = start + i.val := by
  have hfirst := hs.first_eq
  unfold Slice.index
  dsimp only
  omega

theorem offset_val (hs : Slice.Within n start stop) {i : Fin n}
    (hi : (Slice.between start stop).Covers i) :
    ((Slice.offset hi).val : ℤ) = i.val - start := by
  have hfirst := hs.first_eq
  have hle := hi.1
  unfold Slice.offset
  dsimp only
  omega

end Slice.Within

end Within

variable [Zero α] {y0 y1 x0 x1 : ℤ}

namespace Image

theorem get_pixel (img : Image h w α) (p : Fin h × Fin w) : img.get p.1.val p.2.val = img p := by
  rw [get_of_inside (inside_pixel p)]
  rfl

theorem get_eq (img : Image h w α) {y x : ℤ} {p : Fin h × Fin w} (hy : (p.1.val : ℤ) = y)
    (hx : (p.2.val : ℤ) = x) : img.get y x = img p := by
  rw [← hy, ← hx, get_pixel]

theorem get_window (img : Image h w α) (hrows : Slice.Within h y0 y1)
    (hcolumns : Slice.Within w x0 x1) {y x : ℤ}
    (hin : Inside ((Slice.between y0 y1).length h) ((Slice.between x0 x1).length w) y x) :
    (img.window (.between y0 y1) (.between x0 x1)).get y x = img.get (y0 + y) (x0 + x) := by
  rw [get_of_inside hin, window, get_eq]
  · rw [hrows.index_val, place_row]
  · rw [hcolumns.index_val, place_column]

/-- A source of the shape of the slice. -/
theorem setWindow_eq (out : Image h w α) (source : Image h' w' α) (hrows : Slice.Within h y0 y1)
    (hcolumns : Slice.Within w x0 x1) (hheight : (h' : ℤ) = y1 - y0) (hwidth : (w' : ℤ) = x1 - x0) :
    out.setWindow (.between y0 y1) (.between x0 x1) source =
      some (out.assign y0 y1 x0 x1 source.get) := by
  have hh : h' = (Slice.between y0 y1).length h := by
    have := hrows.length_eq
    omega
  have hw : w' = (Slice.between x0 x1).length w := by
    have := hcolumns.length_eq
    omega
  rw [setWindow, dif_pos ⟨.inl hh, .inl hw⟩]
  congr 1
  funext p
  simp only [assign, hrows.covers_iff, hcolumns.covers_iff]
  split_ifs with hin
  · refine (get_eq source ?_ ?_).symm
    · rw [Fits.index_of_eq hh, hrows.offset_val]
    · rw [Fits.index_of_eq hw, hcolumns.offset_val]
  · rfl

end Image

end AlteraWorkshops.Raster
