import AlteraWorkshops.Gui.App
import AlteraWorkshops.Raster.Painting
import Mathlib.Tactic.FinCases

/-! The two stores of the paint application, the pixel buffer and the rectangles of the canvas.
They are written together, so they show the same picture after any events. -/

namespace AlteraWorkshops.Gui

open Raster

/-- A logical pixel, given by its column and its row. -/
abbrev Cell := Fin width × Fin height

def Cell.rect (p : Cell) : Fin (width * height) :=
  ⟨p.2 * width + p.1, by
    have := p.1.isLt
    have := p.2.isLt
    unfold width height at *
    omega⟩

def Cell.byte (p : Cell) (k : Fin 3) : Fin (width * height * 3) :=
  ⟨3 * (width * p.2 + p.1) + k, by
    have := p.1.isLt
    have := p.2.isLt
    have := k.isLt
    unfold width height at *
    omega⟩

/-- The fill colour of a cell and its bytes R, G, B in the buffer. -/
def ImageSourceApp.cell (app : ImageSourceApp) (p : Cell) : String × (Fin 3 → BitVec 8) :=
  (app.fills[p.rect], fun k => app.pixels[p.byte k])

def shown (color : String) : String × (Fin 3 → BitVec 8) := (color, fun k => channel color k)

def ImageSourceApp.ink (app : ImageSourceApp) : String × (Fin 3 → BitVec 8) :=
  shown app.currentColor

/-! ### The places of a cell -/

theorem Cell.rect_inj (p q : Cell) : p.rect.val = q.rect.val ↔ p = q := by
  refine ⟨fun h => ?_, fun h => h ▸ rfl⟩
  have hp := p.1.isLt
  have hq := q.1.isLt
  simp only [Cell.rect] at h
  unfold width at *
  ext <;> omega

theorem Cell.byte_inj (p q : Cell) (j k : Fin 3) :
    (p.byte j).val = (q.byte k).val ↔ p = q ∧ j = k := by
  refine ⟨fun h => ?_, fun ⟨h, h'⟩ => h ▸ h' ▸ rfl⟩
  have hj := j.isLt
  have hk := k.isLt
  simp only [Cell.byte] at h
  have hpq : p = q := by
    rw [← Cell.rect_inj]
    simp only [Cell.rect, Nat.mul_comm _ width]
    omega
  subst hpq
  exact ⟨rfl, Fin.ext (by omega)⟩

/-! ### One paint event -/

/-- All the places that are written exist. -/
theorem setPixel_cell (app : ImageSourceApp) (q : Cell) : app.setPixel q.1.val q.2.val =
    { app with
      pixels := ((app.pixels.setIfInBounds (q.byte 0) (channel app.currentColor 0)).setIfInBounds
        (q.byte 1) (channel app.currentColor 1)).setIfInBounds (q.byte 2)
        (channel app.currentColor 2)
      fills := app.fills.setIfInBounds q.rect app.currentColor } := by
  have hrect : (q.2.val : ℤ).toNat * width + (q.1.val : ℤ).toNat = q.rect := rfl
  have hbyte : (q.rect : ℕ) * 3 = q.byte 0 := by
    simp only [Cell.rect, Cell.byte, Nat.mul_comm _ width, Nat.mul_comm _ 3]
    rfl
  have hin : 0 ≤ (q.1.val : ℤ) ∧ (q.1.val : ℤ) < width ∧ 0 ≤ (q.2.val : ℤ) ∧
      (q.2.val : ℤ) < height := by
    have := q.1.isLt
    have := q.2.isLt
    omega
  rw [ImageSourceApp.setPixel, if_pos hin]
  simp only [hrect, hbyte]
  rfl

theorem cell_setPixel (app : ImageSourceApp) (p q : Cell) :
    (app.setPixel q.1.val q.2.val).cell p = if p = q then app.ink else app.cell p := by
  rw [setPixel_cell]
  simp only [ImageSourceApp.cell, Fin.getElem_fin, Vector.getElem_setIfInBounds, Cell.byte_inj,
    Cell.rect_inj]
  by_cases h : p = q
  · simp only [h, true_and, if_true]
    refine Prod.ext rfl (funext fun k => ?_)
    fin_cases k <;> rfl
  · simp only [h, Ne.symm h, false_and, if_false]

theorem setPixel_paints (x y : ℤ) : Paints ImageSourceApp.cell ImageSourceApp.ink
    (fun p : Cell => (p.1.val : ℤ) = x ∧ (p.2.val : ℤ) = y) fun app => app.setPixel x y := by
  constructor
  · intro app
    unfold ImageSourceApp.setPixel
    split_ifs <;> rfl
  · rintro app p ⟨rfl, rfl⟩
    rw [cell_setPixel, if_pos rfl]
  · intro app p hp
    by_cases hin : 0 ≤ x ∧ x < width ∧ 0 ≤ y ∧ y < height
    · obtain ⟨hx, hx', hy, hy'⟩ := hin
      lift x to ℕ using hx
      lift y to ℕ using hy
      have hcell := cell_setPixel app p (⟨x, by omega⟩, ⟨y, by omega⟩)
      rw [if_neg] at hcell
      · exact hcell
      · rintro rfl
        exact hp ⟨rfl, rfl⟩
    · rw [ImageSourceApp.setPixel, if_neg hin]

theorem brush_paints (cx cy : ℤ) : Paints ImageSourceApp.cell ImageSourceApp.ink
    (fun p : Cell => ∃ dy ∈ brushOffsets, ∃ dx ∈ brushOffsets,
      (p.1.val : ℤ) = cx + dx ∧ (p.2.val : ℤ) = cy + dy) fun app => app.brush cx cy :=
  Paints.foldl (fun dy => Paints.foldl (fun dx => setPixel_paints (cx + dx) (cy + dy)) _) _

theorem mem_brushOffsets (d : ℤ) : d ∈ brushOffsets ↔ -1 ≤ d ∧ d ≤ 1 := by
  have hoffsets : brushOffsets = [-1, 0, 1] := by decide
  simp only [hoffsets, List.mem_cons, List.not_mem_nil, or_false]
  omega

/-- The cells that the brush covers when it is at column `cx` and row `cy`. -/
def Cell.Near (p : Cell) (cx cy : ℤ) : Prop := |p.1.val - cx| ≤ 1 ∧ |p.2.val - cy| ≤ 1

theorem covered_iff (p : Cell) (cx cy : ℤ) : (∃ dy ∈ brushOffsets, ∃ dx ∈ brushOffsets,
    (p.1.val : ℤ) = cx + dx ∧ (p.2.val : ℤ) = cy + dy) ↔ p.Near cx cy := by
  simp only [mem_brushOffsets, Cell.Near, abs_le]
  constructor
  · rintro ⟨dy, hdy, dx, hdx, hx, hy⟩
    omega
  · intro hnear
    exact ⟨p.2.val - cy, hnear.2, p.1.val - cx, hnear.1, by omega, by omega⟩

/-- An event paints nothing or the block around its cell. -/
theorem paintAtEvent_cases (app : ImageSourceApp) (x y : ℤ) :
    app.paintAtEvent x y = app ∨ app.mode = .paint ∧ app.paintAtEvent x y =
      { app with lastCenter := some (x / scale, y / scale) }.brush (x / scale) (y / scale) := by
  simp only [ImageSourceApp.paintAtEvent]
  split_ifs with hmode hout hlast
  · exact .inl rfl
  · exact .inl rfl
  · exact .inl rfl
  · exact .inr ⟨not_not.mp hmode, rfl⟩

theorem paintAtEvent_kept (app : ImageSourceApp) {x y : ℤ} {p : Cell}
    (hp : ¬p.Near (x / scale) (y / scale)) : (app.paintAtEvent x y).cell p = app.cell p := by
  rcases paintAtEvent_cases app x y with h | ⟨-, h⟩
  · rw [h]
  · rw [h, ((brush_paints _ _).congr fun p => covered_iff p _ _).kept _ p hp]
    rfl

/-! ### Any events -/

/-- The stores show the same colour of the palette in every cell. -/
structure ImageSourceApp.Consistent (app : ImageSourceApp) : Prop where
  color : app.currentColor ∈ palette
  cells : ∀ p, ∃ color ∈ palette, app.cell p = shown color

theorem ImageSourceApp.Consistent.paintAtEvent {app : ImageSourceApp} (h : app.Consistent)
    (x y : ℤ) : (app.paintAtEvent x y).Consistent := by
  rcases paintAtEvent_cases app x y with hkept | ⟨-, hpainted⟩
  · rw [hkept]
    exact h
  · rw [hpainted]
    have hbrush := brush_paints (x / scale) (y / scale)
    generalize hmoved : { app with lastCenter := some (x / scale, y / scale) } = moved
    have hcolor : moved.currentColor ∈ palette := hmoved ▸ h.color
    have hcells : ∀ p, ∃ color ∈ palette, moved.cell p = shown color := hmoved ▸ h.cells
    constructor
    · have hink : (moved.brush (x / scale) (y / scale)).currentColor = moved.currentColor :=
        congrArg Prod.fst (hbrush.ink_eq moved)
      rw [hink]
      exact hcolor
    · exact hbrush.forall_cell (p := fun c => ∃ color ∈ palette, c = shown color)
        ⟨_, hcolor, rfl⟩ hcells

theorem currentColor_mem {app : ImageSourceApp} (h : app.currentColorIndex < palette.length) :
    app.currentColor ∈ palette := by
  rw [ImageSourceApp.currentColor, List.getD_eq_getElem?_getD, List.getElem?_eq_getElem h]
  exact List.getElem_mem h

/-- The white canvas. -/
theorem cell_clear {app : ImageSourceApp} (hpixels : app.pixels = white)
    (hfills : app.fills = Vector.replicate _ defaultBg) (p : Cell) :
    app.cell p = shown defaultBg := by
  have hchannel (k : Fin 3) : channel defaultBg k = 255 := by
    fin_cases k <;> decide
  simp only [ImageSourceApp.cell, shown, hpixels, hfills, white, Fin.getElem_fin,
    Vector.getElem_replicate, hchannel]

theorem handle_consistent {s : Session} (h : s.app.Consistent) (e : Event) :
    (s.handle e).app.Consistent := by
  have hwhite : defaultBg ∈ palette := by decide
  cases e with
  | cameraSource => exact ⟨h.color, fun p => ⟨_, hwhite, cell_clear rfl rfl p⟩⟩
  | clear => exact ⟨h.color, fun p => ⟨_, hwhite, cell_clear rfl rfl p⟩⟩
  | leftDown x y => exact h.paintAtEvent x y
  | leftDrag x y => exact h.paintAtEvent x y
  | rightClick => exact ⟨currentColor_mem (Nat.mod_lt _ (by decide)), h.cells⟩
  | paintSource => exact ⟨h.color, h.cells⟩
  | save => exact ⟨h.color, h.cells⟩
  | leftUp => exact ⟨h.color, h.cells⟩

theorem after_consistent (digitBin : List (BitVec 8)) (vfbContent : Option (List (BitVec 8)))
    (hardware : Lab.Hardware) (events : List Event) :
    (after digitBin vfbContent hardware events).app.Consistent := by
  induction events using List.reverseRecOn with
  | nil =>
    have hblack : (0 : ℕ) < palette.length := by decide
    have hwhite : defaultBg ∈ palette := by decide
    exact ⟨currentColor_mem hblack, fun p => ⟨_, hwhite, cell_clear rfl rfl p⟩⟩
  | append_singleton events e ih =>
    rw [after, handleAll_append]
    exact handle_consistent ih e

/-- The bytes of every pixel are those of the fill colour of its rectangle, and a paint event
changes nothing but the cells around its own, and nothing at all in camera mode. -/
theorem buffer_matches_canvas (digitBin : List (BitVec 8)) (vfbContent : Option (List (BitVec 8)))
    (hardware : Lab.Hardware) (events : List Event) :
    let s := after digitBin vfbContent hardware events
    s.app.pixels.toList.length = 128 * 128 * 3 ∧
      (∀ p : Cell, s.app.fills[p.rect] ∈ palette ∧
        ∀ k : Fin 3, s.app.pixels[p.byte k] = channel s.app.fills[p.rect] k) ∧
      ∀ x y, ∀ e ∈ [Event.leftDown x y, Event.leftDrag x y],
        (s.app.mode = .camera → (s.handle e).app = s.app) ∧
          ∀ p : Cell, (s.handle e).app.cell p ≠ s.app.cell p → p.Near (x / scale) (y / scale) := by
  intro s
  refine ⟨Vector.length_toList .., fun p => ?_, fun x y e he => ?_⟩
  · obtain ⟨color, hcolor, hcell⟩ := (after_consistent digitBin vfbContent hardware events).cells p
    have hfill : s.app.fills[p.rect] = color := congrArg Prod.fst hcell
    have hbytes (k : Fin 3) : s.app.pixels[p.byte k] = channel color k :=
      congrFun (congrArg Prod.snd hcell) k
    rw [hfill]
    exact ⟨hcolor, hbytes⟩
  · have hhandle : (s.handle e).app = s.app.paintAtEvent x y := by
      simp only [List.mem_cons, List.not_mem_nil, or_false] at he
      rcases he with rfl | rfl <;> rfl
    rw [hhandle]
    refine ⟨fun hcamera => ?_, fun p hp => ?_⟩
    · rcases paintAtEvent_cases s.app x y with h | ⟨hpaint, -⟩
      · exact h
      · rw [hcamera] at hpaint
        cases hpaint
    · by_contra hfar
      exact hp (paintAtEvent_kept s.app hfar)

end AlteraWorkshops.Gui
