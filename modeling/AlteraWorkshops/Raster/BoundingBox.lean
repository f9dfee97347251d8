import AlteraWorkshops.Raster.Image

/-! The bounding box of a set of places. It is the only box that contains the set and has one of
its places on each side, so it moves with the set. -/

namespace AlteraWorkshops.Raster

/-- From row `y0` and column `x0` to before row `y1` and column `x1`. -/
@[ext]
structure Box where
  x0 : ℤ
  y0 : ℤ
  x1 : ℤ
  y1 : ℤ
deriving DecidableEq

namespace Box

def Contains (box : Box) (y x : ℤ) : Prop :=
  (box.y0 ≤ y ∧ y < box.y1) ∧ box.x0 ≤ x ∧ x < box.x1

/-- The places are given by row and column. -/
structure Bounds (box : Box) (places : ℤ → ℤ → Prop) : Prop where
  contains : ∀ y x, places y x → box.Contains y x
  top : ∃ x, places box.y0 x
  bottom : ∃ x, places (box.y1 - 1) x
  left : ∃ y, places y box.x0
  right : ∃ y, places y (box.x1 - 1)

def moved (box : Box) (dy dx : ℤ) : Box :=
  ⟨box.x0 + dx, box.y0 + dy, box.x1 + dx, box.y1 + dy⟩

variable {box box' : Box} {places : ℤ → ℤ → Prop}

theorem Bounds.nonempty (hbox : box.Bounds places) : box.y0 < box.y1 ∧ box.x0 < box.x1 := by
  obtain ⟨x, htop⟩ := hbox.top
  obtain ⟨hrow, hcolumn⟩ := hbox.contains _ _ htop
  omega

theorem Bounds.unique (hbox : box.Bounds places) (hbox' : box'.Bounds places) : box = box' := by
  obtain ⟨_, htop⟩ := hbox.top
  obtain ⟨_, hbottom⟩ := hbox.bottom
  obtain ⟨_, hleft⟩ := hbox.left
  obtain ⟨_, hright⟩ := hbox.right
  obtain ⟨_, htop'⟩ := hbox'.top
  obtain ⟨_, hbottom'⟩ := hbox'.bottom
  obtain ⟨_, hleft'⟩ := hbox'.left
  obtain ⟨_, hright'⟩ := hbox'.right
  have hy0 : box.y0 = box'.y0 :=
    le_antisymm (hbox.contains _ _ htop').1.1 (hbox'.contains _ _ htop).1.1
  have hx0 : box.x0 = box'.x0 :=
    le_antisymm (hbox.contains _ _ hleft').2.1 (hbox'.contains _ _ hleft).2.1
  have hy1 : box.y1 = box'.y1 := by
    have := (hbox.contains _ _ hbottom').1.2
    have := (hbox'.contains _ _ hbottom).1.2
    omega
  have hx1 : box.x1 = box'.x1 := by
    have := (hbox.contains _ _ hright').2.2
    have := (hbox'.contains _ _ hright).2.2
    omega
  exact Box.ext hx0 hy0 hx1 hy1

theorem Bounds.moved (hbox : box.Bounds places) (dy dx : ℤ) :
    (box.moved dy dx).Bounds fun y x => places (y - dy) (x - dx) := by
  have hback (a d : ℤ) : a + d - 1 - d = a - 1 := by omega
  obtain ⟨x, htop⟩ := hbox.top
  obtain ⟨x', hbottom⟩ := hbox.bottom
  obtain ⟨y, hleft⟩ := hbox.left
  obtain ⟨y', hright⟩ := hbox.right
  constructor
  · intro y x hplace
    have hin := hbox.contains _ _ hplace
    simp only [Contains, Box.moved] at hin ⊢
    omega
  · exact ⟨x + dx, by simpa [Box.moved] using htop⟩
  · exact ⟨x' + dx, by simpa [Box.moved, hback] using hbottom⟩
  · exact ⟨y + dy, by simpa [Box.moved] using hleft⟩
  · exact ⟨y' + dy, by simpa [Box.moved, hback] using hright⟩

variable {h w : ℕ}

/-- The least and the greatest row and column of a mask. -/
def around (mask : Finset (Fin h × Fin w)) (hany : mask.Nonempty) : Box where
  x0 := mask.inf' hany fun p => (p.2.val : ℤ)
  y0 := mask.inf' hany fun p => (p.1.val : ℤ)
  x1 := mask.sup' hany (fun p => (p.2.val : ℤ)) + 1
  y1 := mask.sup' hany (fun p => (p.1.val : ℤ)) + 1

/-- The places of the pixels of a mask. -/
def placesOf (mask : Finset (Fin h × Fin w)) (y x : ℤ) : Prop :=
  ∃ p ∈ mask, (p.1.val : ℤ) = y ∧ (p.2.val : ℤ) = x

theorem bounds_around (mask : Finset (Fin h × Fin w)) (hany : mask.Nonempty) :
    (around mask hany).Bounds (placesOf mask) := by
  constructor
  · rintro _ _ ⟨p, hp, rfl, rfl⟩
    refine ⟨⟨?_, Int.lt_add_one_of_le ?_⟩, ?_, Int.lt_add_one_of_le ?_⟩
    · exact mask.inf'_le (fun p => (p.1.val : ℤ)) hp
    · exact mask.le_sup' (fun p => (p.1.val : ℤ)) hp
    · exact mask.inf'_le (fun p => (p.2.val : ℤ)) hp
    · exact mask.le_sup' (fun p => (p.2.val : ℤ)) hp
  · obtain ⟨p, hp, hrow⟩ := mask.exists_mem_eq_inf' hany fun p => (p.1.val : ℤ)
    exact ⟨p.2.val, p, hp, hrow.symm, rfl⟩
  · obtain ⟨p, hp, hrow⟩ := mask.exists_mem_eq_sup' hany fun p => (p.1.val : ℤ)
    exact ⟨p.2.val, p, hp, hrow.symm.trans (add_sub_cancel_right _ 1).symm, rfl⟩
  · obtain ⟨p, hp, hcolumn⟩ := mask.exists_mem_eq_inf' hany fun p => (p.2.val : ℤ)
    exact ⟨p.1.val, p, hp, rfl, hcolumn.symm⟩
  · obtain ⟨p, hp, hcolumn⟩ := mask.exists_mem_eq_sup' hany fun p => (p.2.val : ℤ)
    exact ⟨p.1.val, p, hp, rfl, hcolumn.symm.trans (add_sub_cancel_right _ 1).symm⟩

theorem Bounds.inside (mask : Finset (Fin h × Fin w)) (hbox : box.Bounds (placesOf mask)) :
    (0 ≤ box.y0 ∧ box.y1 ≤ h) ∧ 0 ≤ box.x0 ∧ box.x1 ≤ w := by
  obtain ⟨_, a, _, htop, -⟩ := hbox.top
  obtain ⟨_, b, _, hbottom, -⟩ := hbox.bottom
  obtain ⟨_, c, _, -, hleft⟩ := hbox.left
  obtain ⟨_, d, _, -, hright⟩ := hbox.right
  have := b.1.isLt
  have := d.2.isLt
  omega

end Box

end AlteraWorkshops.Raster
