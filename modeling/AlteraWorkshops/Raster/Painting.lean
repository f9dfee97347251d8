import Mathlib.Tactic.Common

/-! Operations that paint: the cells of an area get the ink, the other cells and the ink are kept.
A loop of such operations paints the union of the areas. -/

namespace AlteraWorkshops.Raster

variable {σ ι κ α : Type*} {cell : σ → ι → κ} {ink : σ → κ}

structure Paints (cell : σ → ι → κ) (ink : σ → κ) (area : ι → Prop) (op : σ → σ) : Prop where
  ink_eq : ∀ s, ink (op s) = ink s
  painted : ∀ s i, area i → cell (op s) i = ink s
  kept : ∀ s i, ¬area i → cell (op s) i = cell s i

namespace Paints

variable {area area' : ι → Prop} {op op' : σ → σ}

theorem id : Paints cell ink (fun _ => False) id where
  ink_eq _ := rfl
  painted _ _ h := h.elim
  kept _ _ _ := rfl

theorem congr (hop : Paints cell ink area op) (harea : ∀ i, area i ↔ area' i) :
    Paints cell ink area' op where
  ink_eq := hop.ink_eq
  painted s i h := hop.painted s i ((harea i).mpr h)
  kept s i h := hop.kept s i (mt (harea i).mp h)

theorem comp (hop' : Paints cell ink area' op') (hop : Paints cell ink area op) :
    Paints cell ink (fun i => area i ∨ area' i) (op' ∘ op) where
  ink_eq s := (hop'.ink_eq (op s)).trans (hop.ink_eq s)
  painted s i h := by
    change cell (op' (op s)) i = ink s
    by_cases hlater : area' i
    · rw [hop'.painted (op s) i hlater, hop.ink_eq]
    · rw [hop'.kept (op s) i hlater, hop.painted s i (h.resolve_right hlater)]
  kept s i h := by
    obtain ⟨hfirst, hlater⟩ := not_or.mp h
    exact (hop'.kept (op s) i hlater).trans (hop.kept s i hfirst)

theorem foldl {areas : α → ι → Prop} {ops : σ → α → σ}
    (hops : ∀ a, Paints cell ink (areas a) fun s => ops s a) (l : List α) :
    Paints cell ink (fun i => ∃ a ∈ l, areas a i) fun s => l.foldl ops s := by
  induction l with
  | nil => exact id.congr fun i => by simp
  | cons a l ih => exact (ih.comp (hops a)).congr fun i => by simp

/-- What holds of every cell and of the ink holds of every cell afterwards. -/
theorem forall_cell (hop : Paints cell ink area op) {p : κ → Prop} {s : σ} (hink : p (ink s))
    (hcell : ∀ i, p (cell s i)) (i : ι) : p (cell (op s) i) := by
  by_cases harea : area i
  · exact (hop.painted s i harea).symm ▸ hink
  · exact (hop.kept s i harea).symm ▸ hcell i

end Paints

end AlteraWorkshops.Raster
