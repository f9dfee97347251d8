import AlteraWorkshops.Clocked.Delay
import AlteraWorkshops.Clocked.Trace
import AlteraWorkshops.Cnn.Package

/-! A raster image that comes over a stream, frame after frame without an end: pixel `k`
is pixel `k % width` of row `k / width`, and its values come in `cycles` edges in a row. -/

namespace AlteraWorkshops.Cnn

/-- The size of the frames and the number of edges that the values of a pixel take. -/
structure Format where
  width : ℕ
  height : ℕ
  cycles : ℕ

def Format.column (g : Format) (k : ℕ) : ℕ := k % g.width

def Format.row (g : Format) (k : ℕ) : ℕ := k / g.width % g.height

/-- The first pixel of the row after that of `k`. -/
def Format.nextRow (g : Format) (k : ℕ) : ℕ := g.width * (k / g.width + 1)

/-- From edge `lead k` on the stream shows the position of pixel `k`, and from edge
`arrive k` on it carries its values, `word k f` in the edge `f` of the pixel. -/
structure Delivers (g : Format) (inp : ℕ → Sample) (lead arrive : ℕ → ℕ)
    (word : ℕ → ℕ → CnnValues) : Prop where
  lead_le : ∀ k, lead k ≤ arrive k
  room : ∀ k, arrive k + g.cycles ≤ lead (k + 1)
  stream : ∀ k t, lead k ≤ t → t < lead (k + 1) → (inp t).stream =
    ⟨g.column k, g.row k, min (t - arrive k) (g.cycles - 1),
      decide (arrive k ≤ t ∧ t < arrive k + g.cycles)⟩
  data : ∀ k, ∀ f < g.cycles, (inp (arrive k + f)).data = word k f

/-- Nothing comes before the first position. -/
def Quiet (inp : ℕ → Sample) (lead : ℕ → ℕ) : Prop :=
  ∀ t < lead 0, (inp t).stream.dataValid = false ∧ (inp t).stream.column = 0

variable {g : Format} {inp : ℕ → Sample} {lead arrive : ℕ → ℕ} {word : ℕ → ℕ → CnnValues}
  {j k t : ℕ}

/-! ### Positions -/

theorem Format.lt_nextRow (hw : 0 < g.width) (k : ℕ) : k < g.nextRow k :=
  Nat.lt_mul_div_succ k hw

theorem Format.column_lt (hw : 0 < g.width) (k : ℕ) : g.column k < g.width := Nat.mod_lt k hw

/-- Inside a row the next pixel is in the next column. -/
theorem Format.succ_of_column_ne (h : g.column (k + 1) ≠ 0) :
    g.column (k + 1) = g.column k + 1 ∧ (k + 1) / g.width = k / g.width := by
  have hsucc := Nat.succ_div (a := k) (b := g.width)
  have hndvd : ¬g.width ∣ k + 1 := fun hd => h (Nat.mod_eq_zero_of_dvd hd)
  rw [if_neg hndvd, add_zero] at hsucc
  refine ⟨?_, hsucc⟩
  have h1 := Nat.div_add_mod k g.width
  have h2 := Nat.div_add_mod (k + 1) g.width
  rw [hsucc] at h2
  unfold column
  omega

theorem Format.succ_of_column_eq (h : g.column (k + 1) = 0) :
    g.column k + 1 = g.width ∧ (k + 1) / g.width = k / g.width + 1 := by
  have hsucc := Nat.succ_div (a := k) (b := g.width)
  have hdvd : g.width ∣ k + 1 := Nat.dvd_of_mod_eq_zero h
  rw [if_pos hdvd] at hsucc
  refine ⟨?_, hsucc⟩
  have h1 := Nat.div_add_mod k g.width
  have h2 := Nat.div_add_mod (k + 1) g.width
  rw [hsucc, Nat.mul_succ, show (k + 1) % g.width = 0 from h] at h2
  unfold column
  omega

/-- The pixels from `k` up to the next row are in the row of `k`, in their order. -/
theorem Format.same_row (hkj : k ≤ j) (hj : j < g.nextRow k) :
    j / g.width = k / g.width ∧ g.column j = g.column k + (j - k) := by
  rw [nextRow] at hj
  have hdiv : j / g.width = k / g.width := by
    apply le_antisymm
    · exact Nat.lt_succ_iff.mp (Nat.div_lt_of_lt_mul hj)
    · exact Nat.div_le_div_right hkj
  refine ⟨hdiv, ?_⟩
  have h1 := Nat.div_add_mod k g.width
  have h2 := Nat.div_add_mod j g.width
  rw [hdiv] at h2
  unfold column
  omega

theorem Format.row_congr (h : j / g.width = k / g.width) : g.row j = g.row k := by
  unfold row
  rw [h]

theorem Format.nextRow_congr (h : j / g.width = k / g.width) : g.nextRow j = g.nextRow k := by
  unfold nextRow
  rw [h]

/-! ### Edges -/

namespace Delivers

theorem lead_lt (h : Delivers g inp lead arrive word) (hc : 0 < g.cycles) (k : ℕ) :
    lead k < lead (k + 1) := by
  have h1 := h.lead_le k
  have h2 := h.room k
  omega

theorem lead_mono (h : Delivers g inp lead arrive word) (hc : 0 < g.cycles) : StrictMono lead :=
  strictMono_nat_of_lt_succ (h.lead_lt hc)

theorem arrive_lt (h : Delivers g inp lead arrive word) (hc : 0 < g.cycles) (k : ℕ) :
    arrive k < arrive (k + 1) := by
  have h1 := h.lead_le (k + 1)
  have h2 := h.room k
  omega

/-- Every edge from the first lead on shows one pixel. -/
theorem exists_pixel (h : Delivers g inp lead arrive word) (hc : 0 < g.cycles)
    (ht : lead 0 ≤ t) : ∃ k, lead k ≤ t ∧ t < lead (k + 1) :=
  Clocked.exists_interval (h.lead_mono hc) ht

/-- The pixel shown from the lead of `j` up to that of `k`. -/
theorem exists_pixel_between (h : Delivers g inp lead arrive word) (hc : 0 < g.cycles)
    (hj : lead j ≤ t) (hk : t < lead k) : ∃ i, j ≤ i ∧ i < k ∧ lead i ≤ t ∧ t < lead (i + 1) := by
  have h0 : lead 0 ≤ lead j := (h.lead_mono hc).monotone (Nat.zero_le j)
  obtain ⟨i, h1, h2⟩ := h.exists_pixel hc (h0.trans hj)
  refine ⟨i, ?_, ?_, h1, h2⟩
  · exact Nat.lt_succ_iff.mp ((h.lead_mono hc).lt_iff_lt.mp (hj.trans_lt h2))
  · exact (h.lead_mono hc).lt_iff_lt.mp (h1.trans_lt hk)

/-- The same images, `d` edges later. -/
theorem delayed (h : Delivers g inp lead arrive word) (d : ℕ) (i : Sample) :
    Delivers g (Clocked.delayed d i inp) (fun k => lead k + d) (fun k => arrive k + d) word := by
  refine ⟨fun k => Nat.add_le_add_right (h.lead_le k) d, fun k => ?_, fun k t h1 h2 => ?_,
    fun k f hf => ?_⟩
  · have hroom := h.room k
    omega
  · obtain ⟨u, rfl⟩ : ∃ u, t = u + d := ⟨t - d, by omega⟩
    rw [Clocked.delayed, if_neg (by omega), Nat.add_sub_cancel,
      h.stream k u (by omega) (by omega)]
    simp only [Nat.add_sub_add_right, Nat.add_le_add_iff_right, Nat.add_right_comm _ d,
      Nat.add_lt_add_iff_right]
  · rw [Clocked.delayed, if_neg (by omega), show arrive k + d + f - d = arrive k + f by omega]
    exact h.data k f hf

end Delivers

/-! ### Pixels at a steady pace -/

/-- A pixel every `period` edges, its position changing with its values. -/
def paced (g : Format) (period : ℕ) (word : ℕ → ℕ → CnnValues) (t : ℕ) : Sample where
  stream := ⟨g.column (t / period), g.row (t / period), min (t % period) (g.cycles - 1),
    decide (t % period < g.cycles)⟩
  data := word (t / period) (t % period)

theorem paced_delivers {period : ℕ} (hp : 0 < period) (hc : g.cycles ≤ period) :
    Delivers g (paced g period word) (period * ·) (period * ·) word := by
  have hdiv : ∀ k m, m < period → (period * k + m) / period = k := fun k m hm => by
    rw [Nat.mul_add_div hp, Nat.div_eq_of_lt hm, add_zero]
  have hmod : ∀ k m, m < period → (period * k + m) % period = m := fun k m hm => by
    rw [Nat.mul_add_mod, Nat.mod_eq_of_lt hm]
  refine ⟨fun k => le_rfl, fun k => ?_, fun k t h1 h2 => ?_, fun k f hf => ?_⟩
  · show period * k + _ ≤ period * (k + 1)
    rw [Nat.mul_succ]
    omega
  · rw [Nat.mul_succ] at h2
    obtain ⟨m, rfl⟩ : ∃ m, t = period * k + m := ⟨t - period * k, by omega⟩
    have hm : m < period := by omega
    have hvalid : m < g.cycles ↔
        period * k ≤ period * k + m ∧ period * k + m < period * k + g.cycles := by omega
    show CnnStream.mk _ _ _ _ = _
    simp only [hdiv k m hm, hmod k m hm, Nat.add_sub_cancel_left, hvalid]
  · have hm : f < period := by omega
    show word ((period * k + f) / period) ((period * k + f) % period) = _
    rw [hdiv k f hm, hmod k f hm]

end AlteraWorkshops.Cnn
