import AlteraWorkshops.Clocked.Latch
import AlteraWorkshops.OneAi.SlaveEdge

/-! The inference flag behind register 0. The last class of an inference sets it
and a read of register 0 clears it one cycle later. A read holds `avs_read` for two
cycles and both of them clear, so the second clear can hit an inference that
completed in between and that the first cycle did not report. -/

namespace AlteraWorkshops.OneAi

open Clocked

variable {g : Generics} {inp : ℕ → Ports} {starts : ℕ → Bool} {t r : ℕ}

/-- One client's reads of register 0: a read started in cycle `r` holds the bus in
`r` and `r + 1`, and its data is sampled in `r + 1`. -/
structure ReadsReady (inp : ℕ → Ports) (starts : ℕ → Bool) : Prop where
  apart : ∀ r, starts r = true → starts (r + 1) = false
  first : (inp 0).reads 0 = starts 0
  next : ∀ u, (inp (u + 1)).reads 0 = (starts (u + 1) || starts u)

/-- The read started in `r` is the first one sampled after cycle `t`. -/
structure FirstReadAfter (starts : ℕ → Bool) (t r : ℕ) : Prop where
  start : starts r = true
  after : t ≤ r
  first : ∀ u, t ≤ u → u < r → starts u = false

theorem newImageReady_next (hn : (inp t).resetN = true) :
    (run g inp (t + 1)).result.newImageReady =
      ((inp t).completes ||
        ((run g inp t).result.newImageReady && !(run g inp t).slave.newImageRead)) := by
  show (resultProcess (run g inp t) (inp t)).newImageReady = _
  have hlast : (outputDimensions 0).maxClasses - 1 = 9 := rfl
  simp only [resultProcess, Ports.completes, hn, Bool.not_true, Bool.false_eq_true, ↓reduceIte,
    hlast]
  by_cases hv : (inp t).oDataValid = true
  · by_cases hc : (inp t).oCycle1 = 9
    · simp [hv, hc]
    · have hc9 : ((inp t).oCycle1 == 9) = false := beq_eq_false_iff_ne.mpr hc
      cases h : (run g inp t).slave.newImageRead <;> simp [hv, hc, hc9] <;> split_ifs <;> rfl
  · cases h : (run g inp t).slave.newImageRead <;> simp [hv]

/-- The clear comes one cycle after a cycle of a read. -/
theorem newImageRead_next (hn : (inp t).resetN = true) :
    (run g inp (t + 1)).slave.newImageRead = (inp t).reads 0 := slave_newImageRead hn

theorem newImageReady_completed (hn : (inp t).resetN = true) (hc : (inp t).completes = true) :
    (run g inp (t + 1)).result.newImageReady = true := by
  rw [newImageReady_next hn, hc, Bool.true_or]

/-- A read returns the flag as it was when the read started. -/
theorem readdata_ready (hn : (inp r).resetN = true) (hr : (inp r).reads 0 = true) :
    (run g inp (r + 1)).slave.avsReaddata = 1 ↔
      (run g inp r).result.newImageReady = true := by
  show (slaveProcess g (run g inp r) (inp r)).avsReaddata = 1 ↔ _
  rw [slave_readdata_ready hn hr]
  cases (run g inp r).result.newImageReady <;> decide

theorem ReadsReady.reads_start (h : ReadsReady inp starts) (hr : starts r = true) :
    (inp r).reads 0 = true := by
  cases r with
  | zero => exact h.first.trans hr
  | succ r => rw [h.next, hr, Bool.true_or]

/-- Between the completion and the read only the second cycle of an earlier read
can be on the bus, and only in the cycle of the completion itself. -/
theorem ReadsReady.reads_between (h : ReadsReady inp starts) (hf : FirstReadAfter starts t r)
    {u : ℕ} (htu : t ≤ u) (hur : u < r) :
    (inp u).reads 0 = true ↔ u = t ∧ ∃ p, t = p + 1 ∧ starts p = true := by
  have hu := hf.first u htu hur
  cases u with
  | zero =>
    rw [h.first, hu]
    refine ⟨fun hfalse => absurd hfalse (by decide), ?_⟩
    rintro ⟨rfl, p, hp, -⟩
    omega
  | succ p =>
    rw [h.next, hu, Bool.false_or]
    constructor
    · intro hp
      have htp : t = p + 1 := by
        by_contra hne
        exact absurd hp (by simp [hf.first p (by omega) (by omega)])
      exact ⟨htp.symm, p, htp, hp⟩
    · rintro ⟨hpt, q, hq, hs⟩
      rwa [show p = q by omega]

/-- The flag at the start of a later read. -/
theorem newImageReady_at_read (h : ReadsReady inp starts) (hf : FirstReadAfter starts t r)
    (hn : ∀ u, t ≤ u + 1 → u ≤ r → (inp u).resetN = true) (hc : (inp t).completes = true)
    (htr : t < r) :
    (run g inp r).result.newImageReady = true ↔
      (¬∃ p, t = p + 1 ∧ starts p = true) ∨ r = t + 1 ∨
        ∃ c, t < c ∧ c < r ∧ (inp c).completes = true := by
  -- the clear in cycle `v + 1` comes from the bus in cycle `v`
  have hclr : ∀ v, t ≤ v → v + 1 < r → ((run g inp (v + 1)).slave.newImageRead = false ↔
      ¬(v = t ∧ ∃ p, t = p + 1 ∧ starts p = true)) := by
    intro v h1 h2
    rw [newImageRead_next (hn v (by omega) (by omega)), ← h.reads_between hf h1 (by omega),
      Bool.not_eq_true]
  have hlatch := setDominant_iff (q := fun u => (run g inp u).result.newImageReady)
    (show t + 1 ≤ r from htr) fun u h1 h2 => newImageReady_next (hn u (by omega) (by omega))
  rw [hlatch]
  constructor
  · rintro (⟨c, h1, h2, h3, -⟩ | ⟨-, h1⟩)
    · exact .inr (.inr ⟨c, h1, h2, h3⟩)
    · by_cases hr : r = t + 1
      · exact .inr (.inl hr)
      · exact .inl fun hp =>
          (hclr t le_rfl (by omega)).mp (h1 (t + 1) le_rfl (by omega)) ⟨rfl, hp⟩
  · have hready := newImageReady_completed (g := g) (hn t (by omega) (by omega)) hc
    rintro (hp | rfl | ⟨c, h1, h2, h3⟩)
    · refine .inr ⟨hready, fun u h1 h2 => ?_⟩
      obtain ⟨v, rfl⟩ : ∃ v, u = v + 1 := ⟨u - 1, by omega⟩
      exact (hclr v (by omega) h2).mpr fun hv => hp hv.2
    · exact .inr ⟨hready, fun u h1 h2 => by omega⟩
    · refine .inl ⟨c, h1, h2, h3, fun u h4 h5 => ?_⟩
      obtain ⟨v, rfl⟩ : ∃ v, u = v + 1 := ⟨u - 1, by omega⟩
      exact (hclr v (by omega) h5).mpr fun hv => by omega

/-- The first read sampled after a completion reports it exactly when it starts
later and the completion did not fall into the second cycle of an earlier read, or
is read at once, or is followed by another completion; a read that starts in the
completion's own cycle reports an earlier inference or none. -/
theorem completion_reported_iff (g : Generics) (inp : ℕ → Ports) (starts : ℕ → Bool) (t r : ℕ)
    (h : ReadsReady inp starts) (hf : FirstReadAfter starts t r)
    (hn : ∀ u, t ≤ u + 1 → u ≤ r → (inp u).resetN = true) (hc : (inp t).completes = true) :
    (run g inp (r + 1)).slave.avsReaddata = 1 ↔
      (r = t ∧ (run g inp t).result.newImageReady = true) ∨
        (t < r ∧ ((¬∃ p, t = p + 1 ∧ starts p = true) ∨ r = t + 1 ∨
          ∃ c, t < c ∧ c < r ∧ (inp c).completes = true)) := by
  rw [readdata_ready (hn r (by have := hf.after; omega) le_rfl) (h.reads_start hf.start)]
  rcases hf.after.eq_or_lt with rfl | htr
  · simp
  · rw [newImageReady_at_read h hf hn hc htr]
    simp [htr, htr.ne']

/-! ### Two schedules

One inference completes in cycle 1. -/

def readyPorts (starts : ℕ → Bool) (t : ℕ) : Ports :=
  { Ports.silent with
    avsRead := starts t || (t != 0 && starts (t - 1)), oDataValid := t == 1, oCycle1 := 9 }

theorem readyPorts_reads (h : ∀ r, starts r = true → starts (r + 1) = false) :
    ReadsReady (readyPorts starts) starts where
  apart := h
  first := by simp [Ports.reads, readyPorts, Ports.silent]
  next u := by simp [Ports.reads, readyPorts, Ports.silent]

/-- A read that starts in cycle 3 reports it. -/
theorem completion_reported_three :
    let g : Generics := ⟨0x80000, fun _ => 0⟩
    let inp := readyPorts fun r => r == 3
    (run g inp 4).slave.avsReaddata = 1 ↔
      (3 = 1 ∧ (run g inp 1).result.newImageReady = true) ∨
        (1 < 3 ∧ ((¬∃ p, 1 = p + 1 ∧ (p == 3) = true) ∨ 3 = 1 + 1 ∨
          ∃ c, 1 < c ∧ c < 3 ∧ (inp c).completes = true)) := by
  intro g inp
  exact completion_reported_iff g inp (fun r => r == 3) 1 3
    (readyPorts_reads fun r hr => by simp_all)
    ⟨rfl, by decide, fun u _ h => by simp; omega⟩ (fun _ _ _ => rfl) rfl

/-- With a read in cycles 0 and 1 as well, the read in cycles 4 and 5 returns 0. -/
theorem completion_unreported :
    ¬∀ (g : Generics) (inp : ℕ → Ports) (starts : ℕ → Bool) (t r : ℕ),
      ReadsReady inp starts → FirstReadAfter starts t r →
      (∀ u, (inp u).resetN = true) → (inp t).completes = true →
      (run g inp (r + 1)).slave.avsReaddata = 1 := by
  intro h
  have hread := h ⟨0x80000, fun _ => 0⟩ (readyPorts fun r => r == 0 || r == 4)
    (fun r => r == 0 || r == 4) 1 4
    (readyPorts_reads fun r hr => by simp at hr ⊢; omega)
    ⟨rfl, by decide, fun u _ h => by simp; omega⟩ (fun _ => rfl) rfl
  exact absurd hread (by decide)

end AlteraWorkshops.OneAi
