import AlteraWorkshops.ImageSource.Status
import AlteraWorkshops.OneAi.Triggers

/-! Paint mode on one clock: the interrupt of `image_source` drives the frame interrupt
of the pixel reader. The interrupt rises once in every period of the pulse generator,
and with at most 15 wait cycles a read the longest frame is shorter than a period, so
the reader is idle without an event whenever the next edge comes. -/

namespace AlteraWorkshops.Lab

open Clocked OneAi

/-- The interrupt output in every cycle of a run. -/
def irqLine (src : ℕ → ImageSource.Ports) (t : ℕ) : Bool :=
  ImageSource.irq (ImageSource.run src t) (src t)

/-- The count of the pulse generator. -/
def phase (src : ℕ → ImageSource.Ports) (t : ℕ) : ℕ := (ImageSource.run src t).pg.cnt.toNat

/-- From cycle `t₀` on both blocks are out of reset, the pulse is the only enabled
source, and the interrupt drives the reader. -/
structure PaintMode (inp : ℕ → Ports) (src : ℕ → ImageSource.Ports) (t₀ : ℕ) : Prop where
  resetN : ∀ t, t₀ ≤ t → (inp t).resetN = true
  srcResetN : ∀ t, t₀ ≤ t → (src t).resetN = true
  irqEn : ∀ t, t₀ ≤ t → (ImageSource.run src t).irqEn = 1
  wired : ∀ t, t₀ ≤ t → (inp t).frameWriterIrq = irqLine src t

variable {g : Generics} {inp : ℕ → Ports} {src : ℕ → ImageSource.Ports} {t₀ e e' t : ℕ}

/-! ### Edges of the interrupt -/

theorem phase_lt (src : ℕ → ImageSource.Ports) (t : ℕ) : phase src t < ImageSource.periodCycles :=
  (ImageSource.pg_valid src t).cnt

section Edges

variable (hm : PaintMode inp src t₀)
include hm

theorem PaintMode.irqLine_eq (ht : t₀ ≤ t) :
    irqLine src t = decide (1 ≤ phase src t ∧ phase src t ≤ ImageSource.pulseCycles) := by
  rw [irqLine, ImageSource.irq_pulse (hm.irqEn t ht), (ImageSource.pg_valid src t).pulse]
  rfl

theorem PaintMode.phase_add (ht : t₀ ≤ t) (n : ℕ) :
    phase src (t + n) = (phase src t + n) % ImageSource.periodCycles :=
  ImageSource.pg_cnt_add (fun u hu => hm.srcResetN u (ht.trans hu)) n

theorem PaintMode.rises_iff (ht : t₀ < t) : Rises (irqLine src) t ↔ phase src t = 1 := by
  obtain ⟨t, rfl⟩ : ∃ u, t = u + 1 := ⟨t - 1, by omega⟩
  have hlt := phase_lt src t
  have hadd := hm.phase_add (show t₀ ≤ t by omega) 1
  rw [rises_succ, hm.irqLine_eq (by omega), hm.irqLine_eq (by omega), decide_eq_true_eq,
    decide_eq_false_iff_not, hadd]
  unfold ImageSource.periodCycles at hlt ⊢
  unfold ImageSource.pulseCycles
  omega

/-- The edge detector of the reader sees the edges of the interrupt. -/
theorem PaintMode.risingEdge_iff (ht : t₀ < t) :
    risingEdge (run g inp t) (inp t) = true ↔ Rises (irqLine src) t := by
  obtain ⟨t, rfl⟩ : ∃ u, t = u + 1 := ⟨t - 1, by omega⟩
  rw [OneAi.risingEdge_iff (hm.resetN t (by omega)), rises_succ, rises_succ,
    hm.wired _ (by omega), hm.wired _ (by omega)]

/-- Between edges a period apart there is no edge. -/
theorem PaintMode.not_rises (ht : t₀ ≤ e) (he : phase src e = 1) {u : ℕ} (h1 : e < u)
    (h2 : u < e + ImageSource.periodCycles) : ¬Rises (irqLine src) u := by
  obtain ⟨n, rfl⟩ : ∃ n, u = e + n := ⟨u - e, by omega⟩
  rw [hm.rises_iff (by omega), hm.phase_add ht, he]
  unfold ImageSource.periodCycles at h2 ⊢
  omega

/-- The next edge comes a period later. -/
theorem PaintMode.consecutive (ht : t₀ < e) (he : phase src e = 1) :
    Consecutive (irqLine src) e (e + ImageSource.periodCycles) where
  first := (hm.rises_iff ht).mpr he
  next := by
    rw [hm.rises_iff (by omega), hm.phase_add ht.le, he, Nat.add_mod_right]
    decide
  lt := Nat.lt_add_of_pos_right ImageSource.periodCycles_pos
  none _ h1 h2 := hm.not_rises ht.le he h1 h2

end Edges

/-! ### One period -/

/-- The trigger of a frame and its longest duration fit into a period. -/
theorem frameCycles_lt_period : 1 + frameCycles 15 < ImageSource.periodCycles := by decide

/-- Every read is accepted after at most 15 wait cycles. -/
def ShortWaits (g : Generics) (inp : ℕ → Ports) (t₀ : ℕ) : Prop :=
  ∀ t, t₀ ≤ t → (run g inp t).pixel.avmRead = true →
    ∃ w ≤ 15, (inp (t + w)).avmWaitrequest = false

theorem PaintMode.accepting (hm : PaintMode inp src t₀) (hw : ShortWaits g inp t₀)
    (ht : t₀ ≤ t) : Accepting (run g inp) inp (some 15) t where
  resetN u hu := hm.resetN u (by omega)
  accepts u hu hread := by
    obtain ⟨w, hle, hacc⟩ := hw u (by omega) hread
    refine ⟨u + w, by omega, hacc, fun w' hw' => ?_⟩
    rw [← Option.mem_some_iff.mp hw']
    omega

/-- From a quiet edge to the next edge. -/
theorem PaintMode.oneFrame (hm : PaintMode inp src t₀) (hw : ShortWaits g inp t₀) (ht : t₀ < e)
    (he : phase src e = 1) (hq : Quiet (run g inp e)) :
    ∃ buf T, OneFrame g inp e (e + ImageSource.periodCycles) buf T := by
  have hperiod := frameCycles_lt_period
  refine hq.oneFrame (hm.accepting hw ht.le) ?_ (fun u h1 h2 => ?_) (by omega)
  · exact (hm.risingEdge_iff ht).mpr ((hm.rises_iff ht).mpr he)
  · rw [Bool.eq_false_iff, ne_eq, hm.risingEdge_iff (by omega)]
    exact hm.not_rises ht.le he h1 h2

/-! ### Every period -/

/-- Every edge finds the reader quiet. The induction goes from one edge to the next,
a period later. -/
theorem PaintMode.quiet_edge (hm : PaintMode inp src t₀) (hw : ShortWaits g inp t₀)
    (hlow : irqLine src t₀ = false) (hq : Quiet (run g inp t₀)) (ht : t₀ < e)
    (he : phase src e = 1) : Quiet (run g inp e) := by
  induction e using Nat.strong_induction_on with
  | _ e ih =>
    have hpos := ImageSource.periodCycles_pos
    by_cases hback : t₀ + ImageSource.periodCycles < e
    · -- the edge before this one
      obtain ⟨e₀, rfl⟩ : ∃ n, e = n + ImageSource.periodCycles :=
        ⟨e - ImageSource.periodCycles, by omega⟩
      have he₀ : phase src e₀ = 1 := by
        rw [hm.phase_add (by omega), Nat.add_mod_right, Nat.mod_eq_of_lt (phase_lt src e₀)] at he
        exact he
      obtain ⟨buf, T, hframe⟩ :=
        hm.oneFrame hw (by omega) he₀ (ih e₀ (by omega) (by omega) he₀)
      exact hframe.quiet _ hframe.stop.le le_rfl
    · -- no edge since `t₀`
      apply hq.until ht.le (fun u h1 _ => hm.resetN u h1)
      intro u h1 h2
      rcases Nat.eq_or_lt_of_le h1 with rfl | hlt
      · exact risingEdge_low ((hm.wired _ le_rfl).trans hlow)
      · rw [Bool.eq_false_iff, ne_eq, hm.risingEdge_iff hlt, hm.rises_iff hlt]
        intro hu
        obtain ⟨n, rfl⟩ : ∃ n, e = u + n := ⟨e - u, by omega⟩
        rw [hm.phase_add h1, hu] at he
        unfold ImageSource.periodCycles at he hback
        omega

/-! ### A run in paint mode -/

/-- The interrupt of `enablePorts` reaches the reader from cycle 2000000 on. -/
def paintPorts (t : ℕ) : Ports :=
  { Ports.silent with frameWriterIrq := decide (2000000 < t ∧ ImageSource.pulseHigh t) }

theorem enabled (t : ℕ) : (ImageSource.run ImageSource.enablePorts (t + 1)).irqEn = 1 := by
  induction t with
  | zero =>
    exact (ImageSource.irqEn_step (s := .initial) (i := ImageSource.enablePorts 0) rfl).trans
      (by decide)
  | succ t ih =>
    rw [ImageSource.run_succ, ImageSource.irqEn_step rfl, ih]
    rfl

theorem paintMode_paintPorts : PaintMode paintPorts ImageSource.enablePorts 2000000 where
  resetN _ _ := rfl
  srcResetN _ _ := rfl
  irqEn t ht := by
    obtain ⟨t, rfl⟩ : ∃ u, t = u + 1 := ⟨t - 1, by omega⟩
    exact enabled t
  wired t ht := by
    obtain ⟨n, rfl⟩ : ∃ u, t = u + 1 := ⟨t - 1, by omega⟩
    rw [irqLine, ImageSource.irq_pulse (enabled n), ImageSource.pg_pulseOut fun _ => rfl]
    show decide _ = _
    rw [decide_eq_decide]
    unfold ImageSource.pulseHigh ImageSource.periodCycles at *
    omega

/-! ### One frame for each pulse -/

/-- Between two consecutive rising edges of the interrupt the reader emits exactly one
frame and is idle without a pending event before the next edge. -/
theorem pulse_frames (g : Generics) (inp : ℕ → Ports) (src : ℕ → ImageSource.Ports) (t₀ : ℕ)
    (hm : PaintMode inp src t₀) (hw : ShortWaits g inp t₀) (hlow : irqLine src t₀ = false)
    (hq : Quiet (run g inp t₀)) (e e' : ℕ) (ht : t₀ ≤ e) (h : Consecutive (irqLine src) e e') :
    ∃ buf T, OneFrame g inp e e' buf T := by
  have hlt : t₀ < e := by
    apply Nat.lt_of_le_of_ne ht
    rintro rfl
    rw [h.first.1] at hlow
    cases hlow
  have he := (hm.rises_iff hlt).mp h.first
  rw [h.unique (hm.consecutive hlt he)]
  exact hm.oneFrame hw hlt he (hm.quiet_edge hw hlow hq hlt he)

/-- The first two edges. -/
theorem pulse_frames_first :
    let g : Generics := ⟨0x80000, fun _ => 0⟩
    ∃ buf T, OneFrame g paintPorts 2000001 4000001 buf T := by
  intro g
  have hquiet : Quiet (run g paintPorts 2000000) := by
    refine Quiet.until (a := 0) ⟨rfl, rfl⟩ (Nat.zero_le _) (fun _ _ _ => rfl) fun u _ hu => ?_
    exact risingEdge_low (decide_eq_false fun h => by omega)
  have hphase : phase ImageSource.enablePorts 2000001 = 1 := ImageSource.pg_cnt (fun _ => rfl) _
  have hlow : irqLine ImageSource.enablePorts 2000000 = false := by
    rw [paintMode_paintPorts.irqLine_eq le_rfl, phase, ImageSource.pg_cnt fun _ => rfl]
    decide
  exact pulse_frames g paintPorts ImageSource.enablePorts 2000000 paintMode_paintPorts
    (fun t _ _ => ⟨0, Nat.zero_le _, rfl⟩) hlow hquiet 2000001 4000001 (by decide)
    (paintMode_paintPorts.consecutive (by decide) hphase)

end AlteraWorkshops.Lab
