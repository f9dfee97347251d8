import AlteraWorkshops.Clocked.Delay
import AlteraWorkshops.OneAi.FrameEvents

/-! From a rising edge of `frame_writer_irq` to the return to idle. A reader that is
idle without a pending event stays so until the next edge; the edge is pending in the
next cycle, starts a frame, and is cleared by the read of the frame's first word. With
no further edge the reader returns to idle without a pending event. -/

namespace AlteraWorkshops.OneAi

open Clocked

variable {g : Generics} {inp : ℕ → Ports} {a b e e' t : ℕ}

/-- Idle, with no frame event pending. -/
structure Quiet (s : State) : Prop where
  idle : s.pixel.state = .idleState
  noEvent : s.irq.newFrameAvailable = false

theorem irqD_next (hn : (inp t).resetN = true) :
    (run g inp (t + 1)).irq.frameWriterIrqD = (inp t).frameWriterIrq := by
  show (irqProcess (run g inp t) (inp t)).frameWriterIrqD = _
  simp only [irqProcess, hn, Bool.not_true, Bool.false_eq_true, ↓reduceIte]
  split_ifs <;> rfl

/-- The edge detector compares neighbouring cycles. -/
theorem risingEdge_next (hn : (inp t).resetN = true) :
    risingEdge (run g inp (t + 1)) (inp (t + 1)) =
      ((inp (t + 1)).frameWriterIrq && !(inp t).frameWriterIrq) := by
  rw [risingEdge, irqD_next hn]

theorem risingEdge_iff (hn : (inp t).resetN = true) :
    risingEdge (run g inp (t + 1)) (inp (t + 1)) = true ↔
      Rises (fun u => (inp u).frameWriterIrq) (t + 1) := by
  rw [risingEdge_next hn, rises_succ, Bool.and_eq_true, Bool.not_eq_true']

theorem risingEdge_low {s : State} {i : Ports} (h : i.frameWriterIrq = false) :
    risingEdge s i = false := by
  rw [risingEdge, h, Bool.false_and]

theorem readingFirstWord_idle {s : State} (h : s.pixel.state = .idleState) :
    readingFirstWord s = false := by
  rw [Bool.eq_false_iff, ne_eq, readingFirstWord_iff, h]
  rintro ⟨hs, -⟩
  cases hs

/-- Without an edge a quiet reader stays quiet, reads nothing and emits nothing. -/
theorem Quiet.next (h : Quiet (run g inp t)) (hn : (inp t).resetN = true)
    (hedge : risingEdge (run g inp t) (inp t) = false) :
    Quiet (run g inp (t + 1)) ∧ acceptedRead (run g inp) inp t = none ∧
      pulse (run g inp) t = none := by
  have hpixel : (run g inp (t + 1)).pixel =
      { (run g inp t).pixel with pixelValid := false } := by
    rw [run_succ, step_pixel]
    simp [pixelProcess, hn, h.idle, h.noEvent]
  refine ⟨⟨?_, ?_⟩, acceptedRead_eq_none (run_avmRead_idle h.idle), ?_⟩
  · rw [hpixel]
    exact h.idle
  · rw [newFrameAvailable_next hn, hedge, h.noEvent, Bool.or_false, Bool.and_false]
  · simp [pulse, hpixel]

theorem Quiet.until (h : Quiet (run g inp a)) (hab : a ≤ b)
    (hn : ∀ t, a ≤ t → t < b → (inp t).resetN = true)
    (hedge : ∀ t, a ≤ t → t < b → risingEdge (run g inp t) (inp t) = false) :
    Quiet (run g inp b) := by
  induction b, hab using Nat.le_induction with
  | base => exact h
  | succ t ht ih =>
    have hq := ih (fun u h1 h2 => hn u h1 (by omega)) fun u h1 h2 => hedge u h1 (by omega)
    exact (hq.next (hn t ht (by omega)) (hedge t ht (by omega))).1

/-- Nothing is observed while the reader is quiet. -/
theorem Quiet.observed (h : Quiet (run g inp a)) (hab : a ≤ b)
    (hn : ∀ t, a ≤ t → t < b → (inp t).resetN = true)
    (hedge : ∀ t, a ≤ t → t < b → risingEdge (run g inp t) (inp t) = false) :
    Observed (acceptedRead (run g inp) inp) a b [] ∧ Observed (pulse (run g inp)) a b [] := by
  have hq : ∀ t, a ≤ t → t < b → Quiet (run g inp t) := fun t h1 h2 =>
    h.until h1 (fun u h3 h4 => hn u h3 (by omega)) fun u h3 h4 => hedge u h3 (by omega)
  exact ⟨.silent hab fun t h1 h2 => ((hq t h1 h2).next (hn t h1 h2) (hedge t h1 h2)).2.1,
    .silent hab fun t h1 h2 => ((hq t h1 h2).next (hn t h1 h2) (hedge t h1 h2)).2.2⟩

/-- An edge at a quiet reader is pending in the next cycle, with the reader idle. -/
theorem Quiet.edge (h : Quiet (run g inp e)) (hn : (inp e).resetN = true)
    (hedge : risingEdge (run g inp e) (inp e) = true) :
    (run g inp (e + 1)).pixel.state = .idleState ∧
      (run g inp (e + 1)).irq.newFrameAvailable = true ∧
      acceptedRead (run g inp) inp e = none ∧ pulse (run g inp) e = none := by
  have hpixel : (run g inp (e + 1)).pixel =
      { (run g inp e).pixel with pixelValid := false } := by
    rw [run_succ, step_pixel]
    simp [pixelProcess, hn, h.idle, h.noEvent]
  refine ⟨?_, ?_, acceptedRead_eq_none (run_avmRead_idle h.idle), ?_⟩
  · rw [hpixel]
    exact h.idle
  · rw [newFrameAvailable_next hn, hedge, readingFirstWord_idle h.idle, Bool.true_or]
    rfl
  · simp [pulse, hpixel]

/-- The event is cleared in the second cycle of its frame and, with no other edge, is
not pending at the end of the frame. -/
theorem Frame.noEvent {buf : ℕ → BitVec 8} {T : ℕ}
    (hf : Frame g buf (run g inp) inp t T) (hidle : (run g inp t).pixel.state = .idleState)
    (htrigger : (run g inp t).irq.newFrameAvailable = true)
    (hn : ∀ u, t ≤ u → (inp u).resetN = true)
    (hedge : ∀ u, t < u → u < T → risingEdge (run g inp u) (inp u) = false) :
    Quiet (run g inp T) := by
  have hstart : Reading g buf 0 (pixelProcess g (run g inp t) (inp t)) ∧ _ :=
    start_edge (hn t le_rfl) hidle htrigger
  have hfirst : readingFirstWord (run g inp (t + 1)) = true :=
    readingFirstWord_iff.mpr ⟨hstart.1.state, hstart.1.addr⟩
  -- the frame is longer than the two cycles of its start
  have hlong : t + 2 ≤ T := by
    by_contra hlt
    obtain rfl : T = t + 1 := by
      have := hf.later
      omega
    exact absurd (hf.idle.symm.trans hstart.1.state) (by decide)
  have hclear : (run g inp (t + 2)).irq.newFrameAvailable = false := by
    rw [newFrameAvailable_next (hn (t + 1) (by omega)), hfirst]
    rfl
  refine ⟨hf.idle, ?_⟩
  rw [Bool.eq_false_iff]
  intro hT
  have hlatch := clearDominant_iff (q := fun v => (run g inp v).irq.newFrameAvailable) hlong
    fun v h1 h2 => newFrameAvailable_next (hn v (by omega))
  rcases hlatch.mp hT with ⟨u, h1, h2, hset, -⟩ | ⟨h0, -⟩
  · rw [hedge u (by omega) h2] at hset
    cases hset
  · rw [hclear] at h0
    cases h0

/-! ### From one edge to the next -/

/-- One frame between the edges `e` and `e'`, with the reader quiet from its end on. -/
structure OneFrame (g : Generics) (inp : ℕ → Ports) (e e' : ℕ) (buf : ℕ → BitVec 8) (T : ℕ) :
    Prop where
  start : e < T
  stop : T < e'
  quiet : ∀ u, T ≤ u → u ≤ e' → Quiet (run g inp u)
  pixels : collect (pulse (run g inp)) e e' = (List.range frameSize).map (framePixel buf)
  reads : collect (acceptedRead (run g inp) inp) e e' =
    (List.range frameWords).map (wordAddress g)
  words : Words g buf (run g inp) inp e e' frameWords

/-- An edge at a quiet reader gives exactly one frame when the next edge comes after the
longest frame. -/
theorem Quiet.oneFrame {w : ℕ} (hq : Quiet (run g inp e))
    (hacc : Accepting (run g inp) inp (some w) e)
    (hrise : risingEdge (run g inp e) (inp e) = true)
    (hcalm : ∀ u, e < u → u < e' → risingEdge (run g inp u) (inp u) = false)
    (hfit : e + 1 + frameCycles w < e') : ∃ buf T, OneFrame g inp e e' buf T := by
  have hlater : Accepting (run g inp) inp (some w) (e + 1) :=
    ⟨fun u hu => hacc.resetN u (by omega), fun u hu => hacc.accepts u (by omega)⟩
  obtain ⟨hidle, hevent, hnoRead, hnoPulse⟩ := hq.edge (hacc.resetN e le_rfl) hrise
  obtain ⟨buf, T, hf, hT⟩ :=
    frame_words (run_succ g inp) hlater hidle (run_avmRead_idle hidle) hevent
  have hshort := hT w rfl
  have hlong := hf.later
  have hreset : ∀ u, T ≤ u → u < e' → (inp u).resetN = true := fun u h1 _ =>
    hacc.resetN u (by omega)
  have hend := hf.noEvent hidle hevent (fun u hu => hacc.resetN u (by omega))
    fun u h1 h2 => hcalm u (by omega) (by omega)
  have hquiet : ∀ u, T ≤ u → u < e' → risingEdge (run g inp u) (inp u) = false :=
    fun u h1 h2 => hcalm u (by omega) h2
  obtain ⟨hreads, hpixels⟩ := hend.observed (show T ≤ e' by omega) hreset hquiet
  refine ⟨buf, T, by omega, by omega, fun u h1 h2 => ?_, ?_, ?_, ?_⟩
  · exact hend.until h1 (fun v h3 h4 => hreset v h3 (by omega))
      fun v h3 h4 => hquiet v h3 (by omega)
  · rw [collect_append _ (show e ≤ e + 1 by omega) (by omega), collect_one, hnoPulse,
      collect_append _ hlong.le (by omega), hf.pixels, hpixels.eq]
    simp
  · rw [collect_append _ (show e ≤ e + 1 by omega) (by omega), collect_one, hnoRead,
      collect_append _ hlong.le (by omega), hf.reads, hreads.eq]
    simp
  · exact hf.words.mono (by omega) (by omega) fun _ _ => rfl

end AlteraWorkshops.OneAi
