import AlteraWorkshops.Clocked.Latch
import AlteraWorkshops.OneAi.FrameRead

/-! Frame events that arrive while a frame is being read. The event flag is set by
every rising edge of `frame_writer_irq` and cleared, with priority, in every cycle
in which the first word of a frame is being read. That read can be stalled, so the
clear spans the whole stall and swallows the edges that fall into it. -/

namespace AlteraWorkshops.OneAi

open Clocked

variable {g : Generics} {inp : ℕ → Ports} {t u T : ℕ}

theorem readingFirstWord_iff {s : State} :
    readingFirstWord s = true ↔ s.pixel.state = .readWordState ∧ s.pixel.pixelAddr = 0 := by
  simp [readingFirstWord]

/-- The flag is a latch in which the clear wins. -/
theorem newFrameAvailable_next (hn : (inp t).resetN = true) :
    (run g inp (t + 1)).irq.newFrameAvailable =
      (!readingFirstWord (run g inp t) &&
        (risingEdge (run g inp t) (inp t) || (run g inp t).irq.newFrameAvailable)) := by
  show (irqProcess (run g inp t) (inp t)).newFrameAvailable = _
  simp only [irqProcess, hn, Bool.not_true, Bool.false_eq_true, ↓reduceIte]
  cases readingFirstWord (run g inp t) <;> cases risingEdge (run g inp t) (inp t) <;> rfl

/-- Once the first word has been read, no word of this frame is the first one:
the pixel counter does not wrap before the frame ends. -/
theorem firstWord_over (hbusy : (run g inp t).pixel.state ≠ .idleState)
    (hf : readingFirstWord (run g inp t) = false) :
    readingFirstWord (run g inp (t + 1)) = false := by
  rw [Bool.eq_false_iff, ne_eq, readingFirstWord_iff] at hf ⊢
  rintro ⟨hs, ha⟩
  rw [run_succ, step_pixel] at hs ha
  have he := pixelProcess_edge g (run g inp t) (inp t)
  generalize pixelProcess g (run g inp t) (inp t) = r at he hs ha
  cases he with
  | reset | leave | recapture | extract | emitLast | emitCached => cases hs
  | idle h => exact hbusy h
  | start h => exact hbusy h
  | wait h => exact hf ⟨h, ha⟩
  | accept h => exact hf ⟨h, ha⟩
  | delay h => exact absurd (h.symm.trans hs) (by decide)
  | emitRead _ _ hl =>
    apply hl
    have hwrap : (run g inp t).pixel.pixelAddr = 0 - 1 := by
      rw [← show (run g inp t).pixel.pixelAddr + 1 = 0 from ha, BitVec.add_sub_cancel]
    rw [hwrap]
    decide

theorem firstWord_over_until (htu : t ≤ u)
    (hbusy : ∀ v, t ≤ v → v < u → (run g inp v).pixel.state ≠ .idleState)
    (hf : readingFirstWord (run g inp t) = false) : readingFirstWord (run g inp u) = false := by
  induction u, htu using Nat.le_induction with
  | base => exact hf
  | succ n hn ih =>
    exact firstWord_over (hbusy n hn (by omega)) (ih fun v h1 h2 => hbusy v h1 (by omega))

/-- The flag at the return to idle, for an edge sampled during the frame. -/
theorem newFrameAvailable_return (htT : t < T)
    (hn : ∀ v, t ≤ v → v < T → (inp v).resetN = true)
    (hbusy : ∀ v, t ≤ v → v < T → (run g inp v).pixel.state ≠ .idleState)
    (hedge : risingEdge (run g inp t) (inp t) = true) :
    (run g inp T).irq.newFrameAvailable = true ↔
      readingFirstWord (run g inp t) = false ∨
        ∃ u, t < u ∧ u < T ∧ risingEdge (run g inp u) (inp u) = true ∧
          readingFirstWord (run g inp u) = false := by
  have hover : ∀ u, t ≤ u → u < T → readingFirstWord (run g inp u) = false →
      ∀ v, u ≤ v → v < T → readingFirstWord (run g inp v) = false :=
    fun u h1 h2 h3 v h4 h5 => firstWord_over_until h4
      (fun w h6 h7 => hbusy w (by omega) (by omega)) h3
  refine (clearDominant_iff (q := fun v => (run g inp v).irq.newFrameAvailable) htT.le
    fun v h1 h2 => newFrameAvailable_next (hn v h1 h2)).trans ?_
  constructor
  · rintro (⟨u, h1, h2, h3, h4⟩ | ⟨-, h⟩)
    · rcases h1.eq_or_lt with rfl | hlt
      · exact .inl (h4 t le_rfl h2)
      · exact .inr ⟨u, hlt, h2, h3, h4 u le_rfl h2⟩
    · exact .inl (h t le_rfl htT)
  · rintro (h | ⟨u, h1, h2, h3, h4⟩)
    · exact .inl ⟨t, le_rfl, htT, hedge, hover t le_rfl htT h⟩
    · exact .inl ⟨u, h1.le, h2, h3, hover u h1.le h2 h4⟩

/-- Idle with the flag set starts a frame, and idle without it does not. -/
theorem idle_next (hs : (run g inp t).pixel.state = .idleState) (hn : (inp t).resetN = true) :
    (run g inp (t + 1)).pixel.state = .readWordState ↔
      (run g inp t).irq.newFrameAvailable = true := by
  rw [run_succ, step_pixel]
  cases hf : (run g inp t).irq.newFrameAvailable <;> simp [pixelProcess, hn, hs, hf]

/-- `T` is the next return to idle after cycle `t`. -/
structure NextReturn (g : Generics) (inp : ℕ → Ports) (t T : ℕ) : Prop where
  later : t < T
  idle : (run g inp T).pixel.state = .idleState
  busy : ∀ v, t ≤ v → v < T → (run g inp v).pixel.state ≠ .idleState

/-- An edge sampled during a frame is still pending at the return to idle, and
starts another frame there, exactly when it, or another edge of the same frame,
was not sampled during the read of the frame's first word. -/
theorem frame_event_kept_iff (g : Generics) (inp : ℕ → Ports) (t T : ℕ)
    (hret : NextReturn g inp t T) (hn : ∀ v, t ≤ v → v ≤ T → (inp v).resetN = true)
    (hedge : risingEdge (run g inp t) (inp t) = true) :
    ((run g inp T).irq.newFrameAvailable = true ∧
        (run g inp (T + 1)).pixel.state = .readWordState) ↔
      readingFirstWord (run g inp t) = false ∨
        ∃ u, t < u ∧ u < T ∧ risingEdge (run g inp u) (inp u) = true ∧
          readingFirstWord (run g inp u) = false := by
  rw [idle_next hret.idle (hn T hret.later.le le_rfl), and_self]
  exact newFrameAvailable_return hret.later (fun v h1 h2 => hn v h1 h2.le) hret.busy hedge

/-! ### A stalled first word

The memory is black and answers at once, except that the first word is stalled for
one cycle. The trigger of the frame comes in cycle 0, another edge in cycle `u`. -/

def stalledPorts (u t : ℕ) : Ports :=
  { Ports.silent with avmWaitrequest := t == 2, frameWriterIrq := t == 0 || t == u }

theorem stalledPorts_serves (g : Generics) (u t₀ : ℕ) :
    Serves g (fun _ => 0) (run g (stalledPorts u)) (stalledPorts u) t₀ where
  resetN _ _ := rfl
  data _ _ _ _ := by simp [slaveWord, stalledPorts, Ports.silent]
  holds _ _ _ := rfl
  accepts t _ _ := by
    rcases Nat.lt_or_ge 2 t with h | h
    · exact ⟨t, le_rfl, by simp [stalledPorts]; omega⟩
    · exact ⟨3, by omega, rfl⟩

theorem stalledPorts_return (g : Generics) (u t : ℕ)
    (hstart : (run g (stalledPorts u) 1).irq.newFrameAvailable = true)
    (ht : 1 < t)
    (hbusy : ∀ v, 1 < v → v ≤ t → (run g (stalledPorts u) v).pixel.state ≠ .idleState) :
    ∃ T, NextReturn g (stalledPorts u) t T := by
  obtain ⟨T, h1, h2, h3, -⟩ := frame_run (stalledPorts_serves g u 1) rfl hstart
  have htT : t < T := by
    by_contra h
    exact hbusy T h1 (by omega) h2
  exact ⟨T, htT, h2, fun v h4 h5 => h3 v (by omega) h5⟩

/-- An edge in cycle 5, after the first word, is kept. -/
theorem frame_event_kept_five :
    let g : Generics := ⟨0x80000, fun _ => 0⟩
    let inp := stalledPorts 5
    ∃ T, NextReturn g inp 5 T ∧
      (((run g inp T).irq.newFrameAvailable = true ∧
          (run g inp (T + 1)).pixel.state = .readWordState) ↔
        readingFirstWord (run g inp 5) = false ∨
          ∃ u, 5 < u ∧ u < T ∧ risingEdge (run g inp u) (inp u) = true ∧
            readingFirstWord (run g inp u) = false) := by
  intro g inp
  obtain ⟨T, hT⟩ := stalledPorts_return g 5 5 (by decide) (by decide) (fun v h1 h2 => by
    have hv : v = 2 ∨ v = 3 ∨ v = 4 ∨ v = 5 := by omega
    rcases hv with rfl | rfl | rfl | rfl <;> decide)
  exact ⟨T, hT, frame_event_kept_iff g inp 5 T hT (fun _ _ _ => rfl) (by decide)⟩

/-- An edge in cycle 2, while the first word is stalled, is lost. -/
theorem frame_event_lost :
    ¬∀ (g : Generics) (inp : ℕ → Ports) (t T : ℕ), NextReturn g inp t T →
      (∀ v, t ≤ v → v ≤ T → (inp v).resetN = true) →
      risingEdge (run g inp t) (inp t) = true →
      (run g inp T).irq.newFrameAvailable = true ∧
        (run g inp (T + 1)).pixel.state = .readWordState := by
  intro h
  let g : Generics := ⟨0x80000, fun _ => 0⟩
  obtain ⟨T, hT⟩ := stalledPorts_return g 2 2 (by decide) (by decide) (fun v h1 h2 => by
    rw [show v = 2 by omega]
    decide)
  have hkept := (h g (stalledPorts 2) 2 T hT (fun _ _ _ => rfl) (by decide)).1
  rw [newFrameAvailable_return hT.later (fun _ _ _ => rfl) hT.busy (by decide)] at hkept
  rcases hkept with hf | ⟨u, h1, -, h2, -⟩
  · exact absurd hf (by decide)
  · simp only [risingEdge, stalledPorts, Bool.and_eq_true, Bool.or_eq_true, beq_iff_eq] at h2
    omega

end AlteraWorkshops.OneAi
