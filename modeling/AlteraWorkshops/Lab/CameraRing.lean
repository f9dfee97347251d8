import AlteraWorkshops.Lab.PaintImport

/-! Camera mode: the frame writer alternates between two buffers, as the firmware sets
it up, and the pixel reader always reads the first one. The even frames are seen when
they are complete; in response to the interrupt of an odd frame the reader sees the frame
before it, or parts of the one that is being written over it. -/

namespace AlteraWorkshops.Lab

open Clocked OneAi

/-! ### The ring of `init_MIRA220` -/

def vvpVfwNumBuffers : ℕ := 2
def vvpVfwBufferBase : ℕ := 0x80000
def vvpVfwInterBufferOffset : ℕ := 50000

/-- The buffer of frame `k`, from the buffer base on. -/
def bufferOffset (k : ℕ) : ℕ := k % vvpVfwNumBuffers * vvpVfwInterBufferOffset

theorem bufferOffset_even {k : ℕ} (h : Even k) : bufferOffset k = 0 := by
  rw [bufferOffset, vvpVfwNumBuffers, Nat.even_iff.mp h, Nat.zero_mul]

/-- The frame writer over time: frame `k` is in its buffer when its interrupt comes in
cycle `c k`, stays there while frame `k + 1` goes to the other buffer, and is then
written over by frame `k + 2`. -/
structure RingWriter (F : ℕ → ℕ → BitVec 8) (c : ℕ → ℕ) (mem : ℕ → ℕ → BitVec 8) : Prop where
  next : ∀ k, c k < c (k + 1)
  written : ∀ k t, c k ≤ t → t ≤ c (k + 1) → ∀ o < 4 * frameWords,
    mem t (bufferOffset k + o) = F k o
  overwritten : ∀ k t, c (k + 1) ≤ t → t ≤ c (k + 2) → ∀ o < 4 * frameWords,
    mem t (bufferOffset k + o) = F k o ∨ mem t (bufferOffset k + o) = F (k + 2) o

/-- The reader behind the ring, with the interrupts of the frame writer on
`frame_writer_irq`; it is done with every frame before the next interrupt. -/
structure CameraMode (g : Generics) (F : ℕ → ℕ → BitVec 8) (c : ℕ → ℕ)
    (mem : ℕ → ℕ → BitVec 8) (inp : ℕ → Ports) : Prop where
  base : g.bufferBaseAddr = BitVec.ofNat 32 vvpVfwBufferBase
  writer : RingWriter F c mem
  interrupts : ∀ t, Rises (fun u => (inp u).frameWriterIrq) t ↔ ∃ k, t = c k
  serves : ServesOver g mem (run g inp) inp none 0
  quiet : ∀ k, Quiet (run g inp (c k))

variable {g : Generics} {F : ℕ → ℕ → BitVec 8} {c : ℕ → ℕ} {mem : ℕ → ℕ → BitVec 8}
  {inp : ℕ → Ports} {k t T : ℕ} {buf : ℕ → BitVec 8}

/-- Out of reset the edge detector sees the edges of the line, from the first cycle on. -/
theorem risingEdge_run_iff (hn : ∀ t, (inp t).resetN = true) (t : ℕ) :
    risingEdge (run g inp t) (inp t) = true ↔ Rises (fun u => (inp u).frameWriterIrq) t := by
  cases t with
  | zero => simp [risingEdge, Rises, run, State.initial, IrqRegs.initial]
  | succ t => exact OneAi.risingEdge_iff (hn t)

/-- Interrupt `k` triggers a frame in the next cycle. -/
theorem CameraMode.trigger (hm : CameraMode g F c mem inp) (k : ℕ) :
    (run g inp (c k + 1)).pixel.state = .idleState ∧
      (run g inp (c k + 1)).irq.newFrameAvailable = true := by
  have hn : ∀ t, (inp t).resetN = true := fun t => hm.serves.resetN t (Nat.zero_le t)
  have hrise := (risingEdge_run_iff (g := g) hn (c k)).mpr ((hm.interrupts (c k)).mpr ⟨k, rfl⟩)
  obtain ⟨hidle, hevent, -⟩ := (hm.quiet k).edge (hn (c k)) hrise
  exact ⟨hidle, hevent⟩

/-- The frame in response to interrupt `k` ends before the next interrupt. -/
theorem CameraMode.frame_le (hm : CameraMode g F c mem inp)
    (hf : Frame g buf (run g inp) inp (c k + 1) T) : T ≤ c (k + 1) := by
  by_contra hlt
  have hnext := hm.writer.next k
  have hquiet := hm.quiet (k + 1)
  rcases Nat.eq_or_lt_of_le (show c k + 1 ≤ c (k + 1) by omega) with heq | hgt
  · have hevent := (hm.trigger k).2
    rw [heq, hquiet.noEvent] at hevent
    cases hevent
  · exact hf.busy _ hgt (by omega) hquiet.idle

/-- The frame that the reader starts in response to interrupt `k`. -/
theorem CameraMode.frame (hm : CameraMode g F c mem inp) (k : ℕ) :
    ∃ buf T r, Frame g buf (run g inp) inp (c k + 1) T ∧ Sampled g mem inp buf r (c k + 1) T := by
  obtain ⟨hidle, hevent⟩ := hm.trigger k
  obtain ⟨buf, T, r, hf, hr, -⟩ := (hm.serves.later (Nat.zero_le _)).frame hidle hevent
  exact ⟨buf, T, r, hf, hr⟩

/-- An even frame is read from the buffer it was written to. -/
theorem CameraMode.even_frame (hm : CameraMode g F c mem inp) (hk : Even k) :
    ∃ T, Frame g (F k) (run g inp) inp (c k + 1) T := by
  obtain ⟨buf, T, r, hf, hr⟩ := hm.frame k
  have hT := hm.frame_le hf
  refine ⟨T, hf.congr fun j hj => ?_⟩
  obtain ⟨hstart, hend⟩ := hr.within j hj
  rw [hr.word j hj]
  apply bufferWord_ext
  intro n hn
  have hbyte := hm.writer.written k (r j) (by omega) (by omega) (4 * j + n) (by omega)
  rwa [bufferOffset_even hk, Nat.zero_add] at hbyte

/-- In response to the interrupt of an odd frame the reader sees the frame before it,
or what the frame after it has written over it. -/
theorem CameraMode.odd_frame (hm : CameraMode g F c mem inp) (hk : Even k) :
    ∃ buf T, Frame g buf (run g inp) inp (c (k + 1) + 1) T ∧
      ∀ o < 4 * frameWords, buf o = F k o ∨ buf o = F (k + 2) o := by
  obtain ⟨buf, T, r, hf, hr⟩ := hm.frame (k + 1)
  have hT : T ≤ c (k + 2) := hm.frame_le hf
  refine ⟨buf, T, hf, fun o ho => ?_⟩
  have hj : o / 4 < frameWords := by omega
  obtain ⟨hstart, hend⟩ := hr.within (o / 4) hj
  have hbyte := hm.writer.overwritten k (r (o / 4)) (by omega) (by omega) o ho
  rw [bufferOffset_even hk, Nat.zero_add] at hbyte
  rwa [byte_of_bufferWord (hr.word (o / 4) hj)]

/-! ### A frame writer that is late -/

/-- The cycles from one interrupt to the next. -/
def framePeriod : ℕ := 2000000

def lateInterrupt (k : ℕ) : ℕ := (k + 1) * framePeriod

/-- Every frame appears in its buffer in the cycle of its interrupt: of the `n` frames
so far the last one that belongs to the buffer is there. -/
def lateBuffer (F : ℕ → ℕ → BitVec 8) (t address : ℕ) : BitVec 8 :=
  let buffer := address / vvpVfwInterBufferOffset
  let n := t / framePeriod
  F (buffer + 2 * ((n - 1 - buffer) / 2)) (address % vvpVfwInterBufferOffset)

def lateGenerics : Generics := ⟨0x80000, fun _ => 0⟩

def latePorts (F : ℕ → ℕ → BitVec 8) : ℕ → Ports :=
  attachedPorts lateGenerics (lateBuffer F) fun t =>
    { Ports.silent with frameWriterIrq := decide (0 < t ∧ t % framePeriod = 0) }

theorem lateBuffer_eq {o i : ℕ} (ho : o < 4 * frameWords)
    (hi : k % 2 + 2 * ((t / framePeriod - 1 - k % 2) / 2) = i) :
    lateBuffer F t (bufferOffset k + o) = F i o := by
  have hsize : 4 * frameWords ≤ vvpVfwInterBufferOffset := by decide
  have hpos : 0 < vvpVfwInterBufferOffset := by decide
  have hbuffer : (bufferOffset k + o) / vvpVfwInterBufferOffset = k % 2 := by
    rw [bufferOffset, vvpVfwNumBuffers, Nat.add_comm, Nat.add_mul_div_right _ _ hpos,
      Nat.div_eq_of_lt (by omega), Nat.zero_add]
  have hoffset : (bufferOffset k + o) % vvpVfwInterBufferOffset = o := by
    rw [bufferOffset, Nat.add_comm, Nat.add_mul_mod_self_right, Nat.mod_eq_of_lt (by omega)]
  simp only [lateBuffer, hbuffer, hoffset, hi]

theorem late_writer (F : ℕ → ℕ → BitVec 8) : RingWriter F lateInterrupt (lateBuffer F) where
  next k := by
    unfold lateInterrupt framePeriod
    omega
  written k t h1 h2 o ho := by
    apply lateBuffer_eq ho
    unfold lateInterrupt framePeriod at *
    omega
  overwritten k t h1 h2 o ho := by
    have hn : t / framePeriod = k + 2 ∨ t / framePeriod = k + 3 := by
      unfold lateInterrupt framePeriod at *
      omega
    rcases hn with hn | hn
    · exact .inl (lateBuffer_eq ho (by rw [hn]; omega))
    · exact .inr (lateBuffer_eq ho (by rw [hn]; omega))

theorem late_interrupts (F : ℕ → ℕ → BitVec 8) (t : ℕ) :
    Rises (fun u => (latePorts F u).frameWriterIrq) t ↔ ∃ k, t = lateInterrupt k := by
  have hline : ∀ u, (latePorts F u).frameWriterIrq = decide (0 < u ∧ u % framePeriod = 0) :=
    fun _ => rfl
  simp only [Rises, hline, decide_eq_true_eq, decide_eq_false_iff_not]
  unfold lateInterrupt framePeriod
  constructor
  · rintro ⟨⟨hpos, hmod⟩, -⟩
    exact ⟨t / 2000000 - 1, by omega⟩
  · rintro ⟨k, rfl⟩
    exact ⟨by omega, fun r hr => by omega⟩

theorem late_serves (F : ℕ → ℕ → BitVec 8) (W : Option ℕ) (t : ℕ) :
    ServesOver lateGenerics (lateBuffer F) (run lateGenerics (latePorts F)) (latePorts F) W t :=
  servesOver_attached (fun _ _ => rfl) fun t _ => ⟨t, le_rfl, rfl, fun _ _ => Nat.le_add_right ..⟩

theorem late_calm (F : ℕ → ℕ → BitVec 8) {t : ℕ} (h : ¬(0 < t ∧ t % framePeriod = 0)) :
    risingEdge (run lateGenerics (latePorts F) t) (latePorts F t) = false :=
  risingEdge_low (decide_eq_false h)

/-- The reader is done with every frame before the next interrupt. -/
theorem late_quiet (F : ℕ → ℕ → BitVec 8) (k : ℕ) :
    Quiet (run lateGenerics (latePorts F) (lateInterrupt k)) := by
  induction k with
  | zero =>
    refine Quiet.until (a := 0) ⟨rfl, rfl⟩ (Nat.zero_le _) (fun _ _ _ => rfl) fun u _ hu => ?_
    apply late_calm F
    unfold lateInterrupt framePeriod at *
    omega
  | succ k ih =>
    have hrise := (risingEdge_run_iff (g := lateGenerics) (fun _ => rfl) _).mpr
      ((late_interrupts F _).mpr ⟨k, rfl⟩)
    have hfit : lateInterrupt k + 1 + frameCycles 0 < lateInterrupt (k + 1) := by
      have hlt : 1 + frameCycles 0 < framePeriod := by decide
      unfold lateInterrupt framePeriod at *
      omega
    obtain ⟨buf, T, hframe⟩ := ih.oneFrame (late_serves F (some 0) _).toAccepting hrise
      (fun u h1 h2 => late_calm F (by unfold lateInterrupt framePeriod at *; omega)) hfit
    exact hframe.quiet _ hframe.stop.le le_rfl

theorem late_camera (F : ℕ → ℕ → BitVec 8) :
    CameraMode lateGenerics F lateInterrupt (lateBuffer F) (latePorts F) where
  base := rfl
  writer := late_writer F
  interrupts := late_interrupts F
  serves := late_serves F none 0
  quiet := late_quiet F

/-- Behind the late writer the reader sees frame `k` again in response to the interrupt
of the odd frame `k + 1`. -/
theorem late_same (hk : Even k)
    (hf : Frame lateGenerics buf (run lateGenerics (latePorts F)) (latePorts F)
      (lateInterrupt (k + 1) + 1) T) : SameImage (F k) buf := by
  obtain ⟨r, hr⟩ := hf.sampled (late_serves F none _)
  have hT := (late_camera F).frame_le hf
  intro o ho
  have hj : o / 4 < frameWords := by omega
  obtain ⟨hstart, hend⟩ := hr.within (o / 4) hj
  have hlate : lateBuffer F (r (o / 4)) (bufferOffset k + o) = F k o := by
    apply lateBuffer_eq ho
    have heven := Nat.even_iff.mp hk
    unfold lateInterrupt framePeriod at *
    omega
  rw [bufferOffset_even hk, Nat.zero_add] at hlate
  rw [byte_of_bufferWord (hr.word (o / 4) hj), hlate]

/-! ### Which frames are seen -/

/-- In every run the reader sees frame `k` in response to its interrupt. -/
def Sees (F : ℕ → ℕ → BitVec 8) (k : ℕ) : Prop :=
  ∀ (g : Generics) (c : ℕ → ℕ) (mem : ℕ → ℕ → BitVec 8) (inp : ℕ → Ports),
    CameraMode g F c mem inp → ∃ T, Frame g (F k) (run g inp) inp (c k + 1) T

/-- Of a sequence of frames that differ from one to the next, exactly the even ones are
seen. -/
theorem camera_frame_iff (F : ℕ → ℕ → BitVec 8) (k : ℕ)
    (hF : ∀ i < k, ¬SameImage (F i) (F (i + 1))) : Sees F k ↔ Even k := by
  refine ⟨fun h => ?_, fun hk g c mem inp hm => hm.even_frame hk⟩
  by_contra hodd
  obtain ⟨m, rfl⟩ := Nat.not_even_iff_odd.mp hodd
  obtain ⟨T, hf⟩ := h lateGenerics lateInterrupt (lateBuffer F) (latePorts F) (late_camera F)
  exact hF (2 * m) (Nat.lt_succ_self _) (late_same (even_two_mul m) hf)

/-- Frame `i` is all `i`. -/
def plainFrames (i _o : ℕ) : BitVec 8 := BitVec.ofNat 8 i

theorem plainFrames_ne : ¬SameImage (plainFrames 0) (plainFrames 1) := by
  intro h
  exact absurd (h 0 (by decide)) (by decide)

/-- Frame 1 is not seen. -/
theorem camera_frame_one : Sees plainFrames 1 ↔ Even 1 :=
  camera_frame_iff plainFrames 1 fun i hi => by
    obtain rfl : i = 0 := by omega
    exact plainFrames_ne

/-- In response to the second interrupt the reader sees the first frame again. -/
theorem camera_frame_stale :
    ¬∀ (F : ℕ → ℕ → BitVec 8) (k : ℕ),
      (∀ i j, i < j → j ≤ k → ¬SameImage (F i) (F j)) → Sees F k := by
  intro h
  have hdistinct : ∀ i j, i < j → j ≤ 1 → ¬SameImage (plainFrames i) (plainFrames j) := by
    intro i j hij hj
    obtain rfl : i = 0 := by omega
    obtain rfl : j = 1 := by omega
    exact plainFrames_ne
  obtain ⟨T, hf⟩ := h plainFrames 1 hdistinct lateGenerics lateInterrupt (lateBuffer plainFrames)
    (latePorts plainFrames) (late_camera plainFrames)
  exact plainFrames_ne (late_same Even.zero hf)

end AlteraWorkshops.Lab
