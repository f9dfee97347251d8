import AlteraWorkshops.Clocked.Issue
import AlteraWorkshops.Gui.App
import AlteraWorkshops.Lab.PulseFrames
import AlteraWorkshops.OneAi.SharedBuffer

/-! The Tcl paint procedure against the pixel reader, on one clock. The console performs
its writes one at a time in any cycles: it switches the interrupt source and then
imports the image, while the pulse triggers frames that read the same buffer. Nothing
orders the two: a frame has the new words where the import was there first, and the old
ones elsewhere. -/

namespace AlteraWorkshops.Lab

open Clocked OneAi

/-! ### The system -/

/-- The access of `image_source` in a cycle in which the console performs `w`. -/
def consolePorts (w : Option BusWrite) (irqIn : Bool) : ImageSource.Ports :=
  { w.elim ImageSource.Ports.silent BusWrite.sourcePorts with irqIn := irqIn }

/-- From cycle `t₀` on the console performs `ws` in the cycles of `go`, and nothing else
accesses `image_source` or writes the image buffer `mem`, which the reader reads. -/
structure Console (g : Generics) (ws : List BusWrite) (go : ℕ → Bool) (mem : ℕ → ℕ → BitVec 8)
    (src : ℕ → ImageSource.Ports) (inp : ℕ → Ports) (t₀ : ℕ) : Prop where
  base : g.bufferBaseAddr = BitVec.ofNat 32 imageBufferAddr
  serves : ServesOver g mem (run g inp) inp none t₀
  source : ∀ t, t₀ ≤ t → src t = consolePorts (issued ws go t₀ t) (src t).irqIn
  wired : ∀ t, t₀ ≤ t → (inp t).frameWriterIrq = irqLine src t
  memory : ∀ t, t₀ ≤ t → mem (t + 1) = (issued ws go t₀ t).elim (mem t) (store (mem t))

/-- The words of the image that `paint` has written before cycle `t`. -/
def imported (go : ℕ → Bool) (t₀ t : ℕ) : ℕ :=
  done go t₀ t - (disableVfw ++ enableJfw).length

variable {g : Generics} {ws : List BusWrite} {go : ℕ → Bool} {mem : ℕ → ℕ → BitVec 8}
  {src : ℕ → ImageSource.Ports} {inp : ℕ → Ports} {t₀ t j : ℕ} {digit : Gui.Pixels}

/-! ### The image buffer during the import -/

theorem store_register {memory : ℕ → BitVec 8} {w : BusWrite} (h : w.address < imageBufferAddr) :
    store memory w = memory := if_neg (by omega)

theorem length_toList (digit : Gui.Pixels) : digit.toList.length / 4 = frameWords := by
  rw [Vector.length_toList]
  decide

/-- The buffer after the first `n` writes of `paint`. -/
theorem store_paint (memory : ℕ → BitVec 8) (digit : Gui.Pixels) (n : ℕ) :
    ((paint digit.toList).take n).foldl store memory = fun o =>
      if o < 4 * min (n - (disableVfw ++ enableJfw).length) frameWords then fileByte digit.toList o
      else memory o := by
  have hregisters : ∀ ws : List BusWrite, (∀ w ∈ ws, w.address < imageBufferAddr) →
      ws.foldl store memory = memory := by
    intro ws hws
    induction ws with
    | nil => rfl
    | cons w ws ih =>
      rw [List.foldl_cons, store_register (hws w List.mem_cons_self)]
      exact ih fun v hv => hws v (List.mem_cons_of_mem w hv)
  have hlow : ∀ w ∈ disableVfw ++ enableJfw, w.address < imageBufferAddr := by decide
  rw [paint, List.take_append, List.foldl_append,
    hregisters _ fun w hw => hlow w (List.mem_of_mem_take hw), importRGB, ← List.map_take,
    List.take_range, store_imageWrites, length_toList]

theorem Console.memory_eq (hc : Console g ws go mem src inp t₀) (ht : t₀ ≤ t) :
    mem t = (ws.take (done go t₀ t)).foldl store (mem t₀) :=
  eq_foldl_issued hc.memory ht

/-- Word `j` of the buffer is new from the cycle after its import on. -/
theorem Console.word (hc : Console g (paint digit.toList) go mem src inp t₀) (ht : t₀ ≤ t)
    (hj : j < frameWords) :
    bufferWord (mem t) j =
      if j < imported go t₀ t then bufferWord (fileByte digit.toList) j
      else bufferWord (mem t₀) j := by
  rw [hc.memory_eq ht, store_paint]
  unfold imported
  by_cases h : j < done go t₀ t - (disableVfw ++ enableJfw).length
  · rw [if_pos h]
    exact bufferWord_ext fun n hn => if_pos (by omega)
  · rw [if_neg h]
    exact bufferWord_ext fun n hn => if_neg (by omega)

/-! ### The interrupt enable during the import -/

/-- The clocked register holds what the writes performed so far leave in it. -/
theorem Console.irqEn (hc : Console g ws go mem src inp t₀) (ht : t₀ ≤ t) :
    (ImageSource.run src t).irqEn =
      (ws.take (done go t₀ t)).foldl writeIrqEn (ImageSource.run src t₀).irqEn := by
  refine eq_foldl_issued (x := fun t => (ImageSource.run src t).irqEn) (fun t ht => ?_) ht
  have hn : (src t).resetN = true := by
    rw [hc.source t ht, consolePorts]
    cases issued ws go t₀ t <;> rfl
  show (ImageSource.run src (t + 1)).irqEn = _
  rw [ImageSource.run_succ, ImageSource.irqEn_step hn, hc.source t ht, consolePorts]
  cases issued ws go t₀ t <;> rfl

/-- In any schedule the clocked system goes where the sequential hardware goes with the
writes performed so far. -/
theorem Console.performs (hc : Console g ws go mem src inp t₀) (ht : t₀ ≤ t) {h : Hardware}
    (hirq : h.source.irqEn = (ImageSource.run src t₀).irqEn) (hmem : h.memory = mem t₀) :
    (ImageSource.run src t).irqEn = (h.perform (ws.take (done go t₀ t))).source.irqEn ∧
      mem t = (h.perform (ws.take (done go t₀ t))).memory := by
  rw [hc.irqEn ht, hc.memory_eq ht, Hardware.perform_irqEn, Hardware.perform_memory, hirq, hmem]
  exact ⟨rfl, rfl⟩

/-! ### Words of a frame -/

/-- The bytes of an image. -/
def SameImage (buf buf' : ℕ → BitVec 8) : Prop := ∀ o < 4 * frameWords, buf o = buf' o

theorem sameImage_iff {buf buf' : ℕ → BitVec 8} :
    SameImage buf buf' ↔ ∀ j < frameWords, bufferWord buf j = bufferWord buf' j :=
  ⟨fun h _ hj => bufferWord_congr h (by omega), fun h => eq_of_bufferWord h⟩

theorem imported_mono {a b : ℕ} (h : t₀ ≤ a) (hab : a ≤ b) :
    imported go t₀ a ≤ imported go t₀ b :=
  Nat.sub_le_sub_right (done_mono h hab) _

theorem Console.frameWord {buf : ℕ → BitVec 8} {r : ℕ → ℕ} {T : ℕ}
    (hc : Console g (paint digit.toList) go mem src inp t₀) (ht : t₀ ≤ t)
    (hr : Sampled g mem inp buf r t T) (hj : j < frameWords) :
    bufferWord buf j =
      if j < imported go t₀ (r j) then bufferWord (fileByte digit.toList) j
      else bufferWord (mem t₀) j := by
  have hbefore := (hr.within j hj).1
  rw [hr.word j hj, hc.word (by omega) hj]

/-! ### A console that pauses -/

/-- The console pauses after the first word of the image. -/
def pausedGo (t : ℕ) : Bool := decide (t < 6) || decide (4000000 ≤ t)

def pausedWrites : List BusWrite := paint Gui.white.toList

def pausedSource (t : ℕ) : ImageSource.Ports :=
  consolePorts (issued pausedWrites pausedGo 0 t) false

/-- A black buffer under the import of a white image. -/
def pausedBuffer (t : ℕ) : ℕ → BitVec 8 :=
  (pausedWrites.take (done pausedGo 0 t)).foldl store fun _ => 0

def pausedGenerics : Generics := ⟨0x80000, fun _ => 0⟩

def pausedPorts : ℕ → Ports :=
  attachedPorts pausedGenerics pausedBuffer fun t =>
    { Ports.silent with frameWriterIrq := irqLine pausedSource t }

theorem paused_console :
    Console pausedGenerics (paint Gui.white.toList) pausedGo pausedBuffer pausedSource
      pausedPorts 0 where
  base := rfl
  serves := servesOver_attached (fun _ _ => rfl) fun t _ => ⟨t, le_rfl, rfl, fun _ h => by cases h⟩
  source _ _ := rfl
  wired _ _ := rfl
  memory t ht := foldl_issued_succ store _ ht

theorem paused_done {t : ℕ} (h : 6 ≤ t) (ht : t ≤ 4000000) : done pausedGo 0 t = 6 := by
  rw [done_of_not (Nat.zero_le 6) h fun u h1 h2 => ?_]
  · rfl
  · simp [pausedGo]
    omega

/-- The interrupt rises with the write that enables it, in cycle 5. -/
theorem paused_irqLine {t : ℕ} (ht : t ≤ 5) : irqLine pausedSource t = decide (t = 5) := by
  have hn : ∀ u, (pausedSource u).resetN = true := by
    intro u
    rw [pausedSource, consolePorts]
    cases issued pausedWrites pausedGo 0 u <;> rfl
  rw [irqLine, ImageSource.irq, paused_console.irqEn (Nat.zero_le t), ImageSource.pg_pulseOut hn]
  interval_cases t <;> rfl

/-- The reader is quiet until then, and one frame follows. -/
theorem paused_frame : ∃ buf T, Frame pausedGenerics buf (run pausedGenerics pausedPorts)
    pausedPorts 6 T ∧ T ≤ 4000000 := by
  have hirq : ∀ t, (pausedPorts t).frameWriterIrq = irqLine pausedSource t := fun _ => rfl
  have hlow : ∀ u, 0 ≤ u → u < 5 →
      risingEdge (run pausedGenerics pausedPorts u) (pausedPorts u) = false := by
    intro u _ hu
    apply risingEdge_low
    rw [hirq, paused_irqLine (by omega), decide_eq_false (by omega)]
  have hquiet : Quiet (run pausedGenerics pausedPorts 5) :=
    Quiet.until (a := 0) ⟨rfl, rfl⟩ (Nat.zero_le 5) (fun _ _ _ => rfl) hlow
  have hrise : risingEdge (run pausedGenerics pausedPorts 5) (pausedPorts 5) = true := by
    rw [risingEdge_next (t := 4) rfl, hirq, hirq, paused_irqLine le_rfl, paused_irqLine (by decide)]
    rfl
  obtain ⟨hidle, hevent, -⟩ := hquiet.edge rfl hrise
  have hserves : ServesOver pausedGenerics pausedBuffer (run pausedGenerics pausedPorts)
      pausedPorts (some 0) 6 :=
    servesOver_attached (fun _ _ => rfl) fun t _ => ⟨t, le_rfl, rfl, fun _ _ => Nat.le_add_right ..⟩
  obtain ⟨buf, T, -, hf, -, hT⟩ := hserves.frame hidle hevent
  refine ⟨buf, T, hf, (hT 0 rfl).trans ?_⟩
  decide

theorem bufferWord_white (hj : j < frameWords) :
    bufferWord (fileByte Gui.white.toList) j = 0xFFFFFFFF#32 := by
  have hbyte : ∀ n < 4, fileByte Gui.white.toList (4 * j + n) = 255#8 := by
    intro n hn
    have hlt : 4 * j + n < Gui.width * Gui.height * 3 :=
      show 4 * j + n < 4 * frameWords by omega
    rw [fileByte, Gui.white, Vector.toList_replicate, List.getD_eq_getElem?_getD,
      List.getElem?_replicate, if_pos hlt]
    rfl
  rw [@bufferWord_ext (fun _ => 255#8) _ j hbyte, bufferWord]
  decide

theorem bufferWord_black : bufferWord (pausedBuffer 0) j = 0#32 := by
  rw [pausedBuffer, done_self, List.take_zero, List.foldl_nil, bufferWord]
  decide

/-! ### Frames during the import -/

/-- What a frame from `t` to `T` consists of, with word `j` read in the cycle `r j`: it
is new where the import was there first and old elsewhere. So it is old (new) as a whole
exactly when the images agree in the words that were (were not) imported before they
were read; before the first imported word and after the last one that is always so. -/
structure MixedFrame (g : Generics) (go : ℕ → Bool) (old new : ℕ → BitVec 8) (inp : ℕ → Ports)
    (t₀ t T : ℕ) (buf : ℕ → BitVec 8) (r : ℕ → ℕ) : Prop where
  within : ∀ j < frameWords, t ≤ r j ∧ r j < T
  accepted : ∀ j < frameWords, acceptedRead (run g inp) inp (r j) = some (wordAddress g j)
  word : ∀ j < frameWords, bufferWord buf j =
    if j < imported go t₀ (r j) then bufferWord new j else bufferWord old j
  old_iff : SameImage buf old ↔
    ∀ j < frameWords, j < imported go t₀ (r j) → bufferWord new j = bufferWord old j
  new_iff : SameImage buf new ↔
    ∀ j < frameWords, imported go t₀ (r j) ≤ j → bufferWord old j = bufferWord new j
  before : imported go t₀ T = 0 → SameImage buf old
  after : frameWords ≤ imported go t₀ t → SameImage buf new

/-- Every frame that the reader completes. -/
theorem painted_frame (g : Generics) (digit : Gui.Pixels) (go : ℕ → Bool)
    (mem : ℕ → ℕ → BitVec 8) (src : ℕ → ImageSource.Ports) (inp : ℕ → Ports) (t₀ : ℕ)
    (hc : Console g (paint digit.toList) go mem src inp t₀) (t : ℕ) (ht : t₀ ≤ t)
    (buf : ℕ → BitVec 8) (T : ℕ) (hf : Frame g buf (run g inp) inp t T) :
    ∃ r, MixedFrame g go (mem t₀) (fileByte digit.toList) inp t₀ t T buf r := by
  obtain ⟨r, hr⟩ := hf.sampled (hc.serves.later ht)
  have hword := fun j (hj : j < frameWords) => hc.frameWord ht hr hj
  have hold : SameImage buf (mem t₀) ↔ ∀ j < frameWords, j < imported go t₀ (r j) →
      bufferWord (fileByte digit.toList) j = bufferWord (mem t₀) j := by
    rw [sameImage_iff]
    apply forall₂_congr
    intro j hj
    rw [hword j hj]
    split_ifs with h <;> simp [h]
  have hnew : SameImage buf (fileByte digit.toList) ↔ ∀ j < frameWords,
      imported go t₀ (r j) ≤ j →
        bufferWord (mem t₀) j = bufferWord (fileByte digit.toList) j := by
    rw [sameImage_iff]
    apply forall₂_congr
    intro j hj
    rw [hword j hj]
    split_ifs with h
    · simp [h]
    · simp [Nat.le_of_not_lt h]
  refine ⟨r, fun j hj => ?_, hr.accepted, hword, hold, hnew,
    fun hnone => hold.mpr fun j hj hlt => ?_, fun hall => hnew.mpr fun j hj hle => ?_⟩
  · obtain ⟨hstart, hend⟩ := hr.within j hj
    omega
  · obtain ⟨hstart, hend⟩ := hr.within j hj
    have hmono : imported go t₀ (r j) ≤ imported go t₀ T :=
      imported_mono (by omega) (by omega)
    omega
  · have hmono : imported go t₀ t ≤ imported go t₀ (r j) := imported_mono ht (hr.within j hj).1
    omega

/-- The frame during the pause. -/
theorem painted_frame_paused :
    ∃ buf T, Frame pausedGenerics buf (run pausedGenerics pausedPorts) pausedPorts 6 T ∧
      ∃ r, MixedFrame pausedGenerics pausedGo (pausedBuffer 0) (fileByte Gui.white.toList)
        pausedPorts 0 6 T buf r := by
  obtain ⟨buf, T, hf, -⟩ := paused_frame
  exact ⟨buf, T, hf, painted_frame pausedGenerics Gui.white pausedGo pausedBuffer pausedSource
    pausedPorts 0 paused_console 6 (Nat.zero_le 6) buf T hf⟩

/-- The first word is imported before the frame, the others after it: a white word in
front of a black image. -/
theorem painted_frame_torn :
    ¬∀ (g : Generics) (digit : Gui.Pixels) (go : ℕ → Bool) (mem : ℕ → ℕ → BitVec 8)
      (src : ℕ → ImageSource.Ports) (inp : ℕ → Ports) (t₀ : ℕ),
      Console g (paint digit.toList) go mem src inp t₀ →
        ∀ t, t₀ ≤ t → ∀ buf T, Frame g buf (run g inp) inp t T →
          SameImage buf (mem t₀) ∨ SameImage buf (fileByte digit.toList) := by
  intro h
  obtain ⟨buf, T, hf, hT⟩ := paused_frame
  obtain ⟨r, hr⟩ := hf.sampled (paused_console.serves.later (Nat.zero_le 6))
  have himported : ∀ j < frameWords, imported pausedGo 0 (r j) = 1 := by
    intro j hj
    obtain ⟨hstart, hend⟩ := hr.within j hj
    rw [imported, paused_done hstart (by omega)]
    rfl
  have hword : ∀ j < frameWords, bufferWord buf j =
      if j < 1 then bufferWord (fileByte Gui.white.toList) j
      else bufferWord (pausedBuffer 0) j := by
    intro j hj
    rw [paused_console.frameWord (Nat.zero_le 6) hr hj, himported j hj]
  rcases h pausedGenerics Gui.white pausedGo pausedBuffer pausedSource pausedPorts 0
    paused_console 6 (Nat.zero_le 6) buf T hf with hold | hnew
  · have hzero := sameImage_iff.mp hold 0 (by decide)
    rw [hword 0 (by decide), if_pos Nat.one_pos, bufferWord_white (by decide),
      bufferWord_black] at hzero
    exact absurd hzero (by decide)
  · have hone := sameImage_iff.mp hnew 1 (by decide)
    rw [hword 1 (by decide), if_neg (Nat.lt_irrefl 1), bufferWord_white (by decide),
      bufferWord_black] at hone
    exact absurd hone (by decide)

end AlteraWorkshops.Lab
