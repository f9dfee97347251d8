import AlteraWorkshops.OneAi.SharedBuffer

/-! The pixel reader against its purpose: one frame trigger reads the frame
buffer once, word by word, and emits the 128x128 pixels packed in it, in order. -/

namespace AlteraWorkshops.OneAi

open Clocked

section Memory

variable (g : Generics) (buf : ℕ → BitVec 8) (s : ℕ → State) (inp : ℕ → Ports)

/-- The memory behind the Avalon master from cycle `t₀` on, out of reset: it
returns the word at the address in the accept cycle, keeps the data bus until the
next read, and keeps no read waiting for ever. -/
structure Serves (t₀ : ℕ) : Prop where
  resetN : ∀ t, t₀ ≤ t → (inp t).resetN = true
  data : ∀ t, t₀ ≤ t → (s t).pixel.avmRead = true → (inp t).avmWaitrequest = false →
    (inp t).avmReaddata = slaveWord g buf (s t).pixel.avmAddress
  holds : ∀ t, t₀ ≤ t → (s (t + 1)).pixel.avmRead = false →
    (inp (t + 1)).avmReaddata = (inp t).avmReaddata
  accepts : ∀ t, t₀ ≤ t → (s t).pixel.avmRead = true →
    ∃ u, t ≤ u ∧ (inp u).avmWaitrequest = false

variable {g buf inp} {t t₀ : ℕ}

theorem Serves.servesOver (h : Serves g buf (run g inp) inp t₀) :
    ServesOver g (fun _ => buf) (run g inp) inp none t₀ where
  resetN := h.resetN
  accepts t ht hr := by
    obtain ⟨u, htu, hu⟩ := h.accepts t ht hr
    exact ⟨u, htu, hu, fun w hw => by cases hw⟩
  data := h.data
  holds := h.holds

/-- A trigger in the idle state runs one frame and returns to idle. -/
theorem frame_run (hm : Serves g buf (run g inp) inp t₀)
    (hidle : (run g inp t₀).pixel.state = .idleState)
    (htrigger : (run g inp t₀).irq.newFrameAvailable = true) :
    ∃ T, t₀ < T ∧ (run g inp T).pixel.state = .idleState ∧
      (∀ t, t₀ < t → t < T → (run g inp t).pixel.state ≠ .idleState) ∧
      collect (acceptedRead (run g inp) inp) t₀ T =
        (List.range frameWords).map (wordAddress g) ∧
      collect (pulse (run g inp)) t₀ T = (List.range frameSize).map (framePixel buf) ∧
      (run g inp T).pixel.pixelValid = true := by
  obtain ⟨buf', T, r, hread, hr, -⟩ := hm.servesOver.frame hidle htrigger
  have hf := hread.congr hr.word
  exact ⟨T, hf.later, hf.idle, hf.busy, hf.reads, hf.pixels, hf.last⟩

end Memory

/-- One trigger in the idle state reads the buffer once and emits its 16384
pixels in order, the last of them with the return to idle. -/
theorem frame_read (g : Generics) (buf : ℕ → BitVec 8) (inp : ℕ → Ports) (t₀ : ℕ)
    (hm : Serves g buf (run g inp) inp t₀) (hidle : (run g inp t₀).pixel.state = .idleState)
    (htrigger : (run g inp t₀).irq.newFrameAvailable = true) :
    ∃ T, t₀ < T ∧ (run g inp T).pixel.state = .idleState ∧
      (∀ t, t₀ < t → t < T → (run g inp t).pixel.state ≠ .idleState) ∧
      collect (acceptedRead (run g inp) inp) t₀ T =
        (List.range 12288).map (fun j => g.bufferBaseAddr + BitVec.ofNat 32 (4 * j)) ∧
      collect (pulse (run g inp)) t₀ T = (List.range 16384).map (framePixel buf) ∧
      (run g inp T).pixel.pixelValid = true :=
  frame_run hm hidle htrigger

/-! ### A buffer of counting bytes -/

def rampBuffer (k : ℕ) : BitVec 8 := BitVec.ofNat 8 k

/-- A frame writer edge in cycle 0, and a memory that accepts a read in every third
cycle. -/
def waitingPorts (t : ℕ) : Ports :=
  { Ports.silent with frameWriterIrq := t == 0, avmWaitrequest := t % 3 != 0 }

theorem ramp_serves (g : Generics) :
    let inp := attachedPorts g (fun _ => rampBuffer) waitingPorts
    Serves g rampBuffer (run g inp) inp 1 := by
  intro inp
  have hwait : ∀ t, ∃ u, t ≤ u ∧ (waitingPorts u).avmWaitrequest = false := fun t =>
    ⟨3 * t, by omega, by simp [waitingPorts]⟩
  have h : ServesOver g (fun _ => rampBuffer) (run g inp) inp none 1 :=
    servesOver_attached (fun _ _ => rfl) fun t _ => by
      obtain ⟨u, htu, hu⟩ := hwait t
      exact ⟨u, htu, hu, fun w hw => by cases hw⟩
  exact ⟨h.resetN, h.data, h.holds, fun t _ _ => hwait t⟩

theorem frame_read_ramp :
    let g : Generics := ⟨0x80000, fun _ => 0⟩
    let inp := attachedPorts g (fun _ => rampBuffer) waitingPorts
    ∃ T, 1 < T ∧ (run g inp T).pixel.state = .idleState ∧
      (∀ t, 1 < t → t < T → (run g inp t).pixel.state ≠ .idleState) ∧
      collect (acceptedRead (run g inp) inp) 1 T =
        (List.range 12288).map (fun j => g.bufferBaseAddr + BitVec.ofNat 32 (4 * j)) ∧
      collect (pulse (run g inp)) 1 T = (List.range 16384).map (framePixel rampBuffer) ∧
      (run g inp T).pixel.pixelValid = true := by
  intro g inp
  exact frame_read g rampBuffer inp 1 (ramp_serves g) rfl rfl

end AlteraWorkshops.OneAi
